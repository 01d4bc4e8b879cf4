import Mathlib
import LizardFs.Master.ChangelogText
import LizardFs.Metarestore.Replay

/-!
# metarestore rebuilds the master's metadata from its changelog

The master writes each change twice over: into its metadata, and as a line
`version: ts|ENTRY` of its changelog file (`fs_changelog`, `changelog`). metarestore
reads such files back (`merger_nextentry`), and replays them onto the metadata file
the master stored earlier (`restore`, `restore_line`). This module puts the pieces
together for the chunk operations of a session:

* `acceptedEntries_changelogLines` — `merger_nextentry` reads back every line the
  master wrote, with its version;
* `mergedEntries_single` — one file is merged into itself;
* `restore_changelogLine` — `restore()` replays the line of a logged entry as the
  shadow replays the entry;
* `metarestore_rebuilds_master` — metarestore, given the changelog file of a run of
  the master and the metadata the master started from, returns OK with metadata
  that agrees with the master's at the end of the run.

`restore_line` calls the shadow's `fs_*` functions; those of `WRITE` and `TRUNC`
are the model's (`FsCall.apply`), the others a parameter, `fsOther`.
-/

namespace LizardFs

open CString ArrayHeap Restore ChunksMetadata

/-! ## The changelog file read back -/

/-- The lines `changelog(version, entry)` appends for the entries, the first under
version `v` and each next one under the next (`gMetadata->metaversion++`). -/
def changelogLines (v : Nat) (entries : List Bytes) : List Bytes :=
  ((List.range' v entries.length).zip entries).map fun ve => changelogFileLine (UInt64.ofNat ve.1) ve.2

/-- What `merger_nextentry` takes from those lines: the version, and the line after it. -/
def changelogReadBack (v : Nat) (entries : List Bytes) : List (UInt64 × Bytes) :=
  ((List.range' v entries.length).zip entries).map fun ve => (UInt64.ofNat ve.1, lit ": " ++ ve.2 ++ lit "\n")

@[simp] theorem changelogLines_nil (v : Nat) : changelogLines v [] = [] := rfl

theorem changelogLines_cons (v : Nat) (e : Bytes) (es : List Bytes) :
    changelogLines v (e :: es) = changelogFileLine (UInt64.ofNat v) e :: changelogLines (v + 1) es := by
  simp [changelogLines, List.range'_succ]

@[simp] theorem changelogReadBack_nil (v : Nat) : changelogReadBack v [] = [] := rfl

theorem changelogReadBack_cons (v : Nat) (e : Bytes) (es : List Bytes) :
    changelogReadBack v (e :: es) = (UInt64.ofNat v, lit ": " ++ e ++ lit "\n") :: changelogReadBack (v + 1) es := by
  simp [changelogReadBack, List.range'_succ]

/-- A version below `2 ^ 64` is kept by the `uint64_t`. -/
theorem toNat_ofNat_version {n : Nat} (h : n < 2 ^ 64) : (UInt64.ofNat n).toNat = n :=
  UInt64.toNat_ofNat_of_lt' h

/-- `strtoull` reads back the version `changelog` printed in front of the entry. -/
theorem strtoul_changelogFileLine (v : UInt64) (entry : Bytes) :
    strtoul (changelogFileLine v entry) = (v, lit ": " ++ entry ++ lit "\n") := by
  have hcolon : isDigit (peek (lit ": " ++ entry ++ lit "\n")) = false := by
    simp [lit]
  rw [changelogFileLine, fmtU, List.append_assoc, List.append_assoc, ← List.append_assoc (lit ": "),
    strtoul_decimal v.toNat_lt hcolon, UInt64.ofNat_toNat]

/-- A line whose version comes right after the last one is taken. -/
theorem mergerNextentry_changelogFileLine (maxidhole : UInt64) (hhole : 1 < maxidhole.toNat) {k : Nat}
    (hfit : k + maxidhole.toNat < 2 ^ 64) (e : Bytes) (lines : List Bytes) (ptr : Bytes) :
    mergerNextentry maxidhole ⟨changelogFileLine (UInt64.ofNat (k + 1)) e :: lines, ptr, UInt64.ofNat k⟩ =
      ⟨lines, lit ": " ++ e ++ lit "\n", UInt64.ofNat (k + 1)⟩ := by
  have hk' : (UInt64.ofNat k).toNat = k := toNat_ofNat_version (by omega)
  have hk1 : (UInt64.ofNat (k + 1)).toNat = k + 1 := toNat_ofNat_version (by omega)
  -- the version goes up by one, less than `maxidhole`, with no wrap
  have hup : UInt64.ofNat k < UInt64.ofNat (k + 1) := by
    rw [UInt64.lt_iff_toNat_lt, hk', hk1]
    omega
  have hwin : UInt64.ofNat (k + 1) < UInt64.ofNat k + maxidhole := by
    rw [UInt64.lt_iff_toNat_lt, UInt64.toNat_add, hk', hk1, Nat.mod_eq_of_lt hfit]
    omega
  simp only [mergerNextentry, strtoul_changelogFileLine, hup, hwin, and_self, or_true, if_true]

/-- Reading on from the line of version `k`: the rest of the file, version after
version. -/
theorem fileEntries_changelogLines (maxidhole : UInt64) (hhole : 1 < maxidhole.toNat) (entries : List Bytes) :
    ∀ (k : Nat) (ptr : Bytes), k ≠ 0 → k + entries.length + maxidhole.toNat < 2 ^ 64 →
      fileEntries maxidhole ⟨changelogLines (k + 1) entries, ptr, UInt64.ofNat k⟩ =
        (UInt64.ofNat k, ptr) :: changelogReadBack (k + 1) entries := by
  -- induction on the entries still to read, from any version
  induction entries with
  | nil =>
    intro k ptr hk hfit
    have h0 : UInt64.ofNat k ≠ 0 := by
      rw [Ne, ← UInt64.toNat_inj, toNat_ofNat_version (by simp at hfit; omega)]
      exact hk
    rw [fileEntries_of_ne_zero maxidhole h0, changelogLines_nil, fileEntries_of_eq_zero maxidhole rfl,
      changelogReadBack_nil]
  | cons e es ih =>
    intro k ptr hk hfit
    have h0 : UInt64.ofNat k ≠ 0 := by
      rw [Ne, ← UInt64.toNat_inj, toNat_ofNat_version (by simp at hfit; omega)]
      exact hk
    simp only [List.length_cons] at hfit
    rw [fileEntries_of_ne_zero maxidhole h0, changelogLines_cons,
      mergerNextentry_changelogFileLine maxidhole hhole (by omega), ih (k + 1) _ (by omega) (by omega),
      changelogReadBack_cons]

/-- **The changelog file read back.** `merger_nextentry` takes every line the
master wrote from a version `v ≠ 0` on, each with its version, as long as the
versions stay `maxidhole` below `2 ^ 64`. -/
theorem acceptedEntries_changelogLines (maxidhole : UInt64) (hhole : 1 < maxidhole.toNat) {v : Nat} (hv : v ≠ 0)
    (entries : List Bytes) (hfit : v + entries.length + maxidhole.toNat < 2 ^ 64) :
    acceptedEntries maxidhole (some (changelogLines v entries)) = changelogReadBack v entries := by
  cases entries with
  | nil => exact fileEntries_of_eq_zero maxidhole rfl
  | cons e es =>
    -- the first line is taken whatever its version
    have hfirst : mergerNewEntry maxidhole (some (changelogLines v (e :: es))) =
        ⟨changelogLines (v + 1) es, lit ": " ++ e ++ lit "\n", UInt64.ofNat v⟩ := by
      simp only [mergerNewEntry, changelogLines_cons, mergerNextentry, strtoul_changelogFileLine, true_or, if_true]
    simp only [List.length_cons] at hfit
    rw [acceptedEntries, hfirst, fileEntries_changelogLines maxidhole hhole es v _ hv (by omega),
      changelogReadBack_cons]

/-! ## One file -/

/-- A heap of one file hands on the entries of that file. -/
theorem mergerTrace_one (maxidhole : UInt64) (h : HEntry) :
    ∀ heap : ℕ → HEntry, heap 0 = h → h.nextid ≠ 0 → mergerTrace maxidhole heap 1 = fileEntries maxidhole h := by
  induction h using fileEntries.induct maxidhole with
  | case1 h h0 =>
    intro _ _ hne
    exact absurd h0 hne
  | case2 h h0 ih =>
    intro heap hh _
    rw [mergerTrace, if_neg one_ne_zero, fileEntries_of_ne_zero maxidhole h0, hh]
    congr 1
    unfold mergerAdvance
    rw [hh]
    split_ifs with h1 <;> dsimp only
    · -- the file is done, and so is the heap
      rw [fileEntries_of_eq_zero maxidhole h1, mergerTrace, if_pos rfl]
    · -- `merger_heap_sort_down()` has nothing to do in a heap of one entry
      rw [siftDown, dif_neg (by omega)]
      exact ih _ (Function.update_self _ _ _) h1

/-- `merger_start` and `merger_loop` on one file hand on that file's entries. -/
theorem mergedEntries_single (maxidhole : UInt64) (file : Option (List Bytes)) :
    mergedEntries maxidhole [file] = acceptedEntries maxidhole file := by
  rw [mergedEntries, mergerStart, List.foldl_cons, List.foldl_nil, mergerAddFile, acceptedEntries]
  split_ifs with h0 <;> dsimp only
  · rw [fileEntries_of_eq_zero maxidhole h0, mergerTrace, if_pos rfl]
  · -- `merger_heap_sort_up()` leaves a heap of one entry alone
    rw [siftUp, dif_pos rfl]
    exact mergerTrace_one maxidhole _ _ (Function.update_self _ _ _) h0

/-! ## `restore_line` on the shadow's metadata -/

/-- `LIZARDFS_ERROR_MAX`: what `restore_line` returns for a line of no known entry. -/
def errorMax : UInt8 := 57

/-- `fs_getversion()`: the metadata's version. -/
def fsGetversion (s : FsMetadata) : UInt64 := UInt64.ofNat s.metaversion

/-- `restore_line(filename, lv, line)` on the metadata `s`: the status it returns and
the metadata after it. The `fs_*` call of the entry is the model's for `WRITE` and
`TRUNC` (`FsCall.apply`), and `fsOther` for the other entries. -/
def restoreLineOn (fsOther : FsMetadata → UInt32 → FsCall → FsMetadata × Status) (s : FsMetadata) (line : Bytes) :
    LineStatus × FsMetadata :=
  match restoreLine line with
  | .unknownEntry => (.status errorMax, s)
  | .parseError => (.parseError, s)
  | .invalidLockType _ => (.status Status.einval.code, s)
  | .call ts c => (.status ((c.apply s ts).getD (fsOther s ts c)).2.code, ((c.apply s ts).getD (fsOther s ts c)).1)

section Shadow

variable (fsOther : FsMetadata → UInt32 → FsCall → FsMetadata × Status)

/-- `restore_line` on the line of an entry the master logged replays the entry. -/
theorem restoreLineOn_changelogLine {s : FsMetadata} {ts : UInt32} {e : ChangelogEntry} (he : e.Fits)
    {rest : Bytes} (hrest : LineEnd rest) :
    restoreLineOn fsOther s (lit ": " ++ fsChangelogLine ts e.change ++ rest) =
      (.status (restoreEntry s ts e).2.code, (restoreEntry s ts e).1) := by
  rw [restoreLineOn, e.restoreLine_change ts hrest]
  simp only [e.apply_restored he, Option.getD_some]

/-- **A logged entry replays through `restore()`.** From versions in step with the
shadow's metadata, the line of the next version is replayed as the shadow replays
the entry, and the versions move on by one. -/
theorem restore_changelogLine {vs : RestoreVersions} {s s₁ : FsMetadata} {ts : UInt32} {e : ChangelogEntry}
    (hs : Synced fsGetversion vs s) (hcur : vs.currentFsVersion.toNat + 1 = s.metaversion)
    (he : e.Fits) (hres : restoreEntry s ts e = (s₁, .ok)) (hmv : s₁.metaversion = s.metaversion + 1)
    (hfit : s.metaversion + 1 < 2 ^ 64) {rest : Bytes} (hrest : LineEnd rest) (rigor : RestoreRigor) :
    restore fsGetversion (restoreLineOn fsOther) vs s (UInt64.ofNat s.metaversion)
        (lit ": " ++ fsChangelogLine ts e.change ++ rest) rigor =
      (⟨fsGetversion s₁, UInt64.ofNat s.metaversion⟩, s₁, 0) := by
  have hv : (UInt64.ofNat s.metaversion).toNat = vs.currentFsVersion.toNat + 1 := by
    rw [toNat_ofNat_version (by omega)]
    omega
  -- the metadata's version after the line is the entry's plus one
  have hbump : UInt64.ofNat s.metaversion + 1 = fsGetversion s₁ := by
    rw [fsGetversion, hmv, ← UInt64.toNat_inj, toNat_add_one_of_lt (by rw [toNat_ofNat_version (by omega)]; omega),
      toNat_ofNat_version (by omega), toNat_ofNat_version hfit]
  rw [hs.restore_of_eq _ hv, restoreLineOn_changelogLine fsOther he hrest, hres]
  simp only [Status.code, ne_eq, not_true_eq_false, if_false, hbump]

end Shadow

/-! ## A run of the master, replayed -/

/-- The master runs the chunk operations in turn, each at its clock and chunkservers,
with its quota state and session: the metadata at the end, when every one succeeded. -/
def ChunkOp.runAll : FsMetadata → List (ChunkOp × ChunkEnv × Bool × SessionData) → Option FsMetadata
  | m, [] => some m
  | m, (op, env, quota, session) :: ops =>
    match op.runOnMaster m env quota session with
    | some m' => ChunkOp.runAll m' ops
    | none => none

theorem ChunkOp.runAll_cons_eq_some {m m' : FsMetadata} {op : ChunkOp} {env : ChunkEnv} {quota : Bool}
    {session : SessionData} {ops : List (ChunkOp × ChunkEnv × Bool × SessionData)}
    (h : ChunkOp.runAll m ((op, env, quota, session) :: ops) = some m') :
    ∃ m₁, op.runOnMaster m env quota session = some m₁ ∧ ChunkOp.runAll m₁ ops = some m' := by
  rw [ChunkOp.runAll] at h
  split at h
  · rename_i m₁ h₁
    exact ⟨m₁, h₁, h⟩
  · cases h

/-- A chunk operation that succeeds takes one metaversion. -/
theorem ChunkOp.runOnMaster_metaversion {m m' : FsMetadata} {env : ChunkEnv} {quota : Bool} {session : SessionData}
    {op : ChunkOp} (h : op.runOnMaster m env quota session = some m') : m'.metaversion = m.metaversion + 1 := by
  rcases ChunkOp.runOnMaster_eq_some h with ⟨inode, indx, dummy, lockid, r, -, hw⟩ |
      ⟨inode, opened, length, deny, lockId, n, -, hw⟩
  · obtain ⟨p, t, -, -, -, -, rfl⟩ := fsWritechunk_master_eq_ok rfl hw
    simp
  · obtain ⟨p, t, -, -, -, -, -, rfl⟩ := fsTrySetlength_eq_ok hw
    simp

/-- A run takes one metaversion for each operation. -/
theorem ChunkOp.runAll_metaversion {ops : List (ChunkOp × ChunkEnv × Bool × SessionData)} :
    ∀ {m m' : FsMetadata}, ChunkOp.runAll m ops = some m' → m'.metaversion = m.metaversion + ops.length := by
  induction ops with
  | nil =>
    intro m m' h
    cases h
    rfl
  | cons o ops ih =>
    obtain ⟨op, env, quota, session⟩ := o
    intro m m' h
    obtain ⟨m₁, hop, hrest⟩ := ChunkOp.runAll_cons_eq_some h
    rw [ih hrest, ChunkOp.runOnMaster_metaversion hop, List.length_cons]
    omega

/-- A run only appends to the changelog. -/
theorem ChunkOp.runAll_changelog {ops : List (ChunkOp × ChunkEnv × Bool × SessionData)} :
    ∀ {m m' : FsMetadata}, m.Valid → ChunkOp.runAll m ops = some m' →
      ∃ logged, m'.changelog = m.changelog ++ logged := by
  induction ops with
  | nil =>
    intro m m' _ h
    cases h
    exact ⟨[], by simp⟩
  | cons o ops ih =>
    obtain ⟨op, env, quota, session⟩ := o
    intro m m' hm h
    obtain ⟨m₁, hop, hrest⟩ := ChunkOp.runAll_cons_eq_some h
    obtain ⟨e, -, hlog, -⟩ := (FsAgree.refl m).replay hm hm.tallied hop
    obtain ⟨logged, hlogged⟩ := ih (hm.runOnMaster hop) hrest
    exact ⟨(env.now, e) :: logged, by rw [hlogged, hlog, List.append_assoc, List.singleton_append]⟩

/-- A run never lowers `nextchunkid`. -/
theorem ChunkOp.runAll_nextchunkid {ops : List (ChunkOp × ChunkEnv × Bool × SessionData)} :
    ∀ {m m' : FsMetadata}, m.Valid → ChunkOp.runAll m ops = some m' →
      m.chunks.nextchunkid ≤ m'.chunks.nextchunkid := by
  induction ops with
  | nil =>
    intro m m' _ h
    cases h
    exact le_rfl
  | cons o ops ih =>
    obtain ⟨op, env, quota, session⟩ := o
    intro m m' hm h
    obtain ⟨m₁, hop, hrest⟩ := ChunkOp.runAll_cons_eq_some h
    exact (ChunkOp.runOnMaster_logged hm hop).1.trans (ih (hm.runOnMaster hop) hrest)

/-- The lines the master writes for the entries it logged. -/
def loggedLines (logged : List (UInt32 × ChangelogEntry)) : List Bytes :=
  logged.map fun te => fsChangelogLine te.1 te.2.change

section Run

variable (fsOther : FsMetadata → UInt32 → FsCall → FsMetadata × Status)

/-- The versions after the line of version `v`, the shadow at version `v + 1`. -/
theorem synced_after {s₁ : FsMetadata} {v : Nat} (hmv : s₁.metaversion = v + 1) (hfit : v + 1 < 2 ^ 64) :
    Synced fsGetversion ⟨fsGetversion s₁, UInt64.ofNat v⟩ s₁ := by
  refine ⟨rfl, ?_⟩
  show (UInt64.ofNat s₁.metaversion).toNat = (UInt64.ofNat v).toNat + 1
  rw [toNat_ofNat_version (by omega), toNat_ofNat_version (by omega), hmv]

/-- **A run of the master replays through `restore()`.** A run of chunk operations
that all succeed logs one entry each; from versions in step with a shadow that
agrees with the master, `restore()` over the lines of those entries, each read
back with its version, returns OK with metadata that agrees with the master's at
the end of the run. -/
theorem restoreRun_changelog (rigor : RestoreRigor) (ops : List (ChunkOp × ChunkEnv × Bool × SessionData)) :
    ∀ {m s m' : FsMetadata} {vs : RestoreVersions}, FsAgree m s → m.Valid → Tallied s.chunks →
      ChunkOp.runAll m ops = some m' → (∀ te ∈ m'.changelog, te.2.Fits) → Synced fsGetversion vs s →
      vs.currentFsVersion.toNat + 1 = s.metaversion → m'.metaversion < 2 ^ 64 →
      ∃ logged, m'.changelog = m.changelog ++ logged ∧ m'.metaversion = m.metaversion + logged.length ∧
        ∃ vs' s', restoreRun fsGetversion (restoreLineOn fsOther) rigor vs s
            (changelogReadBack s.metaversion (loggedLines logged)) = (vs', s', 0) ∧
          FsAgree m' s' ∧ Tallied s'.chunks := by
  -- induction on the operations, from any agreeing master and shadow
  induction ops with
  | nil =>
    intro m s m' vs hag _ hs hrun _ _ _ _
    cases hrun
    exact ⟨[], by simp, by simp, vs, s, rfl, hag, hs⟩
  | cons o ops ih =>
    obtain ⟨op, env, quota, session⟩ := o
    intro m s m' vs hag hm hs hrun hfits hsync hcur hbound
    obtain ⟨m₁, hop, hrest⟩ := ChunkOp.runAll_cons_eq_some hrun
    -- the first operation: its entry replays on the shadow
    obtain ⟨e, s₁, hlog, hres, hag₁, hs₁⟩ := hag.replay hm hs hop
    have hmv₁ : m₁.metaversion = m.metaversion + 1 := ChunkOp.runOnMaster_metaversion hop
    have hsmv₁ : s₁.metaversion = s.metaversion + 1 := by rw [← hag₁.metaversion, hmv₁, hag.metaversion]
    have hfit : s.metaversion + 1 < 2 ^ 64 := by
      have := ChunkOp.runAll_metaversion hrest
      have := hag.metaversion
      omega
    -- the rest of the run, from the versions after the first line
    have hcur₁ : (UInt64.ofNat s.metaversion).toNat + 1 = s₁.metaversion := by
      rw [toNat_ofNat_version (by omega), hsmv₁]
    obtain ⟨logged, hlog', hmv', vs', s', hrun', hag', hs'⟩ :=
      ih hag₁ (hm.runOnMaster hop) hs₁ hrest hfits (synced_after hsmv₁ hfit) hcur₁ hbound
    have he : e.Fits := hfits (env.now, e) (by simp [hlog', hlog])
    refine ⟨(env.now, e) :: logged, by simp [hlog', hlog], by rw [hmv', hmv₁, List.length_cons]; omega,
      vs', s', ?_, hag', hs'⟩
    rw [loggedLines, List.map_cons, changelogReadBack_cons,
      restoreRun_cons_of_ok fsGetversion _ _ (restore_changelogLine fsOther hsync hcur he hres hsmv₁ hfit (Or.inr rfl) rigor)]
    rw [← hsmv₁]
    exact hrun'

/-- **metarestore rebuilds the master's metadata.** The master, from metadata `m` at
a version other than `0`, runs chunk operations that all succeed, and its
changelog file gets their entries from that version on. metarestore, given that
file and metadata that agrees with `m` (the metadata file the master stored at that
version), replays every line and returns OK, with metadata that agrees with the
master's at the end of the run. -/
theorem metarestore_rebuilds_master {ops : List (ChunkOp × ChunkEnv × Bool × SessionData)} {m s m' : FsMetadata}
    (hag : FsAgree m s) (hm : m.Valid) (hs : Tallied s.chunks) (hv : m.metaversion ≠ 0)
    (hrun : ChunkOp.runAll m ops = some m') (hfits : ∀ te ∈ m'.changelog, te.2.Fits)
    (hbound : m'.metaversion + kMaxIdHole.toNat < 2 ^ 64) :
    ∃ logged, m'.changelog = m.changelog ++ logged ∧ ∃ vs s',
      metarestoreReplay fsGetversion (restoreLineOn fsOther)
          [some (changelogLines m.metaversion (loggedLines logged))] s = (vs, s', 0) ∧
        FsAgree m' s' ∧ Tallied s'.chunks := by
  have hsv : s.metaversion = m.metaversion := hag.metaversion.symm
  have hhole : kMaxIdHole.toNat = 10000 := rfl
  have hmono := ChunkOp.runAll_metaversion hrun
  -- metarestore refuses version `0`; from any other the first call sets the versions up
  have hv' : fsGetversion s ≠ 0 := by
    rw [fsGetversion, Ne, ← UInt64.toNat_inj, toNat_ofNat_version (by omega)]
    simpa [hsv] using hv
  have hcur : (RestoreVersions.initial fsGetversion s).currentFsVersion.toNat + 1 = s.metaversion := by
    rw [initial_current_add_one hv', fsGetversion, toNat_ofNat_version (by omega)]
  obtain ⟨logged, hlog, hmv, vs', s', hrun', hag', hs'⟩ :=
    restoreRun_changelog fsOther .ignoreParseErrors ops hag hm hs hrun hfits (synced_initial hv') hcur (by omega)
  -- the file is read back line by line, and merged into itself
  have hread : mergedEntries kMaxIdHole [some (changelogLines m.metaversion (loggedLines logged))] =
      changelogReadBack s.metaversion (loggedLines logged) := by
    rw [mergedEntries_single, hsv]
    exact acceptedEntries_changelogLines kMaxIdHole (by decide) hv _ (by simp [loggedLines]; omega)
  have hsnd : (restoreRun fsGetversion (restoreLineOn fsOther) .ignoreParseErrors restoreReset s
      (changelogReadBack s.metaversion (loggedLines logged))).2 = (s', 0) := by
    rw [restoreRun_restoreReset_snd, hrun']
  refine ⟨logged, hlog, (restoreRun fsGetversion (restoreLineOn fsOther) .ignoreParseErrors restoreReset s
    (changelogReadBack s.metaversion (loggedLines logged))).1, s', ?_, hag', hs'⟩
  rw [metarestoreReplay_eq, hread]
  exact Prod.ext rfl hsnd

/-- The file of `oneEmptyFile`, in metadata stored at version 1. -/
def oneEmptyFileAt1 : FsMetadata := { oneEmptyFile with metaversion := 1 }

/-- The first writes of the file, at its chunk indices 0 and 1 one second apart: each
creates a chunk. -/
def twoWrites : List (ChunkOp × ChunkEnv × Bool × SessionData) :=
  [(.writechunk 2 0 false 0, newChunkEnv, false, ⟨1, false, none⟩),
    (.writechunk 2 1 false 0, { newChunkEnv with now := 101 }, false, ⟨1, false, none⟩)]

/-- metarestore rebuilds the metadata after both writes from their changelog. -/
theorem two_writes_rebuilt_by_metarestore :
    FsAgree oneEmptyFileAt1 oneEmptyFileAt1 ∧ oneEmptyFileAt1.Valid ∧ Tallied oneEmptyFileAt1.chunks ∧
      oneEmptyFileAt1.metaversion ≠ 0 ∧
      ∃ m', ChunkOp.runAll oneEmptyFileAt1 twoWrites = some m' ∧ (∀ te ∈ m'.changelog, te.2.Fits) ∧
        m'.metaversion + kMaxIdHole.toNat < 2 ^ 64 ∧
        ∃ logged, m'.changelog = oneEmptyFileAt1.changelog ++ logged ∧ ∃ vs s',
          metarestoreReplay fsGetversion (restoreLineOn fun s _ _ => (s, .einval))
              [some (changelogLines oneEmptyFileAt1.metaversion (loggedLines logged))] oneEmptyFileAt1 = (vs, s', 0) ∧
            FsAgree m' s' ∧ Tallied s'.chunks := by
  have hm : oneEmptyFileAt1.Valid := ⟨oneEmptyFile_valid.tallied, oneEmptyFile_valid.bounded⟩
  have hsome : (ChunkOp.runAll oneEmptyFileAt1 twoWrites).isSome = true := by decide
  obtain ⟨m', hrun⟩ := Option.isSome_iff_exists.mp hsome
  have hcheck : (ChunkOp.runAll oneEmptyFileAt1 twoWrites).map
      (fun m' => decide (∀ te ∈ m'.changelog, te.2.Fits) && decide (m'.metaversion + kMaxIdHole.toNat < 2 ^ 64)) =
        some true := by decide
  rw [hrun] at hcheck
  simp only [Option.map_some, Option.some.injEq, Bool.and_eq_true, decide_eq_true_eq] at hcheck
  obtain ⟨hfits, hbound⟩ := hcheck
  exact ⟨FsAgree.refl _, hm, hm.tallied, by decide, m', hrun, hfits, hbound,
    metarestore_rebuilds_master (fun s _ _ => (s, .einval)) (FsAgree.refl _) hm hm.tallied (by decide) hrun hfits hbound⟩

end Run

/-! ## The entries of a run fit the master's variables

`metarestore_rebuilds_master` asks that every entry of the changelog fit the C variables
the master prints it from. The entries a run logs do, as long as its operations name
`uint32_t` inodes and `nextchunkid` has not passed `uint64_t`. -/

/-- **Every entry a run of the master logs fits** the C variables it is printed from. -/
theorem ChunkOp.runAll_logs_fitting_entries {ops : List (ChunkOp × ChunkEnv × Bool × SessionData)} :
    ∀ {m m' : FsMetadata}, m.Valid → ChunkOp.runAll m ops = some m' → (∀ o ∈ ops, o.1.inode < 2 ^ 32) →
      m'.chunks.nextchunkid ≤ 2 ^ 64 → ∃ logged, m'.changelog = m.changelog ++ logged ∧ ∀ te ∈ logged, te.2.Fits := by
  induction ops with
  | nil =>
    intro m m' _ h _ _
    cases h
    exact ⟨[], by simp, by simp⟩
  | cons o ops ih =>
    obtain ⟨op, env, quota, session⟩ := o
    intro m m' hm h hinodes hnext
    obtain ⟨m₁, hop, hrest⟩ := ChunkOp.runAll_cons_eq_some h
    have hm₁ : m₁.Valid := hm.runOnMaster hop
    -- the first entry's chunk is below the counter after it, which only grows to the end
    obtain ⟨e, hlog, he⟩ := ChunkOp.runOnMaster_fits hm hop (hinodes _ List.mem_cons_self)
      ((ChunkOp.runAll_nextchunkid hm₁ hrest).trans hnext)
    obtain ⟨logged, hlogged, hfits⟩ :=
      ih hm₁ hrest (fun o ho => hinodes o (List.mem_cons_of_mem _ ho)) hnext
    refine ⟨(env.now, e) :: logged, by rw [hlogged, hlog, List.append_assoc, List.singleton_append], ?_⟩
    intro te hte
    rcases List.mem_cons.mp hte with rfl | hte
    · exact he
    · exact hfits te hte

theorem two_writes_log_fitting_entries :
    oneEmptyFileAt1.Valid ∧ ∃ m', ChunkOp.runAll oneEmptyFileAt1 twoWrites = some m' ∧
      (∀ o ∈ twoWrites, o.1.inode < 2 ^ 32) ∧ m'.chunks.nextchunkid ≤ 2 ^ 64 ∧
      ∃ logged, m'.changelog = oneEmptyFileAt1.changelog ++ logged ∧ ∀ te ∈ logged, te.2.Fits := by
  have hm : oneEmptyFileAt1.Valid := ⟨oneEmptyFile_valid.tallied, oneEmptyFile_valid.bounded⟩
  have hsome : (ChunkOp.runAll oneEmptyFileAt1 twoWrites).isSome = true := by decide
  obtain ⟨m', hrun⟩ := Option.isSome_iff_exists.mp hsome
  have hinodes : ∀ o ∈ twoWrites, o.1.inode < 2 ^ 32 := by decide
  have hcheck : (ChunkOp.runAll oneEmptyFileAt1 twoWrites).map (fun m' => decide (m'.chunks.nextchunkid ≤ 2 ^ 64)) =
      some true := by decide
  rw [hrun] at hcheck
  simp only [Option.map_some, Option.some.injEq, decide_eq_true_eq] at hcheck
  exact ⟨hm, m', hrun, hinodes, hcheck, ChunkOp.runAll_logs_fitting_entries hm hrun hinodes hcheck⟩

end LizardFs
