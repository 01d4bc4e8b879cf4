import Mathlib
import LizardFs.Lib.CString

/-!
# `restore()`: every version once, in order

`restore(filename, newLogVersion, ptr, rigor)` (`restore.cc`) is what a master starting
up (`fs_load_changelog`), a shadow (`masterconn`) and metarestore (`merger_loop`) call
for each changelog line, with the line's version. It keeps two versions between calls,
`currentFsVersion`, the version of the last entry it took, and `nextFsVersion`, the
metadata version `fs_getversion()` after it, and

* ignores an entry older than `currentFsVersion`, and one of the same version (a
  duplicate, from another changelog file);
* stops with `LIZARDFS_ERROR_CHANGELOGINCONSISTENT` at a hole;
* otherwise replays the entry with `restore_line` and checks that the metadata
  version went up by exactly one.

The metadata and `restore_line` are parameters here (`fsGetversion`, `applyLine`):
the machine only reads the version and the status. `restoreRun` is the loop of the
callers, which stops at the first status that is not `LIZARDFS_STATUS_OK`.

* `Synced` — the source's comment "`nextFsVersion == currentFsVersion + 1`", with
  `nextFsVersion` the metadata's version; every call that returns OK keeps it
  (`Synced.restore`), and the first call sets it up (`synced_initial`);
* `restoreRun_applies_once` — a run that returns OK replayed one entry of each
  version `c + 1, ..., c + k` in this order and nothing else, and every entry it met
  is of a version it took, up to a trailing entry it could not parse;
* `restoreRun_complete` — a run over entries sorted by version that cover every
  version up to `M`, each line applying cleanly, returns OK at version `M`.
-/

namespace LizardFs

open CString

/-- `RestoreRigor`: whether a line `restore_line` cannot parse stops the replay. -/
inductive RestoreRigor where
  | ignoreParseErrors
  | dontIgnoreAnyErrors
  deriving DecidableEq, Repr

/-- What `restore_line` returns: `-1` for a line it cannot parse, otherwise a
`lizardfs_error_code`, `LIZARDFS_STATUS_OK` when the change was applied. -/
inductive LineStatus where
  | parseError
  | status (code : UInt8)
  deriving DecidableEq, Repr

/-- The versions `restore()` keeps between calls (`lastfn` is only logged). -/
structure RestoreVersions where
  nextFsVersion : UInt64
  currentFsVersion : UInt64
  deriving DecidableEq, Repr

/-- `restore_reset()`. -/
def restoreReset : RestoreVersions := ⟨0, 0⟩

/-- `LIZARDFS_ERROR_CHANGELOGINCONSISTENT`. -/
def errorChangelogInconsistent : UInt8 := 43

/-- `LIZARDFS_ERROR_PARSE`. -/
def errorParse : UInt8 := 44

/-- `LIZARDFS_ERROR_METADATAVERSIONMISMATCH`. -/
def errorMetadataVersionMismatch : UInt8 := 45

/-- A version below `2 ^ 64 - 1` goes up by one without wrapping. -/
theorem toNat_add_one_of_lt {a : UInt64} (h : a.toNat + 1 < 2 ^ 64) : (a + 1).toNat = a.toNat + 1 := by
  rw [UInt64.toNat_add, UInt64.toNat_one, Nat.mod_eq_of_lt h]

section Machine

variable {σ : Type} (fsGetversion : σ → UInt64) (applyLine : σ → Bytes → LineStatus × σ)

/-- The versions the first call takes from the metadata. -/
def RestoreVersions.initial (m : σ) : RestoreVersions := ⟨fsGetversion m, fsGetversion m - 1⟩

/-- `restore(filename, newLogVersion, ptr, rigor)` on the metadata `m`: the versions,
the metadata and the status after it. -/
def restore (vs : RestoreVersions) (m : σ) (newLogVersion : UInt64) (ptr : Bytes) (rigor : RestoreRigor) :
    RestoreVersions × σ × UInt8 :=
  -- the first call after `restore_reset()`
  let vs := if vs.currentFsVersion = 0 ∨ vs.nextFsVersion = 0 then RestoreVersions.initial fsGetversion m else vs
  if newLogVersion < vs.currentFsVersion then (vs, m, 0)
  else if vs.nextFsVersion ≤ newLogVersion then
    if newLogVersion = vs.currentFsVersion then (⟨vs.nextFsVersion, newLogVersion⟩, m, 0)
    else if vs.currentFsVersion + 1 < newLogVersion then (vs, m, errorChangelogInconsistent)
    else
      match applyLine m ptr with
      | (.parseError, m') => (vs, m', if rigor = .ignoreParseErrors then 0 else errorParse)
      | (.status code, m') =>
        if code ≠ 0 then (vs, m', code)
        else if newLogVersion + 1 ≠ fsGetversion m' then
          (⟨fsGetversion m', vs.currentFsVersion⟩, m', errorMetadataVersionMismatch)
        else (⟨fsGetversion m', newLogVersion⟩, m', 0)
  else (⟨vs.nextFsVersion, newLogVersion⟩, m, 0)

/-- The callers' loop: `restore()` on each entry `(version, line)` in turn, until a
status is not `LIZARDFS_STATUS_OK`. -/
def restoreRun (rigor : RestoreRigor) : RestoreVersions → σ → List (UInt64 × Bytes) → RestoreVersions × σ × UInt8
  | vs, m, [] => (vs, m, 0)
  | vs, m, (v, ptr) :: es =>
    match restore fsGetversion applyLine vs m v ptr rigor with
    | (vs', m', 0) => restoreRun rigor vs' m' es
    | r => r

theorem restoreRun_nil (rigor : RestoreRigor) (vs : RestoreVersions) (m : σ) :
    restoreRun fsGetversion applyLine rigor vs m [] = (vs, m, 0) := rfl

theorem restoreRun_cons (rigor : RestoreRigor) (vs : RestoreVersions) (m : σ) (v : UInt64) (ptr : Bytes)
    (es : List (UInt64 × Bytes)) :
    restoreRun fsGetversion applyLine rigor vs m ((v, ptr) :: es) =
      match restore fsGetversion applyLine vs m v ptr rigor with
      | (vs', m', 0) => restoreRun fsGetversion applyLine rigor vs' m' es
      | r => r := rfl

/-- The run goes on after an entry `restore()` took. -/
theorem restoreRun_cons_of_ok {rigor : RestoreRigor} {vs vs' : RestoreVersions} {m m' : σ} {v : UInt64}
    {ptr : Bytes} (es : List (UInt64 × Bytes)) (h : restore fsGetversion applyLine vs m v ptr rigor = (vs', m', 0)) :
    restoreRun fsGetversion applyLine rigor vs m ((v, ptr) :: es) = restoreRun fsGetversion applyLine rigor vs' m' es := by
  rw [restoreRun_cons, h]
  rfl

/-- The run stops at an entry `restore()` failed on. -/
theorem restoreRun_cons_of_ne {rigor : RestoreRigor} {vs vs' : RestoreVersions} {m m' : σ} {v : UInt64}
    {ptr : Bytes} {code : UInt8} (es : List (UInt64 × Bytes))
    (h : restore fsGetversion applyLine vs m v ptr rigor = (vs', m', code)) (hcode : code ≠ 0) :
    restoreRun fsGetversion applyLine rigor vs m ((v, ptr) :: es) = (vs', m', code) := by
  rw [restoreRun_cons, h]
  split
  · rename_i heq
    exact absurd (Prod.mk.inj (Prod.mk.inj heq).2).2 hcode
  · rfl

/-- A run that returns OK returned OK at its first entry, and went on from there. -/
theorem restoreRun_cons_ok {rigor : RestoreRigor} {vs vs' : RestoreVersions} {m m' : σ} {v : UInt64} {ptr : Bytes}
    {es : List (UInt64 × Bytes)} (h : restoreRun fsGetversion applyLine rigor vs m ((v, ptr) :: es) = (vs', m', 0)) :
    ∃ vs₁ m₁, restore fsGetversion applyLine vs m v ptr rigor = (vs₁, m₁, 0) ∧
      restoreRun fsGetversion applyLine rigor vs₁ m₁ es = (vs', m', 0) := by
  rw [restoreRun_cons] at h
  split at h
  · rename_i vs₁ m₁ hr
    exact ⟨vs₁, m₁, hr, h⟩
  · -- the loop stops with the first status that is not OK
    rename_i hne
    exact absurd h (hne vs' m')

/-! ## The invariant -/

/-- "`nextFsVersion == currentFsVersion + 1`", the comment of `restore.cc`, with
`nextFsVersion` the version of the metadata. -/
structure Synced (vs : RestoreVersions) (m : σ) : Prop where
  next_eq : vs.nextFsVersion = fsGetversion m
  next_toNat : vs.nextFsVersion.toNat = vs.currentFsVersion.toNat + 1

variable {fsGetversion}

/-- The first call sets the invariant up, unless the metadata version is `0`. -/
theorem synced_initial {m : σ} (h : fsGetversion m ≠ 0) :
    Synced fsGetversion (RestoreVersions.initial fsGetversion m) m := by
  refine ⟨rfl, ?_⟩
  have hpos : (fsGetversion m).toNat ≠ 0 := fun h0 => h (UInt64.toNat_inj.mp (by simpa using h0))
  have h1 : (1 : UInt64) ≤ fsGetversion m := by
    rw [UInt64.le_iff_toNat_le, UInt64.toNat_one]
    omega
  simp only [RestoreVersions.initial, UInt64.toNat_sub_of_le _ _ h1, UInt64.toNat_one]
  omega

/-- The first call after `restore_reset()` is the call from the initial versions. -/
theorem restore_restoreReset (m : σ) (v : UInt64) (ptr : Bytes) (rigor : RestoreRigor) :
    restore fsGetversion applyLine restoreReset m v ptr rigor =
      restore fsGetversion applyLine (RestoreVersions.initial fsGetversion m) m v ptr rigor := by
  simp only [restore, restoreReset, true_or, if_true, ite_self]

/-- From `restore_reset()`, a run over some entries is the run from the initial versions. -/
theorem restoreRun_restoreReset (rigor : RestoreRigor) (m : σ) {es : List (UInt64 × Bytes)} (hes : es ≠ []) :
    restoreRun fsGetversion applyLine rigor restoreReset m es =
      restoreRun fsGetversion applyLine rigor (RestoreVersions.initial fsGetversion m) m es := by
  obtain ⟨⟨v, ptr⟩, es, rfl⟩ := List.exists_cons_of_ne_nil hes
  rw [restoreRun_cons, restoreRun_cons, restore_restoreReset]

/-- From `restore_reset()` or from the initial versions, a run leaves the same
metadata and status. -/
theorem restoreRun_restoreReset_snd (rigor : RestoreRigor) (m : σ) (es : List (UInt64 × Bytes)) :
    (restoreRun fsGetversion applyLine rigor restoreReset m es).2 =
      (restoreRun fsGetversion applyLine rigor (RestoreVersions.initial fsGetversion m) m es).2 := by
  by_cases hes : es = []
  · subst hes
    rfl
  · rw [restoreRun_restoreReset applyLine rigor m hes]

/-- From `restore_reset()` or from versions in step with the metadata, `restore()`
calls as from versions in step with it, when its version is not `0`. -/
theorem exists_synced_of_reset_or_synced {vs : RestoreVersions} {m : σ}
    (h : vs = restoreReset ∨ Synced fsGetversion vs m) (hv : fsGetversion m ≠ 0) :
    ∃ vs₀, Synced fsGetversion vs₀ m ∧ ∀ v ptr rigor,
      restore fsGetversion applyLine vs m v ptr rigor = restore fsGetversion applyLine vs₀ m v ptr rigor := by
  rcases h with rfl | hs
  · exact ⟨_, synced_initial hv, fun v ptr rigor => restore_restoreReset applyLine m v ptr rigor⟩
  · exact ⟨vs, hs, fun _ _ _ => rfl⟩

theorem Synced.current_lt {vs : RestoreVersions} {m : σ} (hs : Synced fsGetversion vs m) :
    vs.currentFsVersion.toNat + 1 < 2 ^ 64 := by
  have := vs.nextFsVersion.toNat_lt
  rw [hs.next_toNat] at this
  exact this

/-- Under the invariant the first-call branch changes nothing. -/
theorem Synced.init_eq {vs : RestoreVersions} {m : σ} (hs : Synced fsGetversion vs m) :
    (if vs.currentFsVersion = 0 ∨ vs.nextFsVersion = 0 then RestoreVersions.initial fsGetversion m else vs) = vs := by
  split
  · rename_i h0
    have hnext := hs.next_toNat
    rcases h0 with h0 | h0
    · -- `currentFsVersion = 0`: the initial versions are `1` and `0` again
      have hn : vs.nextFsVersion = 1 := UInt64.toNat_inj.mp (by simp [hnext, h0])
      obtain ⟨next, cur⟩ := vs
      simp only at h0 hn
      subst h0 hn
      simp [RestoreVersions.initial, ← hs.next_eq]
    · have := congrArg UInt64.toNat h0
      simp at this
      omega
  · rfl

/-- An entry no newer than the last one taken is ignored. -/
theorem Synced.restore_of_le {vs : RestoreVersions} {m : σ} (hs : Synced fsGetversion vs m) {v : UInt64}
    (hv : v.toNat ≤ vs.currentFsVersion.toNat) (ptr : Bytes) (rigor : RestoreRigor) :
    restore fsGetversion applyLine vs m v ptr rigor = (vs, m, 0) := by
  have hnext := hs.next_toNat
  simp only [restore, hs.init_eq]
  by_cases hlt : v < vs.currentFsVersion
  · rw [if_pos hlt]
  · -- the duplicate: `v` is `currentFsVersion`, below `nextFsVersion`
    have heq : v = vs.currentFsVersion := UInt64.toNat_inj.mp (by simp [UInt64.lt_iff_toNat_lt] at hlt; omega)
    have hnle : ¬ vs.nextFsVersion ≤ v := by simp [UInt64.le_iff_toNat_le]; omega
    rw [if_neg hlt, if_neg hnle, heq]

/-- An entry past the next version is a hole. -/
theorem Synced.restore_of_gt {vs : RestoreVersions} {m : σ} (hs : Synced fsGetversion vs m) {v : UInt64}
    (hv : vs.currentFsVersion.toNat + 1 < v.toNat) (ptr : Bytes) (rigor : RestoreRigor) :
    restore fsGetversion applyLine vs m v ptr rigor = (vs, m, errorChangelogInconsistent) := by
  have hnext := hs.next_toNat
  have hc := hs.current_lt
  have hlt : ¬ v < vs.currentFsVersion := by simp [UInt64.lt_iff_toNat_lt]; omega
  have hle : vs.nextFsVersion ≤ v := by simp [UInt64.le_iff_toNat_le]; omega
  have hne : v ≠ vs.currentFsVersion := fun h => by rw [h] at hv; omega
  have hhole : vs.currentFsVersion + 1 < v := by
    rw [UInt64.lt_iff_toNat_lt, toNat_add_one_of_lt hc]
    simpa using hv
  simp only [restore, hs.init_eq, if_neg hlt, if_pos hle, if_neg hne, if_pos hhole]

/-- The next entry is replayed. -/
theorem Synced.restore_of_eq {vs : RestoreVersions} {m : σ} (hs : Synced fsGetversion vs m) {v : UInt64}
    (hv : v.toNat = vs.currentFsVersion.toNat + 1) (ptr : Bytes) (rigor : RestoreRigor) :
    restore fsGetversion applyLine vs m v ptr rigor =
      match applyLine m ptr with
      | (.parseError, m') => (vs, m', if rigor = .ignoreParseErrors then 0 else errorParse)
      | (.status code, m') =>
        if code ≠ 0 then (vs, m', code)
        else if v + 1 ≠ fsGetversion m' then (⟨fsGetversion m', vs.currentFsVersion⟩, m', errorMetadataVersionMismatch)
        else (⟨fsGetversion m', v⟩, m', 0) := by
  have hnext := hs.next_toNat
  have hc := hs.current_lt
  have hlt : ¬ v < vs.currentFsVersion := by simp [UInt64.lt_iff_toNat_lt]; omega
  have hle : vs.nextFsVersion ≤ v := by simp [UInt64.le_iff_toNat_le]; omega
  have hne : v ≠ vs.currentFsVersion := fun h => by rw [h] at hv; omega
  have hhole : ¬ vs.currentFsVersion + 1 < v := by
    rw [UInt64.lt_iff_toNat_lt, toNat_add_one_of_lt hc]
    simp [hv]
  simp only [restore, hs.init_eq, if_neg hlt, if_pos hle, if_neg hne, if_neg hhole]

/-- A replayed entry that bumped the version by one keeps the invariant. -/
theorem synced_of_bump {m' : σ} {v : UInt64} (hv : v.toNat + 1 < 2 ^ 64) (hbump : v + 1 = fsGetversion m') :
    Synced fsGetversion ⟨fsGetversion m', v⟩ m' := by
  refine ⟨rfl, ?_⟩
  rw [← hbump, toNat_add_one_of_lt hv]

/-- **What a call that returns OK did**, from the invariant: it ignored an entry no
newer than the last one taken; or, at the next version, it ignored a line
`restore_line` cannot parse; or it replayed the next version and kept the
invariant. -/
theorem Synced.restore_eq_ok {vs vs' : RestoreVersions} {m m' : σ} (hs : Synced fsGetversion vs m) {v : UInt64}
    {ptr : Bytes} {rigor : RestoreRigor} (hv : v.toNat + 1 < 2 ^ 64)
    (h : restore fsGetversion applyLine vs m v ptr rigor = (vs', m', 0)) :
    (v.toNat ≤ vs.currentFsVersion.toNat ∧ vs' = vs ∧ m' = m) ∨
      (v.toNat = vs.currentFsVersion.toNat + 1 ∧ rigor = .ignoreParseErrors ∧ vs' = vs ∧
        applyLine m ptr = (.parseError, m')) ∨
      (v.toNat = vs.currentFsVersion.toNat + 1 ∧ applyLine m ptr = (.status 0, m') ∧
        vs' = ⟨fsGetversion m', v⟩ ∧ Synced fsGetversion vs' m') := by
  rcases Nat.lt_or_ge (vs.currentFsVersion.toNat + 1) v.toNat with hgt | hle
  · -- a hole fails
    rw [hs.restore_of_gt applyLine hgt] at h
    cases h
  rcases Nat.lt_or_ge v.toNat (vs.currentFsVersion.toNat + 1) with hold | hnext
  · rw [hs.restore_of_le applyLine (by omega)] at h
    cases h
    exact Or.inl ⟨by omega, rfl, rfl⟩
  have hv' : v.toNat = vs.currentFsVersion.toNat + 1 := by omega
  rw [hs.restore_of_eq applyLine hv'] at h
  rcases hline : applyLine m ptr with ⟨_ | code, m₂⟩ <;> rw [hline] at h
  · -- a parse error is OK only when ignored
    by_cases hrig : rigor = .ignoreParseErrors
    · simp only [hrig, if_true, Prod.mk.injEq] at h
      obtain ⟨rfl, rfl, -⟩ := h
      exact Or.inr (Or.inl ⟨hv', hrig, rfl, rfl⟩)
    · simp only [hrig, if_false, Prod.mk.injEq] at h
      exact absurd h.2.2.symm (by decide)
  · by_cases hcode : code = 0
    · subst hcode
      by_cases hbump : v + 1 = fsGetversion m₂
      · simp only [ne_eq, not_true_eq_false, if_false, hbump, Prod.mk.injEq] at h
        obtain ⟨rfl, rfl, -⟩ := h
        exact Or.inr (Or.inr ⟨hv', rfl, rfl, synced_of_bump hv hbump⟩)
      · simp only [ne_eq, not_true_eq_false, if_false, hbump, not_false_eq_true, if_true,
          Prod.mk.injEq] at h
        exact absurd h.2.2.symm (by decide)
    · simp [hcode] at h

/-! ## Runs -/

variable (fsGetversion) in
/-- The metadata after `restore_line` replayed the lines of `applied` in turn. -/
def applyLines (m : σ) (applied : List (UInt64 × Bytes)) : σ := applied.foldl (fun m e => (applyLine m e.2).2) m

theorem applyLines_nil (m : σ) : applyLines applyLine m [] = m := rfl

theorem applyLines_cons (m : σ) (e : UInt64 × Bytes) (applied : List (UInt64 × Bytes)) :
    applyLines applyLine m (e :: applied) = applyLines applyLine (applyLine m e.2).2 applied := rfl

section Sound

variable {applyLine}

/-- **Every version once, in order.** A run of `restore()` from the invariant that
returns `LIZARDFS_STATUS_OK` replayed, out of the entries it was given, one entry of
each version `c + 1, ..., c + k` after the version `c` it started at, in this
order, and no other: the metadata is theirs replayed in turn. Every entry it was
given is of a version it took, except, when parse errors are ignored, entries of the
next version that `restore_line` cannot parse. -/
theorem restoreRun_applies_once {rigor : RestoreRigor} {vs vs' : RestoreVersions} {m m' : σ}
    {es : List (UInt64 × Bytes)} (hparse : ∀ m, ∀ e ∈ es, (applyLine m e.2).1 = .parseError → (applyLine m e.2).2 = m)
    (hs : Synced fsGetversion vs m) (hbound : ∀ e ∈ es, e.1.toNat + 1 < 2 ^ 64)
    (hrun : restoreRun fsGetversion applyLine rigor vs m es = (vs', m', 0)) :
    ∃ applied, applied.Sublist es ∧
      applied.map (fun e => e.1.toNat) = List.range' (vs.currentFsVersion.toNat + 1) applied.length ∧
      m' = applyLines applyLine m applied ∧ Synced fsGetversion vs' m' ∧
      vs'.currentFsVersion.toNat = vs.currentFsVersion.toNat + applied.length ∧
      ∀ e ∈ es, e.1.toNat ≤ vs'.currentFsVersion.toNat ∨
        (rigor = .ignoreParseErrors ∧ e.1.toNat = vs'.currentFsVersion.toNat + 1 ∧
          (applyLine m' e.2).1 = .parseError) := by
  -- induction on the entries, from any state with the invariant
  induction es generalizing vs m with
  | nil =>
    rw [restoreRun_nil] at hrun
    cases hrun
    exact ⟨[], List.Sublist.slnil, rfl, rfl, hs, rfl, fun e he => absurd he List.not_mem_nil⟩
  | cons e es ih =>
    obtain ⟨v, ptr⟩ := e
    obtain ⟨vs₁, m₁, h1, hrest⟩ := restoreRun_cons_ok fsGetversion applyLine hrun
    have hbound' : ∀ e ∈ es, e.1.toNat + 1 < 2 ^ 64 := fun e he => hbound e (List.mem_cons_of_mem _ he)
    have hparse' : ∀ m, ∀ e ∈ es, (applyLine m e.2).1 = .parseError → (applyLine m e.2).2 = m :=
      fun m e he => hparse m e (List.mem_cons_of_mem _ he)
    rcases Nat.lt_or_ge (vs.currentFsVersion.toNat + 1) v.toNat with hgt | hle
    · -- a hole stops the run
      rw [hs.restore_of_gt applyLine hgt] at h1
      cases h1
    rcases Nat.lt_or_ge v.toNat (vs.currentFsVersion.toNat + 1) with hold | hnext
    · -- an old entry or a duplicate: nothing happens
      rw [hs.restore_of_le applyLine (by omega)] at h1
      cases h1
      obtain ⟨applied, hsub, hvers, hm, hs', hcur, hall⟩ := ih hparse' hs hbound' hrest
      refine ⟨applied, hsub.cons _, hvers, hm, hs', hcur, ?_⟩
      rintro e (_ | ⟨_, he⟩)
      · exact Or.inl (show v.toNat ≤ _ by omega)
      · exact hall e he
    -- the next entry is replayed
    have hv : v.toNat = vs.currentFsVersion.toNat + 1 := by omega
    rw [hs.restore_of_eq applyLine hv] at h1
    rcases hline : applyLine m ptr with ⟨_ | code, m₂⟩ <;> rw [hline] at h1
    · -- a parse error, ignored: the entry is skipped
      have hm₂ : m₂ = m := by simpa [hline] using hparse m (v, ptr) List.mem_cons_self (by rw [hline])
      subst hm₂
      by_cases hrig : rigor = .ignoreParseErrors
      · simp only [hrig, if_true, Prod.mk.injEq] at h1
        obtain ⟨rfl, rfl, -⟩ := h1
        obtain ⟨applied, hsub, hvers, hm, hs', hcur, hall⟩ := ih hparse' hs hbound' hrest
        refine ⟨applied, hsub.cons _, hvers, hm, hs', hcur, ?_⟩
        rintro e (_ | ⟨_, he⟩)
        · -- kept unless a later entry of its version was replayed
          by_cases hnil : applied = []
          · subst hnil
            right
            refine ⟨hrig, show v.toNat = _ by simp [hcur, hv], ?_⟩
            rw [hm, applyLines_nil, hline]
          · have := List.length_pos_iff.mpr hnil
            exact Or.inl (show v.toNat ≤ _ by omega)
        · exact hall e he
      · simp only [hrig, if_false, Prod.mk.injEq] at h1
        exact absurd h1.2.2.symm (by decide)
    · by_cases hcode : code = 0
      · subst hcode
        by_cases hbump : v + 1 = fsGetversion m₂
        · simp only [ne_eq, not_true_eq_false, if_false, hbump, Prod.mk.injEq] at h1
          obtain ⟨rfl, rfl, -⟩ := h1
          have hs₁ := synced_of_bump (hbound _ List.mem_cons_self) hbump
          obtain ⟨applied, hsub, hvers, hm, hs', hcur, hall⟩ := ih hparse' hs₁ hbound' hrest
          dsimp only at hvers hcur
          refine ⟨(v, ptr) :: applied, hsub.cons_cons _, ?_, ?_, hs', ?_, ?_⟩
          · simp only [List.map_cons, hvers, List.length_cons, List.range'_succ, hv]
          · rw [hm, applyLines_cons, hline]
          · rw [hcur, List.length_cons]
            omega
          · rintro e (_ | ⟨_, he⟩)
            · exact Or.inl (show v.toNat ≤ _ by omega)
            · exact hall e he
        · simp only [ne_eq, not_true_eq_false, if_false, hbump, not_false_eq_true, if_true,
            Prod.mk.injEq] at h1
          exact absurd h1.2.2.symm (by decide)
      · simp [hcode] at h1

end Sound

/-- A `restore_line` on a metadata that is only its version: the empty line does not
parse, every other line applies and moves the version on. -/
def countingLine (m : UInt64) (ℓ : Bytes) : LineStatus × UInt64 :=
  if ℓ = [] then (.parseError, m) else (.status 0, m + 1)

theorem countingLine_parseError (m : UInt64) (ℓ : Bytes) (h : (countingLine m ℓ).1 = .parseError) :
    (countingLine m ℓ).2 = m := by
  by_cases hℓ : ℓ = [] <;> simp_all [countingLine]

/-- After version 4: the old entry 3, the duplicate 4, two copies of 5, then 6 and an
unparsable 7. -/
def mixedEntries : List (UInt64 × Bytes) := [(3, [1]), (4, [1]), (5, [1]), (5, [2]), (6, [1]), (7, [])]

variable {applyLine} in
/-- **A run over sorted entries without a hole gets through.** From the invariant,
entries sorted by version whose versions cover every version after the current one
up to `M`, and none past it, each applying cleanly and moving the metadata one
version on: the run returns `LIZARDFS_STATUS_OK` at version `M`. -/
theorem restoreRun_complete {rigor : RestoreRigor} {vs : RestoreVersions} {m : σ} {es : List (UInt64 × Bytes)}
    {M : Nat} (hs : Synced fsGetversion vs m) (hsorted : es.Pairwise fun a b => a.1 ≤ b.1)
    (hcover : ∀ n, vs.currentFsVersion.toNat < n → n ≤ M → ∃ e ∈ es, e.1.toNat = n)
    (hmax : ∀ e ∈ es, e.1.toNat ≤ M) (hM : M + 1 < 2 ^ 64)
    (happly : ∀ m, ∀ e ∈ es, (applyLine m e.2).1 = .status 0 ∧ fsGetversion (applyLine m e.2).2 = fsGetversion m + 1) :
    (restoreRun fsGetversion applyLine rigor vs m es).2.2 = 0 ∧
      (restoreRun fsGetversion applyLine rigor vs m es).1.currentFsVersion.toNat = max vs.currentFsVersion.toNat M := by
  -- induction on the entries; the versions still to come are covered by the rest
  induction es generalizing vs m with
  | nil =>
    have hM' : M ≤ vs.currentFsVersion.toNat := by
      by_contra hlt
      obtain ⟨e, he, -⟩ := hcover M (by omega) le_rfl
      exact absurd he List.not_mem_nil
    rw [restoreRun_nil]
    refine ⟨rfl, ?_⟩
    show vs.currentFsVersion.toNat = max vs.currentFsVersion.toNat M
    omega
  | cons e es ih =>
    obtain ⟨v, ptr⟩ := e
    obtain ⟨hfirst, hsorted'⟩ := List.pairwise_cons.mp hsorted
    have hmax' : ∀ e ∈ es, e.1.toNat ≤ M := fun e he => hmax e (List.mem_cons_of_mem _ he)
    have happly' : ∀ m, ∀ e ∈ es, (applyLine m e.2).1 = .status 0 ∧
        fsGetversion (applyLine m e.2).2 = fsGetversion m + 1 :=
      fun m e he => happly m e (List.mem_cons_of_mem _ he)
    have hvM : v.toNat ≤ M := hmax (v, ptr) List.mem_cons_self
    -- the entries after the first cover every version the first is not
    have hrest : ∀ n, n ≠ v.toNat → vs.currentFsVersion.toNat < n → n ≤ M → ∃ e ∈ es, e.1.toNat = n := by
      intro n hne hn hnM
      obtain ⟨e, he, hen⟩ := hcover n hn hnM
      rcases List.mem_cons.mp he with rfl | he
      · exact absurd hen.symm hne
      · exact ⟨e, he, hen⟩
    rw [restoreRun_cons]
    rcases Nat.lt_or_ge (vs.currentFsVersion.toNat + 1) v.toNat with hgt | hle
    · -- no hole: the next version is covered by a later entry, which is not older
      exfalso
      obtain ⟨e, he, hen⟩ := hrest (vs.currentFsVersion.toNat + 1) (by omega) (by omega) (by omega)
      have hve : v.toNat ≤ e.1.toNat := UInt64.le_iff_toNat_le.mp (hfirst e he)
      omega
    rcases Nat.lt_or_ge v.toNat (vs.currentFsVersion.toNat + 1) with hold | hnext
    · -- an old entry or a duplicate
      rw [hs.restore_of_le applyLine (by omega)]
      exact ih hs hsorted' (fun n hn hnM => hrest n (by omega) hn hnM) hmax' happly'
    -- the next entry: it applies cleanly and moves the version on by one
    have hv : v.toNat = vs.currentFsVersion.toNat + 1 := by omega
    obtain ⟨hok, hbump⟩ := happly m (v, ptr) List.mem_cons_self
    have hvnext : v = fsGetversion m := by
      rw [← hs.next_eq]
      exact UInt64.toNat_inj.mp (by rw [hs.next_toNat]; exact hv)
    rw [hs.restore_of_eq applyLine hv]
    rcases hline : applyLine m ptr with ⟨_ | code, m₂⟩ <;> simp only [hline] at hok hbump
    · cases hok
    cases hok
    have hvb : v + 1 = fsGetversion m₂ := by rw [hbump, hvnext]
    simp only [hvb, ne_eq, not_true_eq_false, if_false]
    have hs₁ := synced_of_bump (by omega : v.toNat + 1 < 2 ^ 64) hvb
    obtain ⟨hok', hcur⟩ := ih hs₁ hsorted'
      (fun n hn hnM => by dsimp only at hn; exact hrest n (by omega) (by omega) hnM) hmax' happly'
    dsimp only at hcur
    exact ⟨hok', by rw [hcur]; omega⟩

/-- After version 4, sorted, with two copies of 5. -/
def sortedEntries : List (UInt64 × Bytes) := [(3, [1]), (5, [1]), (5, [2]), (6, [1]), (7, [1])]

end Machine

end LizardFs
