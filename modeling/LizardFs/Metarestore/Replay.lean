import Mathlib
import LizardFs.Metarestore.Merger

/-!
# metarestore: the changelogs replayed onto the metadata

metarestore (`metarestore/main.cc`) loads a metadata file, refuses one at version
`0`, and replays onto it the changelog files it is given: `merger_start(filenames,
MAXIDHOLE)`, then `merger_loop()`, which calls `restore()` with the versions
`restore.cc` starts with. The metadata and `restore_line` stay parameters
(`fsGetversion`, `applyLine`), as in `LizardFs.Master.RestoreRun`.

* `metarestoreReplay_ok` — what a replay that returns OK did: it replayed, from
  the entries of the files, one entry of each version from the metadata's own on,
  in this order, and nothing else, and every entry of every file is of a version it
  took, up to an unparsable entry of the version after the last;
* `metarestoreReplay_complete` — files whose entries cover every version from the
  metadata's up to `M`, each applying cleanly, are replayed up to version `M`.
-/

namespace LizardFs

open CString ArrayHeap

/-- `MAXIDHOLE`: how far the versions of a changelog file may jump. -/
def kMaxIdHole : UInt64 := 10000

section Replay

variable {σ : Type} (fsGetversion : σ → UInt64) (applyLine : σ → Bytes → LineStatus × σ)

/-- metarestore's `main` once the metadata `m` is loaded: `merger_start(filenames,
MAXIDHOLE)` and `merger_loop()`, from the versions `restore()` has when the program
starts, those of `restore_reset()`. -/
def metarestoreReplay (files : List (Option (List Bytes))) (m : σ) : RestoreVersions × σ × UInt8 :=
  mergerLoop fsGetversion applyLine kMaxIdHole (mergerStart kMaxIdHole files).1 (mergerStart kMaxIdHole files).2
    restoreReset m

/-- The replay is `restore()` over the merged entries of the files. -/
theorem metarestoreReplay_eq (files : List (Option (List Bytes))) (m : σ) :
    metarestoreReplay fsGetversion applyLine files m =
      restoreRun fsGetversion applyLine .ignoreParseErrors restoreReset m (mergedEntries kMaxIdHole files) :=
  mergerLoop_eq_restoreRun fsGetversion applyLine _ _ _ _ _

variable {fsGetversion applyLine}

/-- The versions `restore()` starts from sit just below the metadata's. -/
theorem initial_current_add_one {m : σ} (hv : fsGetversion m ≠ 0) :
    (RestoreVersions.initial fsGetversion m).currentFsVersion.toNat + 1 = (fsGetversion m).toNat := by
  have hs := synced_initial hv
  rw [← hs.next_toNat, hs.next_eq]

/-- The merged entries are those of the files, sorted. -/
theorem mergedEntries_of_files (files : List (Option (List Bytes))) :
    (∀ e, e ∈ mergedEntries kMaxIdHole files ↔ e ∈ files.flatMap (acceptedEntries kMaxIdHole)) ∧
      (mergedEntries kMaxIdHole files).Pairwise fun a b => a.1 ≤ b.1 := by
  obtain ⟨hI, hpend⟩ := mergerStart_heap kMaxIdHole files
  obtain ⟨hperm, hsort⟩ := hI.trace kMaxIdHole
  exact ⟨fun e => (hperm.trans hpend).mem_iff, hsort⟩

/-- **What a replay that returns OK did.** From metadata at a version `v ≠ 0`, with
`restore_line` leaving the metadata alone on an entry it cannot parse: the replay
replayed, out of the merged entries of the files, one entry of each version `v,
v + 1, ...` in this order and nothing else, the metadata is theirs replayed in
turn, and every entry of every file is of a version it took, except unparsable
entries of the version after the last. -/
theorem metarestoreReplay_ok {files : List (Option (List Bytes))} {m m' : σ} {vs' : RestoreVersions}
    (hv : fsGetversion m ≠ 0)
    (hparse : ∀ m, ∀ e ∈ files.flatMap (acceptedEntries kMaxIdHole),
      (applyLine m e.2).1 = .parseError → (applyLine m e.2).2 = m)
    (hbound : ∀ e ∈ files.flatMap (acceptedEntries kMaxIdHole), e.1.toNat + 1 < 2 ^ 64)
    (hrun : metarestoreReplay fsGetversion applyLine files m = (vs', m', 0)) :
    ∃ applied, applied.Sublist (mergedEntries kMaxIdHole files) ∧
      applied.map (fun e => e.1.toNat) = List.range' (fsGetversion m).toNat applied.length ∧
      m' = applyLines applyLine m applied ∧
      (fsGetversion m').toNat = (fsGetversion m).toNat + applied.length ∧
      ∀ e ∈ files.flatMap (acceptedEntries kMaxIdHole), e.1.toNat < (fsGetversion m).toNat + applied.length ∨
        (e.1.toNat = (fsGetversion m).toNat + applied.length ∧ (applyLine m' e.2).1 = .parseError) := by
  obtain ⟨hmem, -⟩ := mergedEntries_of_files files
  rw [metarestoreReplay_eq] at hrun
  by_cases hnil : mergedEntries kMaxIdHole files = []
  · -- no entry at all: nothing happens
    rw [hnil, restoreRun_nil] at hrun
    obtain ⟨-, rfl, -⟩ := Prod.mk.inj hrun
    refine ⟨[], List.nil_sublist _, rfl, rfl, rfl, fun e he => ?_⟩
    have := (hmem e).mpr he
    rw [hnil] at this
    exact absurd this List.not_mem_nil
  rw [restoreRun_restoreReset applyLine _ _ hnil] at hrun
  have hc := initial_current_add_one hv
  obtain ⟨applied, hsub, hvers, hm, hs', hcur, hall⟩ := restoreRun_applies_once
    (fun m e he => hparse m e ((hmem e).mp he)) (synced_initial hv) (fun e he => hbound e ((hmem e).mp he)) hrun
  -- the versions after the run: `v - 1 + k` taken, the metadata at `v + k`
  have hnext : (fsGetversion m').toNat = vs'.currentFsVersion.toNat + 1 := by
    rw [← hs'.next_eq, hs'.next_toNat]
  refine ⟨applied, hsub, by rw [hvers, hc], hm, by omega, fun e he => ?_⟩
  rcases hall e ((hmem e).mpr he) with hle | ⟨-, heq, hpe⟩
  · exact Or.inl (by omega)
  · exact Or.inr ⟨by omega, hpe⟩

/-- The master's changelog and a metalogger's copy of the next one, overlapping at
version 6. -/
def overlappingLogs : List (Option (List Bytes)) :=
  [some [lit "5: a\n", lit "6: b\n"], some [lit "6: b\n", lit "7: c\n"]]

/-- The entries the two files offer. -/
theorem overlappingLogs_entries : overlappingLogs.flatMap (acceptedEntries kMaxIdHole) =
    [(5, lit ": a\n"), (6, lit ": b\n"), (6, lit ": b\n"), (7, lit ": c\n")] := by
  simp +decide [overlappingLogs, acceptedEntries, mergerNewEntry, fileEntries]

/-- From version 5 the replay takes 5, 6 (once) and 7. -/
theorem overlappingLogs_replay_ok :
    id (5 : UInt64) ≠ 0 ∧
    (∀ m, ∀ e ∈ overlappingLogs.flatMap (acceptedEntries kMaxIdHole),
      (countingLine m e.2).1 = .parseError → (countingLine m e.2).2 = m) ∧
    (∀ e ∈ overlappingLogs.flatMap (acceptedEntries kMaxIdHole), e.1.toNat + 1 < 2 ^ 64) ∧
    metarestoreReplay id countingLine overlappingLogs (5 : UInt64) = (⟨8, 7⟩, 8, 0) ∧
    ∃ applied, applied.Sublist (mergedEntries kMaxIdHole overlappingLogs) ∧
      applied.map (fun e => e.1.toNat) = List.range' (id (5 : UInt64)).toNat applied.length ∧
      (8 : UInt64) = applyLines countingLine 5 applied ∧
      (id (8 : UInt64)).toNat = (id (5 : UInt64)).toNat + applied.length ∧
      ∀ e ∈ overlappingLogs.flatMap (acceptedEntries kMaxIdHole),
        e.1.toNat < (id (5 : UInt64)).toNat + applied.length ∨
        (e.1.toNat = (id (5 : UInt64)).toNat + applied.length ∧ (countingLine 8 e.2).1 = .parseError) := by
  have hv : id (5 : UInt64) ≠ 0 := by decide
  have hparse : ∀ m, ∀ e ∈ overlappingLogs.flatMap (acceptedEntries kMaxIdHole),
      (countingLine m e.2).1 = .parseError → (countingLine m e.2).2 = m :=
    fun m e _ => countingLine_parseError m e.2
  have hbound : ∀ e ∈ overlappingLogs.flatMap (acceptedEntries kMaxIdHole), e.1.toNat + 1 < 2 ^ 64 := by
    rw [overlappingLogs_entries]
    decide
  have hrun : metarestoreReplay id countingLine overlappingLogs (5 : UInt64) = (⟨8, 7⟩, 8, 0) := by
    rw [metarestoreReplay_eq]
    simp +decide [mergedEntries, mergerStart, mergerAddFile, mergerNewEntry, overlappingLogs, siftUp, mergerTrace,
      mergerAdvance, siftDown, swap]
  exact ⟨hv, hparse, hbound, hrun, metarestoreReplay_ok hv hparse hbound hrun⟩

/-- **A replay gets through.** From metadata at a version `v ≠ 0`, files whose
entries cover every version from `v` up to `M`, none past it, each applying
cleanly and moving the metadata one version on: the replay returns OK, having
replayed one entry of each version `v, ..., M` from the files, in this order. -/
theorem metarestoreReplay_complete {files : List (Option (List Bytes))} {m : σ} {M : ℕ}
    (hv : fsGetversion m ≠ 0) (hvM : (fsGetversion m).toNat ≤ M) (hM : M + 1 < 2 ^ 64)
    (hcover : ∀ k, (fsGetversion m).toNat ≤ k → k ≤ M →
      ∃ e ∈ files.flatMap (acceptedEntries kMaxIdHole), e.1.toNat = k)
    (hmax : ∀ e ∈ files.flatMap (acceptedEntries kMaxIdHole), e.1.toNat ≤ M)
    (happly : ∀ m, ∀ e ∈ files.flatMap (acceptedEntries kMaxIdHole),
      (applyLine m e.2).1 = .status 0 ∧ fsGetversion (applyLine m e.2).2 = fsGetversion m + 1) :
    (metarestoreReplay fsGetversion applyLine files m).2.2 = 0 ∧
      ∃ applied, (metarestoreReplay fsGetversion applyLine files m).2.1 = applyLines applyLine m applied ∧
        applied.map (fun e => e.1.toNat) = List.range' (fsGetversion m).toNat (M + 1 - (fsGetversion m).toNat) ∧
        ∀ e ∈ applied, e ∈ files.flatMap (acceptedEntries kMaxIdHole) := by
  obtain ⟨hmem, hsorted⟩ := mergedEntries_of_files files
  have hc := initial_current_add_one hv
  have hnil : mergedEntries kMaxIdHole files ≠ [] := by
    intro hnil
    obtain ⟨e, he, -⟩ := hcover _ le_rfl hvM
    have := (hmem e).mpr he
    rw [hnil] at this
    exact absurd this List.not_mem_nil
  rw [metarestoreReplay_eq, restoreRun_restoreReset applyLine _ _ hnil]
  obtain ⟨hok, hcur⟩ := restoreRun_complete (synced_initial hv) hsorted
    (fun k hk hkM => by
      obtain ⟨e, he, hek⟩ := hcover k (by omega) hkM
      exact ⟨e, (hmem e).mpr he, hek⟩)
    (fun e he => hmax e ((hmem e).mp he)) hM (fun m e he => happly m e ((hmem e).mp he))
  -- the run returned OK: read off what it replayed
  obtain ⟨⟨vs', m', code⟩, hrun⟩ : ∃ r, restoreRun fsGetversion applyLine .ignoreParseErrors
      (RestoreVersions.initial fsGetversion m) m (mergedEntries kMaxIdHole files) = r := ⟨_, rfl⟩
  rw [hrun] at hok hcur ⊢
  dsimp only at hok hcur ⊢
  subst hok
  obtain ⟨applied, hsub, hvers, hm, -, hcur', -⟩ := restoreRun_applies_once
    (fun m e he hpe => by rw [(happly m e ((hmem e).mp he)).1] at hpe; cases hpe) (synced_initial hv)
    (fun e he => by have := hmax e ((hmem e).mp he); omega) hrun
  have hlen : applied.length = M + 1 - (fsGetversion m).toNat := by omega
  refine ⟨rfl, applied, hm, by rw [hvers, hc, hlen], fun e he => (hmem e).mp (hsub.subset he)⟩

/-- The two files cover the versions 5 to 7: the replay gets to version 7. -/
theorem overlappingLogs_replay_complete :
    id (5 : UInt64) ≠ 0 ∧ (id (5 : UInt64)).toNat ≤ 7 ∧ 7 + 1 < 2 ^ 64 ∧
    (∀ k, (id (5 : UInt64)).toNat ≤ k → k ≤ 7 →
      ∃ e ∈ overlappingLogs.flatMap (acceptedEntries kMaxIdHole), e.1.toNat = k) ∧
    (∀ e ∈ overlappingLogs.flatMap (acceptedEntries kMaxIdHole), e.1.toNat ≤ 7) ∧
    (∀ m, ∀ e ∈ overlappingLogs.flatMap (acceptedEntries kMaxIdHole),
      (countingLine m e.2).1 = .status 0 ∧ id (countingLine m e.2).2 = id m + 1) ∧
    (metarestoreReplay id countingLine overlappingLogs (5 : UInt64)).2.2 = 0 ∧
      ∃ applied, (metarestoreReplay id countingLine overlappingLogs (5 : UInt64)).2.1 =
          applyLines countingLine 5 applied ∧
        applied.map (fun e => e.1.toNat) = List.range' (id (5 : UInt64)).toNat (7 + 1 - (id (5 : UInt64)).toNat) ∧
        ∀ e ∈ applied, e ∈ overlappingLogs.flatMap (acceptedEntries kMaxIdHole) := by
  have hv : id (5 : UInt64) ≠ 0 := by decide
  have hvM : (id (5 : UInt64)).toNat ≤ 7 := by decide
  have hcover : ∀ k, (id (5 : UInt64)).toNat ≤ k → k ≤ 7 →
      ∃ e ∈ overlappingLogs.flatMap (acceptedEntries kMaxIdHole), e.1.toNat = k := by
    intro k h1 h2
    have h1' : 5 ≤ k := h1
    rw [overlappingLogs_entries]
    interval_cases k <;> decide
  have hmax : ∀ e ∈ overlappingLogs.flatMap (acceptedEntries kMaxIdHole), e.1.toNat ≤ 7 := by
    rw [overlappingLogs_entries]
    decide
  have happly : ∀ m, ∀ e ∈ overlappingLogs.flatMap (acceptedEntries kMaxIdHole),
      (countingLine m e.2).1 = .status 0 ∧ id (countingLine m e.2).2 = id m + 1 := by
    rw [overlappingLogs_entries]
    intro m e he
    have hne : e.2 ≠ [] := by
      revert e
      decide
    simp [countingLine, hne]
  exact ⟨hv, hvM, by norm_num, hcover, hmax, happly,
    metarestoreReplay_complete hv hvM (by norm_num) hcover hmax happly⟩

end Replay

end LizardFs
