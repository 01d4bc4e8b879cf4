import Mathlib
import LizardFs.Locks.WellFormed

/-!
# Removing the locks of some owners

`FileLocks::unlock(inode, pred)` of `src/master/locks.h`, which
`fs_locks_clear_session` calls with the owners of one session, runs a `remove_if`
over the owners of each range inside the predicate of a `remove_if` over the ranges,
and widens the affected span `[start, end)` as a side effect. Its model `unlockIf` is a
fold over the ranges.

`unlockIf_of_find` splits that fold into its three results: the ranges kept, each
with the owners that do not satisfy `pred` (`keepOwners`), and the least start and
greatest end of the ranges that lost an owner. `unlockIf_clears_owners` then says what
the call does to a well-formed table: it stays well-formed, exactly the owners that
satisfy `pred` lose their locks, and the span returned covers every range that lost
an owner, empty exactly when none did.
-/

namespace LizardFs

namespace FileLocks

variable (pred : Owner → Bool)

/-- What `unlock(inode, pred)` keeps of a range: its owners that do not satisfy `pred`,
and nothing when none is left. -/
def keepOwners (r : LockRange) : Option LockRange :=
  if (r.owners.filter fun o => !pred o).isEmpty then none
  else some { r with owners := r.owners.filter fun o => !pred o }

/-- The start of the span after looking at `r`. -/
def firstAffected (s : ℕ) (r : LockRange) : ℕ := if r.owners.any pred then min s r.start else s

/-- The end of the span after looking at `r`. -/
def lastAffected (e : ℕ) (r : LockRange) : ℕ := if r.owners.any pred then max e r.end_ else e

variable {pred}

theorem keepOwners_eq_some {r r' : LockRange} (h : keepOwners pred r = some r') :
    r' = { r with owners := r.owners.filter fun o => !pred o } ∧
      r.owners.filter (fun o => !pred o) ≠ [] := by
  unfold keepOwners at h
  split at h
  · cases h
  · next hne =>
    cases h
    exact ⟨rfl, fun h => hne (by rw [h]; rfl)⟩

/-- A range with an owner that `pred` spares keeps that owner and the others spared. -/
theorem keepOwners_of_mem {r : LockRange} {o : Owner} (ho : o ∈ r.owners) (hp : pred o = false) :
    keepOwners pred r = some { r with owners := r.owners.filter fun o => !pred o } := by
  unfold keepOwners
  rw [if_neg]
  intro hempty
  have hmem : o ∈ r.owners.filter fun o => !pred o := List.mem_filter.mpr ⟨ho, by simp [hp]⟩
  rw [List.isEmpty_iff.mp hempty] at hmem
  exact List.not_mem_nil hmem

/-- The source's test `erased_owners_it != lock.owners.end()`: some owner satisfies
`pred`. -/
theorem length_filter_lt_iff_any (r : LockRange) :
    (r.owners.filter fun o => !pred o).length < r.owners.length ↔ r.owners.any pred = true := by
  rw [List.length_filter_lt_length_iff_exists, List.any_eq_true]
  simp

/-- The fold of `unlockIf`, by what each step does: keep a part of the range, and widen
the span by the range if it lost an owner. -/
theorem foldl_unlockIf (F : List LockRange × ℕ × ℕ → LockRange → List LockRange × ℕ × ℕ)
    (hF : ∀ acc r, F acc r = (acc.1 ++ (keepOwners pred r).toList,
      firstAffected pred acc.2.1 r, lastAffected pred acc.2.2 r)) :
    ∀ (l : List LockRange) (acc : List LockRange × ℕ × ℕ),
      l.foldl F acc = (acc.1 ++ l.filterMap (keepOwners pred),
        l.foldl (firstAffected pred) acc.2.1, l.foldl (lastAffected pred) acc.2.2)
  | [], acc => by simp
  | r :: l, acc => by
    rw [List.foldl_cons, foldl_unlockIf F hF l, hF, List.foldl_cons, List.foldl_cons,
      List.filterMap_cons]
    cases keepOwners pred r <;> simp

/-- `unlock(inode, pred)` on an inode with a table: the table keeps what `keepOwners`
keeps of each range, and the span runs from the least start to the greatest end of the
ranges that lost an owner. -/
theorem unlockIf_of_find {fl : FileLocks} {inode : ℕ} {ls : LockRanges}
    (h : AssocList.find? fl.active inode = some ls) :
    fl.unlockIf inode pred =
      ({ fl with active := AssocList.set fl.active inode ⟨ls.data.filterMap (keepOwners pred)⟩ },
        ls.data.foldl (firstAffected pred) (2 ^ 64 - 1), ls.data.foldl (lastAffected pred) 0) := by
  simp only [unlockIf, h]
  rw [foldl_unlockIf _ (fun acc r => ?_)]
  · rfl
  · simp only [keepOwners, firstAffected, lastAffected, length_filter_lt_iff_any]
    split <;> simp

/-- The span starts at most at the start of every range that lost an owner, and stays
where it was when none did. -/
theorem foldl_firstAffected : ∀ (l : List LockRange) (s : ℕ),
    l.foldl (firstAffected pred) s ≤ s ∧
      (∀ r ∈ l, r.owners.any pred = true → l.foldl (firstAffected pred) s ≤ r.start) ∧
      ((∀ r ∈ l, r.owners.any pred = false) → l.foldl (firstAffected pred) s = s)
  | [], s => by simp
  | r :: l, s => by
    obtain ⟨hle, hstart, hnone⟩ := foldl_firstAffected l (firstAffected pred s r)
    have hstep : firstAffected pred s r ≤ s := by
      unfold firstAffected
      split <;> omega
    rw [List.foldl_cons]
    refine ⟨Nat.le_trans hle hstep, fun r' hr' hany => ?_, fun hall => ?_⟩
    · rcases List.mem_cons.mp hr' with rfl | hr'
      · have : firstAffected pred s r' ≤ r'.start := by
          rw [firstAffected, if_pos hany]
          omega
        exact Nat.le_trans hle this
      · exact hstart r' hr' hany
    · have hr : firstAffected pred s r = s := by
        rw [firstAffected, if_neg (by rw [hall r List.mem_cons_self]; decide)]
      rw [hnone fun r' hr' => hall r' (List.mem_cons_of_mem _ hr'), hr]

/-- The span ends at least at the end of every range that lost an owner, and stays
where it was when none did. -/
theorem foldl_lastAffected : ∀ (l : List LockRange) (e : ℕ),
    e ≤ l.foldl (lastAffected pred) e ∧
      (∀ r ∈ l, r.owners.any pred = true → r.end_ ≤ l.foldl (lastAffected pred) e) ∧
      ((∀ r ∈ l, r.owners.any pred = false) → l.foldl (lastAffected pred) e = e)
  | [], e => by simp
  | r :: l, e => by
    obtain ⟨hle, hend, hnone⟩ := foldl_lastAffected l (lastAffected pred e r)
    have hstep : e ≤ lastAffected pred e r := by
      unfold lastAffected
      split <;> omega
    rw [List.foldl_cons]
    refine ⟨Nat.le_trans hstep hle, fun r' hr' hany => ?_, fun hall => ?_⟩
    · rcases List.mem_cons.mp hr' with rfl | hr'
      · have : r'.end_ ≤ lastAffected pred e r' := by
          rw [lastAffected, if_pos hany]
          omega
        exact Nat.le_trans this hle
      · exact hend r' hr' hany
    · have hr : lastAffected pred e r = e := by
        rw [lastAffected, if_neg (by rw [hall r List.mem_cons_self]; decide)]
      rw [hnone fun r' hr' => hall r' (List.mem_cons_of_mem _ hr'), hr]

/-! ## The table left behind -/

/-- Keeping part of the owners keeps a table well-formed. -/
theorem wellFormed_filterMap_keepOwners {ls : LockRanges} (hls : ls.WellFormed) :
    (⟨ls.data.filterMap (keepOwners pred)⟩ : LockRanges).WellFormed := by
  obtain ⟨hranges, hsorted, hdisjoint⟩ := hls
  refine ⟨fun r' hr' => ?_, ?_, ?_⟩
  · obtain ⟨r, hr, hkeep⟩ := List.mem_filterMap.mp hr'
    obtain ⟨rfl, hne⟩ := keepOwners_eq_some hkeep
    obtain ⟨hlt, -, howners, htype, hexcl⟩ := hranges r hr
    refine ⟨hlt, hne, howners.filter _, htype, fun hx => ?_⟩
    -- the one owner of an exclusive range is kept whole, or the range goes
    have hle := List.length_filter_le (fun o => !pred o) r.owners
    have hpos := List.length_pos_of_ne_nil hne
    have := hexcl hx
    simp only at hle hpos ⊢
    omega
  · refine List.pairwise_filterMap.mpr (hsorted.imp fun hab b hb b' hb' => ?_)
    obtain ⟨rfl, -⟩ := keepOwners_eq_some hb
    obtain ⟨rfl, -⟩ := keepOwners_eq_some hb'
    exact hab
  · refine List.pairwise_filterMap.mpr (hdisjoint.imp fun hab b hb b' hb' => ?_)
    obtain ⟨rfl, -⟩ := keepOwners_eq_some hb
    obtain ⟨rfl, -⟩ := keepOwners_eq_some hb'
    exact hab

/-- After the removal an owner holds exactly the locks it held, unless it satisfies
`pred`: then it holds none. -/
theorem holds_filterMap_keepOwners (ls : LockRanges) (x : ℕ) (o : Owner) (t : LockType) :
    (⟨ls.data.filterMap (keepOwners pred)⟩ : LockRanges).Holds x o t ↔
      pred o = false ∧ ls.Holds x o t := by
  constructor
  · rintro ⟨r', hr', hcovers, ho, htype⟩
    obtain ⟨r, hr, hkeep⟩ := List.mem_filterMap.mp hr'
    obtain ⟨rfl, -⟩ := keepOwners_eq_some hkeep
    obtain ⟨ho, hp⟩ := List.mem_filter.mp ho
    exact ⟨by simpa using hp, r, hr, hcovers, ho, htype⟩
  · rintro ⟨hp, r, hr, hcovers, ho, htype⟩
    refine ⟨_, List.mem_filterMap.mpr ⟨r, hr, keepOwners_of_mem ho hp⟩, hcovers,
      List.mem_filter.mpr ⟨ho, by simp [hp]⟩, htype⟩

end FileLocks

namespace FileLocks

/-- What `unlock(inode, pred)` does to the well-formed table `ls` of `inode`: the table
left is well-formed and holds what `keepOwners` keeps of each range (a range left without
owner is gone), each owner keeps exactly its locks unless it satisfies `pred`, the span
`[first, second)` covers every range that lost an owner and is empty exactly when none
did, and the queues and the other inodes' tables are untouched. -/
def ClearsOwners (fl : FileLocks) (inode : ℕ) (pred : Owner → Bool) (ls : LockRanges) :
    Prop :=
  let res := fl.unlockIf inode pred
  ∃ ls', AssocList.find? res.1.active inode = some ls' ∧ ls'.WellFormed ∧
    ls'.data = ls.data.filterMap (keepOwners pred) ∧
    (∀ x o t, ls'.Holds x o t ↔ pred o = false ∧ ls.Holds x o t) ∧
    (∀ r ∈ ls.data, r.owners.any pred = true → res.2.1 ≤ r.start ∧ r.end_ ≤ res.2.2) ∧
    (res.2.2 ≤ res.2.1 ↔ ∀ r ∈ ls.data, r.owners.any pred = false) ∧
    res.1.pending = fl.pending ∧
    ∀ i, i ≠ inode → AssocList.find? res.1.active i = AssocList.find? fl.active i

end FileLocks

open FileLocks in
/-- `FileLocks::unlock(inode, pred)`: on an inode without a table nothing changes and
the span is empty; on a well-formed table it removes exactly the owners that satisfy
`pred` (`ClearsOwners`). -/
theorem unlockIf_clears_owners (fl : FileLocks) (inode : ℕ) (pred : Owner → Bool) :
    (AssocList.find? fl.active inode = none → fl.unlockIf inode pred = (fl, 2 ^ 64 - 1, 0)) ∧
    ∀ ls, AssocList.find? fl.active inode = some ls → ls.WellFormed →
      ClearsOwners fl inode pred ls := by
  refine ⟨fun h => by simp only [unlockIf, h], fun ls hfind hls => ?_⟩
  unfold ClearsOwners
  intro res
  obtain ⟨hfirst, hstart, hnone⟩ := @foldl_firstAffected pred ls.data (2 ^ 64 - 1)
  obtain ⟨hlast, hend, hnone'⟩ := @foldl_lastAffected pred ls.data 0
  have hres : res = _ := unlockIf_of_find hfind
  rw [hres]
  refine ⟨_, by rw [AssocList.find?_set, if_pos rfl], wellFormed_filterMap_keepOwners hls, rfl,
    holds_filterMap_keepOwners ls, fun r hr hany => ⟨hstart r hr hany, hend r hr hany⟩,
    ⟨fun hle => ?_, fun hall => ?_⟩, rfl, fun i hi => ?_⟩
  · -- a range that lost an owner is non-empty, so it leaves a non-empty span
    intro r hr
    by_contra hany
    rw [Bool.not_eq_false] at hany
    have hlt := (hls.1 r hr).1
    have := hstart r hr hany
    have := hend r hr hany
    simp only at hle
    omega
  · simp only
    rw [hnone hall, hnone' hall]
    exact Nat.zero_le _
  · simp only
    rw [AssocList.find?_set, if_neg (Ne.symm hi)]

/-- Inode 1: `[0, 10)` shared by sessions 1 and 2, `[10, 20)` held by session 1. -/
def twoSessionLocks : FileLocks :=
  ⟨[(1, ⟨[⟨.shared, 0, 10, [⟨1, 1, 0, 0⟩, ⟨2, 2, 0, 0⟩]⟩, LockRange.mk1 .exclusive 10 20 ⟨1, 1, 0, 0⟩]⟩)],
    []⟩

theorem clearing_session_one_keeps_session_two :
    AssocList.find? twoSessionLocks.active 1 =
        some ⟨[⟨.shared, 0, 10, [⟨1, 1, 0, 0⟩, ⟨2, 2, 0, 0⟩]⟩,
          LockRange.mk1 .exclusive 10 20 ⟨1, 1, 0, 0⟩]⟩ ∧
      LockRanges.WellFormed ⟨[⟨.shared, 0, 10, [⟨1, 1, 0, 0⟩, ⟨2, 2, 0, 0⟩]⟩,
        LockRange.mk1 .exclusive 10 20 ⟨1, 1, 0, 0⟩]⟩ ∧
      FileLocks.ClearsOwners twoSessionLocks 1 (fun o => o.sessionid == 1)
        ⟨[⟨.shared, 0, 10, [⟨1, 1, 0, 0⟩, ⟨2, 2, 0, 0⟩]⟩,
          LockRange.mk1 .exclusive 10 20 ⟨1, 1, 0, 0⟩]⟩ := by
  have hfind : AssocList.find? twoSessionLocks.active 1 =
      some ⟨[⟨.shared, 0, 10, [⟨1, 1, 0, 0⟩, ⟨2, 2, 0, 0⟩]⟩,
        LockRange.mk1 .exclusive 10 20 ⟨1, 1, 0, 0⟩]⟩ := rfl
  have hwf : LockRanges.WellFormed ⟨[⟨.shared, 0, 10, [⟨1, 1, 0, 0⟩, ⟨2, 2, 0, 0⟩]⟩,
      LockRange.mk1 .exclusive 10 20 ⟨1, 1, 0, 0⟩]⟩ := by decide
  exact ⟨hfind, hwf, (unlockIf_clears_owners twoSessionLocks 1 _).2 _ hfind hwf⟩

/-- Session 1 leaves `[0, 10)` to session 2 and the span `[0, 20)` of both its ranges. -/
example : twoSessionLocks.unlockIf 1 (fun o => o.sessionid == 1) =
    (⟨[(1, ⟨[⟨.shared, 0, 10, [⟨2, 2, 0, 0⟩]⟩]⟩)], []⟩, 0, 20) := by decide

end LizardFs
