import LizardFs.Locks.InsertLoop
import LizardFs.Locks.Collision

/-!
# `LockRanges::insert` keeps the table well-formed and locks what it is asked to

`insert` runs its loop over the window of the table that `findCollision` scans too
(`Locks.Collision`). On a well-formed table the ranges before the window end before the lock
and those after it start after it (`window_before`, `window_after`), so the loop sees every
range the lock overlaps, and `fits` makes the lock compatible with each of them
(`compatible_of_fits`).
The fuel `insert` gives the loop is more than its potential, and the spec of the loop
gives `insert_locks_range`.
-/

namespace LizardFs

namespace LockRanges

open LockRange

/-- `fits` makes the lock compatible with every range of the window it overlaps. -/
theorem compatible_of_fits {ls : LockRanges} {range : LockRange} (hfits : ls.fits range = true) :
    ∀ y ∈ (ls.data.take (window ls.data range).2).drop (window ls.data range).1,
      range.overlaps y = true → Compatible range y := by
  intro y hy hov
  cases hun : range.unlocking
  · have hnone : (ls.findCollision range).isNone = true := hfits
    simp only [findCollision, hun, Bool.false_eq_true, if_false] at hnone
    have hfind := List.find?_eq_none.mp (Option.isNone_iff_eq_none.mp hnone) y hy
    simp only [hov, Bool.true_and, Bool.and_eq_true, Bool.not_eq_true', not_and,
      Bool.not_eq_false, Bool.or_eq_true] at hfind
    -- no collision: both shared, or the same owners
    by_cases hsh : range.shared = true ∧ y.shared = true
    · exact .inr (.inl hsh)
    · refine .inl (ownersEq_symm (hfind ?_))
      cases h1 : range.shared <;> cases h2 : y.shared <;> simp_all
  · exact .inr (.inr hun)

/-- The ranges `insert` leaves: those before the window, what the loop left in the window
without the erased ones, and those after it. -/
theorem insert_data (ls : LockRanges) (range : LockRange) :
    (ls.insert range).data =
      ls.data.take (window ls.data range).1 ++
        (emitted (insertLoop
          (2 * ((ls.data.take (window ls.data range).2).drop (window ls.data range).1).length + 1)
          range ((ls.data.take (window ls.data range).2).drop (window ls.data range).1))).filter
          (fun o => !o.unlocking) ++
        ls.data.drop (window ls.data range).2 := by
  unfold insert
  generalize window ls.data range = w
  obtain ⟨s, e⟩ := w
  simp only
  generalize insertLoop _ _ _ = res
  obtain ⟨out, r, left⟩ := res
  rfl

/-! ## `insert` -/

/-- `insert` of a single-owner lock or unlock that `fits` keeps the table well-formed, and
the table then grants what it granted before, updated by the lock: on the bytes of the
lock its owner holds its type (nothing, for an unlock), and every other owner and byte
keeps its lock. -/
theorem insert_locks_range (ls : LockRanges) (range : LockRange) (o : Owner) (hls : ls.WellFormed)
    (ho : range.owners = [o]) (hr : range.start < range.end_)
    (ht : range.type = .shared ∨ range.type = .exclusive ∨ range.type = .unlock)
    (hfits : ls.fits range = true) :
    (ls.insert range).WellFormed ∧
      ∀ x k t, (ls.insert range).HoldsKey x k t ↔
        LockMap.update ls.HoldsKey range.start range.end_ o.key range.type x k t := by
  have hsorted := hls.2.1
  have hchain := hls.chain
  have hse := window_le hsorted range (Nat.le_of_lt hr)
  have hbefore := window_before hsorted hchain range
  have hafter := window_after hsorted range
  set s := (window ls.data range).1
  set e := (window ls.data range).2
  set W := (ls.data.take e).drop s
  have hsplit : ls.data = ls.data.take s ++ W ++ ls.data.drop e := (take_append_window hse).symm
  -- the table is a chain before, in and after the window
  have hparts := hchain
  rw [hsplit] at hparts
  obtain ⟨hTW, hD, hTWD⟩ := List.pairwise_append.mp hparts
  obtain ⟨hT, hW, hTW⟩ := List.pairwise_append.mp hTW
  have hinv : LoopInv o range W :=
    ⟨ho, by rcases ht with h | h | h <;> rw [h] <;> decide,
      fun y hy => hls.1 y (List.mem_of_mem_take (List.mem_of_mem_drop hy)), hW,
      compatible_of_fits hfits⟩
  have hspec := insertLoop_spec (2 * W.length + 1) hinv
    (Nat.le_trans (pot_le range W) (Nat.le_succ _))
  have hdata := insert_data ls range
  have hwf : (ls.insert range).WellFormed := by
    rw [wellFormed_iff_chain, hdata]
    constructor
    · intro z hz
      rcases List.mem_append.mp hz with hz | hz
      · rcases List.mem_append.mp hz with hz | hz
        · exact hls.1 z (List.mem_of_mem_take hz)
        · obtain ⟨hz, hlive⟩ := List.mem_filter.mp hz
          exact hspec.wf z hz (by simpa using hlive)
      · exact hls.1 z (List.mem_of_mem_drop hz)
    · refine List.pairwise_append.mpr ⟨List.pairwise_append.mpr ⟨hT, hspec.chain, ?_⟩, hD, ?_⟩
      · -- the ranges before the window end before all that the loop leaves
        intro y hy z hz
        exact hspec.lower y.end_ (hbefore y hy) (fun w hw => hTW y hy w hw) z
          (List.mem_of_mem_filter hz)
      · -- and all that the loop leaves ends before the ranges after the window
        intro y hy z hz
        rcases List.mem_append.mp hy with hy | hy
        · exact hTWD y (List.mem_append_left _ hy) z hz
        · exact hspec.upper z.start (Nat.le_of_lt (hafter z hz))
            (fun w hw => hTWD w (List.mem_append_right _ hw) z hz) y (List.mem_of_mem_filter hy)
  refine ⟨hwf, fun x k t => ?_⟩
  have hgrants : Grants (ls.insert range).data =
      (Grants ls.data).update range.start range.end_ o.key range.type := by
    rw [hdata, grants_append, grants_append, grants_filter, hspec.grants]
    conv_rhs => rw [hsplit, grants_append, grants_append]
    rw [LockMap.update_sup_of_vanishes _ (vanishes_grants fun y hy => .inr (Nat.le_of_lt (hafter y hy))),
      LockMap.update_sup_of_vanishes_left (vanishes_grants fun y hy => .inl (hbefore y hy))]
  rw [holdsKey_eq_grants hwf, holdsKey_eq_grants hls, hgrants]

/-- A table with `[0, 10)` locked shared by owner 1 of session 1. -/
def sharedTable : LockRanges := ⟨[⟨.shared, 0, 10, [⟨1, 1, 0, 0⟩]⟩]⟩

/-- Owner 2 of session 2 locks `[5, 15)` shared. -/
def sharedLock : LockRange := ⟨.shared, 5, 15, [⟨2, 2, 0, 0⟩]⟩

theorem shared_lock_joins_shared_range :
    sharedTable.WellFormed ∧ sharedLock.owners = [⟨2, 2, 0, 0⟩] ∧ sharedLock.start < sharedLock.end_ ∧
      (sharedLock.type = .shared ∨ sharedLock.type = .exclusive ∨ sharedLock.type = .unlock) ∧
      sharedTable.fits sharedLock = true ∧
      ((sharedTable.insert sharedLock).WellFormed ∧
        ∀ x k t, (sharedTable.insert sharedLock).HoldsKey x k t ↔
          LockMap.update sharedTable.HoldsKey sharedLock.start sharedLock.end_ (2, 2) sharedLock.type
            x k t) :=
  ⟨by decide, rfl, by decide, .inl rfl, by decide,
    insert_locks_range sharedTable sharedLock ⟨2, 2, 0, 0⟩ (by decide) rfl (by decide) (.inl rfl)
      (by decide)⟩

/-- Unlocking the middle of an exclusive lock leaves its two ends. -/
example : (LockRanges.insert ⟨[⟨.exclusive, 0, 10, [⟨1, 1, 0, 0⟩]⟩]⟩
      ⟨.unlock, 3, 7, [⟨1, 1, 0, 0⟩]⟩).data =
    [⟨.exclusive, 0, 3, [⟨1, 1, 0, 0⟩]⟩, ⟨.exclusive, 7, 10, [⟨1, 1, 0, 0⟩]⟩] := by
  decide

end LockRanges

end LizardFs
