import LizardFs.Locks.Grants

/-!
# The window of a well-formed table, and `findCollision`

`findCollision` and `insert` both look only at a window of the table found by two binary
searches: from the last range that starts before the lock to the last that starts at or before
its end. On a well-formed table the ranges before the window end before the lock and those after
it start after it (`window_before`, `window_after`), so every range the lock overlaps is in
the window (`mem_window_of_overlaps`). `findCollision` therefore answers as a scan of the
whole table would (`findCollision_agrees_with_scan`).
-/

namespace LizardFs

namespace LockRanges

open LockRange

/-! ## The window -/

section Window

variable {xs : List LockRange} (hsorted : xs.Pairwise fun a b => a.start < b.start)
include hsorted

theorem lowerStart_spec (a : ℕ) :
    (∀ y ∈ xs.take (lowerStart xs a), y.start < a) ∧ lowerStart xs a ≤ xs.length := by
  have hpart : xs.Pairwise fun y z => decide (z.start < a) = true → decide (y.start < a) = true :=
    hsorted.imp fun hyz hz => by simp only [decide_eq_true_eq] at hz ⊢; omega
  refine ⟨fun y hy => ?_, partitionPoint_le_length hpart⟩
  simpa using (partitionPoint_spec hpart).1 y hy

theorem upperStart_spec (b : ℕ) : ∀ y ∈ xs.drop (upperStart xs b), b < y.start := by
  have hpart : xs.Pairwise fun y z =>
      (!decide (b < z.start)) = true → (!decide (b < y.start)) = true :=
    hsorted.imp fun hyz hz => by simp only [Bool.not_eq_true', decide_eq_false_iff_not] at hz ⊢; omega
  intro y hy
  simpa using (partitionPoint_spec hpart).2 y hy

/-- Every range before the window ends before the lock starts. -/
theorem window_before (hchain : xs.Pairwise Before) (range : LockRange) :
    ∀ y ∈ xs.take (window xs range).1, y.end_ ≤ range.start := by
  obtain ⟨hbelow, hlen⟩ := lowerStart_spec hsorted range.start
  simp only [window]
  split
  · next hl =>
    -- the window starts with the last range that starts before the lock
    intro y hy
    obtain ⟨j, hj, rfl⟩ := List.mem_take_iff_getElem.mp hy
    have hl' : lowerStart xs range.start - 1 < xs.length := by omega
    have hz := hbelow xs[lowerStart xs range.start - 1]
      (List.mem_take_iff_getElem.mpr ⟨_, by simp; omega, rfl⟩)
    have hyz := List.pairwise_iff_getElem.mp hchain j (lowerStart xs range.start - 1)
      (by omega) hl' (by omega)
    unfold Before at hyz
    omega
  · next hl =>
    simp only [ne_eq, Decidable.not_not] at hl
    simp [hl]

/-- Every range after the window starts after the lock ends. -/
theorem window_after (range : LockRange) :
    ∀ y ∈ xs.drop (window xs range).2, range.end_ < y.start :=
  upperStart_spec hsorted range.end_

theorem window_le (range : LockRange) (h : range.start ≤ range.end_) :
    (window xs range).1 ≤ (window xs range).2 := by
  have hlower := (lowerStart_spec hsorted range.start).1
  have hupper := upperStart_spec hsorted range.end_
  -- a range at an index between the two would start both before and after the lock
  have hle : lowerStart xs range.start ≤ upperStart xs range.end_ := by
    by_contra hlt
    have hu : upperStart xs range.end_ < xs.length :=
      Nat.lt_of_lt_of_le (Nat.lt_of_not_le hlt) (lowerStart_spec hsorted range.start).2
    have h1 := hlower xs[upperStart xs range.end_]
      (List.mem_take_iff_getElem.mpr ⟨_, by simp; omega, rfl⟩)
    have h2 := hupper xs[upperStart xs range.end_]
      (List.mem_drop_iff_getElem.mpr ⟨0, by simp; omega, by simp⟩)
    omega
  simp only [window]
  split <;> omega

end Window

theorem take_append_window {xs : List LockRange} {s e : ℕ} (h : s ≤ e) :
    xs.take s ++ (xs.take e).drop s ++ xs.drop e = xs := by
  have htake : (xs.take e).take s = xs.take s := by
    rw [List.take_take, Nat.min_eq_left h]
  conv_rhs => rw [← List.take_append_drop e xs, ← List.take_append_drop s (xs.take e), htake]


theorem mem_of_mem_window {xs : List LockRange} {s e : ℕ} {y : LockRange}
    (hy : y ∈ (xs.take e).drop s) : y ∈ xs :=
  List.mem_of_mem_take (List.mem_of_mem_drop hy)

/-- On a well-formed table every range the lock overlaps lies in the window. -/
theorem mem_window_of_overlaps {ls : LockRanges} (hls : ls.WellFormed) {range y : LockRange}
    (hy : y ∈ ls.data) (hov : range.overlaps y = true) :
    y ∈ (ls.data.take (window ls.data range).2).drop (window ls.data range).1 := by
  have hbefore := window_before hls.2.1 hls.chain range
  have hafter := window_after hls.2.1 range
  simp only [overlaps, Bool.and_eq_true, decide_eq_true_eq] at hov
  obtain ⟨j, hj, rfl⟩ := List.mem_iff_getElem.mp hy
  -- the index of the range is neither before the window nor after it
  have hs : (window ls.data range).1 ≤ j := by
    by_contra hlt
    have := hbefore ls.data[j] (List.mem_take_iff_getElem.mpr ⟨j, by simp; omega, rfl⟩)
    omega
  have he : j < (window ls.data range).2 := by
    by_contra hle
    have := hafter ls.data[j] (List.mem_drop_iff_getElem.mpr
      ⟨j - (window ls.data range).2, by omega, by congr 1; omega⟩)
    omega
  refine List.mem_iff_getElem.mpr ⟨j - (window ls.data range).1, ?_, ?_⟩
  · simp only [List.length_drop, List.length_take]
    omega
  · simp only [List.getElem_drop, List.getElem_take]
    congr 1
    omega

/-! ## `findCollision` -/

/-- The test `findCollision` makes of each range `o` of the window. -/
theorem collides_iff (range o : LockRange) :
    (range.overlaps o && (!range.shared || !o.shared) && !ownersEq o.owners range.owners) = true ↔
      o.start < range.end_ ∧ range.start < o.end_ ∧ ¬ (range.shared = true ∧ o.shared = true) ∧
        ownersEq o.owners range.owners = false := by
  simp only [overlaps, Bool.and_eq_true, decide_eq_true_eq, Bool.or_eq_true, Bool.not_eq_true',
    not_and, Bool.not_eq_true]
  -- not both shared: one of the two is not shared
  have hsh : (range.shared = false ∨ o.shared = false) ↔ (range.shared = true → o.shared = false) := by
    cases range.shared <;> simp
  rw [hsh]
  constructor
  · rintro ⟨⟨⟨h1, h2⟩, hsh⟩, hown⟩
    exact ⟨h2, h1, hsh, hown⟩
  · rintro ⟨h2, h1, hsh, hown⟩
    exact ⟨⟨⟨h1, h2⟩, hsh⟩, hown⟩

/-- On a well-formed table, `findCollision` finds nothing exactly when the lock is an unlock or
no range of the table overlaps it, is not shared together with it and has other owners; what it
finds is such a range of the table. -/
theorem findCollision_agrees_with_scan (ls : LockRanges) (hls : ls.WellFormed) (range : LockRange) :
    (ls.findCollision range = none ↔ range.unlocking = true ∨
      ∀ o ∈ ls.data, ¬ (o.start < range.end_ ∧ range.start < o.end_ ∧
        ¬ (range.shared = true ∧ o.shared = true) ∧ ownersEq o.owners range.owners = false)) ∧
    ∀ o, ls.findCollision range = some o → o ∈ ls.data ∧ o.start < range.end_ ∧
      range.start < o.end_ ∧ ¬ (range.shared = true ∧ o.shared = true) ∧
        ownersEq o.owners range.owners = false := by
  cases hun : range.unlocking
  · have hfind : ls.findCollision range =
        ((ls.data.take (window ls.data range).2).drop (window ls.data range).1).find? fun o =>
          range.overlaps o && (!range.shared || !o.shared) && !ownersEq o.owners range.owners := by
      simp only [findCollision, hun, Bool.false_eq_true, if_false]
    rw [hfind, List.find?_eq_none]
    refine ⟨⟨fun hnone => .inr fun o ho hc => ?_, fun hscan o ho hc => ?_⟩, fun o ho => ?_⟩
    · -- a colliding range of the table lies in the window, where the scan found none
      have hc' := (collides_iff range o).mpr hc
      have hov : range.overlaps o = true := by simp_all
      exact hnone o (mem_window_of_overlaps hls ho hov) hc'
    · rcases hscan with h | h
      · cases h
      · exact h o (mem_of_mem_window ho) ((collides_iff range o).mp hc)
    · have hc := List.find?_some ho
      exact ⟨mem_of_mem_window (List.mem_of_find?_eq_some ho), (collides_iff range o).mp hc⟩
  · simp [findCollision, hun]

/-- Two exclusive locks of owner 1 on `[0, 4)` and `[8, 12)`. -/
def twoLocks : LockRanges :=
  ⟨[⟨.exclusive, 0, 4, [⟨1, 1, 0, 0⟩]⟩, ⟨.exclusive, 8, 12, [⟨1, 1, 0, 0⟩]⟩]⟩

theorem findCollision_twoLocks_agrees :
    twoLocks.WellFormed ∧
      ((twoLocks.findCollision ⟨.shared, 3, 9, [⟨2, 2, 0, 0⟩]⟩ = none ↔
        (⟨.shared, 3, 9, [⟨2, 2, 0, 0⟩]⟩ : LockRange).unlocking = true ∨
        ∀ o ∈ twoLocks.data, ¬ (o.start < 9 ∧ 3 < o.end_ ∧
          ¬ ((⟨.shared, 3, 9, [⟨2, 2, 0, 0⟩]⟩ : LockRange).shared = true ∧ o.shared = true) ∧
          ownersEq o.owners [⟨2, 2, 0, 0⟩] = false)) ∧
      ∀ o, twoLocks.findCollision ⟨.shared, 3, 9, [⟨2, 2, 0, 0⟩]⟩ = some o → o ∈ twoLocks.data ∧
        o.start < 9 ∧ 3 < o.end_ ∧
        ¬ ((⟨.shared, 3, 9, [⟨2, 2, 0, 0⟩]⟩ : LockRange).shared = true ∧ o.shared = true) ∧
          ownersEq o.owners [⟨2, 2, 0, 0⟩] = false) :=
  ⟨by decide, findCollision_agrees_with_scan twoLocks (by decide) ⟨.shared, 3, 9, [⟨2, 2, 0, 0⟩]⟩⟩

/-- Owner 2 locking `[3, 9)` shared collides with the first range of `twoLocks`. -/
example : twoLocks.findCollision ⟨.shared, 3, 9, [⟨2, 2, 0, 0⟩]⟩ =
    some ⟨.exclusive, 0, 4, [⟨1, 1, 0, 0⟩]⟩ := by
  decide

end LockRanges

end LizardFs
