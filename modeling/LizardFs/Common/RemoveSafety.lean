import Mathlib.Algebra.Order.BigOperators.Group.List
import LizardFs.Common.CalculatorRuns

/-!
# Removing a part keeps the chunk safe

`ChunkWorker::removeUnneededChunkPart` deletes a copy only when `canRemovePart` allows it.
This module proves that the deletion then leaves the chunk safe (a redundancy level of at
least 1), except in the one case the source lets through on purpose: the goal's slice of
that type asks for a single copy and one is left (`canRemovePart_keeps_safe`).

The argument rests on one fact about one removal: the slice it touches loses at most one
unit of redundancy (`evalSliceRedundancyLevel_modifyPart_ge`), because a standard slice
loses one copy and a xor or erasure code slice at most one distinct part, and a
`uint16_t` count of 0 only wraps upwards. Each branch of `removePartBasicTest` is then a
count: more than one safe slice, or a safe and an endangered one, leave enough after one
unit less; a lost slice adds nothing before or after; and the last branch evaluates the
slice after the removal itself.
-/

namespace LizardFs

open MediaLabel CountWalk SliceTraits Goal

namespace ChunkCopiesCalculator

/-! ## Lists with one element changed -/

theorem modify_eq_set_getD {β : Type*} (l : List β) (i : ℕ) (f : β → β) (d : β) :
    l.modify i f = l.set i (f (l.getD i d)) := by
  apply List.ext_getElem
  · simp
  · intro n h₁ h₂
    rw [List.getElem_modify, List.getElem_set]
    by_cases hin : i = n
    · subst hin
      rw [if_pos rfl, if_pos rfl, List.getD_eq_getElem?_getD,
        List.getElem?_eq_getElem (by simpa using h₁), Option.getD_some]
    · rw [if_neg hin, if_neg hin]

theorem sum_set_add : ∀ (l : List ℕ) {i : ℕ} (hi : i < l.length) (v : ℕ),
    (l.set i v).sum + l[i] = l.sum + v
  | [], _, hi, _ => absurd hi (Nat.not_lt_zero _)
  | a :: l, 0, _, v => by
    simp only [List.set_cons_zero, List.sum_cons, List.getElem_cons_zero]
    omega
  | a :: l, i + 1, hi, v => by
    have := sum_set_add l (Nat.lt_of_succ_lt_succ hi) v
    simp only [List.set_cons_succ, List.sum_cons, List.getElem_cons_succ]
    omega

/-! ## The redundancy of a slice from its part counts -/

/-- The copies of each part of a slice. -/
def partCopies (s : Slice) : List ℕ := s.parts.map Labels.countLabels

theorem evalSliceRedundancyLevel_eq (s : Slice) :
    evalSliceRedundancyLevel s =
      if isStandard s.type then ((partCopies s).sum : ℤ) - 1
      else if isXor s.type || isEC s.type then
        (((partCopies s).countP fun n => 0 < n : ℕ) : ℤ) - getNumberOfDataParts s.type
      else -1 := by
  simp only [evalSliceRedundancyLevel, partCopies, List.countP_map, Function.comp_def]

/-- Slices of one type with the same part counts are as redundant. -/
theorem evalSliceRedundancyLevel_congr {s s' : Slice} (htype : s'.type = s.type)
    (hcopies : partCopies s' = partCopies s) :
    evalSliceRedundancyLevel s' = evalSliceRedundancyLevel s := by
  rw [evalSliceRedundancyLevel_eq, evalSliceRedundancyLevel_eq, htype, hcopies]

theorem partCopies_modifyPart (s : Slice) (i : ℕ) (f : Labels → Labels) :
    partCopies (s.modifyPart i f) = (partCopies s).set i (f (s.part i)).countLabels := by
  simp only [partCopies, Slice.modifyPart, Slice.part]
  rw [modify_eq_set_getD s.parts i f Labels.empty, List.map_set]

/-- A part that loses at most one copy costs its slice at most one unit of redundancy. -/
theorem evalSliceRedundancyLevel_modifyPart_ge (s : Slice) (i : ℕ) (f : Labels → Labels)
    (hf : (s.part i).countLabels ≤ (f (s.part i)).countLabels + 1) :
    evalSliceRedundancyLevel s - 1 ≤ evalSliceRedundancyLevel (s.modifyPart i f) := by
  by_cases hi : i < s.size
  · have hlen : i < (partCopies s).length := by
      rw [partCopies, List.length_map, Slice.length_parts_eq_size]; exact hi
    have hget : (partCopies s)[i] = (s.part i).countLabels := by
      simp only [partCopies, List.getElem_map, Slice.part]
      rw [List.getD_eq_getElem?_getD, List.getElem?_eq_getElem (by simpa [partCopies] using hlen),
        Option.getD_some]
    -- one copy less in all, and at most one part fewer with copies
    have hsum := sum_set_add (partCopies s) hlen (f (s.part i)).countLabels
    have hcount := List.countP_set (p := fun n => decide (0 < n)) (a := (f (s.part i)).countLabels) hlen
    rw [evalSliceRedundancyLevel_eq, evalSliceRedundancyLevel_eq, Slice.type_modifyPart,
      partCopies_modifyPart]
    rw [hget] at hsum hcount
    have hle := List.countP_le_length (p := fun n => decide (0 < n)) (l := partCopies s)
    split
    · omega
    · split
      · have : (partCopies s).countP (fun n => decide (0 < n)) ≤
            ((partCopies s).set i (f (s.part i)).countLabels).countP (fun n => decide (0 < n)) + 1 := by
          rw [hcount]
          split <;> split <;> omega
        omega
      · omega
  · rw [Slice.modifyPart_of_le _ _ (by omega)]
    omega

/-- A slice's copies in all, from its part counts. -/
theorem getExpectedCopies_eq_sum (s : Slice) : s.getExpectedCopies = (partCopies s).sum := rfl

/-! ## What one removal does to the part it touches -/

/-- What `removePart` does to the labels of the part: `count` copies left on
`label`, the entry erased when none is. -/
def removeCopy (count : ℕ) (label : MediaLabel) (labels : Labels) : Labels :=
  if count = 0 then labels.erase label else labels.set label count

/-- Erasing an entry and setting it to 0 leave the same copies, so the part
`canRemovePart` evaluates has the copies of the one `removePart` leaves. -/
theorem countLabels_removeCopy (count : ℕ) (label : MediaLabel) (l : Labels) :
    (removeCopy count label l).countLabels = (l.set label count).countLabels := by
  unfold removeCopy
  split
  · next h =>
    have hset := Labels.countLabels_set l label count
    have herase := Labels.countLabels_erase l label
    omega
  · rfl

theorem get_lt_of_bounded {l : Labels} (hl : ∀ e ∈ l.entries, e.2 < 65536) (label : MediaLabel) :
    l.get label < 65536 := by
  by_cases hmem : label ∈ l.entries.map Prod.fst
  · obtain ⟨e, he, rfl⟩ := List.mem_map.mp hmem
    rw [Labels.get, get_of_mem l.sorted he]
    exact hl e he
  · rw [Labels.get, get_eq_zero_of_not_mem hmem]
    norm_num

/-- A `uint16_t` decrement takes at most one copy: at 0 it wraps upwards. -/
theorem countLabels_le_removeCopy (l : Labels) (label : MediaLabel) (hl : l.get label < 65536) :
    l.countLabels ≤ (removeCopy ((l.get label + 65535) % 65536) label l).countLabels + 1 := by
  have hset := Labels.countLabels_set l label ((l.get label + 65535) % 65536)
  rw [countLabels_removeCopy]
  omega

/-! ## Putting a slice back -/

theorem mem_insertSlice_self (s : Slice) : ∀ l : List Slice, s ∈ insertSlice s l
  | [] => List.mem_singleton_self s
  | t :: ts => by
    unfold insertSlice
    split
    · exact List.mem_cons_self
    · split
      · exact List.mem_cons_self
      · exact List.mem_cons_of_mem _ (mem_insertSlice_self s ts)

/-- Putting `s'` in place of the slice `s` of its type swaps their terms in a sum over the
slices. -/
theorem sum_insertSlice (w : Slice → ℤ) {s s' : Slice} (htype : s'.type = s.type) :
    ∀ {l : List Slice}, l.Pairwise (fun a b => a.type < b.type) → s ∈ l →
      ((insertSlice s' l).map w).sum + w s = (l.map w).sum + w s'
  | [], _, hs => absurd hs List.not_mem_nil
  | t :: ts, hl, hs => by
    obtain ⟨ht, hts⟩ := List.pairwise_cons.mp hl
    -- `s` is `t` or comes after it, with a larger type
    have hcases : s = t ∨ (s ∈ ts ∧ t.type < s.type) := by
      rcases List.mem_cons.mp hs with h | h
      · exact .inl h
      · exact .inr ⟨h, ht s h⟩
    unfold insertSlice
    split
    · next hlt =>
      rcases hcases with rfl | ⟨-, h⟩ <;> omega
    · split
      · next heq =>
        rcases hcases with rfl | ⟨-, h⟩
        · simp only [List.map_cons, List.sum_cons]
          omega
        · omega
      · next hne =>
        rcases hcases with rfl | ⟨hs', -⟩
        · exact absurd htype hne
        · have ih := sum_insertSlice w htype hts hs'
          simp only [List.map_cons, List.sum_cons]
          omega

/-! ## One removal

`removePart` writes back the slice of the type with one copy less on the label, and
`canRemovePart` evaluates a copy of that slice made the same way. -/

section Removal

variable {c : ChunkCopiesCalculator} {T p : ℕ} {L : MediaLabel} {a : Slice}

theorem getSlice_of_find {g : Goal} {type : ℕ} {s : Slice} (h : g.find type = some s) :
    g.getSlice type = s := by
  rw [Goal.getSlice, h, Option.getD_some]

/-- The available slices after a removal from the slice `a` of the type. -/
theorem available_removePart (ha : c.available.find T = some a) :
    (c.removePart T p L).available =
      if (a.part p).contains L then
        c.available.setSlice (a.modifyPart p (removeCopy (((a.part p).get L + 65535) % 65536) L))
      else c.available := by
  simp only [removePart, ha]
  split <;> rfl

theorem getSlice_removePart (ha : c.available.find T = some a) :
    (c.removePart T p L).available.getSlice T =
      if (a.part p).contains L then
        a.modifyPart p (removeCopy (((a.part p).get L + 65535) % 65536) L)
      else a := by
  have htype := (find_eq_some ha).2
  rw [available_removePart ha]
  split
  · rw [getSlice_setSlice, if_pos (by rw [Slice.type_modifyPart, htype])]
  · exact getSlice_of_find ha

/-- The slice the removal leaves is one of the available slices after it. -/
theorem getSlice_removePart_mem (ha : c.available.find T = some a) :
    (c.removePart T p L).available.getSlice T ∈ (c.removePart T p L).available.slices := by
  rw [getSlice_removePart ha, available_removePart ha]
  split
  · exact mem_insertSlice_self _ _
  · exact (find_eq_some ha).1

/-- The removal swaps the slice of the type in every sum over the slices. -/
theorem sum_removePart (w : Slice → ℤ) (ha : c.available.find T = some a) :
    ((c.removePart T p L).available.slices.map w).sum + w a =
      (c.available.slices.map w).sum + w ((c.removePart T p L).available.getSlice T) := by
  rw [getSlice_removePart ha, available_removePart ha]
  split
  · exact sum_insertSlice w (Slice.type_modifyPart _ _ _) c.available.sorted (find_eq_some ha).1
  · rfl

/-- One removal costs its slice at most one unit of redundancy. -/
theorem evalSliceRedundancyLevel_removePart_ge (hb : c.available.Bounded)
    (ha : c.available.find T = some a) :
    evalSliceRedundancyLevel a - 1 ≤
      evalSliceRedundancyLevel ((c.removePart T p L).available.getSlice T) := by
  rw [getSlice_removePart ha]
  split
  · apply evalSliceRedundancyLevel_modifyPart_ge
    apply countLabels_le_removeCopy
    exact get_lt_of_bounded (part_entries (Q := (· < 65536)) (hb a (find_eq_some ha).1) p) L
  · omega

/-- The slice `canRemovePart` evaluates is as redundant, and has as many copies, as the
one `removePart` leaves. -/
theorem canRemovePart_copy_eq (ha : c.available.find T = some a) :
    let copy : Slice := if ((c.available.getSlice T).part p).contains L then
        (c.available.getSlice T).modifyPart p fun labels =>
          labels.set L ((labels.get L + 65535) % 65536)
      else c.available.getSlice T
    evalSliceRedundancyLevel copy =
        evalSliceRedundancyLevel ((c.removePart T p L).available.getSlice T) ∧
      copy.getExpectedCopies = ((c.removePart T p L).available.getSlice T).getExpectedCopies := by
  intro copy
  have hcopies : partCopies copy = partCopies ((c.removePart T p L).available.getSlice T) := by
    simp only [copy]
    rw [getSlice_removePart ha, getSlice_of_find ha]
    split
    · rw [partCopies_modifyPart, partCopies_modifyPart, countLabels_removeCopy]
    · rfl
  have htype : copy.type = ((c.removePart T p L).available.getSlice T).type := by
    simp only [copy, type_getSlice]
    split <;> simp [type_getSlice]
  refine ⟨evalSliceRedundancyLevel_congr htype hcopies, ?_⟩
  rw [getExpectedCopies_eq_sum, getExpectedCopies_eq_sum, hcopies]

end Removal

/-! ## The chunk's redundancy -/

/-- What a slice adds to the chunk's redundancy: its level plus one, at least 0. -/
def sliceWeight (s : Slice) : ℤ := max (evalSliceRedundancyLevel s + 1) 0

theorem evalRedundancyLevelOf_eq (g : Goal) :
    evalRedundancyLevelOf g = (g.slices.map sliceWeight).sum - 1 := rfl

theorem sliceWeight_nonneg (s : Slice) : 0 ≤ sliceWeight s := le_max_right _ _

/-- A safe slice adds at least two, an endangered one at least one. -/
theorem stateCount_le_sum_sliceWeight : ∀ l : List Slice,
    2 * ((l.countP fun s => 0 < evalSliceRedundancyLevel s : ℕ) : ℤ) +
      (l.countP fun s => evalSliceRedundancyLevel s = 0 : ℕ) ≤ (l.map sliceWeight).sum
  | [] => by simp
  | s :: l => by
    have ih := stateCount_le_sum_sliceWeight l
    have hw : max (evalSliceRedundancyLevel s + 1) 0 ≥ evalSliceRedundancyLevel s + 1 :=
      le_max_left _ _
    have hw0 : max (evalSliceRedundancyLevel s + 1) 0 ≥ 0 := le_max_right _ _
    simp only [List.countP_cons, List.map_cons, List.sum_cons, sliceWeight]
    split <;> split <;> simp only [decide_eq_true_eq] at * <;> push_cast <;> omega

/-- A fresh key goes to the end. -/
theorem assign_of_not_mem {β : Type*} (m : List (ℕ × β)) (k : ℕ) (v : β)
    (h : k ∉ m.map Prod.fst) : assign m k v = m ++ [(k, v)] := by
  induction m with
  | nil => rfl
  | cons e m ih =>
    have hne : e.1 ≠ k := fun he => h (he ▸ List.mem_cons_self)
    simp only [List.map_cons, List.mem_cons, not_or] at h
    simp only [assign, hne, if_false, ih h.2, List.cons_append]

/-- The level `evalRedundancyLevel` adds up: each step adds the weight of its slice. -/
theorem foldl_redundancy_fst (F : ℤ × List (ℕ × ℤ) → Slice → ℤ × List (ℕ × ℤ))
    (hF : ∀ acc s, (F acc s).1 = acc.1 + sliceWeight s) :
    ∀ (l : List Slice) (acc : ℤ × List (ℕ × ℤ)),
      (l.foldl F acc).1 = acc.1 + (l.map sliceWeight).sum
  | [], acc => by simp
  | s :: l, acc => by
    rw [List.foldl_cons, foldl_redundancy_fst F hF l (F acc s), hF, List.map_cons,
      List.sum_cons, Int.add_assoc]

/-- The levels `evalRedundancyLevel` records: each step records its slice's level under
its type, which on distinct fresh types appends. -/
theorem foldl_redundancy_snd (F : ℤ × List (ℕ × ℤ) → Slice → ℤ × List (ℕ × ℤ))
    (hF : ∀ acc s, (F acc s).2 = assign acc.2 s.type (evalSliceRedundancyLevel s)) :
    ∀ (l : List Slice) (acc : ℤ × List (ℕ × ℤ)), (l.map Slice.type).Nodup →
      (∀ s ∈ l, s.type ∉ acc.2.map Prod.fst) →
      (l.foldl F acc).2 = acc.2 ++ l.map fun s => (s.type, evalSliceRedundancyLevel s)
  | [], acc, _, _ => by simp
  | s :: l, acc, hnd, hfresh => by
    obtain ⟨hs, hnd⟩ := List.nodup_cons.mp (List.map_cons ▸ hnd)
    have hstep := hF acc s
    rw [assign_of_not_mem _ _ _ (hfresh s List.mem_cons_self)] at hstep
    -- the later slices are fresh after this one too: their types differ from its
    have hfresh' : ∀ t ∈ l, t.type ∉ (F acc s).2.map Prod.fst := by
      intro t ht
      rw [hstep, List.map_append, List.mem_append, not_or]
      refine ⟨hfresh t (List.mem_cons_of_mem _ ht), ?_⟩
      simp only [List.map_cons, List.map_nil, List.mem_singleton]
      exact fun h => hs (h ▸ List.mem_map_of_mem ht)
    rw [List.foldl_cons, foldl_redundancy_snd F hF l (F acc s) hnd hfresh', hstep,
      List.map_cons, List.append_assoc, List.singleton_append]

theorem nodup_types (g : Goal) : (g.slices.map Slice.type).Nodup :=
  (List.pairwise_map.mpr g.sorted).imp ne_of_lt

/-- `evalRedundancyLevel` sets the chunk's level to the one of its available slices. -/
theorem redundancyLevel_evalRedundancyLevel (c : ChunkCopiesCalculator) :
    c.evalRedundancyLevel.redundancyLevel = evalRedundancyLevelOf c.available := by
  have hfold := foldl_redundancy_fst (fun (acc : ℤ × List (ℕ × ℤ)) slice =>
      (acc.1 + max (evalSliceRedundancyLevel slice + 1) 0,
        assign acc.2 slice.type (evalSliceRedundancyLevel slice)))
    (fun _ _ => rfl) c.available.slices (0, c.sliceRedundancyLevel)
  simp only [evalRedundancyLevel, hfold]
  rw [evalRedundancyLevelOf_eq, Int.zero_add]

/-- Run on a calculator without recorded levels, `evalRedundancyLevel` records the level
of each available slice. -/
theorem sliceRedundancyLevel_evalRedundancyLevel (c : ChunkCopiesCalculator)
    (h : c.sliceRedundancyLevel = []) :
    c.evalRedundancyLevel.sliceRedundancyLevel =
      c.available.slices.map fun s => (s.type, evalSliceRedundancyLevel s) := by
  have hfold := foldl_redundancy_snd (fun (acc : ℤ × List (ℕ × ℤ)) slice =>
      (acc.1 + max (evalSliceRedundancyLevel slice + 1) 0,
        assign acc.2 slice.type (evalSliceRedundancyLevel slice)))
    (fun _ _ => rfl) c.available.slices (0, []) (nodup_types c.available) (fun s _ => by simp)
  simp only [evalRedundancyLevel, h, hfold]
  exact List.nil_append _

theorem stateCount_map (l : List Slice) :
    stateCount (l.map fun s => (s.type, evalSliceRedundancyLevel s)) =
      (l.countP fun s => 0 < evalSliceRedundancyLevel s,
        l.countP fun s => evalSliceRedundancyLevel s = 0) := by
  simp only [stateCount, List.countP_map, Function.comp_def]

theorem lookup_map_level (g : Goal) (T : ℕ) :
    (g.slices.map fun s => (s.type, evalSliceRedundancyLevel s)).lookup T =
      (g.find T).map evalSliceRedundancyLevel := by
  unfold Goal.find
  induction g.slices with
  | nil => rfl
  | cons s l ih =>
    simp only [List.map_cons, List.lookup_cons, List.find?_cons]
    by_cases hT : s.type = T
    · simp [hT]
    · have hne : (T == s.type) = false := beq_eq_false_iff_ne.mpr (Ne.symm hT)
      simp [hT, hne, ih]

/-! ## The tests of `canRemovePart` -/

section Tests

variable {c : ChunkCopiesCalculator} {T p : ℕ} {L : MediaLabel} {a : Slice}

/-- Unless the basic test refuses, the chunk is safe and has a slice of the type. -/
theorem removePartBasicTest_pass (hsize : c.target.size ≠ 0)
    (h : c.removePartBasicTest T ≠ some false) :
    1 ≤ c.redundancyLevel ∧ c.available.find T ≠ none := by
  by_contra hfail
  apply h
  unfold removePartBasicTest
  rw [if_neg hsize, if_pos]
  by_cases hlev : 1 ≤ c.redundancyLevel
  · exact .inr (by_contra fun hfind => hfail ⟨hlev, hfind⟩)
  · exact .inl (by omega)

/-- The two ways the basic test lets a removal through on its own: more than one safe
slice or a safe and an endangered one, or a lost slice of the type. -/
theorem removePartBasicTest_true (hsize : c.target.size ≠ 0)
    (hpass : 1 ≤ c.redundancyLevel ∧ c.available.find T ≠ none)
    (h : c.removePartBasicTest T = some true) :
    2 < 2 * (stateCount c.sliceRedundancyLevel).1 + (stateCount c.sliceRedundancyLevel).2 ∨
      (c.sliceRedundancyLevel.lookup T).getD 0 < 0 := by
  unfold removePartBasicTest at h
  rw [if_neg hsize, if_neg (not_or.mpr ⟨by omega, hpass.2⟩)] at h
  dsimp only at h
  by_contra hnot
  rw [not_or] at hnot
  -- past both tests the answer is `some false` or `none`
  rw [if_neg hnot.1, if_neg hnot.2] at h
  split at h <;> simp at h

/-- When the basic test defers, `canRemovePart` passes the removal only when the target
asks for one copy and one is left, or the slice stays safe. -/
theorem canRemovePart_of_basicTest_none (h : c.removePartBasicTest T = none)
    (ha : c.available.find T = some a) (hcan : c.canRemovePart T p L = true) :
    (∃ t, c.target.find T = some t ∧ t.getExpectedCopies = 1 ∧
        1 ≤ ((c.removePart T p L).available.getSlice T).getExpectedCopies) ∨
      0 < evalSliceRedundancyLevel ((c.removePart T p L).available.getSlice T) := by
  obtain ⟨he, hexp⟩ := canRemovePart_copy_eq (p := p) (L := L) ha
  unfold canRemovePart at hcan
  rw [h] at hcan
  dsimp only at hcan
  rw [he, hexp] at hcan
  split at hcan
  · next t ht =>
    split at hcan
    · next hone => exact .inl ⟨t, ht, hone⟩
    · exact .inr (of_decide_eq_true hcan)
  · exact .inr (of_decide_eq_true hcan)

/-- A removal `canRemovePart` allows leaves the chunk safe, or the target asks for one
copy of the slice and one is left. The calculator's levels are those of its available
slices, as `evalRedundancyLevel` leaves them. -/
theorem safe_of_canRemovePart (hb : c.available.Bounded)
    (hlevel : c.redundancyLevel = evalRedundancyLevelOf c.available)
    (hlevels : c.sliceRedundancyLevel =
      c.available.slices.map fun s => (s.type, evalSliceRedundancyLevel s))
    (hsize : c.target.size ≠ 0) (hcan : c.canRemovePart T p L = true) :
    1 ≤ evalRedundancyLevelOf (c.removePart T p L).available ∨
      ∃ t, c.target.find T = some t ∧ t.getExpectedCopies = 1 ∧
        1 ≤ ((c.removePart T p L).available.getSlice T).getExpectedCopies := by
  have hpass := removePartBasicTest_pass (T := T) hsize fun hfalse => by
    unfold canRemovePart at hcan
    rw [hfalse] at hcan
    exact Bool.false_ne_true hcan
  obtain ⟨a, ha⟩ := Option.ne_none_iff_exists'.mp hpass.2
  -- the removal swaps `a` for the slice it leaves, at most one unit less redundant
  have hsum := sum_removePart (p := p) (L := L) sliceWeight ha
  have hge := evalSliceRedundancyLevel_removePart_ge (p := p) (L := L) hb ha
  have hleft : sliceWeight ((c.removePart T p L).available.getSlice T) ≤
      ((c.removePart T p L).available.slices.map sliceWeight).sum :=
    List.single_le_sum (by simpa using fun s _ => sliceWeight_nonneg s) _
      (List.mem_map_of_mem (getSlice_removePart_mem ha))
  have hold : 2 ≤ (c.available.slices.map sliceWeight).sum := by
    have := hpass.1
    rw [hlevel, evalRedundancyLevelOf_eq] at this
    omega
  have hwa := sliceWeight_nonneg a
  rw [evalRedundancyLevelOf_eq]
  cases hbt : c.removePartBasicTest T with
  | none =>
    -- the slice after the removal was evaluated itself
    rcases canRemovePart_of_basicTest_none hbt ha hcan with hone | hpos
    · exact .inr hone
    · left
      have : 2 ≤ sliceWeight ((c.removePart T p L).available.getSlice T) := by
        unfold sliceWeight
        omega
      omega
  | some b =>
    have htrue : b = true := by
      unfold canRemovePart at hcan
      rw [hbt] at hcan
      exact hcan
    subst htrue
    have hlookup : (c.sliceRedundancyLevel.lookup T).getD 0 = evalSliceRedundancyLevel a := by
      rw [hlevels, lookup_map_level, ha]
      rfl
    rcases removePartBasicTest_true hsize hpass hbt with hmany | hlost
    · -- enough safe and endangered slices to lose one unit
      rw [hlevels, stateCount_map] at hmany
      have hcount := stateCount_le_sum_sliceWeight c.available.slices
      have : sliceWeight a - 1 ≤ sliceWeight ((c.removePart T p L).available.getSlice T) := by
        unfold sliceWeight
        omega
      left
      omega
    · -- a lost slice adds nothing before the removal
      rw [hlookup] at hlost
      have : sliceWeight a = 0 := by
        unfold sliceWeight
        omega
      left
      have := sliceWeight_nonneg ((c.removePart T p L).available.getSlice T)
      omega

end Tests

/-! ## After `optimize` -/

theorem getExpectedCopies_optimizeSlice (auction : Auction) (available : Goal) (s : Slice) :
    (optimizeSlice auction available s).getExpectedCopies = s.getExpectedCopies := by
  unfold optimizeSlice
  split
  · rfl
  · split
    · rfl
    · exact Slice.getExpectedCopies_permute _ _

/-- `ChunkWorker::removeUnneededChunkPart`: on the calculator the master builds for a
chunk and optimizes, a part that `canRemovePart` lets go leaves the chunk safe once the
redundancy is evaluated again, unless the goal's slice of the type asks for one copy and
one copy of the slice is left. -/
theorem canRemovePart_keeps_safe (auction : Auction) (G : Goal) (hG : 0 < G.size)
    (parts : List (ℕ × ℕ × MediaLabel)) (T p : ℕ) (L : MediaLabel)
    (hcan : ((ofParts G parts).optimize auction).canRemovePart T p L = true) :
    let c : ChunkCopiesCalculator :=
      (((ofParts G parts).optimize auction).removePart T p L).evalRedundancyLevel
    c.getState = .safe ∨
      ((G.find T).map Slice.getExpectedCopies = some 1 ∧
        1 ≤ (c.available.getSlice T).getExpectedCopies) := by
  intro c
  have hsize : ((ofParts G parts).optimize auction).target.size ≠ 0 := by
    simp only [optimize, target_evalRedundancyLevel, target_evalOperationCount, size_mapSlices,
      target_ofParts]
    omega
  rcases safe_of_canRemovePart (c := (ofParts G parts).optimize auction) (ofParts_bounded G parts)
      (redundancyLevel_evalRedundancyLevel _)
      (sliceRedundancyLevel_evalRedundancyLevel _ (sliceRedundancyLevel_ofParts G parts))
      hsize hcan with hsafe | ⟨t, ht, hone, hleft⟩
  · left
    unfold getState
    rw [if_pos (.inr (by rw [redundancyLevel_evalRedundancyLevel]; omega))]
  · right
    -- the optimized target slice asks for the copies of the goal's
    simp only [optimize, target_evalRedundancyLevel, target_evalOperationCount,
      find_mapSlices, target_ofParts, Option.map_eq_some_iff] at ht
    obtain ⟨g, hg, rfl⟩ := ht
    rw [getExpectedCopies_optimizeSlice] at hone
    exact ⟨by rw [hg, Option.map_some, hone], hleft⟩

/-- The goal of one standard slice asking for `v` copies on label 0. -/
def stdGoal (v : ℕ) : Goal := ⟨[stdSlice v], List.pairwise_singleton _ _⟩

/-- Three copies against a goal of two: the basic test defers and the copy left with two
copies stays safe. -/
theorem canRemovePart_keeps_safe_three :
    0 < (stdGoal 2).size ∧
      ((ofParts (stdGoal 2) (List.replicate 3 (0, 0, 0))).optimize identityAuction).canRemovePart
        0 0 0 = true ∧
      let c : ChunkCopiesCalculator :=
        (((ofParts (stdGoal 2) (List.replicate 3 (0, 0, 0))).optimize identityAuction).removePart
          0 0 0).evalRedundancyLevel
      (c.getState = .safe ∨
        (((stdGoal 2).find 0).map Slice.getExpectedCopies = some 1 ∧
          1 ≤ (c.available.getSlice 0).getExpectedCopies)) := by
  have hcan : ((ofParts (stdGoal 2) (List.replicate 3 (0, 0, 0))).optimize
      identityAuction).canRemovePart 0 0 0 = true := by decide
  exact ⟨by decide, hcan,
    canRemovePart_keeps_safe identityAuction (stdGoal 2) (by decide) _ 0 0 0 hcan⟩

end ChunkCopiesCalculator

end LizardFs
