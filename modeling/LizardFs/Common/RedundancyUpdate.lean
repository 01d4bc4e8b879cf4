import Mathlib
import LizardFs.Common.RemoveSafety

/-!
# Incremental redundancy updates

`evalRedundancyLevel()` adds up `max(extra + 1, 0)` over the available slices, records each
slice's level `extra` in `slice_redundancy_level_`, and subtracts one.
`updateRedundancyLevel(type)`, after copies of one slice type came or went (`PartCall`),
corrects the level by `max(new, -1) - max(old, -1)`, where `old` is what
`slice_redundancy_level_` holds for the type.

The two agree when the type had a slice at the last full evaluation
(`updateRedundancyLevel_agrees`): `old` is then that slice's level, and
`max(e + 1, 0) = max(e, -1) + 1`. A type that had no slice then has no entry either, and
`operator[]` reads the missing entry as 0, not as the -1 of a slice without copies; the
incremental level is then one below the full one (`updateRedundancyLevel_of_new_type`,
`updateRedundancyLevel_misses_first_copy`).
-/

namespace LizardFs

open Goal

namespace ChunkCopiesCalculator

theorem sliceWeight_eq (s : Slice) :
    sliceWeight s = max (evalSliceRedundancyLevel s) (-1) + 1 := by
  unfold sliceWeight
  omega

/-! ## Sums over the slices of a goal -/

section Sums

variable (f : Slice → ℤ)

/-- Putting `s` into a sorted list of slices adds its term and drops the term of the slice it
replaces. -/
theorem sum_insertSlice_find (s : Slice) : ∀ {ts : List Slice}, ts.Pairwise (fun a b => a.type < b.type) →
    ((insertSlice s ts).map f).sum + (((ts.find? fun t => t.type = s.type).map f).getD 0) =
      f s + (ts.map f).sum
  | [], _ => by simp [insertSlice]
  | t :: ts, h => by
    obtain ⟨ht, hts⟩ := List.pairwise_cons.mp h
    unfold insertSlice
    split
    · next hlt =>
      -- every slice of the list has a type above that of `s`
      have hnone : ((t :: ts).find? fun u => u.type = s.type) = none :=
        List.find?_eq_none.mpr fun u hu => by
          rcases List.mem_cons.mp hu with rfl | hu
          · simpa using Nat.ne_of_gt hlt
          · simpa using Nat.ne_of_gt (lt_trans hlt (ht u hu))
      rw [hnone]
      simp only [List.map_cons, List.sum_cons, Option.map_none, Option.getD_none]
      omega
    · split
      · next heq =>
        simp only [List.map_cons, List.sum_cons, List.find?_cons, heq, decide_true,
          Option.map_some, Option.getD_some]
        omega
      · next hne =>
        have hts' := sum_insertSlice_find s hts
        simp only [List.map_cons, List.sum_cons, List.find?_cons, Ne.symm hne, decide_false]
        omega

theorem sum_setSlice (g : Goal) (s : Slice) :
    ((g.setSlice s).slices.map f).sum + ((g.find s.type).map f).getD 0 =
      f s + (g.slices.map f).sum :=
  sum_insertSlice_find f s g.sorted

/-- The sum over the slices of a goal without the term of type `T`. -/
theorem sum_setSlice_sub (g : Goal) (s : Slice) :
    ((g.setSlice s).slices.map f).sum - (((g.setSlice s).find s.type).map f).getD 0 =
      (g.slices.map f).sum - ((g.find s.type).map f).getD 0 := by
  have hsum := sum_setSlice f g s
  rw [find_setSlice, if_pos rfl]
  simp only [Option.map_some, Option.getD_some]
  omega

end Sums

/-! ## What `evalRedundancyLevel` computes -/

/-- Evaluating the slices of distinct types one by one: each type's entry is its slice's
level, the other entries are as they were. -/
theorem foldl_redundancy_lookup : ∀ (l : List Slice), l.Pairwise (fun a b => a.type < b.type) →
    ∀ (acc : ℤ × List (ℕ × ℤ)) (T : ℕ),
    (l.foldl (fun (acc : ℤ × List (ℕ × ℤ)) slice =>
        (acc.1 + max (evalSliceRedundancyLevel slice + 1) 0,
          assign acc.2 slice.type (evalSliceRedundancyLevel slice))) acc).2.lookup T =
      ((l.find? fun s => s.type = T).map evalSliceRedundancyLevel).or (acc.2.lookup T)
  | [], _, acc, T => by simp
  | s :: l, hl, acc, T => by
    obtain ⟨hs, hl⟩ := List.pairwise_cons.mp hl
    rw [List.foldl_cons, foldl_redundancy_lookup l hl, lookup_assign, List.find?_cons]
    by_cases hT : s.type = T
    · -- no later slice has the type of `s`
      have hnone : (l.find? fun s => s.type = T) = none :=
        List.find?_eq_none.mpr fun t ht => by simpa [← hT] using ne_of_gt (hs t ht)
      simp [hT, hnone]
    · simp [hT]

variable (c : ChunkCopiesCalculator)

/-- After `evalRedundancyLevel()`, an available type's entry is its slice's level; the other
entries are as they were. -/
theorem lookup_evalRedundancyLevel (T : ℕ) :
    c.evalRedundancyLevel.sliceRedundancyLevel.lookup T =
      ((c.available.find T).map evalSliceRedundancyLevel).or (c.sliceRedundancyLevel.lookup T) := by
  have h := foldl_redundancy_lookup c.available.slices c.available.sorted
    (0, c.sliceRedundancyLevel) T
  simp only [evalRedundancyLevel, h]
  rfl

/-! ## Calls between evaluations -/

/-- A call that changes the available parts of the chunk. -/
inductive PartCall where
  | addPart (type part : ℕ) (label : MediaLabel)
  | removePart (type part : ℕ) (label : MediaLabel)
  deriving DecidableEq, Repr

namespace PartCall

/-- The slice type the call touches. -/
def type : PartCall → ℕ
  | addPart type _ _ => type
  | removePart type _ _ => type

/-- Make the call on the calculator. -/
def run (c : ChunkCopiesCalculator) : PartCall → ChunkCopiesCalculator
  | addPart type part label => c.addPart type part label
  | removePart type part label => c.removePart type part label

/-- A call keeps the levels and either leaves the available goal as it is or puts a slice of
its type into it. -/
theorem run_cases (c : ChunkCopiesCalculator) (call : PartCall) :
    (call.run c).redundancyLevel = c.redundancyLevel ∧
      (call.run c).sliceRedundancyLevel = c.sliceRedundancyLevel ∧
      ((call.run c).available = c.available ∨
        ∃ s : Slice, s.type = call.type ∧ (call.run c).available = c.available.setSlice s) := by
  cases call with
  | addPart type part label =>
    refine ⟨rfl, rfl, .inr ⟨_, ?_, rfl⟩⟩
    simp only [Slice.type_modifyPart, type_getSlice, PartCall.type]
  | removePart type part label =>
    simp only [run, ChunkCopiesCalculator.removePart]
    split
    · exact ⟨rfl, rfl, .inl rfl⟩
    · next slice hfind =>
      split
      · refine ⟨rfl, rfl, .inr ⟨_, ?_, rfl⟩⟩
        simp only [Slice.type_modifyPart, PartCall.type, (find_eq_some hfind).2]
      · exact ⟨rfl, rfl, .inl rfl⟩

end PartCall

/-- The sum of the terms of all slices but the one of type `T`. -/
def restOf (g : Goal) (T : ℕ) : ℤ :=
  (g.slices.map sliceWeight).sum - ((g.find T).map sliceWeight).getD 0

/-- Calls on type `T` keep the levels and the terms of the other types, and a slice of type `T`
once there stays there. -/
theorem foldl_run (T : ℕ) : ∀ (calls : List PartCall), (∀ call ∈ calls, call.type = T) →
    ∀ c : ChunkCopiesCalculator,
    (calls.foldl PartCall.run c).redundancyLevel = c.redundancyLevel ∧
      (calls.foldl PartCall.run c).sliceRedundancyLevel = c.sliceRedundancyLevel ∧
      restOf (calls.foldl PartCall.run c).available T = restOf c.available T ∧
      ((c.available.find T).isSome → ((calls.foldl PartCall.run c).available.find T).isSome)
  | [], _, c => ⟨rfl, rfl, rfl, id⟩
  | call :: calls, hcalls, c => by
    obtain ⟨hlevel, hslice, hrest, hsome⟩ :=
      foldl_run T calls (fun call' h => hcalls call' (List.mem_cons_of_mem _ h)) (call.run c)
    have hT : call.type = T := hcalls call List.mem_cons_self
    obtain ⟨hlevel₁, hslice₁, havail⟩ := PartCall.run_cases c call
    rw [List.foldl_cons]
    refine ⟨hlevel.trans hlevel₁, hslice.trans hslice₁, hrest.trans ?_, fun h => hsome ?_⟩
    · rcases havail with havail | ⟨s, hs, havail⟩
      · rw [havail]
      · rw [havail, restOf, restOf, ← hT, ← hs]
        exact sum_setSlice_sub sliceWeight c.available s
    · rcases havail with havail | ⟨s, hs, havail⟩
      · rwa [havail]
      · rw [havail, ← hT, ← hs, find_setSlice, if_pos rfl]
        rfl

/-- `updateRedundancyLevel(type)` on a type with an available slice. -/
theorem updateRedundancyLevel_of_find {T : ℕ} {s : Slice} (h : c.available.find T = some s) :
    (c.updateRedundancyLevel T).available = c.available ∧
      (c.updateRedundancyLevel T).redundancyLevel = c.redundancyLevel +
        max (evalSliceRedundancyLevel s) (-1) -
          max ((c.sliceRedundancyLevel.lookup T).getD 0) (-1) := by
  simp [updateRedundancyLevel, h]

/-! ## Incremental against full evaluation -/

/-- After a full evaluation and calls on one slice type that had a slice at the evaluation,
`updateRedundancyLevel` leaves the level a new full evaluation computes. -/
theorem updateRedundancyLevel_agrees (T : ℕ) (calls : List PartCall)
    (hcalls : ∀ call ∈ calls, call.type = T) (hT : (c.available.find T).isSome) :
    ((calls.foldl PartCall.run c.evalRedundancyLevel).updateRedundancyLevel T).redundancyLevel =
      ((calls.foldl PartCall.run c.evalRedundancyLevel).updateRedundancyLevel
        T).evalRedundancyLevel.redundancyLevel := by
  obtain ⟨s₀, hs₀⟩ := Option.isSome_iff_exists.mp hT
  obtain ⟨hlevel, hslice, hrest, hsome⟩ := foldl_run T calls hcalls c.evalRedundancyLevel
  obtain ⟨s, hs⟩ := Option.isSome_iff_exists.mp (hsome hT)
  obtain ⟨havail, hupdate⟩ := updateRedundancyLevel_of_find _ hs
  -- the cached level of `T` is the level of its slice at the evaluation
  have hold : ((calls.foldl PartCall.run c.evalRedundancyLevel).sliceRedundancyLevel.lookup T).getD 0 =
      evalSliceRedundancyLevel s₀ := by
    rw [hslice, lookup_evalRedundancyLevel, hs₀]
    rfl
  rw [redundancyLevel_evalRedundancyLevel, havail, hupdate, hold, hlevel,
    redundancyLevel_evalRedundancyLevel, evalRedundancyLevelOf_eq, evalRedundancyLevelOf_eq]
  have hrest' := hrest
  simp only [restOf, hs, hs₀, available_evalRedundancyLevel, Option.map_some, Option.getD_some,
    sliceWeight_eq] at hrest'
  omega

/-- Two copies of a standard part against a goal of two, evaluated; then a copy arrives on
label 1 and one goes from label 0. -/
def moveCalls : List PartCall := [.addPart 0 0 1, .removePart 0 0 0]

theorem updateRedundancyLevel_agrees_after_move :
    (∀ call ∈ moveCalls, call.type = 0) ∧
      ((ofParts (stdGoal 2) [(0, 0, 0), (0, 0, 0)]).available.find 0).isSome ∧
      ((moveCalls.foldl PartCall.run (ofParts (stdGoal 2) [(0, 0, 0), (0, 0, 0)]).evalRedundancyLevel).updateRedundancyLevel
          0).redundancyLevel =
        ((moveCalls.foldl PartCall.run (ofParts (stdGoal 2) [(0, 0, 0), (0, 0, 0)]).evalRedundancyLevel).updateRedundancyLevel
          0).evalRedundancyLevel.redundancyLevel := by
  have hcalls : ∀ call ∈ moveCalls, call.type = 0 := by decide
  have hT : ((ofParts (stdGoal 2) [(0, 0, 0), (0, 0, 0)]).available.find 0).isSome := by decide
  exact ⟨hcalls, hT, updateRedundancyLevel_agrees _ 0 moveCalls hcalls hT⟩

/-- A type that had no slice and no entry at the evaluation: the incremental level comes out one
below the full evaluation once the type has a slice. -/
theorem updateRedundancyLevel_of_new_type (T : ℕ) (calls : List PartCall)
    (hcalls : ∀ call ∈ calls, call.type = T) (hT : c.available.find T = none)
    (hentry : c.sliceRedundancyLevel.lookup T = none)
    (hnow : ((calls.foldl PartCall.run c.evalRedundancyLevel).available.find T).isSome) :
    ((calls.foldl PartCall.run c.evalRedundancyLevel).updateRedundancyLevel T).redundancyLevel =
      ((calls.foldl PartCall.run c.evalRedundancyLevel).updateRedundancyLevel
        T).evalRedundancyLevel.redundancyLevel - 1 := by
  obtain ⟨hlevel, hslice, hrest, -⟩ := foldl_run T calls hcalls c.evalRedundancyLevel
  obtain ⟨s, hs⟩ := Option.isSome_iff_exists.mp hnow
  obtain ⟨havail, hupdate⟩ := updateRedundancyLevel_of_find _ hs
  -- `operator[]` reads the missing entry as 0
  have hold : ((calls.foldl PartCall.run c.evalRedundancyLevel).sliceRedundancyLevel.lookup T).getD 0 =
      0 := by
    rw [hslice, lookup_evalRedundancyLevel, hT, hentry]
    rfl
  rw [redundancyLevel_evalRedundancyLevel, havail, hupdate, hold, hlevel,
    redundancyLevel_evalRedundancyLevel, evalRedundancyLevelOf_eq, evalRedundancyLevelOf_eq]
  have hrest' := hrest
  simp only [restOf, hs, hT, available_evalRedundancyLevel, Option.map_some, Option.getD_some,
    Option.map_none, Option.getD_none, sliceWeight_eq] at hrest'
  omega

/-- Two first copies arrive on labels 0 and 1 after a goal of one copy was evaluated with none. -/
def firstCopies : List PartCall := [.addPart 0 0 0, .addPart 0 0 1]

theorem updateRedundancyLevel_of_first_copies :
    (∀ call ∈ firstCopies, call.type = 0) ∧ (ofTarget (stdGoal 1)).available.find 0 = none ∧
      (ofTarget (stdGoal 1)).sliceRedundancyLevel.lookup 0 = none ∧
      ((firstCopies.foldl PartCall.run (ofTarget (stdGoal 1)).evalRedundancyLevel).available.find 0).isSome ∧
      ((firstCopies.foldl PartCall.run (ofTarget (stdGoal 1)).evalRedundancyLevel).updateRedundancyLevel
          0).redundancyLevel =
        ((firstCopies.foldl PartCall.run (ofTarget (stdGoal 1)).evalRedundancyLevel).updateRedundancyLevel
          0).evalRedundancyLevel.redundancyLevel - 1 := by
  have hcalls : ∀ call ∈ firstCopies, call.type = 0 := by decide
  have hT : (ofTarget (stdGoal 1)).available.find 0 = none := by decide
  have hentry : (ofTarget (stdGoal 1)).sliceRedundancyLevel.lookup 0 = none := by decide
  have hnow : ((firstCopies.foldl PartCall.run (ofTarget (stdGoal 1)).evalRedundancyLevel).available.find
      0).isSome := by decide
  exact ⟨hcalls, hT, hentry, hnow, updateRedundancyLevel_of_new_type _ 0 firstCopies hcalls hT hentry hnow⟩

/-- The full evaluation of a chunk with a goal of one copy runs before any copy is known; the
first copy then arrives and `updateRedundancyLevel` leaves the level at -1 (data lost), where a
full evaluation gives 0 (endangered). -/
theorem updateRedundancyLevel_misses_first_copy :
    (((ofTarget (stdGoal 1)).evalRedundancyLevel.addPart 0 0 0).updateRedundancyLevel
      0).redundancyLevel = -1 ∧
    (((ofTarget (stdGoal 1)).evalRedundancyLevel.addPart 0 0 0).updateRedundancyLevel
      0).evalRedundancyLevel.redundancyLevel = 0 := by
  decide

end ChunkCopiesCalculator

end LizardFs
