import Mathlib.Algebra.BigOperators.Group.Finset.Basic
import LizardFs.Common.ChunkCopiesCalculator

/-!
# Runs of the chunk copies calculator

The states the calculator reaches in the master (`src/master/chunks.cc`): a calculator is
made for the chunk's goal, gets one `addPart` per valid copy of the chunk (`ofParts`), and
is optimized. This module says what those states hold.

* The counts `addPart` leaves are `uint16_t` values (`Goal.Bounded`), and all positive
  while no part is added 65536 times on one label (`ofParts_positive`).
* After `optimize`, the operation counts are those of the matched target
  (`lookup_evalOperationCount`), the totals add up the per-part counts
  (`countPartsToRecover_eq_sum`), and the redundancy level is that of the available
  goal, with one entry per available slice in `slice_redundancy_level_`.
-/

namespace LizardFs

open MediaLabel CountWalk SliceTraits Goal

namespace Goal

/-- Every count of every part of every slice satisfies `Q`. -/
def AllCounts (Q : ℕ → Prop) (g : Goal) : Prop :=
  ∀ s ∈ g.slices, ∀ part ∈ s.parts, ∀ e ∈ part.entries, Q e.2

/-- Every count is a `uint16_t` value. -/
def Bounded (g : Goal) : Prop := AllCounts (· < 65536) g

/-- Every label entry has a copy: no count is 0. -/
def Positive (g : Goal) : Prop := AllCounts (0 < ·) g

variable {Q : ℕ → Prop}

theorem allCounts_empty : AllCounts Q Goal.empty := by
  simp [AllCounts, Goal.empty]

/-- The parts of a slice after changing part `i`: the old ones, and `f` of part `i`. -/
theorem Slice.mem_parts_modifyPart {s : Slice} {i : ℕ} {f : Labels → Labels} {part : Labels}
    (h : part ∈ (s.modifyPart i f).parts) : part ∈ s.parts ∨ part = f (s.part i) := by
  simp only [Slice.modifyPart] at h
  obtain ⟨j, hj, rfl⟩ := List.getElem_of_mem h
  rw [List.getElem_modify]
  split
  · next hij =>
    subst hij
    refine .inr ?_
    simp only [Slice.part]
    rw [List.getD_eq_getElem?_getD, List.getElem?_eq_getElem (by simpa using hj),
      Option.getD_some]
  · exact .inl (List.getElem_mem _)

theorem AllCounts.getSlice {g : Goal} (hg : AllCounts Q g) (type : ℕ) :
    ∀ part ∈ (g.getSlice type).parts, ∀ e ∈ part.entries, Q e.2 := by
  unfold Goal.getSlice
  cases h : g.find type with
  | none =>
    intro part hpart e he
    simp only [Option.getD_none, Slice.ofType, List.mem_replicate] at hpart
    rw [hpart.2] at he
    simp [Labels.empty] at he
  | some s => exact hg s (find_eq_some h).1

theorem AllCounts.setSlice {g : Goal} {s : Slice} (hg : AllCounts Q g)
    (hs : ∀ part ∈ s.parts, ∀ e ∈ part.entries, Q e.2) : AllCounts Q (g.setSlice s) := by
  intro t ht
  rcases mem_insertSlice ht with rfl | ht
  · exact hs
  · exact hg t ht

/-- Changing one part of a slice keeps the counts good if the new part's are. -/
theorem AllCounts.modifyPart {s : Slice} {i : ℕ} {f : Labels → Labels}
    (hs : ∀ part ∈ s.parts, ∀ e ∈ part.entries, Q e.2)
    (hf : ∀ e ∈ (f (s.part i)).entries, Q e.2) :
    ∀ part ∈ (s.modifyPart i f).parts, ∀ e ∈ part.entries, Q e.2 := by
  intro part hpart
  rcases Slice.mem_parts_modifyPart hpart with h | rfl
  · exact hs part h
  · exact hf

theorem Slice.part_mem_or_empty (s : Slice) (i : ℕ) :
    s.part i ∈ s.parts ∨ s.part i = Labels.empty := by
  unfold Slice.part
  rw [List.getD_eq_getElem?_getD]
  cases h : s.parts[i]? with
  | none => exact .inr rfl
  | some l => exact .inl (List.mem_of_getElem? h)

/-- The counts of one part of a slice whose counts are all good. -/
theorem part_entries {s : Slice} (hs : ∀ part ∈ s.parts, ∀ e ∈ part.entries, Q e.2) (i : ℕ) :
    ∀ e ∈ (s.part i).entries, Q e.2 := by
  rcases Slice.part_mem_or_empty s i with h | h
  · exact hs _ h
  · rw [h]
    simp [Labels.empty]

theorem Labels.entries_set {l : Labels} {label : MediaLabel} {v : ℕ}
    (hl : ∀ e ∈ l.entries, Q e.2) (hv : Q v) : ∀ e ∈ (l.set label v).entries, Q e.2 := by
  intro e he
  rcases mem_setCount he with rfl | he
  · exact hv
  · exact hl e he

end Goal

namespace ChunkCopiesCalculator

/-- The calculator the master builds for a chunk: made for the goal `target`, then one
`addPart` per part, a slice type, a part index and a label. -/
def ofParts (target : Goal) (parts : List (ℕ × ℕ × MediaLabel)) : ChunkCopiesCalculator :=
  parts.foldl (fun c x => c.addPart x.1 x.2.1 x.2.2) (ofTarget target)

/-- How many copies the available parts of a calculator have of part `part` of the slice
of type `type` on `label`. -/
def partCount (c : ChunkCopiesCalculator) (type part : ℕ) (label : MediaLabel) : ℕ :=
  ((c.available.getSlice type).part part).get label

variable (c : ChunkCopiesCalculator)

@[simp] theorem target_addPart (type part : ℕ) (label : MediaLabel) :
    (c.addPart type part label).target = c.target := rfl

@[simp] theorem sliceRedundancyLevel_addPart (type part : ℕ) (label : MediaLabel) :
    (c.addPart type part label).sliceRedundancyLevel = c.sliceRedundancyLevel := rfl

theorem target_ofParts (target : Goal) (parts : List (ℕ × ℕ × MediaLabel)) :
    (ofParts target parts).target = target := by
  unfold ofParts
  induction parts using List.reverseRecOn with
  | nil => rfl
  | append_singleton parts x ih => rw [List.foldl_append, List.foldl_cons, List.foldl_nil, target_addPart, ih]

theorem sliceRedundancyLevel_ofParts (target : Goal) (parts : List (ℕ × ℕ × MediaLabel)) :
    (ofParts target parts).sliceRedundancyLevel = [] := by
  unfold ofParts
  induction parts using List.reverseRecOn with
  | nil => rfl
  | append_singleton parts x ih =>
    rw [List.foldl_append, List.foldl_cons, List.foldl_nil, sliceRedundancyLevel_addPart, ih]

/-- `addPart` keeps a property of all counts that the incremented count has. -/
theorem allCounts_addPart {Q : ℕ → Prop} (hc : AllCounts Q c.available) (type part : ℕ)
    (label : MediaLabel) (hQ : Q ((c.partCount type part label + 1) % 65536)) :
    AllCounts Q (c.addPart type part label).available :=
  hc.setSlice (AllCounts.modifyPart (hc.getSlice type)
    (Labels.entries_set (part_entries (hc.getSlice type) part) hQ))

/-- Counts stay `uint16_t` values under `addPart`. -/
theorem bounded_addPart (hc : c.available.Bounded) (type part : ℕ) (label : MediaLabel) :
    (c.addPart type part label).available.Bounded :=
  allCounts_addPart c hc type part label (Nat.mod_lt _ (by norm_num))

theorem ofParts_bounded (target : Goal) (parts : List (ℕ × ℕ × MediaLabel)) :
    (ofParts target parts).available.Bounded := by
  unfold ofParts
  induction parts using List.reverseRecOn with
  | nil => exact allCounts_empty
  | append_singleton parts x ih =>
    rw [List.foldl_append, List.foldl_cons, List.foldl_nil]
    exact bounded_addPart _ ih _ _ _

/-- `addPart` counts one more copy of its own part, modulo `2^16`, and no other. -/
theorem partCount_addPart (type part : ℕ) (label : MediaLabel) (type' part' : ℕ)
    (label' : MediaLabel) :
    (c.addPart type part label).partCount type' part' label' =
      if type = type' ∧ part = part' ∧ part < SliceType.expectedParts type ∧ label = label' then
        (c.partCount type part label + 1) % 65536
      else c.partCount type' part' label' := by
  have htype := type_getSlice c.available type
  simp only [partCount, addPart, getSlice_setSlice, Slice.type_modifyPart, htype]
  by_cases hT : type = type'
  · subst hT
    rw [if_pos rfl]
    by_cases hp : part < SliceType.expectedParts type
    · have hsize : part < (c.available.getSlice type).size := by
        rw [Slice.size, htype]; exact hp
      rw [Slice.part_modifyPart _ _ _ _ hsize]
      by_cases hpp : part = part'
      · subst hpp
        rw [if_pos rfl, Labels.get_set]
        by_cases hL : label = label' <;> simp [hL, hp]
      · simp [hpp]
    · have hsize : (c.available.getSlice type).size ≤ part := by
        rw [Slice.size, htype]; omega
      rw [Slice.modifyPart_of_le _ _ hsize]
      simp [hp]
  · simp [hT]

theorem partCount_ofTarget (target : Goal) (type part : ℕ) (label : MediaLabel) :
    (ofTarget target).partCount type part label = 0 := by
  simp only [partCount, ofTarget, getSlice, find, Goal.empty, List.find?_nil,
    Option.getD_none, Slice.part, Slice.ofType, List.getD_eq_getElem?_getD,
    List.getElem?_replicate]
  split <;> rfl

/-- `addPart` keeps every count positive while the incremented one stays below `2^16`,
and counts at most one copy more. -/
theorem positive_foldl_addPart : ∀ (rest : List (ℕ × ℕ × MediaLabel)) (c : ChunkCopiesCalculator),
    c.available.Positive →
    (∀ x, c.partCount x.1 x.2.1 x.2.2 + rest.count x < 65536) →
    (rest.foldl (fun c x => c.addPart x.1 x.2.1 x.2.2) c).available.Positive
  | [], _, hc, _ => hc
  | x :: rest, c, hc, hroom => by
    have hx := hroom x
    rw [List.count_cons_self] at hx
    rw [List.foldl_cons]
    refine positive_foldl_addPart rest _ ?_ fun y => ?_
    · -- the new count is one more, still below `2^16`
      refine allCounts_addPart c hc _ _ _ ?_
      show 0 < (c.partCount x.1 x.2.1 x.2.2 + 1) % 65536
      rw [Nat.mod_eq_of_lt (by omega)]
      omega
    · have hy := hroom y
      rw [List.count_cons] at hy
      rw [partCount_addPart]
      split
      · next h =>
        obtain ⟨h1, h2, -, h3⟩ := h
        have hxy : x = y := Prod.ext h1 (Prod.ext h2 h3)
        subst hxy
        have := Nat.mod_le (c.partCount x.1 x.2.1 x.2.2 + 1) 65536
        simp only [beq_self_eq_true, if_true] at hy
        omega
      · omega

/-- While no part is added `2^16` times on one label, every count `addPart` leaves is
positive. -/
theorem ofParts_positive (target : Goal) (parts : List (ℕ × ℕ × MediaLabel))
    (hroom : ∀ x, parts.count x < 65536) : (ofParts target parts).available.Positive :=
  positive_foldl_addPart parts (ofTarget target) allCounts_empty fun x => by
    rw [partCount_ofTarget, Nat.zero_add]
    exact hroom x

/-! ## What `evalOperationCount` records -/

section Assign

variable {β : Type*}

theorem lookup_assign (m : List (ℕ × β)) (k : ℕ) (v : β) (T : ℕ) :
    (assign m k v).lookup T = if k = T then some v else m.lookup T := by
  induction m with
  | nil =>
    simp only [assign, List.lookup_cons, List.lookup_nil]
    by_cases h : k = T
    · subst h
      simp
    · rw [if_neg h, beq_eq_false_iff_ne.mpr (Ne.symm h)]
  | cons e m ih =>
    obtain ⟨k', v'⟩ := e
    simp only [assign]
    by_cases hk : k' = k
    · subst hk
      rw [if_pos rfl, List.lookup_cons, List.lookup_cons]
      by_cases hT : k' = T
      · subst hT
        simp
      · rw [beq_eq_false_iff_ne.mpr (Ne.symm hT), if_neg hT]
    · rw [if_neg hk, List.lookup_cons, List.lookup_cons, ih]
      by_cases hT : k' = T
      · subst hT
        simp [Ne.symm hk]
      · rw [beq_eq_false_iff_ne.mpr (Ne.symm hT)]

end Assign

/-- Adding up the pairs of one slice. -/
theorem foldl_addPairs : ∀ (counts : List (ℕ × ℕ)) (tot : ℕ × ℕ),
    counts.foldl (fun t op => (t.1 + op.1, t.2 + op.2)) tot =
      (tot.1 + (counts.map Prod.fst).sum, tot.2 + (counts.map Prod.snd).sum)
  | [], _ => by simp
  | op :: counts, tot => by
    rw [List.foldl_cons, foldl_addPairs counts]
    simp only [List.map_cons, List.sum_cons, Prod.mk.injEq]
    omega

/-- Recording the slices of distinct types one by one: each type's entry is its slice's
counts, and the totals add them all up. -/
theorem foldl_recordSlice (f : Slice → List (ℕ × ℕ)) : ∀ (l : List Slice),
    l.Pairwise (fun a b => a.type < b.type) →
    ∀ (acc : List (ℕ × List (ℕ × ℕ)) × (ℕ × ℕ)),
    (∀ T, (l.foldl (fun acc s => recordSlice acc s.type (f s)) acc).1.lookup T =
        ((l.find? fun s => s.type = T).map f).or (acc.1.lookup T)) ∧
      (l.foldl (fun acc s => recordSlice acc s.type (f s)) acc).2 =
        (acc.2.1 + (l.map fun s => ((f s).map Prod.fst).sum).sum,
          acc.2.2 + (l.map fun s => ((f s).map Prod.snd).sum).sum)
  | [], _, acc => ⟨fun T => by simp, by simp⟩
  | s :: l, hl, acc => by
    obtain ⟨hs, hl⟩ := List.pairwise_cons.mp hl
    obtain ⟨hlookup, htotal⟩ := foldl_recordSlice f l hl (recordSlice acc s.type (f s))
    refine ⟨fun T => ?_, ?_⟩
    · rw [List.foldl_cons, hlookup, recordSlice, lookup_assign, List.find?_cons]
      by_cases hT : s.type = T
      · -- no later slice has the type of `s`
        have hnone : (l.find? fun s => s.type = T) = none :=
          List.find?_eq_none.mpr fun t ht => by simpa [← hT] using ne_of_gt (hs t ht)
        simp [hT, hnone]
      · simp [hT]
    · rw [List.foldl_cons, htotal, recordSlice, foldl_addPairs]
      simp only [List.map_cons, List.sum_cons, Prod.mk.injEq]
      omega

@[simp] theorem target_evalOperationCount : c.evalOperationCount.target = c.target := rfl

@[simp] theorem available_evalOperationCount :
    c.evalOperationCount.available = c.available := rfl

/-- The counts of the available slices the target lacks. -/
def removeCounts (slice : Slice) : List (ℕ × ℕ) := slice.parts.map fun part => (0, part.countLabels)

/-- The slices that `evalOperationCount` records with all their copies to remove. -/
def availableOnly (c : ChunkCopiesCalculator) : List Slice :=
  c.available.slices.filter fun s => c.target.find s.type = none

theorem evalOperationCount_eq :
    c.evalOperationCount =
      let acc := c.target.slices.foldl
        (fun acc slice => recordSlice acc slice.type (targetSliceCounts c.available slice))
        ([], (0, 0))
      let acc := c.availableOnly.foldl (fun acc slice => recordSlice acc slice.type
        (removeCounts slice)) acc
      { c with sliceOperationCount := acc.1, chunkOperationCount := acc.2 } := by
  simp only [evalOperationCount, availableOnly, removeCounts, List.foldl_filter,
    decide_eq_true_eq]

/-- An available slice is recorded with all its copies to remove only where the target
has no slice of its type. -/
theorem find_availableOnly (T : ℕ) :
    (c.availableOnly.find? fun s => s.type = T) =
      if c.target.find T = none then c.available.find T else none := by
  unfold availableOnly
  rw [List.find?_filter]
  split
  · next h =>
    show _ = List.find? (fun s => decide (s.type = T)) c.available.slices
    congr 1
    funext s
    by_cases hs : s.type = T
    · subst hs
      simp [h]
    · simp [hs]
  · next h =>
    refine List.find?_eq_none.mpr fun s _ => ?_
    by_cases hs : s.type = T
    · simp [hs, h]
    · simp [hs]

/-- `slice_operation_count_` after `evalOperationCount`: the counts against the matched
target for the target's types, all copies to remove for the other available types. -/
theorem lookup_evalOperationCount (T : ℕ) :
    c.evalOperationCount.sliceOperationCount.lookup T =
      ((c.target.find T).map (targetSliceCounts c.available)).or
        ((c.available.find T).map removeCounts) := by
  rw [evalOperationCount_eq]
  dsimp only
  rw [(foldl_recordSlice removeCounts c.availableOnly (c.available.sorted.filter _) _).1 T,
    (foldl_recordSlice (targetSliceCounts c.available) c.target.slices c.target.sorted _).1 T,
    find_availableOnly]
  simp only [List.lookup_nil, Option.or_none]
  change ((if c.target.find T = none then c.available.find T else none).map removeCounts).or
      ((c.target.find T).map (targetSliceCounts c.available)) = _
  cases c.target.find T <;> simp

theorem getD_map_of_eq {β γ : Type*} (l : List β) (g : β → γ) (i : ℕ) (d : β) :
    (l.map g).getD i (g d) = g (l.getD i d) := by
  simp only [List.getD_eq_getElem?_getD, List.getElem?_map]
  cases l[i]? <;> rfl

theorem getD_zipWith_of_length_eq {β γ δ : Type*} (f : β → γ → δ) {l₁ : List β} {l₂ : List γ}
    (h : l₁.length = l₂.length) (i : ℕ) (d₁ : β) (d₂ : γ) :
    (List.zipWith f l₁ l₂).getD i (f d₁ d₂) = f (l₁.getD i d₁) (l₂.getD i d₂) := by
  simp only [List.getD_eq_getElem?_getD, List.getElem?_zipWith]
  by_cases hi : i < l₁.length
  · rw [List.getElem?_eq_getElem hi, List.getElem?_eq_getElem (h ▸ hi)]
    rfl
  · rw [List.getElem?_eq_none (by omega), List.getElem?_eq_none (by omega)]
    rfl

theorem operationCount_empty : operationCount Labels.empty Labels.empty = (0, 0) := rfl

/-- `countPartsToMove` after `evalOperationCount`, by the slices of the part's type. -/
theorem countPartsToMove_evalOperationCount (T p : ℕ) :
    c.evalOperationCount.countPartsToMove T p =
      match c.target.find T, c.available.find T with
      | some t, some a => operationCount (a.part p) (t.part p)
      | some t, none => ((t.part p).countLabels, 0)
      | none, some a => (0, (a.part p).countLabels)
      | none, none => (0, 0) := by
  unfold countPartsToMove
  rw [lookup_evalOperationCount]
  cases ht : c.target.find T with
  | some t =>
    have htype := (find_eq_some ht).2
    cases ha : c.available.find T with
    | some a =>
      have hlen : a.parts.length = t.parts.length := by
        rw [a.length_parts, t.length_parts, (find_eq_some ha).2, htype]
      simp only [Option.map_some, Option.some_or, targetSliceCounts, htype, ha]
      rw [← operationCount_empty, getD_zipWith_of_length_eq _ hlen]
      rfl
    | none =>
      simp only [Option.map_some, Option.some_or, targetSliceCounts, htype, ha]
      exact getD_map_of_eq t.parts (fun part => (part.countLabels, 0)) p Labels.empty
  | none =>
    cases ha : c.available.find T with
    | some a =>
      simp only [Option.map_none, Option.none_or, Option.map_some, removeCounts]
      exact getD_map_of_eq a.parts (fun part => (0, part.countLabels)) p Labels.empty
    | none => rfl

/-- `getLabelsToRecover` asks for as many copies as `countPartsToMove` counts to add. -/
theorem countLabels_getLabelsToRecover (T p : ℕ) :
    (c.evalOperationCount.getLabelsToRecover T p).countLabels =
      (c.evalOperationCount.countPartsToMove T p).1 := by
  rw [countPartsToMove_evalOperationCount]
  unfold getLabelsToRecover
  simp only [target_evalOperationCount, available_evalOperationCount]
  cases c.target.find T with
  | some t =>
    cases c.available.find T with
    | some a => exact countLabels_recoverLabels _ _
    | none => rfl
  | none => cases c.available.find T <;> rfl

/-- In a part whose counts are all positive, a label has an entry exactly when it has a
copy. -/
theorem mem_keys_iff_pos {l : Labels} (hl : ∀ e ∈ l.entries, 0 < e.2) (L : MediaLabel) :
    L ∈ l.entries.map Prod.fst ↔ 0 < l.get L := by
  constructor
  · intro hL
    obtain ⟨e, he, rfl⟩ := List.mem_map.mp hL
    rw [Labels.get, get_of_mem l.sorted he]
    exact hl e he
  · intro hpos
    by_contra hL
    rw [Labels.get, get_eq_zero_of_not_mem hL] at hpos
    exact Nat.lt_irrefl 0 hpos

/-- A part's entries are there exactly when it has copies. -/
theorem entries_ne_nil_iff {l : Labels} (hl : ∀ e ∈ l.entries, 0 < e.2) :
    l.entries ≠ [] ↔ 0 < l.countLabels := by
  constructor
  · intro h
    unfold Labels.countLabels
    cases hentries : l.entries with
    | nil => exact absurd hentries h
    | cons e rest =>
      have := hl e (hentries ▸ List.mem_cons_self)
      rw [total_cons]
      omega
  · intro h hnil
    simp [Labels.countLabels, hnil] at h

/-- The labels of `getRemovePool` after `evalOperationCount`, when every available count is
positive: the labels with more copies than the target asks for on them, present exactly
when `countPartsToMove` removes some. -/
theorem getRemovePool_spec (hpos : c.available.Positive) (T p : ℕ) :
    ((c.evalOperationCount.getRemovePool T p).entries ≠ [] ↔
        0 < (c.evalOperationCount.countPartsToMove T p).2) ∧
      (0 < (c.evalOperationCount.countPartsToMove T p).2 → ∀ L,
        (c.evalOperationCount.getRemovePool T p).contains L = true ↔
          (if L = kWildcard then 0 else ((c.target.getSlice T).part p).get L) <
            ((c.available.getSlice T).part p).get L) := by
  rw [countPartsToMove_evalOperationCount]
  unfold getRemovePool
  simp only [target_evalOperationCount, available_evalOperationCount]
  cases ha : c.available.find T with
  | none => cases c.target.find T <;> simp [Labels.empty]
  | some a =>
    have hpart : ∀ e ∈ (a.part p).entries, 0 < e.2 :=
      part_entries (Q := (0 < ·)) (hpos a (find_eq_some ha).1) p
    have hget : c.available.getSlice T = a := by simp [getSlice, ha]
    cases ht : c.target.find T with
    | none =>
      have hempty : (c.target.getSlice T).part p = Labels.empty := by
        simp only [getSlice, ht, Option.getD_none, Slice.part, Slice.ofType,
          List.getD_eq_getElem?_getD, List.getElem?_replicate]
        split <;> rfl
      refine ⟨entries_ne_nil_iff hpart, fun _ L => ?_⟩
      rw [hempty, hget, Labels.contains, decide_eq_true_iff, mem_keys_iff_pos hpart]
      simp
    | some t =>
      have hgett : c.target.getSlice T = t := by simp [getSlice, ht]
      refine ⟨removePool_ne_nil_iff _ _, fun hsecond L => ?_⟩
      have hnamed : (if L = kWildcard then 0 else (t.part p).get L) =
          CountWalk.get (named kWildcard (t.part p).entries) L :=
        (get_named kWildcard (t.part p).entries L).symm
      rw [hget, hgett, Labels.contains, decide_eq_true_iff, mem_keys_removePool, hnamed]
      -- a label of the part is one with copies, so only the count comparison is left
      have hkeys := mem_keys_iff_pos hpart L
      constructor
      · rintro ⟨-, hL, hlt | hlt⟩
        · rw [get_eq_zero_of_not_mem hlt]
          exact hkeys.mp hL
        · exact hlt
      · intro hlt
        exact ⟨hsecond, hkeys.mpr (lt_of_le_of_lt (Nat.zero_le _) hlt), .inr hlt⟩

/-! ## The chunk's totals -/

theorem length_targetSliceCounts (available : Goal) (s : Slice) :
    (targetSliceCounts available s).length = SliceType.expectedParts s.type := by
  unfold targetSliceCounts
  split
  · simp [s.length_parts]
  · next a ha =>
    rw [List.length_zipWith, a.length_parts, s.length_parts, (find_eq_some ha).2, Nat.min_self]

theorem length_removeCounts (s : Slice) :
    (removeCounts s).length = SliceType.expectedParts s.type := by
  simp [removeCounts, s.length_parts]

/-- `operation_count_` after `evalOperationCount`: the sums of what it records. -/
theorem chunkOperationCount_evalOperationCount :
    c.evalOperationCount.chunkOperationCount =
      ((c.target.slices.map fun s => ((targetSliceCounts c.available s).map Prod.fst).sum).sum +
          (c.availableOnly.map fun s => ((removeCounts s).map Prod.fst).sum).sum,
        (c.target.slices.map fun s => ((targetSliceCounts c.available s).map Prod.snd).sum).sum +
          (c.availableOnly.map fun s => ((removeCounts s).map Prod.snd).sum).sum) := by
  rw [evalOperationCount_eq]
  dsimp only
  rw [(foldl_recordSlice removeCounts c.availableOnly (c.available.sorted.filter _) _).2,
    (foldl_recordSlice (targetSliceCounts c.available) c.target.slices c.target.sorted _).2]
  simp

theorem sum_range_getD {β : Type*} (g : β → ℕ) (d : β) : ∀ l : List β,
    ∑ i ∈ Finset.range l.length, g (l.getD i d) = (l.map g).sum
  | [] => rfl
  | b :: l => by
    rw [List.length_cons, Finset.sum_range_succ', List.map_cons, List.sum_cons,
      List.getD_cons_zero, Nat.add_comm]
    simp only [List.getD_cons_succ]
    rw [sum_range_getD g d l]

/-- The per-part counts of a recorded type add up to what its slice added to the totals. -/
theorem sum_countPartsToMove (g : ℕ × ℕ → ℕ) {T : ℕ} {counts : List (ℕ × ℕ)}
    (hlookup : c.evalOperationCount.sliceOperationCount.lookup T = some counts)
    (hlen : counts.length = SliceType.expectedParts T) :
    ∑ p ∈ Finset.range (SliceType.expectedParts T), g (c.evalOperationCount.countPartsToMove T p) =
      (counts.map g).sum := by
  unfold countPartsToMove
  rw [hlookup, ← hlen]
  exact sum_range_getD g (0, 0) counts

/-- The types `evalOperationCount` records, each once: the target's, then those of the
available slices the target lacks. -/
theorem recordedTypes_nodup :
    (c.target.slices.map Slice.type ++ c.availableOnly.map Slice.type).Nodup := by
  have htypes : (c.target.slices.map Slice.type).Pairwise (· < ·) :=
    List.pairwise_map.mpr c.target.sorted
  have havailTypes : (c.availableOnly.map Slice.type).Pairwise (· < ·) :=
    List.pairwise_map.mpr (c.available.sorted.filter _)
  have htarget := htypes.imp ne_of_lt
  have havail := havailTypes.imp ne_of_lt
  refine List.nodup_append.mpr ⟨htarget, havail, fun T hT T' hT' hTT' => ?_⟩
  subst hTT'
  obtain ⟨s, hs, rfl⟩ := List.mem_map.mp hT
  obtain ⟨s', hs', hss'⟩ := List.mem_map.mp hT'
  have hnone := (List.mem_filter.mp hs').2
  rw [decide_eq_true_iff, hss', find_of_mem hs] at hnone
  cases hnone

theorem recordedTypes_toFinset :
    (c.target.slices.map Slice.type ++ c.available.slices.map Slice.type).toFinset =
      (c.target.slices.map Slice.type ++ c.availableOnly.map Slice.type).toFinset := by
  ext T
  simp only [List.mem_toFinset, List.mem_append]
  constructor
  · rintro (h | h)
    · exact .inl h
    · by_cases ht : T ∈ c.target.slices.map Slice.type
      · exact .inl ht
      · -- an available type the target lacks is recorded as an available slice
        obtain ⟨s, hs, rfl⟩ := List.mem_map.mp h
        refine .inr (List.mem_map.mpr ⟨s, List.mem_filter.mpr ⟨hs, ?_⟩, rfl⟩)
        rw [decide_eq_true_iff]
        cases hfind : c.target.find s.type with
        | none => rfl
        | some t =>
          obtain ⟨ht', htype⟩ := find_eq_some hfind
          exact absurd (List.mem_map.mpr ⟨t, ht', htype⟩) ht
  · rintro (h | h)
    · exact .inl h
    · obtain ⟨s, hs, rfl⟩ := List.mem_map.mp h
      exact .inr (List.mem_map_of_mem (List.mem_filter.mp hs).1)

/-- A chunk total after `evalOperationCount` is the sum, over every slice type of the
target and of the available parts, of the counts of its parts. -/
theorem chunkTotal_eq_sum (g : ℕ × ℕ → ℕ)
    (htotal : g c.evalOperationCount.chunkOperationCount =
      (c.target.slices.map fun s => ((targetSliceCounts c.available s).map g).sum).sum +
        (c.availableOnly.map fun s => ((removeCounts s).map g).sum).sum) :
    g c.evalOperationCount.chunkOperationCount =
      ∑ T ∈ (c.target.slices.map Slice.type ++ c.available.slices.map Slice.type).toFinset,
        ∑ p ∈ Finset.range (SliceType.expectedParts T),
          g (c.evalOperationCount.countPartsToMove T p) := by
  rw [recordedTypes_toFinset, List.sum_toFinset _ (recordedTypes_nodup c), List.map_append,
    List.sum_append, List.map_map, List.map_map, htotal]
  congr 1
  · congr 1
    refine List.map_congr_left fun s hs => ?_
    have hlookup : c.evalOperationCount.sliceOperationCount.lookup s.type =
        some (targetSliceCounts c.available s) := by
      rw [lookup_evalOperationCount, find_of_mem hs]
      rfl
    exact (sum_countPartsToMove c g hlookup (length_targetSliceCounts _ _)).symm
  · congr 1
    refine List.map_congr_left fun s hs => ?_
    obtain ⟨hmem, hnone⟩ := List.mem_filter.mp hs
    rw [decide_eq_true_iff] at hnone
    have hlookup : c.evalOperationCount.sliceOperationCount.lookup s.type =
        some (removeCounts s) := by
      rw [lookup_evalOperationCount, hnone, find_of_mem hmem]
      rfl
    exact (sum_countPartsToMove c g hlookup (length_removeCounts _)).symm

/-! ## The replication queries after `optimize`

`ChunkWorker::replicateChunkPart` and `removeUnneededChunkPart` take the labels to
recover and the pool to remove from per part, and trust them to agree with the counts
`countPartsToMove` gives and with the chunk's totals. They do, whatever the auction
picks, as long as every available count is positive. A count can only be 0 when
`addPart` wrapped it: after `2^16` copies of one part on one label. -/

@[simp] theorem target_evalRedundancyLevel : c.evalRedundancyLevel.target = c.target := rfl

@[simp] theorem available_evalRedundancyLevel :
    c.evalRedundancyLevel.available = c.available := rfl

theorem countPartsToMove_evalRedundancyLevel :
    c.evalRedundancyLevel.countPartsToMove = c.countPartsToMove := rfl

theorem getRemovePool_evalRedundancyLevel :
    c.evalRedundancyLevel.getRemovePool = c.getRemovePool := rfl

/-- The replication queries of a calculator agree with its operation counts: for every
part, the labels to recover ask for the copies to add, the remove pool is non-empty
exactly when copies are to be removed and then holds the labels with more copies than
the target asks for on them (the wildcard asks for none on its own label), and the
chunk's totals add up the per-part counts over every slice type of target and
available. -/
def QueriesAgree (c : ChunkCopiesCalculator) : Prop :=
  (∀ T p, (c.getLabelsToRecover T p).countLabels = (c.countPartsToMove T p).1 ∧
    ((c.getRemovePool T p).entries ≠ [] ↔ 0 < (c.countPartsToMove T p).2) ∧
    (0 < (c.countPartsToMove T p).2 → ∀ L, (c.getRemovePool T p).contains L = true ↔
      (if L = kWildcard then 0 else ((c.target.getSlice T).part p).get L) <
        ((c.available.getSlice T).part p).get L)) ∧
  c.countPartsToRecover =
    ∑ T ∈ (c.target.slices.map Slice.type ++ c.available.slices.map Slice.type).toFinset,
      ∑ p ∈ Finset.range (SliceType.expectedParts T), (c.countPartsToMove T p).1 ∧
  c.countPartsToRemove =
    ∑ T ∈ (c.target.slices.map Slice.type ++ c.available.slices.map Slice.type).toFinset,
      ∑ p ∈ Finset.range (SliceType.expectedParts T), (c.countPartsToMove T p).2

/-- `evalOperationCount` makes the queries agree when every available count is positive. -/
theorem queriesAgree_evalOperationCount (hpos : c.available.Positive) :
    QueriesAgree c.evalOperationCount.evalRedundancyLevel := by
  have htotal := chunkOperationCount_evalOperationCount c
  refine ⟨fun T p => ⟨?_, getRemovePool_spec c hpos T p⟩, ?_, ?_⟩
  · exact countLabels_getLabelsToRecover c T p
  · exact chunkTotal_eq_sum c Prod.fst (by rw [htotal])
  · exact chunkTotal_eq_sum c Prod.snd (by rw [htotal])

/-- After `optimize`, on the calculator the master builds for a chunk, the replication
queries agree with the operation counts, for every auction result, as long as no part
is added `2^16` times on one label. -/
theorem replicationQueries_agree (auction : Auction) (target : Goal)
    (parts : List (ℕ × ℕ × MediaLabel)) (hroom : ∀ x, parts.count x < 65536) :
    QueriesAgree ((ofParts target parts).optimize auction) :=
  queriesAgree_evalOperationCount _ (ofParts_positive target parts hroom)

/-- The identity assignment, one auction result among others. -/
def identityAuction : Auction := fun _ _ => Equiv.refl _

/-- A standard goal of two copies on label 1 and one on any label. -/
def labelOneGoal : Goal :=
  ⟨[⟨0, [⟨[(1, 2), (kWildcard, 1)], by unfold CountWalk.Sorted; decide⟩], rfl⟩], List.pairwise_singleton _ _⟩

/-- Three copies of the standard part on label 0 and one on label 1. -/
def skewedParts : List (ℕ × ℕ × MediaLabel) := [(0, 0, 0), (0, 0, 0), (0, 0, 0), (0, 0, 1)]

/-- Against that goal one copy is to be made on label 1 and two are to be removed from
label 0, and the queries agree on both sides. -/
theorem replicationQueries_agree_skewed :
    (∀ x, skewedParts.count x < 65536) ∧
      QueriesAgree ((ofParts labelOneGoal skewedParts).optimize identityAuction) ∧
      ((ofParts labelOneGoal skewedParts).optimize identityAuction).countPartsToMove 0 0 = (1, 2) ∧
      (((ofParts labelOneGoal skewedParts).optimize identityAuction).getLabelsToRecover 0 0).entries = [(1, 1)] ∧
      (((ofParts labelOneGoal skewedParts).optimize identityAuction).getRemovePool 0 0).entries = [(0, 1)] := by
  have hroom : ∀ x, skewedParts.count x < 65536 := fun x => lt_of_le_of_lt List.count_le_length (by decide)
  exact ⟨hroom, replicationQueries_agree identityAuction labelOneGoal skewedParts hroom, by decide, by decide,
    by decide⟩

/-- A standard slice with `v` copies of its part on label 0. -/
def stdSlice (v : ℕ) : Slice := ⟨0, [⟨[(0, v)], List.pairwise_singleton _ _⟩], rfl⟩

theorem slices_addPart_std (c : ChunkCopiesCalculator) (v : ℕ)
    (h : c.available.slices = [stdSlice v]) :
    (c.addPart 0 0 0).available.slices = [stdSlice ((v + 1) % 65536)] := by
  obtain ⟨⟨slices, hs⟩, t, a, b, d, e, f⟩ := c
  simp only at h
  subst h
  rfl

theorem slices_ofParts_std (target : Goal) : ∀ n : ℕ,
    (ofParts target (List.replicate (n + 1) (0, 0, 0))).available.slices =
      [stdSlice ((n + 1) % 65536)]
  | 0 => rfl
  | n + 1 => by
    rw [ofParts, List.replicate_succ', List.foldl_append, List.foldl_cons, List.foldl_nil,
      ← ofParts, slices_addPart_std _ _ (slices_ofParts_std target n)]
    congr 2
    omega

/-- With no target and one standard part that has an entry of count 0, the remove pool
holds that entry while nothing is counted to remove. -/
theorem removePool_of_zero_count (auction : Auction) (c : ChunkCopiesCalculator)
    (hslices : c.available.slices = [stdSlice 0]) (htarget : c.target = Goal.empty) :
    ((c.optimize auction).getRemovePool 0 0).entries ≠ [] ∧
      ((c.optimize auction).countPartsToMove 0 0).2 = 0 := by
  have havail : c.available.find 0 = some (stdSlice 0) := by
    simp only [Goal.find, hslices]
    rfl
  have htfind : (c.target.mapSlices (optimizeSlice auction c.available)
      (type_optimizeSlice auction c.available)).find 0 = none := by
    rw [find_mapSlices, htarget]
    rfl
  unfold optimize
  rw [getRemovePool_evalRedundancyLevel, countPartsToMove_evalRedundancyLevel,
    countPartsToMove_evalOperationCount]
  constructor
  · unfold getRemovePool
    simp only [available_evalOperationCount, target_evalOperationCount, havail, htfind]
    simp [stdSlice, Slice.part]
  · simp only [havail, htfind]
    rfl

/-- `2^16` copies of the standard part on one label wrap its `uint16_t` count to 0: the
remove pool then holds that label while nothing is counted to remove (for every auction,
by `removePool_of_zero_count`; here with the identity assignment). -/
theorem removePool_wrapped_count :
    let c : ChunkCopiesCalculator :=
      (ofParts Goal.empty (List.replicate 65536 (0, 0, 0))).optimize identityAuction
    (c.getRemovePool 0 0).entries ≠ [] ∧ (c.countPartsToMove 0 0).2 = 0 := by
  have hslices := slices_ofParts_std Goal.empty 65535
  simp only [Nat.reduceAdd, Nat.reduceMod] at hslices
  exact removePool_of_zero_count identityAuction _ hslices (target_ofParts Goal.empty _)

end ChunkCopiesCalculator

end LizardFs
