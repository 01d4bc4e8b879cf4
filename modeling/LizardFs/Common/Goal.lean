import Mathlib.GroupTheory.Perm.Basic
import Mathlib.Data.List.FinRange
import LizardFs.Common.SliceTraits
import LizardFs.Lib.CountWalk

/-!
# Goals

Model of `Goal` and `Goal::Slice` of `src/common/goal.h` and `src/common/goal.cc`, the
data the chunk copies calculator works on. A goal holds at most one slice of each slice
type, kept in a `flat_set` ordered by type; a slice has exactly `expectedParts` parts, and
each part counts the copies it asks for (or, for the available parts of a chunk, has) on
each media label, in a `flat_map` ordered by label. `MediaLabel::kWildcard` is the largest
label handle, so a part's wildcard entry is its last.

The source keeps all the label entries of a slice in one vector with the size of each
part beside it (`data_`, `part_size_`), and hands out views of one part (`PartProxy`); the
model keeps one `Labels` per part, which is what those views show. The goal's name is not
read by anything modelled here and is left out.

`Labels`, `Slice` and `Goal` carry their invariants as fields: entries sorted by label,
`expectedParts` parts, slices sorted by type. Every operation below keeps them.
-/

namespace LizardFs

/-- `MediaLabel`: the 16-bit handle of a label name; labels compare by handle. -/
abbrev MediaLabel := Fin 65536

/-- Handle `0` exists, so label numerals make sense. -/
instance neZero_labelHandles : NeZero (65536 : Nat) := ⟨by decide⟩

namespace MediaLabel

/-- `MediaLabel::kWildcard`, of handle `kWildcardHandleValue`, the largest one. -/
def kWildcard : MediaLabel := Fin.last 65535

theorem le_kWildcard (l : MediaLabel) : l ≤ kWildcard := Fin.le_last l

end MediaLabel

open MediaLabel CountWalk SliceTraits

/-- `Goal::Slice::Labels`: the copies of one part on each label, a `flat_map` sorted by
label. The counts are `uint16_t`. -/
structure Goal.Labels where
  entries : List (MediaLabel × ℕ)
  sorted : Sorted entries
  deriving DecidableEq

namespace Goal.Labels

/-- A part without labels. -/
def empty : Labels := ⟨[], List.Pairwise.nil⟩

/-- The count of `label`, 0 when the part has no entry for it. -/
def get (l : Labels) (label : MediaLabel) : ℕ := CountWalk.get l.entries label

/-- `labels.find(label) != labels.end()`. -/
def contains (l : Labels) (label : MediaLabel) : Bool := label ∈ l.entries.map Prod.fst

/-- `labels[label] = v`. -/
def set (l : Labels) (label : MediaLabel) (v : ℕ) : Labels :=
  ⟨setCount l.entries label v, l.sorted.setCount label v⟩

/-- `labels.erase(label)`. -/
def erase (l : Labels) (label : MediaLabel) : Labels :=
  ⟨l.entries.filter fun p => p.1 ≠ label, l.sorted.sublist List.filter_sublist⟩

/-- `Slice::countLabels(labels)`: the copies on all labels. -/
def countLabels (l : Labels) : ℕ := total l.entries

@[simp] theorem get_empty (label : MediaLabel) : empty.get label = 0 := rfl

@[simp] theorem countLabels_empty : empty.countLabels = 0 := rfl

theorem get_set (l : Labels) (label label' : MediaLabel) (v : ℕ) :
    (l.set label v).get label' = if label = label' then v else l.get label' :=
  get_setCount l.entries label label' v

/-- Assigning a count moves the total by the difference. -/
theorem countLabels_set (l : Labels) (label : MediaLabel) (v : ℕ) :
    (l.set label v).countLabels + l.get label = l.countLabels + v :=
  total_setCount l.sorted label v

/-- Erasing an entry takes its copies out of the total. -/
theorem countLabels_erase (l : Labels) (label : MediaLabel) :
    (l.erase label).countLabels + l.get label = l.countLabels := by
  have h := total_named l.sorted label
  exact h

end Goal.Labels

/-- `Goal::Slice`: a slice type and the labels of each of its `expectedParts` parts. -/
structure Goal.Slice where
  type : ℕ
  parts : List Goal.Labels
  length_parts : parts.length = SliceType.expectedParts type

namespace Goal.Slice

/-- `Slice(type)`: every part without labels. -/
def ofType (type : ℕ) : Slice :=
  ⟨type, List.replicate (SliceType.expectedParts type) Labels.empty, List.length_replicate⟩

/-- `size()`. -/
def size (s : Slice) : ℕ := SliceType.expectedParts s.type

/-- `slice[part]`; no labels past the last part. -/
def part (s : Slice) (i : ℕ) : Labels := s.parts.getD i Labels.empty

/-- The slice with the labels of part `i` changed by `f`. -/
def modifyPart (s : Slice) (i : ℕ) (f : Labels → Labels) : Slice :=
  ⟨s.type, s.parts.modify i f, by rw [List.length_modify, s.length_parts]⟩

/-- `getExpectedCopies()`: the copies of all parts. -/
def getExpectedCopies (s : Slice) : ℕ := (s.parts.map Labels.countLabels).sum

/-- The slice whose part `i` is part `σ i` of `s`. -/
def permute (s : Slice) (σ : Equiv.Perm (Fin s.size)) : Slice :=
  ⟨s.type, (List.finRange s.size).map fun i => s.part (σ i).val, by simp [size]⟩

@[simp] theorem type_ofType (type : ℕ) : (ofType type).type = type := rfl

@[simp] theorem type_modifyPart (s : Slice) (i : ℕ) (f : Labels → Labels) :
    (s.modifyPart i f).type = s.type := rfl

@[simp] theorem type_permute (s : Slice) (σ : Equiv.Perm (Fin s.size)) :
    (s.permute σ).type = s.type := rfl

theorem length_parts_eq_size (s : Slice) : s.parts.length = s.size := s.length_parts

/-- The parts of a slice are its `part i`, for `i` below its size. -/
theorem parts_eq_map_part (s : Slice) :
    s.parts = (List.finRange s.size).map fun i => s.part i.val := by
  apply List.ext_getElem
  · simp [length_parts_eq_size]
  · intro n h₁ h₂
    rw [List.getElem_map, List.getElem_finRange]
    exact List.getElem_eq_getD _

theorem part_modifyPart (s : Slice) (i j : ℕ) (f : Labels → Labels) (hi : i < s.size) :
    (s.modifyPart i f).part j = if i = j then f (s.part j) else s.part j := by
  simp only [part, modifyPart, List.getD_eq_getElem?_getD, List.getElem?_modify]
  by_cases hij : i = j
  · subst hij
    have hlt : i < s.parts.length := by rw [length_parts_eq_size]; exact hi
    simp [List.getElem?_eq_getElem hlt]
  · simp [hij]

/-- Past the last part, changing a part changes nothing. -/
theorem modifyPart_of_le (s : Slice) {i : ℕ} (f : Labels → Labels) (hi : s.size ≤ i) :
    s.modifyPart i f = s := by
  have hlen : s.parts.length ≤ i := by rw [length_parts_eq_size]; exact hi
  cases s
  simp only [modifyPart, List.modify_eq_self hlen]

/-- Permuting the parts keeps them, in another order. -/
theorem permute_parts_perm (s : Slice) (σ : Equiv.Perm (Fin s.size)) :
    List.Perm (s.permute σ).parts s.parts := by
  have h := (Equiv.Perm.map_finRange_perm σ).map fun i => s.part i.val
  rw [List.map_map] at h
  conv_rhs => rw [parts_eq_map_part]
  exact h

theorem getExpectedCopies_permute (s : Slice) (σ : Equiv.Perm (Fin s.size)) :
    (s.permute σ).getExpectedCopies = s.getExpectedCopies :=
  ((permute_parts_perm s σ).map _).sum_nat

end Goal.Slice

/-- `Goal::kMaxExpectedCopies`. -/
def Goal.kMaxExpectedCopies : ℕ := 128

/-- What `linear_assignment::auctionOptimization` returns for a square value matrix of
size `n`: the object assigned to each person, a permutation. The calculator takes it as a
parameter; `LinearAssignment.auctionPermutation` is the one the model of the auction picks. -/
def Goal.Auction : Type := (n : ℕ) → (Fin n → Fin n → ℤ) → Equiv.Perm (Fin n)

/-- `Goal`: at most one slice of each type, in a `flat_set` sorted by type. -/
structure Goal where
  slices : List Goal.Slice
  sorted : slices.Pairwise fun a b => a.type < b.type

namespace Goal

/-- A goal without slices. -/
def empty : Goal := ⟨[], List.Pairwise.nil⟩

/-- `find(type)`. -/
def find (g : Goal) (type : ℕ) : Option Slice := g.slices.find? fun s => s.type = type

/-- `size()`: the number of slices. -/
def size (g : Goal) : ℕ := g.slices.length

/-- `getExpectedCopies()`. -/
def getExpectedCopies (g : Goal) : ℕ := (g.slices.map Slice.getExpectedCopies).sum

/-- Put `s` in place of the slice of its type, or in its sorted position. -/
def insertSlice (s : Slice) : List Slice → List Slice
  | [] => [s]
  | t :: ts =>
    if s.type < t.type then s :: t :: ts
    else if s.type = t.type then s :: ts
    else t :: insertSlice s ts

theorem mem_insertSlice {s t : Slice} : ∀ {ts : List Slice}, t ∈ insertSlice s ts →
    t = s ∨ t ∈ ts
  | [] => by simp [insertSlice]
  | u :: ts => by
    unfold insertSlice
    split
    · simp_all
    · split
      · intro h
        rcases List.mem_cons.mp h with h | h
        · exact .inl h
        · exact .inr (List.mem_cons_of_mem _ h)
      · intro h
        rcases List.mem_cons.mp h with h | h
        · exact .inr (h ▸ List.mem_cons_self)
        · rcases mem_insertSlice h with h | h
          · exact .inl h
          · exact .inr (List.mem_cons_of_mem _ h)

theorem sorted_insertSlice (s : Slice) : ∀ {ts : List Slice},
    ts.Pairwise (fun a b => a.type < b.type) →
    (insertSlice s ts).Pairwise fun a b => a.type < b.type
  | [], _ => List.pairwise_singleton _ _
  | t :: ts, h => by
    obtain ⟨ht, hts⟩ := List.pairwise_cons.mp h
    unfold insertSlice
    split
    · next hlt =>
      exact List.Pairwise.cons (fun u hu => by
        rcases List.mem_cons.mp hu with rfl | hu
        · exact hlt
        · exact lt_trans hlt (ht u hu)) h
    · split
      · next _ heq => exact List.Pairwise.cons (fun u hu => heq ▸ ht u hu) hts
      · next hnlt hne =>
        refine List.Pairwise.cons (fun u hu => ?_) (sorted_insertSlice s hts)
        rcases mem_insertSlice hu with rfl | hu
        · exact lt_of_le_of_ne (not_lt.mp hnlt) (Ne.symm hne)
        · exact ht u hu

/-- `setSlice(slice)`. -/
def setSlice (g : Goal) (s : Slice) : Goal := ⟨insertSlice s g.slices, sorted_insertSlice s g.sorted⟩

/-- `goal[type]` as the calculator reads it before writing the slice back: the slice of
that type, or a new `Slice(type)`. -/
def getSlice (g : Goal) (type : ℕ) : Slice := (g.find type).getD (Slice.ofType type)

/-- Change every slice, each keeping its type. -/
def mapSlices (g : Goal) (f : Slice → Slice) (hf : ∀ s, (f s).type = s.type) : Goal :=
  ⟨g.slices.map f, List.pairwise_map.mpr (g.sorted.imp fun {a b} h => by rwa [hf, hf])⟩

theorem find_eq_some {g : Goal} {type : ℕ} {s : Slice} (h : g.find type = some s) :
    s ∈ g.slices ∧ s.type = type := by
  have hmem := List.mem_of_find?_eq_some h
  have htype := List.find?_some h
  exact ⟨hmem, by simpa using htype⟩

/-- A slice of the goal is what `find` returns for its type. -/
theorem find_of_mem {g : Goal} {s : Slice} (hs : s ∈ g.slices) : g.find s.type = some s := by
  unfold find
  obtain ⟨g, hg⟩ := g
  induction g with
  | nil => simp at hs
  | cons t ts ih =>
    obtain ⟨ht, hts⟩ := List.pairwise_cons.mp hg
    rcases List.mem_cons.mp hs with rfl | hs
    · simp
    · have hne : t.type ≠ s.type := ne_of_lt (ht s hs)
      simp only [List.find?_cons, hne, decide_false]
      exact ih hts hs

theorem type_getSlice (g : Goal) (type : ℕ) : (g.getSlice type).type = type := by
  unfold getSlice
  cases h : g.find type with
  | none => rfl
  | some s => exact (find_eq_some h).2

theorem find_setSlice (g : Goal) (s : Slice) (type : ℕ) :
    (g.setSlice s).find type = if s.type = type then some s else g.find type := by
  unfold setSlice find
  obtain ⟨g, hg⟩ := g
  induction g with
  | nil => by_cases h : s.type = type <;> simp [insertSlice, h]
  | cons t ts ih =>
    obtain ⟨-, hts⟩ := List.pairwise_cons.mp hg
    simp only [insertSlice]
    split
    · next hlt =>
      by_cases h : s.type = type
      · simp [h]
      · simp [h]
    · split
      · next _ heq =>
        by_cases h : s.type = type
        · simp [h]
        · simp [h, ← heq]
      · next _ hne =>
        rw [List.find?_cons, List.find?_cons, ih hts]
        by_cases h : s.type = type
        · have : t.type ≠ type := h ▸ Ne.symm hne
          simp [h, this]
        · simp [h]

theorem getSlice_setSlice (g : Goal) (s : Slice) (type : ℕ) :
    (g.setSlice s).getSlice type = if s.type = type then s else g.getSlice type := by
  unfold getSlice
  rw [find_setSlice]
  split <;> rfl

theorem find_mapSlices (g : Goal) (f : Slice → Slice) (hf : ∀ s, (f s).type = s.type)
    (type : ℕ) : (g.mapSlices f hf).find type = (g.find type).map f := by
  unfold mapSlices find
  rw [List.find?_map]
  congr 1
  simp only [Function.comp_def, hf]

theorem size_mapSlices (g : Goal) (f : Slice → Slice) (hf : ∀ s, (f s).type = s.type) :
    (g.mapSlices f hf).size = g.size := List.length_map _

end Goal

end LizardFs
