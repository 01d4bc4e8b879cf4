import LizardFs.Common.Goal

/-!
# The flat storage of `Goal::Slice`

`Goal::Slice` does not keep a map per part. It keeps the label entries of all parts one after
another in one vector, `data_`, and the number of entries of each part in `part_size_`; a part
is the `vector_range` of `part_size_[part]` entries from `getPartOffset(part)`, the sum of the
sizes before it, and `operator[](part)` hands out a `flat_map` over that view. An insertion
into a part goes into `data_` and moves every later part's entries, and the part's size
counter grows with it (`FlatSlice`, `setPartEntries`).

`Goal.Slice` of `Common.Goal` is the model the rest of the development uses, a list of label
maps. The flat state of a slice is its `encode`: the sizes of its maps and their entries one
after another. Every update through a part proxy (`operator[]` and an assignment, `erase`, an
assignment of a whole part) takes the encoding of a slice to the encoding of the slice with the
same update made to that part alone (`assign_encode`, `erase_encode`, `setPart_encode`), so
a run of updates on the flat state is the flattened run on the list model (`run_encode`). The
part views, `getExpectedCopies`, `countLabels` and `isValid` read from a flattened slice what
the list model says (`partEntries_encode`, `getExpectedCopies_encode`, `countLabels_encode`,
`isValid_encode`). Together: over any run of updates from `Slice(type)` the flat state stays
consistent, with `sum part_size_ = data_.size()` and each part's range sorted by label without
repeats, and every reader agrees with the list model (`flat_slice_refines_list_model`).

`operator==` is the exception: it compares `type_` and `data_` only, so two slices whose
entries differ only in where the part boundaries lie compare equal
(`slice_eq_ignores_part_boundaries`).
-/

namespace LizardFs

open MediaLabel CountWalk

/-- `Goal::Slice` as the source stores it. -/
structure Goal.FlatSlice where
  type : ℕ
  partSize : List ℕ
  data : List (MediaLabel × ℕ)
  deriving DecidableEq

namespace Goal.FlatSlice

/-- `Slice(type)`: `part_size_(type.expectedParts(), 0)` and no entries. -/
def ofType (type : ℕ) : FlatSlice := ⟨type, List.replicate (SliceType.expectedParts type) 0, []⟩

/-- `size()`. -/
def size (s : FlatSlice) : ℕ := SliceType.expectedParts s.type

/-- `getPartOffset(part)`: the entries of the parts before `part`. -/
def getPartOffset (s : FlatSlice) (part : ℕ) : ℕ := (s.partSize.take part).sum

/-- The entries of the `vector_range` that `operator[](part)` views. -/
def partEntries (s : FlatSlice) (part : ℕ) : List (MediaLabel × ℕ) :=
  (s.data.drop (s.getPartOffset part)).take (s.partSize.getD part 0)

/-- A change made through the view of `part` that leaves it holding `r`: `data_` keeps the
entries of the other parts around `r`, and `part_size_[part]` becomes the size of `r`. -/
def setPartEntries (s : FlatSlice) (part : ℕ) (r : List (MediaLabel × ℕ)) : FlatSlice :=
  { s with
    data := s.data.take (s.getPartOffset part) ++ r ++
      s.data.drop (s.getPartOffset part + s.partSize.getD part 0)
    partSize := s.partSize.set part r.length }

/-- `slice[part][label] = v`: `flat_map::operator[]` inserts `(label, 0)` at the `lower_bound`
of a label it lacks, then the assignment sets the count. -/
def assign (s : FlatSlice) (part : ℕ) (label : MediaLabel) (v : ℕ) : FlatSlice :=
  s.setPartEntries part (setCount (s.partEntries part) label v)

/-- `slice[part].erase(label)`. -/
def erase (s : FlatSlice) (part : ℕ) (label : MediaLabel) : FlatSlice :=
  s.setPartEntries part ((s.partEntries part).filter fun p => p.1 ≠ label)

/-- `slice[part] = labels`: `vector_range::operator=` copies the entries of `labels`. -/
def setPart (s : FlatSlice) (part : ℕ) (labels : Labels) : FlatSlice :=
  s.setPartEntries part labels.entries

/-- `slice[part][label]` on a label that is there, 0 for one that is not (`find`). -/
def get (s : FlatSlice) (part : ℕ) (label : MediaLabel) : ℕ := CountWalk.get (s.partEntries part) label

/-- `getExpectedCopies()`: the counts of all of `data_`. -/
def getExpectedCopies (s : FlatSlice) : ℕ := (s.data.map Prod.snd).sum

/-- `Slice::countLabels(slice[part])`. -/
def countLabels (s : FlatSlice) (part : ℕ) : ℕ := ((s.partEntries part).map Prod.snd).sum

/-- `isValid()`: a valid type, no zero count in `data_`, and no empty part. -/
def isValid (s : FlatSlice) : Bool :=
  SliceType.isValid s.type && s.data.all (fun e => 0 < e.2) &&
    (List.range s.size).all fun part => 0 < s.partSize.getD part 0

/-- `operator==`: `type_ == other.type_ && data_ == other.data_`. -/
def beq (s t : FlatSlice) : Bool := s.type == t.type && s.data == t.data

/-- The flat state that holds the maps of a slice of the list model. -/
def encode (t : Slice) : FlatSlice :=
  ⟨t.type, t.parts.map (·.entries.length), (t.parts.map (·.entries)).flatten⟩

/-- What `data_` and `part_size_` must satisfy: a size per part, the sizes adding up to the
entries, and each part's entries sorted by label without repeats. -/
structure Consistent (s : FlatSlice) : Prop where
  length_partSize : s.partSize.length = s.size
  sum_partSize : s.partSize.sum = s.data.length
  sorted : ∀ part < s.size, Sorted (s.partEntries part)

end Goal.FlatSlice

/-- The updates a slice takes through its part proxies: `slice[part][label] = v` (an increment
or a decrement is an assignment of the count plus or minus one), `slice[part].erase(label)` and
`slice[part] = labels`. -/
inductive Goal.SliceCall where
  | assign (part : ℕ) (label : MediaLabel) (v : ℕ)
  | erase (part : ℕ) (label : MediaLabel)
  | setPart (part : ℕ) (labels : Goal.Labels)

namespace Goal.SliceCall

/-- The part a call goes through. -/
def part : SliceCall → ℕ
  | assign part _ _ => part
  | erase part _ => part
  | setPart part _ => part

/-- What a call does to the labels of its part. -/
def update : SliceCall → Labels → Labels
  | assign _ label v => fun l => l.set label v
  | erase _ label => fun l => l.erase label
  | setPart _ labels => fun _ => labels

end Goal.SliceCall

namespace Goal.FlatSlice

/-- A call on the flat state. -/
def apply (s : FlatSlice) : SliceCall → FlatSlice
  | .assign part label v => s.assign part label v
  | .erase part label => s.erase part label
  | .setPart part labels => s.setPart part labels

/-- A sequence of calls on the flat state. -/
def run (s : FlatSlice) (calls : List SliceCall) : FlatSlice := calls.foldl apply s

end Goal.FlatSlice

/-- A call on the list model: the update of its part alone. -/
def Goal.Slice.apply (t : Slice) (c : SliceCall) : Slice := t.modifyPart c.part c.update

/-- A sequence of calls on the list model. -/
def Goal.Slice.run (t : Slice) (calls : List SliceCall) : Slice := calls.foldl Slice.apply t

/-- `Slice::isValid` in the list model: a valid type, and every part with a label and no zero
count. -/
def Goal.Slice.isValid (t : Slice) : Bool :=
  SliceType.isValid t.type && t.parts.all fun l => l.entries ≠ [] && l.entries.all fun e => 0 < e.2

/-! ## Parts of a flattened list -/

section Flatten

variable {α : Type}

/-- The view of part `p` of a flattened list is that part. -/
theorem view_flatten : ∀ (xs : List (List α)) (p : ℕ),
    (xs.flatten.drop ((xs.map List.length).take p).sum).take ((xs.map List.length).getD p 0) =
      xs.getD p []
  | [], p => by simp
  | x :: xs, 0 => by simp
  | x :: xs, p + 1 => by
    rw [List.map_cons, List.take_succ_cons, List.sum_cons, List.getD_cons_succ,
      List.getD_cons_succ, List.flatten_cons, ← List.drop_drop, List.drop_left' rfl]
    exact view_flatten xs p

/-- Replacing the view of part `p` of a flattened list replaces that part. -/
theorem flatten_set_view (r : List α) : ∀ (xs : List (List α)) (p : ℕ), p < xs.length →
    xs.flatten.take ((xs.map List.length).take p).sum ++ r ++
      xs.flatten.drop (((xs.map List.length).take p).sum + (xs.map List.length).getD p 0) =
      (xs.set p r).flatten
  | [], _, hp => absurd hp (Nat.not_lt_zero _)
  | x :: xs, 0, _ => by
    simp only [List.map_cons, List.take_zero, List.sum_nil, List.getD_cons_zero, Nat.zero_add,
      List.take_zero, List.nil_append, List.flatten_cons, List.set_cons_zero]
    rw [List.drop_left' rfl]
  | x :: xs, p + 1, hp => by
    -- the first part stays in front of the rest
    have hrest := flatten_set_view r xs p (by simpa using hp)
    simp only [List.map_cons, List.take_succ_cons, List.sum_cons, List.getD_cons_succ,
      List.flatten_cons, List.set_cons_succ]
    rw [List.take_length_add_append,
      show x.length + ((xs.map List.length).take p).sum + (xs.map List.length).getD p 0 =
        x.length + (((xs.map List.length).take p).sum + (xs.map List.length).getD p 0) by omega,
      List.drop_length_add_append, ← hrest, List.append_assoc, List.append_assoc,
      List.append_assoc]

/-- Testing every index below the length tests every element. -/
theorem all_range_getD (p : α → Bool) (d : α) : ∀ xs : List α,
    ((List.range xs.length).all fun i => p (xs.getD i d)) = xs.all p
  | [] => rfl
  | x :: xs => by
    rw [List.length_cons, List.range_succ_eq_map, List.all_cons, List.all_map, List.all_cons,
      ← all_range_getD p d xs]
    rfl

theorem all_and_all (p q : α → Bool) : ∀ xs : List α,
    (xs.all fun x => p x && q x) = (xs.all p && xs.all q)
  | [] => rfl
  | x :: xs => by
    rw [List.all_cons, List.all_cons, List.all_cons, all_and_all p q xs]
    cases p x <;> cases q x <;> simp

end Flatten

namespace Goal.FlatSlice

/-! ## The list model's slices, flattened -/

section Encode

variable (t : Slice)

@[simp] theorem type_encode : (encode t).type = t.type := rfl

@[simp] theorem size_encode : (encode t).size = t.size := rfl

/-- The view of a part of a flattened slice is that part's map. -/
theorem partEntries_encode (part : ℕ) : (encode t).partEntries part = (t.part part).entries := by
  have h := view_flatten (t.parts.map (·.entries)) part
  rw [partEntries, getPartOffset]
  simp only [encode, Slice.part]
  rw [show (t.parts.map fun l => l.entries.length) = (t.parts.map (·.entries)).map List.length by
    rw [List.map_map]; rfl, h, List.getD_eq_getElem?_getD, List.getD_eq_getElem?_getD,
    List.getElem?_map]
  cases t.parts[part]? <;> rfl

/-- A flattened slice is consistent: its sizes and entries are those of its maps. -/
theorem encode_consistent : Consistent (encode t) where
  length_partSize := by simp [encode, size, Slice.size, Slice.length_parts_eq_size]
  sum_partSize := by simp [encode, List.length_flatten, List.map_map, Function.comp_def]
  sorted part _ := by
    rw [partEntries_encode]
    exact (t.part part).sorted

theorem encode_ofType (type : ℕ) : encode (Slice.ofType type) = ofType type := by
  simp [encode, Slice.ofType, ofType, Labels.empty]

/-- A change through the view of a part of a flattened slice is the change of that part. -/
theorem setPartEntries_encode {part : ℕ} (hpart : part < t.size) (f : Labels → Labels) :
    (encode t).setPartEntries part (f (t.part part)).entries = encode (t.modifyPart part f) := by
  have hlen : part < t.parts.length := by rw [Slice.length_parts_eq_size]; exact hpart
  have hset : t.parts.modify part f = t.parts.set part (f (t.part part)) := by
    rw [List.modify_eq_set_getElem? , List.getElem?_eq_getElem hlen]
    simp [Slice.part, List.getD_eq_getElem?_getD, List.getElem?_eq_getElem hlen]
  have hflat := flatten_set_view (f (t.part part)).entries (t.parts.map (·.entries)) part
    (by simpa using hlen)
  rw [List.map_map] at hflat
  simp only [setPartEntries, getPartOffset, encode, Slice.modifyPart, hset, List.map_set,
    Function.comp_def] at hflat ⊢
  rw [← hflat]

theorem assign_encode {part : ℕ} (hpart : part < t.size) (label : MediaLabel) (v : ℕ) :
    (encode t).assign part label v = encode (t.modifyPart part fun l => l.set label v) := by
  rw [assign, partEntries_encode, ← setPartEntries_encode t hpart]
  rfl

theorem erase_encode {part : ℕ} (hpart : part < t.size) (label : MediaLabel) :
    (encode t).erase part label = encode (t.modifyPart part fun l => l.erase label) := by
  rw [erase, partEntries_encode, ← setPartEntries_encode t hpart]
  rfl

theorem setPart_encode {part : ℕ} (hpart : part < t.size) (labels : Labels) :
    (encode t).setPart part labels = encode (t.modifyPart part fun _ => labels) :=
  setPartEntries_encode t hpart fun _ => labels

theorem getExpectedCopies_encode : (encode t).getExpectedCopies = t.getExpectedCopies := by
  simp only [getExpectedCopies, encode, Slice.getExpectedCopies, List.map_flatten,
    List.sum_flatten, List.map_map, Function.comp_def]
  rfl

theorem countLabels_encode (part : ℕ) :
    (encode t).countLabels part = (t.part part).countLabels := by
  rw [countLabels, partEntries_encode]
  rfl

theorem get_encode (part : ℕ) (label : MediaLabel) :
    (encode t).get part label = (t.part part).get label := by
  rw [get, partEntries_encode]
  rfl

theorem isValid_encode : (encode t).isValid = t.isValid := by
  have hlen : (encode t).size = (encode t).partSize.length :=
    (encode_consistent t).length_partSize.symm
  -- a part is not empty exactly when its size is positive
  rw [isValid, hlen, all_range_getD (fun n => decide (0 < n)), Slice.isValid, all_and_all, ← Bool.and_assoc,
    Bool.and_right_comm (SliceType.isValid t.type)]
  simp only [encode, List.all_flatten, List.all_map, Function.comp_def, List.length_pos_iff]

end Encode

/-! ## Runs of updates -/

section Run

theorem apply_encode (t : Slice) {c : SliceCall} (hc : c.part < t.size) :
    (encode t).apply c = encode (t.apply c) := by
  cases c with
  | assign part label v => exact assign_encode t hc label v
  | erase part label => exact erase_encode t hc label
  | setPart part labels => exact setPart_encode t hc labels

/-- Every run of updates through the parts of a slice is the run of the same updates on the
list model, flattened. -/
theorem run_encode : ∀ (t : Slice) (calls : List SliceCall), (∀ c ∈ calls, c.part < t.size) →
    (encode t).run calls = encode (t.run calls)
  | _, [], _ => rfl
  | t, c :: calls, hcalls => by
    -- a call keeps the type, so the later calls still go through parts of the slice
    have hsize : (t.apply c).size = t.size := rfl
    have hrest := run_encode (t.apply c) calls fun c' hc' => by
      rw [hsize]; exact hcalls c' (List.mem_cons_of_mem c hc')
    rw [run, List.foldl_cons, apply_encode t (hcalls c List.mem_cons_self)]
    exact hrest

/-- **The flat storage refines the list model.** From `Slice(type)`, every run of updates
through parts of the slice leaves a consistent flat state (a size per part, the sizes adding
up to `data_.size()`, each part's range sorted by label without repeats), whose part views,
`operator[](part)[label]`, `getExpectedCopies`, `countLabels` and `isValid` read what the list
model's run of the same updates has. -/
theorem flat_slice_refines_list_model (type : ℕ) (calls : List SliceCall)
    (hcalls : ∀ c ∈ calls, c.part < SliceType.expectedParts type) :
    Consistent ((ofType type).run calls) ∧
      (∀ part, ((ofType type).run calls).partEntries part =
        (((Slice.ofType type).run calls).part part).entries) ∧
      (∀ part label, ((ofType type).run calls).get part label =
        (((Slice.ofType type).run calls).part part).get label) ∧
      ((ofType type).run calls).getExpectedCopies = ((Slice.ofType type).run calls).getExpectedCopies ∧
      (∀ part, ((ofType type).run calls).countLabels part =
        (((Slice.ofType type).run calls).part part).countLabels) ∧
      ((ofType type).run calls).isValid = ((Slice.ofType type).run calls).isValid := by
  -- the flat run is the flattening of the list model's run
  rw [← encode_ofType, run_encode (Slice.ofType type) calls hcalls]
  exact ⟨encode_consistent _, partEntries_encode _, get_encode _, getExpectedCopies_encode _,
    countLabels_encode _, isValid_encode _⟩

/-- An `xor2` slice given a copy on label 1 in part 0, two on label 3 and one on label 2 in
part 1, the copy of part 0 erased and part 2 set to one copy on label 5. -/
def xorCalls : List SliceCall :=
  [.assign 0 1 1, .assign 1 3 2, .assign 1 2 1, .erase 0 1, .setPart 2 ⟨[(5, 1)], by unfold Sorted; decide⟩]

theorem xorCalls_refine_list_model :
    (∀ c ∈ xorCalls, c.part < SliceType.expectedParts 2) ∧
      Consistent ((ofType 2).run xorCalls) ∧
      (∀ part, ((ofType 2).run xorCalls).partEntries part =
        (((Slice.ofType 2).run xorCalls).part part).entries) ∧
      (∀ part label, ((ofType 2).run xorCalls).get part label =
        (((Slice.ofType 2).run xorCalls).part part).get label) ∧
      ((ofType 2).run xorCalls).getExpectedCopies = ((Slice.ofType 2).run xorCalls).getExpectedCopies ∧
      (∀ part, ((ofType 2).run xorCalls).countLabels part =
        (((Slice.ofType 2).run xorCalls).part part).countLabels) ∧
      ((ofType 2).run xorCalls).isValid = ((Slice.ofType 2).run xorCalls).isValid := by
  have hcalls : ∀ c ∈ xorCalls, c.part < SliceType.expectedParts 2 := by decide
  exact ⟨hcalls, flat_slice_refines_list_model 2 xorCalls hcalls⟩

end Run

/-! ## `operator==` -/

/-- `operator==` holds of two xor2 slices with one copy on label 0, in part 0 of one and in part
1 of the other: their `data_` is the same one entry. -/
theorem slice_eq_ignores_part_boundaries :
    ((ofType 2).assign 0 0 1).beq ((ofType 2).assign 1 0 1) = true ∧
      ((ofType 2).assign 0 0 1).partEntries 0 ≠ ((ofType 2).assign 1 0 1).partEntries 0 := by
  decide

end Goal.FlatSlice

end LizardFs
