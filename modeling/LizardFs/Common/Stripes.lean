import LizardFs.Common.SliceTraits
import LizardFs.Lib.Striping

/-!
# The stripe arithmetic of a slice

`chunkLengthToChunkPartLength` cuts a chunk's bytes into the parts of its slice and
`getNumberOfBlocks` counts a part's blocks, by two formulas written apart. Both are round-robin
striping over the slice's data parts (`Striping`): a part's length is `lengthOf` of its data
index and its block count `blocksOf` (`chunkLengthToChunkPartLength_eq`,
`getNumberOfBlocksIn_eq`), parity parts at index 0. The data parts of a valid slice type have
the indices `0, …, d - 1`, each once (`dataIndices_eq`), so the sums and bounds of the library
carry over to the slice (`stripe_arithmetic_agrees`).
-/

namespace LizardFs

namespace SliceTraits

open ChunkPartType

/-- The chunk part types of the parts of slice type `t`. -/
def partsOf (t : ℕ) : List ℕ :=
  (List.range (SliceType.expectedParts t)).map fun j => t * kMaxPartsCount + j

/-- The data parts among them. -/
def dataPartsOf (t : ℕ) : List ℕ := (partsOf t).filter fun id => !isParityPart id

/-! ## Parts of a valid slice type -/

/-- A valid slice type has at most `kMaxPartsCount` parts. -/
theorem expectedParts_le {t : ℕ} (ht : SliceType.isValid t = true) :
    SliceType.expectedParts t ≤ kMaxPartsCount := by
  unfold SliceType.isValid SliceType.kTypeCount SliceType.kECFirst at ht
  simp only [decide_eq_true_eq] at ht
  unfold SliceType.expectedParts SliceType.kECFirst kMaxPartsCount
  split
  · next hlt =>
    interval_cases t <;> decide
  · omega

theorem getSliceType_part (t : ℕ) {j : ℕ} (hj : j < kMaxPartsCount) :
    getSliceType (t * kMaxPartsCount + j) = t := by
  unfold getSliceType
  rw [Nat.mul_comm, Nat.mul_add_div (by decide), Nat.div_eq_of_lt hj, Nat.add_zero]

theorem getSlicePart_part (t : ℕ) {j : ℕ} (hj : j < kMaxPartsCount) :
    getSlicePart (t * kMaxPartsCount + j) = j := by
  unfold getSlicePart
  rw [Nat.mul_comm, Nat.mul_add_mod, Nat.mod_eq_of_lt hj]

/-- The parts of a valid slice type are valid chunk part types of that type. -/
theorem mem_partsOf {t id : ℕ} (ht : SliceType.isValid t = true) (h : id ∈ partsOf t) :
    getSliceType id = t ∧ ChunkPartType.isValid id = true := by
  obtain ⟨j, hj, rfl⟩ := List.mem_map.mp h
  have hj' : j < SliceType.expectedParts t := List.mem_range.mp hj
  have hj64 : j < kMaxPartsCount := Nat.lt_of_lt_of_le hj' (expectedParts_le ht)
  refine ⟨getSliceType_part t hj64, ?_⟩
  simp only [ChunkPartType.isValid, getSliceType_part t hj64, getSlicePart_part t hj64, ht, hj',
    decide_true, Bool.and_self]

/-- The index a part's length and block count are computed from: its data index, 0 for a
parity part. -/
theorem partIndex_lt {id : ℕ} (hv : ChunkPartType.isValid id = true) :
    (if isParityPart id then 0 else getDataPartIndex id) <
      getNumberOfDataParts (getSliceType id) := by
  split
  · exact getNumberOfDataParts_pos _
  · next hp => exact getDataPartIndex_lt hv (by simpa using hp)

/-- The data parts of an erasure code slice are its first ones. -/
theorem isParityPart_of_isEC {t j : ℕ} (hx : isXor t = false) (he : isEC t = true)
    (hj : j < kMaxPartsCount) :
    isParityPart (t * kMaxPartsCount + j) = decide (ecGetNumberOfDataParts t ≤ j) := by
  simp only [isParityPart, getSliceType_part t hj, getSlicePart_part t hj, hx, he,
    Bool.false_eq_true, if_false, if_true]

/-- Each data index of a valid slice type belongs to one data part. -/
theorem dataIndices_eq {t : ℕ} (ht : SliceType.isValid t = true) :
    (dataPartsOf t).map getDataPartIndex = List.range (getNumberOfDataParts t) := by
  have hparts := expectedParts_le ht
  cases hx : isXor t
  · cases he : isEC t
    · -- standard and tape slices: the one part 0
      have hsmall : t < 2 := by
        unfold isXor at hx
        unfold isEC SliceType.kTypeCount SliceType.kECFirst at he
        unfold SliceType.isValid SliceType.kTypeCount SliceType.kECFirst at ht
        simp only [Bool.and_eq_false_iff, decide_eq_false_iff_not, decide_eq_true_eq] at hx he ht
        omega
      interval_cases t <;> decide
    · -- erasure codes: parts `0, …, k - 1` hold data, indexed by their number
      have hk : ecGetNumberOfDataParts t ≤ SliceType.expectedParts t :=
        Nat.le_of_lt (by simpa [getNumberOfDataParts, hx, he] using
          getNumberOfDataParts_lt_of_isEC he)
      have hdata : dataPartsOf t = (List.range (ecGetNumberOfDataParts t)).map
          fun j => t * kMaxPartsCount + j := by
        unfold dataPartsOf partsOf
        rw [← Nat.add_sub_cancel' hk, List.range_add, List.map_append, List.filter_append]
        have hlow : ((List.range (ecGetNumberOfDataParts t)).map
            fun j => t * kMaxPartsCount + j).filter (fun id => !isParityPart id) =
              (List.range (ecGetNumberOfDataParts t)).map fun j => t * kMaxPartsCount + j := by
          refine List.filter_eq_self.mpr fun id hid => ?_
          obtain ⟨j, hj, rfl⟩ := List.mem_map.mp hid
          have hj' := List.mem_range.mp hj
          rw [isParityPart_of_isEC hx he (by omega)]
          simpa using hj'
        have hhigh : (((List.range (SliceType.expectedParts t - ecGetNumberOfDataParts t)).map
            (ecGetNumberOfDataParts t + ·)).map fun j => t * kMaxPartsCount + j).filter
              (fun id => !isParityPart id) = [] := by
          refine List.filter_eq_nil_iff.mpr fun id hid => ?_
          simp only [List.map_map, List.mem_map, List.mem_range, Function.comp_apply] at hid
          obtain ⟨j, hj, rfl⟩ := hid
          rw [isParityPart_of_isEC hx he (by omega)]
          simp
        rw [hlow, hhigh, List.append_nil]
      rw [hdata, List.map_map]
      have hnum : getNumberOfDataParts t = ecGetNumberOfDataParts t := by
        simp [getNumberOfDataParts, hx, he]
      rw [hnum]
      conv_rhs => rw [← List.map_id (List.range _)]
      refine List.map_congr_left fun j hj => ?_
      have hj64 : j < kMaxPartsCount := by
        have := List.mem_range.mp hj
        omega
      simp only [Function.comp_apply, getDataPartIndex, getSliceType_part t hj64,
        getSlicePart_part t hj64, hx, Bool.false_eq_true, if_false, id]
  · -- xor slices: parts `1, …, level` hold data, part 0 the parity
    have hrange : 2 ≤ t ∧ t ≤ 9 := by
      simpa [isXor] using hx
    obtain ⟨h2, h9⟩ := hrange
    interval_cases t <;> decide

/-! ## The two formulas as striping -/

/-- A part's length is its share of the chunk striped over the data parts. -/
theorem chunkLengthToChunkPartLength_eq {id : ℕ} (hv : ChunkPartType.isValid id = true)
    (L : ℕ) :
    chunkLengthToChunkPartLength id L =
      Striping.lengthOf mfsBlockSize (getNumberOfDataParts (getSliceType id))
        (if isParityPart id then 0 else getDataPartIndex id) L := by
  have hindex := partIndex_lt hv
  unfold chunkLengthToChunkPartLength
  generalize (if isParityPart id then 0 else getDataPartIndex id) = i at hindex ⊢
  generalize getNumberOfDataParts (getSliceType id) = d at hindex ⊢
  split
  · next hd =>
    -- one data part holds the whole chunk
    subst hd
    rw [show i = 0 by omega, Striping.lengthOf_one (by decide)]
  · -- the rest of the last stripe is the chunk length modulo a stripe
    have hrest : L - L / (d * mfsBlockSize) * mfsBlockSize * d = L % (d * mfsBlockSize) := by
      rw [Nat.mod_eq_sub_mul_div, Nat.mul_assoc, Nat.mul_comm _ (mfsBlockSize * d),
        Nat.mul_comm mfsBlockSize d]
    simp only [Striping.lengthOf, hrest]

theorem getNumberOfBlocksIn_eq (id n : ℕ) :
    getNumberOfBlocksIn id n =
      Striping.blocksOf (getNumberOfDataParts (getSliceType id))
        (if isParityPart id then 0 else getDataPartIndex id) n := rfl

/-- A sum over the data parts of a valid slice type is a sum over the data indices. -/
theorem sum_dataPartsOf {t : ℕ} (ht : SliceType.isValid t = true) (f : ℕ → ℕ) (g : ℕ → ℕ)
    (hfg : ∀ id ∈ dataPartsOf t, f id = g (getDataPartIndex id)) :
    ((dataPartsOf t).map f).sum = ((List.range (getNumberOfDataParts t)).map g).sum := by
  rw [List.map_congr_left hfg]
  show ((dataPartsOf t).map (g ∘ getDataPartIndex)).sum = _
  rw [← List.map_map, dataIndices_eq ht]

theorem mem_dataPartsOf {t id : ℕ} (ht : SliceType.isValid t = true) (h : id ∈ dataPartsOf t) :
    getSliceType id = t ∧ ChunkPartType.isValid id = true ∧ isParityPart id = false := by
  obtain ⟨hmem, hdata⟩ := List.mem_filter.mp h
  exact ⟨(mem_partsOf ht hmem).1, (mem_partsOf ht hmem).2, by simpa using hdata⟩

/-! ## The stripe arithmetic -/

/-- For every valid slice type: the data parts' lengths add up to the chunk length; parity
parts are as long as data part 0, and no data part is longer than it or more than a block
shorter; every part's length fills the blocks `getNumberOfBlocks` gives it of the chunk's
blocks; and the data parts' block counts add up to the chunk's blocks. -/
theorem stripe_arithmetic_agrees (t : ℕ) (ht : SliceType.isValid t = true) :
    (∀ L ≤ mfsChunkSize,
      ((dataPartsOf t).map fun id => chunkLengthToChunkPartLength id L).sum = L) ∧
    (∀ L ≤ mfsChunkSize, ∀ first ∈ dataPartsOf t, getDataPartIndex first = 0 →
      ∀ id ∈ partsOf t,
        (isParityPart id = true →
          chunkLengthToChunkPartLength id L = chunkLengthToChunkPartLength first L) ∧
        (isParityPart id = false →
          chunkLengthToChunkPartLength id L ≤ chunkLengthToChunkPartLength first L ∧
            chunkLengthToChunkPartLength first L ≤
              chunkLengthToChunkPartLength id L + mfsBlockSize)) ∧
    (∀ L ≤ mfsChunkSize, ∀ id ∈ partsOf t,
      (chunkLengthToChunkPartLength id L + mfsBlockSize - 1) / mfsBlockSize =
        getNumberOfBlocksIn id ((L + mfsBlockSize - 1) / mfsBlockSize)) ∧
    (∀ n ≤ mfsBlocksInChunk, ((dataPartsOf t).map fun id => getNumberOfBlocksIn id n).sum = n) := by
  have hd := getNumberOfDataParts_pos t
  have hbs : 0 < mfsBlockSize := by decide
  refine ⟨fun L _ => ?_, fun L _ first hfirst h0 id hid => ?_, fun L _ id hid => ?_, fun n _ => ?_⟩
  · -- the lengths of the data parts are the striping of the chunk
    rw [sum_dataPartsOf ht _ (fun i => Striping.lengthOf mfsBlockSize (getNumberOfDataParts t) i L)
      fun id hid => by
        obtain ⟨htype, hv, hdata⟩ := mem_dataPartsOf ht hid
        rw [chunkLengthToChunkPartLength_eq hv, htype, hdata, if_neg Bool.false_ne_true]]
    exact Striping.sum_lengthOf hbs hd L
  · obtain ⟨htype₁, hv₁, hdata₁⟩ := mem_dataPartsOf ht hfirst
    obtain ⟨htype, hv⟩ := mem_partsOf ht hid
    have hlen₁ : chunkLengthToChunkPartLength first L =
        Striping.lengthOf mfsBlockSize (getNumberOfDataParts t) 0 L := by
      rw [chunkLengthToChunkPartLength_eq hv₁, htype₁, hdata₁, if_neg Bool.false_ne_true, h0]
    rw [hlen₁, chunkLengthToChunkPartLength_eq hv, htype]
    refine ⟨fun hp => by rw [if_pos hp], fun hp => ?_⟩
    rw [if_neg (by simp [hp])]
    exact ⟨Striping.lengthOf_le_first _ _ _ _, Striping.first_le_lengthOf _ _ _ _⟩
  · have hv := (mem_partsOf ht hid).2
    rw [chunkLengthToChunkPartLength_eq hv, getNumberOfBlocksIn_eq]
    exact Striping.ceil_lengthOf hbs (partIndex_lt hv) L
  · -- the block counts of the data parts are the striping of the chunk's blocks
    rw [sum_dataPartsOf ht _ (fun i => Striping.blocksOf (getNumberOfDataParts t) i n)
      fun id hid => by
        obtain ⟨htype, -, hdata⟩ := mem_dataPartsOf ht hid
        rw [getNumberOfBlocksIn_eq, htype, hdata, if_neg Bool.false_ne_true]]
    exact Striping.sum_blocksOf hd n

/-- `ec(3, 2)`: type `10 + 32 * (3 - 2) + (2 - 1)`. -/
theorem stripe_arithmetic_ec32 :
    SliceType.isValid 43 = true ∧
    ((∀ L ≤ mfsChunkSize,
      ((dataPartsOf 43).map fun id => chunkLengthToChunkPartLength id L).sum = L) ∧
    (∀ L ≤ mfsChunkSize, ∀ first ∈ dataPartsOf 43, getDataPartIndex first = 0 →
      ∀ id ∈ partsOf 43,
        (isParityPart id = true →
          chunkLengthToChunkPartLength id L = chunkLengthToChunkPartLength first L) ∧
        (isParityPart id = false →
          chunkLengthToChunkPartLength id L ≤ chunkLengthToChunkPartLength first L ∧
            chunkLengthToChunkPartLength first L ≤
              chunkLengthToChunkPartLength id L + mfsBlockSize)) ∧
    (∀ L ≤ mfsChunkSize, ∀ id ∈ partsOf 43,
      (chunkLengthToChunkPartLength id L + mfsBlockSize - 1) / mfsBlockSize =
        getNumberOfBlocksIn id ((L + mfsBlockSize - 1) / mfsBlockSize)) ∧
    (∀ n ≤ mfsBlocksInChunk, ((dataPartsOf 43).map fun id => getNumberOfBlocksIn id n).sum = n)) :=
  ⟨by decide, stripe_arithmetic_agrees 43 (by decide)⟩

/-- A chunk of one block and one byte in `xor3`: data parts 1, 2, 3 get a block, one byte and
nothing; the parity part 0 gets a block. -/
example : (partsOf 3).map (chunkLengthToChunkPartLength · (mfsBlockSize + 1)) =
    [mfsBlockSize, mfsBlockSize, 1, 0] := by
  decide

end SliceTraits

end LizardFs
