import Mathlib.Tactic.IntervalCases
import LizardFs.Common.SliceType

/-!
# Slice traits

Model of the part arithmetic of `src/common/slice_traits.h`: which parts of a slice hold
data and which parity, how many parts a read needs to recover the data
(`requiredPartsToRecover`), and how many of the chunk's blocks a part stores
(`getNumberOfBlocks`), with the block sizes of `src/protocol/MFSCommunication.h`.

A chunk of `MFSBLOCKSINCHUNK` blocks is striped over the `d` data parts of its slice,
block `b` going to data part `b % d`, and every parity part is as long as the first data
part. So the first part of a slice stores the most blocks (`getNumberOfBlocks_le`) and no
valid part of it stores more than one block fewer (`getNumberOfBlocks_first_le`).
-/

namespace LizardFs

/-! ## Block sizes -/

/-- `MFSBLOCKSIZE` (`LIZARDFS_BLOCK_SIZE`). -/
def mfsBlockSize : Nat := 65536

/-- `MFSBLOCKSINCHUNK` (`LIZARDFS_BLOCKS_IN_CHUNK`). -/
def mfsBlocksInChunk : Nat := 1024

/-- `MFSCHUNKSIZE`. -/
def mfsChunkSize : Nat := mfsBlockSize * mfsBlocksInChunk

namespace SliceTraits

open ChunkPartType

/-! ## Slice kinds and their parts -/

/-- `isStandard(type)`: `type == kStandard`. -/
def isStandard (t : Nat) : Bool := t == 0

/-- `isTape(type)`: `type == kTape`. -/
def isTape (t : Nat) : Bool := t == 1

/-- `isXor(type)`: `kXor2 ≤ type ≤ kXor9`. -/
def isXor (t : Nat) : Bool := 2 ≤ t && t ≤ 9

/-- `isEC(type)`: `kECFirst ≤ type ≤ kECLast`. -/
def isEC (t : Nat) : Bool := SliceType.kECFirst ≤ t && t < SliceType.kTypeCount

/-- `xors::getXorLevel(type)`: `type - kXor2 + kMinXorLevel`. -/
def getXorLevel (t : Nat) : Nat := t - 2 + 2

/-- `ec::getNumberOfDataParts(type)`: `kMinDataCount + (type - kECFirst) / 32`. -/
def ecGetNumberOfDataParts (t : Nat) : Nat := 2 + (t - SliceType.kECFirst) / 32

/-- `getNumberOfDataParts(type)`. -/
def getNumberOfDataParts (t : Nat) : Nat :=
  if isXor t then getXorLevel t
  else if isEC t then ecGetNumberOfDataParts t
  else 1

/-- `isParityPart(cpt)`: part 0 of a xor slice, the parts after the data parts of an
erasure code. -/
def isParityPart (id : Nat) : Bool :=
  if isXor (getSliceType id) then getSlicePart id = 0
  else if isEC (getSliceType id) then getSlicePart id ≥ ecGetNumberOfDataParts (getSliceType id)
  else false

/-- `getDataPartIndex(cpt)`: xor data parts are numbered from 1. -/
def getDataPartIndex (id : Nat) : Nat :=
  if isXor (getSliceType id) then getSlicePart id - 1 else getSlicePart id

/-- `requiredPartsToRecover(type)`. -/
def requiredPartsToRecover (t : Nat) : Nat := getNumberOfDataParts t

/-- `getNumberOfBlocks(cpt, blocks_in_chunk)`: the blocks of the data part of index `i`
out of `d`, `(blocks_in_chunk + (d - i - 1)) / d`; parity parts count as index 0. The
source computes in unsigned arithmetic, which for part indices below 64 never goes
below zero. -/
def getNumberOfBlocksIn (id blocksInChunk : Nat) : Nat :=
  let dataPartIndex := if isParityPart id then 0 else getDataPartIndex id
  (blocksInChunk + getNumberOfDataParts (getSliceType id) - dataPartIndex - 1) /
    getNumberOfDataParts (getSliceType id)

/-- `getNumberOfBlocks(cpt)`: the blocks of a part of a full chunk. -/
def getNumberOfBlocks (id : Nat) : Nat := getNumberOfBlocksIn id mfsBlocksInChunk

/-- `chunkLengthToChunkPartLength(cpt, chunk_length)`: a block of every full stripe, and of
the rest the bytes of the part's block in the last stripe; parity parts count as index 0. The
source's `std::max(rest - data_part_index * MFSBLOCKSIZE, 0)` is truncated subtraction here;
chunk lengths are at most `MFSCHUNKSIZE`, so its `int` arithmetic does not overflow. -/
def chunkLengthToChunkPartLength (id chunkLength : Nat) : Nat :=
  if getNumberOfDataParts (getSliceType id) = 1 then chunkLength else
  let fullStripe := chunkLength / (getNumberOfDataParts (getSliceType id) * mfsBlockSize)
  let baseLen := fullStripe * mfsBlockSize
  let base := baseLen * getNumberOfDataParts (getSliceType id)
  let rest := chunkLength - base
  let dataPartIndex := if isParityPart id then 0 else getDataPartIndex id
  let partRestLen := rest - dataPartIndex * mfsBlockSize
  let partRestLen := min partRestLen mfsBlockSize
  baseLen + partRestLen

/-! ## Lemmas -/

theorem getNumberOfDataParts_pos (t : Nat) : 0 < getNumberOfDataParts t := by
  unfold getNumberOfDataParts getXorLevel ecGetNumberOfDataParts isXor
  split
  · next h =>
    simp only [Bool.and_eq_true, decide_eq_true_eq] at h
    omega
  · split <;> omega

/-- A xor slice has one parity part besides its data parts. -/
theorem expectedParts_of_isXor {t : Nat} (h : isXor t = true) :
    SliceType.expectedParts t = getNumberOfDataParts t + 1 := by
  simp only [isXor, Bool.and_eq_true, decide_eq_true_eq] at h
  obtain ⟨h2, h9⟩ := h
  interval_cases t <;> rfl

/-- An erasure code slice has at least one parity part besides its data parts. -/
theorem getNumberOfDataParts_lt_of_isEC {t : Nat} (h : isEC t = true) :
    getNumberOfDataParts t < SliceType.expectedParts t := by
  have hfirst : SliceType.kECFirst = 10 := rfl
  have hlo : ¬ t < SliceType.kECFirst := by
    simp only [isEC, Bool.and_eq_true, decide_eq_true_eq] at h
    omega
  have hxor : isXor t = false := by
    simp only [isXor, Bool.and_eq_false_iff, decide_eq_false_iff_not]
    omega
  unfold getNumberOfDataParts SliceType.expectedParts
  rw [hxor, h, if_neg hlo]
  simp only [ecGetNumberOfDataParts, Bool.false_eq_true, ↓reduceIte]
  omega

/-- A valid data part's index is below the number of data parts. -/
theorem getDataPartIndex_lt {id : Nat} (hv : ChunkPartType.isValid id = true)
    (hd : isParityPart id = false) :
    getDataPartIndex id < getNumberOfDataParts (getSliceType id) := by
  unfold ChunkPartType.isValid SliceType.isValid at hv
  simp only [Bool.and_eq_true, decide_eq_true_eq] at hv
  obtain ⟨htype, hpart⟩ := hv
  unfold isParityPart at hd
  unfold getDataPartIndex getNumberOfDataParts
  generalize getSliceType id = t at htype hpart hd ⊢
  generalize getSlicePart id = p at hpart hd ⊢
  by_cases hx : isXor t = true
  · -- a xor slice of level t has parts 0..t, part 0 the parity
    rw [if_pos hx] at hd
    rw [if_pos hx, if_pos hx]
    simp only [decide_eq_false_iff_not] at hd
    unfold isXor at hx
    simp only [Bool.and_eq_true, decide_eq_true_eq] at hx
    obtain ⟨h2, h9⟩ := hx
    have hparts : SliceType.expectedParts t = t + 1 := by
      unfold SliceType.expectedParts SliceType.kECFirst
      interval_cases t <;> rfl
    unfold getXorLevel
    omega
  · rw [if_neg hx] at hd
    rw [if_neg hx, if_neg hx]
    by_cases he : isEC t = true
    · rw [if_pos he] at hd
      rw [if_pos he]
      simp only [decide_eq_false_iff_not, not_le] at hd
      exact hd
    · -- standard and tape slices have the one part 0
      rw [if_neg he]
      have hsmall : t < SliceType.kECFirst := by
        unfold isEC at he
        simp only [Bool.and_eq_true, decide_eq_true_eq, not_and, not_lt] at he
        unfold SliceType.kTypeCount at htype he
        unfold SliceType.kECFirst at htype he ⊢
        omega
      have hparts : SliceType.expectedParts t = 1 := by
        unfold isXor at hx
        simp only [Bool.and_eq_true, decide_eq_true_eq, not_and, not_le] at hx
        unfold SliceType.expectedParts SliceType.kECFirst at *
        have : t < 2 := by omega
        interval_cases t <;> rfl
      omega

/-- No part stores more blocks than the chunk has. -/
theorem getNumberOfBlocksIn_le (id n : Nat) : getNumberOfBlocksIn id n ≤ n := by
  unfold getNumberOfBlocksIn
  dsimp only
  have hd := getNumberOfDataParts_pos (getSliceType id)
  generalize (if isParityPart id then 0 else getDataPartIndex id) = i
  generalize getNumberOfDataParts (getSliceType id) = d at hd ⊢
  -- the numerator is below (n + 1) * d
  have hlt : n + d - i - 1 < (n + 1) * d := by
    have hnd : n ≤ n * d := Nat.le_mul_of_pos_right n hd
    rw [Nat.succ_mul]
    omega
  exact Nat.lt_succ_iff.mp ((Nat.div_lt_iff_lt_mul hd).mpr hlt)

theorem getNumberOfBlocks_le (id : Nat) : getNumberOfBlocks id ≤ mfsBlocksInChunk :=
  getNumberOfBlocksIn_le id mfsBlocksInChunk

/-- The first part of a slice, a data part or the xor parity, is at index 0. -/
theorem getNumberOfBlocksIn_first (t n : Nat) :
    getNumberOfBlocksIn (t * kMaxPartsCount) n =
      (n + getNumberOfDataParts t - 1) / getNumberOfDataParts t := by
  have htype : getSliceType (t * kMaxPartsCount) = t := by
    unfold getSliceType kMaxPartsCount
    omega
  have hpart : getSlicePart (t * kMaxPartsCount) = 0 := by
    unfold getSlicePart kMaxPartsCount
    omega
  have hindex : (if isParityPart (t * kMaxPartsCount) then 0
      else getDataPartIndex (t * kMaxPartsCount)) = 0 := by
    unfold getDataPartIndex
    split <;> simp [hpart]
  unfold getNumberOfBlocksIn
  dsimp only
  rw [hindex, htype]
  rfl

/-- A valid part stores at most one block fewer than the first part of its slice. -/
theorem getNumberOfBlocks_first_le {id : Nat} (hv : ChunkPartType.isValid id = true) :
    getNumberOfBlocks (getSliceType id * kMaxPartsCount) ≤ getNumberOfBlocks id + 1 := by
  unfold getNumberOfBlocks
  rw [getNumberOfBlocksIn_first]
  have hd := getNumberOfDataParts_pos (getSliceType id)
  have hindex : (if isParityPart id then 0 else getDataPartIndex id) <
      getNumberOfDataParts (getSliceType id) := by
    split
    · exact hd
    · next hp => exact getDataPartIndex_lt hv (by simpa using hp)
  unfold getNumberOfBlocksIn
  dsimp only
  generalize (if isParityPart id then 0 else getDataPartIndex id) = i at hindex ⊢
  generalize getNumberOfDataParts (getSliceType id) = d at hd hindex ⊢
  -- both are within one block of n / d
  have hfirst : (mfsBlocksInChunk + d - 1) / d ≤ mfsBlocksInChunk / d + 1 := by
    calc (mfsBlocksInChunk + d - 1) / d ≤ (mfsBlocksInChunk + d) / d :=
          Nat.div_le_div_right (by omega)
      _ = mfsBlocksInChunk / d + 1 := Nat.add_div_right _ hd
  have hpart : mfsBlocksInChunk / d ≤ (mfsBlocksInChunk + d - i - 1) / d :=
    Nat.div_le_div_right (by omega)
  omega

end SliceTraits

end LizardFs
