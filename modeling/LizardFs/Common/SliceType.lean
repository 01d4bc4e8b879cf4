/-!
# Slice types and chunk part types

Model of `Goal::Slice::Type` (`detail::SliceType` of `src/common/goal.h`) and of
`ChunkPartType` (`src/common/chunk_part_type.h`).

Slice type values: 0 `std`, 1 `tape`, 2..9 `xor2`..`xor9`, and from
`kECFirst = 10` on the erasure codes `ec(k, m)` at `10 + 32 * (k - 2) + (m - 1)`
for `2 ≤ k ≤ 32`, `1 ≤ m ≤ 32`. A chunk part type packs a slice type and a part
index as `type * 64 + part`.
-/

namespace LizardFs

namespace SliceType

/-- `kECFirst`: the value of `ec(2, 1)`. -/
def kECFirst : Nat := 10

/-- `kTypeCount`: one past `ec(32, 32)`. -/
def kTypeCount : Nat := kECFirst + 31 * 32

/-- `kTypeParts`: the number of parts of the types below `kECFirst`. -/
def kTypeParts : List Nat := [1, 1, 3, 4, 5, 6, 7, 8, 9, 10]

/-- `isValid()`. -/
def isValid (t : Nat) : Bool := t < kTypeCount

/-- `expectedParts()`: `k + m` for `ec(k, m)`. -/
def expectedParts (t : Nat) : Nat :=
  if t < kECFirst then kTypeParts.getD t 0 else 3 + (t - kECFirst) / 32 + (t - kECFirst) % 32

end SliceType

namespace ChunkPartType

/-- `kMaxPartsCount`. -/
def kMaxPartsCount : Nat := 64

/-- `getSliceType()`. -/
def getSliceType (id : Nat) : Nat := id / kMaxPartsCount

/-- `getSlicePart()`. -/
def getSlicePart (id : Nat) : Nat := id % kMaxPartsCount

/-- `isValid()`: a valid slice type and a part index below its part count. -/
def isValid (id : Nat) : Bool :=
  SliceType.isValid (getSliceType id) && getSlicePart id < SliceType.expectedParts (getSliceType id)

end ChunkPartType

end LizardFs
