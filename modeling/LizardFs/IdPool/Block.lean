import Mathlib

/-!
# `detail::IdPoolBlock`: one block of the id pool's bit map

Model of the helper class of `src/common/id_pool.h`. A block keeps `maxSize`
ids as a bit map of 64-bit words (`std::size_t`), a set bit meaning *free*.
When every id of the block is free, or every id is taken, the words are
released (`data = []`) and only `freeCount` tells the two cases apart; the
next operation that needs the words materialises them again (`allocBlock`).

Words are natural numbers below `2 ^ 64`; the bit operations of the source
(`&`, `|`, `^`, shifts) are those of `Nat`, which agree with the fixed-width
ones on such values. The cursor `nextPack` is where `acquire` starts looking for
a word with a free bit.
-/

namespace LizardFs

/-- `std::vector::resize(n, value)`: keep the first `n` elements, padding with
`value` when the vector is shorter. -/
def resize {α : Type} (xs : List α) (n : Nat) (value : α) : List α :=
  xs.take n ++ List.replicate (n - xs.length) value

/-- Number of bits of `IdPoolBlock::ValueType` (`8 * sizeof(std::size_t)`). -/
def wordBits : Nat := 64

/-- The state of an `IdPoolBlock<std::size_t, uint32_t>`. -/
structure IdPoolBlock where
  /-- `data_`: the bit map, one bit per id, set when the id is free -/
  data : List Nat
  /-- `max_size_`: number of ids of the block -/
  maxSize : Nat
  /-- `free_count_`: number of free ids -/
  freeCount : Nat
  /-- `next_pack_`: the word where the search for a free id starts -/
  nextPack : Nat
  deriving DecidableEq, Repr

namespace IdPoolBlock

/-- `IdPoolBlock(size)`: a block whose ids are all free, with no storage. -/
def new (size : Nat) : IdPoolBlock := ⟨[], size, size, 0⟩

/-- `count()`. -/
def count (b : IdPoolBlock) : Nat := b.freeCount

/-- The table of `ffs`: for a non-zero nibble, the position (from 1) of its
lowest set bit; entry 0 cancels the shifts made for an all-zero word. -/
def ffsTable : List Int := [-(wordBits - 4 : Int), 1, 2, 1, 3, 1, 2, 1, 4, 1, 2, 1, 3, 1, 2, 1]

/-- One round of the binary search of `ffs`: if the low `bitTest` bits of the
word are clear, count them and shift them out. -/
def ffsRound (acc : Nat × Nat) (bitTest : Nat) : Nat × Nat :=
  if acc.2 &&& (2 ^ bitTest - 1) = 0 then (acc.1 + bitTest, acc.2 >>> bitTest) else acc

/-- `ffs(r)`: the position, counted from 1, of the lowest set bit of `r`, and 0
when `r = 0`. The loop halves `bit_test` from 32 down to 4. -/
def ffs (r : Nat) : Int :=
  let (bit, r') := [32, 16, 8, 4].foldl ffsRound (0, r)
  bit + ffsTable.getD (r' &&& 15) 0

/-- `allocBlock(full)`: materialise the words, every bit of the block set (and the
bits past `maxSize` in the last word clear) when `full`, every bit clear
otherwise. -/
def allocBlock (b : IdPoolBlock) (full : Bool) : IdPoolBlock :=
  let rsize := (b.maxSize + wordBits - 1) / wordBits
  let lastBits := b.maxSize % wordBits
  if full then
    let data := resize b.data rsize (2 ^ wordBits - 1)
    { b with
      data := if lastBits > 0 then data.set (data.length - 1) (2 ^ lastBits - 1) else data
      nextPack := 0 }
  else
    { b with data := resize b.data rsize 0 }

/-- The search loop of `acquire`: from `pack`, the first word with a set bit,
wrapping around the end of `data`. It fails (the `runtime_error` "IdPool: memory
corruption detected") when it comes back to `start`. `fuel` is the number of words
still to visit. -/
def scanPack (data : List Nat) (start : Nat) : Nat → Nat → Option Nat
  | 0, _ => none
  | fuel + 1, pack =>
    if data.getD pack 0 = 0 then
      let next := if pack + 1 ≥ data.length then 0 else pack + 1
      if next = start then none else scanPack data start fuel next
    else some pack

/-- Clear the storage once the block is full or empty (`data_.clear()`). -/
def clearIf (data : List Nat) (c : Bool) : List Nat := if c then [] else data

/-- `acquire()`: take the lowest free id of the first word with a free bit, from
`nextPack` on. `none` is the exception of the search loop. -/
def acquire (b : IdPoolBlock) : Option (IdPoolBlock × Nat) :=
  let b := if b.freeCount > 0 ∧ b.data.length = 0 then b.allocBlock true else b
  match scanPack b.data b.nextPack b.data.length b.nextPack with
  | none => none
  | some pack =>
    let word := b.data.getD pack 0
    let p := (ffs word - 1).toNat
    let freeCount := b.freeCount - 1
    some ({ b with
        data := clearIf (b.data.set pack (word ^^^ 2 ^ p)) (freeCount = 0)
        freeCount := freeCount
        nextPack := pack },
      pack * wordBits + p)

/-- `markAsAcquired(id)`: take a given id; `false` when it is already taken. -/
def markAsAcquired (b : IdPoolBlock) (id : Nat) : IdPoolBlock × Bool :=
  if b.data.length = 0 ∧ b.freeCount = 0 then (b, false) else
  let b := if b.data.length = 0 then b.allocBlock true else b
  let pack := id / wordBits
  let mask := 2 ^ (id % wordBits)
  let word := b.data.getD pack 0
  if word &&& mask = 0 then (b, false) else
  let freeCount := b.freeCount - 1
  ({ b with
      data := clearIf (b.data.set pack (word ^^^ mask)) (freeCount = 0)
      freeCount := freeCount }, true)

/-- `release(id)`: give a taken id back; `false` when it is already free. -/
def release (b : IdPoolBlock) (id : Nat) : IdPoolBlock × Bool :=
  if b.data.length = 0 ∧ b.freeCount > 0 then (b, false) else
  let b := if b.data.length = 0 then b.allocBlock false else b
  let pack := id / wordBits
  let mask := 2 ^ (id % wordBits)
  let word := b.data.getD pack 0
  if word &&& mask ≠ 0 then (b, false) else
  let nextPack := if b.freeCount = 0 then pack else b.nextPack
  let freeCount := b.freeCount + 1
  ({ b with
      data := clearIf (b.data.set pack (word ||| mask)) (freeCount = b.maxSize)
      freeCount := freeCount
      nextPack := nextPack }, true)

/-- `checkIfAvailable(id)`: whether the id is free. -/
def checkIfAvailable (b : IdPoolBlock) (id : Nat) : Bool :=
  if b.data.length = 0 then b.freeCount > 0
  else b.data.getD (id / wordBits) 0 &&& 2 ^ (id % wordBits) ≠ 0

end IdPoolBlock

end LizardFs
