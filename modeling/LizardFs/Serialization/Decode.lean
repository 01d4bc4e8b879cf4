import Mathlib
import LizardFs.Common.SliceType

/-!
# Decoding untrusted bytes: `deserialize`

Model of the `deserialize` functions of `src/common/serialization.h` (and of
`ChunkPartType`'s, `src/common/chunk_part_type.h`).

The decoded C++ type is a `SerialType`, the decoded value a `SerialValue`.
The decoder walks the buffer with the two pieces of state of the source: the
offset `pos` of `*source` from the start of the buffer and `left`, the
`bytesLeftInBuffer` counter. It fails with

* `incorrect msg` — the `IncorrectDeserializationException` the source throws,
  with its message;
* `outOfBounds i` — the first read of a byte at index `i` past the end of the
  buffer: undefined behaviour in C++, so the model stops there.

Reads of scalars are big-endian (`get16bit` and friends of `datapack.h`).
`std::set` and `std::map` are sorted lists filled by `insert` (which keeps the
first of two equivalent elements), ordered by `SerialType.lt`, the `std::less`
of the element type. `flat_set` and `flat_map` are decoded through their
underlying vector (`set.data()`), as in the source.
-/

namespace LizardFs

/-- The C++ types the decoder is instantiated with. -/
inductive SerialType where
  | bool | char | i8 | u8 | i16 | u16 | i32 | u32 | i64 | u64
  | string
  /-- `T[N]` and `std::array<T, N>` -/
  | array (n : Nat) (t : SerialType)
  | pair (a b : SerialType)
  | uniquePtr (t : SerialType)
  | vector (t : SerialType)
  | smallVector (t : SerialType)
  | compactVector (t : SerialType)
  | set (t : SerialType)
  | map (k v : SerialType)
  | flatSet (t : SerialType)
  | flatMap (k v : SerialType)
  | chunkPartType
  deriving DecidableEq, Repr

/-- A decoded value. -/
inductive SerialValue where
  /-- a scalar, as the unsigned bit pattern the bytes give (`bool` is 0 or 1) -/
  | num (n : Nat)
  /-- the bytes of a `std::string` -/
  | str (bytes : List Nat)
  /-- the elements of an array or a container, in container order -/
  | seq (xs : List SerialValue)
  | pair (a b : SerialValue)
  /-- a `std::unique_ptr`, null or owning a value -/
  | ptr (v : Option SerialValue)
  deriving Repr

/-- Why decoding stopped. -/
inductive DecodeError where
  /-- `IncorrectDeserializationException(what)` -/
  | incorrect (what : String)
  /-- a read of the byte at this index, past the end of the buffer -/
  | outOfBounds (index : Nat)
  deriving DecidableEq, Repr

/-- `kMaxDeserializedBytesCount`: 32 MiB. -/
def kMaxDeserializedBytesCount : Nat := 32 * 1024 * 1024

/-- `kMaxDeserializedElementsCount`: one million. -/
def kMaxDeserializedElementsCount : Nat := 1000 * 1000

/-- The decoder state: `*source - sourceBuffer` and `bytesLeftInBuffer`. -/
structure DecState where
  /-- offset of the read pointer in the buffer -/
  pos : Nat
  /-- `bytesLeftInBuffer` -/
  left : Nat
  deriving DecidableEq, Repr

namespace SerialType

/-- `serializedSize` of a scalar type, 0 for the others. -/
def scalarSize : SerialType → Nat
  | bool | char | i8 | u8 => 1
  | i16 | u16 | chunkPartType => 2
  | i32 | u32 => 4
  | i64 | u64 => 8
  | _ => 0

/-- Whether `std::less` compares values of the scalar type as signed (`char`
is signed on the platforms LizardFS builds for). -/
def signed : SerialType → Bool
  | char | i8 | i16 | i32 | i64 => true
  | _ => false

/-- The value of a scalar's bit pattern: two's complement for signed types. -/
def toInt (t : SerialType) (n : Nat) : Int :=
  if t.signed ∧ n ≥ 2 ^ (8 * t.scalarSize - 1) then (n : Int) - 2 ^ (8 * t.scalarSize) else n

/-- `std::lexicographical_compare` with the element order `lt`. -/
def lexLt (lt : SerialValue → SerialValue → Bool) : List SerialValue → List SerialValue → Bool
  | [], [] => false
  | [], _ :: _ => true
  | _ :: _, [] => false
  | x :: xs, y :: ys => lt x y || (!lt y x && lexLt lt xs ys)

/-- `char_traits<char>::compare`: strings compare bytewise as `unsigned char`. -/
def strLt : List Nat → List Nat → Bool
  | [], [] => false
  | [], _ :: _ => true
  | _ :: _, [] => false
  | x :: xs, y :: ys => x < y || (x == y && strLt xs ys)

/-- `std::less<std::pair<A, B>>`: lexicographic. -/
def pairLt (lta ltb : SerialValue → SerialValue → Bool) : SerialValue → SerialValue → Bool
  | .pair a₁ b₁, .pair a₂ b₂ => lta a₁ a₂ || (!lta a₂ a₁ && ltb b₁ b₂)
  | _, _ => false

/-- `std::less<T>` on decoded values of type `T`. For `std::unique_ptr` it
compares addresses, which the model does not have: it orders a null pointer
first and treats two owning pointers as equivalent. -/
def lt : SerialType → SerialValue → SerialValue → Bool
  | .string, .str a, .str b => strLt a b
  | .array _ t, .seq a, .seq b => lexLt (lt t) a b
  | .vector t, .seq a, .seq b => lexLt (lt t) a b
  | .smallVector t, .seq a, .seq b => lexLt (lt t) a b
  | .compactVector t, .seq a, .seq b => lexLt (lt t) a b
  | .set t, .seq a, .seq b => lexLt (lt t) a b
  | .flatSet t, .seq a, .seq b => lexLt (lt t) a b
  | .map k v, .seq a, .seq b => lexLt (pairLt (lt k) (lt v)) a b
  | .flatMap k v, .seq a, .seq b => lexLt (pairLt (lt k) (lt v)) a b
  | .pair ta tb, a, b => pairLt (lt ta) (lt tb) a b
  | .uniquePtr _, .ptr a, .ptr b => a.isNone && b.isSome
  | t, .num a, .num b => t.toInt a < t.toInt b
  | _, _, _ => false

end SerialType

/-- `std::set::insert`: keep the list sorted, and do nothing when an equivalent
element is already there. -/
def setInsert (lt : SerialValue → SerialValue → Bool) (x : SerialValue) :
    List SerialValue → List SerialValue
  | [] => [x]
  | y :: ys =>
    if lt x y then x :: y :: ys
    else if lt y x then y :: setInsert lt x ys
    else y :: ys

/-- `std::map::insert`: `setInsert` on the keys. -/
def mapInsert (ltKey : SerialValue → SerialValue → Bool) (x : SerialValue) :
    List SerialValue → List SerialValue :=
  let key : SerialValue → SerialValue := fun
    | .pair k _ => k
    | v => v
  setInsert (fun a b => ltKey (key a) (key b)) x

namespace Decode

/-- The `n` bytes at `pos`, or the first index past the end that reading them
touches. -/
def readBytes (b : List Nat) (pos n : Nat) : Except DecodeError (List Nat) :=
  if pos + n ≤ b.length then .ok ((b.drop pos).take n)
  else .error (.outOfBounds (max pos b.length))

/-- The big-endian value of a list of bytes. -/
def bigEndian (bytes : List Nat) : Nat := bytes.foldl (fun acc x => acc * 256 + x) 0

/-- `deserialize` of a `std::pair`: first, then second. -/
def pair (first second : DecState → Except DecodeError (SerialValue × DecState)) (st : DecState) :
    Except DecodeError (SerialValue × DecState) := do
  let (x, st) ← first st
  let (y, st) ← second st
  return (.pair x y, st)

/-- `verifySize` followed by the `getNbit` read of a scalar of `size` bytes. -/
def scalar (b : List Nat) (size : Nat) (st : DecState) : Except DecodeError (Nat × DecState) :=
  if st.left < size then .error (.incorrect "unexpected end of buffer") else do
  let bytes ← readBytes b st.pos size
  return (bigEndian bytes, ⟨st.pos + size, st.left - size⟩)

/-- Decode `n` elements one after the other. -/
def many (elem : DecState → Except DecodeError (SerialValue × DecState)) :
    Nat → DecState → Except DecodeError (List SerialValue × DecState)
  | 0, st => .ok ([], st)
  | n + 1, st => do
    let (x, st) ← elem st
    let (xs, st) ← many elem n st
    return (x :: xs, st)

/-- Decode `n` elements and `insert` each into a container starting empty. -/
def insertMany (ins : SerialValue → List SerialValue → List SerialValue)
    (elem : DecState → Except DecodeError (SerialValue × DecState)) :
    Nat → List SerialValue → DecState → Except DecodeError (List SerialValue × DecState)
  | 0, acc, st => .ok (acc, st)
  | n + 1, acc, st => do
    let (x, st) ← elem st
    insertMany ins elem n (ins x acc) st

/-- The element count of a container, with the check against
`kMaxDeserializedElementsCount` and its message. -/
def count (b : List Nat) (what : String) (st : DecState) : Except DecodeError (Nat × DecState) := do
  let (size, st) ← scalar b 4 st
  if size > kMaxDeserializedElementsCount then .error (.incorrect s!"untrustworthy {what} size")
  else return (size, st)

/-- `deserialize(source, bytesLeftInBuffer, std::string&)`: a 32-bit size (the
length plus the terminating NUL), the check of the NUL byte at `size - 1`
(computed in `uint32_t`), then the bytes before it. -/
def string (b : List Nat) (st : DecState) : Except DecodeError (SerialValue × DecState) := do
  let (size, st) ← scalar b 4 st
  if size > kMaxDeserializedElementsCount then .error (.incorrect "untrustworthy string size") else
  if st.left < size then .error (.incorrect "unexpected end of buffer") else
  let last := (size + 2 ^ 32 - 1) % 2 ^ 32
  let nul ← readBytes b (st.pos + last) 1
  if nul ≠ [0] then .error (.incorrect "deserialized string not null-terminated") else
  let bytes ← readBytes b st.pos last
  return (.str bytes, ⟨st.pos + size, st.left - size⟩)

end Decode

open Decode in
/-- `deserialize(source, bytesLeftInBuffer, T&)` into an empty (default
constructed) `T`. -/
def decode (b : List Nat) : SerialType → DecState → Except DecodeError (SerialValue × DecState)
  | .bool, st => do
    let (v, st) ← scalar b 1 st
    if v > 1 then .error (.incorrect "corrupted boolean value") else return (.num v, st)
  | .chunkPartType, st => do
    let (v, st) ← scalar b 2 st
    if ChunkPartType.isValid v then return (.num v, st)
    else .error (.incorrect s!"unknown chunk type id: {v}")
  | .string, st => string b st
  | .array n t, st => do
    let (xs, st) ← many (decode b t) n st
    return (.seq xs, st)
  | .pair ta tb, st => pair (decode b ta) (decode b tb) st
  | .uniquePtr t, st => do
    let (flag, st) ← scalar b 1 st
    if flag > 1 then .error (.incorrect "corrupted boolean value")
    else if flag = 1 then do
      let (x, st) ← decode b t st
      return (.ptr (some x), st)
    else return (.ptr none, st)
  | .vector t, st | .smallVector t, st | .flatSet t, st => do
    let (n, st) ← count b "vector" st
    let (xs, st) ← many (decode b t) n st
    return (.seq xs, st)
  | .compactVector t, st => do
    let (n, st) ← count b "compact_vector" st
    let (xs, st) ← many (decode b t) n st
    return (.seq xs, st)
  | .flatMap k v, st => do
    let (n, st) ← count b "vector" st
    let (xs, st) ← many (pair (decode b k) (decode b v)) n st
    return (.seq xs, st)
  | .set t, st => do
    let (n, st) ← count b "set" st
    let (xs, st) ← insertMany (setInsert (SerialType.lt t)) (decode b t) n [] st
    return (.seq xs, st)
  | .map k v, st => do
    let (n, st) ← count b "map" st
    let (xs, st) ← insertMany (mapInsert (SerialType.lt k)) (pair (decode b k) (decode b v)) n [] st
    return (.seq xs, st)
  | t, st => do
    let (v, st) ← scalar b t.scalarSize st
    return (.num v, st)

/-- `deserialize(sourceBuffer, sourceBufferSize, args...)`: decode the targets in
order; on success, the number of bytes not used. -/
def deserialize (b : List Nat) (ts : List SerialType) :
    Except DecodeError (List SerialValue × Nat) :=
  if b.length > kMaxDeserializedBytesCount then .error (.incorrect "too much data to deserialize")
  else do
    let (vs, st) ← Decode.many' ts ⟨0, b.length⟩
    return (vs, st.left)
where
  /-- The targets one after the other. -/
  Decode.many' : List SerialType → DecState → Except DecodeError (List SerialValue × DecState)
    | [], st => .ok ([], st)
    | t :: ts, st => do
      let (v, st) ← decode b t st
      let (vs, st) ← Decode.many' ts st
      return (v :: vs, st)

/-! ## Two buffers the decoder mishandles -/

/-- A string whose size field is 0 passes every check before the test of its
terminating NUL, which reads `(*source)[size - 1]` with `size - 1 = 2^32 - 1`
in `uint32_t`: 4 GiB past a 4-byte buffer. And a `flat_set<uint16_t>` is
accepted with its elements in the order of the bytes, 5 before 3, although a
`flat_set` is searched by binary search on sorted contents (the `std::set`
path sorts through `insert`). -/
theorem decode_zero_length_string_reads_past_buffer :
    deserialize [0, 0, 0, 0] [.string] = .error (.outOfBounds (4 + (2 ^ 32 - 1))) ∧
      deserialize [0, 0, 0, 2, 0, 5, 0, 3] [.flatSet .u16] = .ok ([.seq [.num 5, .num 3]], 0) :=
  ⟨rfl, rfl⟩

end LizardFs
