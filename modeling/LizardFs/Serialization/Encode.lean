import Mathlib
import LizardFs.Serialization.Decode

/-!
# Encoding: `serializedSize` and `serialize`

Model of the `serializedSize` and `serialize` overloads of
`src/common/serialization.h` for the types of `SerialType`, and of the
top-level `serialize(buffer, args...)`, which sizes the buffer by
`serializedSize(args...)` before it writes.

`serializedSize` returns a `uint32_t` and adds in `uint32_t`: `UInt32` here, so
its sums wrap as in the source. `serialize` writes bytes (`put8bit` …
`put64bit`, big-endian) and has no bound: its length is what is really
written. `serializedSize_eq` relates the two: the size is the written length
modulo `2 ^ 32`.

`SerialType.Admits t v` says that `v` is a value of `t` within the limits the
decoder checks: scalars in range, strings shorter than
`kMaxDeserializedElementsCount` bytes, containers with at most that many
elements, and sets and maps sorted strictly by `std::less`, in the order
`std::set` iterates them.
-/

namespace LizardFs

/-- `putNbit`: the low `k` bytes of `n`, most significant first. -/
def toBytes : Nat → Nat → List Nat
  | 0, _ => []
  | k + 1, n => toBytes k (n / 256) ++ [n % 256]

/-- The key of a map element. -/
def SerialValue.key : SerialValue → SerialValue
  | .pair k _ => k
  | v => v

/-- `serialize` of a `std::pair` element, from the encoders of its two sides. -/
def pairWith (f g : SerialValue → List Nat) : SerialValue → List Nat
  | .pair a b => f a ++ g b
  | _ => []

/-- `serializedSize` of a `std::pair` element. -/
def pairSizeWith (f g : SerialValue → UInt32) : SerialValue → UInt32
  | .pair a b => f a + g b
  | _ => 0

namespace SerialType

/-- `serialize(destination, value)` for a value of type `t`. -/
def serialize : SerialType → SerialValue → List Nat
  | .bool, .num n => toBytes 1 (if n = 0 then 0 else 1)
  | .string, .str bytes => toBytes 4 (bytes.length + 1) ++ bytes ++ [0]
  | .array _ t, .seq xs => (xs.map (serialize t)).flatten
  | .pair ta tb, .pair a b => serialize ta a ++ serialize tb b
  | .uniquePtr _, .ptr none => toBytes 1 0
  | .uniquePtr t, .ptr (some x) => toBytes 1 1 ++ serialize t x
  | .vector t, .seq xs | .smallVector t, .seq xs | .compactVector t, .seq xs | .set t, .seq xs
  | .flatSet t, .seq xs => toBytes 4 xs.length ++ (xs.map (serialize t)).flatten
  | .map k v, .seq xs | .flatMap k v, .seq xs =>
    toBytes 4 xs.length ++ (xs.map (pairWith (serialize k) (serialize v))).flatten
  | t, .num n => toBytes t.scalarSize n
  | _, _ => []

/-- `serializedSize(value)`, in `uint32_t`. -/
def serializedSize : SerialType → SerialValue → UInt32
  | .bool, .num _ => 1
  | .string, .str bytes => 4 + bytes.length.toUInt32 + 1
  | .array _ t, .seq xs => (xs.map (serializedSize t)).sum
  | .pair ta tb, .pair a b => serializedSize ta a + serializedSize tb b
  | .uniquePtr _, .ptr none => 1
  | .uniquePtr t, .ptr (some x) => 1 + serializedSize t x
  | .vector t, .seq xs | .smallVector t, .seq xs | .compactVector t, .seq xs | .set t, .seq xs
  | .flatSet t, .seq xs => 4 + (xs.map (serializedSize t)).sum
  | .map k v, .seq xs | .flatMap k v, .seq xs =>
    4 + (xs.map (pairSizeWith (serializedSize k) (serializedSize v))).sum
  | t, .num _ => t.scalarSize.toUInt32
  | _, _ => 0

/-- `v` is a value of type `t` that the decoder's limits admit. -/
def Admits : SerialType → SerialValue → Prop
  | .bool, .num n => n ≤ 1
  | .chunkPartType, .num n => n < 2 ^ 16 ∧ ChunkPartType.isValid n = true
  | .string, .str bytes => bytes.length < kMaxDeserializedElementsCount ∧ ∀ x ∈ bytes, x < 256
  | .array n t, .seq xs => xs.length = n ∧ ∀ x ∈ xs, Admits t x
  | .pair ta tb, .pair a b => Admits ta a ∧ Admits tb b
  | .uniquePtr _, .ptr none => True
  | .uniquePtr t, .ptr (some x) => Admits t x
  | .vector t, .seq xs | .smallVector t, .seq xs | .compactVector t, .seq xs | .flatSet t, .seq xs =>
    xs.length ≤ kMaxDeserializedElementsCount ∧ ∀ x ∈ xs, Admits t x
  | .set t, .seq xs =>
    xs.length ≤ kMaxDeserializedElementsCount ∧ (∀ x ∈ xs, Admits t x) ∧ xs.Pairwise fun a b => lt t a b
  | .flatMap k v, .seq xs =>
    xs.length ≤ kMaxDeserializedElementsCount ∧ ∀ x ∈ xs, ∃ a b, x = .pair a b ∧ Admits k a ∧ Admits v b
  | .map k v, .seq xs =>
    xs.length ≤ kMaxDeserializedElementsCount ∧ (∀ x ∈ xs, ∃ a b, x = .pair a b ∧ Admits k a ∧ Admits v b) ∧
      xs.Pairwise fun a b => lt k a.key b.key
  | t, .num n => 0 < t.scalarSize ∧ n < 2 ^ (8 * t.scalarSize)
  | _, _ => False

end SerialType

/-- `serializedSize(args...)`: the sum, in `uint32_t`. -/
def serializedSizeArgs (args : List (SerialType × SerialValue)) : UInt32 :=
  (args.map fun a => a.1.serializedSize a.2).sum

/-- `serialize(destination, args...)`: the arguments one after the other. -/
def serializeArgs (args : List (SerialType × SerialValue)) : List Nat :=
  (args.map fun a => a.1.serialize a.2).flatten

/-- `serialize(buffer, args...)`: the buffer is resized to `serializedSize(args...)`
and the arguments are written into it; `none` when they do not fill it exactly,
where the final `sassert` fails (after writing past the end if they are longer). -/
def serializeBuffer (args : List (SerialType × SerialValue)) : Option (List Nat) :=
  let bytes := serializeArgs args
  if bytes.length = (serializedSizeArgs args).toNat then some bytes else none

/-! ## The size is the written length modulo `2 ^ 32` -/

@[simp] theorem length_toBytes (k n : Nat) : (toBytes k n).length = k := by
  induction k generalizing n with
  | zero => rfl
  | succ k ih => simp [toBytes, ih]

theorem toUInt32_add (a b : Nat) : (a + b).toUInt32 = a.toUInt32 + b.toUInt32 := UInt32.ofNat_add a b

/-- A `uint32_t` sum of sizes, each the length of an encoding modulo `2 ^ 32`, is
the length of the concatenated encodings modulo `2 ^ 32`. -/
theorem sum_map_eq_length_flatten {α : Type} (xs : List α) (f : α → UInt32) (g : α → List Nat)
    (h : ∀ x, f x = (g x).length.toUInt32) : (xs.map f).sum = (xs.map g).flatten.length.toUInt32 := by
  induction xs with
  | nil => rfl
  | cons x xs ih =>
    simp only [List.map_cons, List.sum_cons, List.flatten_cons, List.length_append, ih, h, toUInt32_add]

namespace SerialType

/-- `serializedSize` computes, in `uint32_t`, the length of what `serialize`
writes. -/
theorem serializedSize_eq (t : SerialType) (v : SerialValue) :
    t.serializedSize v = (t.serialize v).length.toUInt32 := by
  induction t generalizing v with
  | map k w ihk ihw | flatMap k w ihk ihw =>
    -- a map element is a pair, whose size is the sum of the sizes of its key and value
    cases v <;> simp only [serializedSize, serialize, List.length_append, length_toBytes, toUInt32_add]
    all_goals try rfl
    congr 1
    refine sum_map_eq_length_flatten _ _ _ fun x => ?_
    cases x <;> simp only [pairSizeWith, pairWith, ihk, ihw, List.length_append, toUInt32_add] <;> rfl
  | vector t ih | smallVector t ih | compactVector t ih | set t ih | flatSet t ih =>
    cases v <;> simp only [serializedSize, serialize, List.length_append, length_toBytes, toUInt32_add]
    all_goals try rfl
    exact congrArg _ (sum_map_eq_length_flatten _ _ _ ih)
  | array n t ih =>
    cases v <;> simp only [serializedSize, serialize]
    all_goals try rfl
    exact sum_map_eq_length_flatten _ _ _ ih
  | pair ta tb iha ihb =>
    cases v <;> simp only [serializedSize, serialize, List.length_append, toUInt32_add, iha, ihb] <;> rfl
  | uniquePtr t ih =>
    cases v with
    | ptr x => cases x <;> simp only [serializedSize, serialize, List.length_append, toUInt32_add, ih] <;> rfl
    | _ => rfl
  | string =>
    cases v <;> simp only [serializedSize, serialize, List.length_append, toUInt32_add, length_toBytes] <;> rfl
  -- the scalars: as many bytes as the type's size
  | _ => cases v <;> rfl

end SerialType

/-- The arguments' size is their written length modulo `2 ^ 32`. -/
theorem serializedSizeArgs_eq (args : List (SerialType × SerialValue)) :
    serializedSizeArgs args = (serializeArgs args).length.toUInt32 :=
  sum_map_eq_length_flatten _ _ _ fun a => a.1.serializedSize_eq a.2

/-! ## A vector whose size wraps -/

/-- 65536 strings of 65531 zero bytes: each is written as 65536 bytes. -/
def wrappingStrings : SerialValue := .seq (List.replicate 65536 (.str (List.replicate 65531 0)))

theorem length_serialize_wrappingStrings :
    ((SerialType.vector .string).serialize wrappingStrings).length = 2 ^ 32 + 4 := by
  -- four bytes of count, then each string as four bytes of size, its bytes and a NUL
  have hlen : ((SerialType.vector .string).serialize wrappingStrings).length =
      4 + 65536 * (4 + 65531 + 1) := by
    simp only [wrappingStrings, SerialType.serialize, List.map_replicate, List.length_append,
      length_toBytes, List.length_flatten, List.sum_replicate_nat, List.length_replicate,
      List.length_cons, List.length_nil]
  exact hlen.trans rfl

/-- A `std::vector<std::string>` within every limit of the decoder (65536 elements,
strings of 65531 bytes) is written as `2 ^ 32 + 4` bytes, but `serializedSize`
adds in `uint32_t` and answers 4, far below 32 MiB; `serialize(buffer, v)` sizes
the buffer by it, writes past its end and fails its final `sassert`. -/
theorem serialized_size_wraps_below_written_length :
    (SerialType.vector .string).Admits wrappingStrings ∧
      serializedSizeArgs [(.vector .string, wrappingStrings)] = 4 ∧
      (serializeArgs [(.vector .string, wrappingStrings)]).length = 2 ^ 32 + 4 ∧
      serializeBuffer [(.vector .string, wrappingStrings)] = none := by
  have hlen : (serializeArgs [(.vector .string, wrappingStrings)]).length = 2 ^ 32 + 4 := by
    simp only [serializeArgs, List.map_cons, List.map_nil, List.flatten_cons, List.flatten_nil,
      List.append_nil, length_serialize_wrappingStrings]
  have hsize : serializedSizeArgs [(.vector .string, wrappingStrings)] = 4 := by
    rw [serializedSizeArgs_eq, hlen]
    rfl
  refine ⟨?_, hsize, hlen, ?_⟩
  · -- every element is the same string of zero bytes, within the limits
    refine ⟨?_, fun x hx => ?_⟩
    · show (List.replicate 65536 (SerialValue.str (List.replicate 65531 0))).length ≤ kMaxDeserializedElementsCount
      rw [List.length_replicate]
      decide
    · obtain rfl := (List.mem_replicate.mp hx).2
      refine ⟨?_, fun b hb => ?_⟩
      · rw [List.length_replicate]
        decide
      · rw [(List.mem_replicate.mp hb).2]
        decide
  · simp only [serializeBuffer, hlen, hsize]
    decide

end LizardFs
