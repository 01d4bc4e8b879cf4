import Mathlib
import LizardFs.Serialization.Encode

/-!
# What `serialize` writes, `deserialize` reads back

The decoder of `Serialization.Decode` run on the bytes `serialize` writes
returns the value written, for every value its limits admit, and stops right
after it. The proof is by induction on the type. Each case reads at the
offset where the encoding starts (`b.drop pos = enc v ++ rest`) with
`bytesLeftInBuffer` equal to what is left of the buffer: `ReadsBack` is that
statement for one decoder, and the lemmas for `many`, `insertMany` and `pair`
carry it from element decoders to containers.

A `std::set` or `std::map` is decoded through `insert`, which appends an element
greater than all before it: the elements come back in order because they were
written sorted and `std::less` is asymmetric on every modelled type
(`SerialType.lt_asymm`).
-/

namespace LizardFs

open Decode

/-! ## Bytes -/

theorem bigEndian_append (bs : List Nat) (x : Nat) : bigEndian (bs ++ [x]) = bigEndian bs * 256 + x := by
  simp only [bigEndian, List.foldl_append, List.foldl_cons, List.foldl_nil]

/-- `getNbit` reads back the low `k` bytes that `putNbit` wrote. -/
theorem bigEndian_toBytes (k n : Nat) : bigEndian (toBytes k n) = n % 256 ^ k := by
  induction k generalizing n with
  | zero => simp [toBytes, bigEndian, Nat.mod_one]
  | succ k ih =>
    rw [toBytes, bigEndian_append, ih, Nat.pow_succ, Nat.mul_comm (256 ^ k) 256, Nat.mod_mul]
    omega

/-- The bytes at an offset where a known list starts. -/
theorem readBytes_of_drop {b bs rest : List Nat} {pos : Nat} (hpos : pos ≤ b.length)
    (h : b.drop pos = bs ++ rest) : readBytes b pos bs.length = .ok bs := by
  have hlen : b.length - pos = bs.length + rest.length := by
    rw [← List.length_drop, h, List.length_append]
  unfold readBytes
  rw [if_pos (by omega), h, List.take_left]

/-- Past a known list, what follows it. -/
theorem drop_add_of_drop {b bs rest : List Nat} {pos : Nat} (h : b.drop pos = bs ++ rest) :
    b.drop (pos + bs.length) = rest := by
  rw [← List.drop_drop, h, List.drop_left]

theorem le_length_of_drop {b bs rest : List Nat} {pos : Nat} (hpos : pos ≤ b.length)
    (h : b.drop pos = bs ++ rest) : pos + bs.length ≤ b.length := by
  have hlen : b.length - pos = bs.length + rest.length := by
    rw [← List.length_drop, h, List.length_append]
  omega

/-- The scalar reader reads back `putNbit`'s bytes. -/
theorem scalar_toBytes {b rest : List Nat} {pos k n : Nat} (hpos : pos ≤ b.length)
    (h : b.drop pos = toBytes k n ++ rest) :
    scalar b k ⟨pos, b.length - pos⟩ = .ok (n % 256 ^ k, ⟨pos + k, b.length - (pos + k)⟩) := by
  have hle := le_length_of_drop hpos h
  have hr := readBytes_of_drop hpos h
  rw [length_toBytes] at hle hr
  unfold scalar
  rw [if_neg (by simp only; omega)]
  simp only [hr, bigEndian_toBytes, bind, Except.bind, pure, Except.pure]
  congr 3
  omega

/-- `Except`'s bind on a success runs the continuation. -/
theorem ok_bind {ε α β : Type} (a : α) (f : α → Except ε β) : (Except.ok a >>= f) = f a := rfl

theorem mod_pow_of_lt {k n : Nat} (h : n < 2 ^ (8 * k)) : n % 256 ^ k = n := by
  rw [Nat.pow_mul] at h
  exact Nat.mod_eq_of_lt h

/-- A number that fits in `k` bytes is read back as written. -/
theorem scalar_num {b rest : List Nat} {pos k n : Nat} (hn : n < 2 ^ (8 * k)) (hpos : pos ≤ b.length)
    (h : b.drop pos = toBytes k n ++ rest) :
    scalar b k ⟨pos, b.length - pos⟩ = .ok (n, ⟨pos + k, b.length - (pos + k)⟩) := by
  rw [scalar_toBytes hpos h, mod_pow_of_lt hn]

/-! ## Decoders that read back an encoding -/

/-- `dec` reads back every value `v` satisfying `P` at any offset where its
encoding starts, with `bytesLeftInBuffer` what is left of the buffer, and stops
right after the encoding. -/
def ReadsBack (dec : List Nat → DecState → Except DecodeError (SerialValue × DecState))
    (enc : SerialValue → List Nat) (P : SerialValue → Prop) : Prop :=
  ∀ v, P v → ∀ b pos rest, pos ≤ b.length → b.drop pos = enc v ++ rest →
    dec b ⟨pos, b.length - pos⟩ = .ok (v, ⟨pos + (enc v).length, b.length - (pos + (enc v).length)⟩)

section Containers

variable {dec : List Nat → DecState → Except DecodeError (SerialValue × DecState)}
  {enc : SerialValue → List Nat} {P : SerialValue → Prop}

/-- `many` reads back the elements one after the other. -/
theorem many_readsBack (h : ReadsBack dec enc P) (xs : List SerialValue) (hxs : ∀ x ∈ xs, P x)
    {b rest : List Nat} {pos : Nat} (hpos : pos ≤ b.length) (hb : b.drop pos = (xs.map enc).flatten ++ rest) :
    many (dec b) xs.length ⟨pos, b.length - pos⟩ =
      .ok (xs, ⟨pos + (xs.map enc).flatten.length, b.length - (pos + (xs.map enc).flatten.length)⟩) := by
  induction xs generalizing pos with
  | nil => simp [many]
  | cons x xs ih =>
    have hb' : b.drop pos = enc x ++ ((xs.map enc).flatten ++ rest) := by simpa using hb
    have hx := h x (hxs x (by simp)) b pos _ hpos hb'
    have hrest := ih (fun y hy => hxs y (by simp [hy])) (le_length_of_drop hpos hb') (drop_add_of_drop hb')
    simp only [List.length_cons, many, hx, hrest, bind, Except.bind, pure, Except.pure, List.map_cons,
      List.flatten_cons, List.length_append, Nat.add_assoc]

/-- A pair decoder reads back a pair: first the first side, then the second. -/
theorem pair_readsBack {dec₁ dec₂ : List Nat → DecState → Except DecodeError (SerialValue × DecState)}
    {enc₁ enc₂ : SerialValue → List Nat} {P₁ P₂ : SerialValue → Prop}
    (h₁ : ReadsBack dec₁ enc₁ P₁) (h₂ : ReadsBack dec₂ enc₂ P₂) :
    ReadsBack (fun b => pair (dec₁ b) (dec₂ b)) (pairWith enc₁ enc₂)
      (fun x => ∃ a c, x = .pair a c ∧ P₁ a ∧ P₂ c) := by
  rintro _ ⟨a, c, rfl, ha, hc⟩ b pos rest hpos hb
  have hb₁ : b.drop pos = enc₁ a ++ (enc₂ c ++ rest) := by simpa [pairWith] using hb
  have hb₂ := drop_add_of_drop hb₁
  have ha' := h₁ a ha b pos _ hpos hb₁
  have hc' := h₂ c hc b _ rest (le_length_of_drop hpos hb₁) hb₂
  simp only [pair, ha', hc', bind, Except.bind, pure, Except.pure, pairWith, List.length_append, Nat.add_assoc]

/-- `insertMany` reads back elements written in an order in which `ins` appends
each one to those before it. -/
theorem insertMany_readsBack (h : ReadsBack dec enc P) (ins : SerialValue → List SerialValue → List SerialValue)
    (R : SerialValue → SerialValue → Prop) (hins : ∀ acc x, (∀ y ∈ acc, R y x) → ins x acc = acc ++ [x])
    (xs : List SerialValue) (hxs : ∀ x ∈ xs, P x) (acc : List SerialValue) (hsorted : (acc ++ xs).Pairwise R)
    {b rest : List Nat} {pos : Nat} (hpos : pos ≤ b.length) (hb : b.drop pos = (xs.map enc).flatten ++ rest) :
    insertMany ins (dec b) xs.length acc ⟨pos, b.length - pos⟩ =
      .ok (acc ++ xs, ⟨pos + (xs.map enc).flatten.length, b.length - (pos + (xs.map enc).flatten.length)⟩) := by
  induction xs generalizing acc pos with
  | nil => simp [insertMany]
  | cons x xs ih =>
    have hb' : b.drop pos = enc x ++ ((xs.map enc).flatten ++ rest) := by simpa using hb
    have hx := h x (hxs x (by simp)) b pos _ hpos hb'
    -- the new element is above every element before it
    have happ : ins x acc = acc ++ [x] :=
      hins acc x fun y hy => (List.pairwise_append.mp hsorted).2.2 y hy x (by simp)
    have hrest := ih (fun y hy => hxs y (by simp [hy])) (acc ++ [x]) (by simpa using hsorted)
      (le_length_of_drop hpos hb') (drop_add_of_drop hb')
    simp only [List.length_cons, insertMany, hx, happ, hrest, bind, Except.bind, List.map_cons,
      List.flatten_cons, List.length_append, Nat.add_assoc, List.append_assoc, List.singleton_append]

end Containers

/-! ## `std::less` is asymmetric, so `insert` appends a greater element -/

theorem strLt_asymm : ∀ a b : List Nat, SerialType.strLt a b = true → SerialType.strLt b a = false
  | [], [], h => by simp [SerialType.strLt] at h
  | [], _ :: _, _ => rfl
  | _ :: _, [], h => by simp [SerialType.strLt] at h
  | x :: xs, y :: ys, h => by
    simp only [SerialType.strLt, Bool.or_eq_true, decide_eq_true_eq, Bool.and_eq_true, beq_iff_eq] at h ⊢
    rcases h with hlt | ⟨rfl, hxs⟩
    · simp only [Bool.or_eq_false_iff, decide_eq_false_iff_not, Bool.and_eq_false_imp, beq_iff_eq]
      omega
    · simp [strLt_asymm xs ys hxs]

section Asymm

variable {lt : SerialValue → SerialValue → Bool}

theorem lexLt_asymm (h : ∀ a b, lt a b = true → lt b a = false) :
    ∀ xs ys, SerialType.lexLt lt xs ys = true → SerialType.lexLt lt ys xs = false
  | [], [], hl => by simp [SerialType.lexLt] at hl
  | [], _ :: _, _ => rfl
  | _ :: _, [], hl => by simp [SerialType.lexLt] at hl
  | x :: xs, y :: ys, hl => by
    simp only [SerialType.lexLt, Bool.or_eq_true, Bool.and_eq_true, Bool.not_eq_true'] at hl
    rcases hl with hxy | ⟨hyx, hxs⟩
    · simp [SerialType.lexLt, h x y hxy, hxy]
    · simp [SerialType.lexLt, hyx, lexLt_asymm h xs ys hxs]

theorem pairLt_asymm {lta ltb : SerialValue → SerialValue → Bool} (ha : ∀ a b, lta a b = true → lta b a = false)
    (hb : ∀ a b, ltb a b = true → ltb b a = false) :
    ∀ x y, SerialType.pairLt lta ltb x y = true → SerialType.pairLt lta ltb y x = false := by
  intro x y hxy
  cases x <;> cases y <;> simp only [SerialType.pairLt, Bool.or_eq_true, Bool.and_eq_true,
    Bool.not_eq_true'] at hxy ⊢
  rename_i a₁ b₁ a₂ b₂
  rcases hxy with h₁ | ⟨h₂, h₃⟩
  · simp [ha a₁ a₂ h₁, h₁]
  · simp [h₂, hb b₁ b₂ h₃]

end Asymm

/-- `std::less` of every modelled type is asymmetric. -/
theorem SerialType.lt_asymm (t : SerialType) : ∀ a b, t.lt a b = true → t.lt b a = false := by
  induction t with
  | array n t ih | vector t ih | smallVector t ih | compactVector t ih | set t ih | flatSet t ih =>
    intro a b h
    cases a <;> cases b <;> simp only [SerialType.lt] at h ⊢
    all_goals first
      | exact lexLt_asymm ih _ _ h
      | (simp only [decide_eq_true_eq] at h; simp only [decide_eq_false_iff_not]; omega)
  | map k v ihk ihv | flatMap k v ihk ihv =>
    intro a b h
    cases a <;> cases b <;> simp only [SerialType.lt] at h ⊢
    all_goals first
      | exact lexLt_asymm (pairLt_asymm ihk ihv) _ _ h
      | (simp only [decide_eq_true_eq] at h; simp only [decide_eq_false_iff_not]; omega)
  | pair ta tb iha ihb => exact pairLt_asymm iha ihb
  | uniquePtr t ih =>
    intro a b h
    cases a <;> cases b <;> simp only [SerialType.lt] at h ⊢
    all_goals first
      | (simp only [Bool.and_eq_true, Option.isNone_iff_eq_none, Option.isSome_iff_exists] at h
         obtain ⟨rfl, _, rfl⟩ := h
         rfl)
      | (simp only [decide_eq_true_eq] at h; simp only [decide_eq_false_iff_not]; omega)
  | string =>
    intro a b h
    cases a <;> cases b <;> simp only [SerialType.lt] at h ⊢
    all_goals first
      | exact strLt_asymm _ _ h
      | (simp only [decide_eq_true_eq] at h; simp only [decide_eq_false_iff_not]; omega)
  -- the scalars compare their values as integers
  | _ =>
    intro a b h
    cases a <;> cases b <;> simp only [SerialType.lt] at h ⊢
    all_goals (simp only [decide_eq_true_eq] at h; simp only [decide_eq_false_iff_not]; omega)

/-- `std::set::insert` of an element above all others appends it. -/
theorem setInsert_of_lt {lt : SerialValue → SerialValue → Bool} {x : SerialValue} :
    ∀ acc : List SerialValue, (∀ y ∈ acc, lt y x = true ∧ lt x y = false) → setInsert lt x acc = acc ++ [x]
  | [], _ => rfl
  | y :: ys, h => by
    obtain ⟨hyx, hxy⟩ := h y (by simp)
    simp only [setInsert, hxy, hyx, Bool.false_eq_true, if_false, if_true, List.cons_append]
    rw [setInsert_of_lt ys fun z hz => h z (by simp [hz])]

/-- `std::map::insert` compares the keys. -/
theorem mapInsert_eq (ltKey : SerialValue → SerialValue → Bool) (x : SerialValue) (acc : List SerialValue) :
    mapInsert ltKey x acc = setInsert (fun a b => ltKey a.key b.key) x acc := by
  rfl

/-! ## The round trip -/

theorem kMax_eq : kMaxDeserializedElementsCount = 1000000 := rfl

/-- A container's count is read back. -/
theorem count_toBytes {b rest : List Nat} {pos n : Nat} (what : String) (hn : n ≤ kMaxDeserializedElementsCount)
    (hpos : pos ≤ b.length) (h : b.drop pos = toBytes 4 n ++ rest) :
    count b what ⟨pos, b.length - pos⟩ = .ok (n, ⟨pos + 4, b.length - (pos + 4)⟩) := by
  have hlt : n < 2 ^ (8 * 4) := by
    rw [kMax_eq] at hn
    omega
  unfold count
  rw [scalar_num hlt hpos h, ok_bind]
  dsimp only
  rw [if_neg (by omega)]
  rfl

/-- A number is a value of a scalar type only. -/
theorem SerialType.not_admits_num {t : SerialType} (ht : t.scalarSize = 0) (n : Nat) : ¬ t.Admits (.num n) := by
  cases t <;> simp_all [SerialType.Admits, SerialType.scalarSize]

/-! ### One lemma per kind of decoder -/

/-- A scalar type's reader: `getNbit` of its size. -/
theorem scalar_readsBack {b rest : List Nat} {pos k n : Nat} (hn : n < 2 ^ (8 * k)) (hpos : pos ≤ b.length)
    (h : b.drop pos = toBytes k n ++ rest) :
    (do
      let (v, st) ← scalar b k ⟨pos, b.length - pos⟩
      return (SerialValue.num v, st)) =
      (.ok (.num n, ⟨pos + (toBytes k n).length, b.length - (pos + (toBytes k n).length)⟩) :
        Except DecodeError (SerialValue × DecState)) := by
  rw [scalar_num hn hpos h, ok_bind, length_toBytes]
  rfl

theorem bool_readsBack : ReadsBack (fun b => decode b .bool) SerialType.bool.serialize SerialType.bool.Admits := by
  rintro (n | bytes | xs | ⟨a, c⟩ | (_ | x)) hv b pos rest hpos hb
  case num =>
    -- a `bool` admitted is 0 or 1, which `put8bit` writes as it is
    have hbit : (if n = 0 then 0 else 1) = n := by
      have : n ≤ 1 := hv
      split <;> omega
    have hb' : b.drop pos = toBytes 1 n ++ rest := by
      rw [← hbit]
      exact hb
    dsimp only
    rw [decode, scalar_num (by have : n ≤ 1 := hv; omega) hpos hb', ok_bind]
    dsimp only
    rw [if_neg (by have : n ≤ 1 := hv; omega)]
    rfl
  all_goals exact (hv : False).elim

theorem chunkPartType_readsBack :
    ReadsBack (fun b => decode b .chunkPartType) SerialType.chunkPartType.serialize
      SerialType.chunkPartType.Admits := by
  rintro (n | bytes | xs | ⟨a, c⟩ | (_ | x)) hv b pos rest hpos hb
  case num =>
    obtain ⟨hn, hvalid⟩ := hv
    dsimp only
    rw [decode, scalar_num (show n < 2 ^ (8 * 2) from hn) hpos hb, ok_bind]
    dsimp only
    rw [if_pos hvalid]
    rfl
  all_goals exact (hv : False).elim

/-- The string reader reads the size field (the length plus one), checks the NUL
at `size - 1` and returns the bytes before it. -/
theorem string_readsBack : ReadsBack string SerialType.string.serialize SerialType.string.Admits := by
  rintro (n | bytes | xs | ⟨a, c⟩ | (_ | x)) hv b pos rest hpos hb
  case str =>
    obtain ⟨hl, -⟩ := hv
    simp only [SerialType.serialize, List.append_assoc] at hb
    -- the size field, the bytes, then the terminating NUL
    have hb₁ := drop_add_of_drop hb
    have hpos₁ := le_length_of_drop hpos hb
    rw [length_toBytes] at hb₁ hpos₁
    have hb₂ := drop_add_of_drop hb₁
    have hpos₂ := le_length_of_drop hpos₁ hb₁
    have hnul := readBytes_of_drop hpos₂ hb₂
    have hbytes := readBytes_of_drop hpos₁ hb₁
    have hend := le_length_of_drop hpos₂ hb₂
    simp only [List.length_singleton] at hnul hend
    have hsize : bytes.length + 1 < 2 ^ (8 * 4) := by
      rw [kMax_eq] at hl
      omega
    -- `size - 1` in `uint32_t` does not wrap: it is the length
    have hlast : (bytes.length + 1 + 2 ^ 32 - 1) % 2 ^ 32 = bytes.length := by
      rw [kMax_eq] at hl
      omega
    have hlen : (SerialType.string.serialize (.str bytes)).length = 4 + (bytes.length + 1) := by
      simp only [SerialType.serialize, List.length_append, length_toBytes, List.length_singleton]
      omega
    unfold string
    rw [scalar_num hsize hpos hb, ok_bind]
    dsimp only
    rw [if_neg (by omega), if_neg (by omega), hlast, hnul, ok_bind, if_neg (by simp), hbytes, ok_bind, hlen,
      Nat.sub_sub, ← Nat.add_assoc pos 4]
    rfl
  case num => exact absurd hv (SerialType.not_admits_num rfl n)
  all_goals exact (hv : False).elim

section Containers

variable {dec : List Nat → DecState → Except DecodeError (SerialValue × DecState)}
  {enc : SerialValue → List Nat} {P : SerialValue → Prop}

/-- A container of `xs`: the count, then the elements one after the other. -/
theorem counted_readsBack (what : String) (h : ReadsBack dec enc P) {xs : List SerialValue}
    (hn : xs.length ≤ kMaxDeserializedElementsCount) (hxs : ∀ x ∈ xs, P x) {b rest : List Nat} {pos : Nat}
    (hpos : pos ≤ b.length) (hb : b.drop pos = (toBytes 4 xs.length ++ (xs.map enc).flatten) ++ rest) :
    (do
      let (n, st) ← count b what ⟨pos, b.length - pos⟩
      let (ys, st) ← many (dec b) n st
      return (SerialValue.seq ys, st)) =
      (.ok (.seq xs, ⟨pos + (toBytes 4 xs.length ++ (xs.map enc).flatten).length,
        b.length - (pos + (toBytes 4 xs.length ++ (xs.map enc).flatten).length)⟩) :
        Except DecodeError (SerialValue × DecState)) := by
  rw [List.append_assoc] at hb
  have hb₁ := drop_add_of_drop hb
  have hpos₁ := le_length_of_drop hpos hb
  rw [length_toBytes] at hb₁ hpos₁
  rw [count_toBytes what hn hpos hb, ok_bind]
  dsimp only
  rw [many_readsBack h xs hxs hpos₁ hb₁, ok_bind, List.length_append, length_toBytes, Nat.add_assoc]
  rfl

/-- A `std::set` or `std::map` of `xs`, written in an order in which `ins`
appends each element to those before it. -/
theorem countedInsert_readsBack (what : String) (h : ReadsBack dec enc P)
    (ins : SerialValue → List SerialValue → List SerialValue) (R : SerialValue → SerialValue → Prop)
    (hins : ∀ acc x, (∀ y ∈ acc, R y x) → ins x acc = acc ++ [x]) {xs : List SerialValue}
    (hn : xs.length ≤ kMaxDeserializedElementsCount) (hxs : ∀ x ∈ xs, P x) (hsorted : xs.Pairwise R)
    {b rest : List Nat} {pos : Nat}
    (hpos : pos ≤ b.length) (hb : b.drop pos = (toBytes 4 xs.length ++ (xs.map enc).flatten) ++ rest) :
    (do
      let (n, st) ← count b what ⟨pos, b.length - pos⟩
      let (ys, st) ← insertMany ins (dec b) n [] st
      return (SerialValue.seq ys, st)) =
      (.ok (.seq xs, ⟨pos + (toBytes 4 xs.length ++ (xs.map enc).flatten).length,
        b.length - (pos + (toBytes 4 xs.length ++ (xs.map enc).flatten).length)⟩) :
        Except DecodeError (SerialValue × DecState)) := by
  rw [List.append_assoc] at hb
  have hb₁ := drop_add_of_drop hb
  have hpos₁ := le_length_of_drop hpos hb
  rw [length_toBytes] at hb₁ hpos₁
  rw [count_toBytes what hn hpos hb, ok_bind]
  dsimp only
  rw [insertMany_readsBack h ins R hins xs hxs [] (by rwa [List.nil_append]) hpos₁ hb₁, ok_bind,
    List.nil_append, List.length_append, length_toBytes, Nat.add_assoc]
  rfl

end Containers

/-- `std::set<T>::insert` appends an element above all before it. -/
theorem setInsert_appends (t : SerialType) (acc : List SerialValue) (x : SerialValue)
    (h : ∀ y ∈ acc, t.lt y x = true) : setInsert t.lt x acc = acc ++ [x] :=
  setInsert_of_lt acc fun y hy => ⟨h y hy, t.lt_asymm y x (h y hy)⟩

/-- `std::map<K, V>::insert` appends an element whose key is above all before it. -/
theorem mapInsert_appends (k : SerialType) (acc : List SerialValue) (x : SerialValue)
    (h : ∀ y ∈ acc, k.lt y.key x.key = true) : mapInsert k.lt x acc = acc ++ [x] := by
  rw [mapInsert_eq]
  exact setInsert_of_lt acc fun y hy => ⟨h y hy, k.lt_asymm _ _ (h y hy)⟩

/-! ### The induction on the type -/

/-- The decoder of every type reads back every value its limits admit. -/
theorem decode_readsBack (t : SerialType) : ReadsBack (fun b => decode b t) t.serialize t.Admits := by
  induction t with
  | bool => exact bool_readsBack
  | chunkPartType => exact chunkPartType_readsBack
  | string => exact string_readsBack
  | array n t ih =>
    rintro (m | bytes | xs | ⟨a, c⟩ | (_ | x)) hv b pos rest hpos hb
    case seq =>
      -- an array has no count: exactly `n` elements follow
      obtain ⟨rfl, hxs⟩ := hv
      dsimp only
      rw [decode, many_readsBack ih xs hxs hpos hb, ok_bind]
      rfl
    case num => exact absurd hv (SerialType.not_admits_num rfl m)
    all_goals exact (hv : False).elim
  | pair ta tb iha ihb =>
    rintro (m | bytes | xs | ⟨a, c⟩ | (_ | x)) hv b pos rest hpos hb
    case pair => exact pair_readsBack iha ihb (.pair a c) ⟨a, c, rfl, hv⟩ b pos rest hpos hb
    case num => exact absurd hv (SerialType.not_admits_num rfl m)
    all_goals exact (hv : False).elim
  | uniquePtr t ih =>
    rintro (m | bytes | xs | ⟨a, c⟩ | (_ | x)) hv b pos rest hpos hb
    case ptr.none =>
      -- a null pointer is its flag byte 0
      dsimp only
      rw [decode, scalar_num (by decide) hpos hb, ok_bind]
      dsimp only
      rw [if_neg (by omega), if_neg (by omega)]
      rfl
    case ptr.some =>
      -- an owning pointer is the flag byte 1, then the pointee
      simp only [SerialType.serialize, List.append_assoc] at hb
      have hb₁ := drop_add_of_drop hb
      have hpos₁ := le_length_of_drop hpos hb
      rw [length_toBytes] at hb₁ hpos₁
      have hlen : ((SerialType.uniquePtr t).serialize (.ptr (some x))).length = 1 + (t.serialize x).length := by
        simp only [SerialType.serialize, List.length_append, length_toBytes]
      dsimp only
      rw [decode, scalar_num (by decide) hpos hb, ok_bind]
      dsimp only
      have hx := ih x hv b (pos + 1) rest hpos₁ hb₁
      dsimp only at hx
      rw [if_neg (by omega), if_pos rfl, hx, ok_bind, hlen, ← Nat.add_assoc]
      rfl
    case num => exact absurd hv (SerialType.not_admits_num rfl m)
    all_goals exact (hv : False).elim
  | vector t ih | smallVector t ih | flatSet t ih =>
    rintro (m | bytes | xs | ⟨a, c⟩ | (_ | x)) hv b pos rest hpos hb
    case seq => exact counted_readsBack "vector" ih hv.1 hv.2 hpos hb
    case num => exact absurd hv (SerialType.not_admits_num rfl m)
    all_goals exact (hv : False).elim
  | compactVector t ih =>
    rintro (m | bytes | xs | ⟨a, c⟩ | (_ | x)) hv b pos rest hpos hb
    case seq => exact counted_readsBack "compact_vector" ih hv.1 hv.2 hpos hb
    case num => exact absurd hv (SerialType.not_admits_num rfl m)
    all_goals exact (hv : False).elim
  | flatMap k w ihk ihw =>
    rintro (m | bytes | xs | ⟨a, c⟩ | (_ | x)) hv b pos rest hpos hb
    case seq => exact counted_readsBack "vector" (pair_readsBack ihk ihw) hv.1 hv.2 hpos hb
    case num => exact absurd hv (SerialType.not_admits_num rfl m)
    all_goals exact (hv : False).elim
  | set t ih =>
    rintro (m | bytes | xs | ⟨a, c⟩ | (_ | x)) hv b pos rest hpos hb
    case seq =>
      -- the elements were written in the set's order, so each `insert` appends
      obtain ⟨hn, hxs, hsorted⟩ := hv
      exact countedInsert_readsBack "set" ih (setInsert t.lt) (fun a b => t.lt a b = true)
        (setInsert_appends t) hn hxs hsorted hpos hb
    case num => exact absurd hv (SerialType.not_admits_num rfl m)
    all_goals exact (hv : False).elim
  | map k w ihk ihw =>
    rintro (m | bytes | xs | ⟨a, c⟩ | (_ | x)) hv b pos rest hpos hb
    case seq =>
      obtain ⟨hn, hxs, hsorted⟩ := hv
      exact countedInsert_readsBack "map" (pair_readsBack ihk ihw) (mapInsert k.lt)
        (fun a b => k.lt a.key b.key = true) (mapInsert_appends k) hn hxs hsorted hpos hb
    case num => exact absurd hv (SerialType.not_admits_num rfl m)
    all_goals exact (hv : False).elim
  -- the other scalars: `getNbit` of the type's size, in the last clause of `decode`
  | _ =>
    rintro (m | bytes | xs | ⟨a, c⟩ | (_ | x)) hv b pos rest hpos hb
    case num => exact scalar_readsBack hv.2 hpos hb
    all_goals exact (hv : False).elim

/-- The targets of `deserialize` are read back one after the other. -/
theorem many'_readsBack (args : List (SerialType × SerialValue)) (hargs : ∀ a ∈ args, a.1.Admits a.2)
    {b rest : List Nat} {pos : Nat} (hpos : pos ≤ b.length) (hb : b.drop pos = serializeArgs args ++ rest) :
    deserialize.Decode.many' b (args.map Prod.fst) ⟨pos, b.length - pos⟩ =
      .ok (args.map Prod.snd, ⟨pos + (serializeArgs args).length, b.length - (pos + (serializeArgs args).length)⟩) := by
  induction args generalizing pos with
  | nil => rfl
  | cons a args ih =>
    have hb' : b.drop pos = a.1.serialize a.2 ++ (serializeArgs args ++ rest) := by
      simpa [serializeArgs] using hb
    have ha := decode_readsBack a.1 a.2 (hargs a (by simp)) b pos _ hpos hb'
    dsimp only at ha
    have hrest := ih (fun x hx => hargs x (by simp [hx])) (le_length_of_drop hpos hb') (drop_add_of_drop hb')
    have hlen : (serializeArgs (a :: args)).length = (a.1.serialize a.2).length + (serializeArgs args).length := by
      simp [serializeArgs]
    rw [List.map_cons, List.map_cons, deserialize.Decode.many', ha, ok_bind]
    dsimp only
    rw [hrest, ok_bind, hlen, ← Nat.add_assoc]
    rfl

/-- What `serialize(buffer, args...)` writes, `deserialize` reads back: for
values within the decoder's limits whose encoding, followed by any `s`, fits in
32 MiB, the buffer is exactly `serializedSize(args...)` bytes long, and decoding
it followed by `s` into empty targets returns the values and `|s|` unused bytes. -/
theorem serialize_deserialize_roundtrip (args : List (SerialType × SerialValue))
    (hargs : ∀ a ∈ args, a.1.Admits a.2) (s : List Nat)
    (hs : (serializeArgs args).length + s.length ≤ kMaxDeserializedBytesCount) :
    (serializedSizeArgs args).toNat = (serializeArgs args).length ∧
      serializeBuffer args = some (serializeArgs args) ∧
      deserialize (serializeArgs args ++ s) (args.map Prod.fst) = .ok (args.map Prod.snd, s.length) := by
  -- 32 MiB is below `2 ^ 32`: the `uint32_t` size does not wrap
  have hsize : (serializedSizeArgs args).toNat = (serializeArgs args).length := by
    rw [serializedSizeArgs_eq, Nat.toUInt32]
    exact UInt32.toNat_ofNat_of_lt' (by unfold kMaxDeserializedBytesCount at hs; unfold UInt32.size; omega)
  refine ⟨hsize, by simp [serializeBuffer, hsize], ?_⟩
  have hlen : (serializeArgs args ++ s).length ≤ kMaxDeserializedBytesCount := by
    rw [List.length_append]
    exact hs
  -- the targets start at offset 0, and `s` follows them
  have hstart : (serializeArgs args ++ s).drop 0 = serializeArgs args ++ s := List.drop_zero
  have hread := many'_readsBack args hargs (Nat.zero_le _) hstart
  rw [Nat.sub_zero, Nat.zero_add] at hread
  unfold deserialize
  rw [if_neg (by omega), hread, ok_bind]
  dsimp only
  rw [List.length_append, Nat.add_sub_cancel_left]
  rfl

/-- A string, a `std::set<uint16_t>` and an owning `std::unique_ptr<bool>`. -/
def sampleArgs : List (SerialType × SerialValue) :=
  [(.string, .str [104, 105]), (.set .u16, .seq [.num 3, .num 5]), (.uniquePtr .bool, .ptr (some (.num 1)))]

theorem sampleArgs_roundtrip :
    (∀ a ∈ sampleArgs, a.1.Admits a.2) ∧
      (serializeArgs sampleArgs).length + [7].length ≤ kMaxDeserializedBytesCount ∧
      ((serializedSizeArgs sampleArgs).toNat = (serializeArgs sampleArgs).length ∧
        serializeBuffer sampleArgs = some (serializeArgs sampleArgs) ∧
        deserialize (serializeArgs sampleArgs ++ [7]) (sampleArgs.map Prod.fst) =
          .ok (sampleArgs.map Prod.snd, [7].length)) := by
  have hargs : ∀ a ∈ sampleArgs, a.1.Admits a.2 := by
    simp [sampleArgs, SerialType.Admits, SerialType.scalarSize, SerialType.lt, SerialType.toInt,
      SerialType.signed, kMaxDeserializedElementsCount]
  have hs : (serializeArgs sampleArgs).length + [7].length ≤ kMaxDeserializedBytesCount := by decide
  exact ⟨hargs, hs, serialize_deserialize_roundtrip sampleArgs hargs [7] hs⟩

end LizardFs
