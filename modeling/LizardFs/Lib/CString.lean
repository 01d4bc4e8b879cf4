import Mathlib

/-!
# C strings: `printf` numbers, `strtoul` and `%XX` escapes

A C string is modelled by its bytes before the terminating NUL (`Bytes`); a reader
that looks past the last byte sees the NUL (`peek`). On this model:

* `decimal` is `printf`'s `%u`, the digit loop
  `do *--p = '0' + v % 10; while ((v /= 10) != 0);` (`utoa`), and `strtoul` is C's
  `strtoul(s, &end, 10)`, with its leading blanks, its sign, its saturation at
  `ULONG_MAX` and its "no digit, nothing read". `strtoul_decimal`: a printed number
  followed by a byte that is not a digit is read back, with the rest after it.
* `percentEscape p` writes the bytes that `p` selects as `%` and two uppercase hex
  digits, and `percentDecode term room` is the loop that reads such a field up to
  the byte `term`, storing at most `room` bytes. `percentDecode_percentEscape`: an
  escaped field whose terminator is escaped is read back whole when it fits in
  `room`.
-/

namespace CString

/-- The bytes of a C string before its terminating NUL. -/
abbrev Bytes := List UInt8

/-- The byte of a character literal. -/
def ofChar (c : Char) : UInt8 := UInt8.ofNat c.toNat

theorem ofChar_eq (c : Char) : ofChar c = UInt8.ofNat c.toNat := rfl

/-- The bytes of an ASCII string literal. -/
def lit (s : String) : Bytes := s.toList.map ofChar

/-- `*p`: the byte at the cursor, the terminating NUL at the end. -/
def peek : Bytes → UInt8
  | [] => 0
  | b :: _ => b

@[simp] theorem peek_nil : peek [] = 0 := rfl

@[simp] theorem peek_cons (b : UInt8) (s : Bytes) : peek (b :: s) = b := rfl

/-- A byte array read as a C string (`strlen`, `std::string(const char*)`): the bytes
before the first NUL. -/
def cStr (s : Bytes) : Bytes := s.takeWhile fun b => b != 0

theorem cStr_of_not_mem {s : Bytes} (h : (0 : UInt8) ∉ s) : cStr s = s := by
  unfold cStr
  rw [List.takeWhile_eq_self_iff]
  intro b hb
  have hne : b ≠ 0 := fun hb0 => h (hb0 ▸ hb)
  simpa using hne

/-- Whether `l` starts `p ++ t` does not depend on `t` when `l` is no longer than `p`,
or does not go on from `p`. -/
theorem isPrefixOf_append {l p : Bytes} (h : l.length ≤ p.length ∨ ¬ p <+: l) (t : Bytes) :
    l.isPrefixOf (p ++ t) = l.isPrefixOf p := by
  rw [Bool.eq_iff_iff, List.isPrefixOf_iff_prefix, List.isPrefixOf_iff_prefix]
  constructor
  · intro hl
    rcases h with hlen | hnp
    · exact List.prefix_of_prefix_length_le hl (List.prefix_append p t) hlen
    · rcases List.prefix_or_prefix_of_prefix hl (List.prefix_append p t) with h | h
      · exact h
      · exact absurd h hnp
  · intro hl
    exact hl.trans (List.prefix_append p t)

theorem peek_append {p : Bytes} (hp : p ≠ []) (t : Bytes) : peek (p ++ t) = peek p := by
  obtain ⟨b, p', rfl⟩ := List.exists_cons_of_ne_nil hp
  rfl

/-! ## Decimal numbers -/

/-- `isdigit`. -/
def isDigit (b : UInt8) : Bool := 48 ≤ b.toNat && b.toNat ≤ 57

/-- `isspace` in the C locale: the blank and `\t` to `\r`. -/
def isSpace (b : UInt8) : Bool := b.toNat == 32 || (9 ≤ b.toNat && b.toNat ≤ 13)

/-- On character literals `simp` evaluates the tests by their codes. -/
@[simp] theorem isDigit_ofChar (c : Char) : isDigit (ofChar c) = (48 ≤ c.toNat % 256 && c.toNat % 256 ≤ 57) := by
  simp [isDigit, ofChar_eq, UInt8.toNat_ofNat']

@[simp] theorem ofChar_inj_iff (c d : Char) : ofChar c = ofChar d ↔ c.toNat % 256 = d.toNat % 256 := by
  constructor
  · intro h
    simpa [ofChar_eq, UInt8.toNat_ofNat'] using congrArg UInt8.toNat h
  · intro h
    exact UInt8.toNat.inj (by simpa [ofChar_eq, UInt8.toNat_ofNat'] using h)

@[simp] theorem ofChar_eq_zero_iff (c : Char) : ofChar c = 0 ↔ c.toNat % 256 = 0 := by
  rw [← UInt8.toNat_inj, ofChar_eq, UInt8.toNat_ofNat', UInt8.toNat_zero]

/-- The value of the digits `ds` read after the value `acc`. -/
def ofDigits (acc : Nat) (ds : Bytes) : Nat := ds.foldl (fun v b => v * 10 + (b.toNat - 48)) acc

@[simp] theorem ofDigits_nil (acc : Nat) : ofDigits acc [] = acc := rfl

theorem ofDigits_append (acc : Nat) (ds es : Bytes) : ofDigits acc (ds ++ es) = ofDigits (ofDigits acc ds) es :=
  List.foldl_append

/-- The byte `'0' + d` of the digit `d`. -/
def digitByte (d : Nat) : UInt8 := UInt8.ofNat (48 + d)

/-- The digit loop of `printf`'s `%u`: the digits of `v` go in front of `buf`, the
lowest first, `do *--p = '0' + v % 10; while ((v /= 10) != 0);`. `fuel` bounds the
rounds. -/
def utoa : Nat → Nat → Bytes → Bytes
  | 0, _, buf => buf
  | fuel + 1, v, buf =>
    if v / 10 = 0 then digitByte (v % 10) :: buf
    else utoa fuel (v / 10) (digitByte (v % 10) :: buf)

/-- `printf("%u", n)`: the loop takes fewer than `n + 1` rounds. -/
def decimal (n : Nat) : Bytes := utoa (n + 1) n []

theorem toNat_digitByte {d : Nat} (hd : d < 10) : (digitByte d).toNat = 48 + d := by
  rw [digitByte, UInt8.toNat_ofNat']
  omega

theorem isDigit_digitByte {d : Nat} (hd : d < 10) : isDigit (digitByte d) = true := by
  simp only [isDigit, toNat_digitByte hd, Bool.and_eq_true, decide_eq_true_eq]
  omega

/-- The digits the loop writes: in front of the buffer, not empty, digits, and of
value `v`. -/
theorem utoa_eq : ∀ (fuel v : Nat) (buf : Bytes), v < fuel →
    ∃ ds, utoa fuel v buf = ds ++ buf ∧ ds ≠ [] ∧ (∀ b ∈ ds, isDigit b = true) ∧
      ∀ acc, ofDigits acc ds = acc * 10 ^ ds.length + v
  | 0, _, _, hv => absurd hv (Nat.not_lt_zero _)
  | fuel + 1, v, buf, hv => by
    have hlt : v % 10 < 10 := Nat.mod_lt v (by decide)
    have hd := toNat_digitByte hlt
    by_cases hq : v / 10 = 0
    · -- the last round: one digit
      refine ⟨[digitByte (v % 10)], by simp only [utoa, hq, if_true, List.singleton_append], by simp,
        by simpa using isDigit_digitByte hlt, ?_⟩
      intro acc
      simp only [ofDigits, List.foldl_cons, List.foldl_nil, hd, List.length_singleton, pow_one]
      omega
    · -- the higher digits go in front of this one
      obtain ⟨ds, heq, -, hds, hval⟩ := utoa_eq fuel (v / 10) (digitByte (v % 10) :: buf) (by omega)
      refine ⟨ds ++ [digitByte (v % 10)], ?_, by simp, ?_, ?_⟩
      · simp only [utoa, hq, if_false, heq, List.append_assoc, List.singleton_append]
      · intro b hb
        rcases List.mem_append.mp hb with hb | hb
        · exact hds b hb
        · rw [List.mem_singleton.mp hb]
          exact isDigit_digitByte hlt
      · intro acc
        rw [ofDigits_append, hval]
        simp only [ofDigits, List.foldl_cons, List.foldl_nil, hd, List.length_append,
          List.length_singleton, pow_succ]
        have hdm := Nat.div_add_mod v 10
        calc (acc * 10 ^ ds.length + v / 10) * 10 + (48 + v % 10 - 48)
            = acc * (10 ^ ds.length * 10) + (10 * (v / 10) + v % 10) := by ring_nf; omega
          _ = acc * (10 ^ ds.length * 10) + v := by rw [hdm]

theorem decimal_spec (n : Nat) :
    decimal n ≠ [] ∧ (∀ b ∈ decimal n, isDigit b = true) ∧ ofDigits 0 (decimal n) = n := by
  obtain ⟨ds, heq, hne, hdig, hval⟩ := utoa_eq (n + 1) n [] (Nat.lt_succ_self n)
  rw [List.append_nil] at heq
  unfold decimal
  rw [heq, hval 0]
  exact ⟨hne, hdig, by simp⟩

/-- A value below `10 ^ (k + 1)` takes at most `k + 1` rounds of the loop. -/
theorem length_utoa_le : ∀ (fuel v : Nat) (buf : Bytes) (k : Nat), v < 10 ^ (k + 1) →
    (utoa fuel v buf).length ≤ buf.length + (k + 1)
  | 0, _, buf, _, _ => by simp only [utoa]; omega
  | fuel + 1, v, buf, k, hv => by
    by_cases hq : v / 10 = 0
    · simp only [utoa, hq, if_true, List.length_cons]
      omega
    · -- another round: the value lost a digit, so `k` had one to spare
      cases k with
      | zero => omega
      | succ k =>
        have hv' : v / 10 < 10 ^ (k + 1) := by
          rw [Nat.div_lt_iff_lt_mul (by decide)]
          simpa [pow_succ] using hv
        have ih := length_utoa_le fuel (v / 10) (digitByte (v % 10) :: buf) k hv'
        simp only [List.length_cons] at ih
        simp only [utoa, hq, if_false]
        omega

theorem length_decimal_le {n k : Nat} (h : n < 10 ^ (k + 1)) : (decimal n).length ≤ k + 1 := by
  simpa [decimal] using length_utoa_le (n + 1) n [] k h

theorem isSpace_of_isDigit {b : UInt8} (h : isDigit b = true) : isSpace b = false := by
  simp only [isDigit, Bool.and_eq_true, decide_eq_true_eq] at h
  simp only [isSpace, Bool.or_eq_false_iff, beq_eq_false_iff_ne, ne_eq, Bool.and_eq_false_imp,
    decide_eq_true_eq, decide_eq_false_iff_not, Nat.not_le]
  omega

/-- A list of digits followed by a byte that is not one. -/
theorem takeWhile_digits_append {ds rest : Bytes} (hds : ∀ b ∈ ds, isDigit b = true)
    (hr : isDigit (peek rest) = false) :
    (ds ++ rest).takeWhile isDigit = ds ∧ (ds ++ rest).dropWhile isDigit = rest := by
  have hr' : rest.takeWhile isDigit = [] ∧ rest.dropWhile isDigit = rest := by
    cases rest with
    | nil => exact ⟨rfl, rfl⟩
    | cons c cs =>
      have hc : isDigit c = false := hr
      simp [hc]
  rw [List.takeWhile_append_of_pos hds, List.dropWhile_append_of_pos hds, hr'.1, hr'.2,
    List.append_nil]
  exact ⟨rfl, rfl⟩

/-- `strtoul(s, &end, 10)` (and `strtoull`: `unsigned long` has 64 bits): skip the
blanks, take a sign, read the digits. A value past `ULONG_MAX` gives `ULONG_MAX`, a
minus sign negates modulo `2 ^ 64`, and without a digit nothing is read and `end`
is `s`. The value and the string at `end`. -/
def strtoul (s : Bytes) : UInt64 × Bytes :=
  let t := s.dropWhile isSpace
  let neg := peek t == ofChar '-'
  let u := if neg || peek t == ofChar '+' then t.tail else t
  let ds := u.takeWhile isDigit
  if ds = [] then (0, s)
  else
    let v := ofDigits 0 ds
    (if v < 2 ^ 64 then (if neg then -UInt64.ofNat v else UInt64.ofNat v) else UInt64.ofNat (2 ^ 64 - 1),
      u.dropWhile isDigit)

/-- **`strtoul` reads back what `%u` printed**, when the next byte is not a digit. -/
theorem strtoul_decimal {n : Nat} (hn : n < 2 ^ 64) {rest : Bytes} (hr : isDigit (peek rest) = false) :
    strtoul (decimal n ++ rest) = (UInt64.ofNat n, rest) := by
  obtain ⟨hne, hdig, hval⟩ := decimal_spec n
  obtain ⟨htake, hdrop⟩ := takeWhile_digits_append hdig hr
  obtain ⟨d, ds, hd⟩ := List.exists_cons_of_ne_nil hne
  have hd0 : isDigit d = true := hdig d (by simp [hd])
  -- the first byte is a digit: no blank, no sign
  have hsp : (decimal n ++ rest).dropWhile isSpace = decimal n ++ rest := by
    rw [hd, List.cons_append, List.dropWhile_cons, isSpace_of_isDigit hd0]
    rfl
  have hd' : peek (decimal n ++ rest) = d := by rw [hd, List.cons_append, peek_cons]
  simp only [isDigit, Bool.and_eq_true, decide_eq_true_eq] at hd0
  have hneg : (peek (decimal n ++ rest) == ofChar '-') = false := by
    rw [hd', beq_eq_false_iff_ne]
    rintro rfl
    simp [ofChar_eq] at hd0
  have hplus : (peek (decimal n ++ rest) == ofChar '+') = false := by
    rw [hd', beq_eq_false_iff_ne]
    rintro rfl
    simp [ofChar_eq] at hd0
  simp only [strtoul, hsp, hneg, hplus, Bool.or_self, Bool.false_eq_true, if_false, htake, hdrop, hne,
    hval, hn, if_true]

/-! ## `%XX` escapes -/

/-- The uppercase hexadecimal digit of `d`, for `d < 16`. -/
def hexDigit (d : Nat) : UInt8 := (lit "0123456789ABCDEF").getD d 0

/-- The value of an uppercase hexadecimal digit. -/
def hexValue (b : UInt8) : Option Nat :=
  if isDigit b then some (b.toNat - 48)
  else if 65 ≤ b.toNat ∧ b.toNat ≤ 70 then some (b.toNat - 55) else none

theorem hexValue_hexDigit {d : Nat} (hd : d < 16) : hexValue (hexDigit d) = some d := by
  interval_cases d <;> rfl

/-- One byte of an escaped field: `%` and its two hex digits when `p` selects it,
else the byte itself. -/
def escapeByte (p : UInt8 → Bool) (b : UInt8) : Bytes :=
  if p b then [ofChar '%', hexDigit (b.toNat / 16), hexDigit (b.toNat % 16)] else [b]

/-- A field with the bytes that `p` selects escaped. -/
def percentEscape (p : UInt8 → Bool) (s : Bytes) : Bytes := s.flatMap (escapeByte p)

@[simp] theorem percentEscape_nil (p : UInt8 → Bool) : percentEscape p [] = [] := rfl

theorem percentEscape_cons (p : UInt8 → Bool) (b : UInt8) (s : Bytes) :
    percentEscape p (b :: s) = escapeByte p b ++ percentEscape p s := List.flatMap_cons

/-- A field with no byte that `p` selects is written as it is. -/
theorem percentEscape_of_forall {p : UInt8 → Bool} {s : Bytes} (h : ∀ b ∈ s, p b = false) :
    percentEscape p s = s := by
  induction s with
  | nil => rfl
  | cons b s ih =>
    rw [percentEscape_cons, ih fun c hc => h c (List.mem_cons_of_mem b hc)]
    simp [escapeByte, h b List.mem_cons_self]

/-- The loop that reads an escaped field up to the byte `term`, storing at most `room`
bytes (`none`: no bound): a `%` is followed by two uppercase hex digits. The bytes
read and the rest of the input, which starts at the byte that stopped the loop.
Running out of input with room left fails. -/
def percentDecode (term : UInt8) : Option Nat → Bytes → Option (Bytes × Bytes)
  | room, [] => if room = some 0 then some ([], []) else none
  | room, c :: s =>
    if c = term ∨ room = some 0 then some ([], c :: s)
    else if c = ofChar '%' then
      match s with
      | h1 :: h2 :: s' =>
        match hexValue h1, hexValue h2 with
        | some a, some b =>
          (percentDecode term (room.map (· - 1)) s').map fun r => (UInt8.ofNat (a * 16 + b) :: r.1, r.2)
        | _, _ => none
      | _ => none
    else (percentDecode term (room.map (· - 1)) s).map fun r => (c :: r.1, r.2)

section Escape

variable {p : UInt8 → Bool} {term : UInt8}

/-! The loop's steps, one lemma each; later proofs use these and never unfold it. -/

/-- The loop stops at the terminator, and when no room is left. -/
theorem percentDecode_stop {room : Option Nat} {c : UInt8} (h : c = term ∨ room = some 0) (s : Bytes) :
    percentDecode term room (c :: s) = some ([], c :: s) := by
  match s with
  | [] => simp [percentDecode, h]
  | [_] => simp [percentDecode, h]
  | _ :: _ :: _ => simp [percentDecode, h]

/-- A `%` and two hex digits store the byte they stand for. -/
theorem percentDecode_escaped {room : Option Nat} (h : ¬ (ofChar '%' = term ∨ room = some 0))
    {h1 h2 : UInt8} {a b : Nat} (ha : hexValue h1 = some a) (hb : hexValue h2 = some b) (s : Bytes) :
    percentDecode term room (ofChar '%' :: h1 :: h2 :: s) =
      (percentDecode term (room.map (· - 1)) s).map fun r => (UInt8.ofNat (a * 16 + b) :: r.1, r.2) := by
  rw [percentDecode, if_neg h, if_pos rfl, ha, hb]

/-- Any other byte is stored as it is. -/
theorem percentDecode_plain {room : Option Nat} {c : UInt8} (h : ¬ (c = term ∨ room = some 0))
    (hc : c ≠ ofChar '%') (s : Bytes) :
    percentDecode term room (c :: s) = (percentDecode term (room.map (· - 1)) s).map fun r => (c :: r.1, r.2) := by
  match s with
  | [] => simp only [percentDecode, if_neg h, if_neg hc]
  | [_] => simp only [percentDecode, if_neg h, if_neg hc]
  | _ :: _ :: _ => simp only [percentDecode, if_neg h, if_neg hc]

/-- One escaped byte is read back, before the rest of the field. -/
theorem percentDecode_escapeByte (hterm : p term = true) (hpct : p (ofChar '%') = true)
    (hne : term ≠ ofChar '%') {room : Option Nat} (hroom : room ≠ some 0) (b : UInt8) (s : Bytes) :
    percentDecode term room (escapeByte p b ++ s) =
      (percentDecode term (room.map (· - 1)) s).map fun r => (b :: r.1, r.2) := by
  unfold escapeByte
  by_cases hb : p b = true
  · -- `%` and the two digits of `b`
    have hhi : b.toNat / 16 < 16 := by have := b.toNat_lt; omega
    have hlo : b.toNat % 16 < 16 := Nat.mod_lt _ (by decide)
    have hval : UInt8.ofNat (b.toNat / 16 * 16 + b.toNat % 16) = b := by
      rw [Nat.div_add_mod', UInt8.ofNat_toNat]
    rw [if_pos hb, List.cons_append, List.cons_append, List.cons_append, List.nil_append,
      percentDecode_escaped (by rintro (h | h) <;> [exact hne h.symm; exact hroom h])
        (hexValue_hexDigit hhi) (hexValue_hexDigit hlo), hval]
  · -- a byte that is not escaped is neither the terminator nor `%`
    have hbt : b ≠ term := by rintro rfl; exact hb hterm
    have hbp : b ≠ ofChar '%' := by rintro rfl; exact hb hpct
    rw [if_neg hb, List.cons_append, List.nil_append,
      percentDecode_plain (by rintro (h | h) <;> [exact hbt h; exact hroom h]) hbp]

/-- **An escaped field is read back whole**, when it fits in `room` and its
terminator is escaped; the rest starts at the terminator. -/
theorem percentDecode_percentEscape (hterm : p term = true) (hpct : p (ofChar '%') = true)
    (hne : term ≠ ofChar '%') (s : Bytes) (room : Option Nat) (hroom : ∀ k, room = some k → s.length ≤ k)
    (rest : Bytes) :
    percentDecode term room (percentEscape p s ++ term :: rest) = some (s, term :: rest) := by
  induction s generalizing room with
  | nil => exact percentDecode_stop (Or.inl rfl) rest
  | cons b s ih =>
    have h0 : room ≠ some 0 := fun h => by simpa using hroom 0 h
    have hroom' : ∀ k, room.map (· - 1) = some k → s.length ≤ k := by
      intro k hk
      obtain ⟨j, hj, rfl⟩ := Option.map_eq_some_iff.mp hk
      have := hroom j hj
      simp only [List.length_cons] at this
      omega
    rw [percentEscape_cons, List.append_assoc, percentDecode_escapeByte hterm hpct hne h0,
      ih _ hroom']
    rfl

end Escape

end CString
