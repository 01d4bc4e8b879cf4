import Mathlib.Data.List.Basic

/-!
# Decimal numerals and a bounded digit scanner

A C parser that reads a number digit by digit,

    while (*s >= '0' && *s <= '9') { v *= 10; v += *s - '0'; s++; if (v > bound) fail; }

checks the bound after every digit. The value only grows along the digits, so the
checks together say no more than that the whole numeral is at most `bound`
(`scanDigits_append`); and whatever the loop accepts is a digit string followed by
a character that is not a digit (`scanDigits_sound`).

`Numeral bound` is a non-empty digit string of value at most `bound`; leading zeros
are allowed, as the loop allows them.
-/

namespace Decimal

/-- The value of a digit character. -/
def digitVal (c : Char) : Nat := c.toNat - '0'.toNat

/-- The value of the digits `ds` read after the value `acc`. -/
def foldDigits (acc : Nat) (ds : List Char) : Nat :=
  ds.foldl (fun v c => v * 10 + digitVal c) acc

/-- The value of a digit string. -/
def value (ds : List Char) : Nat := foldDigits 0 ds

/-- Whether a string starts with a digit. -/
def startsWithDigit : List Char → Bool
  | c :: _ => c.isDigit
  | [] => false

/-- The scanning loop: read digits into `acc` while they last and fail as soon as
the value exceeds `bound`; return the value and the rest of the string. -/
def scanDigits (bound : Nat) : Nat → List Char → Option (Nat × List Char)
  | acc, [] => some (acc, [])
  | acc, c :: cs =>
    if c.isDigit then
      if acc * 10 + digitVal c > bound then none
      else scanDigits bound (acc * 10 + digitVal c) cs
    else some (acc, c :: cs)

/-- A decimal numeral of value at most `bound`. -/
structure Numeral (bound : Nat) where
  digits : List Char
  ne_nil : digits ≠ []
  all_digits : ∀ c ∈ digits, c.isDigit = true
  value_le : value digits ≤ bound

@[simp] theorem foldDigits_nil (acc : Nat) : foldDigits acc [] = acc := rfl

@[simp] theorem foldDigits_cons (acc : Nat) (c : Char) (ds : List Char) :
    foldDigits acc (c :: ds) = foldDigits (acc * 10 + digitVal c) ds :=
  List.foldl_cons ..

/-- The value never drops as digits are read. -/
theorem le_foldDigits (acc : Nat) (ds : List Char) : acc ≤ foldDigits acc ds := by
  induction ds generalizing acc with
  | nil => exact Nat.le_refl acc
  | cons c ds ih =>
    calc acc ≤ acc * 10 + digitVal c := by omega
      _ ≤ foldDigits (acc * 10 + digitVal c) ds := ih _

@[simp] theorem startsWithDigit_append_of_ne_nil {ds : List Char} (h : ds ≠ []) (es : List Char) :
    startsWithDigit (ds ++ es) = startsWithDigit ds := by
  cases ds with
  | nil => exact absurd rfl h
  | cons c ds => rfl

/-- Scanning a digit string followed by a non-digit: the per-digit checks reduce to
one check of the whole value. -/
theorem scanDigits_append {bound acc : Nat} {ds rest : List Char}
    (hds : ∀ c ∈ ds, c.isDigit = true) (hrest : startsWithDigit rest = false)
    (hacc : acc ≤ bound) :
    scanDigits bound acc (ds ++ rest) =
      if foldDigits acc ds ≤ bound then some (foldDigits acc ds, rest) else none := by
  induction ds generalizing acc with
  | nil =>
    rw [List.nil_append, foldDigits_nil, if_pos hacc]
    cases rest with
    | nil => rfl
    | cons c cs =>
      have hc : c.isDigit = false := hrest
      simp [scanDigits, hc]
  | cons c ds ih =>
    have hc : c.isDigit = true := hds c (List.mem_cons_self ..)
    have hds' : ∀ d ∈ ds, d.isDigit = true := fun d hd => hds d (List.mem_cons_of_mem _ hd)
    simp only [List.cons_append, scanDigits, hc, if_true, foldDigits_cons]
    by_cases hover : acc * 10 + digitVal c > bound
    · -- the first check already fails, and the whole value is larger still
      have hgt : ¬ foldDigits (acc * 10 + digitVal c) ds ≤ bound := by
        have := le_foldDigits (acc * 10 + digitVal c) ds
        omega
      rw [if_pos hover, if_neg hgt]
    · rw [if_neg hover]
      exact ih hds' (by omega)

/-- What the loop accepts: digits `ds` followed by a rest that does not start with a
digit, with the value of `ds` read after `acc`. -/
theorem scanDigits_sound {bound acc v : Nat} {s rest : List Char}
    (h : scanDigits bound acc s = some (v, rest)) :
    ∃ ds, s = ds ++ rest ∧ (∀ c ∈ ds, c.isDigit = true) ∧ startsWithDigit rest = false ∧
      v = foldDigits acc ds := by
  induction s generalizing acc with
  | nil =>
    simp only [scanDigits, Option.some.injEq, Prod.mk.injEq] at h
    obtain ⟨rfl, rfl⟩ := h
    exact ⟨[], rfl, by simp, rfl, rfl⟩
  | cons c cs ih =>
    by_cases hc : c.isDigit = true
    · simp only [scanDigits, hc, if_true] at h
      by_cases hover : acc * 10 + digitVal c > bound
      · simp [hover] at h
      · rw [if_neg hover] at h
        obtain ⟨ds, rfl, hds, hrest, rfl⟩ := ih h
        refine ⟨c :: ds, rfl, ?_, hrest, rfl⟩
        intro d hd
        rcases List.mem_cons.mp hd with rfl | hd
        · exact hc
        · exact hds d hd
    · simp only [scanDigits, hc] at h
      simp only [Bool.false_eq_true, if_false, Option.some.injEq, Prod.mk.injEq] at h
      obtain ⟨rfl, rfl⟩ := h
      exact ⟨[], rfl, by simp, by simpa [startsWithDigit] using hc, rfl⟩

namespace Numeral

variable {b : Nat}

/-- A numeral starts with a digit. -/
theorem startsWithDigit_digits (n : Numeral b) : startsWithDigit n.digits = true := by
  obtain ⟨ds, hne, hall, -⟩ := n
  cases ds with
  | nil => exact absurd rfl hne
  | cons c ds => exact hall c (List.mem_cons_self ..)

/-- A numeral whose bound is within the scanner's bound is read back whole. -/
theorem scan {bound : Nat} (n : Numeral b) (hb : b ≤ bound) {rest : List Char}
    (hrest : startsWithDigit rest = false) :
    scanDigits bound 0 (n.digits ++ rest) = some (value n.digits, rest) := by
  have hle : foldDigits 0 n.digits ≤ bound := Nat.le_trans n.value_le hb
  rw [scanDigits_append n.all_digits hrest (Nat.zero_le _), if_pos hle]
  rfl

end Numeral

end Decimal
