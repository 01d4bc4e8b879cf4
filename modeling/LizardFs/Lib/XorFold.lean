import Mathlib.Logic.Function.Basic

/-!
# XOR checksums kept up to date incrementally

A checksum over the keys `0 .. n - 1` of a table is the XOR of one 64-bit value per
key. Because XOR is its own inverse, a program can keep such a checksum current
without recomputing it: when the value of one key changes from `old` to `new`, it
XORs the checksum with `old` and with `new`. This module proves that this is
exact:

* `upTo f n` — the XOR of `f 0, …, f (n - 1)`;
* `upTo_congr` — it only depends on `f` below `n`;
* `upTo_update` — changing `f` at one key below `n` changes the checksum by
  `old ^^^ new`; `upTo_update_of_le` — a key at or above `n` does not count.
-/

namespace XorFold

/-- The XOR of `f i` for the keys `i < n`. -/
def upTo (f : Nat → UInt64) : Nat → UInt64
  | 0 => 0
  | n + 1 => upTo f n ^^^ f n

variable {f g : Nat → UInt64}

@[simp] theorem upTo_zero : upTo f 0 = 0 := rfl

@[simp] theorem upTo_succ (n : Nat) : upTo f (n + 1) = upTo f n ^^^ f n := rfl

/-- Two tables that agree below `n` have the same checksum over `n`. -/
theorem upTo_congr {n : Nat} (h : ∀ i < n, f i = g i) : upTo f n = upTo g n := by
  induction n with
  | zero => rfl
  | succ n ih =>
    rw [upTo_succ, upTo_succ, ih fun i hi => h i (by omega), h n (by omega)]

/-- A key at or above `n` is not part of the checksum over `n`. -/
theorem upTo_update_of_le {n k : Nat} (v : UInt64) (hk : n ≤ k) :
    upTo (Function.update f k v) n = upTo f n :=
  upTo_congr fun i hi => Function.update_of_ne (by omega) v f

/-- **Incremental update**: replacing the value at a key below `n` XORs the
checksum with the old and the new value. -/
theorem upTo_update {n k : Nat} (v : UInt64) (hk : k < n) :
    upTo (Function.update f k v) n = upTo f n ^^^ f k ^^^ v := by
  induction n with
  | zero => omega
  | succ n ih =>
    rw [upTo_succ, upTo_succ]
    rcases Nat.lt_succ_iff_lt_or_eq.mp hk with hlt | rfl
    · -- the key lies below `n`: the last value is untouched
      rw [ih hlt, Function.update_of_ne (by omega)]
      simp only [UInt64.xor_assoc, UInt64.xor_comm (f n)]
    · -- the key is the last one
      rw [upTo_update_of_le v (Nat.le_refl _), Function.update_self]
      rw [UInt64.xor_assoc (upTo f k), UInt64.xor_self, UInt64.xor_zero]

end XorFold
