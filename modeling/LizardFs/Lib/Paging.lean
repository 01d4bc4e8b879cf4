import Mathlib.Data.List.Basic
import Mathlib.Data.Int.Notation

/-!
# Paged listings

A listing call takes a start index and a count and returns part of a fixed sequence. It
pages the sequence `l` when every call with an index and a count in range returns the
entries at positions `index .. index + count - 1` of `l`, cut at its end (`Pages`).
Reading such a listing page after page from index 0 with one page size returns each
entry of `l` once, in order (`Pages.readAll_eq_take`).

Indices and counts are integers below a bound `B`, as the signed words of the
programs that call such listings are.
-/

namespace LizardFs

namespace Paging

variable {α : Type*}

/-- `f index count` is the page of `l` of `count` entries from position `index`, for every
index in `[0, B)` and every positive count. -/
def Pages (B : ℤ) (f : ℤ → ℤ → List α) (l : List α) : Prop :=
  ∀ index count : ℤ, 0 ≤ index → index < B → 0 < count →
    f index count = (l.drop index.toNat).take count.toNat

/-- The first `n` pages of `k` entries, read one after the other. -/
def readAll (f : ℤ → ℤ → List α) (k n : ℕ) : List α :=
  (List.range n).flatMap fun j => f (j * k : ℕ) k

/-- Consecutive pages of a list make up its prefix. -/
theorem flatMap_pages (l : List α) (k : ℕ) : ∀ n : ℕ,
    ((List.range n).flatMap fun j => (l.drop (j * k)).take k) = l.take (n * k)
  | 0 => by simp
  | n + 1 => by
    rw [List.range_succ, List.flatMap_append, flatMap_pages l k n, List.flatMap_singleton,
      Nat.succ_mul, List.take_add]

/-- Reading pages of `k` entries from index 0 reads the sequence in order, each entry
once, as far as the pages reach. -/
theorem Pages.readAll_eq_take {B : ℤ} {f : ℤ → ℤ → List α} {l : List α} (hf : Pages B f l) {k : ℕ}
    (hk : 0 < k) (n : ℕ) (hn : ((n * k : ℕ) : ℤ) ≤ B) :
    Paging.readAll f k n = l.take (n * k) := by
  unfold Paging.readAll
  rw [← flatMap_pages l k n]
  refine List.flatMap_congr fun j hj => ?_
  -- page `j` starts below `n * k`, so inside the range the listing answers
  have hjn : j < n := List.mem_range.mp hj
  have hstart : ((j * k : ℕ) : ℤ) < B := by
    have : j * k < n * k := Nat.mul_lt_mul_of_pos_right hjn hk
    omega
  rw [hf _ _ (by omega) hstart (by omega), Int.toNat_natCast, Int.toNat_natCast]

/-- Pages that reach the end read the whole sequence. -/
theorem Pages.readAll_eq_self {B : ℤ} {f : ℤ → ℤ → List α} {l : List α} (hf : Pages B f l)
    {k : ℕ} (hk : 0 < k) (n : ℕ) (hn : ((n * k : ℕ) : ℤ) ≤ B) (hlen : l.length ≤ n * k) :
    Paging.readAll f k n = l := by
  rw [hf.readAll_eq_take hk n hn, List.take_of_length_le hlen]

end Paging

end LizardFs
