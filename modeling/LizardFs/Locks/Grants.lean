import Mathlib
import LizardFs.Locks.Owners

/-!
# What a list of lock ranges grants

The abstract meaning of a lock table is a `LockMap`: which owner identity holds which lock
type on which byte. Locking `[a, b)` for identity `k` with type `t` is `LockMap.update`:
on those bytes `k` now holds `t` (nothing for an unlock), and every other pair keeps what
it had.

`Grants L` is the map of a list of ranges, counting only ranges that are not `unlocking`,
the ranges `LockRanges::insert` erases at its end. It is a join over the list
(`grants_cons`), splits with a range (`grants_split`), and is `update` of the empty map
for a range of one owner (`grants_singleton`). The algebra of `update` over joins of maps
that vanish on parts of the line (`update_sup_of_vanishes`, `update_split`) is what the
proof of `insert` runs on.

Ranges are ordered by `Before`: one ends where or before the other starts. A well-formed
table is a list of well-formed ranges in `Before` order (`wellFormed_iff_chain`), and on it
`HoldsKey` is `Grants` (`holdsKey_eq_grants`).
-/

namespace LizardFs

/-- Which owner identity holds which lock type on which byte. -/
abbrev LockMap := ℕ → ℕ × ℕ → LockType → Prop

namespace LockMap

/-- Identity `k` locks `[a, b)` with type `t`; an unlock leaves it nothing there. -/
def update (S : LockMap) (a b : ℕ) (k : ℕ × ℕ) (t : LockType) : LockMap :=
  fun x k' t' => if a ≤ x ∧ x < b ∧ k' = k then t ≠ .unlock ∧ t' = t else S x k' t'

/-- `S` grants nothing on `[a, b)`. -/
def Vanishes (S : LockMap) (a b : ℕ) : Prop := ∀ x, a ≤ x → x < b → ∀ k t, ¬S x k t

variable {S T : LockMap} {a b m : ℕ} {k : ℕ × ℕ} {t : LockType}

theorem update_of_le (S : LockMap) (h : b ≤ a) (k : ℕ × ℕ) (t : LockType) :
    S.update a b k t = S := by
  funext x k' t'
  have : ¬(a ≤ x ∧ x < b ∧ k' = k) := by omega
  simp only [update, if_neg this]

/-- Locking `[a, b)` is locking `[m, b)` and then `[a, m)`. -/
theorem update_split (S : LockMap) (ham : a ≤ m) (hmb : m ≤ b) (k : ℕ × ℕ) (t : LockType) :
    S.update a b k t = (S.update m b k t).update a m k t := by
  funext x k' t'
  simp only [update]
  by_cases hk : k' = k
  · by_cases h1 : a ≤ x ∧ x < m
    · simp [hk, h1.1, h1.2, Nat.lt_of_lt_of_le h1.2 hmb]
    · by_cases h2 : m ≤ x ∧ x < b
      · simp [hk, h2.2, Nat.le_trans ham h2.1, show ¬x < m by omega]
      · simp only [hk, and_true]
        rw [if_neg (by omega), if_neg (by omega), if_neg (by omega)]
  · simp [hk]

/-- A lock over a map that has nothing there only adds its own grants. -/
theorem update_sup_of_vanishes (S : LockMap) (hT : T.Vanishes a b) (k : ℕ × ℕ) (t : LockType) :
    (S ⊔ T).update a b k t = S.update a b k t ⊔ T := by
  funext x k' t'
  simp only [update, Pi.sup_apply, sup_Prop_eq]
  split
  · next h => simp [hT x h.1 h.2.1 k' t']
  · rfl

/-- The same, with the map that has nothing there on the left. -/
theorem update_sup_of_vanishes_left (hS : S.Vanishes a b) (T : LockMap) (k : ℕ × ℕ) (t : LockType) :
    (S ⊔ T).update a b k t = S ⊔ T.update a b k t := by
  rw [sup_comm, update_sup_of_vanishes _ hS, sup_comm]

theorem update_of_vanishes (hS : S.Vanishes a b) (k : ℕ × ℕ) (t : LockType) :
    S.update a b k t = (⊥ : LockMap).update a b k t ⊔ S := by
  simpa using update_sup_of_vanishes (⊥ : LockMap) hS k t

/-- A second lock of the same bytes and identity overrides the first. -/
theorem update_update (S : LockMap) (a b : ℕ) (k : ℕ × ℕ) (t₁ t₂ : LockType) :
    (S.update a b k t₁).update a b k t₂ = S.update a b k t₂ := by
  funext x k' t'
  simp only [update]
  split <;> simp_all

theorem vanishes_sup (hS : S.Vanishes a b) (hT : T.Vanishes a b) : (S ⊔ T).Vanishes a b := by
  intro x hax hxb k t h
  rcases h with h | h
  · exact hS x hax hxb k t h
  · exact hT x hax hxb k t h

/-- A lock of `[m, b)` does not reach below `m`. -/
theorem vanishes_update_left (hS : S.Vanishes a m) (b : ℕ) (k : ℕ × ℕ) (t : LockType) :
    (S.update m b k t).Vanishes a m := by
  intro x hax hxm k' t' h
  simp only [update] at h
  rw [if_neg (by omega)] at h
  exact hS x hax hxm k' t' h

end LockMap

namespace LockRange

/-- `a` ends where or before `b` starts. -/
def Before (a b : LockRange) : Prop := a.end_ ≤ b.start

instance (a b : LockRange) : Decidable (a.Before b) := inferInstanceAs (Decidable (_ ≤ _))

/-- A range that starts before a non-empty range it does not overlap is in `Before` order
with it. -/
theorem before_of_lt_of_not_overlaps {a b : LockRange} (hb : b.start < b.end_)
    (hlt : a.start < b.start) (hov : a.overlaps b = false) :
    a.Before b := by
  simp only [overlaps, Bool.and_eq_false_iff, decide_eq_false_iff_not] at hov
  unfold Before
  omega

theorem overlaps_eq_false_of_before {a b : LockRange} (h : a.Before b) : a.overlaps b = false := by
  unfold Before at h
  simp only [overlaps, Bool.and_eq_false_iff, decide_eq_false_iff_not]
  omega

/-- A well-formed range is not `unlocking`. -/
theorem WellFormed.unlocking_eq_false {r : LockRange} (hr : r.WellFormed) : r.unlocking = false := by
  obtain ⟨-, hne, -, htype, -⟩ := hr
  simp only [unlocking, Bool.or_eq_false_iff, beq_eq_false_iff_ne, ne_eq, List.isEmpty_eq_false_iff]
  exact ⟨by rcases htype with h | h <;> rw [h] <;> decide, hne⟩

theorem WellFormed.withEnd {r : LockRange} (hr : r.WellFormed) {m : ℕ} (h : r.start < m) :
    ({ r with end_ := m } : LockRange).WellFormed :=
  ⟨h, hr.2⟩

theorem WellFormed.withStart {r : LockRange} (hr : r.WellFormed) {m : ℕ} (h : m < r.end_) :
    ({ r with start := m } : LockRange).WellFormed :=
  ⟨h, hr.2⟩

end LockRange

/-- The map of a list of ranges: the owners of each range that is not `unlocking` hold its
type on its bytes. -/
def Grants (L : List LockRange) : LockMap := fun x k t =>
  ∃ r ∈ L, r.unlocking = false ∧ r.Covers x ∧ k ∈ r.owners.map Owner.key ∧ r.type = t

theorem grants_singleton_iff (r : LockRange) (x : ℕ) (k : ℕ × ℕ) (t : LockType) :
    Grants [r] x k t ↔ r.unlocking = false ∧ r.Covers x ∧ k ∈ r.owners.map Owner.key ∧ r.type = t := by
  simp [Grants]

@[simp] theorem grants_nil : Grants [] = ⊥ := by
  funext x k t
  simp [Grants]

theorem grants_cons (r : LockRange) (L : List LockRange) : Grants (r :: L) = Grants [r] ⊔ Grants L := by
  funext x k t
  simp [Grants]

theorem grants_append (L M : List LockRange) : Grants (L ++ M) = Grants L ⊔ Grants M := by
  induction L with
  | nil => simp
  | cons r L ih => rw [List.cons_append, grants_cons, ih, grants_cons r L, sup_assoc]

/-- The ranges `insert` erases at its end grant nothing. -/
theorem grants_filter (L : List LockRange) : Grants (L.filter fun r => !r.unlocking) = Grants L := by
  funext x k t
  simp only [Grants, List.mem_filter, Bool.not_eq_true', eq_iff_iff]
  constructor
  · rintro ⟨r, ⟨hr, -⟩, h⟩
    exact ⟨r, hr, h⟩
  · rintro ⟨r, hr, h⟩
    exact ⟨r, ⟨hr, h.1⟩, h⟩

/-- Ranges away from `[a, b)` grant nothing there. -/
theorem vanishes_grants {L : List LockRange} {a b : ℕ} (h : ∀ r ∈ L, r.end_ ≤ a ∨ b ≤ r.start) :
    (Grants L).Vanishes a b := by
  rintro x hax hxb k t ⟨r, hr, -, ⟨h1, h2⟩, -⟩
  rcases h r hr with h' | h' <;> omega

/-- A range whose owners have the one identity `k` locks its bytes for `k`. -/
theorem grants_singleton {r : LockRange} {k : ℕ × ℕ} (hk : r.owners.map Owner.key = [k]) :
    Grants [r] = (⊥ : LockMap).update r.start r.end_ k r.type := by
  have hne : r.owners.isEmpty = false := by
    cases h : r.owners with
    | nil => rw [h] at hk; cases hk
    | cons _ _ => rfl
  funext x k' t
  simp only [Grants, List.mem_singleton, exists_eq_left, LockRange.unlocking, hne, Bool.or_false,
    beq_eq_false_iff_ne, LockRange.Covers, hk, List.mem_singleton, LockMap.update, Pi.bot_apply,
    Prop.bot_eq_false, eq_iff_iff]
  by_cases h : r.start ≤ x ∧ x < r.end_ ∧ k' = k
  · rw [if_pos h]
    tauto
  · rw [if_neg h]
    tauto

/-- A range splits at any point between its ends. -/
theorem grants_split (r : LockRange) {m : ℕ} (h1 : r.start ≤ m) (h2 : m ≤ r.end_) :
    Grants [r] = Grants [{ r with end_ := m }] ⊔ Grants [{ r with start := m }] := by
  funext x k t
  simp only [Grants, List.mem_singleton, exists_eq_left, LockRange.unlocking, LockRange.Covers,
    Pi.sup_apply, sup_Prop_eq, eq_iff_iff]
  constructor
  · rintro ⟨hu, ⟨hx1, hx2⟩, hk, ht⟩
    by_cases hm : x < m
    · exact .inl ⟨hu, ⟨hx1, hm⟩, hk, ht⟩
    · exact .inr ⟨hu, ⟨by omega, hx2⟩, hk, ht⟩
  · rintro (⟨hu, ⟨hx1, hx2⟩, hk, ht⟩ | ⟨hu, ⟨hx1, hx2⟩, hk, ht⟩)
    · exact ⟨hu, ⟨hx1, by omega⟩, hk, ht⟩
    · exact ⟨hu, ⟨by omega, hx2⟩, hk, ht⟩

namespace LockRanges

/-- A well-formed table is a chain of well-formed ranges. -/
theorem WellFormed.chain {ls : LockRanges} (hls : ls.WellFormed) :
    ls.data.Pairwise LockRange.Before := by
  obtain ⟨hwf, hsorted, hdisj⟩ := hls
  refine (hsorted.and hdisj).imp_of_mem fun {a b} _ hb hab => ?_
  exact LockRange.before_of_lt_of_not_overlaps (hwf b hb).1 hab.1 hab.2

/-- A table is well-formed exactly when its ranges are well-formed and in `Before` order. -/
theorem wellFormed_iff_chain (ls : LockRanges) :
    ls.WellFormed ↔ (∀ r ∈ ls.data, r.WellFormed) ∧ ls.data.Pairwise LockRange.Before := by
  constructor
  · intro hls
    exact ⟨hls.1, hls.chain⟩
  · rintro ⟨hwf, hchain⟩
    refine ⟨hwf, hchain.imp_of_mem fun {a b} ha _ hab => ?_, hchain.imp
      LockRange.overlaps_eq_false_of_before⟩
    have := (hwf a ha).1
    unfold LockRange.Before at hab
    omega

/-- On a well-formed table, what `HoldsKey` sees is what the ranges grant. -/
theorem holdsKey_eq_grants {ls : LockRanges} (hls : ls.WellFormed) :
    ls.HoldsKey = Grants ls.data := by
  funext x k t
  simp only [HoldsKey, Grants, eq_iff_iff]
  constructor
  · rintro ⟨r, hr, h⟩
    exact ⟨r, hr, (hls.1 r hr).unlocking_eq_false, h⟩
  · rintro ⟨r, hr, -, h⟩
    exact ⟨r, hr, h⟩

end LockRanges

end LizardFs
