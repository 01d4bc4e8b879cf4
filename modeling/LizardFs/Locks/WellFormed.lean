import LizardFs.Locks.FileLocks
import Mathlib.Data.List.Pairwise

/-!
# Well-formed lock tables and what they grant

The representation invariant of `LockRanges` that the lock operations of
`src/master/locks.cc` rely on, and the abstract meaning of a table.

* `LockRange.WellFormed`: a non-empty range, of type shared or exclusive, with a
  non-empty owner list sorted by `Owner::operator<` (so without two owners that compare
  equal), and exactly one owner when exclusive;
* `LockRanges.WellFormed`: every range well-formed, the ranges sorted by start and
  pairwise disjoint;
* `LockRanges.Holds ls x o t`: the owner `o`, as stored, holds a lock of type `t` on
  byte `x`, and `LockRanges.HoldsKey` the same for an owner identity `(owner,
  sessionid)`, the fields `Owner::operator==` compares.

Both are relations over any list of ranges; on a well-formed table at most one range
covers a byte, so they are the abstract maps `(offset, owner) ↦ type` that a lock
table stands for.

The association lists standing for the `std::unordered_map`s get their lookup lemmas
here too.
-/

namespace LizardFs

namespace Owner

/-- The identity of an owner: the fields `operator==` and `operator<` compare. -/
def key (o : Owner) : ℕ × ℕ := (o.owner, o.sessionid)

theorem same_iff (a b : Owner) : a.same b = true ↔ a.key = b.key := by
  simp [same, key, Prod.ext_iff]

theorem lt_irrefl (a : Owner) : a.lt a = false := by
  simp [lt]

theorem lt_trans {a b c : Owner} (hab : a.lt b = true) (hbc : b.lt c = true) :
    a.lt c = true := by
  simp only [lt, Bool.or_eq_true, decide_eq_true_eq, Bool.and_eq_true, beq_iff_eq] at *
  omega

end Owner

namespace LockRange

/-- A range of a well-formed table: non-empty, locked shared or exclusive, with sorted
owners, one of them when exclusive. -/
def WellFormed (r : LockRange) : Prop :=
  r.start < r.end_ ∧ r.owners ≠ [] ∧ r.owners.Pairwise (fun a b => a.lt b = true) ∧
    (r.type = .shared ∨ r.type = .exclusive) ∧ (r.type = .exclusive → r.owners.length = 1)

instance (r : LockRange) : Decidable r.WellFormed :=
  inferInstanceAs (Decidable (_ ∧ _ ∧ _ ∧ _ ∧ _))

/-- `r` covers byte `x`. -/
def Covers (r : LockRange) (x : ℕ) : Prop := r.start ≤ x ∧ x < r.end_

end LockRange

namespace LockRanges

/-- The invariant of `data_`: well-formed ranges, sorted by start and pairwise
disjoint. -/
def WellFormed (ls : LockRanges) : Prop :=
  (∀ r ∈ ls.data, r.WellFormed) ∧ ls.data.Pairwise (fun a b => a.start < b.start) ∧
    ls.data.Pairwise (fun a b => a.overlaps b = false)

instance (ls : LockRanges) : Decidable ls.WellFormed :=
  inferInstanceAs (Decidable (_ ∧ _ ∧ _))

/-- Owner `o`, as stored, holds a lock of type `t` on byte `x`. -/
def Holds (ls : LockRanges) (x : ℕ) (o : Owner) (t : LockType) : Prop :=
  ∃ r ∈ ls.data, r.Covers x ∧ o ∈ r.owners ∧ r.type = t

/-- The owner with identity `k` holds a lock of type `t` on byte `x`. -/
def HoldsKey (ls : LockRanges) (x : ℕ) (k : ℕ × ℕ) (t : LockType) : Prop :=
  ∃ r ∈ ls.data, r.Covers x ∧ k ∈ r.owners.map Owner.key ∧ r.type = t

end LockRanges

namespace AssocList

variable {α : Type}

/-- Looking up a key after an assignment. -/
theorem find?_set (m : List (Nat × α)) (k : Nat) (v : α) (k' : Nat) :
    find? (set m k v) k' = if k = k' then some v else find? m k' := by
  unfold set find?
  split
  · next hany =>
    -- the entry of `k` is replaced in place
    rw [List.find?_map]
    by_cases hk : k = k'
    · subst hk
      have hp : ((fun e : Nat × α => e.1 == k) ∘ fun e => if e.1 == k then (k, v) else e) =
          fun e => e.1 == k := by
        funext e
        by_cases h : e.1 = k <;> simp [h]
      obtain ⟨e, he, hek⟩ := List.any_eq_true.mp hany
      obtain ⟨e0, he0⟩ := Option.isSome_iff_exists.mp
        (List.find?_isSome (p := fun e : Nat × α => e.1 == k) |>.mpr ⟨e, he, hek⟩)
      have hkey : (e0.1 == k) = true := List.find?_some (p := fun e : Nat × α => e.1 == k) he0
      have hkey' : e0.1 = k := by simpa using hkey
      rw [hp, he0, if_pos rfl]
      simp [hkey']
    · have hp : ((fun e : Nat × α => e.1 == k') ∘ fun e => if e.1 == k then (k, v) else e) =
          fun e => e.1 == k' := by
        funext e
        by_cases h : e.1 = k
        · simp [h]
        · simp [h]
      rw [hp, if_neg hk]
      cases h : List.find? (fun e => e.1 == k') m with
      | none => rfl
      | some e0 =>
        have hkey : e0.1 = k' := by simpa using List.find?_some h
        simp [hkey, Ne.symm hk]
  · next hany =>
    -- a new key goes to the end
    rw [List.find?_append]
    by_cases hk : k = k'
    · subst hk
      have hnone : List.find? (fun e => e.1 == k) m = none :=
        List.find?_eq_none.mpr fun e he hek => hany (List.any_eq_true.mpr ⟨e, he, hek⟩)
      simp [hnone]
    · simp [hk]
end AssocList

end LizardFs
