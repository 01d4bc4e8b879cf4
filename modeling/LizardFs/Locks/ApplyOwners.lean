import Mathlib
import LizardFs.Locks.Grants

/-!
# Applying a lock to one range

In the loop of `LockRanges::insert`, the part of a range `p` that the lock `range`
covers becomes `applyOwners range p sameOwners`: with the same owners it takes the
lock's type, an unlock erases the lock's owner, and a shared lock joins the owners. The
lock may be applied when it is `Compatible` with `p`: the same owners, two shared locks,
or an unlock; `fits` checks that for every range the lock overlaps.

Then applying the lock is `update` of what `p` grants (`grants_applyOwners`), and what
is left of `p`, unless it is erased at the end, is a well-formed range
(`wellFormed_applyOwners`). The lemmas at the end give the same two facts for the parts
of the lock itself and of the ranges the loop splits.
-/

namespace LizardFs

namespace LockRanges

open LockRange

/-! ## Applying the lock to one range -/

/-- The lock `range` may be applied to `other`: both have the same owners, both are
shared, or `range` is an unlock. -/
def Compatible (range other : LockRange) : Prop :=
  ownersEq range.owners other.owners = true ∨ (range.shared = true ∧ other.shared = true) ∨
    range.unlocking = true

@[simp] theorem applyOwners_start (range o : LockRange) (same : Bool) :
    (applyOwners range o same).start = o.start := by
  unfold applyOwners eraseOwner addOwners
  split
  · rfl
  · split
    · simp only
      split
      · split <;> rfl
      · rfl
    · rfl

@[simp] theorem applyOwners_end (range o : LockRange) (same : Bool) :
    (applyOwners range o same).end_ = o.end_ := by
  unfold applyOwners eraseOwner addOwners
  split
  · rfl
  · split
    · simp only
      split
      · split <;> rfl
      · rfl
    · rfl

theorem keys_eq_of_ownersEq {range p : LockRange} {o : Owner} (ho : range.owners = [o])
    (hsame : ownersEq range.owners p.owners = true) : p.owners.map Owner.key = [o.key] := by
  rw [ownersEq_iff, ho] at hsame
  simpa using hsame.symm

theorem type_of_unlocking {range : LockRange} {o : Owner} (ho : range.owners = [o])
    (hun : range.unlocking = true) : range.type = .unlock := by
  simpa [unlocking, ho] using hun

/-- The identities left after erasing `c` are the others. -/
theorem mem_keys_filter_not_same (os : List Owner) (c : Owner) (k : ℕ × ℕ) :
    k ∈ (os.filter fun o => !o.same c).map Owner.key ↔ k ∈ os.map Owner.key ∧ k ≠ c.key := by
  simp only [List.mem_map, List.mem_filter, Bool.not_eq_true', ne_eq]
  constructor
  · rintro ⟨o, ⟨ho, hs⟩, rfl⟩
    refine ⟨⟨o, ho, rfl⟩, fun h => ?_⟩
    rw [← Owner.same_iff] at h
    rw [h] at hs
    cases hs
  · rintro ⟨⟨o, ho, rfl⟩, hne⟩
    refine ⟨o, ⟨ho, ?_⟩, rfl⟩
    cases hs : o.same c
    · rfl
    · exact absurd ((Owner.same_iff o c).mp hs) hne

/-- With the same owners the range takes the lock's type. -/
theorem grants_applyOwners_same {range p : LockRange} {o : Owner} (ho : range.owners = [o])
    (hsame : ownersEq range.owners p.owners = true) :
    Grants [applyOwners range p true] = (Grants [p]).update p.start p.end_ o.key range.type := by
  have hk := keys_eq_of_ownersEq ho hsame
  have happly : applyOwners range p true = { p with type := range.type } := by
    simp [applyOwners]
  rw [happly, grants_singleton (r := { p with type := range.type }) hk, grants_singleton hk,
    LockMap.update_update]

/-- An unlock of another owner list erases the lock's owner from it. -/
theorem grants_applyOwners_unlock {range p : LockRange} {o : Owner} (ho : range.owners = [o])
    (hp : p.WellFormed) (hun : range.unlocking = true) :
    Grants [applyOwners range p false] = (Grants [p]).update p.start p.end_ o.key range.type := by
  have happly : applyOwners range p false =
      { p with owners := p.owners.filter fun o' => !o'.same o } := by
    simp only [applyOwners, hun, if_true, Bool.false_eq_true, if_false]
    rw [eraseOwner_eq hp.2.2.1]
    simp [LockRange.owner, ho]
  rw [happly, type_of_unlocking ho hun]
  funext x k t
  simp only [Grants, List.mem_singleton, exists_eq_left, LockMap.update, Covers, eq_iff_iff,
    mem_keys_filter_not_same]
  split
  · next h =>
    simp only [ne_eq, not_true_eq_false, false_and, iff_false]
    rintro ⟨-, -, ⟨-, hk⟩, -⟩
    exact hk h.2.2
  · next h =>
    -- away from the lock's owner the erase changes nothing, and a range keeping an owner
    -- is not left empty
    have hne : p.owners.isEmpty = false := by
      simpa [List.isEmpty_eq_false_iff] using hp.2.1
    constructor
    · rintro ⟨-, hx, ⟨hk, -⟩, ht⟩
      exact ⟨by simpa [unlocking, hne] using hp.unlocking_eq_false, hx, hk, ht⟩
    · rintro ⟨hu, hx, hk, ht⟩
      have hk' : k ≠ o.key := fun hk' => h ⟨hx.1, hx.2, hk'⟩
      have hfne : (p.owners.filter fun o' => !o'.same o).isEmpty = false := by
        obtain ⟨o', ho', -⟩ := List.mem_map.mp ((mem_keys_filter_not_same p.owners o k).mpr ⟨hk, hk'⟩)
        exact List.isEmpty_eq_false_iff.mpr (List.ne_nil_of_mem ho')
      simp only [unlocking, hne, hfne, Bool.or_false] at hu ⊢
      exact ⟨hu, hx, ⟨hk, hk'⟩, ht⟩

/-- A shared lock on a shared range of other owners joins them. -/
theorem grants_applyOwners_shared {range p : LockRange} {o : Owner} (ho : range.owners = [o])
    (hp : p.WellFormed) (hun : range.unlocking = false)
    (hsh : range.shared = true ∧ p.shared = true) :
    Grants [applyOwners range p false] = (Grants [p]).update p.start p.end_ o.key range.type := by
  have happly : applyOwners range p false = p.addOwners [o] := by
    simp [applyOwners, hun, ho]
  have hrt : range.type = .shared := by simpa [shared] using hsh.1
  have hpt : p.type = .shared := by simpa [shared] using hsh.2
  have hlive : (p.addOwners [o]).unlocking = false := by
    have := addOwners_ne_nil hp.2.1 [o]
    simp only [unlocking, addOwners, Bool.or_eq_false_iff, beq_eq_false_iff_ne, ne_eq,
      List.isEmpty_eq_false_iff] at this ⊢
    exact ⟨by rw [hpt]; decide, this⟩
  rw [happly, hrt]
  funext x k t
  simp only [LockMap.update, eq_iff_iff, grants_singleton_iff, mem_keys_addOwners, hlive,
    hp.unlocking_eq_false, addOwners_start, addOwners_end, addOwners_type, hpt, Covers,
    List.map_cons, List.map_nil, List.mem_singleton, true_and]
  by_cases h : p.start ≤ x ∧ x < p.end_ ∧ k = o.key
  · -- the lock's owner now holds the shared lock
    rw [if_pos h]
    simp [h.1, h.2.1, h.2.2, eq_comm]
  · rw [if_neg h]
    constructor
    · rintro ⟨hx, hk | hk, ht⟩
      · exact ⟨hx, hk, ht⟩
      · exact absurd ⟨hx.1, hx.2, hk⟩ h
    · rintro ⟨hx, hk, ht⟩
      exact ⟨hx, .inl hk, ht⟩

/-- Applying a compatible lock to a range locks its bytes for the lock's owner and leaves
every other owner as it was. -/
theorem grants_applyOwners {range p : LockRange} {o : Owner} (ho : range.owners = [o])
    (hp : p.WellFormed) (hc : Compatible range p) :
    Grants [applyOwners range p (ownersEq range.owners p.owners)] =
      (Grants [p]).update p.start p.end_ o.key range.type := by
  cases hsame : ownersEq range.owners p.owners
  · cases hun : range.unlocking
    · refine grants_applyOwners_shared ho hp hun ?_
      rcases hc with h | h | h
      · rw [hsame] at h; cases h
      · exact h
      · rw [hun] at h; cases h
    · exact grants_applyOwners_unlock ho hp hun
  · exact grants_applyOwners_same ho hsame

/-- What is left of a range after a compatible lock, unless erased, is well-formed. -/
theorem wellFormed_applyOwners {range p : LockRange} {o : Owner} (ho : range.owners = [o])
    (hty : range.type ≠ .invalid) (hp : p.WellFormed) (hc : Compatible range p)
    (hlive : (applyOwners range p (ownersEq range.owners p.owners)).unlocking = false) :
    (applyOwners range p (ownersEq range.owners p.owners)).WellFormed := by
  obtain ⟨hlt, hne, hsorted, htype, hexcl⟩ := hp
  cases hsame : ownersEq range.owners p.owners
  · rw [hsame] at hlive
    cases hun : range.unlocking
    · -- a shared lock joins a shared range
      have hsh : p.shared = true := by
        rcases hc with h | h | h
        · rw [hsame] at h; cases h
        · exact h.2
        · rw [hun] at h; cases h
      have hpt : p.type = .shared := by simpa [shared] using hsh
      simp only [applyOwners, hun, Bool.false_eq_true, if_false]
      refine ⟨hlt, addOwners_ne_nil hne _, pairwise_addOwners hsorted (by simp [ho]), .inl hpt,
        fun h => ?_⟩
      exact absurd (hpt.symm.trans h) (by decide)
    · -- an unlock erases its owner
      have happly : applyOwners range p false =
          { p with owners := p.owners.filter fun o' => !o'.same o } := by
        simp only [applyOwners, hun, if_true, Bool.false_eq_true, if_false]
        rw [eraseOwner_eq hsorted]
        simp [LockRange.owner, ho]
      rw [happly] at hlive ⊢
      have hfne : (p.owners.filter fun o' => !o'.same o) ≠ [] := by
        simpa [unlocking, List.isEmpty_eq_false_iff] using (Bool.or_eq_false_iff.mp hlive).2
      refine ⟨hlt, hfne, hsorted.filter _, htype, fun h => ?_⟩
      have hlen := List.length_filter_le (fun o' => !o'.same o) p.owners
      have hpos := List.length_pos_iff.mpr hfne
      have := hexcl h
      simp only at hpos ⊢
      omega
  · -- the same owner changes the type
    have hk := keys_eq_of_ownersEq ho hsame
    have hlen : p.owners.length = 1 := by simpa using congrArg List.length hk
    have happly : applyOwners range p true = { p with type := range.type } := by
      simp [applyOwners]
    rw [hsame, happly] at hlive
    rw [happly]
    have hrt : range.type ≠ .unlock := by
      intro h
      simp [unlocking, h] at hlive
    refine ⟨hlt, hne, hsorted, ?_, fun _ => hlen⟩
    cases h : range.type
    · exact absurd h hty
    · exact absurd h hrt
    · exact .inl rfl
    · exact .inr rfl

/-! ## Ranges of the loop -/

theorem grants_of_unlocking {r : LockRange} (h : r.unlocking = true) : Grants [r] = ⊥ := by
  funext x k t
  simp [grants_singleton_iff, h]

/-- A part of the lock grants the lock. -/
theorem grants_lock {r : LockRange} {o : Owner} (ho : r.owners = [o]) :
    Grants [r] = (⊥ : LockMap).update r.start r.end_ o.key r.type :=
  grants_singleton (by simp [ho])

/-- Ranges that start at or after `b` grant nothing before it. -/
theorem vanishes_grants_of_le {L : List LockRange} {a b : ℕ} (h : ∀ y ∈ L, b ≤ y.start) :
    (Grants L).Vanishes a b :=
  vanishes_grants fun y hy => .inr (h y hy)

/-- A non-empty part of the lock that is not an unlock is a well-formed range. -/
theorem wellFormed_lock {r : LockRange} {o : Owner} (ho : r.owners = [o])
    (hty : r.type ≠ .invalid) (hlt : r.start < r.end_) (hlive : r.unlocking = false) :
    r.WellFormed := by
  refine ⟨hlt, by simp [ho], by simp [ho], ?_, fun _ => by simp [ho]⟩
  cases h : r.type
  · exact absurd h hty
  · simp [unlocking, h] at hlive
  · exact .inl rfl
  · exact .inr rfl

theorem compatible_congr {r r' y y' : LockRange} (h1 : r.owners = r'.owners) (h2 : r.type = r'.type)
    (h3 : y.owners = y'.owners) (h4 : y.type = y'.type) (h : Compatible r y) : Compatible r' y' := by
  unfold Compatible shared unlocking at *
  rwa [← h1, ← h2, ← h3, ← h4]

end LockRanges

end LizardFs
