import LizardFs.Locks.WellFormed

/-!
# Owner lists of a lock range

The owner list of a `LockRange` is sorted by `Owner::operator<`, which compares the
identity `(owner, sessionid)` only. This module gives the three operations of
`LockRanges::insert` on it their meaning in terms of identities:

* `ownersEq_iff`: `compact_vector`'s `operator==` compares the identities in order;
* `eraseOwner_eq`: on a sorted list the binary search of `eraseOwner` finds the one
  owner with the identity of the candidate, so the erase is a filter;
* `keys_addOwners` and `pairwise_addOwners`: `std::merge` then `std::unique` of two
  sorted lists is a sorted list of the identities of both.
-/

namespace LizardFs

namespace Owner

/-- `a ≤ b` for `Owner::operator<`. -/
def le (a b : Owner) : Bool := !b.lt a

theorem lt_iff (a b : Owner) :
    a.lt b = true ↔ a.owner < b.owner ∨ (a.owner = b.owner ∧ a.sessionid < b.sessionid) := by
  simp [lt]

theorem key_eq_iff (a b : Owner) :
    a.key = b.key ↔ a.owner = b.owner ∧ a.sessionid = b.sessionid := by
  simp [key]

theorem same_comm (a b : Owner) : a.same b = b.same a := by
  simp only [same, Bool.beq_comm]

theorem lt_asymm {a b : Owner} (h : a.lt b = true) : b.lt a = false := by
  rw [lt_iff] at h
  cases hba : b.lt a
  · rfl
  · rw [lt_iff] at hba
    omega

/-- Two owners that are neither ordered nor equal do not exist. -/
theorem lt_or_same_or_gt (a b : Owner) : a.lt b = true ∨ a.same b = true ∨ b.lt a = true := by
  rw [lt_iff, lt_iff, same_iff, key_eq_iff]
  omega

/-- `operator<` sees only the identity. -/
theorem lt_congr_left {a a' : Owner} (h : a.key = a'.key) (b : Owner) : a.lt b = a'.lt b := by
  rw [key_eq_iff] at h
  simp only [lt, h.1, h.2]

end Owner

/-- `compact_vector`'s `operator==` compares the owners' identities in order. -/
theorem ownersEq_iff : ∀ (as bs : List Owner),
    ownersEq as bs = true ↔ as.map Owner.key = bs.map Owner.key
  | [], [] => by simp [ownersEq]
  | [], _ :: _ => by simp [ownersEq]
  | _ :: _, [] => by simp [ownersEq]
  | a :: as, b :: bs => by
    simp only [ownersEq, Bool.and_eq_true, List.map_cons, List.cons.injEq, Owner.same_iff,
      ownersEq_iff as bs]

theorem ownersEq_symm {as bs : List Owner} (h : ownersEq as bs = true) :
    ownersEq bs as = true := by
  rw [ownersEq_iff] at h ⊢
  exact h.symm

namespace Owner

theorem same_eq_false_of_lt {o c : Owner} (h : o.lt c = true) : o.same c = false := by
  cases hs : o.same c
  · rfl
  · rw [same_iff] at hs
    rw [lt_congr_left hs, lt_irrefl] at h
    cases h

theorem same_eq_false_of_gt {o c : Owner} (h : c.lt o = true) : o.same c = false := by
  rw [same_comm]
  exact same_eq_false_of_lt h

end Owner

namespace LockRange

/-- On a sorted owner list, `eraseOwner` drops the owners with the candidate's identity:
the binary search stops at the only one there can be. -/
theorem eraseOwner_eq {r : LockRange} (hs : r.owners.Pairwise fun a b => a.lt b = true)
    (c : Owner) : r.eraseOwner c = { r with owners := r.owners.filter fun o => !o.same c } := by
  -- the owners below the candidate come first, so the search splits the list there
  have hpart : r.owners.Pairwise fun a b => b.lt c = true → a.lt c = true :=
    hs.imp fun hab hbc => Owner.lt_trans hab hbc
  obtain ⟨hbelow, habove⟩ := partitionPoint_spec hpart
  have hsplit := List.take_append_drop (partitionPoint (fun o => o.lt c) r.owners) r.owners
  -- nothing before the stop has the candidate's identity
  have htake : (r.owners.take (partitionPoint (fun o => o.lt c) r.owners)).filter
      (fun o => !o.same c) = r.owners.take (partitionPoint (fun o => o.lt c) r.owners) :=
    List.filter_eq_self.mpr fun o ho => by simp [Owner.same_eq_false_of_lt (hbelow o ho)]
  unfold eraseOwner
  simp only
  split
  · next o ho =>
    obtain ⟨hi, hget⟩ := List.getElem?_eq_some_iff.mp ho
    rw [List.drop_eq_getElem_cons hi, hget] at hsplit habove
    -- the owners after `o` are above it
    have hafter : ∀ o' ∈ r.owners.drop (partitionPoint (fun o => o.lt c) r.owners + 1),
        o.lt o' = true := by
      intro o' ho'
      have hs' := hs
      rw [← hsplit] at hs'
      exact (List.pairwise_cons.mp (List.pairwise_append.mp hs').2.1).1 o' ho'
    have hfilter : r.owners.filter (fun o => !o.same c) =
        r.owners.take (partitionPoint (fun o => o.lt c) r.owners) ++
          (o :: r.owners.drop (partitionPoint (fun o => o.lt c) r.owners + 1)).filter
            (fun o => !o.same c) := by
      conv => lhs; rw [← hsplit]
      rw [List.filter_append, htake]
    split
    · next hsame =>
      -- the owners after `o` are above the candidate too, so `o` is the only match
      rw [Owner.same_iff] at hsame
      have hdrop : (r.owners.drop (partitionPoint (fun o => o.lt c) r.owners + 1)).filter
          (fun o => !o.same c) = r.owners.drop (partitionPoint (fun o => o.lt c) r.owners + 1) :=
        List.filter_eq_self.mpr fun o' ho' => by
          have hlt := hafter o' ho'
          rw [Owner.lt_congr_left hsame] at hlt
          simp [Owner.same_eq_false_of_gt hlt]
      rw [hfilter, List.filter_cons, if_neg (by simp [(Owner.same_iff o c).mpr hsame]), hdrop,
        List.eraseIdx_eq_take_drop_succ]
    · next hsame =>
      -- `o` is above the candidate, and so is everything after it
      have hco : c.lt o = true := by
        rcases Owner.lt_or_same_or_gt o c with h | h | h
        · exact absurd (habove o List.mem_cons_self) (by rw [h]; decide)
        · exact absurd h hsame
        · exact h
      have hrest : (o :: r.owners.drop (partitionPoint (fun o => o.lt c) r.owners + 1)).filter
          (fun o => !o.same c) = o :: r.owners.drop (partitionPoint (fun o => o.lt c) r.owners + 1) :=
        List.filter_eq_self.mpr fun o' ho' => by
          rcases List.mem_cons.mp ho' with rfl | ho'
          · simp [Owner.same_eq_false_of_gt hco]
          · simp [Owner.same_eq_false_of_gt (Owner.lt_trans hco (hafter o' ho'))]
      rw [hfilter, hrest, hsplit]
  · next ho =>
    -- the search ran off the end: every owner is below the candidate
    have hlen : r.owners.length ≤ partitionPoint (fun o => o.lt c) r.owners :=
      List.getElem?_eq_none_iff.mp ho
    rw [List.take_of_length_le hlen] at htake
    rw [htake]

end LockRange

/-! ## `std::merge` and `std::unique` -/

namespace Owner

theorem le_of_lt {a b : Owner} (h : a.lt b = true) : a.le b = true := by
  simp [le, lt_asymm h]

theorem le_trans {a b c : Owner} (hab : a.le b = true) (hbc : b.le c = true) :
    a.le c = true := by
  simp only [le, lt, Bool.not_eq_true', Bool.or_eq_false_iff, decide_eq_false_iff_not,
    Bool.and_eq_false_imp, beq_iff_eq] at *
  omega

/-- `b < a` fails exactly when `a ≤ b`. -/
theorem le_of_not_lt {a b : Owner} (h : b.lt a = false) : a.le b = true := by
  simp [le, h]

/-- An owner that is not below `b` and has another identity is above it. -/
theorem lt_of_le_of_not_same {a b : Owner} (hle : a.le b = true) (hs : a.same b = false) :
    a.lt b = true := by
  rcases lt_or_same_or_gt a b with h | h | h
  · exact h
  · rw [hs] at h; cases h
  · simp [le, h] at hle

end Owner

namespace LockRange

theorem perm_mergeOwners (as bs : List Owner) : (mergeOwners as bs).Perm (as ++ bs) := by
  fun_induction mergeOwners as bs with
  | case1 bs => simp
  | case2 as _ => simp
  | case3 a as b bs _ ih =>
    -- `b` is taken first: move it past `a :: as`
    exact (ih.cons b).trans (List.perm_middle.symm)
  | case4 a as b bs _ ih => exact ih.cons a

theorem mem_mergeOwners {as bs : List Owner} {o : Owner} :
    o ∈ mergeOwners as bs ↔ o ∈ as ∨ o ∈ bs := by
  rw [(perm_mergeOwners as bs).mem_iff, List.mem_append]

/-- Merging two lists sorted by `≤` gives a list sorted by `≤`. -/
theorem pairwise_mergeOwners {as bs : List Owner} (ha : as.Pairwise fun a b => a.le b = true)
    (hb : bs.Pairwise fun a b => a.le b = true) :
    (mergeOwners as bs).Pairwise fun a b => a.le b = true := by
  fun_induction mergeOwners as bs with
  | case1 bs => exact hb
  | case2 as _ => exact ha
  | case3 a as b bs hba ih =>
    obtain ⟨hb1, hb2⟩ := List.pairwise_cons.mp hb
    obtain ⟨ha1, -⟩ := List.pairwise_cons.mp ha
    refine List.pairwise_cons.mpr ⟨fun z hz => ?_, ih ha hb2⟩
    -- everything merged after `b` comes from `a :: as` or from `bs`
    rcases Iff.mp mem_mergeOwners hz with hz | hz
    · rcases List.mem_cons.mp hz with rfl | hz
      · exact Owner.le_of_lt hba
      · exact Owner.le_trans (Owner.le_of_lt hba) (ha1 z hz)
    · exact hb1 z hz
  | case4 a as b bs hba ih =>
    obtain ⟨ha1, ha2⟩ := List.pairwise_cons.mp ha
    obtain ⟨hb1, -⟩ := List.pairwise_cons.mp hb
    refine List.pairwise_cons.mpr ⟨fun z hz => ?_, ih ha2 hb⟩
    rcases Iff.mp mem_mergeOwners hz with hz | hz
    · exact ha1 z hz
    · rcases List.mem_cons.mp hz with rfl | hz
      · exact Owner.le_of_not_lt (Bool.eq_false_iff.mpr hba)
      · exact Owner.le_trans (Owner.le_of_not_lt (Bool.eq_false_iff.mpr hba)) (hb1 z hz)

theorem uniqueOwners_eq_nil_iff {os : List Owner} : uniqueOwners os = [] ↔ os = [] := by
  cases os with
  | nil => simp [uniqueOwners]
  | cons a as =>
    simp only [uniqueOwners, reduceCtorEq, iff_false]
    split
    · simp
    · split <;> simp

/-- `std::unique` keeps an owner of every identity it meets. -/
theorem mem_keys_uniqueOwners (os : List Owner) (k : ℕ × ℕ) :
    k ∈ (uniqueOwners os).map Owner.key ↔ k ∈ os.map Owner.key := by
  induction os with
  | nil => simp [uniqueOwners]
  | cons a as ih =>
    simp only [uniqueOwners]
    split
    · next hnil =>
      rw [Iff.mp uniqueOwners_eq_nil_iff hnil]
    · next b bs hcons =>
      rw [hcons] at ih
      split
      · next hsame =>
        -- the dropped `b` has the identity of the `a` kept in its place
        rw [Owner.same_iff] at hsame
        simp only [List.map_cons, List.mem_cons] at ih ⊢
        rw [← ih, hsame]
        tauto
      · simp only [List.map_cons, List.mem_cons] at ih ⊢
        rw [ih]

theorem mem_uniqueOwners {os : List Owner} {o : Owner} (h : o ∈ uniqueOwners os) : o ∈ os := by
  induction os with
  | nil => simp [uniqueOwners] at h
  | cons a as ih =>
    simp only [uniqueOwners] at h
    split at h
    · simp_all
    · next b bs hcons =>
      rw [hcons] at ih
      split at h
      · rcases List.mem_cons.mp h with rfl | h
        · exact List.mem_cons_self
        · exact List.mem_cons_of_mem a (ih (List.mem_cons_of_mem b h))
      · rcases List.mem_cons.mp h with rfl | h
        · exact List.mem_cons_self
        · exact List.mem_cons_of_mem a (ih h)

/-- On a list sorted by `≤`, `std::unique` leaves one owner of each identity, sorted
by `<`. -/
theorem pairwise_uniqueOwners {os : List Owner} (h : os.Pairwise fun a b => a.le b = true) :
    (uniqueOwners os).Pairwise fun a b => a.lt b = true := by
  induction os with
  | nil => simp [uniqueOwners]
  | cons a as ih =>
    obtain ⟨ha, has⟩ := List.pairwise_cons.mp h
    have ih := ih has
    simp only [uniqueOwners]
    split
    · exact List.pairwise_singleton _ a
    · next b bs hcons =>
      rw [hcons] at ih
      obtain ⟨hb, hbs⟩ := List.pairwise_cons.mp ih
      have hab : a.le b = true := ha b (mem_uniqueOwners (hcons ▸ List.mem_cons_self))
      split
      · next hsame =>
        -- `a` takes the place of `b`, which is below the rest
        rw [Owner.same_iff] at hsame
        exact List.pairwise_cons.mpr
          ⟨fun z hz => by rw [Owner.lt_congr_left hsame]; exact hb z hz, hbs⟩
      · next hsame =>
        have hlt := Owner.lt_of_le_of_not_same hab (Bool.eq_false_iff.mpr hsame)
        exact List.pairwise_cons.mpr ⟨fun z hz => by
          rcases List.mem_cons.mp hz with rfl | hz
          · exact hlt
          · exact Owner.lt_trans hlt (hb z hz), ih⟩

@[simp] theorem addOwners_start (r : LockRange) (os : List Owner) : (r.addOwners os).start = r.start :=
  rfl

@[simp] theorem addOwners_end (r : LockRange) (os : List Owner) : (r.addOwners os).end_ = r.end_ :=
  rfl

@[simp] theorem addOwners_type (r : LockRange) (os : List Owner) : (r.addOwners os).type = r.type :=
  rfl

/-- `addOwners` gives the owners of both lists, one of each identity. -/
theorem mem_keys_addOwners (r : LockRange) (os : List Owner) (k : ℕ × ℕ) :
    k ∈ (r.addOwners os).owners.map Owner.key ↔
      k ∈ r.owners.map Owner.key ∨ k ∈ os.map Owner.key := by
  show k ∈ (uniqueOwners (mergeOwners r.owners os)).map Owner.key ↔ _
  rw [mem_keys_uniqueOwners, List.mem_map, List.mem_map, List.mem_map]
  simp only [mem_mergeOwners]
  constructor
  · rintro ⟨o, ho | ho, rfl⟩
    · exact .inl ⟨o, ho, rfl⟩
    · exact .inr ⟨o, ho, rfl⟩
  · rintro (⟨o, ho, rfl⟩ | ⟨o, ho, rfl⟩)
    · exact ⟨o, .inl ho, rfl⟩
    · exact ⟨o, .inr ho, rfl⟩

theorem pairwise_addOwners {r : LockRange} {os : List Owner}
    (hr : r.owners.Pairwise fun a b => a.lt b = true) (hos : os.Pairwise fun a b => a.lt b = true) :
    (r.addOwners os).owners.Pairwise fun a b => a.lt b = true :=
  pairwise_uniqueOwners (pairwise_mergeOwners (hr.imp Owner.le_of_lt) (hos.imp Owner.le_of_lt))

theorem addOwners_ne_nil {r : LockRange} (hr : r.owners ≠ []) (os : List Owner) :
    (r.addOwners os).owners ≠ [] := by
  intro h
  have h' := Iff.mp uniqueOwners_eq_nil_iff h
  obtain ⟨o, ho⟩ := List.exists_mem_of_ne_nil _ hr
  have : o ∈ mergeOwners r.owners os := Iff.mpr mem_mergeOwners (.inl ho)
  rw [h'] at this
  cases this

end LockRange

end LizardFs
