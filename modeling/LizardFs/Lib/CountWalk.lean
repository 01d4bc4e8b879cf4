import Mathlib

/-!
# Merge walks of two count maps

A count map lists keys in strictly increasing order, each with a count (`Sorted`, `get`).
`setCount` is the assignment `m[k] = v` of a sorted flat map, and `toMultiset` reads a
count map as the multiset of its keys.

`steps wild dst src` is the walk that compares the counts `src` has against the counts
`dst` asks for: it goes through the keys of `dst` in order, up to the key `wild`, and on
the way through the keys of `src`. A key of `src` that `dst` does not name, or names with
a lower count, has copies to spare (`Step.extra`); a key that `dst` names with a higher
count lacks copies (`Step.short`). Every key past the walk over `dst` is spare.

`steps_perm` says which steps the walk takes, up to order: one per key of `src` with
spare copies (`extraOf`) and one per key `dst` names that `src` lacks copies of
(`shortOf`). The sums of the spare and of the missing copies and the keys with spare
copies follow (`sum_extraAmount`, `sum_shortAmount`, `mem_extraKeys`).
-/

namespace LizardFs

namespace CountWalk

variable {α : Type*} [LinearOrder α]

/-! ## Count maps -/

/-- The keys are strictly increasing. -/
def Sorted (m : List (α × ℕ)) : Prop := (m.map Prod.fst).Pairwise (· < ·)

/-- The count of a key, 0 when absent. -/
def get : List (α × ℕ) → α → ℕ
  | [], _ => 0
  | (k', c) :: m, k => if k' = k then c else get m k

/-- The sum of the counts. -/
def total (m : List (α × ℕ)) : ℕ := (m.map Prod.snd).sum

/-- `m[k] = v` of a sorted flat map: replace the count of `k`, or insert `k` in place. -/
def setCount : List (α × ℕ) → α → ℕ → List (α × ℕ)
  | [], k, v => [(k, v)]
  | (k', c) :: m, k, v =>
    if k' = k then (k, v) :: m
    else if k < k' then (k, v) :: (k', c) :: m
    else (k', c) :: setCount m k v

/-- The keys, each as often as its count. -/
def toMultiset (m : List (α × ℕ)) : Multiset α :=
  (m.map fun p => Multiset.replicate p.2 p.1).sum

@[simp] theorem get_nil (k : α) : get [] k = 0 := rfl

theorem get_cons (k' k : α) (c : ℕ) (m : List (α × ℕ)) :
    get ((k', c) :: m) k = if k' = k then c else get m k := rfl

@[simp] theorem setCount_nil (k : α) (v : ℕ) : setCount [] k v = [(k, v)] := rfl

theorem setCount_cons (k' k : α) (c v : ℕ) (m : List (α × ℕ)) :
    setCount ((k', c) :: m) k v =
      if k' = k then (k, v) :: m
      else if k < k' then (k, v) :: (k', c) :: m
      else (k', c) :: setCount m k v := rfl

omit [LinearOrder α] in
@[simp] theorem total_nil : total ([] : List (α × ℕ)) = 0 := rfl

omit [LinearOrder α] in
@[simp] theorem total_cons (p : α × ℕ) (m : List (α × ℕ)) : total (p :: m) = p.2 + total m := by
  simp [total]

theorem sorted_cons {k : α} {c : ℕ} {m : List (α × ℕ)} :
    Sorted ((k, c) :: m) ↔ (∀ p ∈ m, k < p.1) ∧ Sorted m := by
  simp [Sorted, List.pairwise_cons]

theorem Sorted.sublist {m m' : List (α × ℕ)} (h : Sorted m) (hsub : List.Sublist m' m) :
    Sorted m' :=
  List.Pairwise.sublist (hsub.map _) h

/-- A key no entry has counts 0. -/
theorem get_eq_zero {m : List (α × ℕ)} {k : α} (h : ∀ p ∈ m, p.1 ≠ k) : get m k = 0 := by
  induction m with
  | nil => rfl
  | cons p m ih =>
    rw [get_cons, if_neg (h p List.mem_cons_self)]
    exact ih fun q hq => h q (List.mem_cons_of_mem _ hq)

/-- In a sorted map the entry of a key holds its count. -/
theorem get_of_mem {m : List (α × ℕ)} (hm : Sorted m) {p : α × ℕ} (hp : p ∈ m) :
    get m p.1 = p.2 := by
  induction m with
  | nil => cases hp
  | cons q m ih =>
    obtain ⟨k, c⟩ := q
    obtain ⟨hk, hm'⟩ := Iff.mp sorted_cons hm
    rw [get_cons]
    rcases List.mem_cons.mp hp with rfl | hp
    · rw [if_pos rfl]
    · rw [if_neg (ne_of_lt (hk p hp))]
      exact ih hm' hp

theorem get_setCount (m : List (α × ℕ)) (k k' : α) (v : ℕ) :
    get (setCount m k v) k' = if k = k' then v else get m k' := by
  induction m with
  | nil => rfl
  | cons p m ih =>
    obtain ⟨k'', c⟩ := p
    rw [setCount_cons]
    split
    · next h =>
      subst h
      rw [get_cons, get_cons]
      by_cases hk : k'' = k' <;> simp [hk]
    · split
      · rw [get_cons]
      · rw [get_cons, get_cons, ih]
        by_cases hk : k'' = k'
        · subst hk
          simp [Ne.symm ‹¬k'' = k›]
        · simp [hk]

theorem mem_keys_setCount (m : List (α × ℕ)) (k k' : α) (v : ℕ) :
    k' ∈ (setCount m k v).map Prod.fst ↔ k' = k ∨ k' ∈ m.map Prod.fst := by
  induction m with
  | nil => simp
  | cons p m ih =>
    obtain ⟨k'', c⟩ := p
    rw [setCount_cons]
    split
    · next h =>
      subst h
      simp
    · split
      · simp
      · simp only [List.map_cons, List.mem_cons, ih]
        tauto

/-- Assigning a count adds that entry and keeps or drops the others. -/
theorem mem_setCount {m : List (α × ℕ)} {k : α} {v : ℕ} {p : α × ℕ} (hp : p ∈ setCount m k v) :
    p = (k, v) ∨ p ∈ m := by
  induction m with
  | nil => simpa using hp
  | cons q m ih =>
    obtain ⟨k', c⟩ := q
    rw [setCount_cons] at hp
    split at hp
    · rcases List.mem_cons.mp hp with h | h
      · exact .inl h
      · exact .inr (List.mem_cons_of_mem _ h)
    · split at hp
      · rcases List.mem_cons.mp hp with h | h
        · exact .inl h
        · exact .inr h
      · rcases List.mem_cons.mp hp with h | h
        · exact .inr (h ▸ List.mem_cons_self)
        · rcases ih h with h | h
          · exact .inl h
          · exact .inr (List.mem_cons_of_mem _ h)

theorem Sorted.setCount {m : List (α × ℕ)} (hm : Sorted m) (k : α) (v : ℕ) :
    Sorted (setCount m k v) := by
  induction m with
  | nil => simp [Sorted]
  | cons p m ih =>
    obtain ⟨k', c⟩ := p
    obtain ⟨hk, hm'⟩ := Iff.mp sorted_cons hm
    rw [setCount_cons]
    split
    · next h =>
      subst h
      exact Iff.mpr sorted_cons ⟨hk, hm'⟩
    · split
      · next _ hlt =>
        refine Iff.mpr sorted_cons ⟨fun q hq => ?_, hm⟩
        rcases List.mem_cons.mp hq with rfl | hq
        · exact hlt
        · exact lt_trans hlt (hk q hq)
      · next hne hnlt =>
        refine Iff.mpr sorted_cons ⟨fun q hq => ?_, ih hm'⟩
        -- every key of the new map is a key of `m` or `k`, all above `k'`
        have hq' := (mem_keys_setCount m k q.1 v).mp (List.mem_map.mpr ⟨q, hq, rfl⟩)
        rcases hq' with hqk | hqm
        · rw [hqk]
          exact lt_of_le_of_ne (not_lt.mp hnlt) hne
        · obtain ⟨q', hq', hkey⟩ := List.mem_map.mp hqm
          exact hkey ▸ hk q' hq'

/-- Assigning a count changes the total by the difference. -/
theorem total_setCount {m : List (α × ℕ)} (hm : Sorted m) (k : α) (v : ℕ) :
    total (setCount m k v) + get m k = total m + v := by
  induction m with
  | nil => simp
  | cons p m ih =>
    obtain ⟨k', c⟩ := p
    obtain ⟨hk, hm'⟩ := Iff.mp sorted_cons hm
    rw [setCount_cons]
    split
    · next h =>
      subst h
      rw [total_cons, total_cons, get_cons, if_pos rfl]
      omega
    · split
      · next hne hlt =>
        -- `k` is below every key, so it has no count yet
        have hzero : get ((k', c) :: m) k = 0 :=
          get_eq_zero fun q hq => by
            rcases List.mem_cons.mp hq with rfl | hq
            · exact ne_of_gt hlt
            · exact ne_of_gt (lt_trans hlt (hk q hq))
        rw [hzero]
        simp only [total_cons]
        omega
      · next hne _ =>
        simp only [total_cons, get_cons, if_neg hne]
        have := ih hm'
        omega

theorem count_toMultiset {m : List (α × ℕ)} (hm : Sorted m) (k : α) :
    (toMultiset m).count k = get m k := by
  induction m with
  | nil => simp [toMultiset]
  | cons p m ih =>
    obtain ⟨k', c⟩ := p
    obtain ⟨hk, hm'⟩ := Iff.mp sorted_cons hm
    have hrest : (toMultiset m).count k = get m k := ih hm'
    simp only [toMultiset, List.map_cons, List.sum_cons, Multiset.count_add,
      Multiset.count_replicate] at hrest ⊢
    rw [hrest, get_cons]
    by_cases hkk : k' = k
    · -- the key of the head is in no later entry
      subst hkk
      rw [if_pos rfl, if_pos rfl, get_eq_zero fun q hq => ne_of_gt (hk q hq), Nat.add_zero]
    · rw [if_neg hkk, if_neg hkk, Nat.zero_add]

omit [LinearOrder α] in
theorem card_toMultiset (m : List (α × ℕ)) : Multiset.card (toMultiset m) = total m := by
  induction m with
  | nil => rfl
  | cons p m ih =>
    simp only [toMultiset, List.map_cons, List.sum_cons, Multiset.card_add,
      Multiset.card_replicate, total_cons] at ih ⊢
    rw [ih]

/-! ## The walk -/

/-- One step of the walk: copies of a key to spare, or copies a key lacks. -/
inductive Step (α : Type*) where
  | extra (key : α) (n : ℕ)
  | short (key : α) (n : ℕ)
deriving DecidableEq, Repr

/-- The copies a step has to spare. -/
def Step.extraAmount : Step α → ℕ
  | .extra _ n => n
  | .short _ _ => 0

/-- The copies a step lacks. -/
def Step.shortAmount : Step α → ℕ
  | .extra _ _ => 0
  | .short _ n => n

/-- The key of a step with copies to spare. -/
def Step.extraKey : Step α → Option α
  | .extra k _ => some k
  | .short _ _ => none

/-- The key of a step that lacks copies. -/
def Step.shortKey : Step α → Option α
  | .extra _ _ => none
  | .short k _ => some k

/-- The key and the missing copies of a step that lacks copies. -/
def Step.shortEntry : Step α → Option (α × ℕ)
  | .extra _ _ => none
  | .short k n => some (k, n)

/-- Every copy of these entries is spare. -/
def allExtra (m : List (α × ℕ)) : List (Step α) := m.map fun p => .extra p.1 p.2

/-- The entries before the key `wild`. -/
def named (wild : α) (m : List (α × ℕ)) : List (α × ℕ) := m.filter fun p => p.1 ≠ wild

/-- The walk over the target entries `dst`, up to `wild`, and along it over the source
entries `src`: first the source keys below the target key, then the source key equal to
it, if any. -/
def steps (wild : α) : List (α × ℕ) → List (α × ℕ) → List (Step α)
  | [], src => allExtra src
  | (k, c) :: dst, src =>
    if k = wild then allExtra src
    else
      allExtra (src.takeWhile fun p => p.1 < k) ++
        match src.dropWhile fun p => p.1 < k with
        | (k', c') :: rest =>
          if k' = k then
            (if c < c' then [.extra k (c' - c)] else if c' < c then [.short k (c - c')] else []) ++
              steps wild dst rest
          else .short k c :: steps wild dst ((k', c') :: rest)
        | [] => .short k c :: steps wild dst []

/-- The step of a source entry against the target entries `N`: all its copies are spare
when `N` does not name its key, else those above the count `N` asks for. -/
def extraOf (N : List (α × ℕ)) (p : α × ℕ) : Option (Step α) :=
  if p.1 ∈ N.map Prod.fst then
    if get N p.1 < p.2 then some (.extra p.1 (p.2 - get N p.1)) else none
  else some (.extra p.1 p.2)

/-- The step of a target entry against the source entries `src`: all its copies are
missing when `src` does not have its key, else those above the count `src` has. -/
def shortOf (src : List (α × ℕ)) (p : α × ℕ) : Option (Step α) :=
  if p.1 ∈ src.map Prod.fst then
    if get src p.1 < p.2 then some (.short p.1 (p.2 - get src p.1)) else none
  else some (.short p.1 p.2)

/-! ## What the walk takes -/

theorem lt_of_mem_takeWhile {m : List (α × ℕ)} {k : α} {p : α × ℕ}
    (hp : p ∈ m.takeWhile fun p => p.1 < k) : p.1 < k := by
  have := List.all_eq_true.mp List.all_takeWhile p hp
  simpa using this

/-- Past the run of keys below `k`, the keys of a sorted map are at least `k`. -/
theorem le_of_mem_dropWhile {m : List (α × ℕ)} (hm : Sorted m) {k : α} {p : α × ℕ}
    (hp : p ∈ m.dropWhile fun p => p.1 < k) : k ≤ p.1 := by
  induction m with
  | nil => cases hp
  | cons q m ih =>
    obtain ⟨hq, hm'⟩ := Iff.mp sorted_cons hm
    rw [List.dropWhile_cons] at hp
    split at hp
    · exact ih hm' hp
    · next hqk =>
      have hqk' : k ≤ q.1 := not_lt.mp (by simpa using hqk)
      rcases List.mem_cons.mp hp with rfl | hp
      · exact hqk'
      · exact le_of_lt (lt_of_le_of_lt hqk' (hq p hp))

theorem perm_shuffle {β : Type*} (a b x y : List β) :
    List.Perm ((a ++ b) ++ (x ++ y)) ((a ++ x) ++ (b ++ y)) := by
  have h : List.Perm (b ++ x) (x ++ b) := List.perm_append_comm
  simpa only [List.append_assoc] using (h.append_right y).append_left a

theorem filterMap_cons_toList {β γ : Type*} (f : β → Option γ) (a : β) (l : List β) :
    (a :: l).filterMap f = (f a).toList ++ l.filterMap f := by
  cases h : f a <;> simp [h]

omit [LinearOrder α] in
theorem mem_keys_cons_of_ne {k k' : α} {c : ℕ} {m : List (α × ℕ)} (h : k ≠ k') :
    k' ∈ ((k, c) :: m).map Prod.fst ↔ k' ∈ m.map Prod.fst := by
  simp [Ne.symm h]

/-- `extraOf` reads only the target entry with the source entry's key. -/
theorem extraOf_cons_of_ne {N : List (α × ℕ)} {k : α} {c : ℕ} {p : α × ℕ} (h : k ≠ p.1) :
    extraOf ((k, c) :: N) p = extraOf N p := by
  unfold extraOf
  simp only [mem_keys_cons_of_ne h, get_cons, if_neg h]

/-- `shortOf` reads only the source entry with the target entry's key. -/
theorem shortOf_cons_of_ne {src : List (α × ℕ)} {k : α} {c : ℕ} {p : α × ℕ} (h : k ≠ p.1) :
    shortOf ((k, c) :: src) p = shortOf src p := by
  unfold shortOf
  simp only [mem_keys_cons_of_ne h, get_cons, if_neg h]

theorem shortOf_append_of_ne {m src : List (α × ℕ)} {p : α × ℕ} (h : ∀ q ∈ m, q.1 ≠ p.1) :
    shortOf (m ++ src) p = shortOf src p := by
  induction m with
  | nil => rfl
  | cons q m ih =>
    obtain ⟨k, c⟩ := q
    rw [List.cons_append, shortOf_cons_of_ne (h _ List.mem_cons_self)]
    exact ih fun q hq => h q (List.mem_cons_of_mem _ hq)

/-- Source entries whose keys the target does not name have all their copies to spare. -/
theorem filterMap_extraOf_of_ne {N m : List (α × ℕ)} (h : ∀ p ∈ m, ∀ q ∈ N, q.1 ≠ p.1) :
    m.filterMap (extraOf N) = allExtra m := by
  induction m with
  | nil => rfl
  | cons p m ih =>
    have hp : p.1 ∉ N.map Prod.fst := fun hmem => by
      obtain ⟨q, hq, hkey⟩ := List.mem_map.mp hmem
      exact h p List.mem_cons_self q hq hkey
    rw [filterMap_cons_toList, ih fun p' hp' => h p' (List.mem_cons_of_mem _ hp')]
    simp [extraOf, hp, allExtra]

section Walk

variable {wild : α}

/-- The steps of the walk, up to order: the spare copies of each source entry and the
missing copies of each target entry before the wildcard. -/
theorem steps_perm : ∀ {dst src : List (α × ℕ)}, Sorted src → Sorted dst →
    (∀ p ∈ dst, p.1 ≤ wild) →
    List.Perm (steps wild dst src)
      (src.filterMap (extraOf (named wild dst)) ++ (named wild dst).filterMap (shortOf src))
  | [], src, _, _, _ => by
    rw [steps, named, List.filter_nil, List.filterMap_nil, List.append_nil,
      filterMap_extraOf_of_ne (by simp)]
  | (k, c) :: dst, src, hsrc, hdst, hwild => by
    obtain ⟨hk, hdst'⟩ := Iff.mp sorted_cons hdst
    by_cases hkw : k = wild
    · -- nothing follows the wildcard
      have hnil : dst = [] := List.eq_nil_iff_forall_not_mem.mpr fun p hp =>
        absurd (hwild p (List.mem_cons_of_mem _ hp)) (not_le.mpr (hkw ▸ hk p hp))
      subst hnil
      have hnamed : named wild [(k, c)] = [] := by simp [named, hkw]
      rw [steps, if_pos hkw, hnamed, List.filterMap_nil, List.append_nil,
        filterMap_extraOf_of_ne (by simp)]
    · have hnamed : named wild ((k, c) :: dst) = (k, c) :: named wild dst :=
        List.filter_cons_of_pos (by simpa using hkw)
      have hN : ∀ p ∈ named wild dst, k < p.1 := fun p hp => hk p (List.mem_filter.mp hp).1
      have hwild' : ∀ p ∈ dst, p.1 ≤ wild := fun p hp => hwild p (List.mem_cons_of_mem _ hp)
      have hsplit : (src.takeWhile fun p => p.1 < k) ++ (src.dropWhile fun p => p.1 < k) = src :=
        List.takeWhile_append_dropWhile
      have hbelow : ∀ p ∈ src.takeWhile (fun p => p.1 < k), p.1 < k :=
        fun p hp => lt_of_mem_takeWhile hp
      have habove : ∀ p ∈ src.dropWhile (fun p => p.1 < k), k ≤ p.1 :=
        fun p hp => le_of_mem_dropWhile hsrc hp
      have hrest : Sorted (src.dropWhile fun p => p.1 < k) := hsrc.sublist (List.dropWhile_sublist _)
      -- the source run below `k` is spare, and the target entries do not see it
      have hrun : (src.takeWhile fun p => p.1 < k).filterMap (extraOf ((k, c) :: named wild dst)) =
          allExtra (src.takeWhile fun p => p.1 < k) := by
        refine filterMap_extraOf_of_ne fun p hp q hq => ?_
        rcases List.mem_cons.mp hq with rfl | hq
        · exact ne_of_gt (hbelow p hp)
        · exact ne_of_gt (lt_trans (hbelow p hp) (hN q hq))
      have hshort : ((k, c) :: named wild dst).filterMap (shortOf src) =
          ((k, c) :: named wild dst).filterMap (shortOf (src.dropWhile fun p => p.1 < k)) := by
        refine List.filterMap_congr fun q hq => ?_
        have hkq : k ≤ q.1 := by
          rcases List.mem_cons.mp hq with rfl | hq
          · exact le_refl _
          · exact le_of_lt (hN q hq)
        conv_lhs => rw [← hsplit]
        exact shortOf_append_of_ne fun p hp => ne_of_lt (lt_of_lt_of_le (hbelow p hp) hkq)
      have hextra : src.filterMap (extraOf ((k, c) :: named wild dst)) =
          allExtra (src.takeWhile fun p => p.1 < k) ++
            (src.dropWhile fun p => p.1 < k).filterMap (extraOf ((k, c) :: named wild dst)) := by
        conv_lhs => rw [← hsplit]
        rw [List.filterMap_append, hrun]
      rw [steps, if_neg hkw, hnamed, hshort, hextra, List.append_assoc]
      refine List.Perm.append_left _ ?_
      generalize src.dropWhile (fun p => p.1 < k) = d at habove hrest ⊢
      cases d with
      | nil =>
        -- no source key at or above `k`: the target entry lacks all its copies
        have hnil : Sorted ([] : List (α × ℕ)) := List.Pairwise.nil
        have ih := steps_perm hnil hdst' hwild'
        simp only [List.filterMap_nil, List.nil_append] at ih ⊢
        rw [filterMap_cons_toList]
        simpa [shortOf] using ih
      | cons q rest =>
        obtain ⟨k', c'⟩ := q
        obtain ⟨hk', hrest'⟩ := Iff.mp sorted_cons hrest
        by_cases hkk : k' = k
        · -- the source has the key: compare the two counts
          subst hkk
          have ih := steps_perm hrest' hdst' hwild'
          have hextra : rest.filterMap (extraOf ((k', c) :: named wild dst)) =
              rest.filterMap (extraOf (named wild dst)) :=
            List.filterMap_congr fun p hp => extraOf_cons_of_ne (ne_of_lt (hk' p hp))
          have hmissing : (named wild dst).filterMap (shortOf ((k', c') :: rest)) =
              (named wild dst).filterMap (shortOf rest) :=
            List.filterMap_congr fun p hp => shortOf_cons_of_ne (ne_of_lt (hN p hp))
          have hhead : (if c < c' then [Step.extra k' (c' - c)]
              else if c' < c then [Step.short k' (c - c')] else []) =
              (extraOf ((k', c) :: named wild dst) (k', c')).toList ++
                (shortOf ((k', c') :: rest) (k', c)).toList := by
            by_cases h1 : c < c'
            · have h2 : ¬c' < c := by omega
              simp [extraOf, shortOf, get_cons, h1, h2]
            · by_cases h2 : c' < c
              · simp [extraOf, shortOf, get_cons, h1, h2]
              · simp [extraOf, shortOf, get_cons, h1, h2]
          dsimp only
          rw [if_pos rfl]
          rw [filterMap_cons_toList, filterMap_cons_toList, hextra, hmissing, hhead]
          exact (ih.append_left _).trans (perm_shuffle _ _ _ _)
        · -- the source lacks the key: the target entry lacks all its copies
          have hlt : k < k' := lt_of_le_of_ne (habove (k', c') List.mem_cons_self) (Ne.symm hkk)
          have ih := steps_perm hrest hdst' hwild'
          have hextra : ((k', c') :: rest).filterMap (extraOf ((k, c) :: named wild dst)) =
              ((k', c') :: rest).filterMap (extraOf (named wild dst)) :=
            List.filterMap_congr fun p hp => extraOf_cons_of_ne (ne_of_lt (lt_of_lt_of_le hlt
              (by
                rcases List.mem_cons.mp hp with rfl | hp
                · exact le_refl _
                · exact le_of_lt (hk' p hp))))
          have hhead : shortOf ((k', c') :: rest) (k, c) = some (Step.short k c) := by
            have hnot : k ∉ ((k', c') :: rest).map Prod.fst := by
              intro hmem
              obtain ⟨p, hp, hkey⟩ := List.mem_map.mp hmem
              rcases List.mem_cons.mp hp with rfl | hp
              · exact hkk hkey
              · exact absurd hkey (ne_of_gt (lt_trans hlt (hk' p hp)))
            unfold shortOf
            rw [if_neg hnot]
          simp only [if_neg hkk]
          rw [hextra, filterMap_cons_toList (shortOf ((k', c') :: rest)) (k, c), hhead,
            Option.toList_some, List.singleton_append]
          exact (ih.cons _).trans List.perm_middle.symm

/-! ## What the walk counts -/

theorem get_eq_zero_of_not_mem {m : List (α × ℕ)} {k : α} (h : k ∉ m.map Prod.fst) :
    get m k = 0 :=
  get_eq_zero fun p hp hpk => h (List.mem_map.mpr ⟨p, hp, hpk⟩)

theorem Sorted.named {m : List (α × ℕ)} (hm : Sorted m) (wild : α) : Sorted (named wild m) :=
  hm.sublist List.filter_sublist

theorem Sorted.nodup_keys {m : List (α × ℕ)} (hm : Sorted m) : (m.map Prod.fst).Nodup :=
  List.Pairwise.imp ne_of_lt hm

/-- Dropping the wildcard's entry leaves every other count. -/
theorem get_named (wild : α) (m : List (α × ℕ)) (k : α) :
    get (named wild m) k = if k = wild then 0 else get m k := by
  induction m with
  | nil => simp [named]
  | cons p m ih =>
    obtain ⟨k', c⟩ := p
    by_cases hk' : k' = wild
    · subst hk'
      have hdrop : named k' ((k', c) :: m) = named k' m := by simp [named]
      rw [hdrop, ih, get_cons]
      split_ifs <;> simp_all
    · have hkeep : named wild ((k', c) :: m) = (k', c) :: named wild m := by simp [named, hk']
      rw [hkeep, get_cons, get_cons, ih]
      split_ifs <;> simp_all

/-- The wildcard's count and the others make up the total. -/
theorem total_named {m : List (α × ℕ)} (hm : Sorted m) (wild : α) :
    total (named wild m) + get m wild = total m := by
  induction m with
  | nil => rfl
  | cons p m ih =>
    obtain ⟨k', c⟩ := p
    obtain ⟨hk, hm'⟩ := Iff.mp sorted_cons hm
    have hrest := ih hm'
    by_cases hk' : k' = wild
    · subst hk'
      -- the wildcard's entry is the only one with its key
      have hnone : get m k' = 0 := get_eq_zero fun q hq => ne_of_gt (hk q hq)
      have hdrop : named k' ((k', c) :: m) = named k' m := by simp [named]
      rw [hdrop, get_cons, if_pos rfl, total_cons]
      omega
    · have hkeep : named wild ((k', c) :: m) = (k', c) :: named wild m := by simp [named, hk']
      rw [hkeep, get_cons, if_neg hk', total_cons, total_cons]
      omega

/-- The copies of `m` that `m'` lacks, key by key. -/
theorem card_toMultiset_sub {m m' : List (α × ℕ)} (hm : Sorted m) (hm' : Sorted m') :
    Multiset.card (toMultiset m - toMultiset m') = (m.map fun p => p.2 - get m' p.1).sum := by
  induction m with
  | nil => simp [toMultiset]
  | cons p m ih =>
    obtain ⟨k, c⟩ := p
    obtain ⟨hk, hrest⟩ := Iff.mp sorted_cons hm
    -- the head's key has no copies in the rest, so the difference splits key by key
    have hsplit : toMultiset ((k, c) :: m) - toMultiset m' =
        Multiset.replicate (c - get m' k) k + (toMultiset m - toMultiset m') := by
      ext a
      rw [Multiset.count_sub, Multiset.count_add, Multiset.count_sub, Multiset.count_replicate,
        count_toMultiset hm a, count_toMultiset hrest a, count_toMultiset hm' a, get_cons]
      by_cases hak : k = a
      · subst hak
        rw [if_pos rfl, if_pos rfl, get_eq_zero fun q hq => ne_of_gt (hk q hq)]
        omega
      · simp only [if_neg hak]
        omega
    rw [hsplit, Multiset.card_add, Multiset.card_replicate, ih hrest, List.map_cons,
      List.sum_cons]

theorem sum_map_filterMap {β γ : Type*} (f : β → Option γ) (g : γ → ℕ) (l : List β) :
    ((l.filterMap f).map g).sum = (l.map fun b => ((f b).map g).getD 0).sum := by
  induction l with
  | nil => rfl
  | cons b l ih =>
    rw [filterMap_cons_toList, List.map_append, List.sum_append, ih, List.map_cons, List.sum_cons]
    cases f b <;> simp

/-- An entry has spare the copies above the count the target asks for. -/
theorem extraAmount_extraOf (N : List (α × ℕ)) (p : α × ℕ) :
    ((extraOf N p).map Step.extraAmount).getD 0 = p.2 - get N p.1 := by
  unfold extraOf
  split
  · split
    · simp [Step.extraAmount]
    · simp only [Option.map_none, Option.getD_none]
      omega
  · next h => simp [Step.extraAmount, get_eq_zero_of_not_mem h]

theorem shortAmount_shortOf (src : List (α × ℕ)) (p : α × ℕ) :
    ((shortOf src p).map Step.shortAmount).getD 0 = p.2 - get src p.1 := by
  unfold shortOf
  split
  · split
    · simp [Step.shortAmount]
    · simp only [Option.map_none, Option.getD_none]
      omega
  · next h => simp [Step.shortAmount, get_eq_zero_of_not_mem h]

theorem shortAmount_extraOf (N : List (α × ℕ)) (p : α × ℕ) :
    ((extraOf N p).map Step.shortAmount).getD 0 = 0 := by
  unfold extraOf
  split
  · split <;> simp [Step.shortAmount]
  · simp [Step.shortAmount]

theorem extraAmount_shortOf (src : List (α × ℕ)) (p : α × ℕ) :
    ((shortOf src p).map Step.extraAmount).getD 0 = 0 := by
  unfold shortOf
  split
  · split <;> simp [Step.extraAmount]
  · simp [Step.extraAmount]

theorem extraOf_eq_some {N : List (α × ℕ)} {p : α × ℕ} {s : Step α}
    (h : extraOf N p = some s) : ∃ n, s = .extra p.1 n := by
  unfold extraOf at h
  split at h
  · split at h
    · exact ⟨_, (Option.some.inj h).symm⟩
    · cases h
  · exact ⟨_, (Option.some.inj h).symm⟩

theorem shortOf_eq_some {src : List (α × ℕ)} {p : α × ℕ} {s : Step α}
    (h : shortOf src p = some s) : ∃ n, s = .short p.1 n := by
  unfold shortOf at h
  split at h
  · split at h
    · exact ⟨_, (Option.some.inj h).symm⟩
    · cases h
  · exact ⟨_, (Option.some.inj h).symm⟩

theorem extraOf_bind_shortKey (N : List (α × ℕ)) (p : α × ℕ) :
    (extraOf N p).bind Step.shortKey = none := by
  rcases h : extraOf N p with _ | s
  · rfl
  · obtain ⟨n, rfl⟩ := extraOf_eq_some h
    rfl

theorem shortOf_bind_extraKey (src : List (α × ℕ)) (p : α × ℕ) :
    (shortOf src p).bind Step.extraKey = none := by
  rcases h : shortOf src p with _ | s
  · rfl
  · obtain ⟨n, rfl⟩ := shortOf_eq_some h
    rfl

theorem shortKeys_extraOf (N src : List (α × ℕ)) :
    (src.filterMap (extraOf N)).filterMap Step.shortKey = [] := by
  rw [List.filterMap_filterMap]
  simp [extraOf_bind_shortKey]

/-- The keys of the steps that lack copies are keys of the target entries, in order. -/
theorem sublist_shortKeys (N src : List (α × ℕ)) :
    List.Sublist ((N.filterMap (shortOf src)).filterMap Step.shortKey) (N.map Prod.fst) := by
  induction N with
  | nil => exact List.Sublist.slnil
  | cons p N ih =>
    rw [filterMap_cons_toList, List.filterMap_append, List.map_cons]
    rcases h : shortOf src p with _ | s
    · simpa using ih.cons p.1
    · obtain ⟨n, rfl⟩ := shortOf_eq_some h
      simpa [Step.shortKey] using ih.cons_cons p.1

/-- A source entry has a step with copies to spare when the target does not name its key
or asks for fewer copies. -/
theorem extraOf_bind_extraKey (N : List (α × ℕ)) (p : α × ℕ) (k : α) :
    (extraOf N p).bind Step.extraKey = some k ↔
      p.1 = k ∧ (k ∉ N.map Prod.fst ∨ get N k < p.2) := by
  unfold extraOf
  by_cases hkey : p.1 = k
  · subst hkey
    split
    · next hmem => by_cases hlt : get N p.1 < p.2 <;> simp [Step.extraKey, hlt, hmem]
    · next hmem => simp [Step.extraKey, hmem]
  · split
    · split <;> simp [Step.extraKey, hkey]
    · simp [Step.extraKey, hkey]

section Counts

variable {wild : α} {dst src : List (α × ℕ)}
  (hsrc : Sorted src) (hdst : Sorted dst) (hwild : ∀ p ∈ dst, p.1 ≤ wild)
include hsrc hdst hwild

/-- The walk finds every spare copy: those of each source key above what the target asks
for, all of them for the keys it does not name before the wildcard. -/
theorem sum_extraAmount :
    ((steps wild dst src).map Step.extraAmount).sum =
      (src.map fun p => p.2 - get (named wild dst) p.1).sum := by
  rw [((steps_perm hsrc hdst hwild).map _).sum_nat, List.map_append, List.sum_append,
    sum_map_filterMap, sum_map_filterMap]
  simp only [extraAmount_extraOf, extraAmount_shortOf, List.map_const', List.sum_replicate_nat,
    Nat.mul_zero, Nat.add_zero]

/-- The walk finds every missing copy of the target keys before the wildcard. -/
theorem sum_shortAmount :
    ((steps wild dst src).map Step.shortAmount).sum =
      ((named wild dst).map fun p => p.2 - get src p.1).sum := by
  rw [((steps_perm hsrc hdst hwild).map _).sum_nat, List.map_append, List.sum_append,
    sum_map_filterMap, sum_map_filterMap]
  simp only [shortAmount_extraOf, shortAmount_shortOf, List.map_const', List.sum_replicate_nat,
    Nat.mul_zero, Nat.zero_add]

/-- The keys with spare copies: those the target does not name before the wildcard, and
those it asks fewer copies of. -/
theorem mem_extraKeys (k : α) :
    k ∈ (steps wild dst src).filterMap Step.extraKey ↔
      k ∈ src.map Prod.fst ∧
        (k ∉ (named wild dst).map Prod.fst ∨ get (named wild dst) k < get src k) := by
  rw [((steps_perm hsrc hdst hwild).filterMap _).mem_iff, List.filterMap_append,
    List.filterMap_filterMap, List.filterMap_filterMap, List.mem_append, List.mem_filterMap,
    List.mem_filterMap]
  simp only [shortOf_bind_extraKey, reduceCtorEq, and_false, exists_false, or_false,
    extraOf_bind_extraKey]
  constructor
  · rintro ⟨p, hp, rfl, h⟩
    exact ⟨List.mem_map.mpr ⟨p, hp, rfl⟩, by rwa [get_of_mem hsrc hp]⟩
  · rintro ⟨hk, h⟩
    obtain ⟨p, hp, rfl⟩ := List.mem_map.mp hk
    exact ⟨p, hp, rfl, by rwa [get_of_mem hsrc hp] at h⟩

/-- Each target key lacks copies at most once, and the wildcard never does. -/
theorem shortKeys_nodup :
    ((steps wild dst src).filterMap Step.shortKey).Nodup ∧
      ∀ k ∈ (steps wild dst src).filterMap Step.shortKey, k ≠ wild := by
  have hperm := (steps_perm hsrc hdst hwild).filterMap Step.shortKey
  rw [List.filterMap_append, shortKeys_extraOf, List.nil_append] at hperm
  have hsub := sublist_shortKeys (named wild dst) src
  refine ⟨hperm.nodup_iff.mpr (((hdst.named wild).nodup_keys).sublist hsub), fun k hk => ?_⟩
  obtain ⟨p, hp, rfl⟩ := List.mem_map.mp (hsub.subset (hperm.mem_iff.mp hk))
  exact (by simpa using (List.mem_filter.mp hp).2 : p.1 ≠ wild)

end Counts

end Walk

/-! ## The steps that lack copies, as entries -/

omit [LinearOrder α] in
theorem keys_filterMap_shortEntry : ∀ l : List (Step α),
    (l.filterMap Step.shortEntry).map Prod.fst = l.filterMap Step.shortKey
  | [] => rfl
  | .extra _ _ :: l => by
    simp only [List.filterMap_cons, Step.shortEntry, Step.shortKey]
    exact keys_filterMap_shortEntry l
  | .short k n :: l => by
    simp only [List.filterMap_cons, Step.shortEntry, Step.shortKey, List.map_cons]
    rw [keys_filterMap_shortEntry l]

omit [LinearOrder α] in
theorem sum_filterMap_shortEntry : ∀ l : List (Step α),
    ((l.filterMap Step.shortEntry).map Prod.snd).sum = (l.map Step.shortAmount).sum
  | [] => rfl
  | .extra _ _ :: l => by
    simp only [List.filterMap_cons, Step.shortEntry, List.map_cons, Step.shortAmount,
      List.sum_cons, Nat.zero_add]
    exact sum_filterMap_shortEntry l
  | .short k n :: l => by
    simp only [List.filterMap_cons, Step.shortEntry, List.map_cons, Step.shortAmount,
      List.sum_cons]
    rw [sum_filterMap_shortEntry l]

/-! ## Assigning counts in turn -/

/-- Assigning fresh distinct keys in turn adds their counts to the total. -/
theorem total_foldl_setCount : ∀ {l m : List (α × ℕ)}, Sorted m → (l.map Prod.fst).Nodup →
    (∀ p ∈ l, p.1 ∉ m.map Prod.fst) →
    total (l.foldl (fun m p => setCount m p.1 p.2) m) = total m + (l.map Prod.snd).sum
  | [], m, _, _, _ => by simp
  | p :: l, m, hm, hl, hfresh => by
    rw [List.map_cons, List.nodup_cons] at hl
    obtain ⟨hp, hl'⟩ := hl
    have hget : get m p.1 = 0 := get_eq_zero_of_not_mem (hfresh p List.mem_cons_self)
    have hstep := total_setCount hm p.1 p.2
    rw [hget, Nat.add_zero] at hstep
    rw [List.foldl_cons, total_foldl_setCount (hm.setCount _ _) hl' fun q hq hmem => ?_,
      hstep, List.map_cons, List.sum_cons]
    · omega
    · -- a later key is neither `p`'s nor one `m` had
      rcases (mem_keys_setCount m p.1 q.1 p.2).mp hmem with heq | hmem
      · exact hp (heq ▸ List.mem_map.mpr ⟨q, hq, rfl⟩)
      · exact hfresh q (List.mem_cons_of_mem _ hq) hmem

/-- Assigning keys in turn adds exactly those keys. -/
theorem mem_keys_foldl_setCount : ∀ (l m : List (α × ℕ)) (k : α),
    k ∈ (l.foldl (fun m p => setCount m p.1 p.2) m).map Prod.fst ↔
      k ∈ m.map Prod.fst ∨ k ∈ l.map Prod.fst
  | [], m, k => by simp
  | p :: l, m, k => by
    rw [List.foldl_cons, mem_keys_foldl_setCount l _ k, mem_keys_setCount, List.map_cons,
      List.mem_cons]
    tauto

end CountWalk

end LizardFs
