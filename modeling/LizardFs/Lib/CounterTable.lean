import Mathlib

/-!
# Tables of wrapping counters

A table of `uint64_t` counters indexed by keys, and the loop that adds one to,
or takes one from, the counter of each key of a list in turn (`counter[key]++`
for every key the loop meets). `bumpAll_add_one` and `bumpAll_sub_one` give the
table after it: every counter moved by the number of times its key occurs in the
list, modulo `2 ^ 64`.

What such counters should hold is a tally: how often the records of an
association list contribute a key. Adding, replacing or removing one record
moves the tally by that record's own count (`tally_cons`, `tally_replace`,
`tally_erase`), which is what a program that keeps the counters incrementally
does; `toUInt64_of_add_eq` carries such a move to the wrapping counters.
-/

namespace CounterTable

variable {κ : Type} [DecidableEq κ]

/-- Apply `op` to the counter of each key of `ks`, in order. -/
def bumpAll (op : UInt64 → UInt64) (ks : List κ) (f : κ → UInt64) : κ → UInt64 :=
  ks.foldl (fun f k => Function.update f k (op (f k))) f

@[simp] theorem bumpAll_nil (op : UInt64 → UInt64) (f : κ → UInt64) : bumpAll op [] f = f := rfl

theorem bumpAll_cons (op : UInt64 → UInt64) (x : κ) (ks : List κ) (f : κ → UInt64) :
    bumpAll op (x :: ks) f = bumpAll op ks (Function.update f x (op (f x))) := rfl

/-- Adding one per occurrence adds the key's count. -/
theorem bumpAll_add_one (ks : List κ) (f : κ → UInt64) (k : κ) :
    bumpAll (· + 1) ks f k = f k + (ks.count k).toUInt64 := by
  induction ks generalizing f with
  | nil => simp
  | cons x ks ih =>
    rw [bumpAll_cons, ih, List.count_cons]
    by_cases hk : k = x
    · subst hk
      simp only [Function.update_self, beq_self_eq_true, if_true, Nat.toUInt64, UInt64.ofNat_add]
      grind
    · have hx : (x == k) = false := beq_false_of_ne (Ne.symm hk)
      simp only [Function.update_of_ne hk, hx, Bool.false_eq_true, if_false, Nat.add_zero]

/-- Taking one per occurrence takes the key's count. -/
theorem bumpAll_sub_one (ks : List κ) (f : κ → UInt64) (k : κ) :
    bumpAll (· - 1) ks f k = f k - (ks.count k).toUInt64 := by
  induction ks generalizing f with
  | nil => simp
  | cons x ks ih =>
    rw [bumpAll_cons, ih, List.count_cons]
    by_cases hk : k = x
    · subst hk
      simp only [Function.update_self, beq_self_eq_true, if_true, Nat.toUInt64, UInt64.ofNat_add]
      grind
    · have hx : (x == k) = false := beq_false_of_ne (Ne.symm hk)
      simp only [Function.update_of_ne hk, hx, Bool.false_eq_true, if_false, Nat.add_zero]

/-! ## Tallies over an association list -/

variable {ι α : Type} (keys : α → List κ)

/-- How often the records of `xs` contribute the key `k`. -/
def tally (xs : List (ι × α)) (k : κ) : Nat := (xs.map fun e => (keys e.2).count k).sum

/-- Replace the record of `i` by `a`. -/
def replace [DecidableEq ι] (xs : List (ι × α)) (i : ι) (a : α) : List (ι × α) :=
  xs.map fun e => if e.1 = i then (i, a) else e

@[simp] theorem tally_nil (k : κ) : tally keys ([] : List (ι × α)) k = 0 := rfl

theorem tally_cons (i : ι) (a : α) (xs : List (ι × α)) (k : κ) :
    tally keys ((i, a) :: xs) k = (keys a).count k + tally keys xs k := by
  simp [tally]

section Replace

variable [DecidableEq ι]

theorem map_fst_replace (xs : List (ι × α)) (i : ι) (a : α) :
    (replace xs i a).map Prod.fst = xs.map Prod.fst := by
  induction xs with
  | nil => rfl
  | cons e xs ih =>
    by_cases he : e.1 = i
    · simp only [replace, List.map_cons, he, if_true] at ih ⊢
      rw [ih]
    · simp only [replace, List.map_cons, he, if_false] at ih ⊢
      rw [ih]

/-- A record for an id not in the list leaves it as it is. -/
theorem replace_of_not_mem {xs : List (ι × α)} {i : ι} (hi : i ∉ xs.map Prod.fst) (a : α) :
    replace xs i a = xs := by
  induction xs with
  | nil => rfl
  | cons e xs ih =>
    simp only [List.map_cons, List.mem_cons, not_or] at hi
    simp only [replace, List.map_cons, Ne.symm hi.1, if_false] at ih ⊢
    rw [ih hi.2]

/-- With unique ids, replacing the record `a` of `i` by `a'` moves the tally of
every key by the difference of the two records' counts. -/
theorem tally_replace {xs : List (ι × α)} (hu : (xs.map Prod.fst).Nodup) {i : ι} {a : α}
    (hi : xs.lookup i = some a) (a' : α) (k : κ) :
    tally keys (replace xs i a') k + (keys a).count k = tally keys xs k + (keys a').count k := by
  induction xs with
  | nil => simp at hi
  | cons e xs ih =>
    obtain ⟨j, b⟩ := e
    simp only [List.map_cons, List.nodup_cons] at hu
    by_cases hj : j = i
    · subst hj
      -- the record of `i` is this one, and no later record has its id
      have hb : b = a := by simpa [List.lookup] using hi
      subst hb
      have hrest := replace_of_not_mem hu.1 a'
      simp only [replace] at hrest ⊢
      rw [List.map_cons, if_pos rfl, hrest, tally_cons, tally_cons]
      omega
    · have hi' : xs.lookup i = some a := by
        simpa [List.lookup, beq_false_of_ne (Ne.symm hj)] using hi
      have := ih hu.2 hi'
      simp only [replace, List.map_cons, hj, if_false] at this ⊢
      rw [tally_cons, tally_cons]
      omega

/-- With unique ids, dropping the record `a` of `i` takes its count from the tally. -/
theorem tally_erase {xs : List (ι × α)} (hu : (xs.map Prod.fst).Nodup) {i : ι} {a : α}
    (hi : xs.lookup i = some a) (k : κ) :
    tally keys (xs.filter fun e => e.1 ≠ i) k + (keys a).count k = tally keys xs k := by
  induction xs with
  | nil => simp at hi
  | cons e xs ih =>
    obtain ⟨j, b⟩ := e
    simp only [List.map_cons, List.nodup_cons] at hu
    by_cases hj : j = i
    · subst hj
      have hb : b = a := by simpa [List.lookup] using hi
      subst hb
      -- no later record has the id `j`: the filter keeps all of them
      have hrest : (xs.filter fun e => e.1 ≠ j) = xs := by
        refine List.filter_eq_self.mpr fun e he => ?_
        have : e.1 ≠ j := fun h => hu.1 (h ▸ List.mem_map_of_mem he)
        simpa using this
      rw [List.filter_cons_of_neg (by simp), hrest, tally_cons]
      omega
    · have hi' : xs.lookup i = some a := by
        simpa [List.lookup, beq_false_of_ne (Ne.symm hj)] using hi
      have := ih hu.2 hi'
      rw [List.filter_cons_of_pos (by simpa using hj), tally_cons, tally_cons]
      omega

/-- With unique ids, dropping the record of `i` shortens the list by one. -/
theorem length_filter_ne {xs : List (ι × α)} (hu : (xs.map Prod.fst).Nodup) {i : ι} {a : α}
    (hi : xs.lookup i = some a) : (xs.filter fun e => e.1 ≠ i).length + 1 = xs.length := by
  -- the tally of a key every record contributes once is the length
  have h := tally_erase (fun _ => [()]) hu hi ()
  simpa [tally, List.map_const', List.sum_replicate_nat] using h

end Replace

/-- A move of a tally, `t' + a = t + b`, is the same move of its wrapping counter. -/
theorem toUInt64_of_add_eq {t t' a b : Nat} (h : t' + a = t + b) :
    t'.toUInt64 = t.toUInt64 - a.toUInt64 + b.toUInt64 := by
  have h64 := congrArg Nat.toUInt64 h
  simp only [Nat.toUInt64, UInt64.ofNat_add] at h64 ⊢
  grind

end CounterTable
