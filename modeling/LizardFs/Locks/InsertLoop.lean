import Mathlib
import LizardFs.Locks.ApplyOwners

/-!
# The loop of `LockRanges::insert`

`insertLoop` walks the window of ranges the new lock can touch, and in each round does
one of seven things with the range `other` it looks at (`StepCase`): merge an adjacent
range of the same lock into the new one, stop, pass a range it does not overlap, split
off the part of the lock before `other`, apply the lock to the front of `other` or to
all of it, or split off the part of `other` before the lock.

`LoopInv` is what holds of the lock still to be placed and of the ranges still to be
visited. `LoopSpec` is what the ranges the loop leaves satisfy: they grant what the
visited ranges granted, updated by the lock (`LockMap.update`), they are well-formed
where they are not erased, in `Before` order, and between the bounds of the ranges they
came from. Each kind of round composes the `LoopSpec` of the rest of the loop with the
one range it emits (`LoopSpec.cons`), and keeps `LoopInv`. The potential `pot` bounds the
rounds left, so with fuel at least `pot` the loop meets its spec (`insertLoop_spec`).
-/

namespace LizardFs

namespace LockRanges

open LockRange

/-! ## One round of the loop -/

/-- The seven things one round of the loop of `insert` can do with `other`. -/
inductive StepCase (range other : LockRange) : InsertStep → Prop where
  /-- `other` is adjacent, with the same owners and type: it merges into `range` -/
  | merge (hst : range.sticks other = true) (hsame : ownersEq range.owners other.owners = true)
      (hty : range.type = other.type) :
      StepCase range other (.next { other with type := .unlock }
        { range with start := min range.start other.start, end_ := max range.end_ other.end_ })
  /-- `other` starts at or after the end of `range` -/
  | stop (hle : range.end_ ≤ other.start) : StepCase range other .stop
  /-- `other` ends before `range` -/
  | skip (hlt : other.start < range.end_) (hov : range.overlaps other = false) :
      StepCase range other (.next other range)
  /-- `range` starts first: its part before `other` goes in front -/
  | splitLeft (hov : range.overlaps other = true) (hlt : range.start < other.start) :
      StepCase range other
        (.split { range with end_ := other.start } { range with start := other.start } other)
  /-- both start together and `other` reaches further: its front takes the lock -/
  | front (hov : range.overlaps other = true) (heq : range.start = other.start)
      (hlt : range.end_ < other.end_) :
      StepCase range other
        (.split (applyOwners range { other with end_ := range.end_ }
            (ownersEq range.owners other.owners))
          { range with start := other.end_ } { other with start := range.end_ })
  /-- both start together and `range` covers `other`: all of it takes the lock -/
  | whole (hov : range.overlaps other = true) (heq : range.start = other.start)
      (hle : other.end_ ≤ range.end_) :
      StepCase range other
        (.next (applyOwners range other (ownersEq range.owners other.owners))
          { range with start := other.end_ })
  /-- `other` starts first: its part before `range` goes in front -/
  | splitRight (hov : range.overlaps other = true) (hgt : other.start < range.start) :
      StepCase range other
        (.split { other with end_ := range.start } range { other with start := range.start })

theorem insertStep_cases (range other : LockRange) :
    StepCase range other (insertStep range other) := by
  unfold insertStep
  simp only
  split
  · next h =>
    simp only [Bool.and_eq_true, beq_iff_eq] at h
    exact .merge h.1.1 h.1.2 h.2
  · split
    · next hle => exact .stop hle
    · next hle =>
      split
      · next hov => exact .skip (by omega) (by simpa using hov)
      · next hov =>
        have hov : range.overlaps other = true := by simpa using hov
        split
        · next hlt => exact .splitLeft hov hlt
        · split
          · next heq =>
            split
            · next hlt => exact .front hov heq hlt
            · next hlt => exact .whole hov heq (by omega)
          · next hlt hne => exact .splitRight hov (by omega)

/-! ## The loop -/

/-- The ranges the loop leaves in the window, in order: those it emitted, what is left
of the lock unless it is empty, and the ranges it did not reach. -/
def emitted (res : List LockRange × LockRange × List LockRange) : List LockRange :=
  res.1 ++ (if res.2.1.start < res.2.1.end_ then [res.2.1] else []) ++ res.2.2

/-- What holds of the lock still to be placed and of the ranges still to be visited. -/
structure LoopInv (o : Owner) (range : LockRange) (rest : List LockRange) : Prop where
  owners : range.owners = [o]
  type : range.type ≠ .invalid
  wf : ∀ y ∈ rest, y.WellFormed
  chain : rest.Pairwise Before
  compat : ∀ y ∈ rest, range.overlaps y = true → Compatible range y

/-- What the ranges `L` the loop leaves satisfy, for the lock `range` and the ranges
`rest` it starts from. -/
structure LoopSpec (o : Owner) (range : LockRange) (rest L : List LockRange) : Prop where
  grants : Grants L = (Grants rest).update range.start range.end_ o.key range.type
  wf : ∀ z ∈ L, z.unlocking = false → z.WellFormed
  chain : (L.filter fun z => !z.unlocking).Pairwise Before
  lower : ∀ A, A ≤ range.start → (∀ y ∈ rest, A ≤ y.start) → ∀ z ∈ L, A ≤ z.start
  upper : ∀ B, range.end_ ≤ B → (∀ y ∈ rest, y.end_ ≤ B) → ∀ z ∈ L, z.end_ ≤ B

/-- Rounds left to the loop: none once the lock is empty or the ranges are used up, two
per range otherwise, one less when the first range starts with the lock. -/
def pot (range : LockRange) : List LockRange → ℕ
  | [] => 0
  | other :: rest =>
    if range.end_ ≤ range.start then 0
    else 2 * (rest.length + 1) - (if other.start = range.start then 1 else 0)

theorem pot_le (range : LockRange) (rest : List LockRange) : pot range rest ≤ 2 * rest.length := by
  cases rest with
  | nil => simp [pot]
  | cons other rest =>
    simp only [pot, List.length_cons]
    split <;> omega

theorem pot_cons_of_lt {range other : LockRange} (rest : List LockRange) (h : range.start < range.end_) :
    pot range (other :: rest) =
      2 * (rest.length + 1) - (if other.start = range.start then 1 else 0) := by
  simp [pot, Nat.not_le.mpr h]

theorem LoopInv.tail {o : Owner} {range other : LockRange} {rest : List LockRange}
    (hinv : LoopInv o range (other :: rest)) : LoopInv o range rest :=
  ⟨hinv.owners, hinv.type, fun y hy => hinv.wf y (List.mem_cons_of_mem _ hy),
    hinv.chain.of_cons, fun y hy => hinv.compat y (List.mem_cons_of_mem _ hy)⟩

theorem LoopInv.head_before {o : Owner} {range other : LockRange} {rest : List LockRange}
    (hinv : LoopInv o range (other :: rest)) : ∀ y ∈ rest, other.end_ ≤ y.start :=
  (List.pairwise_cons.mp hinv.chain).1

theorem LoopInv.head_wf {o : Owner} {range other : LockRange} {rest : List LockRange}
    (hinv : LoopInv o range (other :: rest)) : other.WellFormed :=
  hinv.wf other List.mem_cons_self

/-- Once the lock is empty the loop ends, leaving the ranges it did not reach. -/
theorem spec_of_empty {o : Owner} {range : LockRange} {rest : List LockRange}
    (hinv : LoopInv o range rest) (h : range.end_ ≤ range.start) :
    LoopSpec o range rest (emitted ([], range, rest)) := by
  have hL : emitted ([], range, rest) = rest := by simp [emitted, Nat.not_lt.mpr h]
  rw [hL]
  exact ⟨(LockMap.update_of_le _ h _ _).symm, fun z hz _ => hinv.wf z hz, hinv.chain.filter _,
    fun A _ hA z hz => hA z hz, fun B _ hB z hz => hB z hz⟩

/-- When every range left starts after the lock, the loop ends with the lock in front. -/
theorem spec_of_before {o : Owner} {range : LockRange} {rest : List LockRange}
    (hinv : LoopInv o range rest) (h : ∀ y ∈ rest, range.end_ ≤ y.start) :
    LoopSpec o range rest (emitted ([], range, rest)) := by
  by_cases hne : range.start < range.end_
  · have hL : emitted ([], range, rest) = range :: rest := by simp [emitted, hne]
    rw [hL]
    refine ⟨?_, ?_, ?_, ?_, ?_⟩
    · rw [grants_cons, grants_lock hinv.owners,
        LockMap.update_of_vanishes (vanishes_grants_of_le h)]
    · intro z hz hlive
      rcases List.mem_cons.mp hz with rfl | hz
      · exact wellFormed_lock hinv.owners hinv.type hne hlive
      · exact hinv.wf z hz
    · have hrest := hinv.chain.filter fun z => !z.unlocking
      simp only [List.filter_cons]
      split
      · exact List.pairwise_cons.mpr ⟨fun z hz => h z (List.mem_of_mem_filter hz), hrest⟩
      · exact hrest
    · intro A hA hrest z hz
      rcases List.mem_cons.mp hz with rfl | hz
      · exact hA
      · exact hrest z hz
    · intro B hB hrest z hz
      rcases List.mem_cons.mp hz with rfl | hz
      · exact hB
      · exact hrest z hz
  · exact spec_of_empty hinv (by omega)

/-- A round that emits `piece` and goes on with `range'` and `rest'`: the spec of the
rest of the loop, and what `piece` adds to it, give the spec of the whole. -/
theorem LoopSpec.cons {o : Owner} {range range' piece : LockRange} {rest rest' L : List LockRange}
    (h : LoopSpec o range' rest' L)
    (hgrants : Grants [piece] ⊔ (Grants rest').update range'.start range'.end_ o.key range'.type =
      (Grants rest).update range.start range.end_ o.key range.type)
    (hwf : piece.unlocking = false → piece.WellFormed)
    (hbefore : piece.unlocking = false →
      piece.end_ ≤ range'.start ∧ ∀ y ∈ rest', piece.end_ ≤ y.start)
    (hlower : ∀ A, A ≤ range.start → (∀ y ∈ rest, A ≤ y.start) →
      A ≤ piece.start ∧ A ≤ range'.start ∧ ∀ y ∈ rest', A ≤ y.start)
    (hupper : ∀ B, range.end_ ≤ B → (∀ y ∈ rest, y.end_ ≤ B) →
      piece.end_ ≤ B ∧ range'.end_ ≤ B ∧ ∀ y ∈ rest', y.end_ ≤ B) :
    LoopSpec o range rest (piece :: L) := by
  refine ⟨?_, ?_, ?_, ?_, ?_⟩
  · rw [grants_cons, h.grants, hgrants]
  · intro z hz hlive
    rcases List.mem_cons.mp hz with rfl | hz
    · exact hwf hlive
    · exact h.wf z hz hlive
  · simp only [List.filter_cons]
    split
    · next hlive =>
      -- `piece` ends before everything the rest of the loop leaves
      have hlive : piece.unlocking = false := by simpa using hlive
      obtain ⟨h1, h2⟩ := hbefore hlive
      exact List.pairwise_cons.mpr
        ⟨fun z hz => h.lower _ h1 h2 z (List.mem_of_mem_filter hz), h.chain⟩
    · exact h.chain
  · intro A hA hrest z hz
    obtain ⟨h1, h2, h3⟩ := hlower A hA hrest
    rcases List.mem_cons.mp hz with rfl | hz
    · exact h1
    · exact h.lower A h2 h3 z hz
  · intro B hB hrest z hz
    obtain ⟨h1, h2, h3⟩ := hupper B hB hrest
    rcases List.mem_cons.mp hz with rfl | hz
    · exact h1
    · exact h.upper B h2 h3 z hz

/-! ## The seven rounds -/

section Rounds

variable {o : Owner} {range other : LockRange} {rest L : List LockRange}

theorem vanishes_grants_singleton {r : LockRange} {a b : ℕ} (h : r.end_ ≤ a ∨ b ≤ r.start) :
    (Grants [r]).Vanishes a b :=
  vanishes_grants (by simpa using h)

/-- A round that consumes `other` leaves fewer rounds. -/
theorem pot_lt_of_tail (hne : range.start < range.end_) (range' : LockRange) :
    pot range' rest < pot range (other :: rest) := by
  have := pot_le range' rest
  rw [pot_cons_of_lt rest hne]
  split <;> omega

/-- A part of the lock with its owners and type is compatible where the lock is. -/
theorem LoopInv.narrow (hinv : LoopInv o range rest) {range' : LockRange} {rest' : List LockRange}
    (howners : range'.owners = range.owners) (htype : range'.type = range.type)
    (hwf : ∀ y ∈ rest', y.WellFormed) (hchain : rest'.Pairwise Before)
    (hcompat : ∀ y ∈ rest', range'.overlaps y = true → Compatible range y) :
    LoopInv o range' rest' :=
  ⟨howners.trans hinv.owners, htype ▸ hinv.type, hwf, hchain,
    fun y hy hov => compatible_congr howners.symm htype.symm rfl rfl (hcompat y hy hov)⟩

theorem spec_merge (hinv : LoopInv o range (other :: rest)) (hne : range.start < range.end_)
    (hst : range.sticks other = true) (hsame : ownersEq range.owners other.owners = true)
    (hty : range.type = other.type)
    (h : LoopSpec o
      { range with start := min range.start other.start, end_ := max range.end_ other.end_ }
      rest L) :
    LoopSpec o range (other :: rest) ({ other with type := .unlock } :: L) := by
  have hafter := hinv.head_before
  have hcd := hinv.head_wf.1
  have hsticks : range.start = other.end_ ∨ other.start = range.end_ := by simpa [sticks] using hst
  have hgo : Grants [other] = (⊥ : LockMap).update other.start other.end_ o.key range.type := by
    rw [grants_singleton (keys_eq_of_ownersEq hinv.owners hsame), hty]
  refine h.cons ?_ (by simp [unlocking]) (by simp [unlocking]) ?_ ?_
  · rw [grants_of_unlocking (by simp [unlocking]), bot_sup_eq, grants_cons other rest]
    rcases hsticks with hleft | hright
    · -- `other` ends where the lock starts: the lock now starts with `other`
      have hvan : (Grants [other]).Vanishes range.start range.end_ :=
        vanishes_grants_singleton (.inl (Nat.le_of_eq hleft.symm))
      have hrest : (Grants rest).Vanishes other.start range.start :=
        vanishes_grants_of_le fun y hy => hleft ▸ hafter y hy
      show (Grants rest).update (min range.start other.start) (max range.end_ other.end_) _ _ = _
      rw [Nat.min_eq_right (by omega), Nat.max_eq_left (by omega),
        LockMap.update_split _ (m := range.start) (by omega) (by omega),
        LockMap.update_of_vanishes (LockMap.vanishes_update_left hrest _ _ _),
        LockMap.update_sup_of_vanishes_left hvan, hgo, hleft]
    · -- `other` starts where the lock ends: the lock now ends with `other`
      show (Grants rest).update (min range.start other.start) (max range.end_ other.end_) _ _ = _
      rw [Nat.min_eq_left (by omega), Nat.max_eq_right (by omega),
        LockMap.update_split _ (m := range.end_) (by omega) (by omega),
        LockMap.update_of_vanishes (vanishes_grants_of_le fun y hy => hafter y hy), hgo, hright]
  · intro A hA hrest
    have hc := hrest other List.mem_cons_self
    exact ⟨hc, Nat.le_min.mpr ⟨hA, hc⟩, fun y hy => hrest y (List.mem_cons_of_mem _ hy)⟩
  · intro B hB hrest
    have hd := hrest other List.mem_cons_self
    exact ⟨hd, Nat.max_le.mpr ⟨hB, hd⟩, fun y hy => hrest y (List.mem_cons_of_mem _ hy)⟩

theorem inv_merge (hinv : LoopInv o range (other :: rest)) (hst : range.sticks other = true) :
    LoopInv o { range with start := min range.start other.start, end_ := max range.end_ other.end_ }
      rest := by
  have hafter := hinv.head_before
  have hsticks : range.start = other.end_ ∨ other.start = range.end_ := by simpa [sticks] using hst
  refine hinv.narrow rfl rfl hinv.tail.wf hinv.tail.chain fun y hy hov => ?_
  -- the merged range reaches nothing after `other` that the lock did not
  refine hinv.compat y (List.mem_cons_of_mem _ hy) ?_
  have := hafter y hy
  have := hinv.head_wf.1
  have := (hinv.tail.wf y hy).1
  simp only [overlaps, Bool.and_eq_true, decide_eq_true_eq] at hov ⊢
  omega

theorem spec_skip (hinv : LoopInv o range (other :: rest)) (hlt : other.start < range.end_)
    (hov : range.overlaps other = false) (h : LoopSpec o range rest L) :
    LoopSpec o range (other :: rest) (other :: L) := by
  have hd : other.end_ ≤ range.start := by
    simp only [overlaps, Bool.and_eq_false_iff, decide_eq_false_iff_not] at hov
    omega
  have hafter := hinv.head_before
  refine h.cons ?_ (fun _ => hinv.head_wf) (fun _ => ⟨hd, hafter⟩) ?_ ?_
  · rw [grants_cons other rest,
      LockMap.update_sup_of_vanishes_left (vanishes_grants_singleton (.inl hd))]
  · intro A hA hrest
    exact ⟨hrest other List.mem_cons_self, hA, fun y hy => hrest y (List.mem_cons_of_mem _ hy)⟩
  · intro B hB hrest
    exact ⟨hrest other List.mem_cons_self, hB, fun y hy => hrest y (List.mem_cons_of_mem _ hy)⟩

theorem spec_splitLeft (hinv : LoopInv o range (other :: rest)) (hov : range.overlaps other = true)
    (hlt : range.start < other.start)
    (h : LoopSpec o { range with start := other.start } (other :: rest) L) :
    LoopSpec o range (other :: rest) ({ range with end_ := other.start } :: L) := by
  have hafter := hinv.head_before
  have hcd := hinv.head_wf.1
  have hcb : other.start < range.end_ := by
    simp only [overlaps, Bool.and_eq_true, decide_eq_true_eq] at hov
    exact hov.2
  -- everything left to visit starts at or after `other`
  have hstart : ∀ y ∈ other :: rest, other.start ≤ y.start := by
    intro y hy
    rcases List.mem_cons.mp hy with rfl | hy
    · exact Nat.le_refl _
    · have := hafter y hy
      omega
  refine h.cons ?_ (fun hlive => wellFormed_lock hinv.owners hinv.type hlt hlive)
    (fun _ => ⟨Nat.le_refl _, hstart⟩) ?_ ?_
  · rw [grants_lock (r := { range with end_ := other.start }) hinv.owners,
      LockMap.update_split (Grants (other :: rest)) (m := other.start) (Nat.le_of_lt hlt)
        (Nat.le_of_lt hcb),
      LockMap.update_of_vanishes (LockMap.vanishes_update_left (vanishes_grants_of_le hstart) _ _ _)]
  · intro A hA hrest
    exact ⟨hA, hrest other List.mem_cons_self, hrest⟩
  · intro B hB hrest
    have hd := hrest other List.mem_cons_self
    exact ⟨Nat.le_trans (Nat.le_of_lt hcd) hd, hB, hrest⟩

theorem inv_splitLeft (hinv : LoopInv o range (other :: rest)) (hlt : range.start < other.start) :
    LoopInv o { range with start := other.start } (other :: rest) := by
  refine hinv.narrow rfl rfl hinv.wf hinv.chain fun y hy hov => hinv.compat y hy ?_
  simp only [overlaps, Bool.and_eq_true, decide_eq_true_eq] at hov ⊢
  omega

theorem pot_splitLeft (hov : range.overlaps other = true) (hlt : range.start < other.start) :
    pot { range with start := other.start } (other :: rest) < pot range (other :: rest) := by
  have hcb : other.start < range.end_ := by
    simp only [overlaps, Bool.and_eq_true, decide_eq_true_eq] at hov
    exact hov.2
  rw [pot_cons_of_lt rest (Nat.lt_trans hlt hcb),
    @pot_cons_of_lt { range with start := other.start } other rest hcb]
  simp only [if_neg (Nat.ne_of_gt hlt), if_true]
  omega

theorem spec_front (hinv : LoopInv o range (other :: rest)) (hne : range.start < range.end_)
    (hov : range.overlaps other = true) (heq : range.start = other.start)
    (hlt : range.end_ < other.end_)
    (h : LoopSpec o { range with start := other.end_ } ({ other with start := range.end_ } :: rest) L) :
    LoopSpec o range (other :: rest)
      (applyOwners range { other with end_ := range.end_ } (ownersEq range.owners other.owners) :: L) := by
  have hafter := hinv.head_before
  have hp : ({ other with end_ := range.end_ } : LockRange).WellFormed :=
    hinv.head_wf.withEnd (heq ▸ hne)
  have hcp : Compatible range { other with end_ := range.end_ } :=
    compatible_congr rfl rfl rfl rfl (hinv.compat other List.mem_cons_self hov)
  have hgp : Grants [applyOwners range { other with end_ := range.end_ } (ownersEq range.owners other.owners)] =
      (Grants [{ other with end_ := range.end_ }]).update range.start range.end_ o.key range.type := by
    rw [heq]
    exact grants_applyOwners hinv.owners hp hcp
  -- the back of `other` and the ranges after it have nothing on the lock's bytes
  have hvan : (Grants [{ other with start := range.end_ }] ⊔ Grants rest).Vanishes
      range.start range.end_ :=
    LockMap.vanishes_sup (vanishes_grants_singleton (.inr (Nat.le_refl _)))
      (vanishes_grants_of_le fun y hy => Nat.le_trans (Nat.le_of_lt hlt) (hafter y hy))
  refine h.cons ?_ (fun hlive => wellFormed_applyOwners hinv.owners hinv.type hp hcp hlive) ?_ ?_ ?_
  · -- the front of `other` takes the lock, its back stays as it was
    rw [hgp, LockMap.update_of_le _ (Nat.le_of_lt hlt), grants_cons other rest,
      grants_split other (m := range.end_) (heq ▸ Nat.le_of_lt hne) (Nat.le_of_lt hlt), sup_assoc,
      LockMap.update_sup_of_vanishes _ hvan, grants_cons { other with start := range.end_ } rest]
  · intro _
    refine ⟨by simp only [applyOwners_end]; exact Nat.le_of_lt hlt, fun y hy => ?_⟩
    rcases List.mem_cons.mp hy with rfl | hy
    · simp
    · simp only [applyOwners_end]
      exact Nat.le_trans (Nat.le_of_lt hlt) (hafter y hy)
  · intro A hA hrest
    have hc := hrest other List.mem_cons_self
    have hcd := hinv.head_wf.1
    refine ⟨by simp only [applyOwners_start]; exact hc, show A ≤ other.end_ by omega, fun y hy => ?_⟩
    rcases List.mem_cons.mp hy with rfl | hy
    · exact Nat.le_trans hA (Nat.le_of_lt hne)
    · exact hrest y (List.mem_cons_of_mem _ hy)
  · intro B hB hrest
    have hd := hrest other List.mem_cons_self
    refine ⟨by simp only [applyOwners_end]; exact hB, hB, fun y hy => ?_⟩
    rcases List.mem_cons.mp hy with rfl | hy
    · exact hd
    · exact hrest y (List.mem_cons_of_mem _ hy)

theorem inv_front (hinv : LoopInv o range (other :: rest)) (hlt : range.end_ < other.end_) :
    LoopInv o { range with start := other.end_ } ({ other with start := range.end_ } :: rest) := by
  have hafter := hinv.head_before
  refine hinv.narrow rfl rfl ?_ ?_ ?_
  · intro y hy
    rcases List.mem_cons.mp hy with rfl | hy
    · exact hinv.head_wf.withStart hlt
    · exact hinv.tail.wf y hy
  · exact List.pairwise_cons.mpr ⟨hafter, hinv.tail.chain⟩
  · -- what is left of the lock is empty and overlaps nothing
    intro y hy hov
    simp only [overlaps, Bool.and_eq_true, decide_eq_true_eq] at hov
    rcases List.mem_cons.mp hy with rfl | hy
    · exact absurd hov.1 (Nat.lt_irrefl _)
    · have := hafter y hy
      omega

theorem pot_front (hne : range.start < range.end_) (hlt : range.end_ < other.end_) :
    pot { range with start := other.end_ } ({ other with start := range.end_ } :: rest) <
      pot range (other :: rest) := by
  have h0 : pot { range with start := other.end_ } ({ other with start := range.end_ } :: rest) = 0 := by
    simp only [pot]
    rw [if_pos (Nat.le_of_lt hlt)]
  rw [h0, pot_cons_of_lt rest hne]
  split <;> omega

theorem spec_whole (hinv : LoopInv o range (other :: rest)) (hov : range.overlaps other = true)
    (heq : range.start = other.start) (hle : other.end_ ≤ range.end_)
    (h : LoopSpec o { range with start := other.end_ } rest L) :
    LoopSpec o range (other :: rest)
      (applyOwners range other (ownersEq range.owners other.owners) :: L) := by
  have hafter := hinv.head_before
  have hother := hinv.head_wf
  have hcd := hother.1
  have hco := hinv.compat other List.mem_cons_self hov
  refine h.cons ?_ (fun hlive => wellFormed_applyOwners hinv.owners hinv.type hother hco hlive)
    ?_ ?_ ?_
  · -- all of `other` takes the lock, and the lock goes on after it
    have hvan : (Grants [other]).Vanishes other.end_ range.end_ :=
      vanishes_grants_singleton (.inl (Nat.le_refl _))
    have hrest : ((Grants rest).update other.end_ range.end_ o.key range.type).Vanishes
        other.start other.end_ :=
      LockMap.vanishes_update_left (vanishes_grants_of_le hafter) _ _ _
    rw [grants_applyOwners hinv.owners hother hco, grants_cons other rest, heq,
      LockMap.update_split _ (m := other.end_) (Nat.le_of_lt hcd) hle,
      LockMap.update_sup_of_vanishes_left hvan, LockMap.update_sup_of_vanishes _ hrest]
  · intro _
    exact ⟨by simp, fun y hy => by simpa using hafter y hy⟩
  · intro A hA hrest
    have hc := hrest other List.mem_cons_self
    exact ⟨by simpa using hc, show A ≤ other.end_ by omega,
      fun y hy => hrest y (List.mem_cons_of_mem _ hy)⟩
  · intro B hB hrest
    exact ⟨by simpa using hrest other List.mem_cons_self, hB,
      fun y hy => hrest y (List.mem_cons_of_mem _ hy)⟩

theorem inv_whole (hinv : LoopInv o range (other :: rest)) (heq : range.start = other.start) :
    LoopInv o { range with start := other.end_ } rest := by
  have hcd := hinv.head_wf.1
  refine hinv.narrow rfl rfl hinv.tail.wf hinv.tail.chain fun y hy hov =>
    hinv.compat y (List.mem_cons_of_mem _ hy) ?_
  simp only [overlaps, Bool.and_eq_true, decide_eq_true_eq] at hov ⊢
  omega

theorem spec_splitRight (hinv : LoopInv o range (other :: rest)) (hne : range.start < range.end_)
    (hov : range.overlaps other = true) (hgt : other.start < range.start)
    (h : LoopSpec o range ({ other with start := range.start } :: rest) L) :
    LoopSpec o range (other :: rest) ({ other with end_ := range.start } :: L) := by
  have hafter := hinv.head_before
  have had : range.start < other.end_ := by
    simp only [overlaps, Bool.and_eq_true, decide_eq_true_eq] at hov
    exact hov.1
  refine h.cons ?_ (fun _ => hinv.head_wf.withEnd hgt) ?_ ?_ ?_
  · -- the front of `other` is before the lock and stays as it was
    rw [grants_cons other rest, grants_split other (m := range.start) (Nat.le_of_lt hgt)
        (Nat.le_of_lt had), sup_assoc,
      LockMap.update_sup_of_vanishes_left (vanishes_grants_singleton (.inl (Nat.le_refl _))),
      grants_cons { other with start := range.start } rest]
  · intro _
    refine ⟨Nat.le_refl _, fun y hy => ?_⟩
    rcases List.mem_cons.mp hy with rfl | hy
    · exact Nat.le_refl _
    · exact Nat.le_trans (Nat.le_of_lt had) (hafter y hy)
  · intro A hA hrest
    refine ⟨hrest other List.mem_cons_self, hA, fun y hy => ?_⟩
    rcases List.mem_cons.mp hy with rfl | hy
    · exact hA
    · exact hrest y (List.mem_cons_of_mem _ hy)
  · intro B hB hrest
    refine ⟨Nat.le_trans (Nat.le_of_lt hne) hB, hB, fun y hy => ?_⟩
    rcases List.mem_cons.mp hy with rfl | hy
    · exact hrest other List.mem_cons_self
    · exact hrest y (List.mem_cons_of_mem _ hy)

theorem inv_splitRight (hinv : LoopInv o range (other :: rest)) (hov : range.overlaps other = true) :
    LoopInv o range ({ other with start := range.start } :: rest) := by
  have hafter := hinv.head_before
  have had : range.start < other.end_ := by
    simp only [overlaps, Bool.and_eq_true, decide_eq_true_eq] at hov
    exact hov.1
  refine hinv.narrow rfl rfl ?_ ?_ ?_
  · intro y hy
    rcases List.mem_cons.mp hy with rfl | hy
    · exact hinv.head_wf.withStart had
    · exact hinv.tail.wf y hy
  · exact List.pairwise_cons.mpr ⟨hafter, hinv.tail.chain⟩
  · intro y hy hov'
    rcases List.mem_cons.mp hy with rfl | hy
    · exact compatible_congr rfl rfl rfl rfl (hinv.compat other List.mem_cons_self hov)
    · exact hinv.compat y (List.mem_cons_of_mem _ hy) hov'

theorem pot_splitRight (hne : range.start < range.end_) (hgt : other.start < range.start) :
    pot range ({ other with start := range.start } :: rest) < pot range (other :: rest) := by
  rw [pot_cons_of_lt rest hne, pot_cons_of_lt rest hne]
  simp only [if_neg (Nat.ne_of_lt hgt), if_true]
  omega

end Rounds

/-! ## The whole loop -/

theorem insertLoop_of_le {range other : LockRange} {rest : List LockRange} (fuel : ℕ)
    (h : range.end_ ≤ range.start) :
    insertLoop (fuel + 1) range (other :: rest) = ([], range, other :: rest) := by
  simp [insertLoop, h]

theorem insertLoop_of_stop {range other : LockRange} {rest : List LockRange} (fuel : ℕ)
    (hne : ¬range.end_ ≤ range.start) (h : insertStep range other = .stop) :
    insertLoop (fuel + 1) range (other :: rest) = ([], range, other :: rest) := by
  simp [insertLoop, hne, h]

theorem emitted_insertLoop_next {range other piece range' : LockRange} {rest : List LockRange}
    (fuel : ℕ) (hne : ¬range.end_ ≤ range.start) (h : insertStep range other = .next piece range') :
    emitted (insertLoop (fuel + 1) range (other :: rest)) =
      piece :: emitted (insertLoop fuel range' rest) := by
  simp only [insertLoop, hne, if_false, h]
  generalize insertLoop fuel range' rest = res
  obtain ⟨out, r, left⟩ := res
  rfl

theorem emitted_insertLoop_split {range other piece range' other' : LockRange}
    {rest : List LockRange} (fuel : ℕ) (hne : ¬range.end_ ≤ range.start)
    (h : insertStep range other = .split piece range' other') :
    emitted (insertLoop (fuel + 1) range (other :: rest)) =
      piece :: emitted (insertLoop fuel range' (other' :: rest)) := by
  simp only [insertLoop, hne, if_false, h]
  generalize insertLoop fuel range' (other' :: rest) = res
  obtain ⟨out, r, left⟩ := res
  rfl

/-- With as much fuel as rounds are left, the loop leaves ranges that satisfy `LoopSpec`.
The induction is on the fuel; each round is one of the seven of `StepCase`. -/
theorem insertLoop_spec {o : Owner} (fuel : ℕ) :
    ∀ {range : LockRange} {rest : List LockRange}, LoopInv o range rest → pot range rest ≤ fuel →
      LoopSpec o range rest (emitted (insertLoop fuel range rest)) := by
  induction fuel with
  | zero =>
    intro range rest hinv hpot
    cases rest with
    | nil => exact spec_of_before hinv (by simp)
    | cons other rest =>
      -- no round is left only when the lock is empty
      refine spec_of_empty hinv (Nat.le_of_not_lt fun hne => ?_)
      rw [pot_cons_of_lt rest hne] at hpot
      split at hpot <;> omega
  | succ fuel ih =>
    intro range rest hinv hpot
    cases rest with
    | nil => exact spec_of_before hinv (by simp)
    | cons other rest =>
      by_cases hle : range.end_ ≤ range.start
      · rw [insertLoop_of_le fuel hle]
        exact spec_of_empty hinv hle
      have hne : range.start < range.end_ := Nat.lt_of_not_le hle
      have hfuel : ∀ {range' : LockRange} {rest' : List LockRange},
          pot range' rest' < pot range (other :: rest) → pot range' rest' ≤ fuel :=
        fun h => by omega
      have hcase := insertStep_cases range other
      generalize hst : insertStep range other = st at hcase
      cases hcase with
      | merge hsticks hsame hty =>
        rw [emitted_insertLoop_next fuel hle hst]
        exact spec_merge hinv hne hsticks hsame hty
          (ih (inv_merge hinv hsticks) (hfuel (pot_lt_of_tail hne _)))
      | stop hstop =>
        rw [insertLoop_of_stop fuel hle hst]
        refine spec_of_before hinv fun y hy => ?_
        rcases List.mem_cons.mp hy with rfl | hy
        · exact hstop
        · have := hinv.head_before y hy
          have := hinv.head_wf.1
          omega
      | skip hlt hov =>
        rw [emitted_insertLoop_next fuel hle hst]
        exact spec_skip hinv hlt hov (ih hinv.tail (hfuel (pot_lt_of_tail hne _)))
      | splitLeft hov hlt =>
        rw [emitted_insertLoop_split fuel hle hst]
        exact spec_splitLeft hinv hov hlt (ih (inv_splitLeft hinv hlt) (hfuel (pot_splitLeft hov hlt)))
      | front hov heq hlt =>
        rw [emitted_insertLoop_split fuel hle hst]
        exact spec_front hinv hne hov heq hlt (ih (inv_front hinv hlt) (hfuel (pot_front hne hlt)))
      | whole hov heq hle' =>
        rw [emitted_insertLoop_next fuel hle hst]
        exact spec_whole hinv hov heq hle' (ih (inv_whole hinv heq) (hfuel (pot_lt_of_tail hne _)))
      | splitRight hov hgt =>
        rw [emitted_insertLoop_split fuel hle hst]
        exact spec_splitRight hinv hne hov hgt
          (ih (inv_splitRight hinv hov) (hfuel (pot_splitRight hne hgt)))

end LockRanges

end LizardFs
