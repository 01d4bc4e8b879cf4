import Mathlib.Data.Fintype.Card
import Mathlib.Data.List.FinRange
import LizardFs.Lib.WhileLoop
import LizardFs.Lib.Assignment

/-!
# The auction of `linear_assignment_optimizer.h`

`linear_assignment::auctionOptimization(value_matrix, assignment, object_assignment, size)`
is Bertsekas' auction with ε-scaling for an integer `size × size` value matrix: it scales
the values by `size + 1`, runs `detail::auctionStep` for a falling sequence of `eps` that ends
with `eps = 1`, and carries the prices from one step to the next. A step starts with every
person unassigned; in each round the next unassigned person `i` (searched cyclically) scans
the objects for the highest profit `v = value[i][j] - prices[j]` and the second highest `w`,
raises `prices[j]` by `v - w + eps`, takes `j` from its holder and gets it.

`int` is `ℤ` here: the code assumes values and prices far below `INT_MAX`, and under that
assumption `int` arithmetic is integer arithmetic. The assignment arrays map indices below
`size` to `Fin size`, and their entry `-1` is `none`.

What a step keeps (`StepInv`): the two assignment arrays are inverse to each other, the count
is the number of assigned persons, an object without a holder still has its price from the
start of the step, and every assigned person satisfies ε-complementary slackness. A round
either hands out an object that had no holder, or raises the price of a held object, and a held
object's price stays below `priceBound` while some object has never been bid for. So every
round lowers `bidsLeft`, every step ends with every person assigned (`auctionStep_exits`), and
the assignment is a permutation in ε-complementary slackness (`auctionStep_perm`). For the
last step, with `eps = 1` on values scaled by `size + 1`, the permutation is optimal for the
unscaled values (`Assignment.sum_le_sum_of_scaled_epsCS`).
-/

namespace LizardFs

namespace LinearAssignment

open WhileLoop Finset

/-- The arrays of `detail::auctionStep`, `assignment` (each person's object),
`object_assignment` (each object's person) and `prices`, and its loop variables
`unassigned_idx` and `assigned_count`. -/
structure AuctionState (n : ℕ) where
  assignment : Fin n → Option (Fin n)
  objectAssignment : Fin n → Option (Fin n)
  prices : Fin n → ℤ
  unassignedIdx : Fin n
  assignedCount : ℕ

variable {n : ℕ}

/-! ## One round of bidding -/

section Round

variable [NeZero n]

/-- `++unassigned_idx; if (unassigned_idx >= size) { unassigned_idx = 0; }` -/
def nextIdx (i : Fin n) : Fin n := if h : i.val + 1 < n then ⟨i.val + 1, h⟩ else 0

/-- `while (assignment[unassigned_idx] >= 0) { ... }`: the first person without an object from
`unassigned_idx` on, cyclically. `size` rounds reach every person (`findUnassigned_eq_none`). -/
def findUnassigned (assignment : Fin n → Option (Fin n)) (i : Fin n) : Fin n :=
  whileLoop (fun i => (assignment i).isSome) nextIdx n i

/-- The person who bids in the next round. -/
def bidder (s : AuctionState n) : Fin n := findUnassigned s.assignment s.unassignedIdx

end Round

/-- `std::max(a, b)`: `(a < b) ? b : a`. -/
def stdMax (a b : ℤ) : ℤ := if a < b then b else a

/-- The variables of the scan over the objects: `v` the highest value so far, `v_idx` its
object, and `w` the second highest (the highest again, if it occurs twice). `none` is their
start `lowest()`: the code asserts `c > lowest()` of every value, so `lowest()` is below every
value here. -/
structure Scan (n : ℕ) where
  w : Option ℤ
  v : Option ℤ
  vIdx : Option (Fin n)

/-- `c > x`, for `x` a value or `lowest()`. -/
def gtLowest (c : ℤ) : Option ℤ → Bool
  | none => true
  | some x => decide (x < c)

/-- `std::max(c, x)`, for `x` a value or `lowest()`. -/
def maxLowest (c : ℤ) : Option ℤ → ℤ
  | none => c
  | some x => stdMax c x

/-- `if (c > v) { w = v; v = c; v_idx = i; } else { w = std::max(c, w); }` -/
def scanStep (c : Fin n → ℤ) (r : Scan n) (k : Fin n) : Scan n :=
  if gtLowest (c k) r.v then ⟨r.v, some (c k), some k⟩
  else ⟨some (maxLowest (c k) r.w), r.v, r.vIdx⟩

/-- The scan of the values `c` of all objects, from `w = v = lowest()` and `v_idx = -1`. -/
def scan (c : Fin n → ℤ) : Scan n := (List.finRange n).foldl (scanStep c) ⟨none, none, none⟩

/-- `int idx = object_assignment[v_idx]; if (idx >= 0) { assignment[idx] = -1; assigned_count--; }`:
the assignment and the count once the holder of `j`, if any, has lost it. -/
def displace (s : AuctionState n) (j : Fin n) : (Fin n → Option (Fin n)) × ℕ :=
  match s.objectAssignment j with
  | some idx => (Function.update s.assignment idx none, s.assignedCount - 1)
  | none => (s.assignment, s.assignedCount)

/-- `prices[v_idx] += incr`, `displace`, then `object_assignment[v_idx] = unassigned_idx;
assignment[unassigned_idx] = v_idx; assigned_count++;` for person `i` and object `j`. -/
def award (s : AuctionState n) (i j : Fin n) (incr : ℤ) : AuctionState n where
  assignment := Function.update (displace s j).1 i (some j)
  objectAssignment := Function.update s.objectAssignment j (some i)
  prices := Function.update s.prices j (s.prices j + incr)
  unassignedIdx := i
  assignedCount := (displace s j).2 + 1

/-- One round of the loop of `auctionStep`: the search for a person, the scan of their
profits, and the bid `v - w + eps`. With at least two objects the scan sets `v`, `w` and
`v_idx` (`scan_spec`), so the defaults of `getD` are never read. -/
def bid [NeZero n] (a : Fin n → Fin n → ℤ) (eps : ℤ) (s : AuctionState n) : AuctionState n :=
  let i := bidder s
  let r := scan fun k => a i k - s.prices k
  award s i (r.vIdx.getD i) (r.v.getD 0 - r.w.getD 0 + eps)

/-! ## `auctionStep` and `auctionOptimization` -/

/-- `std::fill` of both assignment arrays with `-1`, from the prices `p`. -/
def start [NeZero n] (p : Fin n → ℤ) : AuctionState n := ⟨fun _ => none, fun _ => none, p, 0, 0⟩

/-- A price that no bid takes an object past while some object has had no bid
(`award_price_le`). -/
def priceBound (a : Fin n → Fin n → ℤ) (p : Fin n → ℤ) (eps : ℤ) : ℤ :=
  2 * ∑ i, ∑ k, |a i k| + ∑ j, |p j| + eps

/-- The measure of the termination argument: the room left below the bound `B` in every price,
and the persons still to assign. -/
def bidsLeft (B : ℤ) (s : AuctionState n) : ℕ := ∑ j, (B - s.prices j).toNat + (n - s.assignedCount)

/-- `detail::auctionStep(value_matrix, assignment, object_assignment, prices, eps, size)`:
`while (assigned_count < size)` a round of bidding. Every round lowers `bidsLeft`, so its first
value bounds the rounds (`auctionStep_exits`). -/
def auctionStep [NeZero n] (a : Fin n → Fin n → ℤ) (p : Fin n → ℤ) (eps : ℤ) : AuctionState n :=
  whileLoop (fun s => decide (s.assignedCount < n)) (bid a eps)
    (bidsLeft (priceBound a p eps) (start p) + 1) (start p)

/-- `std::numeric_limits<int>::lowest()`. -/
def intLowest : ℤ := -2147483648

/-- `value_matrix[i][j] *= (size + 1)`. -/
def scaleValues (value : Fin n → Fin n → ℤ) : Fin n → Fin n → ℤ :=
  fun i j => value i j * ((n : ℤ) + 1)

/-- `max_a`, the largest of the scaled values, from `lowest()`. -/
def maxEntry (a : Fin n → Fin n → ℤ) : ℤ :=
  (List.finRange n).foldl (fun m i => (List.finRange n).foldl (fun m j => stdMax (a i j) m) m)
    intLowest

/-- `int eps = (max_a + 12) / 25;` -/
def initialEps (a : Fin n → Fin n → ℤ) : ℤ := (maxEntry a + 12).tdiv 25

/-- `while (eps > 1) { detail::auctionStep(...); eps = (eps + 2) / 5; }`, on the prices and
`eps`: each step starts from the prices of the one before, and overwrites the assignments
that the one before left. `eps` falls in every round, so the fuel `eps + 1` always
outlasts the loop's own test. -/
def scalingLoop [NeZero n] (a : Fin n → Fin n → ℤ) (p : Fin n → ℤ) (eps : ℤ) :
    (Fin n → ℤ) × ℤ :=
  whileLoop (fun q => decide (1 < q.2)) (fun q => ((auctionStep a q.1 q.2).prices, (q.2 + 2).tdiv 5))
    (eps.toNat + 1) (p, eps)

/-- What `auctionOptimization` leaves in its arguments. -/
structure AuctionResult (n : ℕ) where
  assignment : Fin n → Option (Fin n)
  objectAssignment : Fin n → Option (Fin n)
  valueMatrix : Fin n → Fin n → ℤ

/-- `linear_assignment::auctionOptimization(value_matrix, assignment, object_assignment, size)`:
nothing for size 0, the one pair for size 1; otherwise the scaled values, the `eps` steps from
zero prices, and the last step with `eps = 1`. -/
def auctionOptimization : (n : ℕ) → (Fin n → Fin n → ℤ) → AuctionResult n
  | 0, value => ⟨fun i => i.elim0, fun i => i.elim0, value⟩
  | 1, value => ⟨fun _ => some 0, fun _ => some 0, value⟩
  | _ + 2, value =>
    let a := scaleValues value
    let q := scalingLoop a (fun _ => 0) (initialEps a)
    let s := auctionStep a q.1 1
    ⟨s.assignment, s.objectAssignment, a⟩

/-! ## The search for an unassigned person -/

section Search

/-- How far the search from `i` has to go to reach `j`. -/
def distance (j i : Fin n) : ℕ := if i.val ≤ j.val then j.val - i.val else j.val + n - i.val

theorem distance_lt (j i : Fin n) : distance j i < n := by
  have hj := j.isLt
  rw [distance]
  split <;> omega

variable [NeZero n]

theorem val_nextIdx (i : Fin n) : (nextIdx i).val = if i.val + 1 < n then i.val + 1 else 0 := by
  rw [nextIdx]
  split <;> simp

theorem distance_nextIdx {j i : Fin n} (hij : i ≠ j) : distance j (nextIdx i) < distance j i := by
  have hne : i.val ≠ j.val := Fin.val_ne_of_ne hij
  have hj := j.isLt
  have hi := i.isLt
  rw [distance, distance, val_nextIdx]
  split <;> split <;> split <;> omega

/-- From anywhere, the search stops at a person without an object, if there is one. -/
theorem findUnassigned_eq_none {assignment : Fin n → Option (Fin n)} {j : Fin n}
    (hj : assignment j = none) (i : Fin n) : assignment (findUnassigned assignment i) = none := by
  -- every round of the search comes one person closer to `j`
  have hexit := @whileLoop_exits _ (fun i => (assignment i).isSome) nextIdx
    (fun _ => True) (distance j) (fun i _ hi => ⟨trivial, distance_nextIdx fun hij => by
      rw [hij, hj] at hi
      exact Bool.false_ne_true hi⟩) n i trivial (distance_lt j i)
  rw [findUnassigned]
  simpa using hexit

end Search

/-! ## The scan for the best and second best object -/

section Scan

theorem le_maxLowest_self (c : ℤ) (x : Option ℤ) : c ≤ maxLowest c x := by
  cases x with
  | none => exact le_refl c
  | some x =>
    rw [maxLowest, stdMax]
    split <;> omega

theorem le_maxLowest_of_mem (c : ℤ) {x : Option ℤ} {w : ℤ} (hw : w ∈ x) : w ≤ maxLowest c x := by
  rw [Option.mem_def] at hw
  rw [hw, maxLowest, stdMax]
  split <;> omega

theorem maxLowest_le {c b : ℤ} {x : Option ℤ} (hc : c ≤ b) (hx : ∀ w ∈ x, w ≤ b) :
    maxLowest c x ≤ b := by
  cases x with
  | none => exact hc
  | some x =>
    have := hx x rfl
    rw [maxLowest, stdMax]
    split <;> omega

variable (c : Fin n → ℤ)

/-- What the scan knows after the objects `pre`: `v_idx` holds one of them of the highest value
`v`, and `w` is at most `v` and at least the value of every other one. -/
def ScanInv (pre : List (Fin n)) (r : Scan n) : Prop :=
  ∃ j ∈ pre, r.vIdx = some j ∧ r.v = some (c j) ∧ (∀ w ∈ r.w, w ≤ c j) ∧
    ∀ k ∈ pre, k ≠ j → ∃ w ∈ r.w, c k ≤ w

theorem scanInv_first (k : Fin n) : ScanInv c [k] (scanStep c ⟨none, none, none⟩ k) := by
  rw [scanStep, if_pos (show gtLowest (c k) none = true from rfl)]
  refine ⟨k, List.mem_singleton_self k, rfl, rfl, fun w hw => absurd hw (by simp), ?_⟩
  intro k' hk' hne
  exact absurd (List.mem_singleton.mp hk') hne

theorem scanInv_step {pre : List (Fin n)} {r : Scan n} (h : ScanInv c pre r) (k : Fin n) :
    ScanInv c (pre ++ [k]) (scanStep c r k) := by
  obtain ⟨j, hj, hidx, hv, hw, hothers⟩ := h
  -- every value seen so far is at most `v`
  have hle : ∀ k' ∈ pre, c k' ≤ c j := by
    intro k' hk'
    by_cases hk'j : k' = j
    · rw [hk'j]
    · obtain ⟨w, hwmem, hkw⟩ := hothers k' hk' hk'j
      exact hkw.trans (hw w hwmem)
  rw [scanStep, hv, gtLowest]
  split
  · -- a new best: the old best becomes the second
    next hlt =>
    have hlt : c j < c k := of_decide_eq_true hlt
    refine ⟨k, List.mem_append_right pre (List.mem_singleton_self k), rfl, rfl, ?_, ?_⟩
    · intro w hw'
      rw [Option.mem_def, Option.some.injEq] at hw'
      omega
    · intro k' hk' hne
      rcases List.mem_append.mp hk' with hpre | hk
      · exact ⟨c j, rfl, hle k' hpre⟩
      · exact absurd (List.mem_singleton.mp hk) hne
  · next hnlt =>
    have hkj : c k ≤ c j := not_lt.mp (of_decide_eq_false (Bool.not_eq_true _ ▸ hnlt))
    refine ⟨j, List.mem_append_left [k] hj, hidx, rfl, ?_, ?_⟩
    · intro w hw'
      rw [Option.mem_def, Option.some.injEq] at hw'
      rw [← hw']
      exact maxLowest_le hkj hw
    · intro k' hk' hne
      refine ⟨maxLowest (c k) r.w, rfl, ?_⟩
      rcases List.mem_append.mp hk' with hpre | hk
      · obtain ⟨w, hwmem, hkw⟩ := hothers k' hpre hne
        exact hkw.trans (le_maxLowest_of_mem (c k) hwmem)
      · rw [List.mem_singleton.mp hk]
        exact le_maxLowest_self (c k) r.w

theorem scanInv_foldl : ∀ (l pre : List (Fin n)) (r : Scan n), ScanInv c pre r →
    ScanInv c (pre ++ l) (l.foldl (scanStep c) r)
  | [], pre, r, h => by rwa [List.append_nil]
  | k :: l, pre, r, h => by
    rw [List.foldl_cons, ← List.singleton_append, ← List.append_assoc]
    exact scanInv_foldl l (pre ++ [k]) (scanStep c r k) (scanInv_step c h k)

/-- With at least two objects the scan finds an object `j` of the highest value and, in `w`, the
highest value of the others. -/
theorem scan_spec (hn : 2 ≤ n) : ∃ (j : Fin n) (w : ℤ), (scan c).vIdx = some j ∧
    (scan c).v = some (c j) ∧ (scan c).w = some w ∧ w ≤ c j ∧ ∀ k, k ≠ j → c k ≤ w := by
  obtain ⟨m, rfl⟩ : ∃ m, n = m + 2 := ⟨n - 2, by omega⟩
  have hinv : ScanInv c (List.finRange (m + 2)) (scan c) := by
    rw [scan, List.finRange_succ, List.foldl_cons, ← List.singleton_append]
    exact scanInv_foldl c _ [0] _ (scanInv_first c 0)
  obtain ⟨j, -, hidx, hv, hw, hothers⟩ := hinv
  -- some other object has a value, so `w` is set
  obtain ⟨k, hkj⟩ : ∃ k : Fin (m + 2), k ≠ j := by
    by_cases hj : j = 0
    · exact ⟨1, by rw [hj]; simp⟩
    · exact ⟨0, Ne.symm hj⟩
  obtain ⟨w, hwmem, -⟩ := hothers k (List.mem_finRange k) hkj
  refine ⟨j, w, hidx, hv, hwmem, hw w hwmem, ?_⟩
  intro k' hk'
  obtain ⟨w', hw'mem, hkw'⟩ := hothers k' (List.mem_finRange k') hk'
  rw [Option.mem_def, hwmem, Option.some.injEq] at hw'mem
  rw [hw'mem]
  exact hkw'

end Scan

/-! ## Partial assignments -/

section Assigned

variable {α : Type}

/-- The persons that hold an object. -/
def assignedSet (f : Fin n → Option α) : Finset (Fin n) := univ.filter fun i => (f i).isSome

theorem mem_assignedSet {f : Fin n → Option α} {i : Fin n} :
    i ∈ assignedSet f ↔ (f i).isSome := by
  simp [assignedSet]

theorem card_assignedSet_update_some {f : Fin n → Option α} {i : Fin n} (hi : f i = none)
    (y : α) : (assignedSet (Function.update f i (some y))).card = (assignedSet f).card + 1 := by
  have hset : assignedSet (Function.update f i (some y)) = insert i (assignedSet f) := by
    ext x
    by_cases hx : x = i
    · subst hx
      simp [mem_assignedSet]
    · simp [mem_assignedSet, hx]
  rw [hset, card_insert_of_notMem (by simp [mem_assignedSet, hi])]

theorem card_assignedSet_update_none {f : Fin n → Option α} {i : Fin n} {y : α}
    (hi : f i = some y) :
    (assignedSet (Function.update f i none)).card + 1 = (assignedSet f).card := by
  have hmem : i ∈ assignedSet f := by simp [mem_assignedSet, hi]
  have hset : assignedSet (Function.update f i none) = (assignedSet f).erase i := by
    ext x
    by_cases hx : x = i
    · subst hx
      simp [mem_assignedSet]
    · simp [mem_assignedSet, hx]
  rw [hset, card_erase_of_mem hmem]
  have hpos := card_pos.mpr ⟨i, hmem⟩
  omega

theorem assignedSet_eq_univ {f : Fin n → Option α} (h : n ≤ (assignedSet f).card) :
    assignedSet f = univ :=
  eq_univ_of_card _ (le_antisymm (card_le_univ _) (by rwa [Fintype.card_fin]))

end Assigned

/-! ## What a step keeps -/

section Invariant

variable (a : Fin n → Fin n → ℤ) (p0 : Fin n → ℤ) (eps : ℤ)

/-- The invariant of the rounds of one `auctionStep` that started from the prices `p0`. -/
structure StepInv (s : AuctionState n) : Prop where
  matching : ∀ i j, s.assignment i = some j ↔ s.objectAssignment j = some i
  count : s.assignedCount = (assignedSet s.assignment).card
  unbid : ∀ j, s.objectAssignment j = none → s.prices j = p0 j
  epsCS : ∀ i j, s.assignment i = some j → ∀ k, a i k - s.prices k ≤ a i j - s.prices j + eps

variable {a p0 eps} {s : AuctionState n}

theorem StepInv.exists_unassigned (h : StepInv a p0 eps s) (hc : s.assignedCount < n) :
    ∃ i, s.assignment i = none := by
  by_contra hall
  simp only [not_exists] at hall
  have huniv : assignedSet s.assignment = univ :=
    eq_univ_of_forall fun i => Iff.mpr mem_assignedSet (Option.isSome_iff_ne_none.mpr (hall i))
  rw [h.count, huniv, card_univ, Fintype.card_fin] at hc
  exact lt_irrefl n hc

/-- While a person is unassigned, so is an object: the holders of all objects would be all
persons. -/
theorem StepInv.exists_free_object (h : StepInv a p0 eps s) (hc : s.assignedCount < n) :
    ∃ j, s.objectAssignment j = none := by
  by_contra hall
  simp only [not_exists] at hall
  let holder : Fin n → Fin n := fun j => (s.objectAssignment j).get
    (Option.isSome_iff_ne_none.mpr (hall j))
  have hholder : ∀ j, s.objectAssignment j = some (holder j) := fun j => (Option.some_get _).symm
  have hinj : Function.Injective holder := by
    intro j j' hjj'
    have h1 := (h.matching _ _).mpr (hholder j)
    rw [hjj', (h.matching _ _).mpr (hholder j')] at h1
    exact (Option.some.inj h1).symm
  obtain ⟨i, hi⟩ := h.exists_unassigned hc
  obtain ⟨j, hj⟩ := (Finite.injective_iff_surjective.mp hinj) i
  have hij := (h.matching i j).mpr (hj ▸ hholder j)
  rw [hi] at hij
  simp at hij

theorem displace_of_some {j idx : Fin n} (hj : s.objectAssignment j = some idx) :
    displace s j = (Function.update s.assignment idx none, s.assignedCount - 1) := by
  simp only [displace, hj]

theorem displace_of_none {j : Fin n} (hj : s.objectAssignment j = none) :
    displace s j = (s.assignment, s.assignedCount) := by
  simp only [displace, hj]

/-- After `displace`, no person holds `j`. -/
theorem StepInv.displace_ne_some (h : StepInv a p0 eps s) (j x : Fin n) :
    (displace s j).1 x ≠ some j := by
  cases hj : s.objectAssignment j with
  | none =>
    rw [displace_of_none hj, ne_eq, h.matching, hj]
    simp
  | some idx =>
    rw [displace_of_some hj]
    dsimp only
    by_cases hx : x = idx
    · rw [hx, Function.update_self]
      simp
    · rw [Function.update_of_ne hx, ne_eq, h.matching, hj, Option.some.injEq]
      exact Ne.symm hx

/-- After `displace`, the holders of the other objects keep them. -/
theorem StepInv.displace_eq_some (h : StepInv a p0 eps s) {j y : Fin n} (hy : y ≠ j)
    (x : Fin n) : (displace s j).1 x = some y ↔ s.assignment x = some y := by
  cases hj : s.objectAssignment j with
  | none => rw [displace_of_none hj]
  | some idx =>
    rw [displace_of_some hj]
    dsimp only
    by_cases hx : x = idx
    · -- the holder of `j` held nothing else
      have hidx := (h.matching idx j).mpr hj
      rw [hx, Function.update_self, hidx]
      simp [Ne.symm hy]
    · rw [Function.update_of_ne hx]

theorem StepInv.displace_count (h : StepInv a p0 eps s) (j : Fin n) :
    (displace s j).2 = (assignedSet (displace s j).1).card := by
  cases hj : s.objectAssignment j with
  | none => rw [displace_of_none hj]; exact h.count
  | some idx =>
    rw [displace_of_some hj, h.count,
      ← card_assignedSet_update_none ((h.matching idx j).mpr hj)]
    rfl

theorem displace_of_unassigned {i : Fin n} (hi : s.assignment i = none) (j : Fin n) : (displace s j).1 i = none := by
  cases hj : s.objectAssignment j with
  | none => rw [displace_of_none hj]; exact hi
  | some idx =>
    rw [displace_of_some hj]
    dsimp only
    by_cases hidx : i = idx
    · rw [hidx, Function.update_self]
    · rw [Function.update_of_ne hidx]; exact hi

theorem price_le_award_price (s : AuctionState n) (i j : Fin n) {incr : ℤ} (hincr : 0 ≤ incr)
    (k : Fin n) : s.prices k ≤ (award s i j incr).prices k := by
  by_cases hk : k = j
  · rw [hk]
    simp only [award, Function.update_self]
    omega
  · simp only [award, Function.update_of_ne hk, le_refl]

/-- Awarding an unassigned person an object at a price within `eps` of their best keeps the
invariant. -/
theorem StepInv.after_award (h : StepInv a p0 eps s) {i j : Fin n} {incr : ℤ}
    (hi : s.assignment i = none) (heps : 0 ≤ eps) (hincr : 0 ≤ incr)
    (hbest : ∀ k, k ≠ j → a i k - s.prices k ≤ a i j - (s.prices j + incr) + eps) :
    StepInv a p0 eps (award s i j incr) where
  matching x y := by
    simp only [LinearAssignment.award]
    by_cases hx : x = i
    · subst hx
      rw [Function.update_self, Option.some.injEq]
      by_cases hy : y = j
      · subst hy
        simp
      · -- the bidder held nothing, so no other object names them
        rw [Function.update_of_ne hy, ← h.matching, hi]
        simp [Ne.symm hy]
    · rw [Function.update_of_ne hx]
      by_cases hy : y = j
      · subst hy
        rw [Function.update_self, Option.some.injEq]
        exact iff_of_false (h.displace_ne_some y x) (Ne.symm hx)
      · rw [Function.update_of_ne hy, h.displace_eq_some hy, h.matching]
  count := by
    simp only [LinearAssignment.award]
    rw [card_assignedSet_update_some (displace_of_unassigned hi j), h.displace_count]
  unbid y hy := by
    simp only [LinearAssignment.award] at hy ⊢
    by_cases hyj : y = j
    · rw [hyj, Function.update_self] at hy
      simp at hy
    · rw [Function.update_of_ne hyj] at hy ⊢
      exact h.unbid y hy
  epsCS x y hxy k := by
    have hk := price_le_award_price s i j hincr k
    simp only [LinearAssignment.award] at hxy hk ⊢
    by_cases hx : x = i
    · -- the bidder: within `eps` of their best at the new price
      subst hx
      rw [Function.update_self, Option.some.injEq] at hxy
      subst hxy
      rw [Function.update_self]
      by_cases hkj : k = j
      · rw [hkj, Function.update_self]
        omega
      · rw [Function.update_of_ne hkj]
        exact hbest k hkj
    · -- another holder: their object's price is the same, the others did not fall
      rw [Function.update_of_ne hx] at hxy
      have hyj : y ≠ j := fun hyj => h.displace_ne_some j x (hyj ▸ hxy)
      have hcs := h.epsCS x y ((h.displace_eq_some hyj x).mp hxy) k
      rw [Function.update_of_ne hyj]
      omega

end Invariant

/-! ## A round, and a whole step -/

section Bounds

/-- A value and a price are within `priceBound` of each other. -/
theorem le_priceBound (a : Fin n → Fin n → ℤ) (p0 : Fin n → ℤ) (eps : ℤ) (i j j0 : Fin n) :
    a i j - a i j0 + p0 j0 + eps ≤ priceBound a p0 eps := by
  have hentry : ∀ i' k, |a i' k| ≤ ∑ i, ∑ k, |a i k| := fun i' k =>
    calc |a i' k| ≤ ∑ k, |a i' k| := single_le_sum (fun k _ => abs_nonneg (a i' k)) (mem_univ k)
      _ ≤ ∑ i, ∑ k, |a i k| :=
        single_le_sum (fun i _ => sum_nonneg fun k _ => abs_nonneg (a i k)) (mem_univ i')
  have hprice : |p0 j0| ≤ ∑ j, |p0 j| := single_le_sum (fun j _ => abs_nonneg (p0 j)) (mem_univ j0)
  have h1 := hentry i j
  have h2 := hentry i j0
  have h3 := le_abs_self (a i j)
  have h4 := neg_abs_le (a i j0)
  have h5 := le_abs_self (p0 j0)
  rw [priceBound]
  omega

theorem room_award_le (B : ℤ) (s : AuctionState n) (i j : Fin n) (incr : ℤ) (hincr : 0 ≤ incr) :
    ∑ k, (B - (award s i j incr).prices k).toNat ≤ ∑ k, (B - s.prices k).toNat :=
  sum_le_sum fun k _ => by
    have := price_le_award_price s i j hincr k
    omega

theorem room_award_lt (B : ℤ) (s : AuctionState n) (i j : Fin n) (incr : ℤ) (hincr : 0 < incr)
    (hB : s.prices j + incr ≤ B) :
    ∑ k, (B - (award s i j incr).prices k).toNat < ∑ k, (B - s.prices k).toNat := by
  apply sum_lt_sum
  · intro k _
    have := price_le_award_price s i j hincr.le k
    omega
  · refine ⟨j, mem_univ j, ?_⟩
    have hprice : (award s i j incr).prices j = s.prices j + incr := Function.update_self _ _ _
    omega

end Bounds

section Rounds

variable [NeZero n] (a : Fin n → Fin n → ℤ) (eps : ℤ)

/-- What a round does: the bidder takes an object `j` of highest profit, and its price rises by
the gap `v - w` to the second highest profit `w`, plus `eps`. -/
theorem bid_eq (hn : 2 ≤ n) (s : AuctionState n) :
    ∃ j w, (∀ k, k ≠ j → a (bidder s) k - s.prices k ≤ w) ∧ w ≤ a (bidder s) j - s.prices j ∧
      bid a eps s = award s (bidder s) j (a (bidder s) j - s.prices j - w + eps) := by
  obtain ⟨j, w, hidx, hv, hw, hwle, hothers⟩ := scan_spec (fun k => a (bidder s) k - s.prices k) hn
  refine ⟨j, w, hothers, hwle, ?_⟩
  rw [bid]
  simp only [hidx, hv, hw, Option.getD_some]

variable {a eps} {p0 : Fin n → ℤ} {s : AuctionState n}

theorem StepInv.after_bid (h : StepInv a p0 eps s) (hn : 2 ≤ n) (hc : s.assignedCount < n)
    (heps : 0 ≤ eps) : StepInv a p0 eps (bid a eps s) := by
  obtain ⟨j, w, hothers, hwle, heq⟩ := bid_eq a eps hn s
  obtain ⟨u, hu⟩ := h.exists_unassigned hc
  have hi : s.assignment (bidder s) = none := findUnassigned_eq_none hu _
  rw [heq]
  apply h.after_award hi heps (by omega)
  intro k hk
  have := hothers k hk
  omega

/-- Every round lowers `bidsLeft`: a round that hands out a free object assigns one more
person, and a round that takes a held object raises its price, which stays below
`priceBound` because some object is still free at its starting price. -/
theorem StepInv.bidsLeft_bid_lt (h : StepInv a p0 eps s) (hn : 2 ≤ n) (hc : s.assignedCount < n)
    (heps : 1 ≤ eps) :
    bidsLeft (priceBound a p0 eps) (bid a eps s) < bidsLeft (priceBound a p0 eps) s := by
  obtain ⟨j, w, hothers, hwle, heq⟩ := bid_eq a eps hn s
  rw [heq, bidsLeft, bidsLeft]
  cases hj : s.objectAssignment j with
  | none =>
    have hroom := room_award_le (priceBound a p0 eps) s (bidder s) j
      (a (bidder s) j - s.prices j - w + eps) (by omega)
    have hcount : (award s (bidder s) j (a (bidder s) j - s.prices j - w + eps)).assignedCount =
        s.assignedCount + 1 := by
      simp only [award, displace_of_none hj]
    omega
  | some idx =>
    -- the price paid is bounded through a free object `j0`, which the bidder could have taken
    obtain ⟨j0, hj0⟩ := h.exists_free_object hc
    have hj0j : j0 ≠ j := by
      intro hjj
      rw [hjj, hj] at hj0
      exact absurd hj0 (Option.some_ne_none idx)
    have hw0 := hothers j0 hj0j
    rw [h.unbid j0 hj0] at hw0
    have hbound := le_priceBound a p0 eps (bidder s) j j0
    have hroom := room_award_lt (priceBound a p0 eps) s (bidder s) j
      (a (bidder s) j - s.prices j - w + eps) (by omega) (by omega)
    -- the count stays: the holder of `j` loses it and the bidder gets it
    have hheld : 0 < s.assignedCount := by
      rw [h.count]
      exact card_pos.mpr ⟨idx, Iff.mpr mem_assignedSet (by rw [(h.matching idx j).mpr hj]; rfl)⟩
    have hcount : (award s (bidder s) j (a (bidder s) j - s.prices j - w + eps)).assignedCount =
        s.assignedCount := by
      simp only [award, displace_of_some hj]
      omega
    omega

variable (a eps) (p : Fin n → ℤ)

theorem start_inv : StepInv a p eps (start p) where
  matching _ _ := by simp [start]
  count := by simp [start, assignedSet]
  unbid _ _ := rfl
  epsCS _ _ h := absurd h (by simp [start])

theorem auctionStep_inv (hn : 2 ≤ n) (heps : 1 ≤ eps) : StepInv a p eps (auctionStep a p eps) :=
  inv_whileLoop (StepInv a p eps)
    (fun _ hs hc => hs.after_bid hn (of_decide_eq_true hc) (by omega)) _ _ (start_inv a eps p)

/-- Every `auctionStep` ends by its own test, with every person assigned. -/
theorem auctionStep_exits (hn : 2 ≤ n) (heps : 1 ≤ eps) :
    ¬ (auctionStep a p eps).assignedCount < n := by
  have hexit := whileLoop_exits (StepInv a p eps) (bidsLeft (priceBound a p eps))
    (fun _ hs hc => ⟨hs.after_bid hn (of_decide_eq_true hc) (by omega),
      hs.bidsLeft_bid_lt hn (of_decide_eq_true hc) heps⟩)
    _ (start p) (start_inv a eps p) (Nat.lt_succ_self _)
  exact of_decide_eq_false hexit

end Rounds

/-! ## The assignment a step ends with -/

/-- A state of the invariant with every person assigned is a permutation, its object
assignment the inverse one, in ε-complementary slackness. -/
theorem StepInv.perm {a : Fin n → Fin n → ℤ} {p0 : Fin n → ℤ} {eps : ℤ} {s : AuctionState n}
    (h : StepInv a p0 eps s) (hfull : ¬ s.assignedCount < n) :
    ∃ σ : Equiv.Perm (Fin n), (∀ i, s.assignment i = some (σ i)) ∧
      (∀ j, s.objectAssignment j = some (σ.symm j)) ∧ Assignment.EpsCS a s.prices eps σ := by
  have hcount := h.count
  have huniv : assignedSet s.assignment = univ := assignedSet_eq_univ (by omega)
  have hsome : ∀ i, (s.assignment i).isSome := fun i =>
    Iff.mp mem_assignedSet (huniv ▸ mem_univ i)
  let f : Fin n → Fin n := fun i => (s.assignment i).get (hsome i)
  have hf : ∀ i, s.assignment i = some (f i) := fun i => (Option.some_get _).symm
  -- two persons with one object would be two holders of it
  have hinj : Function.Injective f := by
    intro i i' hii'
    have h1 := (h.matching i (f i)).mp (hf i)
    rw [hii', (h.matching i' (f i')).mp (hf i')] at h1
    exact (Option.some.inj h1).symm
  let σ := Equiv.ofBijective f (Finite.injective_iff_bijective.mp hinj)
  refine ⟨σ, hf, fun j => ?_, fun i k => h.epsCS i (σ i) (hf i) k⟩
  apply (h.matching _ _).mp
  rw [hf]
  exact congrArg some (σ.apply_symm_apply j)

theorem auctionStep_perm [NeZero n] (a : Fin n → Fin n → ℤ) (p : Fin n → ℤ) {eps : ℤ}
    (hn : 2 ≤ n) (heps : 1 ≤ eps) :
    ∃ σ : Equiv.Perm (Fin n), (∀ i, (auctionStep a p eps).assignment i = some (σ i)) ∧
      (∀ j, (auctionStep a p eps).objectAssignment j = some (σ.symm j)) ∧
      Assignment.EpsCS a (auctionStep a p eps).prices eps σ :=
  (auctionStep_inv a eps p hn heps).perm (auctionStep_exits a eps p hn heps)

/-! ## `auctionOptimization` -/

/-- On two persons or more, `auctionOptimization` leaves the arrays of its last step: a
permutation and its inverse, in ε-complementary slackness for `eps = 1` on the values scaled
by `size + 1`. -/
theorem auctionOptimization_lastStep (m : ℕ) (value : Fin (m + 2) → Fin (m + 2) → ℤ) :
    ∃ (σ : Equiv.Perm (Fin (m + 2))) (p : Fin (m + 2) → ℤ),
      (∀ i, (auctionOptimization (m + 2) value).assignment i = some (σ i)) ∧
      (∀ j, (auctionOptimization (m + 2) value).objectAssignment j = some (σ.symm j)) ∧
      Assignment.EpsCS (fun i k => value i k * ((Fintype.card (Fin (m + 2)) : ℤ) + 1)) p 1 σ := by
  obtain ⟨σ, hassign, hobject, hcs⟩ :=
    auctionStep_perm (scaleValues value)
      (scalingLoop (scaleValues value) (fun _ => 0) (initialEps (scaleValues value))).1
      (by omega) le_rfl
  rw [Fintype.card_fin]
  exact ⟨σ, _, hassign, hobject, hcs⟩

/-- `auctionOptimization` leaves a permutation in `assignment` and its inverse in
`object_assignment`. -/
theorem auctionOptimization_inverse : ∀ (n : ℕ) (value : Fin n → Fin n → ℤ),
    ∃ σ : Equiv.Perm (Fin n), (∀ i, (auctionOptimization n value).assignment i = some (σ i)) ∧
      ∀ j, (auctionOptimization n value).objectAssignment j = some (σ.symm j)
  | 0, _ => ⟨Equiv.refl _, fun i => i.elim0, fun j => j.elim0⟩
  | 1, _ => by
    refine ⟨Equiv.refl _, fun i => ?_, fun j => ?_⟩
    · rw [Fin.fin_one_eq_zero i]
      rfl
    · rw [Fin.fin_one_eq_zero j]
      rfl
  | m + 2, value => by
    obtain ⟨σ, -, hassign, hobject, -⟩ := auctionOptimization_lastStep m value
    exact ⟨σ, hassign, hobject⟩

/-- No permutation has a higher value, in the matrix `auctionOptimization` was given, than the
one it leaves in `assignment`. -/
theorem sum_le_of_auctionOptimization : ∀ (n : ℕ) (value : Fin n → Fin n → ℤ)
    (σ : Equiv.Perm (Fin n)), (∀ i, (auctionOptimization n value).assignment i = some (σ i)) →
    ∀ τ : Equiv.Perm (Fin n), ∑ i, value i (τ i) ≤ ∑ i, value i (σ i)
  | 0, _, _, _, _ => le_of_eq (by simp)
  | 1, _, σ, _, τ => by
    -- the one permutation of one pair
    have hone : ∀ π : Equiv.Perm (Fin 1), π = Equiv.refl _ :=
      fun π => Equiv.ext fun i => Subsingleton.elim _ _
    rw [hone σ, hone τ]
  | m + 2, value, σ, hσ, τ => by
    -- the arrays hold the permutation of the last step, which is in ε-complementary slackness
    obtain ⟨σ₀, _, hassign, -, hcs⟩ := auctionOptimization_lastStep m value
    have hσ₀ : σ = σ₀ := Equiv.ext fun i => Option.some_injective _ ((hσ i).symm.trans (hassign i))
    subst hσ₀
    exact Assignment.sum_le_sum_of_scaled_epsCS hcs τ

/-- `auctionOptimization` leaves a permutation in `assignment` and its inverse in
`object_assignment`, and no permutation has a higher value in the matrix it was given. -/
theorem auctionOptimization_optimal : ∀ (n : ℕ) (value : Fin n → Fin n → ℤ),
    ∃ σ : Equiv.Perm (Fin n), (∀ i, (auctionOptimization n value).assignment i = some (σ i)) ∧
      (∀ j, (auctionOptimization n value).objectAssignment j = some (σ.symm j)) ∧
      ∀ τ : Equiv.Perm (Fin n), ∑ i, value i (τ i) ≤ ∑ i, value i (σ i) := by
  intro n value
  obtain ⟨σ, hassign, hobject⟩ := auctionOptimization_inverse n value
  exact ⟨σ, hassign, hobject, sum_le_of_auctionOptimization n value σ hassign⟩

/-- Of two persons who each value the other's object, each gets the other's. -/
example : (auctionOptimization 2 fun i j => if i = j then 0 else 1).assignment 0 = some 1 := by
  decide

/-! ## The permutation of the arrays -/

/-- The permutation `auctionOptimization` leaves in `assignment`, with `object_assignment` its
inverse. The defaults of `getD` are never read. -/
def auctionPermutation (n : ℕ) (value : Fin n → Fin n → ℤ) : Equiv.Perm (Fin n) where
  toFun i := ((auctionOptimization n value).assignment i).getD i
  invFun j := ((auctionOptimization n value).objectAssignment j).getD j
  left_inv i := by
    obtain ⟨σ, hassign, hobject⟩ := auctionOptimization_inverse n value
    simp only [hassign, hobject, Option.getD_some, Equiv.symm_apply_apply]
  right_inv j := by
    obtain ⟨σ, hassign, hobject⟩ := auctionOptimization_inverse n value
    simp only [hassign, hobject, Option.getD_some, Equiv.apply_symm_apply]

theorem assignment_auctionOptimization (n : ℕ) (value : Fin n → Fin n → ℤ) (i : Fin n) :
    (auctionOptimization n value).assignment i = some (auctionPermutation n value i) := by
  obtain ⟨σ, hassign, -⟩ := auctionOptimization_inverse n value
  have hσ : auctionPermutation n value i = σ i := by
    simp only [auctionPermutation, Equiv.coe_fn_mk, hassign, Option.getD_some]
  rw [hassign, hσ]

/-- The permutation of the arrays is one of highest value. -/
theorem sum_le_sum_auctionPermutation (n : ℕ) (value : Fin n → Fin n → ℤ)
    (τ : Equiv.Perm (Fin n)) : ∑ i, value i (τ i) ≤ ∑ i, value i (auctionPermutation n value i) :=
  sum_le_of_auctionOptimization n value _ (assignment_auctionOptimization n value) τ

end LinearAssignment

end LizardFs
