import Mathlib.Order.ConditionallyCompleteLattice.Basic
import Mathlib.Order.WithBot
import Mathlib.Order.Lattice.Nat
import LizardFs.Common.Goal
import LizardFs.Lib.Placement
import LizardFs.Lib.OrderStatistic
import LizardFs.Master.ChunkStats

/-!
# The chunk copies calculator

Model of `ChunkCopiesCalculator` of `src/common/chunk_copies_calculator.cc`: from the goal
a chunk should meet (`target_`) and the parts it has (`available_`, filled by `addPart`),
it counts the copies to add and to remove (`evalOperationCount`), says which labels need a
new copy or may lose one (`getLabelsToRecover`, `getRemovePool`), how redundant the chunk
is (`evalRedundancyLevel`) and whether one part can go (`canRemovePart`).

The three walks over one part, `operationCount`, `getLabelsToRecover` and
`getRemovePool`, step through the same sequence of spare and missing copies, the
`CountWalk.steps` of the available labels against the target labels, and each folds its
own handler over it. So what the walk finds is proved once (`CountWalk.sum_extraAmount`,
`CountWalk.sum_shortAmount`, `CountWalk.mem_extraKeys`), and each function only adds its
bookkeeping of the wildcard.

`optimize` matches the parts of each target slice to the available ones through
`linear_assignment::auctionOptimization`, which is a parameter (`Goal.Auction`): a
permutation, nothing more. The source's `int` sums of `uint16_t` counts are natural
numbers here; the counts themselves wrap at `2^16` where the source increments or
decrements them.
-/

namespace LizardFs

open MediaLabel CountWalk SliceTraits Goal

namespace ChunkCopiesCalculator

/-- `std::numeric_limits<int>::max()`. -/
def intMax : ℕ := 2147483647

/-- `std::numeric_limits<int>::min()`, the mark of a redundancy level not yet evaluated. -/
def intMin : ℤ := -2147483648

/-! ## The walks over one part -/

/-- One step of the loops of `operationCount`: a spare copy takes up the wildcard budget
`wcount` first and is removed when the budget is spent; a missing copy is added. -/
def operationStep : (ℕ × ℕ) × ℕ → Step MediaLabel → (ℕ × ℕ) × ℕ
  | ((add, remove), wcount), .extra _ n => ((add, remove + (n - min wcount n)), wcount - min wcount n)
  | ((add, remove), wcount), .short _ n => ((add + n, remove), wcount)

/-- `operationCount(src, dst)`: the copies to add and to remove to turn the labels `src`
into the labels `dst`; the wildcard copies of `dst` still unfilled are added at the end. -/
def operationCount (src dst : Labels) : ℕ × ℕ :=
  let r := (steps kWildcard dst.entries src.entries).foldl operationStep ((0, 0), dst.get kWildcard)
  (r.1.1 + r.2, r.1.2)

/-- One step of the loops of `getLabelsToRecover`: a spare copy takes up wildcard budget,
a missing copy is recorded on its label. -/
def recoverStep : Labels × ℕ → Step MediaLabel → Labels × ℕ
  | (result, wcount), .extra _ n => (result, wcount - min wcount n)
  | (result, wcount), .short k n => (result.set k n, wcount)

/-- The labels `getLabelsToRecover` returns for one part with labels `available` against
the target labels `target`. -/
def recoverLabels (available target : Labels) : Labels :=
  let r := (steps kWildcard target.entries available.entries).foldl recoverStep
    (Labels.empty, target.get kWildcard)
  if 0 < r.2 then r.1.set kWildcard r.2 else r.1

/-- One step of the loops of `getRemovePool`: a label with a spare copy joins the pool and
its spare copies are counted. -/
def removePoolStep : Labels × ℕ → Step MediaLabel → Labels × ℕ
  | (result, wcount), .extra k n => (result.set k 1, wcount + n)
  | acc, .short _ _ => acc

/-- The labels `getRemovePool` returns for one part with labels `available` against the
target labels `target`: none while the wildcard copies of the target (`wilcard_target_count`,
the entry the loop stops at) can hold every spare copy. -/
def removePool (available target : Labels) : Labels :=
  let r := (steps kWildcard target.entries available.entries).foldl removePoolStep
    (Labels.empty, 0)
  if r.2 ≤ target.get kWildcard then Labels.empty else r.1

/-! ## What `operationCount` counts

`surplus` and `deficit` say what the walk adds up, in terms of the two label maps alone:
`operationCount` adds the deficit and the wildcard copies the surplus cannot fill, and
removes the surplus the wildcard copies cannot take. That pair is the cheapest way, first
in additions and then in removals, to reach a placement that meets `dst`
(`Placement.isLeast_cheapest`). -/

/-- The copies of `src` that no named label of `dst` asks for: the copies on labels `dst`
does not name (the wildcard's among them) and those above a named label's count. -/
def surplus (src dst : Labels) : ℕ :=
  (src.entries.map fun p => p.2 - CountWalk.get (named kWildcard dst.entries) p.1).sum

/-- The copies the named labels of `dst` ask for that `src` lacks. -/
def deficit (src dst : Labels) : ℕ :=
  ((named kWildcard dst.entries).map fun p => p.2 - src.get p.1).sum

/-- The fold of `operationStep`: additions are the missing copies, the spare copies spend
the wildcard budget and the rest of them are removed. -/
theorem foldl_operationStep : ∀ (l : List (Step MediaLabel)) (add remove wcount : ℕ),
    l.foldl operationStep ((add, remove), wcount) =
      ((add + (l.map Step.shortAmount).sum,
        remove + ((l.map Step.extraAmount).sum - wcount)),
        wcount - (l.map Step.extraAmount).sum)
  | [], add, remove, wcount => by simp
  | .extra k n :: l, add, remove, wcount => by
    rw [List.foldl_cons, operationStep, foldl_operationStep l]
    simp only [List.map_cons, Step.shortAmount, Step.extraAmount, List.sum_cons, Prod.mk.injEq]
    refine ⟨⟨?_, ?_⟩, ?_⟩ <;> omega
  | .short k n :: l, add, remove, wcount => by
    rw [List.foldl_cons, operationStep, foldl_operationStep l]
    simp only [List.map_cons, Step.shortAmount, Step.extraAmount, List.sum_cons, Prod.mk.injEq]
    refine ⟨⟨?_, ?_⟩, ?_⟩ <;> omega

theorem keys_le_kWildcard (l : Labels) : ∀ p ∈ l.entries, p.1 ≤ kWildcard :=
  fun p _ => le_kWildcard p.1

/-- `operationCount` in closed form. -/
theorem operationCount_eq (src dst : Labels) :
    operationCount src dst =
      (deficit src dst + (dst.get kWildcard - surplus src dst),
        surplus src dst - dst.get kWildcard) := by
  have hextra := sum_extraAmount src.sorted dst.sorted (keys_le_kWildcard dst)
  have hshort := sum_shortAmount src.sorted dst.sorted (keys_le_kWildcard dst)
  simp only [operationCount, foldl_operationStep, hextra, hshort, surplus, deficit, Labels.get]
  refine Prod.ext ?_ ?_ <;> simp only <;> omega

/-- A placement meets the target labels `dst`: it has at least their count on every named
label, and as many copies as `dst` in all. -/
theorem meets_iff_admissible (dst : Labels) (q : Multiset MediaLabel) :
    ((∀ L, L ≠ kWildcard → dst.get L ≤ q.count L) ∧ Multiset.card q = dst.countLabels) ↔
      Placement.Admissible (toMultiset (named kWildcard dst.entries)) (dst.get kWildcard) q := by
  have hsorted := dst.sorted.named kWildcard
  have hcard : Multiset.card (toMultiset (named kWildcard dst.entries)) + dst.get kWildcard =
      dst.countLabels := by
    rw [card_toMultiset]
    exact total_named dst.sorted kWildcard
  unfold Placement.Admissible
  rw [Multiset.le_iff_count, ← hcard]
  simp only [count_toMultiset hsorted, get_named]
  constructor
  · rintro ⟨hle, hq⟩
    refine ⟨fun L => ?_, hq⟩
    split
    · exact Nat.zero_le _
    · next h => exact hle L h
  · rintro ⟨hle, hq⟩
    refine ⟨fun L hL => ?_, hq⟩
    have := hle L
    rwa [if_neg hL] at this

/-- `operationCount` is the `cheapest` pair of the placements of the two label maps. -/
theorem operationCount_eq_cheapest (src dst : Labels) :
    operationCount src dst =
      Placement.cheapest (toMultiset src.entries) (toMultiset (named kWildcard dst.entries))
        (dst.get kWildcard) := by
  have hnamed := dst.sorted.named kWildcard
  rw [operationCount_eq, Placement.cheapest, card_toMultiset_sub hnamed src.sorted,
    card_toMultiset_sub src.sorted hnamed]
  rfl

/-- `operationCount(src, dst)` in closed form, and the lexicographically least (additions,
removals) over every placement of copies on labels that has at least `dst`'s count on
each named label and `dst`'s number of copies in all. -/
theorem operationCount_minimal (src dst : Labels) :
    operationCount src dst =
      (((named kWildcard dst.entries).map fun p => p.2 - src.get p.1).sum +
          (dst.get kWildcard -
            (src.entries.map fun p => p.2 - CountWalk.get (named kWildcard dst.entries) p.1).sum),
        (src.entries.map fun p => p.2 - CountWalk.get (named kWildcard dst.entries) p.1).sum -
          dst.get kWildcard) ∧
    IsLeast ((fun q => toLex (Placement.moves (toMultiset src.entries) q)) ''
        {q | (∀ L, L ≠ kWildcard → dst.get L ≤ q.count L) ∧ Multiset.card q = dst.countLabels})
      (toLex (operationCount src dst)) := by
  refine ⟨operationCount_eq src dst, ?_⟩
  have hset : {q | (∀ L, L ≠ kWildcard → dst.get L ≤ q.count L) ∧
      Multiset.card q = dst.countLabels} =
      {q | Placement.Admissible (toMultiset (named kWildcard dst.entries)) (dst.get kWildcard) q} :=
    Set.ext fun q => meets_iff_admissible dst q
  rw [hset, operationCount_eq_cheapest]
  exact Placement.isLeast_cheapest _ _ _

/-! ## What `getLabelsToRecover` and `getRemovePool` return

The same walk: `recoverLabels` records each missing count on its label and the wildcard
copies left after the spare ones, so its total is the additions of `operationCount`;
`removePool` holds the labels with spare copies, exactly when the spare copies exceed the
target's wildcard copies, that is when `operationCount` removes some. -/

/-- The fold of `recoverStep`: the missing copies assigned label by label, the budget
spent by the spare copies. -/
theorem foldl_recoverStep : ∀ (l : List (Step MediaLabel)) (result : Labels) (wcount : ℕ),
    (l.foldl recoverStep (result, wcount)).1.entries =
        (l.filterMap Step.shortEntry).foldl (fun m p => setCount m p.1 p.2) result.entries ∧
      (l.foldl recoverStep (result, wcount)).2 = wcount - (l.map Step.extraAmount).sum
  | [], _, _ => ⟨rfl, rfl⟩
  | .extra k n :: l, result, wcount => by
    obtain ⟨h1, h2⟩ := foldl_recoverStep l result (wcount - min wcount n)
    simp only [List.foldl_cons, recoverStep, List.filterMap_cons, Step.shortEntry, List.map_cons,
      Step.extraAmount, List.sum_cons]
    exact ⟨h1, by rw [h2]; omega⟩
  | .short k n :: l, result, wcount => by
    obtain ⟨h1, h2⟩ := foldl_recoverStep l (result.set k n) wcount
    simp only [List.foldl_cons, recoverStep, List.filterMap_cons, Step.shortEntry, List.map_cons,
      Step.extraAmount, List.sum_cons, Nat.zero_add]
    exact ⟨h1, h2⟩

/-- `getLabelsToRecover` of one part asks for as many copies as `operationCount` adds. -/
theorem countLabels_recoverLabels (src dst : Labels) :
    (recoverLabels src dst).countLabels = (operationCount src dst).1 := by
  set l := steps kWildcard dst.entries src.entries with hl
  obtain ⟨hkeys, hwild⟩ := shortKeys_nodup src.sorted dst.sorted (keys_le_kWildcard dst)
  rw [← hl] at hkeys hwild
  obtain ⟨hentries, hbudget⟩ := foldl_recoverStep l Labels.empty (dst.get kWildcard)
  -- the missing counts go to distinct labels, none of them the wildcard
  have htotal : (l.foldl recoverStep (Labels.empty, dst.get kWildcard)).1.countLabels =
      (l.map Step.shortAmount).sum := by
    rw [Labels.countLabels, hentries, total_foldl_setCount Labels.empty.sorted
      (by rw [keys_filterMap_shortEntry]; exact hkeys) (fun _ _ h => by simp [Labels.empty] at h),
      sum_filterMap_shortEntry]
    exact Nat.zero_add _
  have hnowild : (l.foldl recoverStep (Labels.empty, dst.get kWildcard)).1.get kWildcard = 0 := by
    apply get_eq_zero_of_not_mem
    rw [hentries, mem_keys_foldl_setCount, keys_filterMap_shortEntry]
    rintro (h | h)
    · simp [Labels.empty] at h
    · exact hwild _ h rfl
  have hcount := foldl_operationStep l 0 0 (dst.get kWildcard)
  simp only [recoverLabels, operationCount, ← hl, hcount, hbudget]
  split
  · have hset := Labels.countLabels_set
      (l.foldl recoverStep (Labels.empty, dst.get kWildcard)).1 kWildcard
      (dst.get kWildcard - (l.map Step.extraAmount).sum)
    rw [hnowild, htotal] at hset
    omega
  · rw [htotal]
    omega

/-- The fold of `removePoolStep`: every label with spare copies joins the pool, and its
spare copies are counted. -/
theorem foldl_removePoolStep : ∀ (l : List (Step MediaLabel)) (result : Labels) (wcount : ℕ),
    (l.foldl removePoolStep (result, wcount)).1.entries =
        ((l.filterMap Step.extraKey).map fun k => (k, 1)).foldl
          (fun m p => setCount m p.1 p.2) result.entries ∧
      (l.foldl removePoolStep (result, wcount)).2 = wcount + (l.map Step.extraAmount).sum
  | [], _, _ => ⟨rfl, rfl⟩
  | .extra k n :: l, result, wcount => by
    obtain ⟨h1, h2⟩ := foldl_removePoolStep l (result.set k 1) (wcount + n)
    simp only [List.foldl_cons, removePoolStep, List.filterMap_cons, Step.extraKey, List.map_cons,
      Step.extraAmount, List.sum_cons]
    exact ⟨h1, by rw [h2]; omega⟩
  | .short k n :: l, result, wcount => by
    obtain ⟨h1, h2⟩ := foldl_removePoolStep l result wcount
    simp only [List.foldl_cons, removePoolStep, List.filterMap_cons, Step.extraKey, List.map_cons,
      Step.extraAmount, List.sum_cons, Nat.zero_add]
    exact ⟨h1, h2⟩

/-- The labels of `getRemovePool` of one part: none unless `operationCount` removes some
copies, and then every label of `src` that `dst` does not name or asks fewer copies of. -/
theorem mem_keys_removePool (src dst : Labels) (L : MediaLabel) :
    L ∈ (removePool src dst).entries.map Prod.fst ↔
      0 < (operationCount src dst).2 ∧ L ∈ src.entries.map Prod.fst ∧
        (L ∉ (named kWildcard dst.entries).map Prod.fst ∨
          CountWalk.get (named kWildcard dst.entries) L < src.get L) := by
  set l := steps kWildcard dst.entries src.entries with hl
  obtain ⟨hentries, hspare⟩ := foldl_removePoolStep l Labels.empty 0
  have hextra := sum_extraAmount src.sorted dst.sorted (keys_le_kWildcard dst)
  have hkeys := mem_extraKeys src.sorted dst.sorted (keys_le_kWildcard dst) L
  rw [← hl] at hextra hkeys
  have hsecond : (operationCount src dst).2 = (l.map Step.extraAmount).sum - dst.get kWildcard := by
    simp only [operationCount, ← hl, foldl_operationStep, Labels.get]
    omega
  simp only [removePool, ← hl]
  rw [hsecond, hspare, Nat.zero_add]
  split
  · next hle => simp [Labels.empty]; omega
  · next hlt =>
    have hpos : 0 < (l.map Step.extraAmount).sum - dst.get kWildcard := by omega
    rw [hentries, mem_keys_foldl_setCount, List.map_map]
    simp only [Labels.empty, List.map_nil, List.not_mem_nil, false_or, Function.comp_def,
      List.map_id', Labels.get]
    rw [hkeys]
    exact ⟨fun h => ⟨hpos, h⟩, fun h => h.2⟩

/-- `getRemovePool` of one part is empty exactly when `operationCount` removes nothing. -/
theorem removePool_ne_nil_iff (src dst : Labels) :
    (removePool src dst).entries ≠ [] ↔ 0 < (operationCount src dst).2 := by
  constructor
  · intro h
    obtain ⟨e, he⟩ := List.exists_mem_of_ne_nil _ h
    exact ((mem_keys_removePool src dst e.1).mp (List.mem_map_of_mem he)).1
  · intro h
    -- some step has spare copies, and its label joins the pool
    have hextra := sum_extraAmount src.sorted dst.sorted (keys_le_kWildcard dst)
    have hsecond : (operationCount src dst).2 =
        ((steps kWildcard dst.entries src.entries).map Step.extraAmount).sum - dst.get kWildcard := by
      simp only [operationCount, foldl_operationStep, Labels.get]
      omega
    obtain ⟨st, hst, hpos⟩ : ∃ st ∈ steps kWildcard dst.entries src.entries,
        0 < st.extraAmount := by
      by_contra hnone
      simp only [not_exists, not_and, not_lt] at hnone
      have : ((steps kWildcard dst.entries src.entries).map Step.extraAmount).sum = 0 :=
        List.sum_eq_zero fun n hn => by
          obtain ⟨st, hst, rfl⟩ := List.mem_map.mp hn
          exact Nat.le_zero.mp (hnone st hst)
      omega
    cases st with
    | short k n => simp [Step.extraAmount] at hpos
    | extra k n =>
      have hk : k ∈ (steps kWildcard dst.entries src.entries).filterMap Step.extraKey :=
        List.mem_filterMap.mpr ⟨_, hst, rfl⟩
      have hmem := (mem_extraKeys src.sorted dst.sorted (keys_le_kWildcard dst) k).mp hk
      have hpool := (mem_keys_removePool src dst k).mpr ⟨h, hmem⟩
      intro hnil
      rw [hnil] at hpool
      simp at hpool

/-! ## Redundancy and full copies of a slice -/

/-- `evalSliceRedundancyLevel(slice)`: how many copies (standard) or distinct parts (xor,
erasure codes) a slice has beyond what recovering the data needs; negative when the data
is lost. -/
def evalSliceRedundancyLevel (s : Slice) : ℤ :=
  let copies := (s.parts.map Labels.countLabels).sum
  let typeCount := s.parts.countP fun part => 0 < part.countLabels
  if isStandard s.type then (copies : ℤ) - 1
  else if isXor s.type || isEC s.type then (typeCount : ℤ) - getNumberOfDataParts s.type
  else -1

/-- One step of the xor loop of `getFullCopiesCount`: the lowest and second lowest count
so far, both starting at `INT_MAX`, above every count. -/
def lowestStep (acc : WithTop ℕ × WithTop ℕ) (partCopies : ℕ) : WithTop ℕ × WithTop ℕ :=
  if (partCopies : WithTop ℕ) < acc.1 then (partCopies, acc.1) else (acc.1, min acc.2 partCopies)

/-- What one slice adds to `getFullCopiesCount`: all copies of a standard slice, the
second lowest part count of a xor slice, the `k`-th count in descending order
(`std::nth_element` with `a > b`) of an erasure code slice with `k` data parts. -/
def sliceFullCopies (s : Slice) : ℕ :=
  let partCopies := s.parts.map Labels.countLabels
  if isStandard s.type then s.getExpectedCopies
  else if isXor s.type then
    (partCopies.foldl lowestStep (⊤, ⊤)).2.untopD intMax
  else if isEC s.type then
    (partCopies.mergeSort fun a b => decide (b ≤ a)).getD (getNumberOfDataParts s.type - 1) 0
  else 0

/-- `getFullCopiesCount(goal)`. -/
def getFullCopiesCount (g : Goal) : ℕ := (g.slices.map sliceFullCopies).sum

/-! ## Full copies follow the `k`-of-`n` rule

A slice whose data needs `k` distinct parts has as many full copies as the `k`-th largest
part count. The xor loop keeps the two lowest counts, which are the first two of the
counts sorted by inserting them one by one (`foldl_lowestStep`); a xor slice has one part
more than data parts, so the second lowest is the `k`-th largest. The erasure code branch
reads index `k - 1` of the counts sorted descending. -/

open OrderStatistic

/-- The two lowest elements of an ascending list, `⊤` for those it lacks. -/
def lowestPair : List ℕ → WithTop ℕ × WithTop ℕ
  | [] => (⊤, ⊤)
  | [a] => (a, ⊤)
  | a :: b :: _ => (a, b)

/-- Inserting a count into the sorted counts is one step of the xor loop. -/
theorem lowestStep_lowestPair {s : List ℕ} (hs : s.Pairwise (· ≤ ·)) (c : ℕ) :
    lowestStep (lowestPair s) c = lowestPair (s.orderedInsert (· ≤ ·) c) := by
  match s, hs with
  | [], _ => simp [lowestStep, lowestPair]
  | [a], _ =>
    by_cases hca : c ≤ a
    · rcases Nat.lt_or_eq_of_le hca with hlt | rfl
      · simp [lowestStep, lowestPair, hca, hlt]
      · simp [lowestStep, lowestPair]
    · have hlt : ¬ c < a := by omega
      simp [lowestStep, lowestPair, hca, hlt]
  | a :: b :: t, hs =>
    have hab : a ≤ b := List.rel_of_pairwise_cons hs List.mem_cons_self
    by_cases hca : c ≤ a
    · rcases Nat.lt_or_eq_of_le hca with hlt | rfl
      · simp [lowestStep, lowestPair, hca, hlt]
      · simp [lowestStep, lowestPair, hab]
    · have hlt : ¬ c < a := by omega
      by_cases hcb : c ≤ b
      · simp [lowestStep, lowestPair, hca, hlt, hcb]
      · have hbc : b ≤ c := by omega
        simp [lowestStep, lowestPair, hca, hlt, hcb, hbc]

/-- The xor loop over counts is the pair of lowest counts of their insertion sort. -/
theorem foldl_lowestStep : ∀ (l : List ℕ) {s : List ℕ}, s.Pairwise (· ≤ ·) →
    l.foldl lowestStep (lowestPair s) =
      lowestPair (l.foldl (fun s c => s.orderedInsert (· ≤ ·) c) s)
  | [], _, _ => rfl
  | c :: l, _, hs => by
    rw [List.foldl_cons, List.foldl_cons, lowestStep_lowestPair hs c]
    exact foldl_lowestStep l (hs.orderedInsert c _)

theorem perm_foldl_orderedInsert : ∀ (l s : List ℕ),
    List.Perm (l.foldl (fun s c => s.orderedInsert (· ≤ ·) c) s) (s ++ l)
  | [], s => by simp
  | c :: l, s => by
    rw [List.foldl_cons]
    refine (perm_foldl_orderedInsert l _).trans ?_
    have h := (List.perm_orderedInsert (· ≤ ·) c s).append_right l
    refine h.trans ?_
    have hmiddle : List.Perm (s ++ c :: l) (c :: (s ++ l)) := List.perm_middle
    simpa using hmiddle.symm

theorem sorted_foldl_orderedInsert : ∀ (l : List ℕ) {s : List ℕ}, s.Pairwise (· ≤ ·) →
    (l.foldl (fun s c => s.orderedInsert (· ≤ ·) c) s).Pairwise (· ≤ ·)
  | [], _, hs => hs
  | c :: l, _, hs => sorted_foldl_orderedInsert l (hs.orderedInsert c _)

/-- The second lowest of `n ≥ 2` counts is their `(n - 1)`-th largest. -/
theorem isKthLargest_lowestStep {l : List ℕ} (hl : 2 ≤ l.length) :
    IsKthLargest l (l.length - 1) ((l.foldl lowestStep (⊤, ⊤)).2.untopD intMax) := by
  have hperm : List.Perm (l.foldl (fun s c => s.orderedInsert (· ≤ ·) c) []) l := by
    simpa using perm_foldl_orderedInsert l []
  have hsorted := sorted_foldl_orderedInsert l List.Pairwise.nil
  have hfold : l.foldl lowestStep (⊤, ⊤) =
      lowestPair (l.foldl (fun s c => s.orderedInsert (· ≤ ·) c) []) :=
    foldl_lowestStep l List.Pairwise.nil
  rw [hfold]
  generalize l.foldl (fun s c => s.orderedInsert (· ≤ ·) c) [] = s at hperm hsorted
  have hlen := hperm.length_eq
  rcases s with _ | ⟨a, _ | ⟨b, t⟩⟩
  · simp at hlen; omega
  · simp at hlen; omega
  · -- the sorted counts start with the lowest two
    have h := isKthLargest_of_sortedLE hsorted (i := 1) (by simp)
    simp only [lowestPair]
    rw [← hlen]
    exact h.perm hperm

/-- The `k`-th count of the counts sorted descending is their `k`-th largest. -/
theorem isKthLargest_mergeSort {l : List ℕ} {k : ℕ} (hk : 0 < k) (hkl : k ≤ l.length) :
    IsKthLargest l k ((l.mergeSort fun a b => decide (b ≤ a)).getD (k - 1) 0) := by
  have hperm := List.mergeSort_perm l fun a b => decide (b ≤ a)
  have hsorted : (l.mergeSort fun a b => decide (b ≤ a)).Pairwise (· ≥ ·) := by
    have h : (l.mergeSort fun a b => decide (b ≤ a)).Pairwise fun a b => decide (b ≤ a) :=
      List.pairwise_mergeSort (fun a b c hab hbc => by simp only [decide_eq_true_eq] at *; omega)
      (fun a b => by simp only [Bool.or_eq_true, decide_eq_true_eq]; omega) l
    exact h.imp fun h => by simpa using h
  have hlt : k - 1 < (l.mergeSort fun a b => decide (b ≤ a)).length := by
    rw [hperm.length_eq]; omega
  have h := isKthLargest_of_sortedGE hsorted hlt
  rw [Nat.sub_add_cancel hk] at h
  rw [List.getD_eq_getElem?_getD, List.getElem?_eq_getElem hlt, Option.getD_some]
  exact h.perm hperm

/-- What a slice adds to `getFullCopiesCount`, by the `k`-of-`n` rule. -/
theorem sliceFullCopies_eq (s : Slice) :
    sliceFullCopies s =
      if isStandard s.type then s.getExpectedCopies
      else if isXor s.type || isEC s.type then
        sSup {t | getNumberOfDataParts s.type ≤ s.parts.countP fun part => t ≤ part.countLabels}
      else 0 := by
  -- the counts of the parts, one per part
  have hset : {t | getNumberOfDataParts s.type ≤ s.parts.countP fun part => t ≤ part.countLabels} =
      {t | getNumberOfDataParts s.type ≤
        (s.parts.map Labels.countLabels).countP fun x => t ≤ x} := by
    ext t
    simp only [Set.mem_ofPred_eq, List.countP_map, Function.comp_def]
  have hlen : (s.parts.map Labels.countLabels).length = SliceType.expectedParts s.type := by
    rw [List.length_map, s.length_parts]
  unfold sliceFullCopies
  by_cases hstd : isStandard s.type = true
  · rw [if_pos hstd, if_pos hstd]
  rw [if_neg hstd, if_neg hstd, hset]
  by_cases hxor : isXor s.type = true
  · -- xor: the data parts are all parts but the parity part
    rw [if_pos hxor, if_pos (by rw [hxor, Bool.true_or])]
    have hparts := expectedParts_of_isXor hxor
    have h := isKthLargest_lowestStep (l := s.parts.map Labels.countLabels) (by
      rw [hlen, hparts]; have := getNumberOfDataParts_pos s.type; omega)
    rw [hlen, hparts, Nat.add_sub_cancel] at h
    exact h.csSup_eq.symm
  rw [if_neg hxor]
  by_cases hec : isEC s.type = true
  · rw [if_pos hec, if_pos (by rw [hec, Bool.or_true])]
    have h := isKthLargest_mergeSort (l := s.parts.map Labels.countLabels)
      (getNumberOfDataParts_pos s.type)
      (by rw [hlen]; exact (getNumberOfDataParts_lt_of_isEC hec).le)
    exact h.csSup_eq.symm
  · rw [if_neg hec, if_neg (by simp [hxor, hec])]

/-- `getFullCopiesCount(goal)`: all copies of the standard slices, and for each xor and
erasure code slice with `k` data parts the largest `t` that at least `k` parts reach. -/
theorem getFullCopiesCount_kOfN (g : Goal) :
    getFullCopiesCount g = (g.slices.map fun s =>
      if isStandard s.type then s.getExpectedCopies
      else if isXor s.type || isEC s.type then
        sSup {t | getNumberOfDataParts s.type ≤ s.parts.countP fun part => t ≤ part.countLabels}
      else 0).sum := by
  unfold getFullCopiesCount
  congr 1
  exact List.map_congr_left fun s _ => sliceFullCopies_eq s

/-- `evalRedundancyLevel(goal)`. -/
def evalRedundancyLevelOf (g : Goal) : ℤ :=
  (g.slices.map fun s => max (evalSliceRedundancyLevel s + 1) 0).sum - 1

end ChunkCopiesCalculator

/-- `ChunkCopiesCalculator`: the goal and the parts of one chunk, and what it evaluated of
them. `slice_redundancy_level_` and `slice_operation_count_` are `flat_map`s by slice
type, association lists here: nothing reads their order. -/
structure ChunkCopiesCalculator where
  available : Goal
  target : Goal
  targetRedundancyLevel : ℤ
  redundancyLevel : ℤ
  sliceRedundancyLevel : List (ℕ × ℤ)
  sliceOperationCount : List (ℕ × List (ℕ × ℕ))
  /-- `operation_count_`: the copies to add and to remove for the whole chunk -/
  chunkOperationCount : ℕ × ℕ

namespace ChunkCopiesCalculator

/-- `map[key] = value` on an association list. -/
def assign {β : Type*} : List (ℕ × β) → ℕ → β → List (ℕ × β)
  | [], k, v => [(k, v)]
  | (k', v') :: m, k, v => if k' = k then (k, v) :: m else (k', v') :: assign m k v

/-- `ChunkCopiesCalculator(Goal target)`. -/
def ofTarget (target : Goal) : ChunkCopiesCalculator :=
  ⟨Goal.empty, target, intMin, intMin, [], [], (0, 0)⟩

variable (c : ChunkCopiesCalculator)

/-- `setTarget(target)`. -/
def setTarget (target : Goal) : ChunkCopiesCalculator :=
  { c with target := target, targetRedundancyLevel := intMin }

/-- `addPart(slice_type, part, label)`: `available_[slice_type][part][label]++` on a
`uint16_t` count, the entry starting at 0 and the slice at `Slice(slice_type)`. -/
def addPart (type part : ℕ) (label : MediaLabel) : ChunkCopiesCalculator :=
  let slice := (c.available.getSlice type).modifyPart part fun labels =>
    labels.set label ((labels.get label + 1) % 65536)
  { c with available := c.available.setSlice slice }

/-- `removePart(slice_type, part, label)`: one copy less on `label`, the entry erased when
its `uint16_t` count reaches 0; nothing when the chunk has no such copy. -/
def removePart (type part : ℕ) (label : MediaLabel) : ChunkCopiesCalculator :=
  match c.available.find type with
  | none => c
  | some slice =>
    if (slice.part part).contains label then
      let count := ((slice.part part).get label + 65535) % 65536
      { c with available := c.available.setSlice (slice.modifyPart part fun labels =>
          if count = 0 then labels.erase label else labels.set label count) }
    else c

/-! ## Operation counts -/

/-- The counts of each part of a target slice: against the available slice of its type,
or all its copies to add when there is none. -/
def targetSliceCounts (available : Goal) (slice : Slice) : List (ℕ × ℕ) :=
  match available.find slice.type with
  | none => slice.parts.map fun part => (part.countLabels, 0)
  | some src => List.zipWith operationCount src.parts slice.parts

/-- Record the counts of one slice in `slice_operation_count_` and add them to
`operation_count_`, part by part. -/
def recordSlice (acc : List (ℕ × List (ℕ × ℕ)) × (ℕ × ℕ)) (type : ℕ)
    (counts : List (ℕ × ℕ)) : List (ℕ × List (ℕ × ℕ)) × (ℕ × ℕ) :=
  (assign acc.1 type counts, counts.foldl (fun t op => (t.1 + op.1, t.2 + op.2)) acc.2)

/-- `evalOperationCount()`: the counts of every target slice, then of every available
slice the target lacks, all of whose copies are to remove. -/
def evalOperationCount : ChunkCopiesCalculator :=
  let acc := c.target.slices.foldl
    (fun acc slice => recordSlice acc slice.type (targetSliceCounts c.available slice)) ([], (0, 0))
  let acc := c.available.slices.foldl (fun acc slice =>
      if c.target.find slice.type = none then
        recordSlice acc slice.type (slice.parts.map fun part => (0, part.countLabels))
      else acc) acc
  { c with sliceOperationCount := acc.1, chunkOperationCount := acc.2 }

/-- `countPartsToMove(slice_type, part)`. -/
def countPartsToMove (type part : ℕ) : ℕ × ℕ :=
  match c.sliceOperationCount.lookup type with
  | none => (0, 0)
  | some counts => counts.getD part (0, 0)

/-- `countPartsToRecover()`. -/
def countPartsToRecover : ℕ := c.chunkOperationCount.1

/-- `countPartsToRemove()`. -/
def countPartsToRemove : ℕ := c.chunkOperationCount.2

/-- `getLabelsToRecover(slice_type, part)`. -/
def getLabelsToRecover (type part : ℕ) : Labels :=
  match c.target.find type with
  | none => Labels.empty
  | some target =>
    match c.available.find type with
    | none => target.part part
    | some available => recoverLabels (available.part part) (target.part part)

/-- `getRemovePool(slice_type, part)`. -/
def getRemovePool (type part : ℕ) : Labels :=
  match c.available.find type with
  | none => Labels.empty
  | some available =>
    match c.target.find type with
    | none => available.part part
    | some target => removePool (available.part part) (target.part part)

/-- `canMovePartToDifferentLabel(slice_type, part, label)`. -/
def canMovePartToDifferentLabel (type part : ℕ) (label : MediaLabel) : Bool :=
  match c.available.find type, c.target.find type with
  | some available, some target =>
    if (target.part part).contains label then
      (available.part part).contains label &&
        decide ((target.part part).get label < (available.part part).get label)
    else true
  | _, _ => false

/-! ## Redundancy -/

/-- `evalRedundancyLevel()`: each available slice adds its redundancy plus one, at least
0, and records its level. -/
def evalRedundancyLevel : ChunkCopiesCalculator :=
  let acc := c.available.slices.foldl (fun (acc : ℤ × List (ℕ × ℤ)) slice =>
      let extraParts := evalSliceRedundancyLevel slice
      (acc.1 + max (extraParts + 1) 0, assign acc.2 slice.type extraParts))
    (0, c.sliceRedundancyLevel)
  { c with redundancyLevel := acc.1 - 1, sliceRedundancyLevel := acc.2 }

/-- `isSafeEnoughToWrite(min_redundant_parts)`, with the levels it evaluates on first use. -/
def isSafeEnoughToWrite (minRedundantParts : ℤ) : Bool × ChunkCopiesCalculator :=
  let c := if c.targetRedundancyLevel = intMin then
      { c with targetRedundancyLevel := evalRedundancyLevelOf c.target } else c
  let c := if c.redundancyLevel = intMin then c.evalRedundancyLevel else c
  (decide (min c.targetRedundancyLevel minRedundantParts ≤ c.redundancyLevel), c)

/-- `updateRedundancyLevel(slice_type)`. -/
def updateRedundancyLevel (type : ℕ) : ChunkCopiesCalculator :=
  match c.available.find type with
  | none => c
  | some slice =>
    -- `slice_redundancy_level_[slice_type]` reads 0 for a type without an entry
    let old := (c.sliceRedundancyLevel.lookup type).getD 0
    let new := evalSliceRedundancyLevel slice
    { c with sliceRedundancyLevel := assign c.sliceRedundancyLevel type new,
             redundancyLevel := c.redundancyLevel + max new (-1) - max old (-1) }

/-- `getState()`. -/
def getState : AvailabilityState :=
  if c.target.size = 0 ∨ 0 < c.redundancyLevel then .safe
  else if c.redundancyLevel = 0 then .endangered
  else .lost

/-- The slices that are safe (`> 0`) and endangered (`= 0`) in `slice_redundancy_level_`. -/
def stateCount (levels : List (ℕ × ℤ)) : ℕ × ℕ :=
  (levels.countP fun e => 0 < e.2, levels.countP fun e => e.2 = 0)

/-- `removePartBasicTest(slice_type, result)`: `some result` when the slice states decide
the question, `none` when the one safe slice itself must be looked at. -/
def removePartBasicTest (type : ℕ) : Option Bool :=
  if c.target.size = 0 then some true
  else if c.redundancyLevel < 1 ∨ c.available.find type = none then some false
  else
    let counts := stateCount c.sliceRedundancyLevel
    if 2 < 2 * counts.1 + counts.2 then some true
    -- the slice has an entry: `evalRedundancyLevel` records every available slice
    else if (c.sliceRedundancyLevel.lookup type).getD 0 < 0 then some true
    else if counts.1 ≠ 1 then some false
    else none

/-- `canRemovePart(slice_type, part, label)`: the basic test, else the slice with one copy
less on `label` (a `uint16_t` decrement, the entry kept) must stay safe, unless the
target asks for one copy of it and one is left. -/
def canRemovePart (type part : ℕ) (label : MediaLabel) : Bool :=
  match c.removePartBasicTest type with
  | some result => result
  | none =>
    let slice := c.available.getSlice type
    let slice := if (slice.part part).contains label then
        slice.modifyPart part fun labels => labels.set label ((labels.get label + 65535) % 65536)
      else slice
    match c.target.find type with
    | some target =>
      if target.getExpectedCopies = 1 ∧ 1 ≤ slice.getExpectedCopies then true
      else decide (0 < evalSliceRedundancyLevel slice)
    | none => decide (0 < evalSliceRedundancyLevel slice)

/-! ## Optimize -/

/-- `max_slice_op`: `10 * Goal::kMaxExpectedCopies`. -/
def maxSliceOp : ℕ := 10 * kMaxExpectedCopies

/-- `cost[i][j]` of `optimize`: the operation counts of available part `i` against target
part `j`, each clamped below `max_slice_op`, packed so that fewer additions always win. -/
def sliceCost (src target : Slice) (i j : Fin target.size) : ℤ :=
  let op := operationCount (src.part i) (target.part j)
  (maxSliceOp * maxSliceOp : ℤ) -
    (maxSliceOp * (min op.1 (maxSliceOp - 1) : ℕ) + (min op.2 (maxSliceOp - 1) : ℕ))

/-- What `optimize` does to one target slice: with an available slice of its type and more
than one part, its part `i` becomes the part the auction assigns to available part `i`. -/
def optimizeSlice (auction : Auction) (available : Goal) (slice : Slice) : Slice :=
  match available.find slice.type with
  | none => slice
  | some src => if slice.size ≤ 1 then slice else slice.permute (auction slice.size (sliceCost src slice))

theorem type_optimizeSlice (auction : Auction) (available : Goal) (slice : Slice) :
    (optimizeSlice auction available slice).type = slice.type := by
  unfold optimizeSlice
  split
  · rfl
  · split <;> rfl

/-- `optimize()`: match the parts, then evaluate the operation counts and the redundancy. -/
def optimize (auction : Auction) : ChunkCopiesCalculator :=
  let target := c.target.mapSlices (optimizeSlice auction c.available)
    (type_optimizeSlice auction c.available)
  ({ c with target := target }).evalOperationCount.evalRedundancyLevel

end ChunkCopiesCalculator

end LizardFs
