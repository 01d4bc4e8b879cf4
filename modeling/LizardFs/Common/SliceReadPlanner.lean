import Mathlib.Data.List.Sort
import Mathlib.Data.Finset.Card
import LizardFs.Common.SliceReadPlan

/-!
# The slice read planner

Model of `SliceReadPlanner` (`src/common/slice_read_planner.cc`): `prepare` picks one
available part per slice part and sorts them by score, and `buildPlanFor` lays the reads
of a block range out in one buffer. The requested parts take the first slots of the
buffer in request order; every other part read gets the next free slot. Wave 0 reads the
requested parts when all of them are available, and otherwise enough parts to recover the
data; later waves read the rest, two at a time.

`buildPlanFor_checked` shows that every plan passes `ReadPlanExecutor::checkPlan`, gives
each requested part its own slot, and can finish from wave 0 alone, for every block range
within the slice and every bandwidth overuse, provided the available parts are valid part
types. The one layout invariant `Layout` carries the buffer half of it through every call
of `addParts`.

The float `bandwidth_overuse_` enters only through `std::floor(bandwidth_overuse_ * n)`,
modelled as the function `bandwidthFloor`; scores are floats compared by `>`, modelled as
rationals.
-/

namespace LizardFs

open ChunkPartType SliceTraits

/-- `SliceReadPlanner::WeightedPart`. -/
structure WeightedPart where
  score : ℚ
  type : Nat
deriving DecidableEq, Repr

/-- The state of a `SliceReadPlanner`. -/
structure SliceReadPlanner where
  /-- `std::floor(bandwidth_overuse_ * n)`. -/
  bandwidthFloor : Nat → Int
  scores : List (Nat × ℚ)
  sliceType : Nat
  sliceParts : List Nat
  weightedPartsToUse : List WeightedPart
  canRead : Bool
  requiredPartsAvailable : Bool
  canRecoverParts : Bool

namespace SliceReadPlanner

/-! ## `prepare` -/

/-- The bitset of the slice parts of the available parts of the slice type. -/
def partBitset (sliceType : Nat) (availableParts : List Nat) : Finset Nat :=
  availableParts.foldl
    (fun bits part => if getSliceType part = sliceType then insert (getSlicePart part) bits else bits) ∅

/-- `scores_.find(part)`, a score of 1 for a part without one. -/
def scoreOf (scores : List (Nat × ℚ)) (part : Nat) : ℚ := (scores.lookup part).getD 1

/-- The loop of `prepare` that keeps the first available part of each slice part and
resets its bit. -/
def pickParts (scores : List (Nat × ℚ)) (sliceType : Nat) :
    List Nat → Finset Nat → List WeightedPart
  | [], _ => []
  | part :: rest, bits =>
    if getSliceType part = sliceType ∧ getSlicePart part ∈ bits then
      ⟨scoreOf scores part, part⟩ :: pickParts scores sliceType rest (bits.erase (getSlicePart part))
    else pickParts scores sliceType rest bits

/-- `std::stable_sort` by `a.score > b.score`: an insertion sort that places each part
before the first one with a score not above its own. -/
def sortByScore (parts : List WeightedPart) : List WeightedPart :=
  parts.insertionSort fun a b => b.score ≤ a.score

/-- `prepare(slice_type, slice_parts, available_parts)`. -/
def prepare (P : SliceReadPlanner) (sliceType : Nat) (sliceParts availableParts : List Nat) :
    SliceReadPlanner :=
  let bits := partBitset sliceType availableParts
  let requiredPartsAvailable := sliceParts.all (· ∈ bits)
  let canRecoverParts := decide (bits.card ≥ requiredPartsToRecover sliceType)
  let canRead := requiredPartsAvailable || canRecoverParts
  { P with
    sliceType, sliceParts, canRead, requiredPartsAvailable, canRecoverParts
    weightedPartsToUse :=
      if canRead then sortByScore (pickParts P.scores sliceType availableParts bits) else [] }

/-- `isReadingPossible()`. -/
def isReadingPossible (P : SliceReadPlanner) : Bool := P.canRead

/-- `shouldReadPartsRequiredForRecovery()`. -/
def shouldReadPartsRequiredForRecovery (P : SliceReadPlanner) : Bool := !P.requiredPartsAvailable

/-! ## `buildPlanFor` -/

/-- The loop body of `addParts` over the parts `weighted_parts_to_use_[ops..end)`: a
requested part (index at least 0) reads into its own slot, any other into the slot at
`buffer_offset`, which then moves on. -/
def addOps (partIndices : Nat → Int) (firstBlock blockCount : Int) (wave : Nat) :
    List WeightedPart → List (Nat × ReadOperation) → Int → List (Nat × ReadOperation) × Int
  | [], ops, bufferOffset => (ops, bufferOffset)
  | wp :: rest, ops, bufferOffset =>
    let index := partIndices (getSlicePart wp.type)
    let op : ReadOperation :=
      { requestOffset := firstBlock * mfsBlockSize
        requestSize := mfsBlockSize * min ((getNumberOfBlocks wp.type : Int) - firstBlock) blockCount
        bufferOffset := if index < 0 then bufferOffset else index * mfsBlockSize * blockCount
        wave }
    addOps partIndices firstBlock blockCount wave rest (ops ++ [(wp.type, op)])
      (if index < 0 then bufferOffset + blockCount * mfsBlockSize else bufferOffset)

/-- `addParts(plan, first_block, block_count, parts_count, wave, buffer_offset)`. -/
def addParts (P : SliceReadPlanner) (partIndices : Nat → Int) (plan : SliceReadPlan)
    (firstBlock blockCount partsCount : Int) (wave : Nat) (bufferOffset : Int) :
    SliceReadPlan × Int :=
  let ops := plan.readOperations.length
  let last := min ((ops : Int) + partsCount) P.weightedPartsToUse.length
  let r := addOps partIndices firstBlock blockCount wave
    ((P.weightedPartsToUse.drop ops).take (last - ops).toNat) plan.readOperations bufferOffset
  ({ plan with readOperations := r.1, readBufferSize := r.2 }, r.2)

/-- `addBasicParts`: wave 0, extra parts placed after the requested ones. -/
def addBasicParts (P : SliceReadPlanner) (partIndices : Nat → Int) (plan : SliceReadPlan)
    (firstBlock blockCount partsCount : Int) : SliceReadPlan × Int :=
  addParts P partIndices plan firstBlock blockCount partsCount 0
    (plan.requestedParts.length * plan.bufferPartSize)

/-- The loop `while (plan->read_operations.size() < all_parts_count)` of `addExtraParts`,
two parts a wave. Each round adds at least one part, so `all_parts_count` rounds of fuel
are enough (`extraWaves_length`). -/
def extraWaves (P : SliceReadPlanner) (partIndices : Nat → Int) (firstBlock blockCount : Int) :
    Nat → SliceReadPlan → Nat → Int → SliceReadPlan × Int
  | 0, plan, _, bufferOffset => (plan, bufferOffset)
  | fuel + 1, plan, wave, bufferOffset =>
    if plan.readOperations.length < P.weightedPartsToUse.length then
      let partsCount := min 2 ((P.weightedPartsToUse.length : Int) - plan.readOperations.length)
      let r := addParts P partIndices plan firstBlock blockCount partsCount wave bufferOffset
      extraWaves P partIndices firstBlock blockCount fuel r.1 (wave + 1) r.2
    else (plan, bufferOffset)

/-- `addExtraParts`: wave 1 up to the parts needed to recover, then the rest. -/
def addExtraParts (P : SliceReadPlanner) (partIndices : Nat → Int) (plan : SliceReadPlan)
    (firstBlock blockCount bufferOffset : Int) : SliceReadPlan × Int :=
  let allPartsCount := P.weightedPartsToUse.length
  let toRecover := min (P.bandwidthFloor (requiredPartsToRecover P.sliceType)) allPartsCount
  if (plan.readOperations.length : Int) < toRecover then
    let r := addParts P partIndices plan firstBlock blockCount
      (toRecover - plan.readOperations.length) 1 bufferOffset
    extraWaves P partIndices firstBlock blockCount allPartsCount r.1 2 r.2
  else extraWaves P partIndices firstBlock blockCount allPartsCount plan 1 bufferOffset

/-- The loop filling `part_indices_`: the position of each requested part. -/
def fillPartIndices : List Nat → Int → (Nat → Int) → Nat → Int
  | [], _, f => f
  | part :: rest, nextIndex, f => fillPartIndices rest (nextIndex + 1) (Function.update f part nextIndex)

/-- The requested parts with the bytes each has in the block range. -/
def requestedPartInfos (sliceType : Nat) (sliceParts : List Nat) (firstBlock blockCount : Int) :
    List RequestedPartInfo :=
  sliceParts.map fun part =>
    { part
      size := mfsBlockSize *
        min ((getNumberOfBlocks (sliceType * kMaxPartsCount + part) : Int) - firstBlock) blockCount }

/-- `std::stable_partition` of `weighted_parts_to_use_`: the requested parts first. -/
def partitionRequested (P : SliceReadPlanner) : SliceReadPlanner :=
  let inRequest := fun wp : WeightedPart => decide (getSlicePart wp.type ∈ P.sliceParts)
  { P with weightedPartsToUse :=
      P.weightedPartsToUse.filter inRequest ++ P.weightedPartsToUse.filter fun wp => !inRequest wp }

/-- `buildPlanFor(first_block, block_count)`. -/
def buildPlanFor (P : SliceReadPlanner) (firstBlock blockCount : Nat) : SliceReadPlan :=
  let partIndices := fillPartIndices P.sliceParts 0 fun _ => -1
  let plan : SliceReadPlan :=
    { sliceType := P.sliceType
      requestedParts := requestedPartInfos P.sliceType P.sliceParts firstBlock blockCount
      bufferPartSize := blockCount * mfsBlockSize
      readOperations := []
      readBufferSize := 0 }
  if shouldReadPartsRequiredForRecovery P then
    let recoveryPartsCount := max
      (P.bandwidthFloor
        (if P.requiredPartsAvailable then P.sliceParts.length else requiredPartsToRecover P.sliceType))
      (requiredPartsToRecover P.sliceType)
    let r := addBasicParts P partIndices plan firstBlock blockCount recoveryPartsCount
    (addExtraParts P partIndices r.1 firstBlock blockCount r.2).1
  else
    let P' := partitionRequested P
    let requestedPartsCount :=
      (P.weightedPartsToUse.filter fun wp => decide (getSlicePart wp.type ∈ P.sliceParts)).length
    let r := addBasicParts P' partIndices plan firstBlock blockCount requestedPartsCount
    (addExtraParts P' partIndices r.1 firstBlock blockCount r.2).1

/-! ## The buffer layout -/

/-- The buffer invariant of the read operations laid out so far, with `off` the next free
slot for parts that were not requested: a requested part (index at least 0) reads into
slot `index`, any other part into a slot after the requested ones and below `off`, and
the slots of `bps` bytes of two operations never overlap. -/
structure Placed (idx : Nat → Int) (reqCount : Nat) (bps : Int)
    (ops : List (Nat × ReadOperation)) (off : Int) : Prop where
  base : reqCount * bps ≤ off
  requested : ∀ x ∈ ops, 0 ≤ idx (getSlicePart x.1) →
    x.2.bufferOffset = idx (getSlicePart x.1) * bps
  extra : ∀ x ∈ ops, idx (getSlicePart x.1) < 0 →
    reqCount * bps ≤ x.2.bufferOffset ∧ x.2.bufferOffset + bps ≤ off
  windows : ops.Pairwise fun x y =>
    x.2.bufferOffset + bps ≤ y.2.bufferOffset ∨ y.2.bufferOffset + bps ≤ x.2.bufferOffset

/-- Slot `i` ends where slot `i + 1` starts. -/
theorem slot_end_le {i n bps : Int} (hbps : 0 ≤ bps) (h : i + 1 ≤ n) : i * bps + bps ≤ n * bps := by
  have := Int.mul_le_mul_of_nonneg_right h hbps
  rwa [Int.add_mul, Int.one_mul] at this

section Placed

variable {idx : Nat → Int} {reqCount : Nat} {bps : Int}

theorem placed_nil {off : Int} (h : reqCount * bps ≤ off) : Placed idx reqCount bps [] off :=
  ⟨h, fun _ hx => (by cases hx), fun _ hx => (by cases hx), List.Pairwise.nil⟩

/-- Every operation's slot ends at the next free slot or before. -/
theorem Placed.slot_le {ops : List (Nat × ReadOperation)} {off : Int}
    (h : Placed idx reqCount bps ops off) (hbps : 0 ≤ bps)
    (hidx : ∀ q, 0 ≤ idx q → idx q < reqCount) {x : Nat × ReadOperation} (hx : x ∈ ops) :
    x.2.bufferOffset + bps ≤ off := by
  by_cases hi : 0 ≤ idx (getSlicePart x.1)
  · rw [h.requested x hx hi]
    -- a requested slot ends before the slots of the other parts start
    exact Int.le_trans (slot_end_le hbps (hidx _ hi)) h.base
  · exact (h.extra x hx (by omega)).2

/-- One read operation more, for a part whose slice part has none yet. -/
theorem Placed.push {ops : List (Nat × ReadOperation)} {off : Int} {type : Nat}
    {op : ReadOperation} (h : Placed idx reqCount bps ops off) (hbps : 0 ≤ bps)
    (hidx : ∀ q, 0 ≤ idx q → idx q < reqCount)
    (hinj : ∀ q q', 0 ≤ idx q → idx q = idx q' → q = q')
    (hfresh : ∀ x ∈ ops, getSlicePart x.1 ≠ getSlicePart type)
    (hop : op.bufferOffset =
      if idx (getSlicePart type) < 0 then off else idx (getSlicePart type) * bps) :
    Placed idx reqCount bps (ops ++ [(type, op)])
      (if idx (getSlicePart type) < 0 then off + bps else off) := by
  by_cases hi : idx (getSlicePart type) < 0
  · -- a part that was not requested takes the next free slot
    rw [if_pos hi] at hop ⊢
    have hbase := h.base
    refine ⟨by omega, fun x hx hx0 => ?_, fun x hx hx0 => ?_, ?_⟩
    · rcases List.mem_append.mp hx with hx | hx
      · exact h.requested x hx hx0
      · rw [List.mem_singleton] at hx
        subst hx
        dsimp only at hx0
        omega
    · rcases List.mem_append.mp hx with hx | hx
      · have := h.extra x hx hx0
        omega
      · rw [List.mem_singleton] at hx
        subst hx
        dsimp only
        omega
    · refine List.pairwise_append.mpr ⟨h.windows, List.pairwise_singleton _ _, ?_⟩
      intro x hx y hy
      rw [List.mem_singleton] at hy
      subst hy
      exact .inl (by rw [hop]; exact h.slot_le hbps hidx hx)
  · -- a requested part takes its own slot
    have hi' : 0 ≤ idx (getSlicePart type) := by omega
    rw [if_neg hi] at hop ⊢
    refine ⟨h.base, fun x hx hx0 => ?_, fun x hx hx0 => ?_, ?_⟩
    · rcases List.mem_append.mp hx with hx | hx
      · exact h.requested x hx hx0
      · rw [List.mem_singleton] at hx
        subst hx
        exact hop
    · rcases List.mem_append.mp hx with hx | hx
      · exact h.extra x hx hx0
      · rw [List.mem_singleton] at hx
        subst hx
        exact absurd hx0 hi
    · refine List.pairwise_append.mpr ⟨h.windows, List.pairwise_singleton _ _, ?_⟩
      intro x hx y hy
      rw [List.mem_singleton] at hy
      subst hy
      dsimp only
      rw [hop]
      by_cases hx0 : 0 ≤ idx (getSlicePart x.1)
      · -- two requested parts: their indices differ
        rw [h.requested x hx hx0]
        have hne : idx (getSlicePart x.1) ≠ idx (getSlicePart type) := fun heq =>
          hfresh x hx (hinj _ _ hx0 heq)
        rcases Int.lt_or_gt_of_ne hne with hlt | hlt
        · exact .inl (slot_end_le hbps (by omega))
        · exact .inr (slot_end_le hbps (by omega))
      · have hx' := h.extra x hx (by omega)
        exact .inr (Int.le_trans (slot_end_le hbps (hidx _ hi')) hx'.1)

end Placed

/-! ## `addParts` keeps the layout -/

@[simp] theorem addParts_readOperations (P : SliceReadPlanner) (idx : Nat → Int)
    (plan : SliceReadPlan) (fb bc partsCount : Int) (wave : Nat) (off : Int) :
    (addParts P idx plan fb bc partsCount wave off).1.readOperations =
      (addOps idx fb bc wave ((P.weightedPartsToUse.drop plan.readOperations.length).take
        (min ((plan.readOperations.length : Int) + partsCount) P.weightedPartsToUse.length -
          plan.readOperations.length).toNat) plan.readOperations off).1 := rfl

/-- The operations `addOps` appends: one per part, in order, in the given wave, each
reading the blocks of the range that its part has. -/
theorem addOps_append (idx : Nat → Int) (fb bc : Int) (wave : Nat) (l : List WeightedPart)
    (ops : List (Nat × ReadOperation)) (off : Int) :
    ∃ new, (addOps idx fb bc wave l ops off).1 = ops ++ new ∧
      new.map Prod.fst = l.map WeightedPart.type ∧
      ∀ x ∈ new, x.2.wave = wave ∧ x.2.requestOffset = fb * mfsBlockSize ∧
        x.2.requestSize = mfsBlockSize * min ((getNumberOfBlocks x.1 : Int) - fb) bc := by
  induction l generalizing ops off with
  | nil => exact ⟨[], by rw [addOps, List.append_nil], rfl, fun x hx => by cases hx⟩
  | cons wp rest ih =>
    rw [addOps]
    obtain ⟨new, heq, hmap, hnew⟩ := ih _ _
    refine ⟨_ :: new, by rw [heq, List.append_assoc, List.singleton_append], ?_, ?_⟩
    · rw [List.map_cons, hmap, List.map_cons]
    · intro x hx
      rcases List.mem_cons.mp hx with rfl | hx
      · exact ⟨rfl, rfl, rfl⟩
      · exact hnew x hx

section Layout

variable {idx : Nat → Int} {reqCount : Nat} {fb bc : Int}

/-- `addOps` keeps the layout while the slice parts of all operations stay distinct. -/
theorem addOps_placed (hbc : 0 ≤ bc) (hidx : ∀ q, 0 ≤ idx q → idx q < reqCount)
    (hinj : ∀ q q', 0 ≤ idx q → idx q = idx q' → q = q') (wave : Nat) (l : List WeightedPart) :
    ∀ (ops : List (Nat × ReadOperation)) (off : Int),
      Placed idx reqCount (bc * mfsBlockSize) ops off →
      ((ops.map Prod.fst ++ l.map WeightedPart.type).map getSlicePart).Nodup →
      Placed idx reqCount (bc * mfsBlockSize) (addOps idx fb bc wave l ops off).1
        (addOps idx fb bc wave l ops off).2 := by
  induction l with
  | nil => exact fun _ _ h _ => h
  | cons wp rest ih =>
    intro ops off h hnodup
    -- appending the operation for wp leaves the list of slice parts as it was
    have hsame : ∀ o : ReadOperation,
        ((ops ++ [(wp.type, o)]).map Prod.fst ++ rest.map WeightedPart.type).map getSlicePart =
          (ops.map Prod.fst ++ (wp :: rest).map WeightedPart.type).map getSlicePart := by
      intro o
      simp
    have hfresh : ∀ x ∈ ops, getSlicePart x.1 ≠ getSlicePart wp.type := by
      rw [List.map_append, List.nodup_append] at hnodup
      intro x hx
      exact hnodup.2.2 _ (List.mem_map.mpr ⟨x.1, List.mem_map.mpr ⟨x, hx, rfl⟩, rfl⟩) _
        (List.mem_map.mpr ⟨wp.type, List.mem_cons_self, rfl⟩)
    rw [addOps]
    refine ih _ _ (h.push (Int.mul_nonneg hbc (Int.natCast_nonneg _)) hidx hinj hfresh ?_)
      (by rw [hsame]; exact hnodup)
    -- the slot of a requested part is index * MFSBLOCKSIZE * block_count
    dsimp only
    split
    · rfl
    · rw [Int.mul_assoc, Int.mul_comm (mfsBlockSize : Int)]

/-- The invariant of a plan under construction: its part types are the first parts to use,
its operations lie in the layout with next free slot `off`, and each reads the blocks of
the range that its part has. -/
structure Layout (P : SliceReadPlanner) (idx : Nat → Int) (reqCount : Nat) (fb bc : Int)
    (plan : SliceReadPlan) (off : Int) : Prop where
  isPrefix : List.IsPrefix plan.partTypes (P.weightedPartsToUse.map WeightedPart.type)
  placed : Placed idx reqCount (bc * mfsBlockSize) plan.readOperations off
  request : ∀ x ∈ plan.readOperations, x.2.requestOffset = fb * mfsBlockSize ∧
    x.2.requestSize = mfsBlockSize * min ((getNumberOfBlocks x.1 : Int) - fb) bc

variable {P : SliceReadPlanner} {plan : SliceReadPlan} {off : Int}

/-- `addParts` appends the next parts to use, in its wave. -/
theorem addParts_append (P : SliceReadPlanner) (idx : Nat → Int) (plan : SliceReadPlan)
    (fb bc partsCount : Int) (wave : Nat) (off : Int) :
    ∃ new, (addParts P idx plan fb bc partsCount wave off).1.readOperations =
        plan.readOperations ++ new ∧ ∀ x ∈ new, x.2.wave = wave := by
  obtain ⟨new, heq, -, hnew⟩ := addOps_append idx fb bc wave
    ((P.weightedPartsToUse.drop plan.readOperations.length).take
      (min ((plan.readOperations.length : Int) + partsCount) P.weightedPartsToUse.length -
        plan.readOperations.length).toNat) plan.readOperations off
  exact ⟨new, heq, fun x hx => (hnew x hx).1⟩

/-- One call of `addParts` keeps the layout. -/
theorem Layout.addParts (h : Layout P idx reqCount fb bc plan off)
    (hw : (P.weightedPartsToUse.map fun wp => getSlicePart wp.type).Nodup) (hbc : 0 ≤ bc)
    (hidx : ∀ q, 0 ≤ idx q → idx q < reqCount)
    (hinj : ∀ q q', 0 ≤ idx q → idx q = idx q' → q = q') (partsCount : Int) (wave : Nat) :
    Layout P idx reqCount fb bc (addParts P idx plan fb bc partsCount wave off).1
      (addParts P idx plan fb bc partsCount wave off).2 := by
  set len := plan.readOperations.length
  set n := (min ((len : Int) + partsCount) P.weightedPartsToUse.length - len).toNat
  set wt := P.weightedPartsToUse.map WeightedPart.type
  obtain ⟨new, heq, hmap, hnew⟩ :=
    addOps_append idx fb bc wave ((P.weightedPartsToUse.drop len).take n) plan.readOperations off
  -- the part types are the first len + n parts to use
  have htypes : plan.partTypes ++ new.map Prod.fst = wt.take (len + n) := by
    have hold : plan.partTypes = wt.take len := by
      have := List.prefix_iff_eq_take.mp h.isPrefix
      rwa [SliceReadPlan.partTypes, List.length_map] at this
    rw [hold, hmap, List.map_take, List.map_drop, List.take_add]
  have hnodup : ((plan.readOperations.map Prod.fst ++
      ((P.weightedPartsToUse.drop len).take n).map WeightedPart.type).map getSlicePart).Nodup := by
    rw [← hmap]
    have hw' : (wt.map getSlicePart).Nodup := by
      rw [List.map_map]
      exact hw
    have hsub : List.Sublist ((wt.take (len + n)).map getSlicePart) (wt.map getSlicePart) :=
      (List.take_sublist _ _).map _
    rw [← htypes] at hsub
    rw [List.map_append] at hsub ⊢
    exact hw'.sublist hsub
  refine ⟨?_, addOps_placed hbc hidx hinj wave _ _ _ h.placed hnodup, ?_⟩
  · rw [SliceReadPlan.partTypes, addParts_readOperations, heq, List.map_append]
    exact htypes ▸ List.take_prefix _ _
  · intro x hx
    rw [addParts_readOperations, heq] at hx
    rcases List.mem_append.mp hx with hx | hx
    · exact h.request x hx
    · exact (hnew x hx).2

/-- Only the operations and the buffer size change as parts are added. -/
theorem extraWaves_shape (idx : Nat → Int) (fb bc : Int) (fuel : Nat) :
    ∀ (plan : SliceReadPlan) (wave : Nat) (off : Int), plan.readBufferSize = off →
      ∃ ops, (extraWaves P idx fb bc fuel plan wave off).1 =
        { plan with
          readOperations := ops
          readBufferSize := (extraWaves P idx fb bc fuel plan wave off).2 } := by
  induction fuel with
  | zero =>
    intro plan wave off h
    exact ⟨plan.readOperations, by rw [extraWaves, ← h]⟩
  | succ fuel ih =>
    intro plan wave off h
    rw [extraWaves]
    split
    · dsimp only
      set r := addParts P idx plan fb bc
        (min 2 ((P.weightedPartsToUse.length : Int) - plan.readOperations.length)) wave off
      obtain ⟨ops, hops⟩ := ih r.1 (wave + 1) r.2 rfl
      -- addParts changes only the operations and the buffer size
      exact ⟨ops, by rw [hops]; rfl⟩
    · exact ⟨plan.readOperations, by rw [← h]⟩

/-- The later waves append operations of waves from `wave` on. -/
theorem extraWaves_append (idx : Nat → Int) (fb bc : Int) (fuel : Nat) :
    ∀ (plan : SliceReadPlan) (wave : Nat) (off : Int),
      ∃ new, (extraWaves P idx fb bc fuel plan wave off).1.readOperations =
        plan.readOperations ++ new ∧ ∀ x ∈ new, wave ≤ x.2.wave := by
  induction fuel with
  | zero => exact fun plan _ _ => ⟨[], by rw [extraWaves, List.append_nil], fun x hx => by cases hx⟩
  | succ fuel ih =>
    intro plan wave off
    rw [extraWaves]
    split
    · obtain ⟨new₁, heq₁, hnew₁⟩ := addParts_append P idx plan fb bc
        (min 2 ((P.weightedPartsToUse.length : Int) - plan.readOperations.length)) wave off
      obtain ⟨new₂, heq₂, hnew₂⟩ := ih (addParts P idx plan fb bc
        (min 2 ((P.weightedPartsToUse.length : Int) - plan.readOperations.length)) wave off).1
        (wave + 1) _
      refine ⟨new₁ ++ new₂, by rw [heq₂, heq₁, List.append_assoc], fun x hx => ?_⟩
      rcases List.mem_append.mp hx with hx | hx
      · exact Nat.le_of_eq (hnew₁ x hx).symm
      · exact Nat.le_of_succ_le (hnew₂ x hx)
    · exact ⟨[], by rw [List.append_nil], fun x hx => by cases hx⟩

/-- The later waves keep the layout. -/
theorem Layout.extraWaves (hw : (P.weightedPartsToUse.map fun wp => getSlicePart wp.type).Nodup)
    (hbc : 0 ≤ bc) (hidx : ∀ q, 0 ≤ idx q → idx q < reqCount)
    (hinj : ∀ q q', 0 ≤ idx q → idx q = idx q' → q = q') (fuel : Nat) :
    ∀ (plan : SliceReadPlan) (wave : Nat) (off : Int), Layout P idx reqCount fb bc plan off →
      Layout P idx reqCount fb bc (extraWaves P idx fb bc fuel plan wave off).1
        (extraWaves P idx fb bc fuel plan wave off).2 := by
  induction fuel with
  | zero => exact fun _ _ _ h => h
  | succ fuel ih =>
    intro plan wave off h
    rw [SliceReadPlanner.extraWaves]
    split
    · exact ih _ _ _ (h.addParts hw hbc hidx hinj _ wave)
    · exact h

/-- `addExtraParts` changes only the operations and the buffer size. -/
theorem addExtraParts_shape (P : SliceReadPlanner) (idx : Nat → Int) (plan : SliceReadPlan)
    (fb bc off : Int) (h : plan.readBufferSize = off) :
    ∃ ops, (addExtraParts P idx plan fb bc off).1 =
      { plan with
        readOperations := ops
        readBufferSize := (addExtraParts P idx plan fb bc off).2 } := by
  unfold addExtraParts
  dsimp only
  split
  · set r := addParts P idx plan fb bc
      (min (P.bandwidthFloor (requiredPartsToRecover P.sliceType)) P.weightedPartsToUse.length -
        plan.readOperations.length) 1 off
    obtain ⟨ops, hops⟩ := extraWaves_shape idx fb bc P.weightedPartsToUse.length r.1 2 r.2 rfl
    exact ⟨ops, by rw [hops]; rfl⟩
  · exact extraWaves_shape idx fb bc _ plan 1 off h

/-- `addExtraParts` appends operations of waves 1 and later. -/
theorem addExtraParts_append (P : SliceReadPlanner) (idx : Nat → Int) (plan : SliceReadPlan)
    (fb bc off : Int) :
    ∃ new, (addExtraParts P idx plan fb bc off).1.readOperations = plan.readOperations ++ new ∧
      ∀ x ∈ new, 1 ≤ x.2.wave := by
  unfold addExtraParts
  dsimp only
  split
  · set r := addParts P idx plan fb bc
      (min (P.bandwidthFloor (requiredPartsToRecover P.sliceType)) P.weightedPartsToUse.length -
        plan.readOperations.length) 1 off
    obtain ⟨new₁, heq₁, hnew₁⟩ := addParts_append P idx plan fb bc
      (min (P.bandwidthFloor (requiredPartsToRecover P.sliceType)) P.weightedPartsToUse.length -
        plan.readOperations.length) 1 off
    obtain ⟨new₂, heq₂, hnew₂⟩ := extraWaves_append idx fb bc P.weightedPartsToUse.length r.1 2 r.2
    refine ⟨new₁ ++ new₂, by rw [heq₂, heq₁, List.append_assoc], fun x hx => ?_⟩
    rcases List.mem_append.mp hx with hx | hx
    · exact Nat.le_of_eq (hnew₁ x hx).symm
    · exact Nat.le_of_succ_le (hnew₂ x hx)
  · exact extraWaves_append idx fb bc _ plan 1 off

/-- `addExtraParts` keeps the layout. -/
theorem Layout.addExtraParts (h : Layout P idx reqCount fb bc plan off)
    (hw : (P.weightedPartsToUse.map fun wp => getSlicePart wp.type).Nodup) (hbc : 0 ≤ bc)
    (hidx : ∀ q, 0 ≤ idx q → idx q < reqCount)
    (hinj : ∀ q q', 0 ≤ idx q → idx q = idx q' → q = q') :
    Layout P idx reqCount fb bc (SliceReadPlanner.addExtraParts P idx plan fb bc off).1
      (SliceReadPlanner.addExtraParts P idx plan fb bc off).2 := by
  unfold SliceReadPlanner.addExtraParts
  dsimp only
  split
  · exact h.addParts hw hbc hidx hinj _ 1 |>.extraWaves hw hbc hidx hinj _ _ _ _
  · exact h.extraWaves hw hbc hidx hinj _ _ _ _

/-- Every operation of the plan reads one of the parts to use. -/
theorem Layout.mem_weighted (h : Layout P idx reqCount fb bc plan off)
    {x : Nat × ReadOperation} (hx : x ∈ plan.readOperations) :
    ∃ wp ∈ P.weightedPartsToUse, wp.type = x.1 :=
  List.mem_map.mp (h.isPrefix.subset (List.mem_map.mpr ⟨x, hx, rfl⟩))

/-- The part types are distinct since their slice parts are. -/
theorem Layout.partTypes_nodup (h : Layout P idx reqCount fb bc plan off)
    (hw : (P.weightedPartsToUse.map fun wp => getSlicePart wp.type).Nodup) :
    plan.partTypes.Nodup := by
  have hwt : (P.weightedPartsToUse.map WeightedPart.type).Nodup := by
    have hw' : ((P.weightedPartsToUse.map WeightedPart.type).map getSlicePart).Nodup := by
      rw [List.map_map]
      exact hw
    exact hw'.of_map _
  exact hwt.sublist h.isPrefix.sublist

section Bounds

variable {t : Nat}
  (htypes : ∀ wp ∈ P.weightedPartsToUse,
    ChunkPartType.isValid wp.type = true ∧ getSliceType wp.type = t)
  (hfb : 0 ≤ fb) (hbc : 0 < bc)
  (hrange : fb + bc ≤ (getNumberOfBlocks (t * kMaxPartsCount) : Int))
include htypes hfb hbc hrange

/-- A part of the slice has every block of the range but possibly the last, so its
request is at most a buffer slot and ends within the chunk. -/
theorem Layout.request_bounds (h : Layout P idx reqCount fb bc plan off)
    {x : Nat × ReadOperation} (hx : x ∈ plan.readOperations) :
    0 ≤ x.2.requestOffset ∧ 0 ≤ x.2.requestSize ∧ x.2.requestSize ≤ bc * mfsBlockSize ∧
      x.2.requestOffset + x.2.requestSize ≤ mfsChunkSize := by
  obtain ⟨wp, hwp, htype⟩ := h.mem_weighted hx
  obtain ⟨hvalid, hslice⟩ := htypes wp hwp
  rw [htype] at hvalid hslice
  have hfirst := getNumberOfBlocks_first_le hvalid
  have hle := getNumberOfBlocks_le x.1
  rw [hslice] at hfirst
  obtain ⟨hoff, hsize⟩ := h.request x hx
  rw [hoff, hsize]
  unfold mfsChunkSize mfsBlockSize mfsBlocksInChunk at *
  omega

/-- A plan laid out so passes `checkPlan`. -/
theorem Layout.checked (h : Layout P idx reqCount fb bc plan plan.readBufferSize)
    (hw : (P.weightedPartsToUse.map fun wp => getSlicePart wp.type).Nodup)
    (hidx : ∀ q, 0 ≤ idx q → idx q < reqCount) : plan.Checked := by
  have hbps : 0 ≤ bc * (mfsBlockSize : Int) := Int.mul_nonneg (by omega) (Int.natCast_nonneg _)
  have hreq : (reqCount : Int) * (bc * mfsBlockSize) ≥ 0 := Int.mul_nonneg (by omega) hbps
  refine ⟨fun x hx => ?_, fun x hx => ?_, fun x hx => ?_, fun x hx => ?_, ?_, ?_⟩
  · obtain ⟨wp, hwp, htype⟩ := h.mem_weighted hx
    exact htype ▸ (htypes wp hwp).1
  · have := h.request_bounds htypes hfb hbc hrange hx
    exact ⟨this.1, this.2.1⟩
  · exact (h.request_bounds htypes hfb hbc hrange hx).2.2.2
  · -- a slot starts at or after 0 and ends at the next free slot or before
    have hsize := (h.request_bounds htypes hfb hbc hrange hx).2.2.1
    have hend := h.placed.slot_le hbps hidx hx
    refine ⟨?_, by omega⟩
    by_cases hi : 0 ≤ idx (getSlicePart x.1)
    · rw [h.placed.requested x hx hi]
      exact Int.mul_nonneg hi hbps
    · have := (h.placed.extra x hx (by omega)).1
      omega
  · exact h.partTypes_nodup hw
  · refine h.placed.windows.imp_of_mem fun {x y} hx hy hxy _ _ => ?_
    have hxs := (h.request_bounds htypes hfb hbc hrange hx).2.2.1
    have hys := (h.request_bounds htypes hfb hbc hrange hy).2.2.1
    omega

end Bounds

end Layout

/-! ## What `prepare` picks -/

theorem mem_foldl_bits {t q : Nat} (l : List Nat) (bits : Finset Nat) :
    q ∈ l.foldl (fun bits part =>
        if getSliceType part = t then insert (getSlicePart part) bits else bits) bits ↔
      q ∈ bits ∨ ∃ p ∈ l, getSliceType p = t ∧ getSlicePart p = q := by
  induction l generalizing bits with
  | nil => simp
  | cons p rest ih =>
    rw [List.foldl_cons, ih]
    by_cases hp : getSliceType p = t
    · rw [if_pos hp, Finset.mem_insert]
      constructor
      · rintro ((rfl | hq) | ⟨p', hp', hq⟩)
        · exact .inr ⟨p, List.mem_cons_self, hp, rfl⟩
        · exact .inl hq
        · exact .inr ⟨p', List.mem_cons_of_mem _ hp', hq⟩
      · rintro (hq | ⟨p', hp', hq⟩)
        · exact .inl (.inr hq)
        · rcases List.mem_cons.mp hp' with rfl | hp'
          · exact .inl (.inl hq.2.symm)
          · exact .inr ⟨p', hp', hq⟩
    · rw [if_neg hp]
      constructor
      · rintro (hq | ⟨p', hp', hq⟩)
        · exact .inl hq
        · exact .inr ⟨p', List.mem_cons_of_mem _ hp', hq⟩
      · rintro (hq | ⟨p', hp', hq⟩)
        · exact .inl hq
        · rcases List.mem_cons.mp hp' with rfl | hp'
          · exact absurd hq.1 hp
          · exact .inr ⟨p', hp', hq⟩

/-- The bitset holds the slice parts of the available parts of the slice type. -/
theorem mem_partBitset {t q : Nat} {l : List Nat} :
    q ∈ partBitset t l ↔ ∃ p ∈ l, getSliceType p = t ∧ getSlicePart p = q := by
  rw [partBitset, mem_foldl_bits]
  simp

section Pick

variable {scores : List (Nat × ℚ)} {t : Nat}

/-- Every part picked is an available part of the slice type whose bit was set. -/
theorem mem_pickParts {l : List Nat} {bits : Finset Nat} {wp : WeightedPart}
    (h : wp ∈ pickParts scores t l bits) :
    wp.type ∈ l ∧ getSliceType wp.type = t ∧ getSlicePart wp.type ∈ bits := by
  induction l generalizing bits with
  | nil => cases h
  | cons part rest ih =>
    unfold pickParts at h
    split at h
    · next hcond =>
      rcases List.mem_cons.mp h with rfl | h
      · exact ⟨List.mem_cons_self, hcond.1, hcond.2⟩
      · obtain ⟨hmem, htype, hbit⟩ := ih h
        exact ⟨List.mem_cons_of_mem _ hmem, htype, Finset.mem_of_mem_erase hbit⟩
    · obtain ⟨hmem, htype, hbit⟩ := ih h
      exact ⟨List.mem_cons_of_mem _ hmem, htype, hbit⟩

/-- Each slice part is picked once: its bit is reset when it is. -/
theorem nodup_pickParts (l : List Nat) (bits : Finset Nat) :
    ((pickParts scores t l bits).map fun wp => getSlicePart wp.type).Nodup := by
  induction l generalizing bits with
  | nil => exact List.nodup_nil
  | cons part rest ih =>
    unfold pickParts
    split
    · rw [List.map_cons, List.nodup_cons]
      refine ⟨fun hmem => ?_, ih _⟩
      obtain ⟨wp, hwp, hpart⟩ := List.mem_map.mp hmem
      have := (mem_pickParts hwp).2.2
      rw [hpart] at this
      exact Finset.notMem_erase _ _ this
    · exact ih bits

/-- A slice part whose bit is set and that some available part of the type has is picked. -/
theorem exists_pickParts {l : List Nat} {bits : Finset Nat} {q : Nat} (hq : q ∈ bits)
    (hl : ∃ p ∈ l, getSliceType p = t ∧ getSlicePart p = q) :
    ∃ wp ∈ pickParts scores t l bits, getSlicePart wp.type = q := by
  induction l generalizing bits with
  | nil =>
    obtain ⟨p, hp, -⟩ := hl
    cases hp
  | cons part rest ih =>
    unfold pickParts
    split
    · next hcond =>
      by_cases hpart : getSlicePart part = q
      · exact ⟨_, List.mem_cons_self, hpart⟩
      · -- another part of rest has slice part q, whose bit is still set
        obtain ⟨p, hp, hpq⟩ := hl
        have hp' : p ∈ rest := by
          rcases List.mem_cons.mp hp with rfl | hp
          · exact absurd hpq.2 hpart
          · exact hp
        obtain ⟨wp, hwp, hwq⟩ :=
          ih (Finset.mem_erase.mpr ⟨Ne.symm hpart, hq⟩) ⟨p, hp', hpq⟩
        exact ⟨wp, List.mem_cons_of_mem _ hwp, hwq⟩
    · next hcond =>
      obtain ⟨p, hp, hpq⟩ := hl
      have hp' : p ∈ rest := by
        rcases List.mem_cons.mp hp with rfl | hp
        · exact absurd ⟨hpq.1, hpq.2 ▸ hq⟩ hcond
        · exact hp
      exact ih hq ⟨p, hp', hpq⟩

/-- One part is picked for each slice part of the bitset. -/
theorem length_pickParts (l : List Nat) :
    (pickParts scores t l (partBitset t l)).length = (partBitset t l).card := by
  have hnodup : ((pickParts scores t l (partBitset t l)).map fun wp => getSlicePart wp.type).Nodup :=
    nodup_pickParts l (partBitset t l)
  have hset : ((pickParts scores t l (partBitset t l)).map fun wp => getSlicePart wp.type).toFinset =
      partBitset t l := by
    ext q
    rw [List.mem_toFinset, List.mem_map]
    constructor
    · rintro ⟨wp, hwp, rfl⟩
      exact (mem_pickParts hwp).2.2
    · intro hq
      exact exists_pickParts hq (Iff.mp mem_partBitset hq)
  calc (pickParts scores t l (partBitset t l)).length
      = ((pickParts scores t l (partBitset t l)).map fun wp => getSlicePart wp.type).length :=
        (List.length_map _).symm
    _ = ((pickParts scores t l (partBitset t l)).map fun wp =>
          getSlicePart wp.type).toFinset.card := (List.toFinset_card_of_nodup hnodup).symm
    _ = (partBitset t l).card := by rw [hset]

end Pick

/-- The parts `prepare` leaves to use, if reading is possible. -/
theorem prepare_weightedPartsToUse (P : SliceReadPlanner) (t : Nat) (sliceParts l : List Nat)
    (h : (P.prepare t sliceParts l).isReadingPossible = true) :
    ((P.prepare t sliceParts l).weightedPartsToUse).Perm
      (pickParts P.scores t l (partBitset t l)) := by
  unfold isReadingPossible at h
  unfold prepare at h ⊢
  dsimp only at h ⊢
  rw [if_pos h]
  exact List.perm_insertionSort _ _

/-! ## The indices of the requested parts -/

/-- With distinct requested parts, `part_indices_[q]` is the position of `q` among them. -/
theorem fillPartIndices_eq {l : List Nat} (hl : l.Nodup) (n : Int) (f : Nat → Int) (q : Nat) :
    fillPartIndices l n f q = if q ∈ l then n + l.idxOf q else f q := by
  induction l generalizing n f with
  | nil => simp [fillPartIndices]
  | cons a rest ih =>
    obtain ⟨ha, hrest⟩ := List.nodup_cons.mp hl
    rw [fillPartIndices, ih hrest]
    by_cases hq : q = a
    · subst hq
      simp [ha]
    · by_cases hmem : q ∈ rest
      · rw [if_pos hmem, if_pos (List.mem_cons_of_mem _ hmem), List.idxOf_cons_ne _ (Ne.symm hq)]
        push_cast
        omega
      · have hnot : q ∉ a :: rest := fun h => (List.mem_cons.mp h).elim hq hmem
        rw [if_neg hmem, if_neg hnot, Function.update_of_ne hq]

section Indices

variable {l : List Nat} (hl : l.Nodup)
include hl

theorem partIndices_nonneg_iff (q : Nat) :
    0 ≤ fillPartIndices l 0 (fun _ => -1) q ↔ q ∈ l := by
  rw [fillPartIndices_eq hl]
  split
  · next h => exact iff_of_true (by omega) h
  · next h => exact iff_of_false (by omega) h

theorem partIndices_lt {q : Nat} (hq : 0 ≤ fillPartIndices l 0 (fun _ => -1) q) :
    fillPartIndices l 0 (fun _ => -1) q < l.length := by
  have hmem := (partIndices_nonneg_iff hl q).mp hq
  rw [fillPartIndices_eq hl, if_pos hmem, Int.zero_add, Int.ofNat_lt]
  exact List.idxOf_lt_length_of_mem hmem

theorem partIndices_inj {q q' : Nat} (hq : 0 ≤ fillPartIndices l 0 (fun _ => -1) q)
    (h : fillPartIndices l 0 (fun _ => -1) q = fillPartIndices l 0 (fun _ => -1) q') : q = q' := by
  have hmem := (partIndices_nonneg_iff hl q).mp hq
  have hmem' := (partIndices_nonneg_iff hl q').mp (h ▸ hq)
  rw [fillPartIndices_eq hl, fillPartIndices_eq hl, if_pos hmem, if_pos hmem'] at h
  exact (List.idxOf_inj hmem).mp (by omega)

theorem partIndices_getElem (i : Nat) (hi : i < l.length) :
    fillPartIndices l 0 (fun _ => -1) l[i] = i := by
  rw [fillPartIndices_eq hl, if_pos (List.getElem_mem hi), hl.idxOf_getElem i hi, Int.zero_add]

end Indices

/-! ## What `prepare` sets -/

section Prepared

variable (P : SliceReadPlanner) (t : Nat) (sliceParts l : List Nat)

@[simp] theorem prepare_sliceType : (P.prepare t sliceParts l).sliceType = t := rfl

@[simp] theorem prepare_sliceParts : (P.prepare t sliceParts l).sliceParts = sliceParts := rfl

@[simp] theorem prepare_bandwidthFloor :
    (P.prepare t sliceParts l).bandwidthFloor = P.bandwidthFloor := rfl

@[simp] theorem prepare_requiredPartsAvailable :
    (P.prepare t sliceParts l).requiredPartsAvailable =
      sliceParts.all (· ∈ partBitset t l) := rfl

variable {P t sliceParts l} (hpossible : (P.prepare t sliceParts l).isReadingPossible = true)
include hpossible

/-- Without every requested part, reading is possible only with enough parts to recover. -/
theorem prepare_card_of_recovery
    (hr : (P.prepare t sliceParts l).requiredPartsAvailable = false) :
    requiredPartsToRecover t ≤ (partBitset t l).card := by
  unfold isReadingPossible prepare at hpossible
  unfold prepare at hr
  dsimp only at hpossible hr
  rw [hr, Bool.false_or, decide_eq_true_eq] at hpossible
  exact hpossible

theorem prepare_length :
    (P.prepare t sliceParts l).weightedPartsToUse.length = (partBitset t l).card :=
  (prepare_weightedPartsToUse P t sliceParts l hpossible).length_eq.trans (length_pickParts l)

/-- The parts to use have distinct slice parts. -/
theorem prepare_nodup :
    ((P.prepare t sliceParts l).weightedPartsToUse.map fun wp => getSlicePart wp.type).Nodup :=
  ((prepare_weightedPartsToUse P t sliceParts l hpossible).map _).nodup_iff.mpr
    (nodup_pickParts l _)

/-- Each part to use is an available part of the slice type. -/
theorem prepare_mem {wp : WeightedPart}
    (hwp : wp ∈ (P.prepare t sliceParts l).weightedPartsToUse) :
    wp.type ∈ l ∧ getSliceType wp.type = t := by
  obtain ⟨hmem, htype, -⟩ :=
    mem_pickParts ((prepare_weightedPartsToUse P t sliceParts l hpossible).mem_iff.mp hwp)
  exact ⟨hmem, htype⟩

/-- A slice part whose bit is set has a part to use. -/
theorem prepare_exists {q : Nat} (hq : q ∈ partBitset t l) :
    ∃ wp ∈ (P.prepare t sliceParts l).weightedPartsToUse, getSlicePart wp.type = q := by
  obtain ⟨wp, hwp, hpart⟩ := exists_pickParts hq (Iff.mp mem_partBitset hq)
  exact ⟨wp, (prepare_weightedPartsToUse P t sliceParts l hpossible).mem_iff.mpr hwp, hpart⟩

end Prepared

/-! ## The plan built from an empty plan -/

theorem partitionRequested_perm (P : SliceReadPlanner) :
    (partitionRequested P).weightedPartsToUse.Perm P.weightedPartsToUse :=
  List.filter_append_perm _ _

section Build

variable {Q : SliceReadPlanner} {idx : Nat → Int} {reqCount : Nat} {fb bc : Int}
  {plan : SliceReadPlan}

/-- An empty plan is laid out with the slots of the requested parts reserved. -/
theorem layout_empty (hops : plan.readOperations = [])
    (hbuf : plan.bufferPartSize = bc * mfsBlockSize) (hreq : plan.requestedParts.length = reqCount) :
    Layout Q idx reqCount fb bc plan (plan.requestedParts.length * plan.bufferPartSize) := by
  refine ⟨?_, ?_, ?_⟩
  · rw [SliceReadPlan.partTypes, hops]
    exact List.nil_prefix
  · rw [hops, hbuf, hreq]
    exact placed_nil (Int.le_refl _)
  · rw [hops]
    intro x hx
    cases hx

/-- Building changes only the operations and the buffer size of the empty plan. -/
theorem build_shape (Q : SliceReadPlanner) (idx : Nat → Int) (plan : SliceReadPlan)
    (fb bc count : Int) :
    ∃ ops, (addExtraParts Q idx (addBasicParts Q idx plan fb bc count).1 fb bc
        (addBasicParts Q idx plan fb bc count).2).1 =
      { plan with
        readOperations := ops
        readBufferSize := (addExtraParts Q idx (addBasicParts Q idx plan fb bc count).1 fb bc
          (addBasicParts Q idx plan fb bc count).2).2 } := by
  obtain ⟨ops, hops⟩ := addExtraParts_shape Q idx (addBasicParts Q idx plan fb bc count).1 fb bc
    (addBasicParts Q idx plan fb bc count).2 rfl
  exact ⟨ops, by rw [hops]; rfl⟩

/-- The basic and then the extra parts of `buildPlanFor` keep the layout, and the buffer
ends at the next free slot. -/
theorem Layout.build (hops : plan.readOperations = [])
    (hbuf : plan.bufferPartSize = bc * mfsBlockSize) (hreq : plan.requestedParts.length = reqCount)
    (hw : (Q.weightedPartsToUse.map fun wp => getSlicePart wp.type).Nodup) (hbc : 0 ≤ bc)
    (hidx : ∀ q, 0 ≤ idx q → idx q < reqCount)
    (hinj : ∀ q q', 0 ≤ idx q → idx q = idx q' → q = q') (count : Int) :
    Layout Q idx reqCount fb bc
      (SliceReadPlanner.addExtraParts Q idx (addBasicParts Q idx plan fb bc count).1 fb bc
        (addBasicParts Q idx plan fb bc count).2).1
      (SliceReadPlanner.addExtraParts Q idx (addBasicParts Q idx plan fb bc count).1 fb bc
        (addBasicParts Q idx plan fb bc count).2).1.readBufferSize := by
  obtain ⟨ops, hshape⟩ := build_shape Q idx plan fb bc count
  have hsize := congrArg SliceReadPlan.readBufferSize hshape
  rw [hsize]
  have hempty : Layout Q idx reqCount fb bc plan _ := layout_empty hops hbuf hreq
  exact (hempty.addParts hw hbc hidx hinj count 0).addExtraParts hw hbc hidx hinj

/-- Wave 0 reads the first `count` parts to use; the later waves read others. -/
theorem build_waveZero (hops : plan.readOperations = []) (count : Int) :
    (addExtraParts Q idx (addBasicParts Q idx plan fb bc count).1 fb bc
        (addBasicParts Q idx plan fb bc count).2).1.waveParts 0 =
      (Q.weightedPartsToUse.take (min count Q.weightedPartsToUse.length).toNat).map
        WeightedPart.type := by
  obtain ⟨extra, hextra, hlater⟩ := addExtraParts_append Q idx
    (addBasicParts Q idx plan fb bc count).1 fb bc (addBasicParts Q idx plan fb bc count).2
  obtain ⟨basic, hbasic, hmap, hfirst⟩ := addOps_append idx fb bc 0
    (Q.weightedPartsToUse.take (min count Q.weightedPartsToUse.length).toNat) []
    (plan.requestedParts.length * plan.bufferPartSize)
  -- the basic parts are the first operations, all of wave 0
  have hbasicOps : (addBasicParts Q idx plan fb bc count).1.readOperations = basic := by
    unfold addBasicParts
    rw [addParts_readOperations, hops]
    simp only [List.length_nil, Nat.cast_zero, Int.zero_add, Int.sub_zero, List.drop_zero]
    rw [hbasic, List.nil_append]
  have hkeep : basic.filter (fun x => x.2.wave = 0) = basic :=
    List.filter_eq_self.mpr fun x hx => by simp [(hfirst x hx).1]
  have hdrop : extra.filter (fun x => x.2.wave = 0) = [] :=
    List.filter_eq_nil_iff.mpr fun x hx => by
      have := hlater x hx
      simp only [decide_eq_true_eq]
      omega
  rw [SliceReadPlan.waveParts, hextra, hbasicOps, List.filter_append, hkeep, hdrop,
    List.append_nil, hmap]

end Build

section BuildPlanFor

variable (P : SliceReadPlanner) (firstBlock blockCount : Nat)

/-- `buildPlanFor` fills in the operations and the buffer size of its empty plan. -/
theorem buildPlanFor_shape : ∃ ops size, P.buildPlanFor firstBlock blockCount =
    { sliceType := P.sliceType
      requestedParts := requestedPartInfos P.sliceType P.sliceParts firstBlock blockCount
      bufferPartSize := blockCount * mfsBlockSize
      readOperations := ops
      readBufferSize := size } := by
  unfold buildPlanFor
  dsimp only
  split
  all_goals exact Exists.imp (fun ops hops => ⟨_, hops⟩) (build_shape _ _ _ _ _ _)

@[simp] theorem buildPlanFor_sliceType :
    (P.buildPlanFor firstBlock blockCount).sliceType = P.sliceType := by
  obtain ⟨ops, size, h⟩ := buildPlanFor_shape P firstBlock blockCount
  rw [h]

@[simp] theorem buildPlanFor_requestedParts :
    (P.buildPlanFor firstBlock blockCount).requestedParts =
      requestedPartInfos P.sliceType P.sliceParts firstBlock blockCount := by
  obtain ⟨ops, size, h⟩ := buildPlanFor_shape P firstBlock blockCount
  rw [h]

@[simp] theorem buildPlanFor_bufferPartSize :
    (P.buildPlanFor firstBlock blockCount).bufferPartSize = blockCount * mfsBlockSize := by
  obtain ⟨ops, size, h⟩ := buildPlanFor_shape P firstBlock blockCount
  rw [h]

variable {P}

/-- Every plan is laid out, for the parts to use in some order. -/
theorem buildPlanFor_layout
    (hw : (P.weightedPartsToUse.map fun wp => getSlicePart wp.type).Nodup)
    (hparts : P.sliceParts.Nodup) :
    ∃ Q : SliceReadPlanner, Q.weightedPartsToUse.Perm P.weightedPartsToUse ∧
      Layout Q (fillPartIndices P.sliceParts 0 fun _ => -1) P.sliceParts.length firstBlock
        blockCount (P.buildPlanFor firstBlock blockCount)
        (P.buildPlanFor firstBlock blockCount).readBufferSize := by
  have hreq : (requestedPartInfos P.sliceType P.sliceParts firstBlock blockCount).length =
      P.sliceParts.length := List.length_map _
  have hbc : (0 : Int) ≤ blockCount := Int.natCast_nonneg _
  have hidx := fun q (hq : 0 ≤ fillPartIndices P.sliceParts 0 (fun _ => -1) q) =>
    partIndices_lt hparts hq
  have hinj : ∀ q q', 0 ≤ fillPartIndices P.sliceParts 0 (fun _ => -1) q →
      fillPartIndices P.sliceParts 0 (fun _ => -1) q =
        fillPartIndices P.sliceParts 0 (fun _ => -1) q' → q = q' :=
    fun _ _ hq h => partIndices_inj hparts hq h
  unfold buildPlanFor
  dsimp only
  split
  · -- recovery: the parts to use in score order
    exact ⟨P, List.Perm.refl _, Layout.build rfl rfl hreq hw hbc hidx hinj _⟩
  · -- the requested parts first
    have hperm := partitionRequested_perm P
    exact ⟨_, hperm, Layout.build rfl rfl hreq ((hperm.map _).nodup_iff.mpr hw) hbc hidx hinj _⟩

/-- Wave 0 of the recovery branch reads at least the parts needed to recover, when there
are that many. -/
theorem buildPlanFor_waveZero_recovery (h : P.shouldReadPartsRequiredForRecovery = true)
    (hk : requiredPartsToRecover P.sliceType ≤ P.weightedPartsToUse.length) :
    requiredPartsToRecover P.sliceType ≤
      ((P.buildPlanFor firstBlock blockCount).waveParts 0).length := by
  unfold buildPlanFor
  dsimp only
  rw [if_pos h, build_waveZero, List.length_map, List.length_take]
  · omega
  · rfl

/-- Outside the recovery branch, wave 0 reads exactly the requested parts. -/
theorem buildPlanFor_waveZero_required (h : P.shouldReadPartsRequiredForRecovery = false) :
    (P.buildPlanFor firstBlock blockCount).waveParts 0 =
      (P.weightedPartsToUse.filter fun wp => decide (getSlicePart wp.type ∈ P.sliceParts)).map
        WeightedPart.type := by
  unfold buildPlanFor
  dsimp only
  rw [if_neg (by simp [h]), build_waveZero]
  · -- the requested parts are the first `requestedPartsCount` parts after the partition
    unfold partitionRequested
    dsimp only
    rw [List.length_append, Nat.cast_add, min_eq_left (by omega), Int.toNat_natCast,
      List.take_left' rfl]
  · rfl

end BuildPlanFor

section Checked

variable {P : SliceReadPlanner} (firstBlock blockCount : Nat)
  (hw : (P.weightedPartsToUse.map fun wp => getSlicePart wp.type).Nodup)
  (hparts : P.sliceParts.Nodup)
include hw hparts

/-- The plan passes `checkPlan` when the parts to use are valid parts of the slice type and
the block range lies within the slice. -/
theorem buildPlanFor_checkPlan
    (htypes : ∀ wp ∈ P.weightedPartsToUse,
      ChunkPartType.isValid wp.type = true ∧ getSliceType wp.type = P.sliceType)
    (hbc : 0 < blockCount)
    (hrange : firstBlock + blockCount ≤ getNumberOfBlocks (P.sliceType * kMaxPartsCount)) :
    (P.buildPlanFor firstBlock blockCount).Checked := by
  obtain ⟨Q, hperm, hlayout⟩ := buildPlanFor_layout firstBlock blockCount hw hparts
  exact hlayout.checked (fun wp hwp => htypes wp (hperm.mem_iff.mp hwp)) (Int.natCast_nonneg _)
    (by omega) (by exact_mod_cast hrange) ((hperm.map _).nodup_iff.mpr hw)
    (fun q hq => partIndices_lt hparts hq)

/-- The operation for requested part number `i` reads into slot `i`. -/
theorem buildPlanFor_requested_slot {i : Nat} (hi : i < P.sliceParts.length)
    {x : Nat × ReadOperation} (hx : x ∈ (P.buildPlanFor firstBlock blockCount).readOperations)
    (hpart : getSlicePart x.1 = P.sliceParts[i]) :
    x.2.bufferOffset = i * (P.buildPlanFor firstBlock blockCount).bufferPartSize := by
  obtain ⟨Q, -, hlayout⟩ := buildPlanFor_layout firstBlock blockCount hw hparts
  have hindex : fillPartIndices P.sliceParts 0 (fun _ => -1) (getSlicePart x.1) = i := by
    rw [hpart]
    exact partIndices_getElem hparts i hi
  rw [hlayout.placed.requested x hx (by omega), hindex, buildPlanFor_bufferPartSize]

/-- The plan reads distinct parts of its slice. -/
theorem buildPlanFor_partTypes
    (htypes : ∀ wp ∈ P.weightedPartsToUse, getSliceType wp.type = P.sliceType) :
    (P.buildPlanFor firstBlock blockCount).partTypes.Nodup ∧
      ∀ p ∈ (P.buildPlanFor firstBlock blockCount).partTypes,
        getSliceType p = (P.buildPlanFor firstBlock blockCount).sliceType := by
  obtain ⟨Q, hperm, hlayout⟩ := buildPlanFor_layout firstBlock blockCount hw hparts
  refine ⟨hlayout.partTypes_nodup ((hperm.map _).nodup_iff.mpr hw), fun p hp => ?_⟩
  obtain ⟨x, hx, rfl⟩ := List.mem_map.mp hp
  obtain ⟨wp, hwp, htype⟩ := hlayout.mem_weighted hx
  rw [← htype, buildPlanFor_sliceType]
  exact htypes wp (hperm.mem_iff.mp hwp)

end Checked

/-! ## Plans of a prepared planner -/

section PreparedPlan

variable {P₀ : SliceReadPlanner} {sliceType : Nat} {sliceParts availableParts : List Nat}
  (firstBlock blockCount : Nat)
  (hpossible : (P₀.prepare sliceType sliceParts availableParts).isReadingPossible = true)
include hpossible

/-- With every requested part available, wave 0 reads each of them. -/
theorem prepare_waveZero_covers
    (hr : (P₀.prepare sliceType sliceParts availableParts).requiredPartsAvailable = true)
    {s : Nat} (hs : s ∈ sliceParts) :
    ∃ p ∈ ((P₀.prepare sliceType sliceParts availableParts).buildPlanFor
      firstBlock blockCount).waveParts 0, getSlicePart p = s := by
  have hbit : s ∈ partBitset sliceType availableParts := by
    rw [prepare_requiredPartsAvailable, List.all_eq_true] at hr
    simpa using hr s hs
  obtain ⟨wp, hwp, hpart⟩ := prepare_exists hpossible hbit
  refine ⟨wp.type, ?_, hpart⟩
  rw [buildPlanFor_waveZero_required firstBlock blockCount
    (by rw [shouldReadPartsRequiredForRecovery, hr, Bool.not_true])]
  exact List.mem_map_of_mem (List.mem_filter.mpr ⟨hwp, by simpa [hpart] using hs⟩)

/-- Wave 0 alone can finish the read: it holds every requested part, or, in the recovery
branch, enough parts to recover. -/
theorem prepare_waveZero_finished :
    ((P₀.prepare sliceType sliceParts availableParts).buildPlanFor
        firstBlock blockCount).isReadingFinished
      (((P₀.prepare sliceType sliceParts availableParts).buildPlanFor
        firstBlock blockCount).waveParts 0) = true := by
  unfold SliceReadPlan.isReadingFinished
  rw [buildPlanFor_sliceType]
  cases hr : (P₀.prepare sliceType sliceParts availableParts).requiredPartsAvailable with
  | false =>
    have hk : requiredPartsToRecover sliceType ≤
        (P₀.prepare sliceType sliceParts availableParts).weightedPartsToUse.length := by
      rw [prepare_length hpossible]
      exact prepare_card_of_recovery hpossible hr
    have hrec : (P₀.prepare sliceType sliceParts availableParts).shouldReadPartsRequiredForRecovery =
        true := by
      rw [shouldReadPartsRequiredForRecovery, hr, Bool.not_false]
    have hwave := buildPlanFor_waveZero_recovery firstBlock blockCount hrec hk
    exact Bool.or_eq_true_iff.mpr (.inl (decide_eq_true hwave))
  | true =>
    refine Bool.or_eq_true_iff.mpr (.inr (List.all_eq_true.mpr fun info hinfo => ?_))
    rw [buildPlanFor_requestedParts] at hinfo
    obtain ⟨s, hs, rfl⟩ := List.mem_map.mp hinfo
    obtain ⟨p, hp, hpart⟩ := prepare_waveZero_covers firstBlock blockCount hpossible hr hs
    exact List.any_eq_true.mpr ⟨p, hp, by simp [hpart]⟩

section Unreadable

variable {U : List Nat} (hparts : sliceParts.Nodup) (hU : U.Nodup)
  (hsub : U ⊆ ((P₀.prepare sliceType sliceParts availableParts).buildPlanFor
    firstBlock blockCount).partTypes)
include hparts hU hsub

/-- `isFinishingPossible` gives up only when the parts that can still arrive cannot finish
the read. -/
theorem prepare_isFinishingPossible_of_isReadingFinished
    (h : ((P₀.prepare sliceType sliceParts availableParts).buildPlanFor
        firstBlock blockCount).isReadingFinished
      (((P₀.prepare sliceType sliceParts availableParts).buildPlanFor
        firstBlock blockCount).partTypes.filter fun p => decide (p ∉ U)) = true) :
    ((P₀.prepare sliceType sliceParts availableParts).buildPlanFor
      firstBlock blockCount).isFinishingPossible U = true := by
  obtain ⟨hR, htype⟩ := buildPlanFor_partTypes firstBlock blockCount (prepare_nodup hpossible)
    hparts fun wp hwp => (prepare_mem hpossible hwp).2
  exact SliceReadPlan.isFinishingPossible_of_isReadingFinished hR htype hU hsub h

/-- With every requested part available, `isFinishingPossible` says exactly that the parts
that can still arrive finish the read. -/
theorem prepare_isFinishingPossible_eq
    (hr : (P₀.prepare sliceType sliceParts availableParts).requiredPartsAvailable = true) :
    ((P₀.prepare sliceType sliceParts availableParts).buildPlanFor
        firstBlock blockCount).isFinishingPossible U =
      ((P₀.prepare sliceType sliceParts availableParts).buildPlanFor
        firstBlock blockCount).isReadingFinished
      (((P₀.prepare sliceType sliceParts availableParts).buildPlanFor
        firstBlock blockCount).partTypes.filter fun p => decide (p ∉ U)) := by
  obtain ⟨hR, htype⟩ := buildPlanFor_partTypes firstBlock blockCount (prepare_nodup hpossible)
    hparts fun wp hwp => (prepare_mem hpossible hwp).2
  refine SliceReadPlan.isFinishingPossible_eq_isReadingFinished hR htype hU hsub
    fun info hinfo => ?_
  rw [buildPlanFor_requestedParts] at hinfo
  obtain ⟨s, hs, rfl⟩ := List.mem_map.mp hinfo
  obtain ⟨p, hp, hpart⟩ := prepare_waveZero_covers firstBlock blockCount hpossible hr hs
  exact ⟨p, SliceReadPlan.waveParts_subset _ 0 hp, hpart⟩

end Unreadable

end PreparedPlan

/-- Part 1 of a `xor2` slice with every part available: the plan reads part 1 in wave 0
and the parity part and part 2 after it. When part 1 is unreadable, the other two still
recover it, and `isFinishingPossible` holds. -/
theorem xor_plan_finishes_without_part_one :
    let plan : SliceReadPlan :=
      (SliceReadPlanner.prepare ⟨fun n => n, [], 0, [], [], false, false, false⟩
      2 [1] [128, 129, 130]).buildPlanFor 0 1
    plan.partTypes = [129, 128, 130] ∧
      (SliceReadPlanner.prepare ⟨fun n => n, [], 0, [], [], false, false, false⟩
        2 [1] [128, 129, 130]).isReadingPossible = true ∧
      [1].Nodup ∧ [129].Nodup ∧ [129] ⊆ plan.partTypes ∧
      plan.isReadingFinished (plan.partTypes.filter fun p => decide (p ∉ [129])) = true ∧
      plan.isFinishingPossible [129] = true := by
  intro plan
  have hpossible : (SliceReadPlanner.prepare ⟨fun n => n, [], 0, [], [], false, false, false⟩
      2 [1] [128, 129, 130]).isReadingPossible = true := by decide
  have hsub : [129] ⊆ plan.partTypes := by decide
  have h : plan.isReadingFinished (plan.partTypes.filter fun p => decide (p ∉ [129])) = true := by decide
  exact ⟨by decide, hpossible, by decide, by decide, hsub, h,
    prepare_isFinishingPossible_of_isReadingFinished 0 1 hpossible (by decide) (by decide) hsub h⟩

/-- Parts 1 and 2 of a `xor2` slice with every part available: when both turn out
unreadable only the parity part is left, and `isFinishingPossible` says the read cannot
finish, as `isReadingFinished` on what is left does. -/
theorem xor_plan_gives_up_without_data :
    let plan : SliceReadPlan :=
      (SliceReadPlanner.prepare ⟨fun n => n, [], 0, [], [], false, false, false⟩
      2 [1, 2] [128, 129, 130]).buildPlanFor 0 1
    (SliceReadPlanner.prepare ⟨fun n => n, [], 0, [], [], false, false, false⟩
        2 [1, 2] [128, 129, 130]).isReadingPossible = true ∧
      [1, 2].Nodup ∧ [129, 130].Nodup ∧ [129, 130] ⊆ plan.partTypes ∧
      (SliceReadPlanner.prepare ⟨fun n => n, [], 0, [], [], false, false, false⟩
        2 [1, 2] [128, 129, 130]).requiredPartsAvailable = true ∧
      plan.isFinishingPossible [129, 130] = false ∧
      plan.isFinishingPossible [129, 130] =
        plan.isReadingFinished (plan.partTypes.filter fun p => decide (p ∉ [129, 130])) := by
  intro plan
  have hpossible : (SliceReadPlanner.prepare ⟨fun n => n, [], 0, [], [], false, false, false⟩
      2 [1, 2] [128, 129, 130]).isReadingPossible = true := by decide
  have hsub : [129, 130] ⊆ plan.partTypes := by decide
  have hr : (SliceReadPlanner.prepare ⟨fun n => n, [], 0, [], [], false, false, false⟩
      2 [1, 2] [128, 129, 130]).requiredPartsAvailable = true := by decide
  exact ⟨hpossible, by decide, by decide, hsub, hr, by decide,
    prepare_isFinishingPossible_eq 0 1 hpossible (by decide) (by decide) hsub hr⟩

/-- In the recovery branch a plan need not read the requested parts. Part 1 of a `xor2`
slice is requested but missing, so the plan reads the parity part and part 2. When the
parity part turns out unreadable, one part is left, fewer than the two needed to recover,
yet `isFinishingPossible` holds, since the unreadable part was not requested. -/
theorem recovery_plan_keeps_waiting :
    let plan : SliceReadPlan :=
      (SliceReadPlanner.prepare ⟨fun n => n, [], 0, [], [], false, false, false⟩
      2 [1] [128, 130]).buildPlanFor 0 1
    plan.partTypes = [128, 130] ∧ plan.isFinishingPossible [128] = true ∧
      plan.isReadingFinished (plan.partTypes.filter fun p => decide (p ∉ [128])) = false := by
  decide

/-- Every plan of a prepared planner over valid available parts passes `checkPlan`, reads
requested part number `i` into slot `i`, and can finish from wave 0 alone. -/
theorem buildPlanFor_wellFormed (P₀ : SliceReadPlanner) (sliceType : Nat)
    (sliceParts availableParts : List Nat) (firstBlock blockCount : Nat)
    (hparts : sliceParts.Nodup)
    (hvalid : ∀ p ∈ availableParts, ChunkPartType.isValid p = true)
    (hpossible : (P₀.prepare sliceType sliceParts availableParts).isReadingPossible = true)
    (hcount : 0 < blockCount)
    (hrange : firstBlock + blockCount ≤ getNumberOfBlocks (sliceType * kMaxPartsCount)) :
    let plan : SliceReadPlan :=
      (P₀.prepare sliceType sliceParts availableParts).buildPlanFor firstBlock blockCount
    plan.Checked ∧
      (∀ i (hi : i < sliceParts.length), ∀ x ∈ plan.readOperations,
        getSlicePart x.1 = sliceParts[i] → x.2.bufferOffset = i * plan.bufferPartSize) ∧
      plan.isReadingFinished (plan.waveParts 0) = true := by
  intro plan
  have hw := prepare_nodup hpossible
  refine ⟨?_, fun i hi x hx hpart => ?_, prepare_waveZero_finished firstBlock blockCount hpossible⟩
  · -- the parts to use are valid available parts of the slice type
    refine buildPlanFor_checkPlan firstBlock blockCount hw hparts (fun wp hwp => ?_) hcount hrange
    obtain ⟨hmem, htype⟩ := prepare_mem hpossible hwp
    exact ⟨hvalid _ hmem, htype⟩
  · exact buildPlanFor_requested_slot firstBlock blockCount hw hparts hi hx hpart

/-- A plan for part 1 of a `xor2` slice with every part available. -/
theorem xor_plan_wellFormed :
    let plan : SliceReadPlan :=
      (SliceReadPlanner.prepare ⟨fun n => n, [], 0, [], [], false, false, false⟩
      2 [1] [128, 129, 130]).buildPlanFor 0 1
    plan.Checked ∧
      (∀ i (hi : i < [1].length), ∀ x ∈ plan.readOperations,
        getSlicePart x.1 = [1][i] → x.2.bufferOffset = i * plan.bufferPartSize) ∧
      plan.isReadingFinished (plan.waveParts 0) = true :=
  buildPlanFor_wellFormed _ 2 [1] [128, 129, 130] 0 1 (by decide) (by decide) (by decide)
    (by decide) (by decide)

/-- An available part type that is not valid for its slice, part 5 of a standard slice, is
picked like any other and read in wave 1, and the plan fails `checkPlan`. -/
theorem invalid_available_part_read :
    let plan : SliceReadPlan :=
      (SliceReadPlanner.prepare ⟨fun n => n, [], 0, [], [], false, false, false⟩
      0 [0] [0, 5]).buildPlanFor 0 1
    (SliceReadPlanner.prepare ⟨fun n => n, [], 0, [], [], false, false, false⟩
      0 [0] [0, 5]).isReadingPossible = true ∧
      ∃ x ∈ plan.readOperations, x.1 = 5 ∧ x.2.wave = 1 ∧ ChunkPartType.isValid x.1 = false := by
  decide

end SliceReadPlanner

end LizardFs
