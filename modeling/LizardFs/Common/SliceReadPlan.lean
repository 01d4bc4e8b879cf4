import Mathlib.Data.List.Perm.Subperm
import Mathlib.Data.List.Nodup
import LizardFs.Common.SliceTraits

/-!
# Read plans of a slice

Model of `ReadPlan::ReadOperation` (`src/common/read_plan.h`) and of `SliceReadPlan`
(`src/common/slice_read_plan.h`): the read operations of a plan, one per part type, and
the two tests the executor makes while it waits for parts.

* `isReadingFinished(available)`: enough parts to recover the data, or every requested
  part among them;
* `isFinishingPossible(unreadable)`: enough operations left after the unreadable ones, or
  no requested part among the unreadable.

The executor gives up when `isFinishingPossible` fails, so it should hold exactly when
the parts that can still arrive finish the read. It is at least that
(`isFinishingPossible_of_isReadingFinished`), and exactly that when every requested part
has an operation in the plan (`isFinishingPossible_eq_isReadingFinished`). A plan that
recovers a requested part the system does not have gives no such operation.

`Checked` collects what `ReadPlanExecutor::checkPlan` asserts of a plan. `XorReadPlan` and
`ECReadPlan` override only `postProcessRead`, which this model leaves out.
-/

namespace LizardFs

open ChunkPartType SliceTraits

/-- `ReadPlan::ReadOperation`. -/
structure ReadOperation where
  requestOffset : Int
  requestSize : Int
  bufferOffset : Int
  wave : Nat
deriving DecidableEq, Repr

/-- `SliceReadPlan::RequestedPartInfo`. -/
structure RequestedPartInfo where
  part : Nat
  size : Int
deriving DecidableEq, Repr

/-- The fields of a `SliceReadPlan` that planning and the two tests use; part types are
`ChunkPartType` ids. -/
structure SliceReadPlan where
  sliceType : Nat
  requestedParts : List RequestedPartInfo
  bufferPartSize : Int
  readOperations : List (Nat × ReadOperation)
  readBufferSize : Int
deriving DecidableEq, Repr

namespace SliceReadPlan

/-- `isReadingFinished(available_parts)`: `part_counter[p] > 0` is some available part
with slice part `p`. -/
def isReadingFinished (plan : SliceReadPlan) (availableParts : List Nat) : Bool :=
  decide (availableParts.length ≥ requiredPartsToRecover plan.sliceType) ||
    plan.requestedParts.all fun info => availableParts.any fun p => getSlicePart p = info.part

/-- `isFinishingPossible(unreadable_parts)`. The difference of the two sizes is taken in
`size_t`. -/
def isFinishingPossible (plan : SliceReadPlan) (unreadableParts : List Nat) : Bool :=
  decide ((((plan.readOperations.length : Int) - unreadableParts.length) % 2 ^ 64) ≥
      requiredPartsToRecover plan.sliceType) ||
    !(plan.requestedParts.any fun info => unreadableParts.any fun p => getSlicePart p = info.part)

/-- The part types of the plan's read operations. -/
def partTypes (plan : SliceReadPlan) : List Nat := plan.readOperations.map Prod.fst

/-- The part types of the operations of one wave, which the executor starts together. -/
def waveParts (plan : SliceReadPlan) (wave : Nat) : List Nat :=
  (plan.readOperations.filter fun x => x.2.wave = wave).map Prod.fst

theorem waveParts_subset (plan : SliceReadPlan) (wave : Nat) :
    plan.waveParts wave ⊆ plan.partTypes :=
  (List.filter_sublist.map _).subset

/-- What `ReadPlanExecutor::checkPlan` asserts of a plan. -/
structure Checked (plan : SliceReadPlan) : Prop where
  valid : ∀ x ∈ plan.readOperations, ChunkPartType.isValid x.1 = true
  request_nonneg : ∀ x ∈ plan.readOperations, 0 ≤ x.2.requestOffset ∧ 0 ≤ x.2.requestSize
  request_le : ∀ x ∈ plan.readOperations,
    x.2.requestOffset + x.2.requestSize ≤ mfsChunkSize
  buffer_bounds : ∀ x ∈ plan.readOperations,
    0 ≤ x.2.bufferOffset ∧ x.2.bufferOffset + x.2.requestSize ≤ plan.readBufferSize
  types_nodup : plan.partTypes.Nodup
  disjoint : plan.readOperations.Pairwise fun x y =>
    0 < x.2.requestSize → 0 < y.2.requestSize →
      x.2.bufferOffset + x.2.requestSize ≤ y.2.bufferOffset ∨
        y.2.bufferOffset + y.2.requestSize ≤ x.2.bufferOffset

/-! ## The two tests -/

/-- Two part types of one slice with one slice part are the same. -/
theorem eq_of_getSlicePart_eq {t p q : Nat} (hp : getSliceType p = t) (hq : getSliceType q = t)
    (h : getSlicePart p = getSlicePart q) : p = q := by
  unfold getSliceType getSlicePart at *
  rw [← Nat.div_add_mod p kMaxPartsCount, ← Nat.div_add_mod q kMaxPartsCount, hp, hq, h]

/-- Distinct part types of one slice number at most `kMaxPartsCount`. -/
theorem length_le_of_nodup {t : Nat} {R : List Nat} (hR : R.Nodup)
    (htype : ∀ p ∈ R, getSliceType p = t) : R.length ≤ kMaxPartsCount := by
  have hinj : (R.map getSlicePart).Nodup := by
    refine hR.map_on fun p hp q hq h => eq_of_getSlicePart_eq (htype p hp) (htype q hq) h
  have hsub : R.map getSlicePart ⊆ List.range kMaxPartsCount := by
    intro s hs
    obtain ⟨p, -, rfl⟩ := List.mem_map.mp hs
    exact List.mem_range.mpr (Nat.mod_lt _ (by decide))
  have hle := (hinj.subperm hsub).length_le
  rwa [List.length_map, List.length_range] at hle

/-- Removing distinct parts of a duplicate-free list removes that many. -/
theorem length_filter_not_mem {R U : List Nat} (hR : R.Nodup) (hU : U.Nodup) (hsub : U ⊆ R) :
    (R.filter fun p => decide (p ∉ U)).length + U.length = R.length := by
  have hperm : (R.filter fun p => decide (p ∈ U)).Perm U := by
    rw [List.perm_ext_iff_of_nodup (hR.filter _) hU]
    intro a
    simp only [List.mem_filter, decide_eq_true_eq]
    exact ⟨fun h => h.2, fun ha => ⟨hsub ha, ha⟩⟩
  have hsplit : R.length = _ := List.length_eq_length_filter_add fun p => decide (p ∈ U)
  rw [← hperm.length_eq]
  simp only [decide_not] at hsplit ⊢
  omega

section Tests

variable {plan : SliceReadPlan} {U : List Nat}

/-- The unsigned difference of the sizes is the number of operations left. -/
theorem sub_length_emod (hR : plan.partTypes.Nodup) (hU : U.Nodup) (hsub : U ⊆ plan.partTypes)
    (htype : ∀ p ∈ plan.partTypes, getSliceType p = plan.sliceType) :
    ((plan.readOperations.length : Int) - U.length) % 2 ^ 64 =
      ((plan.partTypes.filter fun p => decide (p ∉ U)).length : Int) := by
  have hlen := length_filter_not_mem hR hU hsub
  have hbound := length_le_of_nodup hR htype
  rw [partTypes, List.length_map] at hlen hbound
  unfold kMaxPartsCount at hbound
  rw [Int.emod_eq_of_lt (by omega) (by omega)]
  rw [partTypes]
  omega

/-- A requested part that has a readable operation is not unreadable. -/
theorem not_unreadable_of_remaining {info : RequestedPartInfo}
    (htype : ∀ p ∈ plan.partTypes, getSliceType p = plan.sliceType) (hsub : U ⊆ plan.partTypes)
    (h : (plan.partTypes.filter fun p => decide (p ∉ U)).any (fun p => getSlicePart p = info.part)) :
    (U.any fun p => getSlicePart p = info.part) = false := by
  obtain ⟨p, hp, hpart⟩ := List.any_eq_true.mp h
  rw [List.mem_filter, decide_eq_true_eq] at hp
  rw [List.any_eq_false]
  intro q hq hqpart
  -- both parts have the requested slice part, so they are the same part
  have hpq : p = q := eq_of_getSlicePart_eq (htype p hp.1) (htype q (hsub hq))
    (by simp only [decide_eq_true_eq] at hpart hqpart; rw [hpart, hqpart])
  exact hp.2 (hpq ▸ hq)

section Exact

variable (hR : plan.partTypes.Nodup)
  (htype : ∀ p ∈ plan.partTypes, getSliceType p = plan.sliceType)
  (hU : U.Nodup) (hsub : U ⊆ plan.partTypes)
include hR htype hU hsub

/-- The size halves of the two tests agree on the operations left. -/
theorem size_test_eq :
    decide ((((plan.readOperations.length : Int) - U.length) % 2 ^ 64) ≥
        requiredPartsToRecover plan.sliceType) =
      decide ((plan.partTypes.filter fun p => decide (p ∉ U)).length ≥
        requiredPartsToRecover plan.sliceType) := by
  rw [sub_length_emod hR hU hsub htype]
  simp only [ge_iff_le, Nat.cast_le]

/-- If the parts that can still arrive finish the read, finishing is possible. -/
theorem isFinishingPossible_of_isReadingFinished
    (h : plan.isReadingFinished (plan.partTypes.filter fun p => decide (p ∉ U)) = true) :
    plan.isFinishingPossible U = true := by
  unfold isReadingFinished at h
  unfold isFinishingPossible
  rw [size_test_eq hR htype hU hsub]
  rcases Bool.or_eq_true_iff.mp h with hsize | hall
  · rw [hsize, Bool.true_or]
  · -- every requested part has a readable operation, so none is unreadable
    have hnone : (plan.requestedParts.any fun info =>
        U.any fun p => getSlicePart p = info.part) = false := by
      rw [List.any_eq_false]
      intro info hinfo hU'
      have hrem := List.all_eq_true.mp hall info hinfo
      rw [not_unreadable_of_remaining htype hsub hrem] at hU'
      exact Bool.false_ne_true hU'
    rw [hnone, Bool.not_false, Bool.or_true]

/-- When every requested part has an operation in the plan, `isFinishingPossible` says
exactly that the parts that can still arrive finish the read. -/
theorem isFinishingPossible_eq_isReadingFinished
    (hreq : ∀ info ∈ plan.requestedParts, ∃ p ∈ plan.partTypes, getSlicePart p = info.part) :
    plan.isFinishingPossible U =
      plan.isReadingFinished (plan.partTypes.filter fun p => decide (p ∉ U)) := by
  apply Bool.eq_iff_iff.mpr
  refine ⟨fun h => ?_, isFinishingPossible_of_isReadingFinished hR htype hU hsub⟩
  unfold isFinishingPossible at h
  unfold isReadingFinished
  rw [size_test_eq hR htype hU hsub] at h
  rcases Bool.or_eq_true_iff.mp h with hsize | hnone
  · rw [hsize, Bool.true_or]
  · -- no requested part is unreadable: its operation is among those left
    have hall : (plan.requestedParts.all fun info =>
        (plan.partTypes.filter fun p => decide (p ∉ U)).any
          fun p => getSlicePart p = info.part) = true := by
      rw [List.all_eq_true]
      intro info hinfo
      obtain ⟨p, hp, hpart⟩ := hreq info hinfo
      have hpU : p ∉ U := by
        intro hpU
        have hany : (plan.requestedParts.any fun info =>
            U.any fun p => getSlicePart p = info.part) = true :=
          List.any_eq_true.mpr ⟨info, hinfo, List.any_eq_true.mpr ⟨p, hpU, by simp [hpart]⟩⟩
        rw [hany] at hnone
        exact Bool.false_ne_true hnone
      exact List.any_eq_true.mpr
        ⟨p, List.mem_filter.mpr ⟨hp, by simpa using hpU⟩, by simp [hpart]⟩
    rw [hall, Bool.or_true]

end Exact

end Tests

end SliceReadPlan

end LizardFs
