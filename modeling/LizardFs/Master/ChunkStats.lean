import LizardFs.Master.ChunkTable
import LizardFs.Lib.CounterTable

/-!
# Chunk statistics

Model of the statistics `src/master/chunks.cc` keeps over all chunks: the number
of chunks `Chunk::count` and the `uint64_t` counters of `allChunksAvailability`,
`allChunksReplicationState` (`chunksToReplicate_`, `chunksToDelete_`) and
`allFullChunkCopies`. A chunk is counted once per distinct goal of its goal
counters, and once in `allFullChunkCopies`, from five values it caches
(`allAvailabilityState_`, `allMissingParts_`, `allRedundantParts_`,
`copiesInStats_`, `allFullCopies_`). `updateStats` recomputes them; every change
of the goal counters is bracketed by `removeFromStats` and `updateStats(false)`,
every change of the parts is followed by `updateStats()`, and `freeStats` takes a
deleted chunk out. `ChunkLayer.Valid` is the invariant these brackets keep: the
counters are the tally of the contributions of the live chunks.

`ChunkCopiesCalculator`, which computes the cached values from the chunk's goal
(the merge of the goal definitions of its counters) and its valid parts, is the
parameter `copies`. The endangered-chunks queue `updateStats` fills is not modelled.

The three methods that change the goal counters run `removeFromStats` before the
counters' operation, which throws `InvalidOperation` for a goal it cannot add or
remove. The callers catch it and return `LIZARDFS_ERROR_CHUNKLOST`, skipping
`updateStats`: the chunk stays live but is no longer counted.
-/

namespace LizardFs

/-- `ChunksAvailabilityState::State`. -/
inductive AvailabilityState where
  | safe
  | endangered
  | lost
  deriving DecidableEq, Repr

/-- `ChunkPart::state`. -/
inductive PartState where
  | invalid
  | del
  | busy
  | valid
  | tdbusy
  | tdvalid
  deriving DecidableEq, Repr

/-- A `ChunkPart`: a copy of the chunk, or a part of it, on one chunkserver. -/
structure ChunkPart where
  version : UInt32
  /-- the `ChunkPartType` id -/
  type : Nat
  /-- the chunkserver id -/
  csid : Nat
  state : PartState
  deriving DecidableEq, Repr

/-- `ChunkPart::is_valid`. -/
def ChunkPart.isValid (p : ChunkPart) : Bool := p.state != .invalid && p.state != .del

/-- What `ChunkCopiesCalculator` answers for a chunk's goal and its valid parts. -/
structure CopiesReport where
  /-- `all.getFullCopiesCount()` -/
  fullCopies : Nat
  /-- `all.getState()` -/
  state : AvailabilityState
  /-- `all.countPartsToRecover()` -/
  partsToRecover : Nat
  /-- `all.countPartsToRemove()` -/
  partsToRemove : Nat
  /-- `ChunkCopiesCalculator::getFullCopiesCount(g)`: the copies the goal asks for -/
  expectedCopies : Nat
  deriving DecidableEq, Repr

/-- `Chunk::kMaxStatCount`: the cached values are 4-bit fields. -/
def kMaxStatCount : Nat := 15

/-- `CHUNK_MATRIX_SIZE`. -/
def chunkMatrixSize : Nat := 11

/-- `ChunksReplicationState::kMaxPartsCount`. -/
def kMaxPartsCount : Nat := 11

/-- The fields of a `Chunk` that its statistics read. -/
structure StatChunk where
  goalCounters : List GoalCounter
  parts : List ChunkPart
  allAvailabilityState : AvailabilityState
  copiesInStats : Nat
  allMissingParts : Nat
  allRedundantParts : Nat
  allFullCopies : Nat
  deriving DecidableEq, Repr

/-- One counter of the statistics. -/
inductive StatCounter where
  /-- `allChunksAvailability`: the chunks of a goal in an availability state -/
  | availability (state : AvailabilityState) (goal : Nat)
  /-- `chunksToReplicate_[goal][missingParts]` -/
  | toReplicate (goal missingParts : Nat)
  /-- `chunksToDelete_[goal][redundantParts]` -/
  | toDelete (goal redundantParts : Nat)
  /-- `allFullChunkCopies[expected][actual]` -/
  | fullCopies (expected actual : Nat)
  deriving DecidableEq, Repr

/-- `Chunk::count` and the counters. -/
structure ChunkStats where
  count : UInt64
  counters : StatCounter → UInt64

namespace StatChunk

/-- The goals the loops of `removeFromStats` and `addToStats` visit: a counter
for the goal just seen (`prev_goal`) is skipped. -/
def goalsFrom (prev : Int) : List GoalCounter → List Nat
  | [] => []
  | c :: cs => if prev = c.goal then goalsFrom prev cs else c.goal :: goalsFrom c.goal cs

/-- The `allFullChunkCopies` entry of a chunk. -/
def matrixKey (c : StatChunk) : StatCounter :=
  .fullCopies (min (chunkMatrixSize - 1) c.copiesInStats) (min (chunkMatrixSize - 1) c.allFullCopies)

/-- The counters a chunk is counted in, in the order the loops visit them:
per goal its availability state and its missing and redundant parts (capped by
`ChunksReplicationState`), then its entry of the copies matrix. -/
def statKeys (c : StatChunk) : List StatCounter :=
  ((goalsFrom (-1) c.goalCounters).map fun goal =>
    [.availability c.allAvailabilityState goal,
     .toReplicate goal (min c.allMissingParts (kMaxPartsCount - 1)),
     .toDelete goal (min c.allRedundantParts (kMaxPartsCount - 1))]).flatten ++ [c.matrixKey]

/-- A chunk just `clear()`ed: no goal counters, no parts, the cached values reset. -/
def cleared : StatChunk := ⟨[], [], .safe, 0, 0, 0, 0⟩

end StatChunk

namespace ChunkStats

/-- Apply `op` to every counter the chunk is counted in: the loops of
`removeFromStats` (`op` is `--`) and `addToStats` (`++`). -/
def shift (op : UInt64 → UInt64) (c : StatChunk) (s : ChunkStats) : ChunkStats :=
  { s with counters := CounterTable.bumpAll op c.statKeys s.counters }

/-- `Chunk::removeFromStats`. -/
def removeFromStats (c : StatChunk) (s : ChunkStats) : ChunkStats := s.shift (· - 1) c

/-- `Chunk::addToStats`. -/
def addToStats (c : StatChunk) (s : ChunkStats) : ChunkStats := s.shift (· + 1) c

@[simp] theorem count_removeFromStats (c : StatChunk) (s : ChunkStats) :
    (s.removeFromStats c).count = s.count := rfl

@[simp] theorem count_addToStats (c : StatChunk) (s : ChunkStats) : (s.addToStats c).count = s.count := rfl

theorem counters_removeFromStats (c : StatChunk) (s : ChunkStats) (k : StatCounter) :
    (s.removeFromStats c).counters k = s.counters k - (c.statKeys.count k).toUInt64 :=
  CounterTable.bumpAll_sub_one _ _ _

theorem counters_addToStats (c : StatChunk) (s : ChunkStats) (k : StatCounter) :
    (s.addToStats c).counters k = s.counters k + (c.statKeys.count k).toUInt64 :=
  CounterTable.bumpAll_add_one _ _ _

end ChunkStats

/-- What a `Chunk` method leaves: the chunk, the statistics, and the exception it
threw, if any; what the method did before the `throw` stays done. -/
structure Outcome where
  chunk : StatChunk
  stats : ChunkStats
  thrown : Option String

/-- A method moved the statistics from counting `c` to counting its new chunk. -/
def Outcome.Balanced (o : Outcome) (c : StatChunk) (s : ChunkStats) : Prop :=
  o.stats.count = s.count ∧
    ∀ k, o.stats.counters k = s.counters k - (c.statKeys.count k).toUInt64 + (o.chunk.statKeys.count k).toUInt64

section Methods

variable (copies : List GoalCounter → List ChunkPart → CopiesReport)

/-- The cached values `updateStats` computes from the goal and the valid parts. -/
def StatChunk.refresh (c : StatChunk) : StatChunk :=
  let r := copies c.goalCounters (c.parts.filter ChunkPart.isValid)
  { c with
    allFullCopies := min kMaxStatCount r.fullCopies
    allAvailabilityState := r.state
    allMissingParts := min kMaxStatCount r.partsToRecover
    allRedundantParts := min kMaxStatCount r.partsToRemove
    copiesInStats := min kMaxStatCount r.expectedCopies }

/-- `Chunk::updateStats(remove_from_stats)`. -/
def updateStats (removeFirst : Bool) (c : StatChunk) (s : ChunkStats) : StatChunk × ChunkStats :=
  let s := if removeFirst then s.removeFromStats c else s
  let c := c.refresh copies
  (c, s.addToStats c)

/-- The methods that change the goal counters: `removeFromStats`, the counters'
operation, then `updateStats(false)` unless the operation threw. -/
def withGoalCounters (op : List GoalCounter → List GoalCounter × Option String) (c : StatChunk)
    (s : ChunkStats) : Outcome :=
  let s := s.removeFromStats c
  let r := op c.goalCounters
  let c := { c with goalCounters := r.1 }
  match r.2 with
  | some e => ⟨c, s, some e⟩
  | none =>
    let (c, s) := updateStats copies false c s
    ⟨c, s, none⟩

/-- The counters after an operation that returns them or throws, leaving them as
they were. -/
def keepOnError (cs : List GoalCounter) : Except String (List GoalCounter) → List GoalCounter × Option String
  | .ok cs' => (cs', none)
  | .error e => (cs, some e)

/-- `Chunk::addFileWithGoal`. -/
def addFileWithGoal (goal : Nat) : StatChunk → ChunkStats → Outcome :=
  withGoalCounters copies fun cs => keepOnError cs (GoalCounters.addFile cs goal)

/-- `Chunk::removeFileWithGoal`. -/
def removeFileWithGoal (goal : Nat) : StatChunk → ChunkStats → Outcome :=
  withGoalCounters copies fun cs => keepOnError cs (GoalCounters.removeFile cs goal)

/-- `Chunk::changeFileGoal`. -/
def changeFileGoal (prevGoal newGoal : Nat) : StatChunk → ChunkStats → Outcome :=
  withGoalCounters copies fun cs => GoalCounters.changeFileGoal cs prevGoal newGoal

/-- Set the parts, then `updateStats()`: the chunkserver reports and the part
changes of `chunks.cc` that end in `c->updateStats()`. -/
def setPartsAndUpdate (parts : List ChunkPart) (c : StatChunk) (s : ChunkStats) : Outcome :=
  let (c, s) := updateStats copies true { c with parts := parts } s
  ⟨c, s, none⟩

/-- Change part `i`, then `updateStats()`. -/
def withPart (f : ChunkPart → ChunkPart) (i : Nat) (c : StatChunk) (s : ChunkStats) : Outcome :=
  setPartsAndUpdate copies (c.parts.modify i f) c s

/-- `Chunk::markCopyAsHavingWrongVersion`. -/
def markCopyAsHavingWrongVersion (i : Nat) : StatChunk → ChunkStats → Outcome :=
  withPart copies (fun p => { p with state := .invalid }) i

/-- `Chunk::invalidateCopy`. -/
def invalidateCopy (i : Nat) : StatChunk → ChunkStats → Outcome :=
  withPart copies (fun p => { p with state := .invalid, version := 0 }) i

/-- `Chunk::deleteCopy`. -/
def deleteCopy (i : Nat) : StatChunk → ChunkStats → Outcome :=
  withPart copies (fun p => { p with state := .del }) i

/-! ### What each method does to the statistics -/

/-- The keys of a chunk depend on its goal counters and cached values only, so
`updateStats()` after a change of the parts moves the statistics from the chunk
to the refreshed chunk. -/
theorem setPartsAndUpdate_balanced (parts : List ChunkPart) (c : StatChunk) (s : ChunkStats) :
    (setPartsAndUpdate copies parts c s).Balanced c s := by
  refine ⟨rfl, fun k => ?_⟩
  simp only [setPartsAndUpdate, updateStats, if_true, ChunkStats.counters_addToStats,
    ChunkStats.counters_removeFromStats]
  rfl

/-- A goal-counter method that does not throw moves the statistics from the chunk
to the chunk with the new counters and refreshed values. -/
theorem withGoalCounters_balanced {op : List GoalCounter → List GoalCounter × Option String}
    {c : StatChunk} (hop : (op c.goalCounters).2 = none) (s : ChunkStats) :
    (withGoalCounters copies op c s).Balanced c s := by
  simp only [withGoalCounters, hop]
  refine ⟨rfl, fun k => ?_⟩
  simp only [updateStats, Bool.false_eq_true, if_false, ChunkStats.counters_addToStats,
    ChunkStats.counters_removeFromStats]

end Methods

/-! ## The chunk table -/

/-- The live chunks by id (`chunkhash`, newest first in its bucket), and the
statistics. -/
structure ChunkLayer where
  chunks : List (Nat × StatChunk)
  stats : ChunkStats

namespace ChunkLayer

/-- An empty table. -/
def empty : ChunkLayer := ⟨[], ⟨0, fun _ => 0⟩⟩

/-- `chunk_find`. -/
def find (L : ChunkLayer) (id : Nat) : Option StatChunk := L.chunks.lookup id

/-- Run a `Chunk` method on chunk `id`: `LIZARDFS_ERROR_CHUNKLOST` when it throws
(the `catch` of `chunk_add_file_int`, `chunk_delete_file_int` and
`chunk_change_file`). -/
def onChunk (L : ChunkLayer) (id : Nat) (m : StatChunk → ChunkStats → Outcome) : ChunkLayer × Status :=
  match L.find id with
  | none => (L, .nochunk)
  | some c =>
    let o := m c L.stats
    (⟨CounterTable.replace L.chunks id o.chunk, o.stats⟩, if o.thrown.isSome then .chunklost else .ok)

section Ops

variable (copies : List GoalCounter → List ChunkPart → CopiesReport)

/-- `chunk_new(chunkid, version)`: `chunk_malloc` `clear()`s the chunk, which
counts it (`count++`, `updateStats(false)`), then it is linked into the table. -/
def chunkNew (L : ChunkLayer) (id : Nat) : ChunkLayer :=
  let (c, s) := updateStats copies false StatChunk.cleared { L.stats with count := L.stats.count + 1 }
  ⟨(id, c) :: L.chunks, s⟩

end Ops

/-- `chunk_delete(c)` after the chunk loop unlinks it: `freeStats()` (`count--`,
`removeFromStats()`). -/
def chunkDelete (L : ChunkLayer) (id : Nat) : ChunkLayer :=
  match L.find id with
  | none => L
  | some c => ⟨L.chunks.filter fun e => e.1 ≠ id, { L.stats with count := L.stats.count - 1 }.removeFromStats c⟩

/-- The operations on the chunk table that change its statistics. -/
inductive Op where
  /-- `chunk_new` -/
  | new (id : Nat)
  /-- `chunk_add_file` -/
  | addFile (id goal : Nat)
  /-- `chunk_delete_file` -/
  | deleteFile (id goal : Nat)
  /-- `chunk_change_file` -/
  | changeFile (id prevGoal newGoal : Nat)
  /-- a change of the parts followed by `updateStats()` -/
  | setParts (id : Nat) (parts : List ChunkPart)
  | markCopyAsHavingWrongVersion (id part : Nat)
  | invalidateCopy (id part : Nat)
  | deleteCopy (id part : Nat)
  /-- `chunk_delete` of a chunk the chunk loop unlinked -/
  | delete (id : Nat)
  deriving DecidableEq, Repr

section Run

variable (copies : List GoalCounter → List ChunkPart → CopiesReport)

/-- One operation, and the status it returns. -/
def step (L : ChunkLayer) : Op → ChunkLayer × Status
  | .new id => (L.chunkNew copies id, .ok)
  | .addFile id goal => L.onChunk id (addFileWithGoal copies goal)
  | .deleteFile id goal => L.onChunk id (removeFileWithGoal copies goal)
  | .changeFile id prevGoal newGoal =>
    if prevGoal = newGoal then (L, .ok) else L.onChunk id (changeFileGoal copies prevGoal newGoal)
  | .setParts id parts => L.onChunk id (setPartsAndUpdate copies parts)
  | .markCopyAsHavingWrongVersion id i => L.onChunk id (markCopyAsHavingWrongVersion copies i)
  | .invalidateCopy id i => L.onChunk id (invalidateCopy copies i)
  | .deleteCopy id i => L.onChunk id (deleteCopy copies i)
  | .delete id => (L.chunkDelete id, .ok)

/-- A run of operations: the table after it and the statuses returned. -/
def run (L : ChunkLayer) : List Op → ChunkLayer × List Status
  | [] => (L, [])
  | op :: ops =>
    let (L', st) := L.step copies op
    let (L'', sts) := L'.run ops
    (L'', st :: sts)

end Run

/-! ## The invariant -/

/-- The statistics are exact: `count` is the number of live chunks and every
counter is the tally of the contributions of the live chunks. -/
def StatsExact (L : ChunkLayer) : Prop :=
  L.stats.count = L.chunks.length.toUInt64 ∧
    ∀ k, L.stats.counters k = (CounterTable.tally StatChunk.statKeys L.chunks k).toUInt64

/-- The table invariant: ids are unique, and the statistics are exact. -/
structure Valid (L : ChunkLayer) : Prop where
  idsUnique : (L.chunks.map Prod.fst).Nodup
  exact : L.StatsExact

theorem empty_valid : empty.Valid := ⟨List.nodup_nil, rfl, fun _ => rfl⟩

variable {L : ChunkLayer}

/-- A method that moves the statistics from a live chunk to its new value keeps
the table valid. -/
theorem Valid.onChunk (hv : L.Valid) {id : Nat} {c : StatChunk} (hc : L.find id = some c)
    {m : StatChunk → ChunkStats → Outcome} (hb : (m c L.stats).Balanced c L.stats) :
    (L.onChunk id m).1.Valid := by
  obtain ⟨hu, hcount, hcounters⟩ := hv
  simp only [ChunkLayer.onChunk, hc]
  refine ⟨?_, ?_, fun k => ?_⟩
  · rw [CounterTable.map_fst_replace]
    exact hu
  · rw [hb.1, hcount, CounterTable.replace, List.length_map]
  · -- the counter moved as the tally does when the record of `id` is replaced
    have ht := CounterTable.tally_replace StatChunk.statKeys hu hc (m c L.stats).chunk k
    rw [hb.2 k, hcounters k, CounterTable.toUInt64_of_add_eq ht]

/-- `chunk_new` with a fresh id keeps the table valid. -/
theorem Valid.chunkNew (copies : List GoalCounter → List ChunkPart → CopiesReport) (hv : L.Valid)
    {id : Nat} (hid : id ∉ L.chunks.map Prod.fst) : (L.chunkNew copies id).Valid := by
  obtain ⟨hu, hcount, hcounters⟩ := hv
  refine ⟨List.nodup_cons.mpr ⟨hid, hu⟩, ?_, fun k => ?_⟩
  · simp only [ChunkLayer.chunkNew, updateStats, Bool.false_eq_true, if_false,
      ChunkStats.count_addToStats, hcount, List.length_cons, Nat.toUInt64, UInt64.ofNat_add]
    rfl
  · simp only [ChunkLayer.chunkNew, updateStats, Bool.false_eq_true, if_false,
      ChunkStats.counters_addToStats, hcounters k, CounterTable.tally_cons, Nat.toUInt64, UInt64.ofNat_add]
    rw [UInt64.add_comm]

/-- `chunk_delete` of a live chunk keeps the table valid. -/
theorem Valid.chunkDelete (hv : L.Valid) (id : Nat) : (L.chunkDelete id).Valid := by
  cases hc : L.find id with
  | none =>
    simp only [ChunkLayer.chunkDelete, hc]
    exact hv
  | some c =>
    obtain ⟨hu, hcount, hcounters⟩ := hv
    rw [ChunkLayer.chunkDelete, hc]
    refine ⟨(List.filter_sublist).map Prod.fst |>.nodup hu, ?_, fun k => ?_⟩
    · -- one chunk fewer
      have hlen := CounterTable.length_filter_ne hu hc
      simp only [ChunkStats.count_removeFromStats, hcount, ← hlen, Nat.toUInt64, UInt64.ofNat_add,
        UInt64.ofNat_one, UInt64.add_sub_cancel]
    · -- the counter lost the chunk's count, as the tally does
      have ht := CounterTable.tally_erase StatChunk.statKeys hu hc k
      rw [ChunkStats.counters_removeFromStats, hcounters k, ← ht]
      simp only [Nat.toUInt64, UInt64.ofNat_add, UInt64.add_sub_cancel]

/-- A method that throws nothing on a live chunk, where it moves the statistics
as its chunk changes, keeps the table valid. -/
theorem Valid.onChunk_of_ok (hv : L.Valid) {id : Nat} {m : StatChunk → ChunkStats → Outcome}
    (hb : ∀ c, L.find id = some c → (m c L.stats).thrown = none → (m c L.stats).Balanced c L.stats)
    (hok : (L.onChunk id m).2 ≠ .chunklost) : (L.onChunk id m).1.Valid := by
  cases hc : L.find id with
  | none =>
    simp only [ChunkLayer.onChunk, hc]
    exact hv
  | some c =>
    cases ht : (m c L.stats).thrown with
    | some e => simp [ChunkLayer.onChunk, hc, ht] at hok
    | none => exact hv.onChunk hc (hb c hc ht)

section Run

variable (copies : List GoalCounter → List ChunkPart → CopiesReport)

theorem thrown_withGoalCounters (op : List GoalCounter → List GoalCounter × Option String) (c : StatChunk)
    (s : ChunkStats) : (withGoalCounters copies op c s).thrown = (op c.goalCounters).2 := by
  unfold withGoalCounters
  cases h : (op c.goalCounters).2 with
  | none => simp only [h]
  | some e => simp only [h]

/-- A goal-counter method keeps the table valid when it does not throw. -/
theorem Valid.onChunk_withGoalCounters (hv : L.Valid) (id : Nat)
    (op : List GoalCounter → List GoalCounter × Option String)
    (hok : (L.onChunk id (withGoalCounters copies op)).2 ≠ .chunklost) :
    (L.onChunk id (withGoalCounters copies op)).1.Valid :=
  hv.onChunk_of_ok (fun c _ ht => withGoalCounters_balanced copies
    ((thrown_withGoalCounters copies op c L.stats).symm.trans ht) L.stats) hok

/-- A part change followed by `updateStats()` keeps the table valid. -/
theorem Valid.onChunk_setPartsAndUpdate (hv : L.Valid) (id : Nat) (parts : List ChunkPart → List ChunkPart) :
    (L.onChunk id fun c => setPartsAndUpdate copies (parts c.parts) c).1.Valid := by
  cases hc : L.find id with
  | none =>
    simp only [ChunkLayer.onChunk, hc]
    exact hv
  | some c => exact hv.onChunk hc (setPartsAndUpdate_balanced copies _ c L.stats)

/-- One operation keeps the table valid, if it throws nothing and a new chunk
gets a fresh id. -/
theorem Valid.step (hv : L.Valid) (op : Op) (hfresh : ∀ id, op = .new id → id ∉ L.chunks.map Prod.fst)
    (hok : (L.step copies op).2 ≠ .chunklost) : (L.step copies op).1.Valid := by
  cases op with
  | new id => exact hv.chunkNew copies (hfresh id rfl)
  | addFile id goal => exact hv.onChunk_withGoalCounters copies id _ hok
  | deleteFile id goal => exact hv.onChunk_withGoalCounters copies id _ hok
  | changeFile id prevGoal newGoal =>
    by_cases hg : prevGoal = newGoal
    · simp only [ChunkLayer.step, hg, if_true]
      exact hv
    · simp only [ChunkLayer.step, hg, if_false] at hok ⊢
      exact hv.onChunk_withGoalCounters copies id _ hok
  | setParts id parts => exact hv.onChunk_setPartsAndUpdate copies id fun _ => parts
  | markCopyAsHavingWrongVersion id i => exact hv.onChunk_setPartsAndUpdate copies id _
  | invalidateCopy id i => exact hv.onChunk_setPartsAndUpdate copies id _
  | deleteCopy id i => exact hv.onChunk_setPartsAndUpdate copies id _
  | delete id => exact hv.chunkDelete id

/-- A run in which no operation throws and every new chunk gets a fresh id. -/
def RunsClean (L : ChunkLayer) : List Op → Prop
  | [] => True
  | op :: ops =>
    (∀ id, op = .new id → id ∉ L.chunks.map Prod.fst) ∧ (L.step copies op).2 ≠ .chunklost ∧
      RunsClean (L.step copies op).1 ops

/-- `RunsClean` is decided along the run. -/
instance instDecidableRunsClean : ∀ (L : ChunkLayer) (ops : List Op), Decidable (L.RunsClean copies ops)
  | _, [] => isTrue trivial
  | L, op :: ops =>
    have := instDecidableRunsClean (L.step copies op).1 ops
    have : Decidable (∀ id, op = .new id → id ∉ L.chunks.map Prod.fst) :=
      match op with
      | .new id => decidable_of_iff (id ∉ L.chunks.map Prod.fst) (by simp)
      | .addFile .. | .deleteFile .. | .changeFile .. | .setParts .. | .markCopyAsHavingWrongVersion ..
      | .invalidateCopy .. | .deleteCopy .. | .delete .. => isTrue fun _ h => by cases h
    inferInstanceAs (Decidable (_ ∧ _ ∧ _))

/-- **Over a run in which nothing throws, the statistics stay exact**: from a valid
table, every run of chunk operations in which no method throws and every new chunk
gets a fresh id leaves `count` the number of chunks and every counter the tally of
the chunks' contributions. -/
theorem stats_exact_over_clean_runs (hv : L.Valid) (ops : List Op) (hclean : L.RunsClean copies ops) :
    (L.run copies ops).1.Valid := by
  induction ops generalizing L with
  | nil => exact hv
  | cons op ops ih =>
    obtain ⟨hfresh, hok, hrest⟩ := hclean
    exact ih (hv.step copies op hfresh hok) hrest

/-- What `ChunkCopiesCalculator` answers when every valid part is a full copy and
one copy is expected. -/
def countCopies : List GoalCounter → List ChunkPart → CopiesReport :=
  fun _ parts => ⟨(parts.filter ChunkPart.isValid).length, .safe, 0, 0, 1⟩

/-- A chunk's life: created, added to a file, given two copies, moved to another goal,
one copy invalidated, a second chunk created, the file removed and the chunk deleted. -/
def chunkLife : List Op :=
  [.new 1, .addFile 1 2, .setParts 1 [⟨1, 0, 7, .valid⟩, ⟨1, 0, 8, .valid⟩], .changeFile 1 2 3,
    .invalidateCopy 1 0, .new 2, .deleteFile 1 3, .delete 1]

theorem chunkLife_stats_exact :
    empty.Valid ∧ empty.RunsClean countCopies chunkLife ∧ (empty.run countCopies chunkLife).1.Valid := by
  have hclean : empty.RunsClean countCopies chunkLife := by decide
  exact ⟨empty_valid, hclean, stats_exact_over_clean_runs countCopies empty_valid chunkLife hclean⟩

end Run

/-! ## A removal that throws -/

/-- `chunk_new(1, …)`, then `chunk_delete_file(1, 1)` although no file with goal 1
has the chunk: `removeFileWithGoal` takes the chunk out of the statistics, then
`ChunkGoalCounters::removeFile` throws and `chunk_delete_file_int` returns
`LIZARDFS_ERROR_CHUNKLOST`. The chunk is still in the table, its counters and
cached values unchanged, but its entry of `allFullChunkCopies` is back to 0
although it holds one chunk. When the chunk loop deletes the unused chunk,
`freeStats` takes it out once more and the entry wraps to `2 ^ 64 - 1`. This
holds whatever `ChunkCopiesCalculator` answers. -/
theorem failed_file_removal_drops_chunk_from_stats (copies : List GoalCounter → List ChunkPart → CopiesReport) :
    let fresh := StatChunk.cleared.refresh copies
    let r₁ := empty.run copies [.new 1, .deleteFile 1 1]
    let r₂ := empty.run copies [.new 1, .deleteFile 1 1, .delete 1]
    r₁.2 = [.ok, .chunklost] ∧ r₁.1.find 1 = some fresh ∧ r₁.1.stats.counters fresh.matrixKey = 0 ∧
      ¬ r₁.1.StatsExact ∧ r₂.1.chunks = [] ∧ r₂.1.stats.counters fresh.matrixKey = 18446744073709551615 := by
  intro fresh r₁ r₂
  -- a chunk with no goal counters is counted in its matrix entry only
  have hkeys : fresh.statKeys = [fresh.matrixKey] := rfl
  -- `chunk_new` counts the chunk; the failed removal takes it out and keeps it
  have hr₁ : r₁ = (⟨[(1, fresh)], (({ count := 1, counters := fun _ => 0 } : ChunkStats).addToStats fresh).removeFromStats fresh⟩,
      [.ok, .chunklost]) := rfl
  have hr₂ : r₂.1 = r₁.1.chunkDelete 1 := rfl
  have hzero : r₁.1.stats.counters fresh.matrixKey = 0 := by
    rw [hr₁]
    simp only [ChunkStats.counters_removeFromStats, ChunkStats.counters_addToStats, hkeys,
      List.count_singleton_self]
    decide
  refine ⟨by rw [hr₁], by rw [hr₁]; rfl, hzero, fun ⟨_, hexact⟩ => ?_, by rw [hr₂, hr₁]; rfl, ?_⟩
  · -- the exact counter would be the one live chunk
    have h := hexact fresh.matrixKey
    rw [hzero, hr₁, CounterTable.tally_cons, hkeys, List.count_singleton_self, CounterTable.tally_nil] at h
    exact absurd h (by decide)
  · -- `freeStats` takes the chunk out a second time
    rw [hr₂]
    have hfind : r₁.1.find 1 = some fresh := by rw [hr₁]; rfl
    simp only [ChunkLayer.chunkDelete, hfind, ChunkStats.counters_removeFromStats, hzero, hkeys,
      List.count_singleton_self]
    decide

end ChunkLayer

end LizardFs
