import Mathlib
import LizardFs.Common.Status
import LizardFs.Lib.PartitionPoint
import LizardFs.Lib.XorFold

/-!
# The master's chunk table

Model of the chunk metadata of `src/master/chunks.cc` that a write or a truncation
changes, and of the three functions that change it:

* `chunkMultiModify` — `chunk_multi_modify`, run by the master for a write;
* `chunkMultiTruncate` — `chunk_multi_truncate`, run by the master for a
  truncation inside a chunk;
* `chunkApplyModification` — `chunk_apply_modification`, what a shadow master (or
  metarestore) runs when it replays the changelog entry of either.

A chunk keeps the fields that enter the metadata (`chunkid`, `version`, `lockid`,
`lockedto`, the goal counters, the stored `checksum`) and the two master-only
fields the master's decisions read (`needverincrease`, `operation`). Its parts and
the chunkservers are not modelled: what the master learns from them is a
`ChunkEnv`. The hash table `chunkhash` is a function from ids, as `chunk_find`
sees it; the background recalculation of the checksum (`chunksChecksumRecalculated`)
is not modelled.
-/

namespace LizardFs

/-! ## Goal counters (`chunk_goal_counters.cc`) -/

/-- `ChunkGoalCounters::GoalCounter`: how many files with a goal share the chunk. -/
structure GoalCounter where
  goal : Nat
  count : Nat
  deriving DecidableEq, Repr

namespace GoalCounters

/-- `GoalId::isValid`: goal ids run from `kMin = 1` to `kMax = 40`. -/
def isValidGoal (goal : Nat) : Bool := decide (1 ≤ goal ∧ goal ≤ 40)

/-- The `std::lower_bound` of `goal` in the counters, ordered by goal. -/
def lowerBound (cs : List GoalCounter) (goal : Nat) : Nat :=
  partitionPoint (fun c => decide (c.goal < goal)) cs

/-- `ChunkGoalCounters::addFile`: count one more file with `goal`; a counter that
would pass 255 starts a new one in front of it. The `compact_vector` never fills
up (its capacity is at least `2 ^ 32 - 1` counters), so that check is left out. -/
def addFile (cs : List GoalCounter) (goal : Nat) : Except String (List GoalCounter) :=
  if !isValidGoal goal then .error "Trying to add non-existent goal"
  else
    let i := lowerBound cs goal
    match cs[i]? with
    | some c =>
      if c.goal ≠ goal ∨ c.count = 255 then .ok (cs.insertIdx i ⟨goal, 1⟩)
      else .ok (cs.set i { c with count := c.count + 1 })
    | none => .ok (cs.insertIdx i ⟨goal, 1⟩)

/-- `ChunkGoalCounters::removeFile`: count one file with `goal` less. -/
def removeFile (cs : List GoalCounter) (goal : Nat) : Except String (List GoalCounter) :=
  let i := lowerBound cs goal
  match cs[i]? with
  | some c =>
    if c.goal ≠ goal then .error "Trying to remove non-existent goal"
    else if c.count - 1 = 0 then .ok (cs.eraseIdx i)
    else .ok (cs.set i { c with count := c.count - 1 })
  | none => .error "Trying to remove non-existent goal"

/-- `ChunkGoalCounters::changeFileGoal`: `removeFile(prevGoal)`, then
`addFile(newGoal)`. The counters it leaves, and the exception it throws: when
`addFile` throws, the file with `prevGoal` is already gone. -/
def changeFileGoal (cs : List GoalCounter) (prevGoal newGoal : Nat) : List GoalCounter × Option String :=
  match removeFile cs prevGoal with
  | .error e => (cs, some e)
  | .ok cs' =>
    match addFile cs' newGoal with
    | .error e => (cs', some e)
    | .ok cs'' => (cs'', none)

/-- `ChunkGoalCounters::fileCount`. -/
def fileCount (cs : List GoalCounter) : Nat := (cs.map (·.count)).sum

/-- `ChunkGoalCounters::highestIdGoal`: the goal of the last counter. -/
def highestIdGoal (cs : List GoalCounter) : Nat := (cs.getLast?.map (·.goal)).getD 0

end GoalCounters

/-! ## Chunks -/

/-- `Chunk::operation`. -/
inductive ChunkOperation where
  | none
  | create
  | setVersion
  | duplicate
  | truncate
  | duptrunc
  deriving DecidableEq, Repr

/-- The fields of a `Chunk` that this model keeps. -/
structure Chunk where
  chunkid : Nat
  version : UInt32
  lockid : UInt32
  lockedto : UInt32
  goalCounters : List GoalCounter
  /-- the checksum last computed by `chunk_update_checksum` -/
  checksum : UInt64
  /-- master only: the next write must increase the version -/
  needverincrease : Bool
  /-- master only: the chunkserver operation in progress -/
  operation : ChunkOperation
  deriving DecidableEq, Repr

namespace Chunk

/-- `chunk_new(chunkid, version)` on a chunk just `clear()`ed. -/
def new (chunkid : Nat) (version : UInt32) : Chunk :=
  ⟨chunkid, version, 0, 0, [], 0, true, .none⟩

/-- `Chunk::fileCount()`. -/
def fileCount (c : Chunk) : Nat := GoalCounters.fileCount c.goalCounters

/-- `Chunk::highestIdGoal()`. -/
def highestIdGoal (c : Chunk) : Nat := GoalCounters.highestIdGoal c.goalCounters

/-- `Chunk::isLocked()`: the lock holds until `lockedto`. -/
def isLocked (c : Chunk) (now : UInt32) : Bool := decide (now ≤ c.lockedto)

end Chunk

/-! ## Checksums (`hashfn.h`) -/

/-- `hash32mult`, Thomas Wang's 32-bit hash with one multiplication. -/
def hash32mult (key : UInt32) : UInt32 :=
  let key : UInt32 := (key ^^^ (61 : UInt32)) ^^^ (key >>> 16)
  let key : UInt32 := key + (key <<< 3)
  let key : UInt32 := key ^^^ (key >>> 4)
  let key : UInt32 := key * 0x27d4eb2d
  key ^^^ (key >>> 15)

/-- `hash64`, Thomas Wang's 64-bit hash. -/
def hash64 (key : UInt64) : UInt64 :=
  let key : UInt64 := (~~~key) + (key <<< 21)
  let key : UInt64 := key ^^^ (key >>> 24)
  let key : UInt64 := (key + (key <<< 3)) + (key <<< 8)
  let key : UInt64 := key ^^^ (key >>> 14)
  let key : UInt64 := (key + (key <<< 2)) + (key <<< 4)
  let key : UInt64 := key ^^^ (key >>> 28)
  key + (key <<< 31)

/-- `hashCombineRaw(seed, hash)`. -/
def hashCombineRaw (seed hash : UInt64) : UInt64 :=
  seed ^^^ (hash + (11400714819323198485 : UInt64) + (seed <<< 6) + (seed >>> 2))

/-- `chunk_checksum(const Chunk *)`: `hashCombine` of the id (`uint64_t`), the
version and `lockedto` (`uint32_t`), the highest goal (`uint8_t`) and the file
count (`uint32_t`); a chunk of no file counts as absent. -/
def chunkChecksum (c : Chunk) : UInt64 :=
  if c.fileCount = 0 then 0
  else
    [hash64 c.chunkid.toUInt64, (hash32mult c.version).toUInt64, (hash32mult c.lockedto).toUInt64,
      (hash32mult c.highestIdGoal.toUInt32).toUInt64, (hash32mult c.fileCount.toUInt32).toUInt64].foldl
      hashCombineRaw 64517419147637

/-- `CHECKSUMSEED` of the chunk table. -/
def chunksChecksumSeed : UInt64 := 78765491511151883

/-- `LOCKTIMEOUT`, seconds. -/
def lockTimeout : UInt32 := 120

/-! ## The table -/

/-- `gChunksMetadata`: the chunks by id, the next id to hand out, and the checksum
of all chunks kept up to date by `chunk_update_checksum`. -/
structure ChunksMetadata where
  chunks : Nat → Option Chunk
  nextchunkid : Nat
  chunksChecksum : UInt64

namespace ChunksMetadata

variable (t : ChunksMetadata)

/-- `chunk_find(chunkid)`. -/
def find (id : Nat) : Option Chunk := t.chunks id

/-- Write the fields of the chunk object at `id` in place, checksum untouched. -/
def put (id : Nat) (c : Chunk) : ChunksMetadata := { t with chunks := Function.update t.chunks id (some c) }

/-- `chunk_update_checksum(c)`: replace the chunk's stored checksum by a fresh one,
in the table's checksum too. -/
def updateChecksum (id : Nat) : ChunksMetadata :=
  match t.chunks id with
  | none => t
  | some c =>
    let fresh := chunkChecksum c
    { t with chunks := Function.update t.chunks id (some { c with checksum := fresh }),
             chunksChecksum := t.chunksChecksum ^^^ c.checksum ^^^ fresh }

/-- Change fields of the chunk object at `id`, then `chunk_update_checksum` it. -/
def store (id : Nat) (c : Chunk) : ChunksMetadata := (t.put id c).updateChecksum id

/-- Change the fields of the chunk `id` by `f`, then `chunk_update_checksum` it. -/
def modifyChunk (id : Nat) (f : Chunk → Chunk) : ChunksMetadata :=
  match t.chunks id with
  | none => t
  | some c => t.store id (f c)

/-- `chunk_new(gChunksMetadata->nextchunkid++, version)`: the new chunk's id. -/
def chunkNew (version : UInt32) : ChunksMetadata :=
  ({ t with nextchunkid := t.nextchunkid + 1 }).store t.nextchunkid (Chunk.new t.nextchunkid version)

/-- `chunk_add_file_int(c, goal)`; on a bad goal the chunk is left as it is. -/
def addFileInt (id goal : Nat) : ChunksMetadata × Status :=
  match t.chunks id with
  | none => (t, .nochunk)
  | some c =>
    match GoalCounters.addFile c.goalCounters goal with
    | .ok cs => (t.store id { c with goalCounters := cs }, .ok)
    | .error _ => (t, .chunklost)

/-- `chunk_delete_file_int(c, goal)`. -/
def deleteFileInt (id goal : Nat) : ChunksMetadata × Status :=
  match t.chunks id with
  | none => (t, .nochunk)
  | some c =>
    match GoalCounters.removeFile c.goalCounters goal with
    | .ok cs => (t.store id { c with goalCounters := cs }, .ok)
    | .error _ => (t, .chunklost)

/-- Set the `operation` of chunk `id` (it does not enter the checksum). -/
def setOperation (id : Nat) (op : ChunkOperation) : ChunksMetadata :=
  match t.chunks id with
  | none => t
  | some c => t.put id { c with operation := op }

/-- Stamp the lock on chunk `id`: `lockedto = now + LOCKTIMEOUT`, the lock id, and
`chunk_update_checksum`, as every successful modification ends. -/
def stampLock (id : Nat) (now lockid : UInt32) : ChunksMetadata :=
  t.modifyChunk id fun c => { c with lockedto := now + lockTimeout, lockid := lockid }

@[simp] theorem put_chunks (id : Nat) (c : Chunk) :
    (t.put id c).chunks = Function.update t.chunks id (some c) := rfl

@[simp] theorem put_nextchunkid (id : Nat) (c : Chunk) : (t.put id c).nextchunkid = t.nextchunkid := rfl

@[simp] theorem updateChecksum_nextchunkid (id : Nat) : (t.updateChecksum id).nextchunkid = t.nextchunkid := by
  unfold updateChecksum
  split <;> rfl

@[simp] theorem store_nextchunkid (id : Nat) (c : Chunk) : (t.store id c).nextchunkid = t.nextchunkid := by
  simp only [store, updateChecksum_nextchunkid, put_nextchunkid]

@[simp] theorem modifyChunk_nextchunkid (id : Nat) (f : Chunk → Chunk) :
    (t.modifyChunk id f).nextchunkid = t.nextchunkid := by
  unfold modifyChunk
  split
  · rfl
  · exact t.store_nextchunkid id _

@[simp] theorem stampLock_nextchunkid (id : Nat) (now lockid : UInt32) :
    (t.stampLock id now lockid).nextchunkid = t.nextchunkid :=
  t.modifyChunk_nextchunkid id _

/-- Only `chunk_new` moves `nextchunkid`, by one. -/
@[simp] theorem chunkNew_nextchunkid (version : UInt32) : (t.chunkNew version).nextchunkid = t.nextchunkid + 1 :=
  store_nextchunkid _ _ _

@[simp] theorem addFileInt_nextchunkid (id goal : Nat) : (t.addFileInt id goal).1.nextchunkid = t.nextchunkid := by
  unfold addFileInt
  split
  · rfl
  · split
    · exact t.store_nextchunkid id _
    · rfl

@[simp] theorem deleteFileInt_nextchunkid (id goal : Nat) :
    (t.deleteFileInt id goal).1.nextchunkid = t.nextchunkid := by
  unfold deleteFileInt
  split
  · rfl
  · split
    · exact t.store_nextchunkid id _
    · rfl

@[simp] theorem setOperation_nextchunkid (id : Nat) (op : ChunkOperation) :
    (t.setOperation id op).nextchunkid = t.nextchunkid := by
  unfold setOperation
  split <;> rfl

/-- `chunk_checksum(ChecksumMode::kDefault)`: the stored checksum of the chunks,
with `nextchunkid` added. -/
def checksumDefault : UInt64 := 46586918175221 ^^^ t.nextchunkid.toUInt64 ^^^ t.chunksChecksum

end ChunksMetadata

/-! ## The master's decisions and the shadow's replay -/

/-- What `chunk_multi_modify` and `chunk_multi_truncate` learn from outside the
chunk table: the clock, the chunk's parts, the chunkservers, the random lock id. -/
structure ChunkEnv where
  /-- `eventloop_time()` -/
  now : UInt32
  /-- `Chunk::isWritable()` of each chunk's parts -/
  writable : Nat → Bool
  /-- `ChunkCopiesCalculator::isSafeEnoughToWrite(gRedundancyLevel)` of each chunk's parts -/
  safeEnoughToWrite : Nat → Bool
  /-- `matocsserv_getservers_for_new_chunk` found chunkservers -/
  newChunkServers : Bool
  /-- and they are safe enough to write -/
  newChunkSafe : Bool
  /-- with no servers for a new chunk: some chunkserver is connected and the master
  has run for ten minutes, so the error is `NOSPACE` -/
  noSpace : Bool
  /-- some part of each chunk is a parity part -/
  hasParityPart : Nat → Bool
  /-- `rnd_ranged<uint32_t>(0xFFFFFFF0)` -/
  randomLockid : Fin 0xFFFFFFF0

/-- The range `rnd_ranged` draws a lock id from is not empty. -/
instance neZero_lockidRange : NeZero (0xFFFFFFF0 : Nat) := ⟨by decide⟩

/-- The copy-on-write step of both master functions for a chunk shared by several
files: a new chunk of version 1 (with `operation` set to `op`) takes the place of
`ochunkid` in the file of goal `goal`. Returns the table and the new chunk's id. -/
def ChunksMetadata.duplicate (t : ChunksMetadata) (ochunkid goal : Nat) (op : ChunkOperation) :
    ChunksMetadata × Nat :=
  let id := t.nextchunkid
  let t₁ := (t.chunkNew 1).setOperation id op
  (((t₁.deleteFileInt ochunkid goal).1.addFileInt id goal).1, id)

/-- The copy is the chunk `nextchunkid` names before it, and the counter moves past it. -/
theorem ChunksMetadata.duplicate_nextchunkid (t : ChunksMetadata) (ochunkid goal : Nat) (op : ChunkOperation) :
    (t.duplicate ochunkid goal op).1.nextchunkid = t.nextchunkid + 1 ∧
      (t.duplicate ochunkid goal op).2 = t.nextchunkid := by
  simp only [ChunksMetadata.duplicate, ChunksMetadata.addFileInt_nextchunkid,
    ChunksMetadata.deleteFileInt_nextchunkid, ChunksMetadata.setOperation_nextchunkid,
    ChunksMetadata.chunkNew_nextchunkid, and_self]

/-- The checks and the copy-on-write decision of `chunk_multi_modify`: the table,
the chunk that will be written and `opflag` (`1` when the chunk is new or gets a
new version). -/
def chooseModify (env : ChunkEnv) (t : ChunksMetadata) (ochunkid : Nat) (lockid : UInt32)
    (goal : Nat) (quotaExceeded : Bool) : Except Status (ChunksMetadata × Nat × Nat) :=
  if ochunkid = 0 then
    -- a new chunk
    if quotaExceeded then .error .quota
    else if !env.newChunkServers then .error (if env.noSpace then .nospace else .nochunkservers)
    else if !env.newChunkSafe then .error .nochunkservers
    else
      let id := t.nextchunkid
      .ok (((t.chunkNew 1).setOperation id .create).addFileInt id goal |>.1, id, 1)
  else
    match t.find ochunkid with
    | none => .error .nochunk
    | some oc =>
      if lockid ≠ 0 ∧ lockid ≠ oc.lockid then
        .error (if oc.lockid = 0 ∨ oc.lockedto = 0 then .notlocked else .wronglockid)
      else if lockid = 0 ∧ oc.isLocked env.now = true then .error .locked
      else if !env.writable ochunkid then .error .chunklost
      else if !env.safeEnoughToWrite ochunkid then .error .nochunkservers
      else if oc.fileCount = 1 then
        -- the file owns the chunk: write in place
        if oc.operation ≠ .none then .error .chunkbusy
        else if oc.needverincrease then
          .ok (t.put ochunkid { oc with version := oc.version + 1, operation := .setVersion }, ochunkid, 1)
        else .ok (t, ochunkid, 0)
      else if oc.fileCount = 0 then .error .chunklost
      else if quotaExceeded then .error .quota
      else
        let (t₁, id) := t.duplicate ochunkid goal .duplicate
        .ok (t₁, id, 1)

/-- The lock id a write takes: the client's, or a fresh one (`1` when
`usedummylockid`, a random one above 1 otherwise). -/
def ChunkEnv.writeLockid (env : ChunkEnv) (lockid : UInt32) (usedummylockid : Bool) : UInt32 :=
  if lockid = 0 then (if usedummylockid then 1 else 2 + env.randomLockid.val.toUInt32) else lockid

/-- `chunk_multi_modify(ochunkid, lockid, goal, usedummylockid, quota_exceeded, ...)`:
the table, the lock id, `opflag` and the id of the chunk to write. -/
def chunkMultiModify (env : ChunkEnv) (t : ChunksMetadata) (ochunkid : Nat) (lockid : UInt32)
    (goal : Nat) (usedummylockid quotaExceeded : Bool) :
    Except Status (ChunksMetadata × UInt32 × Nat × Nat) :=
  (chooseModify env t ochunkid lockid goal quotaExceeded).map fun (t₁, id, opflag) =>
    let lockid' := env.writeLockid lockid usedummylockid
    (t₁.stampLock id env.now lockid', lockid', opflag, id)

/-- The copy-on-write decision of `chunk_multi_truncate`, after its checks. -/
def chooseTruncate (t : ChunksMetadata) (oc : Chunk) (ochunkid goal : Nat) (quotaExceeded : Bool) :
    Except Status (ChunksMetadata × Nat) :=
  if oc.fileCount = 1 then
    if oc.operation ≠ .none then .error .chunkbusy
    else .ok (t.put ochunkid { oc with version := oc.version + 1, operation := .truncate }, ochunkid)
  else if oc.fileCount = 0 then .error .chunklost
  else if quotaExceeded then .error .quota
  else .ok (t.duplicate ochunkid goal .duptrunc)

/-- `chunk_multi_truncate(ochunkid, lockid, length, goal, denyTruncatingParityParts,
quota_exceeded, ...)`: the table and the id of the truncated chunk. The new length
only goes to the chunkservers. -/
def chunkMultiTruncate (env : ChunkEnv) (t : ChunksMetadata) (ochunkid : Nat) (lockid : UInt32)
    (goal : Nat) (denyTruncatingParityParts quotaExceeded : Bool) :
    Except Status (ChunksMetadata × Nat) :=
  match t.find ochunkid with
  | none => .error .nochunk
  | some oc =>
    if !env.writable ochunkid then .error .chunklost
    else if oc.isLocked env.now = true ∧ (lockid = 0 ∨ lockid ≠ oc.lockid) then .error .locked
    else if denyTruncatingParityParts ∧ env.hasParityPart ochunkid = true then .error .notpossible
    else
      (chooseTruncate t oc ochunkid goal quotaExceeded).map fun (t₁, id) =>
        (t₁.stampLock id env.now lockid, id)

/-- The copy-on-write decision of `chunk_apply_modification`. -/
def chooseApply (t : ChunksMetadata) (oldChunkId goal : Nat) (doIncreaseVersion : Bool) :
    Except Status (ChunksMetadata × Nat) :=
  if oldChunkId = 0 then
    let id := t.nextchunkid
    .ok ((t.chunkNew 1).addFileInt id goal |>.1, id)
  else
    match t.find oldChunkId with
    | none => .error .nochunk
    | some oc =>
      if oc.fileCount = 0 then .error .chunklost
      else if oc.fileCount = 1 then
        .ok (if doIncreaseVersion then t.put oldChunkId { oc with version := oc.version + 1 } else t,
          oldChunkId)
      else
        let id := t.nextchunkid
        .ok ((((t.chunkNew 1).deleteFileInt oldChunkId goal).1.addFileInt id goal).1, id)

/-- `chunk_apply_modification(ts, oldChunkId, lockid, goal, doIncreaseVersion, ...)`:
the shadow's replay of both; the table and the id of the chunk modified. -/
def chunkApplyModification (t : ChunksMetadata) (ts : UInt32) (oldChunkId : Nat) (lockid : UInt32)
    (goal : Nat) (doIncreaseVersion : Bool) : Except Status (ChunksMetadata × Nat) :=
  (chooseApply t oldChunkId goal doIncreaseVersion).map fun (t₁, id) => (t₁.stampLock id ts lockid, id)

end LizardFs
