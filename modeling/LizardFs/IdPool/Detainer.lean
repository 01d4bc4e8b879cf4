import Mathlib
import LizardFs.IdPool.Pool

/-!
# `IdPoolDetainer`: an id pool that holds released ids back for a while

Model of `src/master/id_pool_detainer.h`, the pool of inode numbers of the
master. It is an `IdPool` whose released ids do not go back to the base pool at
once: they wait in *detention*, a list of buckets, each holding the ids
released during `bucket_time` from the bucket's time stamp on. A bucket is
emptied back into the base pool by `releaseDetained` once
`bucket.ts + bucket_time + detain_time < ts`; `forceReleaseDetained` empties the
oldest buckets early when the detention is full, and `acquire` takes the oldest
detained id when the base pool is exhausted. A detained id stays *acquired* in
the base pool.

A bucket's `SparseBitset` is the Judy-array implementation (a set of ids that
`begin()` walks in increasing order): a sorted list here. The other
implementation, over a `std::deque`, keeps insertion order and duplicates and is
not modelled. `TimeType` is `uint32_t` in the master (`UInt32` here, so time
arithmetic wraps as in the source); `detained_count_` and `size()` are
`std::size_t`.
-/

namespace LizardFs

/-- `detail::SparseBitset` (the Judy variant): a set of ids, kept sorted. -/
abbrev SparseBitset := List Nat

namespace SparseBitset

/-- Insert into a sorted list. -/
def insertSorted : List Nat → Nat → List Nat
  | [], x => [x]
  | y :: ys, x => if x ≤ y then x :: y :: ys else y :: insertSorted ys x

/-- `set(pos)`: `true` when `pos` was not in the set. -/
def set (s : SparseBitset) (pos : Nat) : SparseBitset × Bool :=
  if pos ∈ s then (s, false) else (insertSorted s pos, true)

/-- `unset(pos)`: `true` when `pos` was in the set. -/
def unset (s : SparseBitset) (pos : Nat) : SparseBitset × Bool :=
  if pos ∈ s then (s.erase pos, true) else (s, false)

end SparseBitset

/-- `BucketType`: the ids detained from `ts` on. -/
structure DetentionBucket where
  /-- time stamp of the bucket's first insertion -/
  ts : UInt32
  /-- the detained ids -/
  data : SparseBitset
  deriving DecidableEq, Repr

/-- The state of an `IdPoolDetainer<IDT, uint32_t>`. -/
structure IdPoolDetainer where
  /-- the base `IdPool` -/
  base : IdPool
  /-- `detention_`: the buckets, oldest first -/
  detention : List DetentionBucket
  /-- `detain_time_` -/
  detainTime : UInt32
  /-- `bucket_time_` -/
  bucketTime : UInt32
  /-- `max_detention_size_` -/
  maxDetentionSize : Nat
  /-- `detained_count_` -/
  detainedCount : Nat
  /-- `release_count_` -/
  releaseCount : Nat
  deriving DecidableEq, Repr

namespace IdPoolDetainer

/-- `IdPoolDetainer(detain_time, bucket_count, max_size, max_detention_size,
block_size, cache_size, release_count)`. -/
def new (detainTime bucketCount : UInt32) (maxSize maxDetentionSize : Nat)
    (blockSize : Nat := 8 * 1024) (cacheSize : Nat := 1024) (releaseCount : Nat := 10) :
    IdPoolDetainer :=
  ⟨IdPool.new maxSize blockSize cacheSize, [], detainTime, detainTime / bucketCount,
    maxDetentionSize, 0, releaseCount⟩

/-- Take the smallest id of the oldest bucket out of detention (dropping the bucket
when it is left empty), and give it to `k`. The common part of `acquire`,
`releaseDetained` and `forceReleaseDetained`. -/
def popOldest (p : IdPoolDetainer) : Option (IdPoolDetainer × Nat) :=
  match p.detention with
  | [] => none
  | bucket :: rest =>
    let nid := bucket.data.headD 0
    let (data, removed) := bucket.data.unset nid
    let detention := if data.isEmpty then rest else { bucket with data := data } :: rest
    some ({ p with
      detention := detention
      detainedCount := if removed then p.detainedCount - 1 else p.detainedCount }, nid)

/-- `releaseDetained(ts, max_count)`: move at most `max_count` ids of the buckets
whose time is up back to the base pool, oldest first. -/
def releaseDetained (p : IdPoolDetainer) (ts : UInt32) : Nat → IdPoolDetainer
  | 0 => p
  | maxCount + 1 =>
    match p.detention with
    | [] => p
    | bucket :: _ =>
      if bucket.ts + p.bucketTime + p.detainTime ≥ ts then p else
      match p.popOldest with
      | none => p
      | some (q, nid) => releaseDetained { q with base := (q.base.release nid).1 } ts maxCount

/-- `forceReleaseDetained(count)`: move `count` ids back to the base pool, oldest
first, whatever their time. -/
def forceReleaseDetained (p : IdPoolDetainer) : Nat → IdPoolDetainer
  | 0 => p
  | count + 1 =>
    match p.popOldest with
    | none => p
    | some (q, nid) => forceReleaseDetained { q with base := (q.base.release nid).1 } count

/-- `insert(id, ts)`: put `id` into the newest bucket, opening a new one when the
newest is older than `bucket_time`. -/
def insert (p : IdPoolDetainer) (id : Nat) (ts : UInt32) : IdPoolDetainer :=
  let detention : List DetentionBucket :=
    match p.detention.getLast? with
    | some back => if back.ts + p.bucketTime < ts then p.detention ++ [⟨ts, []⟩] else p.detention
    | none => [⟨ts, []⟩]
  let back := detention.getLastD (⟨ts, []⟩ : DetentionBucket)
  let (data, added) := back.data.set id
  { p with
    detention := detention.dropLast ++ [{ back with data := data }]
    detainedCount := if added then p.detainedCount + 1 else p.detainedCount }

/-- Whether some bucket holds `id` (the `skip_check` loops). -/
def isDetained (p : IdPoolDetainer) (id : Nat) : Bool := p.detention.any fun b => id ∈ b.data

/-- `acquire()`: an id of the base pool, else the oldest detained id; `nullId`
when both are empty. `none` is the exception of the base pool. -/
def acquireNow (p : IdPoolDetainer) : Option (IdPoolDetainer × Nat) := do
  let (base, id) ← p.base.acquire
  let p := { p with base := base }
  if id ≠ IdPool.nullId then return (p, id)
  match p.popOldest with
  | none => return (p, id)
  | some (q, nid) => return (q, nid)

/-- `acquire(ts)`. -/
def acquire (p : IdPoolDetainer) (ts : UInt32) : Option (IdPoolDetainer × Nat) :=
  (p.releaseDetained ts p.releaseCount).acquireNow

/-- `release(id, ts, skip_check)`: detain an acquired id. -/
def release (p : IdPoolDetainer) (id : Nat) (ts : UInt32) (skipCheck : Bool := false) :
    IdPoolDetainer × Bool :=
  let p := p.releaseDetained ts p.releaseCount
  if id = IdPool.nullId ∨ p.base.checkIfAvailable id then (p, false)
  else if !skipCheck ∧ p.isDetained id then (p, false)
  else
    let p := if p.detainedCount ≥ p.maxDetentionSize then
        p.forceReleaseDetained (p.detainedCount - p.maxDetentionSize + 1) else p
    (p.insert id ts, true)

/-- `markAsAcquired(id)`: take a given id from the base pool, or out of the first
bucket holding it. -/
def markAsAcquiredNow (p : IdPoolDetainer) (id : Nat) : IdPoolDetainer × Bool :=
  let (base, ok) := p.base.markAsAcquired id
  let p := { p with base := base }
  if ok then (p, true) else
  match p.detention.findIdx? (fun b => id ∈ b.data) with
  | none => (p, false)
  | some i =>
    let bucket := p.detention.getD i ⟨0, []⟩
    let data := (bucket.data.unset id).1
    ({ p with
        detention := if data.isEmpty then p.detention.eraseIdx i
          else p.detention.set i { bucket with data := data }
        detainedCount := p.detainedCount - 1 }, true)

/-- `markAsAcquired(id, ts)`. -/
def markAsAcquired (p : IdPoolDetainer) (id : Nat) (ts : UInt32) : IdPoolDetainer × Bool :=
  (p.releaseDetained ts p.releaseCount).markAsAcquiredNow id

/-- `detain(id, ts, overcrowd, skip_check)`: take a free id straight into detention. -/
def detain (p : IdPoolDetainer) (id : Nat) (ts : UInt32) (overcrowd : Bool := false)
    (skipCheck : Bool := false) : IdPoolDetainer × Bool :=
  let p := p.releaseDetained ts p.releaseCount
  if !skipCheck ∧ p.isDetained id then (p, false) else
  let (base, ok) := p.base.markAsAcquired id
  if !ok then ({ p with base := base }, false) else
  let p := { p with base := base }
  let p := if !overcrowd ∧ p.detainedCount ≥ p.maxDetentionSize then
      p.forceReleaseDetained (p.detainedCount - p.maxDetentionSize + 1) else p
  (p.insert id ts, true)

/-- `size()`: `base::size() - detainedCount()` in `std::size_t`. -/
def size (p : IdPoolDetainer) : Nat := (p.base.size + 2 ^ 64 - p.detainedCount) % 2 ^ 64

end IdPoolDetainer

/-! ## Two ways out of the partition -/

namespace Detention

/-- Ids `1 .. 3`, detained for 1000 s in ten buckets of 100 s. -/
def pool : IdPoolDetainer := IdPoolDetainer.new 1000 10 3 100

/-- Acquire id 1 at time 0 and release it 500 s before the `uint32_t` clock wraps. -/
def nearWrap : IdPoolDetainer :=
  let (p, _) := (pool.acquire 0).getD (pool, 0)
  (p.release 1 (2 ^ 32 - 500 : Nat).toUInt32).1

end Detention

/-- `release` accepts an id past `max_size`: `checkIfAvailable` answers *not
available* for it, no bucket holds it, so it is detained and `size()` wraps
below zero. And the expiry test `bucket.ts + bucket_time + detain_time >= ts`
is computed in `uint32_t`: an id released 500 s before the clock wraps is
handed out again one second later. -/
theorem release_accepts_id_outside_pool :
    (Detention.pool.release 4 0).2 = true ∧ (Detention.pool.release 4 0).1.size = 2 ^ 64 - 1 ∧
    (Detention.nearWrap.acquire (2 ^ 32 - 499 : Nat).toUInt32).map Prod.snd = some 1 := by
  decide +kernel

end LizardFs
