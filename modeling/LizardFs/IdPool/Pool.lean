import LizardFs.IdPool.Block
import LizardFs.Lib.Machine

/-!
# `IdPool`: the pool of ids `1 .. max_id`

Model of the class `IdPool` of `src/common/id_pool.h`. The free ids are kept in
two places:

* `cache` — the `std::unordered_set` of ids released recently; their bits in the
  blocks still say *taken*, and `acquire` hands them out first;
* `block` — the bit maps, `blockSize` ids each; `freeList` lists the blocks
  that may still have free bits (it is cleaned lazily, so it may also hold
  exhausted blocks and repeat a block).

The `std::unordered_set` is a list whose head plays `begin()`; the
`std::forward_list` with its `free_list_last_` iterator is a list with
push-front, push-back and pop-front (the iterator only makes push-back cheap).

`Op` and `IdPool.step` turn the four public operations into an event machine,
and `AbsPool` is the abstract set of acquired ids that the class stands for.
-/

namespace LizardFs

/-- The state of an `IdPool<IdType>`; ids are `std::size_t` values. -/
structure IdPool where
  /-- `cache_`: free ids whose block bit is still clear -/
  cache : List Nat
  /-- `block_`: the bit-map blocks -/
  block : List IdPoolBlock
  /-- `free_list_`: blocks that may have free bits, used front first -/
  freeList : List Nat
  /-- `used_count_` -/
  usedCount : Nat
  /-- `max_id_` -/
  maxId : Nat
  /-- `max_cache_size_` -/
  maxCacheSize : Nat
  /-- `max_block_count_` -/
  maxBlockCount : Nat
  /-- `block_size_` -/
  blockSize : Nat
  deriving DecidableEq, Repr

namespace IdPool

/-- `nullId`, the value `acquire` returns when the pool is full. -/
def nullId : Nat := 0

/-- The block `i`, a fresh one past the end (never read there). -/
def blockAt (p : IdPool) (i : Nat) : IdPoolBlock := p.block.getD i (IdPoolBlock.new 0)

/-- Replace block `i`. -/
def setBlock (p : IdPool) (i : Nat) (b : IdPoolBlock) : IdPool := { p with block := p.block.set i b }

/-- `addFreeBlocks(count)`: append `count` blocks, all free, and put them at the
back of the free list; `none` (the `false` of the source) when `count` is not
positive or the pool would exceed `max_block_count_` blocks. The last block is
cut to `max_id_ - block_size_ * index + 1` ids. -/
def addFreeBlocks (p : IdPool) (count : Int) : Option IdPool :=
  if count ≤ 0 ∨ p.block.length + count.toNat > p.maxBlockCount then none
  else some ((List.range count.toNat).foldl (fun q _ =>
    let left := q.maxId - q.blockSize * q.block.length
    { q with
      block := q.block ++ [IdPoolBlock.new (if left < q.blockSize then left + 1 else q.blockSize)]
      freeList := q.freeList ++ [q.block.length] }) p)

/-- The cleaning loop shared by `acquire` and `markAsAcquired`: drop exhausted
blocks from the front of the free list. -/
def dropExhausted (blocks : List IdPoolBlock) : List Nat → List Nat
  | [] => []
  | b :: rest =>
    if (blocks.getD b (IdPoolBlock.new 0)).count > 0 then b :: rest else dropExhausted blocks rest

/-- `acquire()`: a cached id if there is one, else the first free id of the first
block of the free list, else `nullId` when no block can be added. `none` is the
exception of the block's search loop. -/
def acquire (p : IdPool) : Option (IdPool × Nat) :=
  match p.cache with
  | id :: rest => some ({ p with cache := rest, usedCount := p.usedCount + 1 }, id)
  | [] =>
    let p := { p with freeList := dropExhausted p.block p.freeList }
    let p? := if p.freeList = [] then p.addFreeBlocks 1 else some p
    match p? with
    | none => some (p, nullId)
    | some p =>
      let b := p.freeList.headD 0
      match (p.blockAt b).acquire with
      | none => none
      | some (blk, id) =>
        let p := p.setBlock b blk
        let p := if blk.count = 0 then { p with freeList := p.freeList.tail } else p
        some ({ p with usedCount := p.usedCount + 1 }, id + b * p.blockSize)

/-- `release(id)`: give an id back. While the cache has room the id goes to the
cache, after checking that it is neither cached nor free in its block; once the
cache is full it goes to the block's bit map. -/
def release (p : IdPool) (id : Nat) : IdPool × Bool :=
  if id = 0 ∨ id > p.maxId then (p, false) else
  let b := id / p.blockSize
  let bid := id % p.blockSize
  if b ≥ p.block.length then (p, false) else
  if p.cache.length < p.maxCacheSize then
    if id ∈ p.cache then (p, false)
    else if (p.blockAt b).checkIfAvailable bid then (p, false)
    else ({ p with cache := id :: p.cache, usedCount := p.usedCount - 1 }, true)
  else
    let (blk, ok) := (p.blockAt b).release bid
    let p := p.setBlock b blk
    if !ok then (p, false) else
    let p := if blk.count = 1 then { p with freeList := b :: p.freeList } else p
    ({ p with usedCount := p.usedCount - 1 }, true)

/-- `markAsAcquired(id)`: take a given id. A cached id leaves the cache;
otherwise the blocks up to the id's are created if needed and its bit is
cleared. -/
def markAsAcquired (p : IdPool) (id : Nat) : IdPool × Bool :=
  if id ∈ p.cache then ({ p with cache := p.cache.erase id, usedCount := p.usedCount + 1 }, true)
  else
  let b := id / p.blockSize
  let bid := id % p.blockSize
  let p? := if b ≥ p.block.length then p.addFreeBlocks (b + 1 - p.block.length) else some p
  match p? with
  | none => (p, false)
  | some p =>
    let (blk, ok) := (p.blockAt b).markAsAcquired bid
    let p := p.setBlock b blk
    if ok then
      ({ p with usedCount := p.usedCount + 1, freeList := dropExhausted p.block p.freeList }, true)
    else (p, false)

/-- `checkIfAvailable(id)`: whether `id` may be acquired. -/
def checkIfAvailable (p : IdPool) (id : Nat) : Bool :=
  if id = 0 ∨ id > p.maxId then false
  else if id ∈ p.cache then true
  else if id / p.blockSize ≥ p.block.length then true
  else (p.blockAt (id / p.blockSize)).checkIfAvailable (id % p.blockSize)

/-- `size()`. -/
def size (p : IdPool) : Nat := p.usedCount

/-- `IdPool(max_size, block_size, cache_size)`: blocks of a multiple of 64 ids,
a cache of at most `max_size + 1` ids, and id 0 reserved. -/
def new (maxSize : Nat) (blockSize : Nat := 8 * 1024) (cacheSize : Nat := 1024) : IdPool :=
  let blockSize := if maxSize < blockSize then maxSize + 1 else blockSize
  let cacheSize := if maxSize < cacheSize then maxSize + 1 else cacheSize
  let blockSize := wordBits * ((blockSize + wordBits - 1) / wordBits)
  let p : IdPool := ⟨[], [], [], 0, maxSize, cacheSize, maxSize / blockSize + 1, blockSize⟩
  { (p.markAsAcquired 0).1 with usedCount := 0 }

end IdPool

/-! ## The pool as an event machine -/

/-- A call of one of the public operations of `IdPool`. -/
inductive Op where
  | acquire
  | release (id : Nat)
  | markAsAcquired (id : Nat)
  | checkIfAvailable (id : Nat)
  deriving DecidableEq, Repr

/-- What a call returns: an id, or a flag. -/
inductive Ret where
  | id (n : Nat)
  | flag (b : Bool)
  deriving DecidableEq, Repr

namespace IdPool

/-- One call, with what it returns. -/
def call (p : IdPool) : Op → Option (IdPool × Ret)
  | .acquire => p.acquire.map fun (q, n) => (q, .id n)
  | .release id => let (q, b) := p.release id; some (q, .flag b)
  | .markAsAcquired id => let (q, b) := p.markAsAcquired id; some (q, .flag b)
  | .checkIfAvailable id => some (p, .flag (p.checkIfAvailable id))

/-- The pool together with the answers given so far, newest last. -/
def step (s : IdPool × List Ret) (o : Op) : Option (IdPool × List Ret) :=
  (s.1.call o).map fun (q, r) => (q, s.2 ++ [r])

end IdPool

/-! ## The abstract pool -/

/-- The specification of the pool: the set of acquired ids, with `maxId`. -/
structure AbsPool where
  /-- the acquired ids -/
  acquired : List Nat
  /-- `max_id` -/
  maxId : Nat
  deriving DecidableEq, Repr

namespace AbsPool

/-- What `release id` should answer: whether `id` is acquired. -/
def releaseOk (a : AbsPool) (id : Nat) : Bool := id ∈ a.acquired

/-- What `checkIfAvailable id` should answer. -/
def available (a : AbsPool) (id : Nat) : Bool := 1 ≤ id ∧ id ≤ a.maxId ∧ id ∉ a.acquired

end AbsPool

/-! ## A cached id released twice -/

/-- The run of the failing input: two ids acquired, id 1 released twice, two
more acquisitions. -/
def doubleReleaseOps : List Op :=
  [.acquire, .acquire, .release 1, .release 1, .acquire, .acquire]

/-- On a pool of ids `1 .. 3` with a cache of one entry, the first `release 1`
puts 1 in the cache; the cache is then full, so the second goes to the block's
bit map, which still says *taken*, and is accepted although 1 is no longer
acquired. Id 1 is then free twice, and the next two calls of `acquire` both
return it. -/
theorem release_of_cached_id_accepted :
    (Machine.run IdPool.step (IdPool.new 3 8192 1, []) doubleReleaseOps).map Prod.snd =
      some [.id 1, .id 2, .flag true, .flag true, .id 1, .id 1] := by
  decide

end LizardFs
