import Mathlib
import LizardFs.Locks.LockRange
import LizardFs.Common.Status

/-!
# `FileLocks` and the master's lock operations

Model of the `FileLocks` part of `src/master/locks.cc` and `locks.h`, and of
the lock entry points of `src/master/filesystem_operations.cc`:
`fs_lock_op`, `fs_locks_clear_session` and `fs_locks_unlock_inode`.

A `FileLocks` keeps, per inode, the active locks (a `LockRanges`) and the
queue of pending locks, sorted by `LockRange.lt`. The two
`std::unordered_map`s are association lists; a key that the source creates
with `operator[]` or `insert` is appended, and the order of the list stands for
the container's (unspecified) iteration order.

The candidates that `gatherCandidates` takes out of a pending queue are the
locks that may fit after an unlock; the header of `FileLocks` says they "need
to be reinserted after checking if they can be applied". `fs_lock_op` and
`fs_locks_unlock_inode` do that through `apply`, which inserts a lock that
fits and queues it again otherwise; `fs_locks_clear_session` only reports
them (`clear_session_reports_unapplied_lock`).

The permission check of `fs_lock_op` (`fsnodes_check_lock_permissions`, which
only reads the metadata) is a parameter: the status it returned. The
changelog lines, `metaversion` and checksum updates that follow each entry point
are not modelled.
-/

namespace LizardFs

/-! ## Association lists for the two maps -/

namespace AssocList

variable {α : Type}

/-- `find(key)`. -/
def find? (m : List (Nat × α)) (k : Nat) : Option α := (m.find? fun e => e.1 == k).map Prod.snd

/-- Assign `v` to `k`, appending the key when it is new. -/
def set (m : List (Nat × α)) (k : Nat) (v : α) : List (Nat × α) :=
  if m.any (fun e => e.1 == k) then m.map fun e => if e.1 == k then (k, v) else e
  else m ++ [(k, v)]

/-- `erase(key)`. -/
def erase (m : List (Nat × α)) (k : Nat) : List (Nat × α) := m.filter fun e => e.1 != k

end AssocList

/-- The state of a `FileLocks`. -/
structure FileLocks where
  /-- `active_locks_` -/
  active : List (Nat × LockRanges)
  /-- `pending_locks_`: per inode, a queue sorted by `LockRange.lt` -/
  pending : List (Nat × List LockRange)
  deriving DecidableEq, Repr

namespace FileLocks

/-- `enqueue(inode, lock)`: insert into the inode's queue at the lower bound of
`lock`. -/
def enqueue (fl : FileLocks) (inode : Nat) (lock : LockRange) : FileLocks :=
  let queue := (AssocList.find? fl.pending inode).getD []
  let i := partitionPoint (fun q => q.lt lock) queue
  { fl with pending := AssocList.set fl.pending inode (queue.insertIdx i lock) }

/-- `apply(inode, lock, nonblocking)`: insert the lock if it fits (dropping the
inode's entry when no range is left), else queue it unless `nonblocking` or it
is an unlock. -/
def apply (fl : FileLocks) (inode : Nat) (lock : LockRange) (nonblocking : Bool := false) :
    FileLocks × Bool :=
  let locks := (AssocList.find? fl.active inode).getD ⟨[]⟩
  let fl := { fl with active := AssocList.set fl.active inode locks }
  if locks.fits lock then
    let locks := locks.insert lock
    ({ fl with
        active := if locks.size = 0 then AssocList.erase fl.active inode
          else AssocList.set fl.active inode locks }, true)
  else if !nonblocking && !lock.unlocking then (fl.enqueue inode lock, false)
  else (fl, false)

/-- `sharedLock`. -/
def sharedLock (fl : FileLocks) (inode start end_ : Nat) (owner : Owner) (nonblocking : Bool) :
    FileLocks × Bool :=
  fl.apply inode (LockRange.mk1 .shared start end_ owner) nonblocking

/-- `exclusiveLock`. -/
def exclusiveLock (fl : FileLocks) (inode start end_ : Nat) (owner : Owner) (nonblocking : Bool) :
    FileLocks × Bool :=
  fl.apply inode (LockRange.mk1 .exclusive start end_ owner) nonblocking

/-- `unlock(inode, start, end, owner)`. -/
def unlock (fl : FileLocks) (inode start end_ : Nat) (owner : Owner) : FileLocks × Bool :=
  fl.apply inode (LockRange.mk1 .unlock start end_ owner)

/-- `unlock(inode)`: drop every active lock of the inode. -/
def unlockInode (fl : FileLocks) (inode : Nat) : FileLocks :=
  { fl with active := AssocList.erase fl.active inode }

/-- `unlock(inode, pred)`: remove the owners satisfying `pred` from every range,
drop the ranges left without owner, and return the smallest range `[first,
second)` covering the ranges that lost an owner (`first > second` when none
did). -/
def unlockIf (fl : FileLocks) (inode : Nat) (pred : Owner → Bool) : FileLocks × Nat × Nat :=
  match AssocList.find? fl.active inode with
  | none => (fl, 2 ^ 64 - 1, 0)
  | some locks =>
    let (kept, start, end_) := locks.data.foldl (fun (acc : List LockRange × Nat × Nat) r =>
      let owners := r.owners.filter fun o => !pred o
      let start := if owners.length < r.owners.length then min acc.2.1 r.start else acc.2.1
      let end_ := if owners.length < r.owners.length then max acc.2.2 r.end_ else acc.2.2
      (if owners.isEmpty then acc.1 else acc.1 ++ [{ r with owners := owners }], start, end_))
      ([], 2 ^ 64 - 1, 0)
    ({ fl with active := AssocList.set fl.active inode ⟨kept⟩ }, start, end_)

/-- `gatherCandidates(inode, start, end, result)`: take out of the inode's queue
the locks from one before the first starting at `start` to the last starting
at or before `end`, and return them. -/
def gatherCandidates (fl : FileLocks) (inode start end_ : Nat) : FileLocks × List LockRange :=
  match AssocList.find? fl.pending inode with
  | none => (fl, [])
  | some queue =>
    let first := partitionPoint (fun q => q.start < start) queue
    let last := partitionPoint (fun q => !(end_ < q.start)) queue
    let first := if first ≠ 0 then first - 1 else first
    ({ fl with pending := AssocList.set fl.pending inode (queue.take first ++ queue.drop last) },
      (queue.take last).drop first)

/-- `removePending(inode, pred)`: drop the queued locks satisfying `pred`, and the
queue itself when it becomes empty. -/
def removePending (fl : FileLocks) (inode : Nat) (pred : LockRange → Bool) : FileLocks :=
  match AssocList.find? fl.pending inode with
  | none => fl
  | some queue =>
    let queue := queue.filter fun l => !pred l
    { fl with pending := if queue.isEmpty then AssocList.erase fl.pending inode
        else AssocList.set fl.pending inode queue }

/-- The loop of `fs_lock_op` and `fs_manage_lock_try_lock_pending`: apply every
candidate (blocking, so a lock that does not fit is queued again) and report the
owners of those that were applied. -/
def applyCandidates (fl : FileLocks) (inode : Nat) (queue : List LockRange) :
    FileLocks × List Owner :=
  queue.foldl (fun (acc : FileLocks × List Owner) c =>
    let (fl, ok) := acc.1.apply inode c
    (fl, if ok then acc.2 ++ c.owners else acc.2)) (fl, [])

end FileLocks

/-! ## Entry points of the master -/

/-- The `op` argument of `fs_lock_op` (the `lzfs_locks` constants). -/
inductive LockOp where
  /-- `kShared` (2) -/
  | shared
  /-- `kExclusive` (4) -/
  | exclusive
  /-- `kUnlock` (1) -/
  | unlock
  /-- `kRelease` (32) -/
  | release
  /-- any other value -/
  | other (code : Nat)
  deriving DecidableEq, Repr

/-- `fs_lock_op`: perform a lock operation, then, unless it was an exclusive lock,
try the pending locks of the range it touched. Returns the new state, the status
and the owners whose pending locks were applied (`applied`). `permission` is the
status of `fsnodes_check_lock_permissions`. -/
def fsLockOp (permission : Status) (locks : FileLocks) (inode start end_ : Nat) (owner : Owner)
    (op : LockOp) (nonblocking : Bool) : FileLocks × Status × List Owner :=
  if permission ≠ .ok then (locks, permission, []) else
  let done : Option ((FileLocks × Bool) × Nat × Nat) :=
    match op with
    | .shared => some ((locks.sharedLock inode start end_ owner nonblocking), start, end_)
    | .exclusive => some ((locks.exclusiveLock inode start end_ owner nonblocking), start, end_)
    | .release =>
      -- drop the owner's queued locks, then fall through to an unlock of the whole file
      let locks := locks.removePending inode fun l =>
        l.owner.sessionid == owner.sessionid && l.owner.owner == owner.owner
      some ((locks.unlock inode 0 (2 ^ 64 - 1) owner), 0, 2 ^ 64 - 1)
    | .unlock => some ((locks.unlock inode start end_ owner), start, end_)
    | .other _ => none
  match done with
  | none => (locks, .einval, [])
  | some ((locks, success), start, end_) =>
    let status := if success then Status.ok else Status.waiting
    if op = .exclusive then (locks, status, []) else
    let (locks, queue) := locks.gatherCandidates inode start end_
    let (locks, applied) := locks.applyCandidates inode queue
    (locks, status, applied)

/-- The lock tables of the metadata: `flock_locks` and `posix_locks`. -/
structure LockTables where
  /-- `gMetadata->flock_locks` -/
  flock : FileLocks
  /-- `gMetadata->posix_locks` -/
  posix : FileLocks
  deriving DecidableEq, Repr

namespace LockTables

/-- The table a `lzfs_locks::Type` value selects: `kFlock` (0) or `kPosix` (1). -/
def get? (t : LockTables) (type : Nat) : Option FileLocks :=
  if type = 0 then some t.flock else if type = 1 then some t.posix else none

/-- Replace the table selected by `type`. -/
def put (t : LockTables) (type : Nat) (fl : FileLocks) : LockTables :=
  if type = 0 then { t with flock := fl } else { t with posix := fl }

end LockTables

/-- `fs_locks_clear_session`: drop the session's queued and active locks of an
inode, and report the owners of the pending locks of the range it released. -/
def fsLocksClearSession (tables : LockTables) (type inode sessionid : Nat) :
    LockTables × Status × List Owner :=
  match tables.get? type with
  | none => (tables, .einval, [])
  | some locks =>
    let locks := locks.removePending inode fun l => l.owner.sessionid == sessionid
    let (locks, first, second) := locks.unlockIf inode fun o => o.sessionid == sessionid
    if first < second then
      let (locks, queue) := locks.gatherCandidates inode first second
      (tables.put type locks, .ok, queue.flatMap LockRange.owners)
    else (tables.put type locks, .ok, [])

/-- `fs_locks_unlock_inode`: drop all active locks of an inode and try its pending
locks (`fs_manage_lock_try_lock_pending`) over `[0, 1)` for flock and the whole
file for posix locks. -/
def fsLocksUnlockInode (tables : LockTables) (type inode : Nat) :
    LockTables × Status × List Owner :=
  match tables.get? type with
  | none => (tables, .einval, [])
  | some locks =>
    let locks := locks.unlockInode inode
    let (locks, queue) := locks.gatherCandidates inode 0 (if type = 0 then 1 else 2 ^ 64 - 1)
    let (locks, applied) := locks.applyCandidates inode queue
    (tables.put type locks, .ok, applied)

/-! ## A pending lock reported but not applied -/

/-- The owner holding the lock, in session 1. -/
def clearSessionHolder : Owner := ⟨1, 1, 0, 0⟩

/-- The owner waiting for the same range, in session 2 (message id 7). -/
def clearSessionWaiter : Owner := ⟨2, 2, 0, 7⟩

/-- Posix locks of inode 1: `[0, 10)` held exclusively by session 1, and an
exclusive lock on the same range queued for session 2. -/
def clearSessionTables : LockTables :=
  ⟨⟨[], []⟩,
    ⟨[(1, ⟨[LockRange.mk1 .exclusive 0 10 clearSessionHolder]⟩)],
      [(1, [LockRange.mk1 .exclusive 0 10 clearSessionWaiter])]⟩⟩

/-- Clearing session 1 takes the waiting lock out of the queue and reports its
owner in `applied` (the client is woken up as the holder), while the active
table of the inode is left empty and the queue too. -/
theorem clear_session_reports_unapplied_lock :
    fsLocksClearSession clearSessionTables 1 1 1 =
      (⟨⟨[], []⟩, ⟨[(1, ⟨[]⟩)], [(1, [])]⟩⟩, .ok, [clearSessionWaiter]) := by
  decide

/-! ## A waiting lock the unlock does not look at -/

namespace LockWindow

/-- The owners of the scenario: `holder` and `other` hold locks, `waiter` and
`straddler` wait. -/
def holder : Owner := ⟨1, 1, 0, 0⟩
def other : Owner := ⟨2, 2, 0, 0⟩
def waiter : Owner := ⟨3, 3, 0, 0⟩
def straddler : Owner := ⟨4, 4, 0, 0⟩

/-- Posix locks of inode 1: `holder` locks `[50, 60)` and `other` locks
`[150, 160)`; `waiter` asks for `[0, 100)` (blocked by `holder`) and
`straddler` for `[20, 200)` (blocked by both); then `holder` unlocks
`[50, 60)`. -/
def run : FileLocks × Status × List Owner :=
  let s := (fsLockOp .ok ⟨[], []⟩ 1 50 60 holder .exclusive false).1
  let s := (fsLockOp .ok s 1 150 160 other .exclusive false).1
  let s := (fsLockOp .ok s 1 0 100 waiter .exclusive false).1
  let s := (fsLockOp .ok s 1 20 200 straddler .exclusive false).1
  fsLockOp .ok s 1 50 60 holder .unlock false

end LockWindow

/-- The unlock of `[50, 60)` gathers only the queued locks from the one before
the first starting at 50, which is `straddler`'s, and re-queues it; the lock of
`waiter` overlaps `[50, 60)` and now fits the active locks, but it is not among
the candidates, so nobody wakes it. -/
theorem unlock_misses_overlapping_pending_lock :
    LockWindow.run.2 = (.ok, []) ∧
    AssocList.find? LockWindow.run.1.pending 1 =
      some [LockRange.mk1 .exclusive 0 100 LockWindow.waiter,
        LockRange.mk1 .exclusive 20 200 LockWindow.straddler] ∧
    ((AssocList.find? LockWindow.run.1.active 1).getD ⟨[]⟩).fits
      (LockRange.mk1 .exclusive 0 100 LockWindow.waiter) = true := by
  decide

end LizardFs
