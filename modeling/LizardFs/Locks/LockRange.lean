import LizardFs.Lib.PartitionPoint

/-!
# `LockRange` and `LockRanges`: the active locks of one inode

Model of `src/master/locks.h` and the `LockRanges` part of `locks.cc`.

A `LockRange` is a half-open byte range `[start, end)` of a file with a lock type
and a sorted list of owners (owners compare by `owner` and `sessionid` only).
`LockRanges` is the sorted vector of the ranges locked on one inode.
`LockRanges.insert` places a lock (or an unlock) into it, splitting, merging and
re-typing the ranges it meets: its loop is `insertLoop`, one call per round of
the source's `for` loop, over the ranges between the two binary searches.

`end` is a keyword of Lean, so the end of a range is the field `end_`.
-/

namespace LizardFs

/-- `LockRange::Owner`: a lock owner, the FUSE owner within a client session. -/
structure Owner where
  /-- owner field provided by FUSE -/
  owner : Nat
  /-- client's session id -/
  sessionid : Nat
  /-- request id (interrupt handling only) -/
  reqid : Nat
  /-- message id (interrupt handling only) -/
  msgid : Nat
  deriving DecidableEq, Repr

namespace Owner

/-- `Owner::operator==`: compares `owner` and `sessionid`, ignoring `reqid` and
`msgid`. -/
def same (a b : Owner) : Bool := a.owner == b.owner && a.sessionid == b.sessionid

/-- `Owner::operator<`: lexicographic on `(owner, sessionid)`. -/
def lt (a b : Owner) : Bool :=
  a.owner < b.owner || (a.owner == b.owner && a.sessionid < b.sessionid)

end Owner

/-- `operator==` of `compact_vector<Owner>`: same length, owners pairwise equal. -/
def ownersEq : List Owner → List Owner → Bool
  | [], [] => true
  | a :: as, b :: bs => a.same b && ownersEq as bs
  | _, _ => false

/-- `LockRange::Type`. -/
inductive LockType where
  | invalid
  | unlock
  | shared
  | exclusive
  deriving DecidableEq, Repr

/-- A `LockRange`. -/
structure LockRange where
  /-- lock type (shared, exclusive, unlock) -/
  type : LockType
  /-- beginning of the locked range -/
  start : Nat
  /-- end of the locked range (`end` in the source) -/
  end_ : Nat
  /-- the owners, sorted by `Owner.lt` -/
  owners : List Owner
  deriving DecidableEq, Repr

namespace LockRange

/-- `LockRange(type, start, end, first)`: a range with one owner. -/
def mk1 (type : LockType) (start end_ : Nat) (first : Owner) : LockRange :=
  ⟨type, start, end_, [first]⟩

/-- `overlaps`. -/
def overlaps (r o : LockRange) : Bool := r.start < o.end_ && o.start < r.end_

/-- `sticks`: one range ends where the other starts. -/
def sticks (r o : LockRange) : Bool := r.start == o.end_ || o.start == r.end_

/-- `shared`. -/
def shared (r : LockRange) : Bool := r.type == .shared

/-- `unlocking`: an unlock, or a range left with no owner. -/
def unlocking (r : LockRange) : Bool := r.type == .unlock || r.owners.isEmpty

/-- `owner()`: the only owner of a single-owner range. -/
def owner (r : LockRange) : Owner := r.owners.headD ⟨0, 0, 0, 0⟩

/-- `std::merge` of two sorted owner lists (on ties the first list's owner
comes first). -/
def mergeOwners : List Owner → List Owner → List Owner
  | [], bs => bs
  | as, [] => as
  | a :: as, b :: bs =>
    if b.lt a then b :: mergeOwners (a :: as) bs else a :: mergeOwners as (b :: bs)

/-- `std::unique`: drop an owner equal to the one kept before it. -/
def uniqueOwners : List Owner → List Owner
  | [] => []
  | a :: as =>
    match uniqueOwners as with
    | [] => [a]
    | b :: bs => if a.same b then a :: bs else a :: b :: bs

/-- `addOwners`: the sorted union of the owners. -/
def addOwners (r : LockRange) (other : List Owner) : LockRange :=
  { r with owners := uniqueOwners (mergeOwners r.owners other) }

/-- `eraseOwner`: remove `candidate` if it is an owner (found by binary search). -/
def eraseOwner (r : LockRange) (candidate : Owner) : LockRange :=
  let i := partitionPoint (fun o => o.lt candidate) r.owners
  match r.owners[i]? with
  | some o => if o.same candidate then { r with owners := r.owners.eraseIdx i } else r
  | none => r

/-- `operator<` on lock ranges: lexicographic on `(start, end)`. -/
def lt (r o : LockRange) : Bool := r.start < o.start || (r.start == o.start && r.end_ < o.end_)

end LockRange

/-- `LockRanges`: the sorted vector `data_` of the ranges locked on one inode. -/
structure LockRanges where
  /-- `data_` -/
  data : List LockRange
  deriving DecidableEq, Repr

namespace LockRanges

/-- The first index whose range starts at or after `offset` (`std::lower_bound`
with `other.start < offset`). -/
def lowerStart (xs : List LockRange) (offset : Nat) : Nat :=
  partitionPoint (fun o => o.start < offset) xs

/-- The first index whose range starts after `offset` (`std::upper_bound` with
`offset < other.start`). -/
def upperStart (xs : List LockRange) (offset : Nat) : Nat :=
  partitionPoint (fun o => !(offset < o.start)) xs

/-- The window `[start, end)` both `findCollision` and `insert` scan: from one
range before the first starting at `range.start` to the last starting at or
before `range.end`. -/
def window (xs : List LockRange) (range : LockRange) : Nat × Nat :=
  let s := lowerStart xs range.start
  (if s ≠ 0 then s - 1 else s, upperStart xs range.end_)

/-- `findCollision`: the first range of the window that overlaps `range`, is not
shared together with it, and has other owners; `none` for an unlock. -/
def findCollision (ls : LockRanges) (range : LockRange) : Option LockRange :=
  if range.unlocking then none else
  let (s, e) := window ls.data range
  ((ls.data.take e).drop s).find? fun o =>
    range.overlaps o && (!range.shared || !o.shared) && !ownersEq o.owners range.owners

/-- `fits`: no range collides with `range`. -/
def fits (ls : LockRanges) (range : LockRange) : Bool := (ls.findCollision range).isNone

/-- What one round of the loop of `insert` does with the range `other` it is
looking at. -/
inductive InsertStep where
  /-- go on with the next range, `other` and `range` updated -/
  | next (other range : LockRange)
  /-- `break`: no later range can overlap -/
  | stop
  /-- insert `tmp` before `other` and look at (the updated) `other` again -/
  | split (tmp range other : LockRange)
  deriving DecidableEq, Repr

/-- The owners or type of the part of `o` that `range` covers: the new type for
the same owners, else one owner less (unlock) or more (shared lock). -/
def applyOwners (range o : LockRange) (sameOwners : Bool) : LockRange :=
  if sameOwners then { o with type := range.type }
  else if range.unlocking then o.eraseOwner range.owner
  else o.addOwners range.owners

/-- The body of the loop of `LockRanges::insert` for one range `other`. -/
def insertStep (range other : LockRange) : InsertStep :=
  let sameOwners := ownersEq range.owners other.owners
  if range.sticks other && sameOwners && range.type == other.type then
    -- adjacent ranges of the same lock merge into `range`
    .next { other with type := .unlock }
      { range with start := min range.start other.start, end_ := max range.end_ other.end_ }
  else if range.end_ ≤ other.start then .stop
  else if !range.overlaps other then .next other range
  else if range.start < other.start then
    .split { range with end_ := other.start } { range with start := other.start } other
  else if range.start = other.start then
    if range.end_ < other.end_ then
      .split (applyOwners range { other with end_ := range.end_ } sameOwners)
        { range with start := other.end_ } { other with start := range.end_ }
    else
      .next (applyOwners range other sameOwners) { range with start := other.end_ }
  else
    .split { other with end_ := range.start } range { other with start := range.start }

/-- The loop of `insert` over the window: returns the ranges before the final
position of the iterator, what is left of `range`, and the ranges from that
position on. One unit of fuel per round; a range is looked at in at most two
rounds, and the round after a `split` that empties `range` ends the loop, so
`2 * length + 1` rounds suffice. -/
def insertLoop : Nat → LockRange → List LockRange → List LockRange × LockRange × List LockRange
  | 0, range, rest => ([], range, rest)
  | _ + 1, range, [] => ([], range, [])
  | fuel + 1, range, other :: rest =>
    if range.end_ ≤ range.start then ([], range, other :: rest) else
    match insertStep range other with
    | .next other' range' =>
      let (out, r, left) := insertLoop fuel range' rest
      (other' :: out, r, left)
    | .stop => ([], range, other :: rest)
    | .split tmp range' other' =>
      let (out, r, left) := insertLoop fuel range' (other' :: rest)
      (tmp :: out, r, left)

/-- `insert(range)`: place the lock (or unlock) `range`, then erase from the
window every range that is left unlocking (merged away, or without owners).
The source needs `range.start ≤ range.end`: for a reversed range the window is
reversed too and its final `remove_if` runs on an invalid iterator range. -/
def insert (ls : LockRanges) (range : LockRange) : LockRanges :=
  let (s, e) := window ls.data range
  let win := (ls.data.take e).drop s
  let (out, r, left) := insertLoop (2 * win.length + 1) range win
  let win' := out ++ (if r.start < r.end_ then [r] else []) ++ left
  ⟨ls.data.take s ++ win'.filter (fun o => !o.unlocking) ++ ls.data.drop e⟩

/-- `size()`. -/
def size (ls : LockRanges) : Nat := ls.data.length

end LockRanges

end LizardFs
