import LizardFs.Master.Nodes
import LizardFs.Common.SliceTraits
import LizardFs.Master.ChunkTable
import LizardFs.IdPool.Detainer

/-!
# Nodes with owners: statistics, quota usage, and the primitives that keep them

Model of the node primitives of `src/master/filesystem_node.cc` that create,
link, unlink and remove nodes or change their owner, with the two aggregates they
maintain:

* the `statsrecord` of every directory (`fsnodes_get_stats`, pushed up the chain
  of parents by `fsnodes_add_stats` and `fsnodes_sub_stats`);
* the `kUsed` counters of the `QuotaDatabase` for every user and group
  (`fsnodes_quota_update`).

`FsNodeData` extends the `FsNode` of `Master.Nodes` with the attributes these
functions read. The node table is `nodehash`, a list of `(id, node)` pairs, so
that the aggregates can be recomputed from it. The `realsize` statistic (which
reads the goal definitions), the node checksums, `entries_hash`, `nlink`, ACLs,
xattrs and the paths recorded for trash and reserved nodes are left out. Limits
of the quota database are not modelled: the answers of `fsnodes_quota_exceeded_*`
are an oracle (`QuotaCheck`).

The statistics and counters are `Int`: the source keeps them in unsigned fields
and adds the wrapping differences of `fsnodes_add_sub_stats`, which `Int`
arithmetic computes exactly while no counter leaves its range.
-/

namespace LizardFs

/-! ## Sizes and statistics -/

/-- `MFSHDRSIZE`: the header of a chunk part. -/
def mfsHdrSize : Nat := 4 * mfsBlocksInChunk + 1024

/-- `DEFAULT_GOAL`. -/
def defaultGoal : Nat := 1

/-- `DEFAULT_TRASHTIME`. -/
def defaultTrashtime : Nat := 86400

/-- `EATTR_NOECACHE`. -/
def eattrNoecache : UInt16 := 0x04

/-- `statsrecord` without `realsize`. -/
structure StatsRecord where
  inodes : Int
  dirs : Int
  files : Int
  chunks : Int
  length : Int
  size : Int
  deriving DecidableEq, Repr

namespace StatsRecord

instance : Zero StatsRecord := ⟨⟨0, 0, 0, 0, 0, 0⟩⟩

/-- Field by field, as `fsnodes_add_stats` adds. -/
instance : Add StatsRecord :=
  ⟨fun a b => ⟨a.inodes + b.inodes, a.dirs + b.dirs, a.files + b.files, a.chunks + b.chunks,
    a.length + b.length, a.size + b.size⟩⟩

/-- Field by field, as `fsnodes_add_sub_stats` and `fsnodes_sub_stats` subtract. -/
instance : Sub StatsRecord :=
  ⟨fun a b => ⟨a.inodes - b.inodes, a.dirs - b.dirs, a.files - b.files, a.chunks - b.chunks,
    a.length - b.length, a.size - b.size⟩⟩

end StatsRecord

/-- A node with the attributes of `FSNode` and its subclasses that the primitives
and the snapshot read. -/
structure FsNodeData extends FsNode where
  mode : UInt16
  uid : Nat
  gid : Nat
  atime : UInt32
  trashtime : Nat
  /-- `FSNodeSymlink::path` -/
  path : List UInt8
  /-- `FSNodeDevice::rdev` -/
  rdev : Nat
  /-- `FSNodeFile::sessionid`: the sessions that hold the file open -/
  sessionid : List Nat
  /-- `FSNodeDirectory::stats` -/
  stats : StatsRecord
  deriving DecidableEq, Repr

namespace FsNodeData

variable (n : FsNodeData)

/-- `file_chunks`: the non-zero chunk ids. -/
def fileChunks : Nat := (n.chunks.filter (· ≠ 0)).length

/-- `node->length - 1` in `uint64_t`. -/
def lastByte : Nat := (n.length + 2 ^ 64 - 1) % 2 ^ 64

/-- `last_chunk_nonempty`: the chunk holding the last byte exists and is not a hole
(the index is a `uint32_t`). -/
def lastChunkNonempty : Bool :=
  if n.chunks.isEmpty then false
  else n.chunks.getD ((n.lastByte / mfsChunkSize) % 2 ^ 32) 0 ≠ 0

/-- `last_chunk_blocks`: the blocks of the last chunk before the end of the file. -/
def lastChunkBlocks : Nat := n.lastByte % mfsChunkSize / mfsBlockSize + 1

/-- `file_size(node, nonzero_chunks)`: full chunks with their headers, the last
chunk cut to its blocks. -/
def fileSize (nonzeroChunks : Nat) : Nat :=
  let size := nonzeroChunks * (mfsChunkSize + mfsHdrSize)
  if n.lastChunkNonempty then size - mfsChunkSize + n.lastChunkBlocks * mfsBlockSize else size

/-- `fsnodes_get_stats`: a directory counts its own stats plus itself. -/
def getStats : StatsRecord :=
  match n.type with
  | .directory => n.stats + ⟨1, 1, 0, 0, 0, 0⟩
  | .file | .trash | .reserved =>
    ⟨1, 0, 1, n.fileChunks, n.length, n.fileSize n.fileChunks⟩
  | .symlink => ⟨1, 0, 0, 0, n.path.length, 0⟩
  | _ => ⟨1, 0, 0, 0, 0, 0⟩

/-- `fsnodes_get_size`. -/
def getSize : Int := n.getStats.size

/-- The statistics of a node read its `FsNode` fields, its symlink path and its
directory stats, not its owners, mode or times. -/
theorem getStats_congr {n n' : FsNodeData} (h : n.toFsNode = n'.toFsNode) (hp : n.path = n'.path)
    (hs : n.stats = n'.stats) : n.getStats = n'.getStats := by
  unfold getStats fileSize lastChunkNonempty lastChunkBlocks lastByte fileChunks
  rw [h, hp, hs]

end FsNodeData

/-! ## The quota database -/

/-- `QuotaOwnerType`. -/
inductive QuotaOwnerType where
  | user
  | group
  | inode
  deriving DecidableEq, Repr

/-- `QuotaResource`. -/
inductive QuotaResource where
  | inodes
  | size
  deriving DecidableEq, Repr

/-- The `kUsed` entries of the `QuotaDatabase`, by owner type, owner id and
resource. -/
structure QuotaDatabase where
  used : QuotaOwnerType → Nat → QuotaResource → Int

namespace QuotaDatabase

/-- `update(owner_type, owner_id, kUsed, resource, delta)`. -/
def update (q : QuotaDatabase) (t : QuotaOwnerType) (o : Nat) (r : QuotaResource) (delta : Int) :
    QuotaDatabase :=
  ⟨fun t' o' r' => if t' = t ∧ o' = o ∧ r' = r then q.used t' o' r' + delta else q.used t' o' r'⟩

/-- `remove(owner_type, owner_id)`: the entry of the owner is dropped. -/
def remove (q : QuotaDatabase) (t : QuotaOwnerType) (o : Nat) : QuotaDatabase :=
  ⟨fun t' o' r' => if t' = t ∧ o' = o then 0 else q.used t' o' r'⟩

end QuotaDatabase

/-- The answers of `fsnodes_quota_exceeded_ug(uid, gid, {{resource, 1}})` and of
`fsnodes_quota_exceeded_dir(dir, {{resource, 1}})`, which read the limits. -/
structure QuotaCheck where
  exceededUg : Nat → Nat → QuotaResource → Bool
  exceededDir : Nat → QuotaResource → Bool

/-! ## The metadata -/

/-- The part of `gMetadata` that the node primitives change. -/
structure NodeMetadata where
  /-- `nodehash`: the live nodes by id -/
  nodes : List (Nat × FsNodeData)
  quotaDatabase : QuotaDatabase
  /-- `inode_pool` -/
  inodePool : IdPoolDetainer
  maxnodeid : Nat
  /-- the chunk table, whose goal counters `chunk_add_file` and `chunk_delete_file`
  change -/
  chunks : ChunksMetadata
  /-- the ids of the nodes in `trash` and in `reserved` -/
  trash : List Nat
  reserved : List Nat
  trashspace : Nat
  reservedspace : Nat
  trashnodes : Nat
  reservednodes : Nat
  /-- `gMetadata->nodes`, `dirnodes`, `filenodes` -/
  nodeCount : Nat
  dirnodes : Nat
  filenodes : Nat
  metaversion : Nat

namespace NodeMetadata

variable (m : NodeMetadata)

/-- `fsnodes_id_to_node(id)`. -/
def getNode (id : Nat) : Option FsNodeData := m.nodes.lookup id

/-- Write the fields of node `id` in place. -/
def setNode (id : Nat) (n : FsNodeData) : NodeMetadata :=
  { m with nodes := m.nodes.map fun e => if e.1 = id then (e.1, n) else e }

/-- Change the fields of node `id` by `f`. -/
def modifyNode (id : Nat) (f : FsNodeData → FsNodeData) : NodeMetadata :=
  match m.getNode id with
  | none => m
  | some n => m.setNode id (f n)

/-- `fsnodes_lookup(parent, name)`. -/
def lookup (parent : Nat) (name : List UInt8) : Option Nat :=
  (m.getNode parent).bind fun p => p.entries.lookup name

/-- `fsnodes_quota_update(node, resources)`: every non-zero delta goes to the
node's user and to its group. -/
def quotaUpdate (n : FsNodeData) (deltas : List (QuotaResource × Int)) : NodeMetadata :=
  deltas.foldl (fun m (r, delta) =>
    if delta = 0 then m
    else { m with quotaDatabase :=
      (m.quotaDatabase.update .user n.uid r delta).update .group n.gid r delta }) m

/-- `fsnodes_add_stats(parent, sr)`: add `sr` to the directory and, up to the
root, to every directory above it. One unit of fuel per level. -/
def addStats (sr : StatsRecord) : Nat → NodeMetadata → Nat → NodeMetadata
  | 0, m, _ => m
  | fuel + 1, m, parent =>
    match m.getNode parent with
    | none => m
    | some p =>
      let m := m.setNode parent { p with stats := p.stats + sr }
      if parent = specialInodeRoot then m
      else p.parent.foldl (fun m g => addStats sr fuel m g) m

/-- `fsnodes_add_stats` with as much fuel as there are nodes. -/
def addStatsUp (parent : Nat) (sr : StatsRecord) : NodeMetadata :=
  addStats sr m.nodes.length m parent

/-- `fsnodes_sub_stats(parent, sr)`: the same walk, subtracting. -/
def subStatsUp (parent : Nat) (sr : StatsRecord) : NodeMetadata := m.addStatsUp parent (0 - sr)

/-- `fsnodes_add_sub_stats(parent, newsr, prevsr)`. -/
def addSubStats (parent : Nat) (nsr psr : StatsRecord) : NodeMetadata := m.addStatsUp parent (nsr - psr)

/-- The statistics of node `id`, zero when there is none. -/
def statsOf (id : Nat) : StatsRecord := ((m.getNode id).map FsNodeData.getStats).getD 0

/-- `fsnodes_link(ts, parent, child, name)`. -/
def link (ts : UInt32) (parent child : Nat) (name : List UInt8) : NodeMetadata :=
  let m := m.modifyNode parent fun p => { p with entries := p.entries ++ [(name, child)] }
  let m := m.modifyNode child fun c => { c with parent := c.parent ++ [parent] }
  let m := m.addStatsUp parent (m.statsOf child)
  if ts > 0 then
    (m.modifyNode parent fun p => { p with mtime := ts, ctime := ts }).modifyNode child
      fun c => { c with ctime := ts }
  else m

/-- `fsnodes_remove_edge(ts, parent, name, node)`. -/
def removeEdge (ts : UInt32) (parent : Nat) (name : List UInt8) (child : Nat) : NodeMetadata :=
  let m := m.modifyNode parent fun p => { p with entries := p.entries.eraseP (·.1 == name) }
  let m := m.subStatsUp parent (m.statsOf child)
  let m := m.modifyNode parent fun p => { p with mtime := ts, ctime := ts }
  m.modifyNode child fun c => { c with parent := c.parent.erase parent, ctime := ts }

/-- `fsnodes_remove_node(ts, node)`: a node without parents leaves the table, its
size and inode leave the quota usage of its owners, its chunks lose a file, and its
id is released without the detention check. -/
def removeNode (ts : UInt32) (id : Nat) : NodeMetadata :=
  match m.getNode id with
  | none => m
  | some n =>
    if n.parent ≠ [] then m else
    let m := { m with
      nodes := m.nodes.filter (·.1 ≠ id)
      nodeCount := m.nodeCount - 1
      dirnodes := if n.type = NodeType.directory then m.dirnodes - 1 else m.dirnodes }
    let m := if n.type.isFileLike then
        let m := { m.quotaUpdate n [(.size, -n.getSize)] with filenodes := m.filenodes - 1 }
        n.chunks.foldl (fun m c =>
          if c > 0 then { m with chunks := (m.chunks.deleteFileInt c n.goal).1 } else m) m
      else m
    let m := { m with inodePool := (m.inodePool.release id ts true).1 }
    let m := m.quotaUpdate n [(.inodes, -1)]
    { m with quotaDatabase := m.quotaDatabase.remove .inode id }

/-- `fsnodes_unlink(ts, parent, name, child)`: after the last link a file with a
trash time goes to the trash, an open file becomes reserved, and any other node is
removed. -/
def unlink (ts : UInt32) (parent : Nat) (name : List UInt8) (child : Nat) : NodeMetadata :=
  let m := m.removeEdge ts parent name child
  match m.getNode child with
  | none => m
  | some c =>
    if c.parent ≠ [] then m
    else if c.type = .file then
      if c.trashtime > 0 then
        { m.setNode child { c with type := .trash, ctime := ts } with
          trash := m.trash ++ [child]
          trashspace := m.trashspace + c.length
          trashnodes := m.trashnodes + 1 }
      else if c.sessionid ≠ [] then
        { m.setNode child { c with type := .reserved } with
          reserved := m.reserved ++ [child]
          reservedspace := m.reservedspace + c.length
          reservednodes := m.reservednodes + 1 }
      else m.removeNode ts child
    else m.removeNode ts child

/-- `fsnodes_get_next_id(ts, req_inode)`: the requested id if the pool can mark
it acquired, else the pool's next id; `none` is the abort when the pool is
exhausted. -/
def getNextId (ts : UInt32) (reqInode : Nat) : Option (NodeMetadata × Nat) := do
  let (pool, id) ← if reqInode = 0 then m.inodePool.acquire ts else
      let (pool, ok) := m.inodePool.markAsAcquired reqInode ts
      if ok then some (pool, reqInode) else pool.acquire ts
  if id = 0 then none
  else some ({ m with inodePool := pool, maxnodeid := max m.maxnodeid id }, id)

/-- The new node of `fsnodes_create_node` for a caller that does not inherit the
parent's ACL: mode bits from `mode`, the extra-attribute bits from the parent,
the umask applied, and the parent's group under a set-gid parent. -/
def newNode (ts : UInt32) (p : FsNodeData) (type : NodeType) (mode umask : UInt16)
    (uid gid : Nat) (copysgid : Bool) : FsNodeData :=
  let (goal, trashtime) := if type = .directory ∨ type = .file then (p.goal, p.trashtime)
    else (defaultGoal, defaultTrashtime)
  let mode : UInt16 := if type = .directory then (mode &&& 0o7777) ||| (p.mode &&& 0xF000)
    else (mode &&& 0o7777) ||| (p.mode &&& (0xF000 &&& ~~~(eattrNoecache <<< (12 : UInt16))))
  let mode := mode &&& ~~~(umask &&& (0o777 : UInt16))
  let (gid, mode) := if p.mode &&& 0o2000 = (0o2000 : UInt16) then
      (p.gid, if copysgid ∧ type = .directory then mode ||| 0o2000 else mode)
    else (gid, mode)
  { type, parent := [], entries := [], goal, chunks := [], length := 0, mtime := ts, ctime := ts,
    mode, uid, gid, atime := ts, trashtime, path := [], rdev := 0, sessionid := [], stats := 0 }

/-- `fsnodes_create_node(ts, parent, name, type, mode, umask, uid, gid, copysgid,
kDontInheritAcl, req_inode)`: the new node is entered into the table, linked under
`name`, and counted in the quota usage of its owners. -/
def createNode (ts : UInt32) (parent : Nat) (name : List UInt8) (type : NodeType)
    (mode umask : UInt16) (uid gid : Nat) (copysgid : Bool) (reqInode : Nat) :
    Option (NodeMetadata × Nat) := do
  let p ← m.getNode parent
  let (m, id) ← m.getNextId ts reqInode
  let node := newNode ts p type mode umask uid gid copysgid
  let m := { m with
    nodes := m.nodes ++ [(id, node)]
    nodeCount := m.nodeCount + 1
    dirnodes := if type = NodeType.directory then m.dirnodes + 1 else m.dirnodes
    filenodes := if type = NodeType.file then m.filenodes + 1 else m.filenodes }
  let m := m.link ts parent id name
  let n := (m.getNode id).getD node
  let m := m.quotaUpdate n [(.inodes, 1)]
  let m := if type = NodeType.file then m.quotaUpdate n [(.size, n.getSize)] else m
  some (m, id)

/-- `fsnodes_change_uid_gid(node, uid, gid)`: the node's inode and size leave the
usage of the old owners and enter that of the new ones. -/
def changeUidGid (id uid gid : Nat) : NodeMetadata :=
  match m.getNode id with
  | none => m
  | some p =>
    let size := if p.type.isFileLike then p.getSize else 0
    let m := m.quotaUpdate p [(.inodes, -1)]
    let m := if p.type.isFileLike then m.quotaUpdate p [(.size, -size)] else m
    let p' := { p with uid := uid, gid := gid }
    let m := m.setNode id p'
    let m := m.quotaUpdate p' [(.inodes, 1)]
    if p.type.isFileLike then m.quotaUpdate p' [(.size, size)] else m

end NodeMetadata

/-! ## Quota usage recomputed from the node table -/

namespace FsNodeData

/-- What a node charges its owners of resource `r`: one inode, and its size if it
holds chunks. -/
def charge (r : QuotaResource) (n : FsNodeData) : Int :=
  match r with
  | .inodes => 1
  | .size => if n.type.isFileLike then n.getSize else 0

/-- Owner `o` of type `t` owns the node: it is the node's user or its group. -/
def OwnedBy (t : QuotaOwnerType) (o : Nat) (n : FsNodeData) : Prop :=
  t = .user ∧ n.uid = o ∨ t = .group ∧ n.gid = o

instance (t : QuotaOwnerType) (o : Nat) (n : FsNodeData) : Decidable (n.OwnedBy t o) :=
  inferInstanceAs (Decidable (t = .user ∧ n.uid = o ∨ t = .group ∧ n.gid = o))

/-- What node `n` counts in the usage of resource `r` by owner `o` of type `t`. -/
def usage (t : QuotaOwnerType) (o : Nat) (r : QuotaResource) (n : FsNodeData) : Int :=
  if n.OwnedBy t o then n.charge r else 0

/-- A node without chunks charges its owners one inode and no size. -/
theorem usage_of_not_isFileLike {n : FsNodeData} (h : n.type.isFileLike = false) (t : QuotaOwnerType)
    (o : Nat) (r : QuotaResource) : n.usage t o r = if n.OwnedBy t o ∧ r = .inodes then 1 else 0 := by
  unfold usage charge
  cases r <;> simp [h]

/-- A new owner is charged what the old one was. -/
theorem charge_setOwner (n : FsNodeData) (uid gid : Nat) (r : QuotaResource) :
    ({ n with uid := uid, gid := gid } : FsNodeData).charge r = n.charge r := by
  have hs : ({ n with uid := uid, gid := gid } : FsNodeData).getSize = n.getSize :=
    congrArg StatsRecord.size (getStats_congr rfl rfl rfl)
  cases r
  · rfl
  · simp only [charge, hs]

end FsNodeData

namespace NodeMetadata

variable (m : NodeMetadata)

/-- The sum of `f` over the live nodes. -/
def tally (f : FsNodeData → Int) : Int := (m.nodes.map fun e => f e.2).sum

/-- Every directory's stats are the sum of `fsnodes_get_stats` over its entries. -/
def statsExact : Bool :=
  m.nodes.all fun e => e.2.type ≠ .directory || e.2.stats == (e.2.entries.map fun c => m.statsOf c.2).sum

/-- No two entries of `nodehash` have the same id. -/
def NodesUnique : Prop := (m.nodes.map Prod.fst).Nodup

/-- The `kUsed` counters of every user and group equal the usage recomputed from
the nodes. -/
def QuotaExact : Prop :=
  ∀ t o r, t ≠ .inode → m.quotaDatabase.used t o r = m.tally (FsNodeData.usage t o r)

variable {m}

@[simp] theorem quotaUpdate_nodes (n : FsNodeData) (ds : List (QuotaResource × Int)) :
    (m.quotaUpdate n ds).nodes = m.nodes := by
  induction ds generalizing m with
  | nil => rfl
  | cons d ds ih =>
    simp only [quotaUpdate, List.foldl_cons] at ih ⊢
    split
    · exact ih
    · exact ih

@[simp] theorem setNode_quotaDatabase (id : Nat) (n : FsNodeData) :
    (m.setNode id n).quotaDatabase = m.quotaDatabase := rfl

/-- One update moves the counters of the node's user and group by `delta`. -/
theorem used_quotaUpdate (n : FsNodeData) (r : QuotaResource) (delta : Int) (t : QuotaOwnerType)
    (o : Nat) (r' : QuotaResource) :
    (m.quotaUpdate n [(r, delta)]).quotaDatabase.used t o r' =
      m.quotaDatabase.used t o r' + if r' = r ∧ n.OwnedBy t o then delta else 0 := by
  simp only [quotaUpdate, List.foldl_cons, List.foldl_nil, FsNodeData.OwnedBy]
  by_cases hd : delta = 0
  · simp [hd]
  · -- the user's entry and the group's entry are distinct cells
    cases t <;> simp only [hd, QuotaDatabase.update, if_false] <;> split_ifs <;> simp_all

/-- Replacing one node of a table with unique ids changes a sum over the nodes by
the difference of the two nodes' terms. -/
theorem tally_setNode (hu : m.NodesUnique) {id : Nat} {p : FsNodeData} (hp : m.getNode id = some p)
    (p' : FsNodeData) (f : FsNodeData → Int) :
    (m.setNode id p').tally f = m.tally f - f p + f p' := by
  obtain ⟨nodes⟩ := m
  simp only [NodesUnique, getNode, setNode, tally] at hu hp ⊢
  induction nodes with
  | nil => simp at hp
  | cons e rest ih =>
    obtain ⟨i, x⟩ := e
    simp only [List.map_cons, List.nodup_cons, List.mem_map] at hu
    by_cases hi : i = id
    · -- the node itself: no later entry has its id, so the rest is unchanged
      subst hi
      have hx : x = p := by simpa using hp
      have hrest : ∀ e ∈ rest, (if e.1 = i then (e.1, p') else e) = e := fun e he =>
        if_neg fun h => hu.1 ⟨e, he, h⟩
      simp only [List.map_cons, if_pos, List.sum_cons, List.map_congr_left hrest, List.map_id', hx]
      omega
    · have hb : (id == i) = false := beq_false_of_ne (Ne.symm hi)
      have hp' : rest.lookup id = some p := by simpa [List.lookup, hb] using hp
      simp only [List.map_cons, if_neg hi, List.sum_cons, ih hu.2 hp']
      omega

/-- What `fsnodes_change_uid_gid` does to the counters: the node's usage moves from
its old owners to the new ones. -/
theorem used_changeUidGid {id : Nat} {p : FsNodeData} (hp : m.getNode id = some p) (uid gid : Nat)
    (t : QuotaOwnerType) (o : Nat) (r : QuotaResource) :
    (m.changeUidGid id uid gid).quotaDatabase.used t o r =
      m.quotaDatabase.used t o r - p.usage t o r + ({ p with uid := uid, gid := gid } : FsNodeData).usage t o r := by
  unfold changeUidGid
  rw [hp]
  simp only [FsNodeData.usage, FsNodeData.charge_setOwner]
  cases hf : p.type.isFileLike
  all_goals
    simp only [if_false, if_true, Bool.false_eq_true, used_quotaUpdate, setNode_quotaDatabase]
    cases r <;> simp only [FsNodeData.charge, hf, true_and, false_and, reduceCtorEq, if_false,
      if_true, Bool.false_eq_true] <;> split_ifs <;> omega

/-- What `fsnodes_change_uid_gid` does to the nodes: one node gets new owners. -/
theorem nodes_changeUidGid {id : Nat} {p : FsNodeData} (hp : m.getNode id = some p) (uid gid : Nat) :
    (m.changeUidGid id uid gid).nodes = (m.setNode id { p with uid := uid, gid := gid }).nodes := by
  unfold changeUidGid
  rw [hp]
  cases hf : p.type.isFileLike <;> simp only [hf, Bool.false_eq_true, if_true, if_false, quotaUpdate_nodes, setNode]

theorem tally_changeUidGid (hu : m.NodesUnique) {id : Nat} {p : FsNodeData} (hp : m.getNode id = some p)
    (uid gid : Nat) (f : FsNodeData → Int) :
    (m.changeUidGid id uid gid).tally f = m.tally f - f p + f { p with uid := uid, gid := gid } := by
  rw [← tally_setNode hu hp]
  simp only [tally, nodes_changeUidGid hp]

/-- `fsnodes_change_uid_gid` keeps the quota usage exact: what it takes from the
old owners' counters it gives to the new owners'. -/
theorem changeUidGid_quotaExact (hu : m.NodesUnique) (hq : m.QuotaExact) (id uid gid : Nat) :
    (m.changeUidGid id uid gid).QuotaExact := by
  cases hp : m.getNode id with
  | none =>
    unfold changeUidGid
    rw [hp]
    exact hq
  | some p =>
    intro t o r ht
    rw [used_changeUidGid hp, tally_changeUidGid hu hp, hq t o r ht]

end NodeMetadata

end LizardFs
