import LizardFs.Master.NodeOps

/-!
# Snapshots: `SnapshotTask` and the job that runs it

Model of `src/master/snapshot_task.cc` and of the part of `TaskManager::Job`
(`task_manager.cc`) that runs a snapshot. `fs_snapshot` submits one task with
one subtask, the source node and the destination name, in the destination
directory. Each call of `execute` clones the current subtask's node with
`cloneNode`:

* into a new node (`cloneToNewNode`, through `fsnodes_create_node`);
* into the node the name already has (`cloneToExistingNode`): a directory is
  merged, a file is kept when it has the same length and chunks and is otherwise
  unlinked and created again (`cloneToExistingFileNode`), a symlink gets the
  source's target, a device its `rdev`; then the existing node is given the
  source's mode, uid, gid and times by plain assignment.

A directory's entries become the subtasks of a new task (`cloneDirectoryData`),
which the job appends to its queue when the step succeeds. The changelog text and
the checksums are not modelled; `emitChangelog` only takes the next metaversion.
-/

namespace LizardFs

/-- A `SnapshotTask`: the subtasks not run yet (source inode and destination name,
the current one first) and the parameters it passes on to the tasks it enqueues. -/
structure SnapshotTask where
  subtask : List (Nat × List UInt8)
  origInode : Nat
  dstParentInode : Nat
  dstInode : Nat
  canOverwrite : Bool
  ignoreMissingSrc : Bool
  emitChangelog : Bool
  enqueueWork : Bool
  deriving DecidableEq, Repr

namespace SnapshotTask

variable (task : SnapshotTask) (q : QuotaCheck) (ts : UInt32)

/-- `current_subtask_->first`. -/
def srcInode : Nat := (task.subtask.headD (0, [])).1

/-- `current_subtask_->second`. -/
def name : List UInt8 := (task.subtask.headD (0, [])).2

/-- `cloneNodeTest(src_node, dst_node, dst_parent)`. -/
def cloneNodeTest (src : FsNodeData) (dst : Option (Nat × FsNodeData)) (dstParent : Nat) : Status :=
  if q.exceededUg src.uid src.gid .inodes || q.exceededDir dstParent .inodes then .quota
  else if src.type = .file ∧ (q.exceededUg src.uid src.gid .size || q.exceededDir dstParent .size) then
    .quota
  else
    match dst with
    | none => .ok
    | some (dstId, d) =>
      if task.origInode ≠ 0 ∧ dstId = task.origInode then .einval
      else if d.type ≠ src.type then .eperm
      else if src.type ≠ .directory ∧ !task.canOverwrite then .eexist
      else .ok

/-- `cloneDirectoryData(src_node, dst_node)`: a task for the entries of the source
directory, into the destination directory. -/
def cloneDirectoryData (src : FsNodeData) (dstId : Nat) : List SnapshotTask :=
  if !task.enqueueWork then [] else
  let data := src.entries.map fun e => (e.2, e.1)
  if data.isEmpty then []
  else [⟨data, task.origInode, dstId, 0, task.canOverwrite, task.ignoreMissingSrc, task.emitChangelog,
    task.enqueueWork⟩]

/-- `cloneChunkData(src_node, dst_node, dst_parent)`: the file takes the source's
goal, trash time, chunks and length; each chunk gains a file, and the change of the
file's statistics goes to the parent and to its owners' size usage. -/
def cloneChunkData (m : NodeMetadata) (src : FsNodeData) (dstId dstParent : Nat) : NodeMetadata :=
  match m.getNode dstId with
  | none => m
  | some d =>
    let psr := d.getStats
    let d := { d with
      goal := src.goal, trashtime := src.trashtime, chunks := src.chunks, length := src.length }
    let m := m.setNode dstId d
    let m := src.chunks.foldl (fun m c =>
      if c > 0 then { m with chunks := (m.chunks.addFileInt c d.goal).1 } else m) m
    let nsr := d.getStats
    let m := m.addSubStats dstParent nsr psr
    m.quotaUpdate d [(.size, nsr.size - psr.size)]

/-- `cloneSymlinkData(src_node, dst_node, dst_parent)`. -/
def cloneSymlinkData (m : NodeMetadata) (src : FsNodeData) (dstId dstParent : Nat) : NodeMetadata :=
  match m.getNode dstId with
  | none => m
  | some d =>
    let psr := d.getStats
    let d := { d with path := src.path }
    (m.setNode dstId d).addSubStats dstParent d.getStats psr

/-- `cloneToExistingFileNode(ts, src_node, dst_parent, dst_node)`: an identical
file is kept as it is; another is unlinked and created anew. -/
def cloneToExistingFileNode (m : NodeMetadata) (src : FsNodeData) (dstParent dstId : Nat) :
    Option (NodeMetadata × Nat) :=
  match m.getNode dstId with
  | none => some (m, dstId)
  | some d =>
    if d.length = src.length ∧ d.chunks = src.chunks then some (m, dstId) else do
    let m := m.unlink ts dstParent task.name dstId
    let (m, id) ← m.createNode ts dstParent task.name .file src.mode 0 src.uid src.gid false task.dstInode
    some (cloneChunkData m src id dstParent, id)

/-- `cloneToExistingNode(ts, src_node, dst_parent, dst_node)`: the node's data by
type, then its mode, owners and times assigned from the source. Returns the
destination node and the tasks enqueued. -/
def cloneToExistingNode (m : NodeMetadata) (src : FsNodeData) (dstParent dstId : Nat) :
    Option (NodeMetadata × Nat × List SnapshotTask) := do
  let (m, dstId, enq) ← match src.type with
    | .directory => some (m, dstId, task.cloneDirectoryData src dstId)
    | .file => (task.cloneToExistingFileNode ts m src dstParent dstId).map fun (m, id) => (m, id, [])
    | .symlink => some (cloneSymlinkData m src dstId dstParent, dstId, [])
    | .blockDev | .charDev => some (m.modifyNode dstId fun d => { d with rdev := src.rdev }, dstId, [])
    | _ => some (m, dstId, [])
  let m := m.modifyNode dstId fun d =>
    { d with
      mode := src.mode, uid := src.uid, gid := src.gid, atime := src.atime, mtime := src.mtime, ctime := ts }
  some (m, dstId, enq)

/-- `cloneToNewNode(ts, src_node, dst_parent)`. -/
def cloneToNewNode (m : NodeMetadata) (src : FsNodeData) (dstParent : Nat) :
    Option (NodeMetadata × Nat × List SnapshotTask) := do
  let (m, id) ← m.createNode ts dstParent task.name src.type src.mode 0 src.uid src.gid false task.dstInode
  let m := m.modifyNode id fun d =>
    { d with
      goal := src.goal, trashtime := src.trashtime, mode := src.mode, atime := src.atime, mtime := src.mtime }
  match src.type with
  | .directory => some (m, id, task.cloneDirectoryData src id)
  | .file => some (cloneChunkData m src id dstParent, id, [])
  | .symlink => some (cloneSymlinkData m src id dstParent, id, [])
  | .blockDev | .charDev => some (m.modifyNode id fun d => { d with rdev := src.rdev }, id, [])
  | _ => some (m, id, [])

/-- `cloneNode(ts)`: clone the current subtask's node; the tasks it enqueues are
returned with the status. `none` is an abort of `fsnodes_create_node`. -/
def cloneNode (m : NodeMetadata) : Option (NodeMetadata × Status × List SnapshotTask) :=
  match m.getNode task.srcInode with
  | none => some (m, .enoent, [])
  | some src =>
    if src.type = .trash ∨ src.type = .reserved then some (m, .enoent, []) else
    match m.getNode task.dstParentInode with
    | none => some (m, .einval, [])
    | some dp =>
      if dp.type ≠ .directory then some (m, .einval, []) else
      let dst := (m.lookup task.dstParentInode task.name).bind fun id => (m.getNode id).map (id, ·)
      let status := task.cloneNodeTest q src dst task.dstParentInode
      if status ≠ .ok then some (m, status, []) else do
      let (m, dstId, enq) ← match dst with
        | some (dstId, _) => task.cloneToExistingNode ts m src task.dstParentInode dstId
        | none => task.cloneToNewNode ts m src task.dstParentInode
      let m := { m with metaversion := m.metaversion + 1 }
      if task.dstInode ≠ 0 ∧ task.dstInode ≠ dstId then some (m, .mismatch, enq)
      else some (m, .ok, enq)

/-- `execute(ts, work_queue)`: one subtask; the enqueued tasks are handed to the
job when it succeeds. A missing source is not an error when the task ignores it. -/
def execute (m : NodeMetadata) : Option (NodeMetadata × Status × SnapshotTask × List SnapshotTask) := do
  let (m, status, enq) ← task.cloneNode q ts m
  let task' := { task with subtask := task.subtask.tail }
  if task.ignoreMissingSrc ∧ status = .enoent then some (m, .ok, task', [])
  else if status = .ok then some (m, .ok, task', enq)
  else some (m, status, task', [])

end SnapshotTask

/-- The task `fs_snapshot` submits: one subtask, the source node under `name` in
the destination directory. -/
def fsSnapshotTask (src parentDst : Nat) (name : List UInt8) (canOverwrite ignoreMissingSrc : Bool) :
    SnapshotTask :=
  ⟨[(src, name)], src, parentDst, 0, canOverwrite, ignoreMissingSrc, true, true⟩

/-- A job between two calls of `processTask`. -/
inductive JobState where
  /-- the tasks left, the running one first -/
  | running (tasks : List SnapshotTask)
  /-- `finalize(status)` was called -/
  | finished (status : Status)
  deriving DecidableEq, Repr

/-- `Job::processTask(ts)` with `finalizeTask`: the job ends on an error, or when
its last task has no subtask left; a finished task leaves the queue. -/
def processTask (q : QuotaCheck) (ts : UInt32) (m : NodeMetadata) :
    List SnapshotTask → Option (NodeMetadata × JobState)
  | [] => some (m, .running [])
  | t :: rest => do
    let (m, status, t', enq) ← t.execute q ts m
    let tasks := t' :: (rest ++ enq)
    if status ≠ .ok ∨ (t'.subtask = [] ∧ tasks.length ≤ 1) then some (m, .finished status)
    else if t'.subtask = [] then some (m, .running (rest ++ enq))
    else some (m, .running tasks)

/-- Run a job until it finishes, one unit of fuel per `processTask`; `none` when the
fuel runs out or a step aborts. -/
def runJob (q : QuotaCheck) (ts : UInt32) : Nat → NodeMetadata → List SnapshotTask → Option (NodeMetadata × Status)
  | 0, _, _ => none
  | fuel + 1, m, tasks => do
    let (m, st) ← processTask q ts m tasks
    match st with
    | .finished status => some (m, status)
    | .running [] => some (m, .ok)
    | .running tasks => runJob q ts fuel m tasks

/-! ## Merging into a directory of another owner -/

namespace SnapshotCase

/-- A directory owned by user and group `uid`. -/
def dir (uid : Nat) (parent : List Nat) (entries : List (List UInt8 × Nat)) (stats : StatsRecord) :
    FsNodeData :=
  { type := .directory, parent, entries, goal := 1, chunks := [], length := 0, mtime := 0, ctime := 0,
    mode := 0o755, uid, gid := uid, atime := 0, trashtime := 0, path := [], rdev := 0, sessionid := [], stats }

/-- A directory charges one inode to its user and its group. -/
theorem usage_dir (uid : Nat) (parent : List Nat) (entries : List (List UInt8 × Nat)) (stats : StatsRecord)
    (t : QuotaOwnerType) (o : Nat) (r : QuotaResource) :
    (dir uid parent entries stats).usage t o r =
      if (t = .user ∧ uid = o ∨ t = .group ∧ uid = o) ∧ r = .inodes then 1 else 0 :=
  FsNodeData.usage_of_not_isFileLike rfl t o r

/-- `"src"` and `"dst"`. -/
def srcName : List UInt8 := [115, 114, 99]
def dstName : List UInt8 := [100, 115, 116]

/-- The root (owned by 0) holds `src`, an empty directory of user 1, and `dst`, an
empty directory of user 2; every counter is what the nodes add up to. -/
def before : NodeMetadata where
  nodes := [(1, dir 0 [] [(srcName, 2), (dstName, 3)] ⟨2, 2, 0, 0, 0, 0⟩),
    (2, dir 1 [specialInodeRoot] [] 0), (3, dir 2 [specialInodeRoot] [] 0)]
  quotaDatabase := ⟨fun t o r => if t ≠ .inode ∧ r = .inodes ∧ o ≤ 2 then 1 else 0⟩
  inodePool := IdPoolDetainer.new 86400 12 15 15
  maxnodeid := 3
  chunks := ⟨fun _ => none, 1, chunksChecksumSeed⟩
  trash := []
  reserved := []
  trashspace := 0
  reservedspace := 0
  trashnodes := 0
  reservednodes := 0
  nodeCount := 3
  dirnodes := 3
  filenodes := 0
  metaversion := 0

/-- No quota limit is reached. -/
def noLimits : QuotaCheck := ⟨fun _ _ _ => false, fun _ _ => false⟩

/-- `fs_snapshot` of `src` to `dst` in the root, overwriting allowed. -/
def run : Option (NodeMetadata × Status) :=
  runJob noLimits 100 10 before [fsSnapshotTask 2 specialInodeRoot dstName true false]

theorem before_nodes : before.nodes =
    [(1, dir 0 [] [(srcName, 2), (dstName, 3)] ⟨2, 2, 0, 0, 0, 0⟩),
      (2, dir 1 [specialInodeRoot] [] 0), (3, dir 2 [specialInodeRoot] [] 0)] := rfl

theorem before_used (t : QuotaOwnerType) (o : Nat) (r : QuotaResource) :
    before.quotaDatabase.used t o r = if t ≠ .inode ∧ r = .inodes ∧ o ≤ 2 then 1 else 0 := rfl

theorem before_quotaExact : before.QuotaExact := by
  intro t o r ht
  simp only [NodeMetadata.tally, before_nodes, before_used, List.map_cons, List.map_nil, List.sum_cons,
    List.sum_nil, usage_dir]
  -- only users and groups 0, 1 and 2 own a node, one each
  cases t <;> cases r <;> simp at ht ⊢ <;> omega

/-- `fsnodes_change_uid_gid` giving `dst` to user 1 keeps the counters exact, where the
snapshot below does not. -/
theorem chown_dst_keeps_quota_exact :
    before.NodesUnique ∧ before.QuotaExact ∧ (before.changeUidGid 3 1 1).QuotaExact := by
  have hu : before.NodesUnique := by
    unfold NodeMetadata.NodesUnique
    decide
  exact ⟨hu, before_quotaExact, NodeMetadata.changeUidGid_quotaExact hu before_quotaExact 3 1 1⟩

end SnapshotCase

/-- Snapshotting a directory onto an existing directory of another user succeeds,
and `cloneToExistingNode` gives the existing directory the source's uid by plain
assignment: the counters of user 1 still say one inode while two nodes are now
owned by that user, those of user 2 one while none is. The state before is exact in both
aggregates. -/
theorem snapshot_over_other_owner_skews_quota :
    SnapshotCase.before.QuotaExact ∧ SnapshotCase.before.statsExact = true ∧
    SnapshotCase.run.map (fun r => (r.2, r.1.statsExact,
        r.1.quotaDatabase.used .user 1 .inodes, r.1.tally (FsNodeData.usage .user 1 .inodes),
        r.1.quotaDatabase.used .user 2 .inodes, r.1.tally (FsNodeData.usage .user 2 .inodes))) =
      some (.ok, true, 1, 2, 1, 0) :=
  ⟨SnapshotCase.before_quotaExact, by decide, by decide⟩

end LizardFs
