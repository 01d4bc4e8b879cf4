import Mathlib
import LizardFs.Master.ChunkTable

/-!
# The node table and how an operation finds its node

Model of the parts of `src/master/filesystem_node.cc` that every `fs_*` operation
goes through before it reads or changes a node:

* `FsNode` — the fields of an `FSNode` (with those of `FSNodeFile` and
  `FSNodeDirectory`) that the modelled operations use; the node table is a function
  from inode numbers, as `fsnodes_id_to_node` sees it;
* `FsContext` — `fs_context.h`: the time stamp, the personality and the session;
* `verifySession` — `verify_session`;
* `fsnodesIsancestor` — the walk of `fsnodes_isancestor` up the first parents;
* `fsnodesGetNodeForOperation` — `fsnodes_get_node_for_operation`: the node a
  session may address by an inode number, with the checks of its type and of the
  permissions.

`fsnodes_access` reads the node's mode, owner and ACL and the session's uid and
groups; the model takes its answer as the session's `access` function.
-/

namespace LizardFs

/-- `FSNode::type`. -/
inductive NodeType where
  | file
  | directory
  | symlink
  | fifo
  | blockDev
  | charDev
  | socket
  | trash
  | reserved
  deriving DecidableEq, Repr

/-- The fields of a node that the modelled operations read or write. A name is the
bytes of its `HString`. -/
structure FsNode where
  type : NodeType
  /-- the directories the node is an entry of -/
  parent : List Nat
  /-- `FSNodeDirectory::entries`: a name and the node it names -/
  entries : List (List UInt8 × Nat)
  goal : Nat
  /-- `FSNodeFile::chunks`, `0` for a hole -/
  chunks : List Nat
  length : Nat
  mtime : UInt32
  ctime : UInt32
  deriving DecidableEq, Repr

/-- `SPECIAL_INODE_ROOT`: the root of the file system, and of every session. -/
def specialInodeRoot : Nat := 1

/-- `MAX_INDEX`: the highest chunk index of a file. -/
def maxIndex : Nat := 0x7FFFFFFF

/-- How many inode numbers there are (`uint32_t`). -/
def inodeIdCount : Nat := 2 ^ 32

/-- `MODE_MASK_W`. -/
def modeMaskW : UInt8 := 2

/-- `MODE_MASK_X`. -/
def modeMaskX : UInt8 := 1

/-- `MODE_MASK_EMPTY`. -/
def modeMaskEmpty : UInt8 := 0

/-! ## Contexts -/

/-- The session an operation comes from. -/
structure SessionData where
  /-- the inode the session mounted, `0` for the meta root -/
  rootinode : Nat
  /-- `sesflags & SESFLAG_READONLY` -/
  readonly : Bool
  /-- `fsnodes_access` for the session's user, when the context has uid and gid data -/
  access : Option (Nat → UInt8 → Bool)

/-- `metadataserver::Personality`. The master also brings what it learns outside
the metadata: what `chunk_multi_modify` and `chunk_multi_truncate` find among the
chunkservers, and `fsnodes_quota_exceeded` for the node of the operation. -/
inductive Personality where
  | master (env : ChunkEnv) (quotaExceeded : Bool)
  | shadow

/-- `FsContext`. -/
structure FsContext where
  ts : UInt32
  personality : Personality
  session : Option SessionData

namespace FsContext

/-- `FsContext::getForRestore(ts)`: what `restore_line` replays a changelog entry in. -/
def getForRestore (ts : UInt32) : FsContext := ⟨ts, .shadow, none⟩

/-- `matoclserv_get_context`: a session's request on the master, at
`eventloop_time()`, which is also the clock of the chunk layer. -/
def getForMaster (env : ChunkEnv) (quotaExceeded : Bool) (session : SessionData) : FsContext :=
  ⟨env.now, .master env quotaExceeded, some session⟩

variable (ctx : FsContext)

/-- `FsContext::rootinode()`; a context without session has `SPECIAL_INODE_ROOT`. -/
def rootinode : Nat := (ctx.session.map (·.rootinode)).getD specialInodeRoot

def isPersonalityMaster : Bool :=
  match ctx.personality with
  | .master _ _ => true
  | .shadow => false

/-- `FsContext::canCheckPermissions()`: session data, uid and gid data, and the
master personality. -/
def canCheckPermissions : Bool :=
  match ctx.session with
  | some s => s.access.isSome && ctx.isPersonalityMaster
  | none => false

/-- `fsnodes_access(context, node, modemask)`. -/
def access (id : Nat) (modemask : UInt8) : Bool :=
  match ctx.session.bind (·.access) with
  | some f => f id modemask
  | none => true

@[simp] theorem getForRestore_session (ts : UInt32) : (getForRestore ts).session = none := rfl

@[simp] theorem getForRestore_ts (ts : UInt32) : (getForRestore ts).ts = ts := rfl

@[simp] theorem getForRestore_isPersonalityMaster (ts : UInt32) :
    (getForRestore ts).isPersonalityMaster = false := rfl

end FsContext

/-- `OperationMode`. -/
inductive OperationMode where
  | readWrite
  | readOnly
  deriving DecidableEq, Repr

/-- `SessionType`: which sessions may run an operation. -/
inductive SessionType where
  | notMeta
  | onlyMeta
  | any
  deriving DecidableEq, Repr

/-- `verify_session(context, operationMode, sessionType)`. -/
def verifySession (ctx : FsContext) (mode : OperationMode) (sessionType : SessionType) : Status :=
  match ctx.session with
  | none => .ok
  | some s =>
    if s.readonly ∧ mode = .readWrite then .erofs
    else if s.rootinode = 0 ∧ sessionType = .notMeta then .enoent
    else if s.rootinode ≠ 0 ∧ sessionType = .onlyMeta then .eperm
    else .ok

@[simp] theorem verifySession_getForRestore (ts : UInt32) (mode : OperationMode) (st : SessionType) :
    verifySession (FsContext.getForRestore ts) mode st = .ok := rfl

/-! ## Ancestors -/

/-- The inner loop of `fsnodes_isancestor`: from directory `d` up the first
parents, true when it meets `ancestor`. The source loops until a directory without
parent; the model stops after `fuel` directories, which a walk on a tree of
directories (no directory met twice) never reaches with `inodeIdCount`. -/
def climbsTo (nodes : Nat → Option FsNode) (ancestor : Nat) : Nat → Nat → Bool
  | 0, _ => false
  | fuel + 1, d =>
    match nodes d with
    | none => false
    | some dn =>
      d == ancestor ||
        match dn.parent with
        | [] => false
        | p :: _ => climbsTo nodes ancestor fuel p

/-- `fsnodes_isancestor(ancestor, node)`: a walk from one of the node's parents
meets `ancestor`. -/
def fsnodesIsancestor (nodes : Nat → Option FsNode) (ancestor : Nat) (node : FsNode) : Bool :=
  node.parent.any (climbsTo nodes ancestor inodeIdCount)

/-- `fsnodes_isancestor_or_node_reserved_or_trash(ancestor, node)`. -/
def fsnodesIsancestorOrNodeReservedOrTrash (nodes : Nat → Option FsNode) (ancestor : Nat)
    (node : FsNode) : Bool :=
  node.type = .reserved || node.type = .trash || fsnodesIsancestor nodes ancestor node

/-! ## Finding the node of an operation -/

/-- `ExpectedNodeType`. -/
inductive ExpectedNodeType where
  | file
  | directory
  | notDirectory
  | fileOrDirectory
  | any
  deriving DecidableEq, Repr

/-- A node that holds chunks: `kFile`, `kTrash` or `kReserved`. -/
def NodeType.isFileLike (t : NodeType) : Bool := t = .file || t = .trash || t = .reserved

/-- The type checks at the end of `fsnodes_get_node_for_operation`. -/
def ExpectedNodeType.check : ExpectedNodeType → NodeType → Status
  | .directory, t => if t ≠ .directory then .enotdir else .ok
  | .notDirectory, t => if t = .directory then .eperm else .ok
  | .file, t => if !t.isFileLike then .eperm else .ok
  | .fileOrDirectory, t => if t ≠ .directory ∧ !t.isFileLike then .eperm else .ok
  | .any, _ => .ok

/-- The first part of `fsnodes_get_node_for_operation`: which node the inode number
names for the context's session, and its id. A session mounted on a directory other
than the root addresses that directory as `SPECIAL_INODE_ROOT`, and other nodes only
below it or in the trash or reserved; the meta root addresses only the trash and the
reserved nodes. -/
def sessionNode (nodes : Nat → Option FsNode) (ctx : FsContext) (inode : Nat) :
    Except Status (Nat × FsNode) :=
  match ctx.session with
  | none =>
    match nodes inode with
    | none => .error .enoent
    | some p => .ok (inode, p)
  | some s =>
    if s.rootinode = specialInodeRoot ∨ s.rootinode = 0 then
      match nodes inode with
      | none => .error .enoent
      | some p =>
        if s.rootinode = 0 ∧ p.type ≠ .trash ∧ p.type ≠ .reserved then .error .eperm
        else .ok (inode, p)
    else
      match nodes s.rootinode with
      | none => .error .enoent
      | some rn =>
        if rn.type ≠ .directory then .error .enoent
        else if inode = specialInodeRoot then .ok (s.rootinode, rn)
        else
          match nodes inode with
          | none => .error .enoent
          | some p =>
            if !fsnodesIsancestorOrNodeReservedOrTrash nodes s.rootinode p then .error .eperm
            else .ok (inode, p)

/-- `fsnodes_get_node_for_operation(context, expectedNodeType, modemask, inode, ...)`:
the id of the node and the node. -/
def fsnodesGetNodeForOperation (nodes : Nat → Option FsNode) (ctx : FsContext)
    (expected : ExpectedNodeType) (modemask : UInt8) (inode : Nat) : Except Status (Nat × FsNode) :=
  match sessionNode nodes ctx inode with
  | .error e => .error e
  | .ok (id, p) =>
    match expected.check p.type with
    | .ok => if ctx.canCheckPermissions && !ctx.access id modemask then .error .eacces else .ok (id, p)
    | e => .error e

/-! ## What the lookup returns -/

section Lookup

variable {nodes : Nat → Option FsNode} {ctx : FsContext} {inode id : Nat} {p : FsNode}

/-- **What the session's lookup finds**: the node of the id it returns, which is
the inode asked for or a directory (the session's own root). -/
theorem sessionNode_eq_ok (h : sessionNode nodes ctx inode = .ok (id, p)) :
    nodes id = some p ∧ (id = inode ∨ p.type = .directory) := by
  unfold sessionNode at h
  repeat' split at h
  all_goals (cases h <;> grind)

/-- The node found passed the type check. -/
theorem fsnodesGetNodeForOperation_eq_ok {expected : ExpectedNodeType} {modemask : UInt8}
    (h : fsnodesGetNodeForOperation nodes ctx expected modemask inode = .ok (id, p)) :
    sessionNode nodes ctx inode = .ok (id, p) ∧ expected.check p.type = .ok := by
  unfold fsnodesGetNodeForOperation at h
  split at h
  · cases h
  · rename_i id' p' hs
    split at h
    · split at h
      · cases h
      · cases h
        exact ⟨hs, by assumption⟩
    · cases h

theorem check_file_isFileLike {t : NodeType} (h : ExpectedNodeType.file.check t = .ok) : t.isFileLike = true := by
  simp only [ExpectedNodeType.check] at h
  split at h
  · cases h
  · rename_i hf
    simpa using hf

/-- **A node found for a file operation is the node of that inode**, and holds
chunks. -/
theorem fsnodesGetNodeForOperation_file {modemask : UInt8}
    (h : fsnodesGetNodeForOperation nodes ctx .file modemask inode = .ok (id, p)) :
    id = inode ∧ nodes inode = some p ∧ p.type.isFileLike = true := by
  obtain ⟨hs, hc⟩ := fsnodesGetNodeForOperation_eq_ok h
  have hf := check_file_isFileLike hc
  obtain ⟨hp, hid | hdir⟩ := sessionNode_eq_ok hs
  · subst hid
    exact ⟨rfl, hp, hf⟩
  · -- the session's root is a directory, which holds no chunks
    rw [hdir] at hf
    cases hf

/-- Without a session (the shadow, metarestore) the node of an inode is found
whenever it passes the type check. -/
theorem fsnodesGetNodeForOperation_getForRestore {ts : UInt32} {expected : ExpectedNodeType}
    {modemask : UInt8} (hp : nodes inode = some p) (hc : expected.check p.type = .ok) :
    fsnodesGetNodeForOperation nodes (FsContext.getForRestore ts) expected modemask inode = .ok (inode, p) := by
  simp only [fsnodesGetNodeForOperation, sessionNode, FsContext.getForRestore_session, hp, hc]
  rfl

end Lookup

end LizardFs
