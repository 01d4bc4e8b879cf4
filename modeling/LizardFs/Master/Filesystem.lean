import Mathlib
import LizardFs.Master.Nodes

/-!
# Writing and truncating a file's chunks, on the master and in replay

Model of the three operations of `src/master/filesystem_operations.cc` that change
which chunk a file holds at an index, and of their replay in `restore.cc`:

* `fsWritechunk` — `fs_writechunk`, run by the master for a client's write (through
  `chunk_multi_modify`) and by a shadow for a `WRITE` entry (through
  `chunk_apply_modification`);
* `fsTrySetlength` — `fs_try_setlength`, the master's truncation inside a chunk
  (through `chunk_multi_truncate`);
* `fsApplyTrunc` — `fs_apply_trunc`, the replay of a `TRUNC` entry;
* `restoreEntry` — `restore_line` on the two entries, through `do_write` and
  `do_trunc`.

The master's `fs_changelog` writes an entry and takes the next metaversion; the
model keeps the entries written, with their time stamps. Entries are the numbers
`restore_line` parses out of a line; the text itself is not modelled. Statistics,
quotas, the node checksums (which read a file's length and its first and last
chunk) and `fs_auto_repair_if_needed` (off unless `MAGIC_AUTO_FILE_REPAIR`) are
left out.
-/

namespace LizardFs

/-- `MFSCHUNKBITS`: a chunk holds `2 ^ 26` bytes. -/
def mfsChunkBits : Nat := 26

/-- `MFSCHUNKMASK`. -/
def mfsChunkMask : Nat := 2 ^ 26 - 1

/-- A changelog entry of the two kinds modelled, as `restore_line` reads it; the
fields in brackets may be missing from the entries of older masters. -/
inductive ChangelogEntry where
  /-- `WRITE(inode,indx[,opflag[,lockid]]):chunkid` -/
  | write (inode indx : Nat) (opflag : Option Nat) (lockid : Option UInt32) (chunkid : Nat)
  /-- `TRUNC(inode,indx[,lockid]):chunkid` -/
  | trunc (inode indx : Nat) (lockid : Option UInt32) (chunkid : Nat)
  deriving DecidableEq, Repr

/-- The metadata (`gMetadata` with the chunks of `gChunksMetadata`), and the
entries the master's `fs_changelog` has written, oldest first. -/
structure FsMetadata where
  nodes : Nat → Option FsNode
  chunks : ChunksMetadata
  metaversion : Nat
  changelog : List (UInt32 × ChangelogEntry)

namespace FsMetadata

variable (m : FsMetadata)

/-- Change the fields of node `id`. -/
def setNode (id : Nat) (p : FsNode) : FsMetadata := { m with nodes := Function.update m.nodes id (some p) }

/-- `fs_changelog(ts, entry)`: the entry is written under the current metaversion,
which goes up. -/
def changelogAppend (ts : UInt32) (e : ChangelogEntry) : FsMetadata :=
  { m with metaversion := m.metaversion + 1, changelog := m.changelog ++ [(ts, e)] }

@[simp] theorem setNode_metaversion (id : Nat) (p : FsNode) : (m.setNode id p).metaversion = m.metaversion := rfl

@[simp] theorem setNode_nodes (id : Nat) (p : FsNode) :
    (m.setNode id p).nodes = Function.update m.nodes id (some p) := rfl

@[simp] theorem changelogAppend_nodes (ts : UInt32) (e : ChangelogEntry) : (m.changelogAppend ts e).nodes = m.nodes := rfl

@[simp] theorem changelogAppend_metaversion (ts : UInt32) (e : ChangelogEntry) :
    (m.changelogAppend ts e).metaversion = m.metaversion + 1 := rfl

end FsMetadata

/-! ## `fs_writechunk` -/

/-- `std::vector::resize(n, a)`. -/
def vectorResize {α : Type} (l : List α) (n : Nat) (a : α) : List α := l.take n ++ List.replicate (n - l.length) a

/-- The new size of a file's chunk list when chunk `indx` lies past its end: one
more below 8, up to the next multiple of 8 below 64 and of 64 above. The source
writes `(indx & 0xFFFFFFF8) + 8` and `(indx & 0xFFFFFFC0) + 64` on the `uint32_t`
index, which clear its low three and six bits. -/
def chunksNewSize (indx : Nat) : Nat :=
  if indx < 8 then indx + 1
  else if indx < 64 then indx - indx % 8 + 8
  else indx - indx % 64 + 64

/-- The file with its chunk list grown to hold index `indx`. -/
def FsNode.resized (p : FsNode) (indx : Nat) : FsNode :=
  if indx ≥ p.chunks.length then { p with chunks := vectorResize p.chunks (chunksNewSize indx) 0 } else p

/-- The file after a write of chunk `nchunkid` at `indx` at time `ts`. -/
def FsNode.written (p : FsNode) (indx nchunkid : Nat) (ts : UInt32) : FsNode :=
  { p with chunks := p.chunks.set indx nchunkid, mtime := ts, ctime := ts }

/-- `context.isPersonalityMaster() && quota_exceeded`. -/
def FsContext.quotaExceededOnMaster (ctx : FsContext) : Bool :=
  match ctx.personality with
  | .master _ q => q
  | .shadow => false

@[simp] theorem FsContext.quotaExceededOnMaster_getForRestore (ts : UInt32) :
    (FsContext.getForRestore ts).quotaExceededOnMaster = false := rfl

/-- The chunk step of `fs_writechunk`: the master decides with
`chunk_multi_modify`, a shadow replays with `chunk_apply_modification`, the logged
`opflag` telling whether the version goes up. The table, the lock id, `opflag` and
the id of the chunk to write. -/
def writeChunkStep (ctx : FsContext) (t : ChunksMetadata) (ochunkid : Nat) (lockid : UInt32) (goal : Nat)
    (usedummylockid : Bool) (opflag : Nat) : Except Status (ChunksMetadata × UInt32 × Nat × Nat) :=
  match ctx.personality with
  | .master env quota => chunkMultiModify env t ochunkid lockid goal usedummylockid quota
  | .shadow =>
    (chunkApplyModification t ctx.ts ochunkid lockid goal (opflag ≠ 0)).map fun (t', id) => (t', lockid, opflag, id)

/-- What `fs_writechunk` hands back through `lockid`, `chunkid`, `opflag` and
`length`. -/
structure WriteOut where
  lockid : UInt32
  chunkid : Nat
  opflag : Nat
  length : Nat
  deriving DecidableEq, Repr

/-- `fs_writechunk(context, inode, indx, usedummylockid, lockid, chunkid, opflag,
length)`: the metadata after it, and its status with the out-parameters. The chunk
list is grown before the chunk step, and stays grown when the step fails. -/
def fsWritechunk (m : FsMetadata) (ctx : FsContext) (inode indx : Nat) (usedummylockid : Bool)
    (lockid : UInt32) (chunkid opflag : Nat) : FsMetadata × Except Status WriteOut :=
  match verifySession ctx .readWrite .notMeta with
  | .ok =>
    match fsnodesGetNodeForOperation m.nodes ctx .file modeMaskEmpty inode with
    | .error e => (m, .error e)
    | .ok (id, p) =>
      if indx > maxIndex then (m, .error .indextoobig)
      else if indx ≥ p.chunks.length ∧ ctx.quotaExceededOnMaster = true then (m, .error .quota)
      else
        let p₁ := p.resized indx
        let m₁ := m.setNode id p₁
        match writeChunkStep ctx m.chunks (p₁.chunks.getD indx 0) lockid p.goal usedummylockid opflag with
        | .error e => (m₁, .error e)
        | .ok (t, lockid', opflag', nchunkid) =>
          if !ctx.isPersonalityMaster ∧ nchunkid ≠ chunkid then ({ m₁ with chunks := t }, .error .mismatch)
          else
            let m₂ := { m₁ with chunks := t }.setNode id (p₁.written indx nchunkid ctx.ts)
            let m₃ :=
              if ctx.isPersonalityMaster then
                m₂.changelogAppend ctx.ts (.write inode indx (some opflag') (some lockid') nchunkid)
              else { m₂ with metaversion := m₂.metaversion + 1 }
            (m₃, .ok ⟨lockid', nchunkid, opflag', p.length⟩)
  | e => (m, .error e)

/-! ## `fs_try_setlength` and `fs_apply_trunc` -/

/-- The truncated file: chunk `nchunkid` at `indx`. -/
def FsNode.truncated (p : FsNode) (indx nchunkid : Nat) : FsNode := { p with chunks := p.chunks.set indx nchunkid }

/-- `fs_try_setlength(context, inode, opened, length, denyTruncatingParity, lockId,
attr, chunkid)`, master code that reads the clock and the chunkservers (`env`) and
`fsnodes_quota_exceeded`. When the new length ends inside a chunk of the file, the
truncation of that chunk starts: `LIZARDFS_ERROR_DELAYED`, modelled as `.ok` with
the metadata after it and the chunk's id. Otherwise `LIZARDFS_STATUS_OK`, `.ok`
with the metadata unchanged and no chunk. -/
def fsTrySetlength (m : FsMetadata) (ctx : FsContext) (env : ChunkEnv) (quotaExceeded : Bool)
    (inode opened length : Nat) (denyTruncatingParity : Bool) (lockId : UInt32) :
    Except Status (FsMetadata × Option Nat) :=
  match verifySession ctx .readWrite .notMeta with
  | .ok =>
    match fsnodesGetNodeForOperation m.nodes ctx .file (if opened = 0 then modeMaskW else modeMaskEmpty) inode with
    | .error e => .error e
    | .ok (id, p) =>
      -- `uint32_t indx = (length >> MFSCHUNKBITS)`
      let indx := (length >>> mfsChunkBits) % 2 ^ 32
      if length &&& mfsChunkMask ≠ 0 ∧ indx < p.chunks.length ∧ 0 < p.chunks.getD indx 0 then
        -- parity parts are kept only when truncating down
        let deny := denyTruncatingParity && decide (length < p.length)
        match chunkMultiTruncate env m.chunks (p.chunks.getD indx 0) lockId p.goal deny quotaExceeded with
        | .error e => .error e
        | .ok (t, nchunkid) =>
          .ok (({ m with chunks := t }.setNode id (p.truncated indx nchunkid)).changelogAppend env.now
              (.trunc id indx (some lockId) nchunkid), some nchunkid)
      else .ok (m, none)
  | e => .error e

/-- `fs_apply_trunc(ts, inode, indx, chunkid, lockid)`: the metadata after it and
its status. A chunk modified under another id than the logged one stays modified. -/
def fsApplyTrunc (m : FsMetadata) (ts : UInt32) (inode indx chunkid : Nat) (lockid : UInt32) : FsMetadata × Status :=
  match m.nodes inode with
  | none => (m, .enoent)
  | some p =>
    if !p.type.isFileLike then (m, .einval)
    else if indx > maxIndex then (m, .indextoobig)
    else if indx ≥ p.chunks.length then (m, .einval)
    else if p.chunks.getD indx 0 = 0 then (m, .nochunk)
    else
      match chunkApplyModification m.chunks ts (p.chunks.getD indx 0) lockid p.goal true with
      | .error e => (m, e)
      | .ok (t, nchunkid) =>
        if chunkid ≠ nchunkid then ({ m with chunks := t }, .mismatch)
        else ({ m with chunks := t, metaversion := m.metaversion + 1 }.setNode inode (p.truncated indx nchunkid), .ok)

/-! ## Replay -/

/-- `do_write`: `fs_writechunk` in `FsContext::getForRestore(ts)`; a missing
`opflag` or lock id reads as `1`, and `opflag` is stored in a `uint8_t`. -/
def doWrite (m : FsMetadata) (ts : UInt32) (inode indx : Nat) (opflag : Option Nat) (lockid : Option UInt32)
    (chunkid : Nat) : FsMetadata × Status :=
  match fsWritechunk m (FsContext.getForRestore ts) inode indx false (lockid.getD 1) chunkid ((opflag.getD 1) % 256) with
  | (m', .ok _) => (m', .ok)
  | (m', .error e) => (m', e)

/-- `do_trunc`: `fs_apply_trunc`; a missing lock id reads as `0`. -/
def doTrunc (m : FsMetadata) (ts : UInt32) (inode indx : Nat) (lockid : Option UInt32) (chunkid : Nat) :
    FsMetadata × Status :=
  fsApplyTrunc m ts inode indx chunkid (lockid.getD 0)

/-- `restore_line` on an entry of time stamp `ts`. -/
def restoreEntry (m : FsMetadata) (ts : UInt32) : ChangelogEntry → FsMetadata × Status
  | .write inode indx opflag lockid chunkid => doWrite m ts inode indx opflag lockid chunkid
  | .trunc inode indx lockid chunkid => doTrunc m ts inode indx lockid chunkid

/-! ## The sizes of chunk lists -/

/-- A file grows to at most `MAX_INDEX + 1` chunks. -/
theorem chunksNewSize_le {indx : Nat} (h : indx ≤ maxIndex) : chunksNewSize indx ≤ maxIndex + 1 := by
  unfold chunksNewSize maxIndex at *
  split
  · omega
  split <;> omega

theorem length_vectorResize {α : Type} (l : List α) (n : Nat) (a : α) : (vectorResize l n a).length = n := by
  simp only [vectorResize, List.length_append, List.length_take, List.length_replicate]
  omega

/-- Writing at an index below `MAX_INDEX` keeps a chunk list within `MAX_INDEX + 1`. -/
theorem length_resized_le {p : FsNode} {indx : Nat} (hp : p.chunks.length ≤ maxIndex + 1) (hi : indx ≤ maxIndex) :
    (p.resized indx).chunks.length ≤ maxIndex + 1 := by
  unfold FsNode.resized
  split
  · rw [length_vectorResize]
    exact chunksNewSize_le hi
  · exact hp

/-! ## What the operations do

One lemma for each way an operation is used: what a master's successful call did,
and what a shadow's replay does on a file that is there. -/

section Spec

variable {m m' : FsMetadata} {ctx : FsContext} {env : ChunkEnv} {quota : Bool}
  {inode indx : Nat} {p : FsNode}

theorem isPersonalityMaster_of_master (hctx : ctx.personality = .master env quota) :
    ctx.isPersonalityMaster = true := by
  simp only [FsContext.isPersonalityMaster, hctx]

theorem writeChunkStep_of_master (hctx : ctx.personality = .master env quota) (t : ChunksMetadata)
    (ochunkid : Nat) (lockid : UInt32) (goal : Nat) (dummy : Bool) (opflag : Nat) :
    writeChunkStep ctx t ochunkid lockid goal dummy opflag = chunkMultiModify env t ochunkid lockid goal dummy quota := by
  simp only [writeChunkStep, hctx]

/-- **A successful write on the master** found the file of `inode`, had `chunk_multi_modify`
decide on the chunk at `indx` of its grown chunk list, wrote the chosen chunk there
and logged a `WRITE` entry with all its fields. -/
theorem fsWritechunk_master_eq_ok {dummy : Bool} {lockid : UInt32} {chunkid opflag : Nat} {r : WriteOut}
    (hctx : ctx.personality = .master env quota)
    (h : fsWritechunk m ctx inode indx dummy lockid chunkid opflag = (m', .ok r)) :
    ∃ p t, m.nodes inode = some p ∧ p.type.isFileLike = true ∧ indx ≤ maxIndex ∧
      chunkMultiModify env m.chunks ((p.resized indx).chunks.getD indx 0) lockid p.goal dummy quota =
        .ok (t, r.lockid, r.opflag, r.chunkid) ∧
      m' = ({ m with chunks := t }.setNode inode ((p.resized indx).written indx r.chunkid ctx.ts)).changelogAppend
        ctx.ts (.write inode indx (some r.opflag) (some r.lockid) r.chunkid) := by
  unfold fsWritechunk at h
  split at h
  case h_2 => cases h
  split at h
  · cases h
  rename_i id p hg
  obtain ⟨rfl, hp, hf⟩ := fsnodesGetNodeForOperation_file hg
  -- the index and quota checks only fail
  split at h
  · cases h
  rename_i hi
  split at h
  · cases h
  simp only [writeChunkStep_of_master hctx] at h
  split at h
  · cases h
  rename_i t lockid' opflag' nchunkid hmod
  simp only [isPersonalityMaster_of_master hctx, Bool.not_true, Bool.false_eq_true, false_and, ↓reduceIte,
    Prod.mk.injEq, Except.ok.injEq] at h
  obtain ⟨rfl, rfl⟩ := h
  refine ⟨p, t, hp, hf, by omega, hmod, ?_⟩
  simp only [FsMetadata.setNode, Function.update_idem]

/-- **A shadow's write** of chunk `chunkid` at `indx` of a file that is there: when
`chunk_apply_modification` modifies the chunk under the logged id, the file holds
it and the metaversion goes up. -/
theorem fsWritechunk_getForRestore {ts : UInt32} {dummy : Bool} {lockid : UInt32} {chunkid opflag : Nat}
    {u : ChunksMetadata} (hp : m.nodes inode = some p) (hf : p.type.isFileLike = true) (hi : indx ≤ maxIndex)
    (ha : chunkApplyModification m.chunks ts ((p.resized indx).chunks.getD indx 0) lockid p.goal (opflag ≠ 0) =
      .ok (u, chunkid)) :
    fsWritechunk m (FsContext.getForRestore ts) inode indx dummy lockid chunkid opflag =
      ({ { m with chunks := u }.setNode inode ((p.resized indx).written indx chunkid ts) with
          metaversion := m.metaversion + 1 }, .ok ⟨lockid, chunkid, opflag, p.length⟩) := by
  have hc : ExpectedNodeType.file.check p.type = .ok := by
    simp only [ExpectedNodeType.check, hf, Bool.not_true, Bool.false_eq_true, ↓reduceIte]
  have hstep : writeChunkStep (FsContext.getForRestore ts) m.chunks ((p.resized indx).chunks.getD indx 0) lockid
      p.goal dummy opflag = .ok (u, lockid, opflag, chunkid) := by
    simp only [writeChunkStep, FsContext.getForRestore, ha]
    rfl
  simp only [fsWritechunk, verifySession_getForRestore, fsnodesGetNodeForOperation_getForRestore hp hc,
    show ¬ indx > maxIndex by omega, FsContext.quotaExceededOnMaster_getForRestore, Bool.false_eq_true,
    and_false, ↓reduceIte, hstep, FsContext.getForRestore_isPersonalityMaster, Bool.not_false, ne_eq,
    not_true_eq_false, FsContext.getForRestore_ts]
  simp only [FsMetadata.setNode, Function.update_idem]

/-- **A truncation the master starts** found the file of `inode`, a chunk at the
index where the new length ends, had `chunk_multi_truncate` decide on it, and
logged a `TRUNC` entry with its lock id at `eventloop_time()`. -/
theorem fsTrySetlength_eq_ok {opened length : Nat} {deny : Bool} {lockId : UInt32} {n : Nat}
    (h : fsTrySetlength m ctx env quota inode opened length deny lockId = .ok (m', some n)) :
    ∃ p t, m.nodes inode = some p ∧ p.type.isFileLike = true ∧
      (length >>> mfsChunkBits) % 2 ^ 32 < p.chunks.length ∧ 0 < p.chunks.getD ((length >>> mfsChunkBits) % 2 ^ 32) 0 ∧
      chunkMultiTruncate env m.chunks (p.chunks.getD ((length >>> mfsChunkBits) % 2 ^ 32) 0) lockId p.goal
        (deny && decide (length < p.length)) quota = .ok (t, n) ∧
      m' = ({ m with chunks := t }.setNode inode (p.truncated ((length >>> mfsChunkBits) % 2 ^ 32) n)).changelogAppend
        env.now (.trunc inode ((length >>> mfsChunkBits) % 2 ^ 32) (some lockId) n) := by
  unfold fsTrySetlength at h
  split at h
  case h_2 => cases h
  split at h
  · cases h
  rename_i id p hg
  obtain ⟨rfl, hp, hf⟩ := fsnodesGetNodeForOperation_file hg
  dsimp only at h
  split at h
  · rename_i hcond
    split at h
    · cases h
    rename_i t nchunkid htr
    simp only [Except.ok.injEq, Prod.mk.injEq, Option.some.injEq] at h
    obtain ⟨rfl, rfl⟩ := h
    exact ⟨p, t, hp, hf, hcond.2.1, hcond.2.2, htr, rfl⟩
  · -- no chunk to truncate: no chunk comes back
    simp only [Except.ok.injEq, Prod.mk.injEq, reduceCtorEq, and_false] at h

/-- **A shadow's truncation** of the chunk at `indx` of a file that is there. -/
theorem fsApplyTrunc_of_some {ts : UInt32} {chunkid : Nat} {lockid : UInt32} {u : ChunksMetadata}
    (hp : m.nodes inode = some p) (hf : p.type.isFileLike = true) (hi : indx ≤ maxIndex)
    (hl : indx < p.chunks.length) (h0 : 0 < p.chunks.getD indx 0)
    (ha : chunkApplyModification m.chunks ts (p.chunks.getD indx 0) lockid p.goal true = .ok (u, chunkid)) :
    fsApplyTrunc m ts inode indx chunkid lockid =
      ({ m with chunks := u, metaversion := m.metaversion + 1 }.setNode inode (p.truncated indx chunkid), .ok) := by
  simp only [fsApplyTrunc, hp, hf, Bool.not_true, Bool.false_eq_true, ↓reduceIte,
    show ¬ indx > maxIndex by omega, show ¬ indx ≥ p.chunks.length by omega, show p.chunks.getD indx 0 ≠ 0 by omega,
    ha, ne_eq, not_true_eq_false]

end Spec

end LizardFs
