import Mathlib
import LizardFs.Master.Filesystem
import LizardFs.Master.ChunkChecksum

/-!
# A shadow that replays the changelog agrees with the master

A shadow master (and metarestore) follows the master by replaying the entries of
its changelog. For the operations that change the chunk of a file at an index —
`fs_writechunk` and the truncation inside a chunk of `fs_try_setlength` — this
module shows that the replay of the entry the master logged succeeds on a shadow
whose metadata agrees with the master's, and that the two agree afterwards
(`FsAgree`: the same nodes, agreeing chunk tables, the same metaversion). With the
checksum invariant on both sides, agreeing metadata have the same chunk checksums
and the same `chunk_checksum(kDefault)`, which is what the shadow compares with the
master's.

The replay of a truncation needs one invariant of the master's metadata: no file
has more than `MAX_INDEX + 1` chunks, which `fs_writechunk` keeps (`Valid`).
-/

namespace LizardFs

open ChunksMetadata

/-- The metadata of a master and of a shadow agree: the same nodes, with their chunk
lists, chunk tables that agree, and the same metaversion. The changelog is what the
master writes, not part of the comparison. -/
structure FsAgree (m s : FsMetadata) : Prop where
  nodes : m.nodes = s.nodes
  chunks : Agree m.chunks s.chunks
  metaversion : m.metaversion = s.metaversion

/-- The invariants the replay needs: the checksum invariant of the chunk table, and
no file with more than `MAX_INDEX + 1` chunks. -/
structure FsMetadata.Valid (m : FsMetadata) : Prop where
  tallied : Tallied m.chunks
  bounded : ∀ id p, m.nodes id = some p → p.chunks.length ≤ maxIndex + 1

/-- The operations of a session that change the chunk of a file at an index. -/
inductive ChunkOp where
  | writechunk (inode indx : Nat) (usedummylockid : Bool) (lockid : UInt32)
  | trySetlength (inode opened length : Nat) (denyTruncatingParity : Bool) (lockId : UInt32)
  deriving DecidableEq, Repr

/-- The master runs `op` for `session` at `env.now`: the metadata after it, when it
succeeded and changed a chunk. The chunk id and `opflag` given to `fs_writechunk`
are out-parameters on the master. -/
def ChunkOp.runOnMaster (m : FsMetadata) (env : ChunkEnv) (quota : Bool) (session : SessionData) :
    ChunkOp → Option FsMetadata
  | .writechunk inode indx dummy lockid =>
    match fsWritechunk m (FsContext.getForMaster env quota session) inode indx dummy lockid 0 0 with
    | (m', .ok _) => some m'
    | (_, .error _) => none
  | .trySetlength inode opened length deny lockId =>
    match fsTrySetlength m (FsContext.getForMaster env quota session) env quota inode opened length deny lockId with
    | .ok (m', some _) => some m'
    | _ => none

/-- The inode a chunk operation names, a `uint32_t` in both functions. -/
def ChunkOp.inode : ChunkOp → Nat
  | .writechunk inode .. => inode
  | .trySetlength inode .. => inode

variable {m s m' : FsMetadata} {env : ChunkEnv} {quota : Bool} {session : SessionData}

/-- `chunk_multi_modify` sets `opflag` to `0` or `1`, so its `uint8_t` survives the
changelog. -/
theorem chunkMultiModify_opflag_le {t t' : ChunksMetadata} {ochunkid goal opflag id : Nat} {lockid lockid' : UInt32}
    {dummy : Bool} (hm : chunkMultiModify env t ochunkid lockid goal dummy quota = .ok (t', lockid', opflag, id)) :
    opflag ≤ 1 := by
  obtain ⟨t₁, hc, -, -⟩ := chunkMultiModify_eq_ok hm
  rcases chooseModify_eq_ok hc with ⟨-, -, -, rfl⟩ | ⟨oc, -, -, -, -, ⟨-, rfl, -⟩ | ⟨-, rfl, -⟩⟩ |
      ⟨oc, -, -, -, -, -, rfl⟩ <;> omega

theorem FsAgree.refl (m : FsMetadata) : FsAgree m m := ⟨rfl, ⟨rfl, fun _ => rfl⟩, rfl⟩

/-- Writing the same node on both sides keeps the nodes equal. -/
theorem FsAgree.setNode (h : FsAgree m s) {t u : ChunksMetadata} (hc : Agree t u) (id : Nat) (p : FsNode) :
    FsAgree ({ m with chunks := t }.setNode id p) ({ s with chunks := u }.setNode id p) :=
  ⟨by simp only [FsMetadata.setNode_nodes, h.nodes], hc, h.metaversion⟩

/-- **Agreeing metadata have the same chunk checksums**, when the checksum
invariant holds on both sides. -/
theorem FsAgree.checksums (h : FsAgree m s) (hm : Tallied m.chunks) (hs : Tallied s.chunks) :
    m.chunks.stored = s.chunks.stored ∧ m.chunks.checksumDefault = s.chunks.checksumDefault :=
  ⟨h.chunks.stored_eq hm hs, h.chunks.checksumDefault_eq hm hs⟩

/-! ## Replaying one entry -/

/-- **Replaying a write.** After the master's successful `fs_writechunk`, the
`WRITE` entry it logged replays on an agreeing shadow, and they agree afterwards. -/
theorem FsAgree.writechunk_replay {inode indx chunkid opflag : Nat} {dummy : Bool} {lockid : UInt32} {r : WriteOut}
    (hag : FsAgree m s)
    (hw : fsWritechunk m (FsContext.getForMaster env quota session) inode indx dummy lockid chunkid opflag =
      (m', .ok r)) :
    ∃ e s', m'.changelog = m.changelog ++ [(env.now, e)] ∧ restoreEntry s env.now e = (s', .ok) ∧
      FsAgree m' s' ∧ (Tallied s.chunks → Tallied s'.chunks) := by
  obtain ⟨p, t, hp, hf, hi, hmod, rfl⟩ := fsWritechunk_master_eq_ok rfl hw
  obtain ⟨u, ha, hagree⟩ := chunkMultiModify_replay hag.chunks hmod
  have hop : r.opflag % 256 = r.opflag := Nat.mod_eq_of_lt (by have := chunkMultiModify_opflag_le hmod; omega)
  have hps : s.nodes inode = some p := hag.nodes ▸ hp
  have hreplay : fsWritechunk s (FsContext.getForRestore env.now) inode indx false r.lockid r.chunkid r.opflag = _ :=
    fsWritechunk_getForRestore hps hf hi ha
  refine ⟨.write inode indx (some r.opflag) (some r.lockid) r.chunkid,
    { { s with chunks := u }.setNode inode ((p.resized indx).written indx r.chunkid env.now) with
      metaversion := s.metaversion + 1 }, rfl, ?_, ?_, ?_⟩
  · simp only [restoreEntry, doWrite, Option.getD_some, hop, hreplay]
  · -- the master logged the entry, the shadow counted it
    have h₂ := hag.setNode hagree inode ((p.resized indx).written indx r.chunkid env.now)
    exact ⟨h₂.nodes, h₂.chunks, by
      simp only [FsMetadata.changelogAppend_metaversion, FsMetadata.setNode_metaversion, hag.metaversion]⟩
  · intro hs
    exact hs.chunkApplyModification ha

/-- The index a truncation to `length` works on. -/
theorem truncIndex_le {p : FsNode} {length : Nat} (hb : p.chunks.length ≤ maxIndex + 1)
    (hl : (length >>> mfsChunkBits) % 2 ^ 32 < p.chunks.length) : (length >>> mfsChunkBits) % 2 ^ 32 ≤ maxIndex := by
  omega

/-- **Replaying a truncation.** After the master started a truncation inside a
chunk, the `TRUNC` entry it logged replays on an agreeing shadow, and they agree
afterwards. -/
theorem FsAgree.trySetlength_replay {inode opened length n : Nat} {deny : Bool} {lockId : UInt32}
    (hag : FsAgree m s) (hb : ∀ id p, m.nodes id = some p → p.chunks.length ≤ maxIndex + 1)
    (hw : fsTrySetlength m (FsContext.getForMaster env quota session) env quota inode opened length deny lockId =
      .ok (m', some n)) :
    ∃ e s', m'.changelog = m.changelog ++ [(env.now, e)] ∧ restoreEntry s env.now e = (s', .ok) ∧
      FsAgree m' s' ∧ (Tallied s.chunks → Tallied s'.chunks) := by
  obtain ⟨p, t, hp, hf, hl, h0, htr, rfl⟩ := fsTrySetlength_eq_ok hw
  have h0' : p.chunks.getD ((length >>> mfsChunkBits) % 2 ^ 32) 0 ≠ 0 := by omega
  obtain ⟨u, ha, hagree⟩ := chunkMultiTruncate_replay hag.chunks h0' htr
  have hps : s.nodes inode = some p := hag.nodes ▸ hp
  have hreplay := fsApplyTrunc_of_some hps hf (truncIndex_le (hb inode p hp) hl) hl h0 ha
  refine ⟨.trunc inode ((length >>> mfsChunkBits) % 2 ^ 32) (some lockId) n,
    { s with chunks := u, metaversion := s.metaversion + 1 }.setNode inode
      (p.truncated ((length >>> mfsChunkBits) % 2 ^ 32) n), rfl, ?_, ?_, ?_⟩
  · simp only [restoreEntry, doTrunc, Option.getD_some, hreplay]
  · have h₂ := hag.setNode hagree inode (p.truncated ((length >>> mfsChunkBits) % 2 ^ 32) n)
    exact ⟨h₂.nodes, h₂.chunks, by
      simp only [FsMetadata.changelogAppend_metaversion, FsMetadata.setNode_metaversion, hag.metaversion]⟩
  · intro hs
    exact hs.chunkApplyModification ha

/-! ## Replaying any chunk operation -/

/-- **What a chunk operation that succeeded on the master was**: a successful
`fs_writechunk`, or an `fs_try_setlength` that started a truncation. -/
theorem ChunkOp.runOnMaster_eq_some {op : ChunkOp} (h : op.runOnMaster m env quota session = some m') :
    (∃ inode indx dummy lockid r, op = .writechunk inode indx dummy lockid ∧
      fsWritechunk m (FsContext.getForMaster env quota session) inode indx dummy lockid 0 0 = (m', .ok r)) ∨
    (∃ inode opened length deny lockId n, op = .trySetlength inode opened length deny lockId ∧
      fsTrySetlength m (FsContext.getForMaster env quota session) env quota inode opened length deny lockId =
        .ok (m', some n)) := by
  cases op with
  | writechunk inode indx dummy lockid =>
    simp only [ChunkOp.runOnMaster] at h
    split at h
    · rename_i r hw
      cases h
      exact .inl ⟨inode, indx, dummy, lockid, r, rfl, hw⟩
    · cases h
  | trySetlength inode opened length deny lockId =>
    simp only [ChunkOp.runOnMaster] at h
    split at h
    · rename_i n hw
      cases h
      exact .inr ⟨inode, opened, length, deny, lockId, n, rfl, hw⟩
    · cases h

/-- The master's chunk operations keep the checksum invariant and the bound on the
chunk lists. -/
theorem FsMetadata.Valid.runOnMaster {op : ChunkOp} (hm : m.Valid) (h : op.runOnMaster m env quota session = some m') :
    m'.Valid := by
  rcases ChunkOp.runOnMaster_eq_some h with ⟨inode, indx, dummy, lockid, r, -, hw⟩ |
      ⟨inode, opened, length, deny, lockId, n, -, hw⟩
  · obtain ⟨p, t, hp, -, hi, hmod, rfl⟩ := fsWritechunk_master_eq_ok rfl hw
    refine ⟨hm.tallied.chunkMultiModify hmod, fun id q hq => ?_⟩
    by_cases he : id = inode
    · -- the written file: the resize stays within `MAX_INDEX + 1`
      subst he
      simp only [FsMetadata.changelogAppend_nodes, FsMetadata.setNode_nodes, Function.update_self,
        Option.some.injEq] at hq
      subst hq
      simp only [FsNode.written, List.length_set]
      exact length_resized_le (hm.bounded id p hp) hi
    · simp only [FsMetadata.changelogAppend_nodes, FsMetadata.setNode_nodes, Function.update_of_ne he] at hq
      exact hm.bounded id q hq
  · obtain ⟨p, t, hp, -, -, -, htr, rfl⟩ := fsTrySetlength_eq_ok hw
    refine ⟨hm.tallied.chunkMultiTruncate htr, fun id q hq => ?_⟩
    by_cases he : id = inode
    · subst he
      simp only [FsMetadata.changelogAppend_nodes, FsMetadata.setNode_nodes, Function.update_self,
        Option.some.injEq] at hq
      subst hq
      simp only [FsNode.truncated, List.length_set]
      exact hm.bounded id p hp
    · simp only [FsMetadata.changelogAppend_nodes, FsMetadata.setNode_nodes, Function.update_of_ne he] at hq
      exact hm.bounded id q hq

/-- **What a chunk operation logs**: one entry on the operation's inode, at an index
below `2^32` (a write's passed the `MAX_INDEX` check, a truncation's is computed in
`uint32_t`), of a chunk below `nextchunkid`, which does not go down. -/
theorem ChunkOp.runOnMaster_logged {op : ChunkOp} (hm : m.Valid) (h : op.runOnMaster m env quota session = some m') :
    m.chunks.nextchunkid ≤ m'.chunks.nextchunkid ∧
      ((∃ indx opflag lockid chunkid, m'.changelog = m.changelog ++ [(env.now, .write op.inode indx opflag lockid chunkid)] ∧
          indx ≤ maxIndex ∧ chunkid < m'.chunks.nextchunkid) ∨
        (∃ indx lockid chunkid, m'.changelog = m.changelog ++ [(env.now, .trunc op.inode indx lockid chunkid)] ∧
          indx < 2 ^ 32 ∧ chunkid < m'.chunks.nextchunkid)) := by
  rcases ChunkOp.runOnMaster_eq_some h with ⟨inode, indx, dummy, lockid, r, rfl, hw⟩ |
      ⟨inode, opened, length, deny, lockId, n, rfl, hw⟩
  · obtain ⟨p, t, -, -, hi, hmod, rfl⟩ := fsWritechunk_master_eq_ok rfl hw
    obtain ⟨hle, hlt⟩ := hm.tallied.summed.chunkMultiModify_id hmod
    exact ⟨hle, .inl ⟨indx, _, _, r.chunkid, rfl, hi, hlt⟩⟩
  · obtain ⟨p, t, -, -, -, -, htr, rfl⟩ := fsTrySetlength_eq_ok hw
    obtain ⟨hle, hlt⟩ := hm.tallied.summed.chunkMultiTruncate_id htr
    exact ⟨hle, .inr ⟨_, _, n, rfl, Nat.mod_lt _ (by norm_num), hlt⟩⟩

/-- **The replay of a chunk operation.** The entry a successful chunk operation of
the master logged replays on an agreeing shadow, which then agrees with the master
and keeps the checksum invariant. -/
theorem FsAgree.replay {op : ChunkOp} (hag : FsAgree m s) (hm : m.Valid) (hs : Tallied s.chunks)
    (h : op.runOnMaster m env quota session = some m') :
    ∃ e s', m'.changelog = m.changelog ++ [(env.now, e)] ∧ restoreEntry s env.now e = (s', .ok) ∧
      FsAgree m' s' ∧ Tallied s'.chunks := by
  have hreplay : ∃ e s', m'.changelog = m.changelog ++ [(env.now, e)] ∧ restoreEntry s env.now e = (s', .ok) ∧
      FsAgree m' s' ∧ (Tallied s.chunks → Tallied s'.chunks) := by
    rcases ChunkOp.runOnMaster_eq_some h with ⟨inode, indx, dummy, lockid, r, -, hw⟩ |
        ⟨inode, opened, length, deny, lockId, n, -, hw⟩
    · exact hag.writechunk_replay hw
    · exact hag.trySetlength_replay hm.bounded hw
  obtain ⟨e, s', hlog, hres, hag', hts⟩ := hreplay
  exact ⟨e, s', hlog, hres, hag', hts hs⟩

/-- **Master and shadow agree on chunk modifications.** A chunk operation that
succeeds on the master logs one entry; replayed at its time stamp on a shadow whose
metadata agree with the master's, it succeeds (no `MISMATCH`) and the two agree
afterwards, with the same chunk checksums and the same `chunk_checksum(kDefault)`. -/
theorem shadow_replay_agrees_with_master {op : ChunkOp} (hag : FsAgree m s) (hm : m.Valid) (hs : Tallied s.chunks)
    (hrun : op.runOnMaster m env quota session = some m') :
    ∃ e s', m'.changelog = m.changelog ++ [(env.now, e)] ∧ restoreEntry s env.now e = (s', .ok) ∧
      FsAgree m' s' ∧ m'.chunks.stored = s'.chunks.stored ∧
      m'.chunks.checksumDefault = s'.chunks.checksumDefault := by
  obtain ⟨e, s', hlog, hres, hag', hts⟩ := hag.replay hm hs hrun
  exact ⟨e, s', hlog, hres, hag', hag'.checksums (hm.runOnMaster hrun).tallied hts⟩

/-- One file, inode 2 of goal 1 in the root directory, with no chunk yet, and no
chunk in the table. -/
def oneEmptyFile : FsMetadata :=
  ⟨fun i => if i = 2 then some ⟨.file, [1], [], 1, [], 0, 0, 0⟩ else none,
    ⟨fun _ => none, 1, chunksChecksumSeed⟩, 0, []⟩

/-- Chunkservers ready for a new chunk, at time 100. -/
def newChunkEnv : ChunkEnv := ⟨100, fun _ => true, fun _ => true, true, true, false, fun _ => false, 0⟩

theorem oneEmptyFile_valid : oneEmptyFile.Valid := by
  refine ⟨⟨⟨fun _ _ => rfl, by decide⟩, fun _ _ h => by cases h⟩, fun id p h => ?_⟩
  simp only [oneEmptyFile] at h
  split at h
  · cases h
    decide
  · cases h

/-- The first write of the file creates chunk 1; the shadow replays it. -/
theorem first_write_replays_on_shadow :
    FsAgree oneEmptyFile oneEmptyFile ∧ oneEmptyFile.Valid ∧ Tallied oneEmptyFile.chunks ∧
      ∃ m', (ChunkOp.writechunk 2 0 false 0).runOnMaster oneEmptyFile newChunkEnv false ⟨1, false, none⟩ = some m' ∧
        ∃ e s', m'.changelog = oneEmptyFile.changelog ++ [(newChunkEnv.now, e)] ∧
          restoreEntry oneEmptyFile newChunkEnv.now e = (s', .ok) ∧ FsAgree m' s' ∧
          m'.chunks.stored = s'.chunks.stored ∧ m'.chunks.checksumDefault = s'.chunks.checksumDefault := by
  have hsome : ((ChunkOp.writechunk 2 0 false 0).runOnMaster oneEmptyFile newChunkEnv false ⟨1, false, none⟩).isSome
      = true := by decide
  obtain ⟨m', hrun⟩ := Option.isSome_iff_exists.mp hsome
  exact ⟨FsAgree.refl _, oneEmptyFile_valid, oneEmptyFile_valid.tallied, m', hrun,
    shadow_replay_agrees_with_master (FsAgree.refl _) oneEmptyFile_valid oneEmptyFile_valid.tallied hrun⟩

end LizardFs
