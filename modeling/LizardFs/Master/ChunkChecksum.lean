import LizardFs.Master.ChunkAgree

/-!
# The chunk table's checksum stays current

`chunk_update_checksum` keeps `chunksChecksum` equal to `CHECKSUMSEED` XORed with the
checksum stored in every chunk, and each stored checksum equal to `chunk_checksum`
of its chunk. `Tallied` is that invariant (with no chunk at an id from
`nextchunkid` on, so that the XOR runs over the ids below it). This module shows
that the three modifying functions keep it, on the master and on the shadow, and
that with it two agreeing tables store the same chunk checksums and have the same
`chunk_checksum(kDefault)`.

Inside a function a chunk may be stale for a moment (its version changed, its
checksum not yet updated): `Summed` and `CurrentExcept` describe those moments.
-/

namespace LizardFs

namespace ChunksMetadata

variable {t u : ChunksMetadata}

/-- The checksum stored for chunk `id`, `0` when there is none. -/
def stored (t : ChunksMetadata) (id : Nat) : UInt64 := ((t.chunks id).map (·.checksum)).getD 0

/-- No chunk has an id from `nextchunkid` on, and the table's checksum is the seed
XORed with the stored checksums. -/
structure Summed (t : ChunksMetadata) : Prop where
  fresh : ∀ id, t.nextchunkid ≤ id → t.chunks id = none
  sum : t.chunksChecksum = chunksChecksumSeed ^^^ XorFold.upTo t.stored t.nextchunkid

/-- Every stored checksum is current, except perhaps the one of chunk `id`. -/
def CurrentExcept (t : ChunksMetadata) (id : Nat) : Prop :=
  ∀ j c, j ≠ id → t.chunks j = some c → c.checksum = chunkChecksum c

/-- **The checksum invariant** of the chunk table. -/
structure Tallied (t : ChunksMetadata) : Prop where
  summed : Summed t
  current : ∀ id c, t.chunks id = some c → c.checksum = chunkChecksum c

theorem Tallied.currentExcept (ht : Tallied t) (id : Nat) : CurrentExcept t id :=
  fun j c _ hc => ht.current j c hc

theorem Summed.lt_of_some (hs : Summed t) {id : Nat} {c : Chunk} (hc : t.chunks id = some c) :
    id < t.nextchunkid := by
  by_contra hle
  rw [hs.fresh id (by omega)] at hc
  cases hc

theorem stored_of_some {id : Nat} {c : Chunk} (hc : t.chunks id = some c) : t.stored id = c.checksum := by
  simp only [stored, hc, Option.map_some, Option.getD_some]

/-! ## The primitives -/

/-- Writing fields in place keeps the sum when the stored checksum stays. -/
theorem Summed.put (hs : Summed t) {id : Nat} {c : Chunk} (hid : id < t.nextchunkid)
    (hsum : c.checksum = t.stored id) : Summed (t.put id c) := by
  have hstored : (t.put id c).stored = t.stored := by
    funext j
    by_cases he : j = id
    · subst he
      simp only [stored, ChunksMetadata.put, Function.update_self, Option.map_some, Option.getD_some, hsum]
    · simp only [stored, ChunksMetadata.put, Function.update_of_ne he]
  refine ⟨fun j hj => ?_, ?_⟩
  · rw [put_nextchunkid] at hj
    rw [put_chunks, Function.update_of_ne (show j ≠ id by omega)]
    exact hs.fresh j hj
  · rw [hstored, put_nextchunkid]
    exact hs.sum

/-- `chunk_update_checksum` keeps the sum: it XORs out the old stored checksum and
XORs in the fresh one. -/
theorem Summed.updateChecksum (hs : Summed t) (id : Nat) : Summed (t.updateChecksum id) := by
  rcases hc : t.chunks id with _ | c
  · simpa only [ChunksMetadata.updateChecksum, hc] using hs
  have hid := hs.lt_of_some hc
  have hstored : (t.updateChecksum id).stored = Function.update t.stored id (chunkChecksum c) := by
    funext j
    by_cases he : j = id
    · subst he
      simp only [stored, ChunksMetadata.updateChecksum, hc, Function.update_self, Option.map_some,
        Option.getD_some]
    · simp only [stored, ChunksMetadata.updateChecksum, hc, Function.update_of_ne he]
  refine ⟨fun j hj => ?_, ?_⟩
  · rw [updateChecksum_nextchunkid] at hj
    simp only [ChunksMetadata.updateChecksum, hc, Function.update_of_ne (show j ≠ id by omega)]
    exact hs.fresh j hj
  · rw [hstored, updateChecksum_nextchunkid, XorFold.upTo_update _ hid, stored_of_some hc]
    simp only [ChunksMetadata.updateChecksum, hc, hs.sum, UInt64.xor_assoc]

/-- After `chunk_update_checksum` of the only stale chunk, every checksum is current. -/
theorem CurrentExcept.updateChecksum {id : Nat} (hcur : CurrentExcept t id) :
    ∀ j c, (t.updateChecksum id).chunks j = some c → c.checksum = chunkChecksum c := by
  intro j c hj
  rcases hc : t.chunks id with _ | d
  · simp only [ChunksMetadata.updateChecksum, hc] at hj
    by_cases he : j = id
    · subst he
      rw [hc] at hj
      cases hj
    · exact hcur j c he hj
  · simp only [ChunksMetadata.updateChecksum, hc] at hj
    by_cases he : j = id
    · subst he
      simp only [Function.update_self, Option.some_inj] at hj
      subst hj
      simp only [chunkChecksum_eq_of_view (c := { d with checksum := chunkChecksum d }) (d := d) rfl]
    · rw [Function.update_of_ne he] at hj
      exact hcur j c he hj

/-- Writing the fields of chunk `id` leaves every other checksum current. -/
theorem Tallied.put_currentExcept (ht : Tallied t) (id : Nat) (c : Chunk) : CurrentExcept (t.put id c) id := by
  intro j d he hj
  simp only [ChunksMetadata.put, Function.update_of_ne he] at hj
  exact ht.current j d hj

/-- `store`: changed fields followed by `chunk_update_checksum`. -/
theorem Summed.store (hs : Summed t) {id : Nat} {c : Chunk} (hid : id < t.nextchunkid)
    (hsum : c.checksum = t.stored id) (hcur : CurrentExcept t id) : Tallied (t.store id c) := by
  have hput : CurrentExcept (t.put id c) id := by
    intro j d he hj
    simp only [ChunksMetadata.put, Function.update_of_ne he] at hj
    exact hcur j d he hj
  exact ⟨(hs.put hid hsum).updateChecksum id, hput.updateChecksum⟩

/-- Changing a chunk's fields without touching its stored checksum, then updating it. -/
theorem Summed.modifyChunk (hs : Summed t) {id : Nat} (hcur : CurrentExcept t id) {f : Chunk → Chunk}
    (hf : ∀ c, (f c).checksum = c.checksum) : Tallied (t.modifyChunk id f) := by
  rcases hc : t.chunks id with _ | c
  · simp only [ChunksMetadata.modifyChunk, hc]
    refine ⟨hs, fun j d hj => ?_⟩
    by_cases he : j = id
    · subst he
      rw [hc] at hj
      cases hj
    · exact hcur j d he hj
  · simp only [ChunksMetadata.modifyChunk, hc]
    exact hs.store (hs.lt_of_some hc) (by rw [hf, stored_of_some hc]) hcur

/-- A chunk whose stale fields were written at `id`, then lock-stamped. -/
theorem Summed.stampLock (hs : Summed t) {id : Nat} (hcur : CurrentExcept t id) (now lockid : UInt32) :
    Tallied (t.stampLock id now lockid) :=
  hs.modifyChunk hcur fun _ => rfl

theorem Tallied.chunkNew (ht : Tallied t) (version : UInt32) : Tallied (t.chunkNew version) := by
  have hs : Summed { t with nextchunkid := t.nextchunkid + 1 } := by
    refine ⟨fun j hj => ht.summed.fresh j (by simp only at hj; omega), ?_⟩
    show t.chunksChecksum = chunksChecksumSeed ^^^ XorFold.upTo t.stored (t.nextchunkid + 1)
    rw [XorFold.upTo_succ, show t.stored t.nextchunkid = 0 by
      simp only [stored, ht.summed.fresh t.nextchunkid (Nat.le_refl _), Option.map_none, Option.getD_none],
      UInt64.xor_zero]
    exact ht.summed.sum
  exact hs.store (by simp only; omega)
    (by simp only [stored, Chunk.new, ht.summed.fresh t.nextchunkid (Nat.le_refl _), Option.map_none,
      Option.getD_none])
    (fun j c _ hc => ht.current j c hc)

/-- A change of goal counters, stored and checksummed. -/
theorem Tallied.store_some (ht : Tallied t) {id : Nat} {c c' : Chunk} (hc : t.chunks id = some c)
    (hsum : c'.checksum = c.checksum) : Tallied (t.store id c') :=
  ht.summed.store (ht.summed.lt_of_some hc) (by rw [hsum, stored_of_some hc]) (ht.currentExcept id)

theorem Tallied.addFileInt (ht : Tallied t) (id goal : Nat) : Tallied (t.addFileInt id goal).1 := by
  rcases hc : t.chunks id with _ | c
  · simpa only [ChunksMetadata.addFileInt, hc] using ht
  · simp only [ChunksMetadata.addFileInt, hc]
    split
    · exact ht.store_some hc rfl
    · exact ht

theorem Tallied.deleteFileInt (ht : Tallied t) (id goal : Nat) : Tallied (t.deleteFileInt id goal).1 := by
  rcases hc : t.chunks id with _ | c
  · simpa only [ChunksMetadata.deleteFileInt, hc] using ht
  · simp only [ChunksMetadata.deleteFileInt, hc]
    split
    · exact ht.store_some hc rfl
    · exact ht

/-- The master's `operation` enters no checksum. -/
theorem Tallied.setOperation (ht : Tallied t) (id : Nat) (op : ChunkOperation) :
    Tallied (t.setOperation id op) := by
  rcases hc : t.chunks id with _ | c
  · simpa only [ChunksMetadata.setOperation, hc] using ht
  simp only [ChunksMetadata.setOperation, hc]
  refine ⟨ht.summed.put (ht.summed.lt_of_some hc) (by rw [stored_of_some hc]), fun j d hj => ?_⟩
  by_cases he : j = id
  · subst he
    simp only [ChunksMetadata.put, Function.update_self, Option.some_inj] at hj
    subst hj
    rw [chunkChecksum_eq_of_view (c := { c with operation := op }) (d := c) rfl]
    exact ht.current j c hc
  · simp only [ChunksMetadata.put, Function.update_of_ne he] at hj
    exact ht.current j d hj

theorem Tallied.duplicate (ht : Tallied t) (ochunkid goal : Nat) (op : ChunkOperation) :
    Tallied (t.duplicate ochunkid goal op).1 :=
  ((((ht.chunkNew 1).setOperation _ op).deleteFileInt ochunkid goal).addFileInt _ goal)

/-- A chunk of the table, rewritten in place with its stored checksum kept: only
that chunk may be stale. -/
theorem Tallied.put_some (ht : Tallied t) {id : Nat} {c d : Chunk} (hc : t.chunks id = some c)
    (hsum : d.checksum = c.checksum) : Summed (t.put id d) ∧ CurrentExcept (t.put id d) id :=
  ⟨ht.summed.put (ht.summed.lt_of_some hc) (by rw [hsum, stored_of_some hc]), ht.put_currentExcept id d⟩

theorem Tallied.stale (ht : Tallied t) (id : Nat) : Summed t ∧ CurrentExcept t id :=
  ⟨ht.summed, ht.currentExcept id⟩

/-! ## The three functions -/

variable {env : ChunkEnv} {t₁ t' : ChunksMetadata} {ochunkid goal id opflag : Nat} {lockid : UInt32}

/-- After the master's write decision only the chunk to write may be stale. -/
theorem Tallied.chooseModify {quota : Bool} (ht : Tallied t)
    (hm : chooseModify env t ochunkid lockid goal quota = .ok (t₁, id, opflag)) :
    Summed t₁ ∧ CurrentExcept t₁ id := by
  rcases chooseModify_eq_ok hm with ⟨-, rfl, -, -⟩ | ⟨oc, -, hf, -, rfl, ⟨-, -, rfl⟩ | ⟨-, -, rfl⟩⟩ |
    ⟨oc, -, -, -, -, hdup, -⟩
  · exact ((((ht.chunkNew 1).setOperation _ .create).addFileInt _ goal)).stale id
  · exact ht.put_some (d := { oc with version := oc.version + 1, operation := .setVersion }) hf rfl
  · exact ht.stale id
  · have hfst : (t.duplicate ochunkid goal .duplicate).1 = t₁ := by rw [hdup]
    rw [← hfst]
    exact (ht.duplicate ochunkid goal .duplicate).stale id

/-- After the master's truncation decision only the chunk to truncate may be stale. -/
theorem Tallied.chooseTruncate {oc : Chunk} {quota : Bool} (ht : Tallied t) (hf : t.find ochunkid = some oc)
    (hm : LizardFs.chooseTruncate t oc ochunkid goal quota = .ok (t₁, id)) :
    Summed t₁ ∧ CurrentExcept t₁ id := by
  rcases chooseTruncate_eq_ok hm with ⟨-, rfl, rfl⟩ | ⟨-, -, hdup⟩
  · exact ht.put_some (d := { oc with version := oc.version + 1, operation := .truncate }) hf rfl
  · have hfst : (t.duplicate ochunkid goal .duptrunc).1 = t₁ := by rw [hdup]
    rw [← hfst]
    exact (ht.duplicate ochunkid goal .duptrunc).stale id

/-- After the shadow's decision only the chunk to modify may be stale. -/
theorem Tallied.chooseApply {b : Bool} (ht : Tallied t) (hc : LizardFs.chooseApply t ochunkid goal b = .ok (t₁, id)) :
    Summed t₁ ∧ CurrentExcept t₁ id := by
  unfold LizardFs.chooseApply at hc
  split at hc
  · simp only [Except.ok.injEq, Prod.mk.injEq] at hc
    obtain ⟨rfl, rfl⟩ := hc
    exact ((ht.chunkNew 1).addFileInt _ goal).stale _
  split at hc
  · cases hc
  rename_i oc hf
  split at hc
  · cases hc
  split at hc
  · -- the chunk of one file, with or without a new version
    simp only [Except.ok.injEq, Prod.mk.injEq] at hc
    obtain ⟨rfl, rfl⟩ := hc
    split
    · exact ht.put_some hf rfl
    · exact ht.stale _
  · simp only [Except.ok.injEq, Prod.mk.injEq] at hc
    obtain ⟨rfl, rfl⟩ := hc
    exact ((((ht.chunkNew 1).deleteFileInt ochunkid goal).addFileInt _ goal)).stale _

theorem Tallied.chunkMultiModify {dummy quota : Bool} {lockid' : UInt32} (ht : Tallied t)
    (hm : LizardFs.chunkMultiModify env t ochunkid lockid goal dummy quota = .ok (t', lockid', opflag, id)) :
    Tallied t' := by
  obtain ⟨t₁, hc, -, rfl⟩ := chunkMultiModify_eq_ok hm
  obtain ⟨hs, hcur⟩ := ht.chooseModify hc
  exact hs.stampLock hcur _ _

theorem Tallied.chunkMultiTruncate {deny quota : Bool} (ht : Tallied t)
    (hm : LizardFs.chunkMultiTruncate env t ochunkid lockid goal deny quota = .ok (t', id)) : Tallied t' := by
  obtain ⟨oc, t₁, hf, hc, rfl⟩ := chunkMultiTruncate_eq_ok hm
  obtain ⟨hs, hcur⟩ := ht.chooseTruncate hf hc
  exact hs.stampLock hcur _ _

/-! ## The ids the master writes -/

/-- A copy takes the counter's old value, and the counter moves past it. -/
theorem duplicate_id_lt {op : ChunkOperation} (hdup : t.duplicate ochunkid goal op = (t₁, id)) :
    t.nextchunkid ≤ t₁.nextchunkid ∧ id < t₁.nextchunkid := by
  obtain ⟨hnext, hid⟩ := t.duplicate_nextchunkid ochunkid goal op
  rw [hdup] at hnext hid
  dsimp only at hnext hid
  omega

/-- The master's write decision never lowers `nextchunkid`, and writes a chunk below it:
the file's own chunk is in the table, a new chunk or a copy takes the counter's value. -/
theorem Summed.chooseModify_id {quota : Bool} (hs : Summed t)
    (hm : LizardFs.chooseModify env t ochunkid lockid goal quota = .ok (t₁, id, opflag)) :
    t.nextchunkid ≤ t₁.nextchunkid ∧ id < t₁.nextchunkid := by
  rcases chooseModify_eq_ok hm with ⟨-, rfl, rfl, -⟩ | ⟨oc, -, hf, -, rfl, ⟨-, -, rfl⟩ | ⟨-, -, rfl⟩⟩ |
    ⟨oc, -, -, -, -, hdup, -⟩
  · simp only [addFileInt_nextchunkid, setOperation_nextchunkid, chunkNew_nextchunkid]
    omega
  · rw [put_nextchunkid]
    exact ⟨le_rfl, hs.lt_of_some hf⟩
  · exact ⟨le_rfl, hs.lt_of_some hf⟩
  · exact duplicate_id_lt hdup

/-- The same for the master's truncation decision. -/
theorem Summed.chooseTruncate_id {oc : Chunk} {quota : Bool} (hs : Summed t) (hf : t.find ochunkid = some oc)
    (hm : LizardFs.chooseTruncate t oc ochunkid goal quota = .ok (t₁, id)) :
    t.nextchunkid ≤ t₁.nextchunkid ∧ id < t₁.nextchunkid := by
  rcases chooseTruncate_eq_ok hm with ⟨-, rfl, rfl⟩ | ⟨-, -, hdup⟩
  · rw [put_nextchunkid]
    exact ⟨le_rfl, hs.lt_of_some hf⟩
  · exact duplicate_id_lt hdup

/-- **`chunk_multi_modify` writes a chunk below `nextchunkid`**, which it never lowers. -/
theorem Summed.chunkMultiModify_id {dummy quota : Bool} {lockid' : UInt32} (hs : Summed t)
    (hm : LizardFs.chunkMultiModify env t ochunkid lockid goal dummy quota = .ok (t', lockid', opflag, id)) :
    t.nextchunkid ≤ t'.nextchunkid ∧ id < t'.nextchunkid := by
  obtain ⟨t₁, hc, -, rfl⟩ := chunkMultiModify_eq_ok hm
  rw [stampLock_nextchunkid]
  exact hs.chooseModify_id hc

/-- **`chunk_multi_truncate` truncates a chunk below `nextchunkid`**, which it never lowers. -/
theorem Summed.chunkMultiTruncate_id {deny quota : Bool} (hs : Summed t)
    (hm : LizardFs.chunkMultiTruncate env t ochunkid lockid goal deny quota = .ok (t', id)) :
    t.nextchunkid ≤ t'.nextchunkid ∧ id < t'.nextchunkid := by
  obtain ⟨oc, t₁, hf, hc, rfl⟩ := chunkMultiTruncate_eq_ok hm
  rw [stampLock_nextchunkid]
  exact hs.chooseTruncate_id hf hc

theorem Tallied.chunkApplyModification {ts : UInt32} {b : Bool} (ht : Tallied t)
    (hm : LizardFs.chunkApplyModification t ts ochunkid lockid goal b = .ok (t', id)) : Tallied t' := by
  obtain ⟨⟨t₁, id₁⟩, hc, heq⟩ := Except.map_eq_ok hm
  simp only [Prod.mk.injEq] at heq
  obtain ⟨rfl, rfl⟩ := heq
  obtain ⟨hs, hcur⟩ := ht.chooseApply hc
  exact hs.stampLock hcur _ _

/-! ## Agreeing tables have the same checksums -/

/-- With current checksums, what a chunk stores is the checksum of its metadata. -/
theorem Tallied.stored_eq (ht : Tallied t) (id : Nat) :
    t.stored id = ((t.chunks id).map chunkChecksum).getD 0 := by
  rcases hc : t.chunks id with _ | c
  · simp only [stored, hc, Option.map_none, Option.getD_none]
  · simp only [stored_of_some hc, Option.map_some, Option.getD_some, ht.current id c hc]

/-- **Agreeing tables store the same chunk checksums.** -/
theorem Agree.stored_eq (h : Agree t u) (ht : Tallied t) (hu : Tallied u) : t.stored = u.stored := by
  funext id
  rw [ht.stored_eq, hu.stored_eq]
  rcases hc : t.chunks id with _ | c
  · rw [show u.chunks id = none from h.find_none hc]
  · obtain ⟨d, hd, hdv⟩ := h.find_some hc
    rw [show u.chunks id = some d from hd, Option.map_some, Option.map_some, chunkChecksum_eq_of_view hdv]

/-- **Agreeing tables have the same `chunk_checksum(kDefault)`.** -/
theorem Agree.checksumDefault_eq (h : Agree t u) (ht : Tallied t) (hu : Tallied u) :
    t.checksumDefault = u.checksumDefault := by
  simp only [checksumDefault, ht.summed.sum, hu.summed.sum, h.stored_eq ht hu, h.next]

end ChunksMetadata

end LizardFs
