import LizardFs.Master.ChunkTable

/-!
# Master and shadow chunk tables that agree

The master runs `chunkMultiModify` and `chunkMultiTruncate`, the shadow replays
their changelog entries with `chunkApplyModification`. This module relates two
chunk tables whose metadata agree (`Agree`: the same `nextchunkid`, and at every id
the same chunk up to the master-only fields and the stored checksum), and shows:

* every primitive of `Master.ChunkTable` keeps two agreeing tables agreeing;
* `chooseModify_agree`, `chooseTruncate_agree`: the copy-on-write decision the
  master takes is the one `chooseApply` takes on the shadow, given the logged
  `opflag` (a write) or `true` (a truncation);
* `Tallied` — the invariant that the table's checksum is the XOR of the stored
  checksums and that each stored checksum is current — holds after every one of
  the three functions; with it, agreeing tables have the same
  `chunk_checksum(kDefault)`.
-/

namespace LizardFs

/-- The metadata of a chunk: what the master and the shadow must agree on. -/
structure ChunkView where
  chunkid : Nat
  version : UInt32
  lockid : UInt32
  lockedto : UInt32
  goalCounters : List GoalCounter
  deriving DecidableEq, Repr

/-- The metadata of a chunk, without the stored checksum and the master-only fields. -/
def Chunk.view (c : Chunk) : ChunkView := ⟨c.chunkid, c.version, c.lockid, c.lockedto, c.goalCounters⟩

theorem Chunk.fileCount_eq_of_view {c d : Chunk} (h : c.view = d.view) : c.fileCount = d.fileCount := by
  simp only [Chunk.view, ChunkView.mk.injEq] at h
  simp only [Chunk.fileCount, h.2.2.2.2]

/-- The checksum of a chunk only reads its metadata. -/
theorem chunkChecksum_eq_of_view {c d : Chunk} (h : c.view = d.view) : chunkChecksum c = chunkChecksum d := by
  cases c
  cases d
  simp only [Chunk.view, ChunkView.mk.injEq] at h
  obtain ⟨rfl, rfl, -, rfl, rfl⟩ := h
  rfl

theorem Except.map_eq_ok {ε α β : Type} {x : Except ε α} {g : α → β} {b : β}
    (h : x.map g = .ok b) : ∃ a, x = .ok a ∧ g a = b := by
  cases x with
  | error e => cases h
  | ok a => exact ⟨a, rfl, by cases h; rfl⟩

namespace ChunksMetadata

/-! ## Agreement -/

/-- Two chunk tables agree on their metadata. -/
structure Agree (t u : ChunksMetadata) : Prop where
  next : t.nextchunkid = u.nextchunkid
  view : ∀ id, (t.chunks id).map Chunk.view = (u.chunks id).map Chunk.view

variable {t u : ChunksMetadata}

/-- A chunk of one of two agreeing tables has a twin with the same metadata in the other. -/
theorem Agree.find_some (h : Agree t u) {id : Nat} {c : Chunk} (hc : t.find id = some c) :
    ∃ d, u.find id = some d ∧ d.view = c.view := by
  have hv := h.view id
  rw [show t.chunks id = some c from hc, Option.map_some] at hv
  rcases hd : u.chunks id with _ | d
  · rw [hd, Option.map_none] at hv
    cases hv
  · rw [hd, Option.map_some, Option.some_inj] at hv
    exact ⟨d, hd, hv.symm⟩

theorem Agree.find_none (h : Agree t u) {id : Nat} (hc : t.find id = none) : u.find id = none := by
  have hv := h.view id
  rw [show t.chunks id = none from hc, Option.map_none] at hv
  exact Option.map_eq_none_iff.mp hv.symm

theorem Agree.put (h : Agree t u) (id : Nat) {c d : Chunk} (hcd : c.view = d.view) :
    Agree (t.put id c) (u.put id d) := by
  refine ⟨h.next, fun j => ?_⟩
  simp only [ChunksMetadata.put]
  by_cases he : j = id
  · subst he
    simp only [Function.update_self, Option.map_some, hcd]
  · simp only [Function.update_of_ne he, h.view j]

/-- Fields outside the metadata may change on one side only. -/
theorem Agree.put_left (h : Agree t u) {id : Nat} {c : Chunk}
    (hc : (t.chunks id).map Chunk.view = some c.view) : Agree (t.put id c) u := by
  refine ⟨h.next, fun j => ?_⟩
  simp only [ChunksMetadata.put]
  by_cases he : j = id
  · subst he
    rw [Function.update_self, Option.map_some, ← hc, h.view]
  · rw [Function.update_of_ne he, h.view j]

theorem Agree.updateChecksum (h : Agree t u) (id : Nat) :
    Agree (t.updateChecksum id) (u.updateChecksum id) := by
  rcases hc : t.chunks id with _ | c
  · have hd : u.chunks id = none := h.find_none hc
    simp only [ChunksMetadata.updateChecksum, hc, hd]
    exact h
  · obtain ⟨d, hd, hv⟩ := h.find_some hc
    simp only [ChunksMetadata.find] at hd
    simp only [ChunksMetadata.updateChecksum, hc, hd]
    refine ⟨h.next, fun j => ?_⟩
    by_cases he : j = id
    · subst he
      simp only [Function.update_self, Option.map_some, Option.some_inj]
      exact hv.symm
    · simp only [Function.update_of_ne he, h.view j]

theorem Agree.store (h : Agree t u) (id : Nat) {c d : Chunk} (hcd : c.view = d.view) :
    Agree (t.store id c) (u.store id d) :=
  (h.put id hcd).updateChecksum id

/-- Agreeing tables stay agreeing when both sides change the same chunk by changes
that only depend on its metadata. -/
theorem Agree.modifyChunk (h : Agree t u) (id : Nat) {f g : Chunk → Chunk}
    (hfg : ∀ c d, c.view = d.view → (f c).view = (g d).view) :
    Agree (t.modifyChunk id f) (u.modifyChunk id g) := by
  rcases hc : t.chunks id with _ | c
  · have hd : u.chunks id = none := h.find_none hc
    simp only [ChunksMetadata.modifyChunk, hc, hd]
    exact h
  · obtain ⟨d, hd, hv⟩ := h.find_some hc
    simp only [ChunksMetadata.find] at hd
    simp only [ChunksMetadata.modifyChunk, hc, hd]
    exact h.store id (hfg c d hv.symm)

theorem Agree.stampLock (h : Agree t u) (id : Nat) (now lockid : UInt32) :
    Agree (t.stampLock id now lockid) (u.stampLock id now lockid) :=
  h.modifyChunk id fun c d hcd => by
    simp only [Chunk.view, ChunkView.mk.injEq] at hcd ⊢
    simp only [hcd, and_self]

theorem Agree.chunkNew (h : Agree t u) (version : UInt32) : Agree (t.chunkNew version) (u.chunkNew version) := by
  obtain ⟨hn, hv⟩ := h
  unfold ChunksMetadata.chunkNew
  rw [hn]
  exact (show Agree { t with nextchunkid := u.nextchunkid + 1 } { u with nextchunkid := u.nextchunkid + 1 }
    from ⟨rfl, hv⟩).store _ rfl

/-- The goal counters of agreeing chunks are the same, so changing them by the same
function keeps the chunks agreeing. -/
theorem view_goalCounters_update {c d : Chunk} (hv : d.view = c.view) (cs : List GoalCounter) :
    ({ c with goalCounters := cs } : Chunk).view = ({ d with goalCounters := cs } : Chunk).view := by
  simp only [Chunk.view, ChunkView.mk.injEq] at hv ⊢
  simp only [hv, and_self]

theorem Agree.addFileInt (h : Agree t u) (id goal : Nat) :
    Agree (t.addFileInt id goal).1 (u.addFileInt id goal).1 := by
  rcases hc : t.chunks id with _ | c
  · have hd : u.chunks id = none := h.find_none hc
    simp only [ChunksMetadata.addFileInt, hc, hd]
    exact h
  · obtain ⟨d, hd, hv⟩ := h.find_some hc
    simp only [ChunksMetadata.find] at hd
    have hg : d.goalCounters = c.goalCounters := congrArg ChunkView.goalCounters hv
    simp only [ChunksMetadata.addFileInt, hc, hd, hg]
    split
    · exact h.store id (view_goalCounters_update hv _)
    · exact h

theorem Agree.deleteFileInt (h : Agree t u) (id goal : Nat) :
    Agree (t.deleteFileInt id goal).1 (u.deleteFileInt id goal).1 := by
  rcases hc : t.chunks id with _ | c
  · have hd : u.chunks id = none := h.find_none hc
    simp only [ChunksMetadata.deleteFileInt, hc, hd]
    exact h
  · obtain ⟨d, hd, hv⟩ := h.find_some hc
    simp only [ChunksMetadata.find] at hd
    have hg : d.goalCounters = c.goalCounters := congrArg ChunkView.goalCounters hv
    simp only [ChunksMetadata.deleteFileInt, hc, hd, hg]
    split
    · exact h.store id (view_goalCounters_update hv _)
    · exact h

/-- The master's `operation` is no metadata. -/
theorem Agree.setOperation (h : Agree t u) (id : Nat) (op : ChunkOperation) :
    Agree (t.setOperation id op) u := by
  rcases hc : t.chunks id with _ | c
  · simp only [ChunksMetadata.setOperation, hc]
    exact h
  · simp only [ChunksMetadata.setOperation, hc]
    exact h.put_left (by simp only [hc, Option.map_some, Chunk.view])

/-- Copy-on-write on both sides: the master's `duplicate` (which also sets the new
chunk's `operation`) and the shadow's sequence of `chunk_new`,
`chunk_delete_file_int` and `chunk_add_file_int`. -/
theorem Agree.duplicate (h : Agree t u) (ochunkid goal : Nat) (op : ChunkOperation) :
    Agree (t.duplicate ochunkid goal op).1
      (((u.chunkNew 1).deleteFileInt ochunkid goal).1.addFileInt u.nextchunkid goal).1 := by
  unfold ChunksMetadata.duplicate
  rw [h.next]
  exact ((((h.chunkNew 1).setOperation _ op).deleteFileInt ochunkid goal).addFileInt _ goal)

end ChunksMetadata

open ChunksMetadata

variable {env : ChunkEnv} {t u t₁ : ChunksMetadata} {ochunkid goal id opflag : Nat} {lockid : UInt32}

/-! ## The decisions -/

/-- **What a successful write decides**: a new chunk, the file's own chunk (with a
new version exactly when `needverincrease`), or a copy of a shared chunk. -/
theorem chooseModify_eq_ok {quota : Bool}
    (hm : chooseModify env t ochunkid lockid goal quota = .ok (t₁, id, opflag)) :
    (ochunkid = 0 ∧ t₁ = (((t.chunkNew 1).setOperation t.nextchunkid .create).addFileInt t.nextchunkid goal).1 ∧
      id = t.nextchunkid ∧ opflag = 1) ∨
    (∃ oc, ochunkid ≠ 0 ∧ t.find ochunkid = some oc ∧ oc.fileCount = 1 ∧ id = ochunkid ∧
      ((oc.needverincrease = true ∧ opflag = 1 ∧
          t₁ = t.put ochunkid { oc with version := oc.version + 1, operation := .setVersion }) ∨
        (oc.needverincrease = false ∧ opflag = 0 ∧ t₁ = t))) ∨
    (∃ oc, ochunkid ≠ 0 ∧ t.find ochunkid = some oc ∧ oc.fileCount ≠ 0 ∧ oc.fileCount ≠ 1 ∧
      t.duplicate ochunkid goal .duplicate = (t₁, id) ∧ opflag = 1) := by
  unfold chooseModify at hm
  by_cases h0 : ochunkid = 0
  · -- a new chunk, once the three checks have passed
    rw [if_pos h0] at hm
    split at hm
    · cases hm
    split at hm
    · cases hm
    split at hm
    · cases hm
    simp only [Except.ok.injEq, Prod.mk.injEq] at hm
    obtain ⟨rfl, rfl, rfl⟩ := hm
    exact .inl ⟨h0, rfl, rfl, rfl⟩
  rw [if_neg h0] at hm
  split at hm
  · cases hm
  rename_i oc hf
  -- the lock, writability and redundancy checks only fail
  split at hm
  · cases hm
  split at hm
  · cases hm
  split at hm
  · cases hm
  split at hm
  · cases hm
  split at hm
  · -- the file owns the chunk
    rename_i hone
    split at hm
    · cases hm
    split at hm
    · rename_i hver
      simp only [Except.ok.injEq, Prod.mk.injEq] at hm
      obtain ⟨rfl, rfl, rfl⟩ := hm
      exact .inr (.inl ⟨oc, h0, hf, hone, rfl, .inl ⟨hver, rfl, rfl⟩⟩)
    · rename_i hver
      simp only [Except.ok.injEq, Prod.mk.injEq] at hm
      obtain ⟨rfl, rfl, rfl⟩ := hm
      exact .inr (.inl ⟨oc, h0, hf, hone, rfl, .inr ⟨by simpa using hver, rfl, rfl⟩⟩)
  rename_i hone
  split at hm
  · cases hm
  rename_i hzero
  split at hm
  · cases hm
  -- a shared chunk is copied
  rcases hd : t.duplicate ochunkid goal .duplicate with ⟨t₂, id₂⟩
  rw [hd] at hm
  simp only [Except.ok.injEq, Prod.mk.injEq] at hm
  obtain ⟨rfl, rfl, rfl⟩ := hm
  exact .inr (.inr ⟨oc, h0, hf, hzero, hone, rfl, rfl⟩)

/-- **The shadow's decision on a new chunk.** -/
theorem chooseApply_zero (b : Bool) :
    chooseApply u 0 goal b = .ok (((u.chunkNew 1).addFileInt u.nextchunkid goal).1, u.nextchunkid) := by
  simp only [chooseApply, if_true]

/-- **The shadow's decision on a chunk of one file.** -/
theorem chooseApply_one {d : Chunk} (b : Bool) (h0 : ochunkid ≠ 0) (hf : u.find ochunkid = some d)
    (hone : d.fileCount = 1) :
    chooseApply u ochunkid goal b =
      .ok (if b then u.put ochunkid { d with version := d.version + 1 } else u, ochunkid) := by
  simp only [chooseApply, if_neg h0, hf, hone, Nat.one_ne_zero, ↓reduceIte]

/-- **The shadow's decision on a shared chunk.** -/
theorem chooseApply_shared {d : Chunk} (b : Bool) (h0 : ochunkid ≠ 0) (hf : u.find ochunkid = some d)
    (hzero : d.fileCount ≠ 0) (hone : d.fileCount ≠ 1) :
    chooseApply u ochunkid goal b =
      .ok ((((u.chunkNew 1).deleteFileInt ochunkid goal).1.addFileInt u.nextchunkid goal).1,
        u.nextchunkid) := by
  simp only [chooseApply, if_neg h0, hf, hzero, hone, if_false]

/-- A new version keeps two agreeing chunks agreeing, whatever the master's `operation`. -/
theorem view_version_succ {c d : Chunk} (hv : d.view = c.view) (op : ChunkOperation) :
    ({ c with version := c.version + 1, operation := op } : Chunk).view =
      ({ d with version := d.version + 1 } : Chunk).view := by
  simp only [Chunk.view, ChunkView.mk.injEq] at hv ⊢
  simp only [hv, and_self]

/-- **The master's write decision is the shadow's**: on agreeing tables, replaying
the decision with the logged `opflag` takes the same branch, picks the same chunk id
and leaves the tables agreeing. -/
theorem chooseModify_agree {quota : Bool} (h : Agree t u)
    (hm : chooseModify env t ochunkid lockid goal quota = .ok (t₁, id, opflag)) :
    ∃ u₁, chooseApply u ochunkid goal (opflag ≠ 0) = .ok (u₁, id) ∧ Agree t₁ u₁ := by
  rcases chooseModify_eq_ok hm with ⟨rfl, rfl, rfl, rfl⟩ | ⟨oc, h0, hf, hone, rfl, hver⟩ |
    ⟨oc, h0, hf, hzero, hone, hdup, rfl⟩
  · -- both sides create the chunk `nextchunkid`
    refine ⟨_, by rw [h.next]; exact chooseApply_zero _, ?_⟩
    rw [← h.next]
    exact ((h.chunkNew 1).setOperation _ .create).addFileInt _ goal
  · obtain ⟨d, hd, hdv⟩ := h.find_some hf
    have hdone : d.fileCount = 1 := (Chunk.fileCount_eq_of_view hdv).trans hone
    rcases hver with ⟨-, rfl, rfl⟩ | ⟨-, rfl, rfl⟩
    · -- a new version on both sides
      exact ⟨_, chooseApply_one _ h0 hd hdone, by simpa using h.put id (view_version_succ hdv _)⟩
    · -- the same version on both sides
      exact ⟨u, by simpa using chooseApply_one false h0 hd hdone, h⟩
  · -- both sides copy the chunk into the new chunk `nextchunkid`
    obtain ⟨d, hd, hdv⟩ := h.find_some hf
    have hcount := Chunk.fileCount_eq_of_view hdv
    have hfst : (t.duplicate ochunkid goal .duplicate).1 = t₁ := by rw [hdup]
    have hsnd : (t.duplicate ochunkid goal .duplicate).2 = id := by rw [hdup]
    have hid : id = u.nextchunkid := by
      rw [← hsnd, ← h.next]
      rfl
    rw [hid, ← hfst]
    exact ⟨_, chooseApply_shared _ h0 hd (hcount ▸ hzero) (hcount ▸ hone), h.duplicate ochunkid goal _⟩

/-- **What a successful truncation decides**: the file's own chunk gets a new
version, a shared chunk is copied. -/
theorem chooseTruncate_eq_ok {oc : Chunk} {quota : Bool}
    (hm : chooseTruncate t oc ochunkid goal quota = .ok (t₁, id)) :
    (oc.fileCount = 1 ∧ id = ochunkid ∧
      t₁ = t.put ochunkid { oc with version := oc.version + 1, operation := .truncate }) ∨
    (oc.fileCount ≠ 0 ∧ oc.fileCount ≠ 1 ∧ t.duplicate ochunkid goal .duptrunc = (t₁, id)) := by
  unfold chooseTruncate at hm
  split at hm
  · rename_i hone
    split at hm
    · cases hm
    simp only [Except.ok.injEq, Prod.mk.injEq] at hm
    obtain ⟨rfl, rfl⟩ := hm
    exact .inl ⟨hone, rfl, rfl⟩
  rename_i hone
  split at hm
  · cases hm
  rename_i hzero
  split at hm
  · cases hm
  simp only [Except.ok.injEq] at hm
  exact .inr ⟨hzero, hone, hm⟩

/-- **The master's truncation decision is the shadow's**, which always increases
the version (`fs_apply_trunc` passes `true`). -/
theorem chooseTruncate_agree {oc : Chunk} {quota : Bool} (h : Agree t u) (h0 : ochunkid ≠ 0)
    (hf : t.find ochunkid = some oc) (hm : chooseTruncate t oc ochunkid goal quota = .ok (t₁, id)) :
    ∃ u₁, chooseApply u ochunkid goal true = .ok (u₁, id) ∧ Agree t₁ u₁ := by
  obtain ⟨d, hd, hdv⟩ := h.find_some hf
  have hcount := Chunk.fileCount_eq_of_view hdv
  rcases chooseTruncate_eq_ok hm with ⟨hone, rfl, rfl⟩ | ⟨hzero, hone, hdup⟩
  · exact ⟨_, chooseApply_one _ h0 hd (hcount.trans hone), by simpa using h.put id (view_version_succ hdv _)⟩
  · have hfst : (t.duplicate ochunkid goal .duptrunc).1 = t₁ := by rw [hdup]
    have hsnd : (t.duplicate ochunkid goal .duptrunc).2 = id := by rw [hdup]
    have hid : id = u.nextchunkid := by
      rw [← hsnd, ← h.next]
      rfl
    rw [hid, ← hfst]
    exact ⟨_, chooseApply_shared _ h0 hd (hcount ▸ hzero) (hcount ▸ hone), h.duplicate ochunkid goal _⟩

/-! ## Whole functions -/

/-- A successful `chunk_multi_modify` is its decision followed by the lock stamp. -/
theorem chunkMultiModify_eq_ok {dummy quota : Bool} {t' : ChunksMetadata} {lockid' : UInt32}
    (hm : chunkMultiModify env t ochunkid lockid goal dummy quota = .ok (t', lockid', opflag, id)) :
    ∃ t₁, chooseModify env t ochunkid lockid goal quota = .ok (t₁, id, opflag) ∧
      lockid' = env.writeLockid lockid dummy ∧ t' = t₁.stampLock id env.now lockid' := by
  obtain ⟨⟨t₁, id₁, opflag₁⟩, hc, heq⟩ := Except.map_eq_ok hm
  simp only [Prod.mk.injEq] at heq
  obtain ⟨rfl, rfl, rfl, rfl⟩ := heq
  exact ⟨t₁, hc, rfl, rfl⟩

/-- A successful `chunk_multi_truncate` passed its checks on an existing chunk and is
its decision followed by the lock stamp. -/
theorem chunkMultiTruncate_eq_ok {deny quota : Bool} {t' : ChunksMetadata}
    (hm : chunkMultiTruncate env t ochunkid lockid goal deny quota = .ok (t', id)) :
    ∃ oc t₁, t.find ochunkid = some oc ∧ chooseTruncate t oc ochunkid goal quota = .ok (t₁, id) ∧
      t' = t₁.stampLock id env.now lockid := by
  unfold chunkMultiTruncate at hm
  split at hm
  · cases hm
  rename_i oc hf
  -- the writability, lock and parity checks only fail
  split at hm
  · cases hm
  split at hm
  · cases hm
  split at hm
  · cases hm
  obtain ⟨⟨t₁, id₁⟩, hc, heq⟩ := Except.map_eq_ok hm
  simp only [Prod.mk.injEq] at heq
  obtain ⟨rfl, rfl⟩ := heq
  exact ⟨oc, t₁, hf, hc, rfl⟩

/-- The shadow's replay is its decision followed by the lock stamp. -/
theorem chunkApplyModification_of_choose {ts : UInt32} {b : Bool} {u₁ : ChunksMetadata}
    (hc : chooseApply u ochunkid goal b = .ok (u₁, id)) :
    chunkApplyModification u ts ochunkid lockid goal b = .ok (u₁.stampLock id ts lockid, id) := by
  simp only [chunkApplyModification, hc]
  rfl

/-- **Replaying a write**: after the master's successful `chunk_multi_modify`, the
shadow's `chunk_apply_modification` with the logged lock id and `opflag`, at the
master's time, succeeds on the same chunk id and the tables still agree. -/
theorem chunkMultiModify_replay {dummy quota : Bool} {t' : ChunksMetadata} {lockid' : UInt32}
    (h : Agree t u) (hm : chunkMultiModify env t ochunkid lockid goal dummy quota = .ok (t', lockid', opflag, id)) :
    ∃ u', chunkApplyModification u env.now ochunkid lockid' goal (opflag ≠ 0) = .ok (u', id) ∧ Agree t' u' := by
  obtain ⟨t₁, hc, -, rfl⟩ := chunkMultiModify_eq_ok hm
  obtain ⟨u₁, hu, hagree⟩ := chooseModify_agree h hc
  exact ⟨_, chunkApplyModification_of_choose hu, hagree.stampLock _ _ _⟩

/-- **Replaying a truncation**: the same for `chunk_multi_truncate`, replayed with
`doIncreaseVersion = true`. -/
theorem chunkMultiTruncate_replay {deny quota : Bool} {t' : ChunksMetadata} (h : Agree t u) (h0 : ochunkid ≠ 0)
    (hm : chunkMultiTruncate env t ochunkid lockid goal deny quota = .ok (t', id)) :
    ∃ u', chunkApplyModification u env.now ochunkid lockid goal true = .ok (u', id) ∧ Agree t' u' := by
  obtain ⟨oc, t₁, hf, hc, rfl⟩ := chunkMultiTruncate_eq_ok hm
  obtain ⟨u₁, hu, hagree⟩ := chooseTruncate_agree h h0 hf hc
  exact ⟨_, chunkApplyModification_of_choose hu, hagree.stampLock _ _ _⟩

end LizardFs
