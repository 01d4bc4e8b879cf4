import Mathlib
import LizardFs.Master.Restore
import LizardFs.Master.Replay

/-!
# The changelog round trip: what the master writes, `restore_line` replays

The master writes a change as text (`fsChangelogLine`); a shadow reads it back with
`restore_line` (`restoreLine`), from the line the master sent with `": "` in front, or
from a line of a changelog file after its version number. This module shows that the
text loses nothing, and that a shadow replaying the text stays with the master:

* `restoreBody_format` — every entry the master writes, whose names fit in
  `MFS_NAME_MAX` and hold no NUL, is read back by its `do_*` function as the call
  that stands for it (`Change.restored`), whatever ends the line;
* `restoreLine_fsChangelogLine` — the same for the whole line, time stamp included,
  when `vsnprintf` did not cut the entry;
* `shadow_text_replay_agrees` — for the two operations whose effect is modelled
  (`WRITE` and `TRUNC`), the shadow that reads the master's line and makes the call
  agrees with the master afterwards.
-/

namespace LizardFs

open CString Restore ChunksMetadata

/-- The call of `restore.cc` that replays an entry the master wrote: the same values,
the narrow ones widened to the variables `do_*` reads them into, `FLCK`'s lock type
choosing the call, and an entry of a `SetGoalTask` or `SetTrashtimeTask` standing for
the result `kChanged`. -/
def Change.restored : Change → FsCall
  | .access inode => .access inode
  | .acquire inode sessionid => .acquire inode sessionid
  | .append inode inodeSrc => .append inode inodeSrc
  | .attr inode mode uid gid atime mtime => .attr inode mode.toUInt32 uid gid atime mtime
  | .clone srcInode dstParent dstInode name canOverwrite =>
    .cloneNode srcInode dstParent dstInode name canOverwrite.toUInt32
  | .clrlck type inode sessionid => .locksClearSession type.toUInt32 inode sessionid
  | .create parent name type mode uid gid rdev inode => .create parent name type mode.toUInt32 uid gid rdev inode
  | .deleteacl inode type => .deleteacl inode type
  | .flock inode owner sessionid op => .flockOp inode owner sessionid op.toUInt32
  | .posixlock inode start end_ owner sessionid op => .posixlockOp inode start end_ owner sessionid op.toUInt32
  | .flckinode type inode => .locksUnlockInode type.toUInt32 inode
  | .incversion chunkid => .incversion chunkid
  | .length inode len => .length inode len
  | .link inode parent name => .link inode parent name
  | .move parentSrc nameSrc parentDst nameDst inode => .rename parentSrc nameSrc parentDst nameDst inode
  | .nextchunkid chunkid => .setNextchunkid chunkid
  | .purge inode => .purge inode
  | .release inode sessionid => .release inode sessionid
  | .repair inode indx version => .repair inode indx version
  | .rmplock type ownerid sessionid inode reqid => .locksRemovePending type.toUInt32 ownerid sessionid inode reqid
  | .session sessionid => .session sessionid
  | .setacl inode type acl => .setacl inode (ofChar (if type = .access then 'a' else 'd')) acl
  | .seteattr inode uid eattr smode si nci nsi => .seteattr uid inode eattr smode si nci nsi
  | .setgoal inode uid goal smode si nci nsi => .deprecatedSetgoal uid inode goal smode si nci nsi
  | .setgoalTask inode uid goal smode => .setgoal uid inode goal smode taskChanged
  | .setpath inode path => .settrashpath inode path
  | .setquota rigor resource ownerType ownerId limit =>
    .setquota (ofChar rigor.name) (ofChar resource.name) (ofChar ownerType.name) ownerId limit
  | .setrichacl inode acl => .setrichacl inode acl
  | .settrashtime inode uid trashtime smode si nci nsi =>
    .deprecatedSettrashtime uid inode trashtime smode si nci nsi
  | .settrashtimeTask inode uid trashtime smode => .settrashtime uid inode trashtime smode taskChanged
  | .setxattr inode name value mode => .setxattr inode name value mode.toUInt32
  | .symlink parent name path uid gid inode => .symlink uid gid parent name path inode
  | .trunc inode indx lockid chunkid => .trunc inode indx chunkid lockid
  | .undel inode => .undel inode
  | .unlink parent name inode => .unlink parent name inode
  | .unlock chunkid => .unlock chunkid
  | .write inode indx opflag lockid chunkid => .writechunk inode indx lockid chunkid opflag

/-- What the texts of an entry must be for the round trip: names as the master keeps
them, paths without NUL, a node type that is not NUL. -/
def Change.FieldsOk : Change → Prop
  | .clone _ _ _ name _ => NameOk name
  | .create _ name type _ _ _ _ _ => NameOk name ∧ type ≠ 0
  | .link _ _ name => NameOk name
  | .move _ nameSrc _ nameDst _ => NameOk nameSrc ∧ NameOk nameDst
  | .setacl _ _ acl => AclTextOk acl
  | .setpath _ path => (0 : UInt8) ∉ path
  | .setrichacl _ acl => AclTextOk acl
  | .setxattr _ name _ _ => NameOk name
  | .symlink _ name path _ _ _ => NameOk name ∧ (0 : UInt8) ∉ path
  | .unlink _ name _ => NameOk name
  | _ => True

instance instDecidableFieldsOk : DecidablePred Change.FieldsOk := fun c => by
  cases c <;> dsimp only [Change.FieldsOk] <;> infer_instance

/-! ## Reading the header -/

/-- `: ts|` is read back before any entry. -/
theorem lineHeader_run (ts : UInt32) (body : Bytes) :
    lineHeader.run (lit ": " ++ fmtU ts.toNat ++ lit "|" ++ body) = some (ts, body) := by
  simp [lineHeader, lit, List.append_assoc]

/-- The line a shadow reads is the header, the entry and what follows, when
`vsnprintf` did not cut the entry. -/
theorem fsChangelogLine_append {c : Change} (hlen : c.format.length < kMaxEntrySize) (ts : UInt32)
    (rest : Bytes) :
    lit ": " ++ fsChangelogLine ts c ++ rest = lit ": " ++ fmtU ts.toNat ++ lit "|" ++ (c.format ++ rest) := by
  rw [fsChangelogLine, List.take_of_length_le (by omega)]
  simp only [List.append_assoc]

/-! ## Reading the entry -/

/-- **Every entry reads back.** On the text of an entry, `restore_line` picks the
`do_*` function of the entry's name, and that function makes the entry's call. -/
theorem restoreBody_format (ts : UInt32) (c : Change) (hc : c.FieldsOk) {rest : Bytes} (hrest : LineEnd rest) :
    restoreBody ts (c.format ++ rest) = .call ts c.restored := by
  have hdigit := hrest.isDigit_peek
  have hcolon := hrest.peek_ne_colon
  -- one case per entry: the name picks the `do_*` function (`restoreBody_of_dispatch`,
  -- by evaluating the `switch`), the text after the name is normalised as the spec
  -- lemmas of the `do_*` functions state it, and the spec lemma of that function reads it
  cases c <;> dsimp only [Change.FieldsOk] at hc <;>
    simp only [Change.format, List.append_assoc] <;>
    refine (restoreBody_of_dispatch rfl (by simp [lit]) ts _).trans ?_ <;>
    simp only [lit, String.reduceToList, List.map_cons, List.map_nil, List.cons_append, List.nil_append,
      List.drop_succ_cons, List.drop_zero, List.length_cons, List.length_nil, Nat.reduceAdd] <;>
    simp only [doAccess_run, doAppend_run, doAcquire_run, doAttr_run, doCreate_run, doSession_run,
      doIncversion_run, doLink_run, doLength_run, doMove_run, doLockOp_run_flock, doLockOp_run_posix,
      doRemovePendingOp_run, doLockClearSession_run, doLockUnlockInode_run, doPurge_run, doRelease_run,
      doRepair_run, doSeteattr_run, doSetgoal_run, doSetgoal_run_task, doSetpath_run, doSettrashtime_run,
      doSettrashtime_run_task, doSetxattr_run, doDeleteacl_run, doSetacl_run, doSetrichacl_run, doSetquota_run,
      doCloneNode_run, doSymlink_run, doUndel_run, doUnlink_run, doUnlock_run, doNextchunkid_run, doTrunc_run,
      doWrite_run, hdigit, hcolon, hc, ne_eq, not_false_eq_true, Change.restored]

/-- **The master's line replays.** The line `: ts|ENTRY` a shadow gets for an entry
that `vsnprintf` did not cut is replayed by `restore_line` as the entry's call, at the
entry's time stamp, whatever ends the line. -/
theorem restoreLine_fsChangelogLine (ts : UInt32) (c : Change) (hc : c.FieldsOk)
    (hlen : c.format.length < kMaxEntrySize) {rest : Bytes} (hrest : LineEnd rest) :
    restoreLine (lit ": " ++ fsChangelogLine ts c ++ rest) = .call ts c.restored := by
  rw [fsChangelogLine_append hlen, restoreLine, lineHeader_run]
  exact restoreBody_format ts c hc hrest

/-- An escaped `,` in a name: `UNLINK(1,a%2Cb):5` is read back as the unlink of `a,b`. -/
theorem restoreLine_unlink_escaped :
    restoreLine (lit ": " ++ fsChangelogLine 7 (.unlink 1 (lit "a,b") 5) ++ []) = .call 7 (.unlink 1 (lit "a,b") 5) :=
  restoreLine_fsChangelogLine 7 (.unlink 1 (lit "a,b") 5) (by decide) (by decide) (Or.inl rfl)

/-! ## The text of the modelled operations

`fsWritechunk` and `fsTrySetlength` log `ChangelogEntry`s, with the values as
natural numbers. The master prints them from its C variables: `uint32_t` inode and
index, `uint8_t` opflag, `uint64_t` chunk id; a field an older master left out is
printed as the value `do_write` and `do_trunc` read for it. -/

/-- The entry the master writes for a `ChangelogEntry`. -/
def ChangelogEntry.change : ChangelogEntry → Change
  | .write inode indx opflag lockid chunkid =>
    .write (UInt32.ofNat inode) (UInt32.ofNat indx) (UInt8.ofNat (opflag.getD 1)) (lockid.getD 1)
      (UInt64.ofNat chunkid)
  | .trunc inode indx lockid chunkid =>
    .trunc (UInt32.ofNat inode) (UInt32.ofNat indx) (lockid.getD 0) (UInt64.ofNat chunkid)

/-- The values of an entry fit in the C variables the master prints them from. -/
def ChangelogEntry.Fits : ChangelogEntry → Prop
  | .write inode indx _ _ chunkid => inode < 2 ^ 32 ∧ indx < 2 ^ 32 ∧ chunkid < 2 ^ 64
  | .trunc inode indx _ chunkid => inode < 2 ^ 32 ∧ indx < 2 ^ 32 ∧ chunkid < 2 ^ 64

instance instDecidableFits : DecidablePred ChangelogEntry.Fits := fun e =>
  match e with
  | .write .. => inferInstanceAs (Decidable (_ ∧ _ ∧ _))
  | .trunc .. => inferInstanceAs (Decidable (_ ∧ _ ∧ _))

/-- What the shadow's call does to its metadata, for the two calls whose effect is
modelled: `fs_writechunk` in `FsContext::getForRestore(ts)`, whose status `do_write`
returns (`doWrite` with every field read), and `fs_apply_trunc`. -/
def FsCall.apply (m : FsMetadata) (ts : UInt32) : FsCall → Option (FsMetadata × Status)
  | .writechunk inode indx lockid chunkid opflag =>
    some (doWrite m ts inode.toNat indx.toNat (some opflag.toNat) (some lockid) chunkid.toNat)
  | .trunc inode indx chunkid lockid => some (fsApplyTrunc m ts inode.toNat indx.toNat chunkid.toNat lockid)
  | _ => none

theorem length_fmtU32 (n : UInt32) : (fmtU n.toNat).length ≤ 10 :=
  length_decimal_le (lt_of_lt_of_le n.toNat_lt (by norm_num))

theorem length_fmtU8 (n : UInt8) : (fmtU n.toNat).length ≤ 3 :=
  length_decimal_le (lt_of_lt_of_le n.toNat_lt (by norm_num))

theorem length_fmtU64 (n : UInt64) : (fmtU n.toNat).length ≤ 20 :=
  length_decimal_le (lt_of_lt_of_le n.toNat_lt (by norm_num))

/-- `WRITE` and `TRUNC` entries are a few dozen bytes: `vsnprintf` never cuts them. -/
theorem ChangelogEntry.length_format_lt (e : ChangelogEntry) : e.change.format.length < kMaxEntrySize := by
  cases e with
  | write inode indx opflag lockid chunkid =>
    have := length_fmtU32 (UInt32.ofNat inode)
    have := length_fmtU32 (UInt32.ofNat indx)
    have := length_fmtU8 (UInt8.ofNat (opflag.getD 1))
    have := length_fmtU32 (lockid.getD 1)
    have := length_fmtU64 (UInt64.ofNat chunkid)
    simp only [ChangelogEntry.change, Change.format, List.length_append, lit, List.length_map,
      String.reduceToList, List.length_cons, List.length_nil, kMaxEntrySize, kMaxLogLineSize, kMaxTimestampSize]
    omega
  | trunc inode indx lockid chunkid =>
    have := length_fmtU32 (UInt32.ofNat inode)
    have := length_fmtU32 (UInt32.ofNat indx)
    have := length_fmtU32 (lockid.getD 0)
    have := length_fmtU64 (UInt64.ofNat chunkid)
    simp only [ChangelogEntry.change, Change.format, List.length_append, lit, List.length_map,
      String.reduceToList, List.length_cons, List.length_nil, kMaxEntrySize, kMaxLogLineSize, kMaxTimestampSize]
    omega

/-- The call read back from an entry that fits does to the shadow what `restoreEntry`
does with the entry. -/
theorem ChangelogEntry.apply_restored {e : ChangelogEntry} (he : e.Fits) (m : FsMetadata) (ts : UInt32) :
    e.change.restored.apply m ts = some (restoreEntry m ts e) := by
  cases e with
  | write inode indx opflag lockid chunkid =>
    obtain ⟨hi, hx, hc⟩ := he
    -- `GETU32` into the `uint8_t opflag` keeps the value modulo 256, as `do_write` does
    have hop : (UInt8.ofNat (opflag.getD 1)).toNat % 256 = opflag.getD 1 % 256 := by simp [UInt8.toNat_ofNat']
    simp only [ChangelogEntry.change, Change.restored, FsCall.apply, restoreEntry, LizardFs.doWrite, Option.getD_some,
      hop, UInt32.toNat_ofNat', UInt64.toNat_ofNat', Nat.mod_eq_of_lt hi, Nat.mod_eq_of_lt hx, Nat.mod_eq_of_lt hc]
  | trunc inode indx lockid chunkid =>
    obtain ⟨hi, hx, hc⟩ := he
    simp only [ChangelogEntry.change, Change.restored, FsCall.apply, restoreEntry, LizardFs.doTrunc,
      UInt32.toNat_ofNat', UInt64.toNat_ofNat', Nat.mod_eq_of_lt hi, Nat.mod_eq_of_lt hx, Nat.mod_eq_of_lt hc]

/-- The master's line of a `WRITE` or `TRUNC` entry is replayed as the entry's call. -/
theorem ChangelogEntry.restoreLine_change (e : ChangelogEntry) (ts : UInt32) {rest : Bytes} (hrest : LineEnd rest) :
    restoreLine (lit ": " ++ fsChangelogLine ts e.change ++ rest) = .call ts e.change.restored := by
  have hc : e.change.FieldsOk := by cases e <;> trivial
  rw [fsChangelogLine_append e.length_format_lt, restoreLine, lineHeader_run]
  exact restoreBody_format ts e.change hc hrest

section Replay

variable {m s m' : FsMetadata} {env : ChunkEnv} {quota : Bool} {session : SessionData}

/-- **The master logs entries that fit**: the entry of a chunk operation on a `uint32_t`
inode fits the master's C variables, while `nextchunkid` stays within `uint64_t`. -/
theorem ChunkOp.runOnMaster_fits {op : ChunkOp} (hm : m.Valid) (h : op.runOnMaster m env quota session = some m')
    (hinode : op.inode < 2 ^ 32) (hnext : m'.chunks.nextchunkid ≤ 2 ^ 64) :
    ∃ e, m'.changelog = m.changelog ++ [(env.now, e)] ∧ e.Fits := by
  have hmax : maxIndex < 2 ^ 32 := by decide
  obtain ⟨-, ⟨indx, opflag, lockid, chunkid, hlog, hi, hc⟩ | ⟨indx, lockid, chunkid, hlog, hi, hc⟩⟩ :=
    ChunkOp.runOnMaster_logged hm h
  · exact ⟨_, hlog, hinode, by omega, by omega⟩
  · exact ⟨_, hlog, hinode, hi, by omega⟩

/-- **A shadow replaying the master's text agrees with it.** A chunk operation that
succeeds on the master logs one entry; the line the master sends for it is read by
the shadow's `restore_line` as the entry's call, which, made on a shadow that agrees
with the master, succeeds and leaves the two in agreement. -/
theorem shadow_text_replay_agrees {op : ChunkOp} (hag : FsAgree m s) (hm : m.Valid) (hs : Tallied s.chunks)
    (hrun : op.runOnMaster m env quota session = some m') :
    ∃ e s', m'.changelog = m.changelog ++ [(env.now, e)] ∧ FsAgree m' s' ∧ Tallied s'.chunks ∧
      ∀ rest, LineEnd rest → e.Fits →
        ∃ call, restoreLine (lit ": " ++ fsChangelogLine env.now e.change ++ rest) = .call env.now call ∧
          call.apply s env.now = some (s', .ok) := by
  obtain ⟨e, s', hlog, hres, hag', hts⟩ := hag.replay hm hs hrun
  refine ⟨e, s', hlog, hag', hts, fun rest hrest he => ⟨e.change.restored, e.restoreLine_change env.now hrest, ?_⟩⟩
  rw [ChangelogEntry.apply_restored he, hres]

/-- The first write of a file, replayed by a shadow from the master's text. -/
theorem first_write_text_replays :
    FsAgree oneEmptyFile oneEmptyFile ∧ oneEmptyFile.Valid ∧ Tallied oneEmptyFile.chunks ∧
      ∃ m', (ChunkOp.writechunk 2 0 false 0).runOnMaster oneEmptyFile newChunkEnv false ⟨1, false, none⟩ = some m' ∧
        ∃ e s', m'.changelog = oneEmptyFile.changelog ++ [(newChunkEnv.now, e)] ∧ FsAgree m' s' ∧
          Tallied s'.chunks ∧ ∀ rest, LineEnd rest → e.Fits →
            ∃ call, restoreLine (lit ": " ++ fsChangelogLine newChunkEnv.now e.change ++ rest) =
              .call newChunkEnv.now call ∧ call.apply oneEmptyFile newChunkEnv.now = some (s', .ok) := by
  have hsome : ((ChunkOp.writechunk 2 0 false 0).runOnMaster oneEmptyFile newChunkEnv false ⟨1, false, none⟩).isSome
      = true := by decide
  obtain ⟨m', hrun⟩ := Option.isSome_iff_exists.mp hsome
  exact ⟨FsAgree.refl _, oneEmptyFile_valid, oneEmptyFile_valid.tallied, m', hrun,
    shadow_text_replay_agrees (FsAgree.refl _) oneEmptyFile_valid oneEmptyFile_valid.tallied hrun⟩

end Replay

end LizardFs
