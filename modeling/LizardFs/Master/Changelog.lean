import Mathlib
import LizardFs.Lib.CString
import LizardFs.Master.NodeOps

/-!
# The changelog lines the master writes

Every change of the metadata on the master is written by `fs_changelog(ts, format, ...)`
(`filesystem_operations.cc`) as the line `ts|ENTRY`, which `changelog()` appends to the
changelog file as `version: ts|ENTRY` and `matomlserv` sends to the shadows. Names and
paths in an entry go through `fsnodes_escape_name` (`filesystem_node.cc`).

* `Change` — the entries, one constructor for each format string of a call site of
  `fs_changelog`, with the values the call site passes, in their C types;
* `fsnodesEscapeName` — `fsnodes_escape_name` on the source's signed `char`;
  `fsnodesEscapeName_eq` shows it is the library's `percentEscape` of the bytes
  `nameEscaped` selects;
* `Change.format` — the text `vsnprintf` makes of an entry; `fsChangelogLine` —
  the line with its time stamp, cut at `kMaxEntrySize - 1` bytes of entry;
  `changelogFileLine` — the line of the changelog file.

Which entry a call site writes is not modelled with the operation itself: the
operations modelled elsewhere (`fsWritechunk`, `fsTrySetlength`) keep the entries of
`ChangelogEntry`, and `ChangelogText` connects the two.
-/

namespace LizardFs

open CString

/-- `AclType`: `kAccess`, `kDefault`, `kRichACL`. -/
inductive AclType where
  | access
  | default
  | richACL
  deriving DecidableEq, Repr

/-- `acl_type[std::min(3, (int)type)]` of `fs_deleteacl`: the table `{'a', 'd', 'r'}`. -/
def AclType.name : AclType → Char
  | .access => 'a'
  | .default => 'd'
  | .richACL => 'r'

/-- `QuotaRigor`: `kSoft`, `kHard`, `kUsed`. -/
inductive QuotaRigor where
  | soft
  | hard
  | used
  deriving DecidableEq, Repr

/-- `rigor_name` of `fs_quota_set`. -/
def QuotaRigor.name : QuotaRigor → Char
  | .soft => 'S'
  | .hard => 'H'
  | .used => 'U'

/-- `resource_name` of `fs_quota_set`. -/
def QuotaResource.name : QuotaResource → Char
  | .inodes => 'I'
  | .size => 'S'

/-- `owner_name` of `fs_quota_set`. -/
def QuotaOwnerType.name : QuotaOwnerType → Char
  | .user => 'U'
  | .group => 'G'
  | .inode => 'I'

/-- The tables print letters: `%c` never writes the NUL that would end the line. -/
theorem QuotaRigor.ofChar_name_ne_zero (r : QuotaRigor) : ofChar r.name ≠ 0 := by
  cases r <;> decide

theorem QuotaResource.ofChar_name_ne_zero (r : QuotaResource) : ofChar r.name ≠ 0 := by
  cases r <;> decide

theorem QuotaOwnerType.ofChar_name_ne_zero (o : QuotaOwnerType) : ofChar o.name ≠ 0 := by
  cases o <;> decide

/-- `lzfs_locks::Type::kFlock` and `kPosix`, as the master prints them with `%u`. -/
def lockTypeFlock : UInt8 := 0
def lockTypePosix : UInt8 := 1

/-! ## Escaped names -/

/-- `fsnodes_escape_name`: every byte `c` of the name, read as the source's signed
`char`, with `c < 32 || c >= 127` or one of `,` `%` `(` `)` becomes `%` and the hex
digits `hex_digit[(c >> 4) & 0xF]`, `hex_digit[c & 0xF]`; the others stay. -/
def fsnodesEscapeName (name : Bytes) : Bytes :=
  name.flatMap fun b =>
    let c := b.toInt8
    if c < 32 || c ≥ 127 || b == ofChar ',' || b == ofChar '%' || b == ofChar '(' || b == ofChar ')' then
      [ofChar '%', hexDigit ((c >>> 4) &&& 15).toNatClampNeg, hexDigit (c &&& 15).toNatClampNeg]
    else [b]

/-- The bytes `fsnodes_escape_name` escapes, on the unsigned byte: the control bytes,
`DEL` and above, and `,` `%` `(` `)`. -/
def nameEscaped (b : UInt8) : Bool :=
  b.toNat < 32 || 127 ≤ b.toNat || b == ofChar ',' || b == ofChar '%' || b == ofChar '(' || b == ofChar ')'

set_option maxRecDepth 4000 in
/-- On each byte the signed tests and shifts of the source agree with the unsigned
ones: the negative `char`s are the bytes from 128 up. -/
theorem escapeName_byte : ∀ b : UInt8,
    (let c := b.toInt8
     if c < 32 || c ≥ 127 || b == ofChar ',' || b == ofChar '%' || b == ofChar '(' || b == ofChar ')' then
       [ofChar '%', hexDigit ((c >>> 4) &&& 15).toNatClampNeg, hexDigit (c &&& 15).toNatClampNeg]
     else [b]) = escapeByte nameEscaped b := by
  decide

theorem fsnodesEscapeName_eq (name : Bytes) : fsnodesEscapeName name = percentEscape nameEscaped name := by
  unfold fsnodesEscapeName percentEscape
  exact List.flatMap_congr fun b _ => escapeName_byte b

/-! ## The entries -/

/-- The entries the master writes, one for each format string of a call site of
`fs_changelog`, with the values the call site passes. -/
inductive Change where
  /-- `fs_update_atime`: `ACCESS(inode)` -/
  | access (inode : UInt32)
  /-- `fs_acquire`: `ACQUIRE(inode,sessionid)` -/
  | acquire (inode sessionid : UInt32)
  /-- `fs_append`: `APPEND(inode,inode_src)` -/
  | append (inode inodeSrc : UInt32)
  /-- `fs_setattr`: `ATTR(inode,mode,uid,gid,atime,mtime)`; the call site passes
  `mode & 07777` for `%d` -/
  | attr (inode : UInt32) (mode : UInt16) (uid gid atime mtime : UInt32)
  /-- `SnapshotTask`: `CLONE(src_inode,dst_parent,dst_inode,name,can_overwrite)` -/
  | clone (srcInode dstParent dstInode : UInt32) (name : Bytes) (canOverwrite : UInt8)
  /-- `fs_locks_clear_session`: `CLRLCK(type,inode,sessionid)` -/
  | clrlck (type : UInt8) (inode sessionid : UInt32)
  /-- `fs_mknod`, `fs_mkdir` and the directories `fsnodes_undel` makes again:
  `CREATE(parent,name,type,mode,uid,gid,rdev):inode` -/
  | create (parent : UInt32) (name : Bytes) (type : UInt8) (mode : UInt16) (uid gid rdev inode : UInt32)
  /-- `fs_deleteacl`: `DELETEACL(inode,type)` -/
  | deleteacl (inode : UInt32) (type : AclType)
  /-- `fs_flock_op`: `FLCK(kFlock,inode,0,1,owner,sessionid,op)` -/
  | flock (inode : UInt32) (owner : UInt64) (sessionid : UInt32) (op : UInt16)
  /-- `fs_posixlock_op`: `FLCK(kPosix,inode,start,end,owner,sessionid,op)` -/
  | posixlock (inode : UInt32) (start end_ owner : UInt64) (sessionid : UInt32) (op : UInt16)
  /-- `fs_locks_unlock_inode`: `FLCKINODE(type,inode)` -/
  | flckinode (type : UInt8) (inode : UInt32)
  /-- `fs_incversion`: `INCVERSION(chunkid)` -/
  | incversion (chunkid : UInt64)
  /-- `fs_do_setlength` and `fs_writeend`: `LENGTH(inode,length)` -/
  | length (inode : UInt32) (length : UInt64)
  /-- `fs_link`: `LINK(inode,parent,name)` -/
  | link (inode parent : UInt32) (name : Bytes)
  /-- `fs_rename`: `MOVE(parent_src,name_src,parent_dst,name_dst):inode` -/
  | move (parentSrc : UInt32) (nameSrc : Bytes) (parentDst : UInt32) (nameDst : Bytes) (inode : UInt32)
  /-- `fs_set_nextchunkid`: `NEXTCHUNKID(chunkid)` -/
  | nextchunkid (chunkid : UInt64)
  /-- `fs_purge` and `fs_do_emptytrash`: `PURGE(inode)` -/
  | purge (inode : UInt32)
  /-- `fs_release`: `RELEASE(inode,sessionid)` -/
  | release (inode sessionid : UInt32)
  /-- `fs_repair`: `REPAIR(inode,indx):version` -/
  | repair (inode indx version : UInt32)
  /-- `fs_locks_remove_pending`: `RMPLOCK(type,ownerid,sessionid,inode,reqid)` -/
  | rmplock (type : UInt8) (ownerid : UInt64) (sessionid inode : UInt32) (reqid : UInt64)
  /-- `fs_newsessionid`: `SESSION():sessionid` -/
  | session (sessionid : UInt32)
  /-- `fs_setacl`: `SETACL(inode,type,acl)`, the type `'a'` for `kAccess` and `'d'` otherwise -/
  | setacl (inode : UInt32) (type : AclType) (acl : Bytes)
  /-- `fs_seteattr`: `SETEATTR(inode,uid,eattr,smode):si,nci,nsi` -/
  | seteattr (inode uid : UInt32) (eattr smode : UInt8) (si nci nsi : UInt32)
  /-- `fs_deprecated_setgoal`: `SETGOAL(inode,uid,goal,smode):si,nci,nsi` -/
  | setgoal (inode uid : UInt32) (goal smode : UInt8) (si nci nsi : UInt32)
  /-- `SetGoalTask`: `SETGOAL(inode,uid,goal,smode)` -/
  | setgoalTask (inode uid : UInt32) (goal smode : UInt8)
  /-- `fs_settrashpath`: `SETPATH(inode,path)` -/
  | setpath (inode : UInt32) (path : Bytes)
  /-- `fs_quota_set`: `SETQUOTA(rigor,resource,owner_type,owner_id,limit)` -/
  | setquota (rigor : QuotaRigor) (resource : QuotaResource) (ownerType : QuotaOwnerType)
      (ownerId : UInt32) (limit : UInt64)
  /-- `fs_setacl` of a rich ACL: `SETRICHACL(inode,acl)` -/
  | setrichacl (inode : UInt32) (acl : Bytes)
  /-- `fs_deprecated_settrashtime`: `SETTRASHTIME(inode,uid,trashtime,smode):si,nci,nsi` -/
  | settrashtime (inode uid trashtime : UInt32) (smode : UInt8) (si nci nsi : UInt32)
  /-- `SetTrashtimeTask`: `SETTRASHTIME(inode,uid,trashtime,smode)` -/
  | settrashtimeTask (inode uid trashtime : UInt32) (smode : UInt8)
  /-- `fs_setxattr`: `SETXATTR(inode,name,value,mode)` -/
  | setxattr (inode : UInt32) (name value : Bytes) (mode : UInt8)
  /-- `fs_symlink`: `SYMLINK(parent,name,path,uid,gid):inode` -/
  | symlink (parent : UInt32) (name path : Bytes) (uid gid inode : UInt32)
  /-- `fs_try_setlength`: `TRUNC(inode,indx,lockid):chunkid` -/
  | trunc (inode indx lockid : UInt32) (chunkid : UInt64)
  /-- `fs_undel`: `UNDEL(inode)` -/
  | undel (inode : UInt32)
  /-- `fs_unlink`, `fs_rmdir` and `RemoveTask`: `UNLINK(parent,name):inode` -/
  | unlink (parent : UInt32) (name : Bytes) (inode : UInt32)
  /-- `fs_end_setlength` and `fs_writeend`: `UNLOCK(chunkid)` -/
  | unlock (chunkid : UInt64)
  /-- `fs_writechunk`: `WRITE(inode,indx,opflag,lockid):chunkid` -/
  | write (inode indx : UInt32) (opflag : UInt8) (lockid : UInt32) (chunkid : UInt64)
  deriving DecidableEq, Repr

/-- `%u` of an unsigned value. -/
def fmtU (n : Nat) : Bytes := decimal n

/-- `%s` of an escaped name or path. -/
def fmtName (name : Bytes) : Bytes := fsnodesEscapeName name

/-- A name as the master keeps it: at most `MFS_NAME_MAX` bytes, none of them NUL. -/
def NameOk (name : Bytes) : Prop := name.length ≤ 255 ∧ (0 : UInt8) ∉ name

/-- An ACL text, written with `%s` as `toString()` made it: no NUL, and neither the
`)` that ends it nor a `%`. -/
def AclTextOk (acl : Bytes) : Prop := (0 : UInt8) ∉ acl ∧ ofChar ')' ∉ acl ∧ ofChar '%' ∉ acl

instance instDecidableNameOk (name : Bytes) : Decidable (NameOk name) := inferInstanceAs (Decidable (_ ∧ _))

instance instDecidableAclTextOk (acl : Bytes) : Decidable (AclTextOk acl) := inferInstanceAs (Decidable (_ ∧ _))

/-- The text `vsnprintf` makes of an entry's format string and values. -/
def Change.format : Change → Bytes
  | .access inode => lit "ACCESS(" ++ fmtU inode.toNat ++ lit ")"
  | .acquire inode sessionid => lit "ACQUIRE(" ++ fmtU inode.toNat ++ lit "," ++ fmtU sessionid.toNat ++ lit ")"
  | .append inode inodeSrc => lit "APPEND(" ++ fmtU inode.toNat ++ lit "," ++ fmtU inodeSrc.toNat ++ lit ")"
  | .attr inode mode uid gid atime mtime =>
    lit "ATTR(" ++ fmtU inode.toNat ++ lit "," ++ fmtU mode.toNat ++ lit "," ++ fmtU uid.toNat ++ lit "," ++
      fmtU gid.toNat ++ lit "," ++ fmtU atime.toNat ++ lit "," ++ fmtU mtime.toNat ++ lit ")"
  | .clone srcInode dstParent dstInode name canOverwrite =>
    lit "CLONE(" ++ fmtU srcInode.toNat ++ lit "," ++ fmtU dstParent.toNat ++ lit "," ++ fmtU dstInode.toNat ++
      lit "," ++ fmtName name ++ lit "," ++ fmtU canOverwrite.toNat ++ lit ")"
  | .clrlck type inode sessionid =>
    lit "CLRLCK(" ++ fmtU type.toNat ++ lit "," ++ fmtU inode.toNat ++ lit "," ++ fmtU sessionid.toNat ++ lit ")"
  | .create parent name type mode uid gid rdev inode =>
    lit "CREATE(" ++ fmtU parent.toNat ++ lit "," ++ fmtName name ++ lit "," ++ [type] ++ lit "," ++
      fmtU mode.toNat ++ lit "," ++ fmtU uid.toNat ++ lit "," ++ fmtU gid.toNat ++ lit "," ++ fmtU rdev.toNat ++
      lit "):" ++ fmtU inode.toNat
  | .deleteacl inode type => lit "DELETEACL(" ++ fmtU inode.toNat ++ lit "," ++ [ofChar type.name] ++ lit ")"
  | .flock inode owner sessionid op =>
    lit "FLCK(" ++ fmtU lockTypeFlock.toNat ++ lit "," ++ fmtU inode.toNat ++ lit ",0,1," ++ fmtU owner.toNat ++
      lit "," ++ fmtU sessionid.toNat ++ lit "," ++ fmtU op.toNat ++ lit ")"
  | .posixlock inode start end_ owner sessionid op =>
    lit "FLCK(" ++ fmtU lockTypePosix.toNat ++ lit "," ++ fmtU inode.toNat ++ lit "," ++ fmtU start.toNat ++
      lit "," ++ fmtU end_.toNat ++ lit "," ++ fmtU owner.toNat ++ lit "," ++ fmtU sessionid.toNat ++ lit "," ++
      fmtU op.toNat ++ lit ")"
  | .flckinode type inode => lit "FLCKINODE(" ++ fmtU type.toNat ++ lit "," ++ fmtU inode.toNat ++ lit ")"
  | .incversion chunkid => lit "INCVERSION(" ++ fmtU chunkid.toNat ++ lit ")"
  | .length inode len => lit "LENGTH(" ++ fmtU inode.toNat ++ lit "," ++ fmtU len.toNat ++ lit ")"
  | .link inode parent name =>
    lit "LINK(" ++ fmtU inode.toNat ++ lit "," ++ fmtU parent.toNat ++ lit "," ++ fmtName name ++ lit ")"
  | .move parentSrc nameSrc parentDst nameDst inode =>
    lit "MOVE(" ++ fmtU parentSrc.toNat ++ lit "," ++ fmtName nameSrc ++ lit "," ++ fmtU parentDst.toNat ++
      lit "," ++ fmtName nameDst ++ lit "):" ++ fmtU inode.toNat
  | .nextchunkid chunkid => lit "NEXTCHUNKID(" ++ fmtU chunkid.toNat ++ lit ")"
  | .purge inode => lit "PURGE(" ++ fmtU inode.toNat ++ lit ")"
  | .release inode sessionid => lit "RELEASE(" ++ fmtU inode.toNat ++ lit "," ++ fmtU sessionid.toNat ++ lit ")"
  | .repair inode indx version =>
    lit "REPAIR(" ++ fmtU inode.toNat ++ lit "," ++ fmtU indx.toNat ++ lit "):" ++ fmtU version.toNat
  | .rmplock type ownerid sessionid inode reqid =>
    lit "RMPLOCK(" ++ fmtU type.toNat ++ lit "," ++ fmtU ownerid.toNat ++ lit "," ++ fmtU sessionid.toNat ++
      lit "," ++ fmtU inode.toNat ++ lit "," ++ fmtU reqid.toNat ++ lit ")"
  | .session sessionid => lit "SESSION():" ++ fmtU sessionid.toNat
  | .setacl inode type acl =>
    lit "SETACL(" ++ fmtU inode.toNat ++ lit "," ++ [ofChar (if type = .access then 'a' else 'd')] ++ lit "," ++
      cStr acl ++ lit ")"
  | .seteattr inode uid eattr smode si nci nsi =>
    lit "SETEATTR(" ++ fmtU inode.toNat ++ lit "," ++ fmtU uid.toNat ++ lit "," ++ fmtU eattr.toNat ++ lit "," ++
      fmtU smode.toNat ++ lit "):" ++ fmtU si.toNat ++ lit "," ++ fmtU nci.toNat ++ lit "," ++ fmtU nsi.toNat
  | .setgoal inode uid goal smode si nci nsi =>
    lit "SETGOAL(" ++ fmtU inode.toNat ++ lit "," ++ fmtU uid.toNat ++ lit "," ++ fmtU goal.toNat ++ lit "," ++
      fmtU smode.toNat ++ lit "):" ++ fmtU si.toNat ++ lit "," ++ fmtU nci.toNat ++ lit "," ++ fmtU nsi.toNat
  | .setgoalTask inode uid goal smode =>
    lit "SETGOAL(" ++ fmtU inode.toNat ++ lit "," ++ fmtU uid.toNat ++ lit "," ++ fmtU goal.toNat ++ lit "," ++
      fmtU smode.toNat ++ lit ")"
  | .setpath inode path => lit "SETPATH(" ++ fmtU inode.toNat ++ lit "," ++ fmtName path ++ lit ")"
  | .setquota rigor resource ownerType ownerId limit =>
    lit "SETQUOTA(" ++ [ofChar rigor.name] ++ lit "," ++ [ofChar resource.name] ++ lit "," ++
      [ofChar ownerType.name] ++ lit "," ++ fmtU ownerId.toNat ++ lit "," ++ fmtU limit.toNat ++ lit ")"
  | .setrichacl inode acl => lit "SETRICHACL(" ++ fmtU inode.toNat ++ lit "," ++ cStr acl ++ lit ")"
  | .settrashtime inode uid trashtime smode si nci nsi =>
    lit "SETTRASHTIME(" ++ fmtU inode.toNat ++ lit "," ++ fmtU uid.toNat ++ lit "," ++ fmtU trashtime.toNat ++
      lit "," ++ fmtU smode.toNat ++ lit "):" ++ fmtU si.toNat ++ lit "," ++ fmtU nci.toNat ++ lit "," ++
      fmtU nsi.toNat
  | .settrashtimeTask inode uid trashtime smode =>
    lit "SETTRASHTIME(" ++ fmtU inode.toNat ++ lit "," ++ fmtU uid.toNat ++ lit "," ++ fmtU trashtime.toNat ++
      lit "," ++ fmtU smode.toNat ++ lit ")"
  | .setxattr inode name value mode =>
    lit "SETXATTR(" ++ fmtU inode.toNat ++ lit "," ++ fmtName name ++ lit "," ++ fmtName value ++ lit "," ++
      fmtU mode.toNat ++ lit ")"
  | .symlink parent name path uid gid inode =>
    lit "SYMLINK(" ++ fmtU parent.toNat ++ lit "," ++ fmtName name ++ lit "," ++ fmtName path ++ lit "," ++
      fmtU uid.toNat ++ lit "," ++ fmtU gid.toNat ++ lit "):" ++ fmtU inode.toNat
  | .trunc inode indx lockid chunkid =>
    lit "TRUNC(" ++ fmtU inode.toNat ++ lit "," ++ fmtU indx.toNat ++ lit "," ++ fmtU lockid.toNat ++ lit "):" ++
      fmtU chunkid.toNat
  | .undel inode => lit "UNDEL(" ++ fmtU inode.toNat ++ lit ")"
  | .unlink parent name inode =>
    lit "UNLINK(" ++ fmtU parent.toNat ++ lit "," ++ fmtName name ++ lit "):" ++ fmtU inode.toNat
  | .unlock chunkid => lit "UNLOCK(" ++ fmtU chunkid.toNat ++ lit ")"
  | .write inode indx opflag lockid chunkid =>
    lit "WRITE(" ++ fmtU inode.toNat ++ lit "," ++ fmtU indx.toNat ++ lit "," ++ fmtU opflag.toNat ++ lit "," ++
      fmtU lockid.toNat ++ lit "):" ++ fmtU chunkid.toNat

/-- `kMaxLogLineSize`. -/
def kMaxLogLineSize : Nat := 200000

/-- `kMaxTimestampSize` of `fs_changelog`. -/
def kMaxTimestampSize : Nat := 20

/-- `kMaxEntrySize` of `fs_changelog`. -/
def kMaxEntrySize : Nat := kMaxLogLineSize - kMaxTimestampSize

/-- `fs_changelog(ts, ...)`: the line `ts|ENTRY` it hands to `changelog()`.
`snprintf(entry, kMaxTimestampSize, "%u|", ts)` always fits; `vsnprintf` keeps at
most `kMaxEntrySize - 1` bytes of the entry. -/
def fsChangelogLine (ts : UInt32) (c : Change) : Bytes :=
  fmtU ts.toNat ++ lit "|" ++ c.format.take (kMaxEntrySize - 1)

/-- `changelog(version, entry)`: the line `version: entry` of the changelog file. -/
def changelogFileLine (version : UInt64) (entry : Bytes) : Bytes :=
  fmtU version.toNat ++ lit ": " ++ entry ++ lit "\n"

end LizardFs
