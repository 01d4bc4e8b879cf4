import Mathlib
import LizardFs.Master.Changelog

/-!
# Reading changelog lines back: `restore_line`

A shadow master, metarestore and a master starting up replay the changelog through
`restore_line` (`restore.cc`): it reads `: ts|NAME(...)`, picks the `do_*` function of
`NAME`, which reads the entry's fields with the macros `EAT`, `GETU32`, `GETU64`,
`GETNAME`, `GETPATH`, `GETDATA` and `GETCHAR` and calls the `fs_*` function that
applies the change.

* `Parser` — a reader of a prefix of the line; the macros are its primitives, each
  with the lemma that reads back what the master printed (`getU32_fmtU`,
  `getName_fmtName`, ...);
* `FsCall` — the call a `do_*` function makes, with the values it read;
* `doAccess` ... `doWrite` — the `do_*` functions, field by field;
* `restoreSwitch`, `restoreLine` — the `switch` on the first byte of the entry and
  the `strncmp` chain of each case, in the source's order.

What each `fs_*` call then does to the metadata is modelled for `WRITE` and `TRUNC`
(`restoreEntry`); `ChangelogText` puts the two together.
-/

namespace LizardFs

open CString

/-- The call a `do_*` function of `restore.cc` makes, with the values it read; the
`FsContext` it builds is given by the time stamp, and by the uid and gid where the
constructor has them. -/
inductive FsCall where
  /-- `fs_apply_access(ts, inode)` -/
  | access (inode : UInt32)
  /-- `fs_append(ctx, inode, inode_src)` -/
  | append (inode inodeSrc : UInt32)
  /-- `fs_acquire(ctx, inode, cuid)` -/
  | acquire (inode cuid : UInt32)
  /-- `fs_apply_attr(ts, inode, mode, uid, gid, atime, mtime)` -/
  | attr (inode mode uid gid atime mtime : UInt32)
  /-- `fs_apply_checksum(version, checksum)` -/
  | checksum (version : Bytes) (checksum : UInt64)
  /-- `fs_apply_create(ts, parent, name, type, mode, uid, gid, rdev, inode)` -/
  | create (parent : UInt32) (name : Bytes) (type : UInt8) (mode uid gid rdev inode : UInt32)
  /-- `fs_apply_session(cuid)` -/
  | session (cuid : UInt32)
  /-- `fs_apply_emptytrash_deprecated(ts, freeinodes, reservedinodes)` -/
  | emptytrashDeprecated (freeinodes reservedinodes : UInt32)
  /-- `fs_apply_emptyreserved_deprecated(ts, freeinodes)` -/
  | emptyreservedDeprecated (freeinodes : UInt32)
  /-- `fs_apply_freeinodes(ts, freeinodes)` -/
  | freeinodes (freeinodes : UInt32)
  /-- `fs_apply_incversion(chunkid)` -/
  | incversion (chunkid : UInt64)
  /-- `fs_link(ctx, inode, parent, name)` -/
  | link (inode parent : UInt32) (name : Bytes)
  /-- `fs_apply_length(ts, inode, length)` -/
  | length (inode : UInt32) (length : UInt64)
  /-- `fs_rename(ctx, parent_src, name_src, parent_dst, name_dst, &inode)` -/
  | rename (parentSrc : UInt32) (nameSrc : Bytes) (parentDst : UInt32) (nameDst : Bytes) (inode : UInt32)
  /-- `fs_flock_op(ctx, inode, owner, sessionid, 0, 0, op, false)` -/
  | flockOp (inode : UInt32) (owner : UInt64) (sessionid op : UInt32)
  /-- `fs_posixlock_op(ctx, inode, start, end, owner, sessionid, 0, 0, op, false)` -/
  | posixlockOp (inode : UInt32) (start end_ owner : UInt64) (sessionid op : UInt32)
  /-- `fs_locks_remove_pending(ctx, lock_type, ownerid, sessionid, inode, reqid)` -/
  | locksRemovePending (lockType : UInt32) (ownerid : UInt64) (sessionid inode : UInt32) (reqid : UInt64)
  /-- `fs_locks_clear_session(ctx, lock_type, inode, sessionid)` -/
  | locksClearSession (lockType inode sessionid : UInt32)
  /-- `fs_locks_unlock_inode(ctx, lock_type, inode)` -/
  | locksUnlockInode (lockType inode : UInt32)
  /-- `fs_purge(ctx, inode)` -/
  | purge (inode : UInt32)
  /-- `fs_release(ctx, inode, cuid)` -/
  | release (inode cuid : UInt32)
  /-- `fs_apply_repair(ts, inode, indx, version)` -/
  | repair (inode indx version : UInt32)
  /-- `fs_seteattr(ctx(uid), inode, eattr, smode, &ci, &nci, &npi)` -/
  | seteattr (uid inode : UInt32) (eattr smode : UInt8) (ci nci npi : UInt32)
  /-- `fs_apply_setgoal(ctx(uid), inode, goal, smode, master_result)` -/
  | setgoal (uid inode : UInt32) (goal smode : UInt8) (masterResult : UInt32)
  /-- `fs_deprecated_setgoal(ctx(uid), inode, goal, smode, &ci, &nci, &npi)` -/
  | deprecatedSetgoal (uid inode : UInt32) (goal smode : UInt8) (ci nci npi : UInt32)
  /-- `fs_settrashpath(ctx, inode, path)` -/
  | settrashpath (inode : UInt32) (path : Bytes)
  /-- `fs_apply_settrashtime(ctx(uid), inode, trashtime, smode, master_result)` -/
  | settrashtime (uid inode trashtime : UInt32) (smode : UInt8) (masterResult : UInt32)
  /-- `fs_deprecated_settrashtime(ctx(uid), inode, trashtime, smode, &ci, &nci, &npi)` -/
  | deprecatedSettrashtime (uid inode trashtime : UInt32) (smode : UInt8) (ci nci npi : UInt32)
  /-- `fs_apply_setxattr(ts, inode, strlen(name), name, valueleng, value, mode)` -/
  | setxattr (inode : UInt32) (name value : Bytes) (mode : UInt32)
  /-- `fs_deleteacl(ctx, inode, aclType)` -/
  | deleteacl (inode : UInt32) (type : AclType)
  /-- `fs_apply_setacl(ts, inode, aclType, aclString)` -/
  | setacl (inode : UInt32) (type : UInt8) (acl : Bytes)
  /-- `fs_apply_setrichacl(ts, inode, acl_string)` -/
  | setrichacl (inode : UInt32) (acl : Bytes)
  /-- `fs_apply_setquota(rigor, resource, ownerType, ownerId, limit)` -/
  | setquota (rigor resource ownerType : UInt8) (ownerId : UInt32) (limit : UInt64)
  /-- `fs_clone_node(ctx, src_inode, dst_parent, dst_inode, name, can_overwrite)` -/
  | cloneNode (srcInode dstParent dstInode : UInt32) (name : Bytes) (canOverwrite : UInt32)
  /-- `fs_symlink(ctx(uid, gid), parent, name, path, &inode)` -/
  | symlink (uid gid parent : UInt32) (name path : Bytes) (inode : UInt32)
  /-- `fs_undel(ctx, inode)` -/
  | undel (inode : UInt32)
  /-- `fs_apply_unlink(ts, parent, name, inode)` -/
  | unlink (parent : UInt32) (name : Bytes) (inode : UInt32)
  /-- `fs_apply_unlock(chunkid)` -/
  | unlock (chunkid : UInt64)
  /-- `fs_set_nextchunkid(ctx, nextChunkId)` -/
  | setNextchunkid (nextChunkId : UInt64)
  /-- `fs_apply_trunc(ts, inode, indx, chunkid, lockid)` -/
  | trunc (inode indx : UInt32) (chunkid : UInt64) (lockid : UInt32)
  /-- `fs_writechunk(ctx, inode, indx, false, &lockid, &chunkid, &opflag)` -/
  | writechunk (inode indx lockid : UInt32) (chunkid : UInt64) (opflag : UInt8)
  deriving DecidableEq, Repr

/-- What `restore_line` does with a line. -/
inductive Restored where
  /-- no entry of that name: the status stays `LIZARDFS_ERROR_MAX` -/
  | unknownEntry
  /-- the `do_*` function returned `-1` -/
  | parseError
  /-- `do_lock_op` on a lock type that is neither `kFlock` nor `kPosix`:
  `LIZARDFS_ERROR_EINVAL`, and no call -/
  | invalidLockType (lockType : UInt32)
  /-- the `do_*` function made the call, for the entry's time stamp -/
  | call (ts : UInt32) (c : FsCall)
  deriving DecidableEq, Repr

/-- `SetGoalTask::kChanged` and `SetTrashtimeTask::kChanged`, the result a `SETGOAL` or
`SETTRASHTIME` entry without one stands for. -/
def taskChanged : UInt32 := 0

namespace Restore

/-- A reader of a prefix of a line: the value read and the line after it, or failure,
the `return -1` of a `do_*` function. -/
abbrev Parser (α : Type) := StateT Bytes Option α

/-! ## The macros of `restore.cc` -/

/-- `EAT(ptr, ..., c)`: the byte at the cursor must be `c`. -/
def eat (c : Char) : Parser Unit := fun s =>
  match s with
  | b :: s => if b = ofChar c then some ((), s) else none
  | [] => none

/-- `GETU64(data, ptr)`: `strtoull` from the cursor. -/
def getU64 : Parser UInt64 := fun s => some (strtoul s)

/-- `GETU32(data, ptr)` into a `uint32_t`: `strtoul`, cut to 32 bits. -/
def getU32 : Parser UInt32 := UInt64.toUInt32 <$> getU64

/-- `GETU32(data, ptr)` into a `uint8_t` (`goal`, `smode`, `eattr`, `opflag`): cut to
8 bits. -/
def getU8 : Parser UInt8 := UInt64.toUInt8 <$> getU64

/-- `GETNAME(name, ptr, ..., c)`: an escaped name up to `c`, at most 255 bytes into
`uint8_t name[256]`. -/
def getName (c : Char) : Parser Bytes := fun s => percentDecode (ofChar c) (some 255) s

/-- `GETPATH(path, size, ptr, ..., c)`: an escaped field up to `c`, in a buffer that
grows. -/
def getPath (c : Char) : Parser Bytes := fun s => percentDecode (ofChar c) none s

/-- `GETDATA(buff, leng, size, ptr, ..., c)`: as `GETPATH`, with the length kept. -/
def getData (c : Char) : Parser Bytes := fun s => percentDecode (ofChar c) none s

/-- `GETCHAR(data, ptr)`: the byte at the cursor unless it is the terminating NUL;
otherwise `data` keeps the `'\0'` it starts with and the cursor stays. -/
def getChar : Parser UInt8 := fun s =>
  match s with
  | b :: s => if b ≠ 0 then some (b, s) else some (0, b :: s)
  | [] => some (0, [])

/-- `type = *ptr; ptr++;` of `do_create`. Past the end the source reads behind the
line; the model fails. -/
def getByte : Parser UInt8 := fun s =>
  match s with
  | b :: s => some (b, s)
  | [] => none

/-- `*ptr == c`, without moving the cursor. -/
def peekIs (c : Char) : Parser Bool := fun s => some (peek s == ofChar c, s)

/-! ### What the macros read

Each macro reads back what the master's `printf` wrote, before the rest of the line;
a number needs a rest that does not go on with a digit, an escaped field its
terminator. -/

@[simp] theorem eat_run (c : Char) (b : UInt8) (s : Bytes) :
    (eat c).run (b :: s) = if b = ofChar c then some ((), s) else none := rfl

@[simp] theorem getChar_run (b : UInt8) (s : Bytes) :
    getChar.run (b :: s) = if b ≠ 0 then some (b, s) else some (0, b :: s) := rfl

@[simp] theorem getByte_run (b : UInt8) (s : Bytes) : getByte.run (b :: s) = some (b, s) := rfl

@[simp] theorem peekIs_run (c : Char) (s : Bytes) : (peekIs c).run s = some (peek s == ofChar c, s) := rfl

theorem getU64_fmtU {n : Nat} (hn : n < 2 ^ 64) {s : Bytes} (hs : isDigit (peek s) = false) :
    getU64.run (fmtU n ++ s) = some (UInt64.ofNat n, s) := by
  show some (strtoul (decimal n ++ s)) = _
  rw [strtoul_decimal hn hs]

@[simp] theorem getU64_fmtU64 (n : UInt64) {s : Bytes} (hs : isDigit (peek s) = false) :
    getU64.run (fmtU n.toNat ++ s) = some (n, s) := by
  rw [getU64_fmtU n.toNat_lt hs, UInt64.ofNat_toNat]

@[simp] theorem getU32_fmtU32 (n : UInt32) {s : Bytes} (hs : isDigit (peek s) = false) :
    getU32.run (fmtU n.toNat ++ s) = some (n, s) := by
  have hn : n.toNat < 2 ^ 64 := by have := n.toNat_lt; omega
  simp only [getU32, StateT.run_map, getU64_fmtU hn hs]
  simp

@[simp] theorem getU32_fmtU16 (n : UInt16) {s : Bytes} (hs : isDigit (peek s) = false) :
    getU32.run (fmtU n.toNat ++ s) = some (n.toUInt32, s) := by
  have hn : n.toNat < 2 ^ 64 := by have := n.toNat_lt; omega
  simp only [getU32, StateT.run_map, getU64_fmtU hn hs]
  simp

@[simp] theorem getU32_fmtU8 (n : UInt8) {s : Bytes} (hs : isDigit (peek s) = false) :
    getU32.run (fmtU n.toNat ++ s) = some (n.toUInt32, s) := by
  have hn : n.toNat < 2 ^ 64 := by have := n.toNat_lt; omega
  simp only [getU32, StateT.run_map, getU64_fmtU hn hs]
  simp

@[simp] theorem getU8_fmtU8 (n : UInt8) {s : Bytes} (hs : isDigit (peek s) = false) :
    getU8.run (fmtU n.toNat ++ s) = some (n, s) := by
  have hn : n.toNat < 2 ^ 64 := by have := n.toNat_lt; omega
  simp only [getU8, StateT.run_map, getU64_fmtU hn hs]
  simp

/-- The terminators of names in entries, `,` and `)`, are escaped and are not `%`. -/
theorem nameEscaped_of_term {c : Char} (hc : c = ',' ∨ c = ')') :
    nameEscaped (ofChar c) = true ∧ ofChar c ≠ ofChar '%' := by
  rcases hc with rfl | rfl <;> decide

@[simp] theorem getName_fmtName {c : Char} (hc : c = ',' ∨ c = ')') {t : UInt8} (ht : t = ofChar c)
    {name : Bytes} (hname : name.length ≤ 255) (s : Bytes) :
    (getName c).run (fmtName name ++ t :: s) = some (name, t :: s) := by
  subst ht
  obtain ⟨hesc, hne⟩ := nameEscaped_of_term hc
  show percentDecode _ _ _ = _
  rw [fmtName, fsnodesEscapeName_eq]
  exact percentDecode_percentEscape hesc (by decide) hne name (some 255)
    (fun k hk => by cases hk; exact hname) s

@[simp] theorem getPath_fmtName {c : Char} (hc : c = ',' ∨ c = ')') {t : UInt8} (ht : t = ofChar c)
    (path s : Bytes) : (getPath c).run (fmtName path ++ t :: s) = some (path, t :: s) := by
  subst ht
  obtain ⟨hesc, hne⟩ := nameEscaped_of_term hc
  show percentDecode _ _ _ = _
  rw [fmtName, fsnodesEscapeName_eq]
  exact percentDecode_percentEscape hesc (by decide) hne path none (fun k hk => by cases hk) s

@[simp] theorem getData_fmtName {c : Char} (hc : c = ',' ∨ c = ')') {t : UInt8} (ht : t = ofChar c)
    (value s : Bytes) : (getData c).run (fmtName value ++ t :: s) = some (value, t :: s) :=
  getPath_fmtName hc ht value s

/-- A text written without escapes is read back by `GETPATH` when it holds neither the
terminator nor `%`. -/
theorem getPath_plain {c : Char} {t : UInt8} (ht : t = ofChar c) (hc : ofChar c ≠ ofChar '%') {text : Bytes}
    (htext : t ∉ text ∧ ofChar '%' ∉ text) (s : Bytes) :
    (getPath c).run (text ++ t :: s) = some (text, t :: s) := by
  subst ht
  have hplain : percentEscape (fun b => b == ofChar c || b == ofChar '%') text = text :=
    percentEscape_of_forall fun b hb => by
      have h1 : b ≠ ofChar c := fun h => htext.1 (h ▸ hb)
      have h2 : b ≠ ofChar '%' := fun h => htext.2 (h ▸ hb)
      simp only [Bool.or_eq_false_iff, beq_eq_false_iff_ne]
      exact ⟨h1, h2⟩
  have h := percentDecode_percentEscape (p := fun b => b == ofChar c || b == ofChar '%') (by simp) (by simp) hc
    text none (fun k hk => by cases hk) s
  rw [hplain] at h
  exact h

/-! ## The `do_*` functions

Each `do_*` function has a lemma `do*_run`: on the text the master writes for the
entry after its name, it makes the call of the entry and stops at what follows. The
text is written as `simp` normalises `Change.format`: a `,` of the format is
`ofChar ',' :: ...`. The proofs run the `do` block with the reader lemmas; they keep
Mathlib's congruence rule for `Option.bind` out (`-Option.bind_eq_bind`, with
`some_bind_eq` in its place), which would make `simp` revisit every later field
under a hypothesis, once per field before it. -/

@[simp] theorem some_bind_eq {α β : Type} (a : α) (f : α → Option β) : (some a >>= f) = f a := rfl

/-- `do_access`. -/
def doAccess (ts : UInt32) : Parser Restored := do
  eat '('
  let inode ← getU32
  eat ')'
  return .call ts (.access inode)

theorem doAccess_run (ts inode : UInt32) (rest : Bytes) :
    (doAccess ts).run (ofChar '(' :: (fmtU inode.toNat ++ ofChar ')' :: rest)) =
      some (.call ts (.access inode), rest) := by
  simp [doAccess, -Option.bind_eq_bind]

/-- `do_append`. -/
def doAppend (ts : UInt32) : Parser Restored := do
  eat '('
  let inode ← getU32
  eat ','
  let inodeSrc ← getU32
  eat ')'
  return .call ts (.append inode inodeSrc)

theorem doAppend_run (ts inode inodeSrc : UInt32) (rest : Bytes) :
    (doAppend ts).run (ofChar '(' :: (fmtU inode.toNat ++ ofChar ',' :: (fmtU inodeSrc.toNat ++ ofChar ')' :: rest))) =
      some (.call ts (.append inode inodeSrc), rest) := by
  simp [doAppend, -Option.bind_eq_bind]

/-- `do_acquire`. -/
def doAcquire (ts : UInt32) : Parser Restored := do
  eat '('
  let inode ← getU32
  eat ','
  let cuid ← getU32
  eat ')'
  return .call ts (.acquire inode cuid)

theorem doAcquire_run (ts inode cuid : UInt32) (rest : Bytes) :
    (doAcquire ts).run (ofChar '(' :: (fmtU inode.toNat ++ ofChar ',' :: (fmtU cuid.toNat ++ ofChar ')' :: rest))) =
      some (.call ts (.acquire inode cuid), rest) := by
  simp [doAcquire, -Option.bind_eq_bind]

/-- `do_attr`. -/
def doAttr (ts : UInt32) : Parser Restored := do
  eat '('
  let inode ← getU32
  eat ','
  let mode ← getU32
  eat ','
  let uid ← getU32
  eat ','
  let gid ← getU32
  eat ','
  let atime ← getU32
  eat ','
  let mtime ← getU32
  eat ')'
  return .call ts (.attr inode mode uid gid atime mtime)

theorem doAttr_run (ts inode : UInt32) (mode : UInt16) (uid gid atime mtime : UInt32) (rest : Bytes) :
    (doAttr ts).run (ofChar '(' :: (fmtU inode.toNat ++ ofChar ',' :: (fmtU mode.toNat ++ ofChar ',' ::
      (fmtU uid.toNat ++ ofChar ',' :: (fmtU gid.toNat ++ ofChar ',' :: (fmtU atime.toNat ++ ofChar ',' ::
      (fmtU mtime.toNat ++ ofChar ')' :: rest))))))) =
      some (.call ts (.attr inode mode.toUInt32 uid gid atime mtime), rest) := by
  simp [doAttr, -Option.bind_eq_bind]

/-- `do_checksum`: the version is read with `GETNAME` and passed as a C string. -/
def doChecksum (ts : UInt32) : Parser Restored := do
  eat '('
  let version ← getName ')'
  eat ')'
  eat ':'
  let checksum ← getU64
  return .call ts (.checksum (cStr version) checksum)

/-- `do_create`: the name is passed on as `HString((const char*)name)`. -/
def doCreate (ts : UInt32) : Parser Restored := do
  eat '('
  let parent ← getU32
  eat ','
  let name ← getName ','
  eat ','
  let type ← getByte
  eat ','
  let mode ← getU32
  eat ','
  let uid ← getU32
  eat ','
  let gid ← getU32
  eat ','
  let rdev ← getU32
  eat ')'
  eat ':'
  let inode ← getU32
  return .call ts (.create parent (cStr name) type mode uid gid rdev inode)

theorem doCreate_run (ts parent : UInt32) {name : Bytes} (hname : NameOk name) (type : UInt8) (mode : UInt16)
    (uid gid rdev inode : UInt32) {rest : Bytes} (hrest : isDigit (peek rest) = false) :
    (doCreate ts).run (ofChar '(' :: (fmtU parent.toNat ++ ofChar ',' :: (fmtName name ++ ofChar ',' :: type ::
      ofChar ',' :: (fmtU mode.toNat ++ ofChar ',' :: (fmtU uid.toNat ++ ofChar ',' :: (fmtU gid.toNat ++
      ofChar ',' :: (fmtU rdev.toNat ++ ofChar ')' :: ofChar ':' :: (fmtU inode.toNat ++ rest)))))))) =
      some (.call ts (.create parent name type mode.toUInt32 uid gid rdev inode), rest) := by
  simp [doCreate, hrest, hname.1, cStr_of_not_mem hname.2, -Option.bind_eq_bind]

/-- `do_session`, also for the old name `CUSTOMER`. -/
def doSession (ts : UInt32) : Parser Restored := do
  eat '('
  eat ')'
  eat ':'
  let cuid ← getU32
  return .call ts (.session cuid)

theorem doSession_run (ts cuid : UInt32) {rest : Bytes} (hrest : isDigit (peek rest) = false) :
    (doSession ts).run (ofChar '(' :: ofChar ')' :: ofChar ':' :: (fmtU cuid.toNat ++ rest)) =
      some (.call ts (.session cuid), rest) := by
  simp [doSession, hrest, -Option.bind_eq_bind]

/-- `do_emptytrash_deprecated`. -/
def doEmptytrashDeprecated (ts : UInt32) : Parser Restored := do
  eat '('
  eat ')'
  eat ':'
  let freeinodes ← getU32
  eat ','
  let reservedinodes ← getU32
  return .call ts (.emptytrashDeprecated freeinodes reservedinodes)

/-- `do_emptyreserved_deprecated`. -/
def doEmptyreservedDeprecated (ts : UInt32) : Parser Restored := do
  eat '('
  eat ')'
  eat ':'
  let freeinodes ← getU32
  return .call ts (.emptyreservedDeprecated freeinodes)

/-- `do_freeinodes`. -/
def doFreeinodes (ts : UInt32) : Parser Restored := do
  eat '('
  eat ')'
  eat ':'
  let freeinodes ← getU32
  return .call ts (.freeinodes freeinodes)

/-- `do_incversion`. -/
def doIncversion (ts : UInt32) : Parser Restored := do
  eat '('
  let chunkid ← getU64
  eat ')'
  return .call ts (.incversion chunkid)

theorem doIncversion_run (ts : UInt32) (chunkid : UInt64) (rest : Bytes) :
    (doIncversion ts).run (ofChar '(' :: (fmtU chunkid.toNat ++ ofChar ')' :: rest)) =
      some (.call ts (.incversion chunkid), rest) := by
  simp [doIncversion, -Option.bind_eq_bind]

/-- `do_link`. -/
def doLink (ts : UInt32) : Parser Restored := do
  eat '('
  let inode ← getU32
  eat ','
  let parent ← getU32
  eat ','
  let name ← getName ')'
  eat ')'
  return .call ts (.link inode parent (cStr name))

theorem doLink_run (ts inode parent : UInt32) {name : Bytes} (hname : NameOk name) (rest : Bytes) :
    (doLink ts).run (ofChar '(' :: (fmtU inode.toNat ++ ofChar ',' :: (fmtU parent.toNat ++ ofChar ',' ::
      (fmtName name ++ ofChar ')' :: rest)))) =
      some (.call ts (.link inode parent name), rest) := by
  simp [doLink, hname.1, cStr_of_not_mem hname.2, -Option.bind_eq_bind]

/-- `do_length`. -/
def doLength (ts : UInt32) : Parser Restored := do
  eat '('
  let inode ← getU32
  eat ','
  let length ← getU64
  eat ')'
  return .call ts (.length inode length)

theorem doLength_run (ts inode : UInt32) (length : UInt64) (rest : Bytes) :
    (doLength ts).run (ofChar '(' :: (fmtU inode.toNat ++ ofChar ',' :: (fmtU length.toNat ++ ofChar ')' :: rest))) =
      some (.call ts (.length inode length), rest) := by
  simp [doLength, -Option.bind_eq_bind]

/-- `do_move`. -/
def doMove (ts : UInt32) : Parser Restored := do
  eat '('
  let parentSrc ← getU32
  eat ','
  let nameSrc ← getName ','
  eat ','
  let parentDst ← getU32
  eat ','
  let nameDst ← getName ')'
  eat ')'
  eat ':'
  let inode ← getU32
  return .call ts (.rename parentSrc (cStr nameSrc) parentDst (cStr nameDst) inode)

theorem doMove_run (ts parentSrc : UInt32) {nameSrc : Bytes} (hsrc : NameOk nameSrc) (parentDst : UInt32)
    {nameDst : Bytes} (hdst : NameOk nameDst) (inode : UInt32) {rest : Bytes} (hrest : isDigit (peek rest) = false) :
    (doMove ts).run (ofChar '(' :: (fmtU parentSrc.toNat ++ ofChar ',' :: (fmtName nameSrc ++ ofChar ',' ::
      (fmtU parentDst.toNat ++ ofChar ',' :: (fmtName nameDst ++ ofChar ')' :: ofChar ':' ::
      (fmtU inode.toNat ++ rest)))))) =
      some (.call ts (.rename parentSrc nameSrc parentDst nameDst inode), rest) := by
  simp [doMove, hrest, hsrc.1, hdst.1, cStr_of_not_mem hsrc.2, cStr_of_not_mem hdst.2, -Option.bind_eq_bind]

/-- `do_lock_op`: all fields are read, then the lock type picks the call; `start` and
`end` are not passed to `fs_flock_op`. -/
def doLockOp (ts : UInt32) : Parser Restored := do
  eat '('
  let lockType ← getU32
  eat ','
  let inode ← getU32
  eat ','
  let start ← getU64
  eat ','
  let end_ ← getU64
  eat ','
  let owner ← getU64
  eat ','
  let sessionid ← getU32
  eat ','
  let op ← getU32
  eat ')'
  return (if lockType = 0 then .call ts (.flockOp inode owner sessionid op)
    else if lockType = 1 then .call ts (.posixlockOp inode start end_ owner sessionid op)
    else .invalidLockType lockType)

/-- `fs_flock_op` writes the range `0,1` as text, which `GETU64` reads as numbers. -/
theorem doLockOp_run_flock (ts inode : UInt32) (owner : UInt64) (sessionid : UInt32) (op : UInt16)
    (rest : Bytes) :
    (doLockOp ts).run (ofChar '(' :: (fmtU lockTypeFlock.toNat ++ ofChar ',' :: (fmtU inode.toNat ++
      ofChar ',' :: ofChar '0' :: ofChar ',' :: ofChar '1' :: ofChar ',' :: (fmtU owner.toNat ++ ofChar ',' ::
      (fmtU sessionid.toNat ++ ofChar ',' :: (fmtU op.toNat ++ ofChar ')' :: rest)))))) =
      some (.call ts (.flockOp inode owner sessionid op.toUInt32), rest) := by
  have hrange : ∀ s, ofChar '0' :: ofChar ',' :: ofChar '1' :: s = fmtU 0 ++ ofChar ',' :: (fmtU 1 ++ s) :=
    fun _ => rfl
  have hflock : lockTypeFlock.toUInt32 = 0 := rfl
  rw [hrange]
  simp [doLockOp, hflock, getU64_fmtU, -Option.bind_eq_bind]

theorem doLockOp_run_posix (ts inode : UInt32) (start end_ owner : UInt64) (sessionid : UInt32) (op : UInt16)
    (rest : Bytes) :
    (doLockOp ts).run (ofChar '(' :: (fmtU lockTypePosix.toNat ++ ofChar ',' :: (fmtU inode.toNat ++
      ofChar ',' :: (fmtU start.toNat ++ ofChar ',' :: (fmtU end_.toNat ++ ofChar ',' :: (fmtU owner.toNat ++
      ofChar ',' :: (fmtU sessionid.toNat ++ ofChar ',' :: (fmtU op.toNat ++ ofChar ')' :: rest)))))))) =
      some (.call ts (.posixlockOp inode start end_ owner sessionid op.toUInt32), rest) := by
  have hposix : lockTypePosix.toUInt32 = 1 := rfl
  simp [doLockOp, hposix, -Option.bind_eq_bind]

/-- `do_remove_pending_op`. -/
def doRemovePendingOp (ts : UInt32) : Parser Restored := do
  eat '('
  let lockType ← getU32
  eat ','
  let ownerid ← getU64
  eat ','
  let sessionid ← getU32
  eat ','
  let inode ← getU32
  eat ','
  let reqid ← getU64
  eat ')'
  return .call ts (.locksRemovePending lockType ownerid sessionid inode reqid)

theorem doRemovePendingOp_run (ts : UInt32) (type : UInt8) (ownerid : UInt64) (sessionid inode : UInt32)
    (reqid : UInt64) (rest : Bytes) :
    (doRemovePendingOp ts).run (ofChar '(' :: (fmtU type.toNat ++ ofChar ',' :: (fmtU ownerid.toNat ++
      ofChar ',' :: (fmtU sessionid.toNat ++ ofChar ',' :: (fmtU inode.toNat ++ ofChar ',' ::
      (fmtU reqid.toNat ++ ofChar ')' :: rest)))))) =
      some (.call ts (.locksRemovePending type.toUInt32 ownerid sessionid inode reqid), rest) := by
  simp [doRemovePendingOp, -Option.bind_eq_bind]

/-- `do_lock_clear_session`. -/
def doLockClearSession (ts : UInt32) : Parser Restored := do
  eat '('
  let lockType ← getU32
  eat ','
  let inode ← getU32
  eat ','
  let sessionid ← getU32
  eat ')'
  return .call ts (.locksClearSession lockType inode sessionid)

theorem doLockClearSession_run (ts : UInt32) (type : UInt8) (inode sessionid : UInt32) (rest : Bytes) :
    (doLockClearSession ts).run (ofChar '(' :: (fmtU type.toNat ++ ofChar ',' :: (fmtU inode.toNat ++
      ofChar ',' :: (fmtU sessionid.toNat ++ ofChar ')' :: rest)))) =
      some (.call ts (.locksClearSession type.toUInt32 inode sessionid), rest) := by
  simp [doLockClearSession, -Option.bind_eq_bind]

/-- `do_lock_unlock_inode`. -/
def doLockUnlockInode (ts : UInt32) : Parser Restored := do
  eat '('
  let lockType ← getU32
  eat ','
  let inode ← getU32
  eat ')'
  return .call ts (.locksUnlockInode lockType inode)

theorem doLockUnlockInode_run (ts : UInt32) (type : UInt8) (inode : UInt32) (rest : Bytes) :
    (doLockUnlockInode ts).run (ofChar '(' :: (fmtU type.toNat ++ ofChar ',' :: (fmtU inode.toNat ++
      ofChar ')' :: rest))) =
      some (.call ts (.locksUnlockInode type.toUInt32 inode), rest) := by
  simp [doLockUnlockInode, -Option.bind_eq_bind]

/-- `do_purge`. -/
def doPurge (ts : UInt32) : Parser Restored := do
  eat '('
  let inode ← getU32
  eat ')'
  return .call ts (.purge inode)

theorem doPurge_run (ts inode : UInt32) (rest : Bytes) :
    (doPurge ts).run (ofChar '(' :: (fmtU inode.toNat ++ ofChar ')' :: rest)) =
      some (.call ts (.purge inode), rest) := by
  simp [doPurge, -Option.bind_eq_bind]

/-- `do_release`. -/
def doRelease (ts : UInt32) : Parser Restored := do
  eat '('
  let inode ← getU32
  eat ','
  let cuid ← getU32
  eat ')'
  return .call ts (.release inode cuid)

theorem doRelease_run (ts inode cuid : UInt32) (rest : Bytes) :
    (doRelease ts).run (ofChar '(' :: (fmtU inode.toNat ++ ofChar ',' :: (fmtU cuid.toNat ++ ofChar ')' :: rest))) =
      some (.call ts (.release inode cuid), rest) := by
  simp [doRelease, -Option.bind_eq_bind]

/-- `do_repair`. -/
def doRepair (ts : UInt32) : Parser Restored := do
  eat '('
  let inode ← getU32
  eat ','
  let indx ← getU32
  eat ')'
  eat ':'
  let version ← getU32
  return .call ts (.repair inode indx version)

theorem doRepair_run (ts inode indx version : UInt32) {rest : Bytes} (hrest : isDigit (peek rest) = false) :
    (doRepair ts).run (ofChar '(' :: (fmtU inode.toNat ++ ofChar ',' :: (fmtU indx.toNat ++ ofChar ')' ::
      ofChar ':' :: (fmtU version.toNat ++ rest)))) =
      some (.call ts (.repair inode indx version), rest) := by
  simp [doRepair, hrest, -Option.bind_eq_bind]

/-- `do_seteattr`. -/
def doSeteattr (ts : UInt32) : Parser Restored := do
  eat '('
  let inode ← getU32
  eat ','
  let uid ← getU32
  eat ','
  let eattr ← getU8
  eat ','
  let smode ← getU8
  eat ')'
  eat ':'
  let ci ← getU32
  eat ','
  let nci ← getU32
  eat ','
  let npi ← getU32
  return .call ts (.seteattr uid inode eattr smode ci nci npi)

theorem doSeteattr_run (ts inode uid : UInt32) (eattr smode : UInt8) (ci nci npi : UInt32) {rest : Bytes}
    (hrest : isDigit (peek rest) = false) :
    (doSeteattr ts).run (ofChar '(' :: (fmtU inode.toNat ++ ofChar ',' :: (fmtU uid.toNat ++ ofChar ',' ::
      (fmtU eattr.toNat ++ ofChar ',' :: (fmtU smode.toNat ++ ofChar ')' :: ofChar ':' :: (fmtU ci.toNat ++
      ofChar ',' :: (fmtU nci.toNat ++ ofChar ',' :: (fmtU npi.toNat ++ rest)))))))) =
      some (.call ts (.seteattr uid inode eattr smode ci nci npi), rest) := by
  simp [doSeteattr, hrest, -Option.bind_eq_bind]

/-- `do_setgoal`: without `:` the entry of a `SetGoalTask`, with `:ci` the applied
result, with `:ci,nci,npi` the entry of `fs_deprecated_setgoal`. -/
def doSetgoal (ts : UInt32) : Parser Restored := do
  eat '('
  let inode ← getU32
  eat ','
  let uid ← getU32
  eat ','
  let goal ← getU8
  eat ','
  let smode ← getU8
  eat ')'
  if (← peekIs ':') then
    eat ':'
    let ci ← getU32
    if (← peekIs ',') then
      eat ','
      let nci ← getU32
      eat ','
      let npi ← getU32
      return .call ts (.deprecatedSetgoal uid inode goal smode ci nci npi)
    else
      return .call ts (.setgoal uid inode goal smode ci)
  else
    return .call ts (.setgoal uid inode goal smode taskChanged)

/-- The entry of `fs_deprecated_setgoal`, with the three counters. -/
theorem doSetgoal_run (ts inode uid : UInt32) (goal smode : UInt8) (ci nci npi : UInt32) {rest : Bytes}
    (hrest : isDigit (peek rest) = false) :
    (doSetgoal ts).run (ofChar '(' :: (fmtU inode.toNat ++ ofChar ',' :: (fmtU uid.toNat ++ ofChar ',' ::
      (fmtU goal.toNat ++ ofChar ',' :: (fmtU smode.toNat ++ ofChar ')' :: ofChar ':' :: (fmtU ci.toNat ++
      ofChar ',' :: (fmtU nci.toNat ++ ofChar ',' :: (fmtU npi.toNat ++ rest)))))))) =
      some (.call ts (.deprecatedSetgoal uid inode goal smode ci nci npi), rest) := by
  simp [doSetgoal, hrest, -Option.bind_eq_bind]

/-- The entry of a `SetGoalTask`, which the line ends after `)`. -/
theorem doSetgoal_run_task (ts inode uid : UInt32) (goal smode : UInt8) {rest : Bytes}
    (hrest : peek rest ≠ ofChar ':') :
    (doSetgoal ts).run (ofChar '(' :: (fmtU inode.toNat ++ ofChar ',' :: (fmtU uid.toNat ++ ofChar ',' ::
      (fmtU goal.toNat ++ ofChar ',' :: (fmtU smode.toNat ++ ofChar ')' :: rest))))) =
      some (.call ts (.setgoal uid inode goal smode taskChanged), rest) := by
  simp [doSetgoal, hrest, -Option.bind_eq_bind]

/-- `do_setpath`: the path is passed on as `std::string((const char*)path)`. -/
def doSetpath (ts : UInt32) : Parser Restored := do
  eat '('
  let inode ← getU32
  eat ','
  let path ← getPath ')'
  eat ')'
  return .call ts (.settrashpath inode (cStr path))

theorem doSetpath_run (ts inode : UInt32) {path : Bytes} (hpath : (0 : UInt8) ∉ path) (rest : Bytes) :
    (doSetpath ts).run (ofChar '(' :: (fmtU inode.toNat ++ ofChar ',' :: (fmtName path ++ ofChar ')' :: rest))) =
      some (.call ts (.settrashpath inode path), rest) := by
  simp [doSetpath, cStr_of_not_mem hpath, -Option.bind_eq_bind]

/-- `do_settrashtime`, the three forms of `do_setgoal` with a 32-bit trash time. -/
def doSettrashtime (ts : UInt32) : Parser Restored := do
  eat '('
  let inode ← getU32
  eat ','
  let uid ← getU32
  eat ','
  let trashtime ← getU32
  eat ','
  let smode ← getU8
  eat ')'
  if (← peekIs ':') then
    eat ':'
    let ci ← getU32
    if (← peekIs ',') then
      eat ','
      let nci ← getU32
      eat ','
      let npi ← getU32
      return .call ts (.deprecatedSettrashtime uid inode trashtime smode ci nci npi)
    else
      return .call ts (.settrashtime uid inode trashtime smode ci)
  else
    return .call ts (.settrashtime uid inode trashtime smode taskChanged)

/-- The entry of `fs_deprecated_settrashtime`, with the three counters. -/
theorem doSettrashtime_run (ts inode uid trashtime : UInt32) (smode : UInt8) (ci nci npi : UInt32)
    {rest : Bytes} (hrest : isDigit (peek rest) = false) :
    (doSettrashtime ts).run (ofChar '(' :: (fmtU inode.toNat ++ ofChar ',' :: (fmtU uid.toNat ++ ofChar ',' ::
      (fmtU trashtime.toNat ++ ofChar ',' :: (fmtU smode.toNat ++ ofChar ')' :: ofChar ':' :: (fmtU ci.toNat ++
      ofChar ',' :: (fmtU nci.toNat ++ ofChar ',' :: (fmtU npi.toNat ++ rest)))))))) =
      some (.call ts (.deprecatedSettrashtime uid inode trashtime smode ci nci npi), rest) := by
  simp [doSettrashtime, hrest, -Option.bind_eq_bind]

/-- The entry of a `SetTrashtimeTask`, which the line ends after `)`. -/
theorem doSettrashtime_run_task (ts inode uid trashtime : UInt32) (smode : UInt8) {rest : Bytes}
    (hrest : peek rest ≠ ofChar ':') :
    (doSettrashtime ts).run (ofChar '(' :: (fmtU inode.toNat ++ ofChar ',' :: (fmtU uid.toNat ++ ofChar ',' ::
      (fmtU trashtime.toNat ++ ofChar ',' :: (fmtU smode.toNat ++ ofChar ')' :: rest))))) =
      some (.call ts (.settrashtime uid inode trashtime smode taskChanged), rest) := by
  simp [doSettrashtime, hrest, -Option.bind_eq_bind]

/-- `do_setxattr`: the name is passed with `strlen`, the value with its length. -/
def doSetxattr (ts : UInt32) : Parser Restored := do
  eat '('
  let inode ← getU32
  eat ','
  let name ← getName ','
  eat ','
  let value ← getData ','
  eat ','
  let mode ← getU32
  eat ')'
  return .call ts (.setxattr inode (cStr name) value mode)

theorem doSetxattr_run (ts inode : UInt32) {name : Bytes} (hname : NameOk name) (value : Bytes) (mode : UInt8)
    (rest : Bytes) :
    (doSetxattr ts).run (ofChar '(' :: (fmtU inode.toNat ++ ofChar ',' :: (fmtName name ++ ofChar ',' ::
      (fmtName value ++ ofChar ',' :: (fmtU mode.toNat ++ ofChar ')' :: rest))))) =
      some (.call ts (.setxattr inode name value mode.toUInt32), rest) := by
  simp [doSetxattr, hname.1, cStr_of_not_mem hname.2, -Option.bind_eq_bind]

/-- `do_deleteacl`: the type must be `d`, `a` or `r`. -/
def doDeleteacl (ts : UInt32) : Parser Restored := do
  eat '('
  let inode ← getU32
  eat ','
  let aclTypeRaw ← getChar
  eat ')'
  if aclTypeRaw = ofChar 'd' then return .call ts (.deleteacl inode .default)
  else if aclTypeRaw = ofChar 'a' then return .call ts (.deleteacl inode .access)
  else if aclTypeRaw = ofChar 'r' then return .call ts (.deleteacl inode .richACL)
  else failure

theorem doDeleteacl_run (ts inode : UInt32) (type : AclType) (rest : Bytes) :
    (doDeleteacl ts).run (ofChar '(' :: (fmtU inode.toNat ++ ofChar ',' :: ofChar type.name :: ofChar ')' :: rest)) =
      some (.call ts (.deleteacl inode type), rest) := by
  cases type <;> simp [doDeleteacl, AclType.name, -Option.bind_eq_bind]

/-- `do_setacl`. -/
def doSetacl (ts : UInt32) : Parser Restored := do
  eat '('
  let inode ← getU32
  eat ','
  let aclType ← getChar
  eat ','
  let aclString ← getPath ')'
  eat ')'
  return .call ts (.setacl inode aclType (cStr aclString))

theorem doSetacl_run (ts inode : UInt32) (type : AclType) {acl : Bytes} (hacl : AclTextOk acl) (rest : Bytes) :
    (doSetacl ts).run (ofChar '(' :: (fmtU inode.toNat ++ ofChar ',' ::
      ofChar (if type = .access then 'a' else 'd') :: ofChar ',' :: (cStr acl ++ ofChar ')' :: rest))) =
      some (.call ts (.setacl inode (ofChar (if type = .access then 'a' else 'd')) acl), rest) := by
  obtain ⟨h0, hparen, hpct⟩ := hacl
  have htype : ofChar (if type = .access then 'a' else 'd') ≠ 0 := by split <;> decide
  simp [doSetacl, htype, cStr_of_not_mem h0, getPath_plain rfl (by decide) ⟨hparen, hpct⟩, -Option.bind_eq_bind]

/-- `do_setrichacl`. -/
def doSetrichacl (ts : UInt32) : Parser Restored := do
  eat '('
  let inode ← getU32
  eat ','
  let aclString ← getPath ')'
  eat ')'
  return .call ts (.setrichacl inode (cStr aclString))

theorem doSetrichacl_run (ts inode : UInt32) {acl : Bytes} (hacl : AclTextOk acl) (rest : Bytes) :
    (doSetrichacl ts).run (ofChar '(' :: (fmtU inode.toNat ++ ofChar ',' :: (cStr acl ++ ofChar ')' :: rest))) =
      some (.call ts (.setrichacl inode acl), rest) := by
  obtain ⟨h0, hparen, hpct⟩ := hacl
  simp [doSetrichacl, cStr_of_not_mem h0, getPath_plain rfl (by decide) ⟨hparen, hpct⟩, -Option.bind_eq_bind]

/-- `do_setquota`. -/
def doSetquota (ts : UInt32) : Parser Restored := do
  eat '('
  let rigor ← getChar
  eat ','
  let resource ← getChar
  eat ','
  let ownerType ← getChar
  eat ','
  let ownerId ← getU32
  eat ','
  let limit ← getU64
  eat ')'
  return .call ts (.setquota rigor resource ownerType ownerId limit)

theorem doSetquota_run (ts : UInt32) (rigor : QuotaRigor) (resource : QuotaResource) (ownerType : QuotaOwnerType)
    (ownerId : UInt32) (limit : UInt64) (rest : Bytes) :
    (doSetquota ts).run (ofChar '(' :: ofChar rigor.name :: ofChar ',' :: ofChar resource.name :: ofChar ',' ::
      ofChar ownerType.name :: ofChar ',' :: (fmtU ownerId.toNat ++ ofChar ',' :: (fmtU limit.toNat ++
      ofChar ')' :: rest))) =
      some (.call ts (.setquota (ofChar rigor.name) (ofChar resource.name) (ofChar ownerType.name) ownerId limit),
        rest) := by
  simp [doSetquota, rigor.ofChar_name_ne_zero, resource.ofChar_name_ne_zero, ownerType.ofChar_name_ne_zero,
    -Option.bind_eq_bind]

/-- `do_snapshot`: deprecated, always `-1`. -/
def doSnapshot (_ts : UInt32) : Parser Restored := failure

/-- `do_clone_node`. -/
def doCloneNode (ts : UInt32) : Parser Restored := do
  eat '('
  let srcInode ← getU32
  eat ','
  let dstParent ← getU32
  eat ','
  let dstInode ← getU32
  eat ','
  let name ← getName ','
  eat ','
  let canOverwrite ← getU32
  eat ')'
  return .call ts (.cloneNode srcInode dstParent dstInode (cStr name) canOverwrite)

theorem doCloneNode_run (ts srcInode dstParent dstInode : UInt32) {name : Bytes} (hname : NameOk name)
    (canOverwrite : UInt8) (rest : Bytes) :
    (doCloneNode ts).run (ofChar '(' :: (fmtU srcInode.toNat ++ ofChar ',' :: (fmtU dstParent.toNat ++
      ofChar ',' :: (fmtU dstInode.toNat ++ ofChar ',' :: (fmtName name ++ ofChar ',' ::
      (fmtU canOverwrite.toNat ++ ofChar ')' :: rest)))))) =
      some (.call ts (.cloneNode srcInode dstParent dstInode name canOverwrite.toUInt32), rest) := by
  simp [doCloneNode, hname.1, cStr_of_not_mem hname.2, -Option.bind_eq_bind]

/-- `do_symlink`. -/
def doSymlink (ts : UInt32) : Parser Restored := do
  eat '('
  let parent ← getU32
  eat ','
  let name ← getName ','
  eat ','
  let path ← getPath ','
  eat ','
  let uid ← getU32
  eat ','
  let gid ← getU32
  eat ')'
  eat ':'
  let inode ← getU32
  return .call ts (.symlink uid gid parent (cStr name) (cStr path) inode)

theorem doSymlink_run (ts parent : UInt32) {name : Bytes} (hname : NameOk name) {path : Bytes}
    (hpath : (0 : UInt8) ∉ path) (uid gid inode : UInt32) {rest : Bytes} (hrest : isDigit (peek rest) = false) :
    (doSymlink ts).run (ofChar '(' :: (fmtU parent.toNat ++ ofChar ',' :: (fmtName name ++ ofChar ',' ::
      (fmtName path ++ ofChar ',' :: (fmtU uid.toNat ++ ofChar ',' :: (fmtU gid.toNat ++ ofChar ')' ::
      ofChar ':' :: (fmtU inode.toNat ++ rest))))))) =
      some (.call ts (.symlink uid gid parent name path inode), rest) := by
  simp [doSymlink, hrest, hname.1, cStr_of_not_mem hname.2, cStr_of_not_mem hpath, -Option.bind_eq_bind]

/-- `do_undel`. -/
def doUndel (ts : UInt32) : Parser Restored := do
  eat '('
  let inode ← getU32
  eat ')'
  return .call ts (.undel inode)

theorem doUndel_run (ts inode : UInt32) (rest : Bytes) :
    (doUndel ts).run (ofChar '(' :: (fmtU inode.toNat ++ ofChar ')' :: rest)) =
      some (.call ts (.undel inode), rest) := by
  simp [doUndel, -Option.bind_eq_bind]

/-- `do_unlink`. -/
def doUnlink (ts : UInt32) : Parser Restored := do
  eat '('
  let parent ← getU32
  eat ','
  let name ← getName ')'
  eat ')'
  eat ':'
  let inode ← getU32
  return .call ts (.unlink parent (cStr name) inode)

theorem doUnlink_run (ts parent : UInt32) {name : Bytes} (hname : NameOk name) (inode : UInt32) {rest : Bytes}
    (hrest : isDigit (peek rest) = false) :
    (doUnlink ts).run (ofChar '(' :: (fmtU parent.toNat ++ ofChar ',' :: (fmtName name ++ ofChar ')' ::
      ofChar ':' :: (fmtU inode.toNat ++ rest)))) =
      some (.call ts (.unlink parent name inode), rest) := by
  simp [doUnlink, hrest, hname.1, cStr_of_not_mem hname.2, -Option.bind_eq_bind]

/-- `do_unlock`. -/
def doUnlock (ts : UInt32) : Parser Restored := do
  eat '('
  let chunkid ← getU64
  eat ')'
  return .call ts (.unlock chunkid)

theorem doUnlock_run (ts : UInt32) (chunkid : UInt64) (rest : Bytes) :
    (doUnlock ts).run (ofChar '(' :: (fmtU chunkid.toNat ++ ofChar ')' :: rest)) =
      some (.call ts (.unlock chunkid), rest) := by
  simp [doUnlock, -Option.bind_eq_bind]

/-- `do_nextchunkid`. -/
def doNextchunkid (ts : UInt32) : Parser Restored := do
  eat '('
  let nextChunkId ← getU64
  eat ')'
  return .call ts (.setNextchunkid nextChunkId)

theorem doNextchunkid_run (ts : UInt32) (chunkid : UInt64) (rest : Bytes) :
    (doNextchunkid ts).run (ofChar '(' :: (fmtU chunkid.toNat ++ ofChar ')' :: rest)) =
      some (.call ts (.setNextchunkid chunkid), rest) := by
  simp [doNextchunkid, -Option.bind_eq_bind]

/-- `do_trunc`: a missing lock id reads as `0`. -/
def doTrunc (ts : UInt32) : Parser Restored := do
  eat '('
  let inode ← getU32
  eat ','
  let indx ← getU32
  let lockid ← if (← peekIs ',') then do eat ','; getU32 else pure 0
  eat ')'
  eat ':'
  let chunkid ← getU64
  return .call ts (.trunc inode indx chunkid lockid)

theorem doTrunc_run (ts inode indx lockid : UInt32) (chunkid : UInt64) {rest : Bytes}
    (hrest : isDigit (peek rest) = false) :
    (doTrunc ts).run (ofChar '(' :: (fmtU inode.toNat ++ ofChar ',' :: (fmtU indx.toNat ++ ofChar ',' ::
      (fmtU lockid.toNat ++ ofChar ')' :: ofChar ':' :: (fmtU chunkid.toNat ++ rest))))) =
      some (.call ts (.trunc inode indx chunkid lockid), rest) := by
  simp [doTrunc, hrest, -Option.bind_eq_bind]

/-- `do_write`: a missing `opflag` or lock id reads as `1`. -/
def doWrite (ts : UInt32) : Parser Restored := do
  eat '('
  let inode ← getU32
  eat ','
  let indx ← getU32
  let opflag ← if (← peekIs ',') then do eat ','; getU8 else pure 1
  let lockid ← if (← peekIs ',') then do eat ','; getU32 else pure 1
  eat ')'
  eat ':'
  let chunkid ← getU64
  return .call ts (.writechunk inode indx lockid chunkid opflag)

theorem doWrite_run (ts inode indx : UInt32) (opflag : UInt8) (lockid : UInt32) (chunkid : UInt64)
    {rest : Bytes} (hrest : isDigit (peek rest) = false) :
    (doWrite ts).run (ofChar '(' :: (fmtU inode.toNat ++ ofChar ',' :: (fmtU indx.toNat ++ ofChar ',' ::
      (fmtU opflag.toNat ++ ofChar ',' :: (fmtU lockid.toNat ++ ofChar ')' :: ofChar ':' ::
      (fmtU chunkid.toNat ++ rest)))))) =
      some (.call ts (.writechunk inode indx lockid chunkid opflag), rest) := by
  simp [doWrite, hrest, -Option.bind_eq_bind]

/-! ## `restore_line` -/

/-- The cases of the `switch (*ptr)` of `restore_line`, each with the names it tries
with `strncmp`, in order, and the `do_*` function of each. -/
def restoreSwitch : List (Char × List (String × (UInt32 → Parser Restored))) :=
  [('A', [("ACCESS", doAccess), ("ATTR", doAttr), ("APPEND", doAppend), ("ACQUIRE", doAcquire),
      ("AQUIRE", doAcquire)]),
    ('C', [("CHECKSUM", doChecksum), ("CLONE", doCloneNode), ("CREATE", doCreate), ("CUSTOMER", doSession),
      ("CLRLCK", doLockClearSession)]),
    ('D', [("DELETEACL", doDeleteacl)]),
    ('E', [("EMPTYTRASH", doEmptytrashDeprecated), ("EMPTYRESERVED", doEmptyreservedDeprecated)]),
    ('F', [("FLCKINODE", doLockUnlockInode), ("FLCK", doLockOp), ("FREEINODES", doFreeinodes)]),
    ('I', [("INCVERSION", doIncversion)]),
    ('L', [("LENGTH", doLength), ("LINK", doLink)]),
    ('M', [("MOVE", doMove)]),
    ('N', [("NEXTCHUNKID", doNextchunkid)]),
    ('P', [("PURGE", doPurge)]),
    ('R', [("RELEASE", doRelease), ("REPAIR", doRepair), ("RMPLOCK", doRemovePendingOp)]),
    ('S', [("SESSION", doSession), ("SETACL", doSetacl), ("SETEATTR", doSeteattr), ("SETGOAL", doSetgoal),
      ("SETPATH", doSetpath), ("SETQUOTA", doSetquota), ("SETTRASHTIME", doSettrashtime),
      ("SETXATTR", doSetxattr), ("SNAPSHOT", doSnapshot), ("SYMLINK", doSymlink),
      ("SETRICHACL", doSetrichacl)]),
    ('T', [("TRUNC", doTrunc)]),
    ('U', [("UNLINK", doUnlink), ("UNDEL", doUndel), ("UNLOCK", doUnlock)]),
    ('W', [("WRITE", doWrite)])]

/-- The start of a line: `EAT(':')`, `EAT(' ')`, `GETU32(ts)`, `EAT('|')`. -/
def lineHeader : Parser UInt32 := do
  eat ':'
  eat ' '
  let ts ← getU32
  eat '|'
  return ts

/-- The `do_*` function `restore_line` picks for the entry at `ptr`: the case of the
`switch` on its first byte, then the first name of that case that `strncmp` finds
at `ptr`; with the length of the name. -/
def restoreDispatch (ptr : Bytes) : Option (Nat × (UInt32 → Parser Restored)) :=
  match restoreSwitch.find? fun e => ofChar e.1 = peek ptr with
  | none => none
  | some (_, names) =>
    match names.find? fun e => (lit e.1).isPrefixOf ptr with
    | none => none
    | some (name, handler) => some ((lit name).length, handler)

/-- No name of the `switch` holds a `(`. -/
theorem paren_not_mem_names : ∀ e ∈ restoreSwitch, ∀ n ∈ e.2, ofChar '(' ∉ lit n.1 := by
  decide

/-- `restore_line` picks the entry by its first bytes: after a prefix with a `(` in it,
the rest of the line does not matter. -/
theorem restoreDispatch_append {p : Bytes} (hp : ofChar '(' ∈ p) (t : Bytes) :
    restoreDispatch (p ++ t) = restoreDispatch p := by
  have hne : p ≠ [] := List.ne_nil_of_mem hp
  unfold restoreDispatch
  rw [peek_append hne]
  split
  · rfl
  · rename_i names hcase
    have hmem := List.mem_of_find?_eq_some hcase
    -- `p` goes on past every name: a name that `p` started would hold its `(`
    have hnames : ∀ n ∈ names, (lit n.1).length ≤ p.length ∨ ¬ p <+: lit n.1 :=
      fun n hn => Or.inr fun hpre => paren_not_mem_names _ hmem n hn (hpre.subset hp)
    rw [List.find?_congr fun n hn => isPrefixOf_append (hnames n hn) t]

/-- The name `restore_line` picks starts the entry. -/
theorem restoreDispatch_length {p : Bytes} {n : Nat} {h : UInt32 → Parser Restored}
    (hd : restoreDispatch p = some (n, h)) : n ≤ p.length := by
  unfold restoreDispatch at hd
  split at hd
  · cases hd
  · split at hd
    · cases hd
    · rename_i name handler hfound
      cases hd
      have hpre := List.find?_some hfound
      exact (List.isPrefixOf_iff_prefix.mp hpre).length_le

/-- `restore_line` after the time stamp: the `do_*` function of the entry at `ptr`,
run on what follows the name. What follows the last field it reads is not looked
at. -/
def restoreBody (ts : UInt32) (ptr : Bytes) : Restored :=
  match restoreDispatch ptr with
  | none => .unknownEntry
  | some (n, handler) =>
    match (handler ts).run (ptr.drop n) with
    | none => .parseError
    | some (r, _) => r

/-- Reading an entry: the `do_*` function the `switch` picks for the first bytes `p`
runs on the line after the name. -/
theorem restoreBody_of_dispatch {p : Bytes} {n : Nat} {h : UInt32 → Parser Restored}
    (hd : restoreDispatch p = some (n, h)) (hp : ofChar '(' ∈ p) (ts : UInt32) (t : Bytes) :
    restoreBody ts (p ++ t) =
      match (h ts).run (p.drop n ++ t) with
      | none => .parseError
      | some (r, _) => r := by
  rw [restoreBody, restoreDispatch_append hp, hd]
  dsimp only
  rw [List.drop_append_of_le_length (restoreDispatch_length hd)]

/-- What follows an entry on the line `restore_line` reads: the end of the C string, or
the newline that a line of a changelog file keeps. -/
def LineEnd (rest : Bytes) : Prop := peek rest = 0 ∨ peek rest = ofChar '\n'

theorem LineEnd.isDigit_peek {rest : Bytes} (h : LineEnd rest) : isDigit (peek rest) = false := by
  rcases h with h | h <;> rw [h] <;> decide

theorem LineEnd.peek_ne_colon {rest : Bytes} (h : LineEnd rest) : peek rest ≠ ofChar ':' := by
  rcases h with h | h <;> rw [h] <;> decide

end Restore

open Restore in
/-- `restore_line(filename, lv, line)`: what it does with a line. -/
def restoreLine (line : Bytes) : Restored :=
  match lineHeader.run line with
  | none => .parseError
  | some (ts, ptr) => restoreBody ts ptr

end LizardFs
