/-!
# Status codes

The `lizardfs_error_code` values of `src/common/lizardfs_error_codes.h` that the
modelled functions return.
-/

namespace LizardFs

/-- A `lizardfs_error_code`; the comment gives the numeric value of the source. -/
inductive Status where
  /-- `LIZARDFS_STATUS_OK` (0) -/
  | ok
  /-- `LIZARDFS_ERROR_EPERM` (1) -/
  | eperm
  /-- `LIZARDFS_ERROR_ENOTDIR` (2) -/
  | enotdir
  /-- `LIZARDFS_ERROR_ENOENT` (3) -/
  | enoent
  /-- `LIZARDFS_ERROR_EACCES` (4) -/
  | eacces
  /-- `LIZARDFS_ERROR_EEXIST` (5) -/
  | eexist
  /-- `LIZARDFS_ERROR_EINVAL` (6) -/
  | einval
  /-- `LIZARDFS_ERROR_CHUNKLOST` (8) -/
  | chunklost
  /-- `LIZARDFS_ERROR_INDEXTOOBIG` (10) -/
  | indextoobig
  /-- `LIZARDFS_ERROR_LOCKED` (11) -/
  | locked
  /-- `LIZARDFS_ERROR_NOCHUNKSERVERS` (12) -/
  | nochunkservers
  /-- `LIZARDFS_ERROR_NOCHUNK` (13) -/
  | nochunk
  /-- `LIZARDFS_ERROR_CHUNKBUSY` (14) -/
  | chunkbusy
  /-- `LIZARDFS_ERROR_NOSPACE` (21) -/
  | nospace
  /-- `LIZARDFS_ERROR_DELAYED` (30) -/
  | delayed
  /-- `LIZARDFS_ERROR_MISMATCH` (32) -/
  | mismatch
  /-- `LIZARDFS_ERROR_EROFS` (33) -/
  | erofs
  /-- `LIZARDFS_ERROR_QUOTA` (34) -/
  | quota
  /-- `LIZARDFS_ERROR_NOPASSWORD` (36) -/
  | nopassword
  /-- `LIZARDFS_ERROR_BADPASSWORD` (37) -/
  | badpassword
  /-- `LIZARDFS_ERROR_NOTLOCKED` (46) -/
  | notlocked
  /-- `LIZARDFS_ERROR_WRONGLOCKID` (47) -/
  | wronglockid
  /-- `LIZARDFS_ERROR_NOTPOSSIBLE` (48) -/
  | notpossible
  /-- `LIZARDFS_ERROR_WAITING` (50) -/
  | waiting
  deriving DecidableEq, Repr

/-- The numeric value of the code, as `restore_line` returns it. -/
def Status.code : Status → UInt8
  | .ok => 0
  | .eperm => 1
  | .enotdir => 2
  | .enoent => 3
  | .eacces => 4
  | .eexist => 5
  | .einval => 6
  | .chunklost => 8
  | .indextoobig => 10
  | .locked => 11
  | .nochunkservers => 12
  | .nochunk => 13
  | .chunkbusy => 14
  | .nospace => 21
  | .delayed => 30
  | .mismatch => 32
  | .erofs => 33
  | .quota => 34
  | .nopassword => 36
  | .badpassword => 37
  | .notlocked => 46
  | .wronglockid => 47
  | .notpossible => 48
  | .waiting => 50

end LizardFs
