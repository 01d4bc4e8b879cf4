import Mathlib
import LizardFs.Metarestore.Rebuild
import LizardFs.Serialization.RoundTrip

/-!
# The shadow master following the master's changes

The master sends each change it logs to its shadow masters and metaloggers:
`matomlserv_broadcast_logstring` puts `0xFF`, the version (`put64bit`) and the
entry with its NUL into a `MATOML_METACHANGES_LOG` packet. A shadow takes it in
`masterconn_metachanges_log` (`master/masterconn.cc`): it checks the packet, checks
that the version follows the last one it logged, replays the entry through
`restore()` with no error ignored while it is synchronized, and appends the entry to
its own changelog. A version that does not follow, or an entry that does not
replay, goes to `masterconn_handle_changelog_apply_error`: against a master up to
2.5.0 the shadow unloads its metadata and downloads it again, against a newer one
it asks the master for a metadata dump.

* `MasterConn` — the connection's state and the globals the handler reads
  (`lastlogversion`, the versions of `restore()`, the metadata, the changelog file);
* `MasterConn.InStep` — a synchronized shadow's metadata is one version past the
  last change it logged, with `restore()` in step: every packet keeps it, whatever its
  bytes (`MasterConn.InStep.metachangesLog`), and so does any run of packets
  (`shadow_in_step_over_any_packets`);
* `masterconn_follows_master` — the packets of a run of the master keep a shadow
  that agrees with it synchronized and in agreement, and its changelog file goes on
  with the master's lines.
-/

namespace LizardFs

open CString Restore ChunksMetadata

/-! ## The packet -/

/-- `FORCE_LOG_ROTATE`. -/
def kForceLogRotate : UInt8 := 0x55

/-- `put64bit`: the value, most significant byte first. -/
def put64bit (v : UInt64) : Bytes := (toBytes 8 v.toNat).map Nat.toUInt8

/-- `get64bit`: the value of the first eight bytes. -/
def get64bit (data : Bytes) : UInt64 := UInt64.ofNat (Decode.bigEndian ((data.take 8).map UInt8.toNat))

/-- The payload of the `MATOML_METACHANGES_LOG` packet that
`matomlserv_broadcast_logstring(version, entry, tsLength + entryLength)` sends for an
entry of `fs_changelog`: `0xFF`, the version, and the entry with its NUL. -/
def metachangesLogPacket (version : UInt64) (entry : Bytes) : Bytes := 0xFF :: (put64bit version ++ (entry ++ [0]))

/-- The packets of the entries, the first of version `v` and each next one of the
next version. -/
def metachangesLogPackets (v : Nat) (entries : List Bytes) : List Bytes :=
  ((List.range' v entries.length).zip entries).map fun ve => metachangesLogPacket (UInt64.ofNat ve.1) ve.2

theorem metachangesLogPackets_cons (v : Nat) (e : Bytes) (es : List Bytes) :
    metachangesLogPackets v (e :: es) = metachangesLogPacket (UInt64.ofNat v) e :: metachangesLogPackets (v + 1) es := by
  simp [metachangesLogPackets, List.range'_succ]

theorem lt_of_mem_toBytes : ∀ {k n x : Nat}, x ∈ toBytes k n → x < 256 := by
  intro k
  induction k with
  | zero => intro n x hx; simp [toBytes] at hx
  | succ k ih =>
    intro n x hx
    rw [toBytes, List.mem_append, List.mem_singleton] at hx
    rcases hx with hx | rfl
    · exact ih hx
    · exact Nat.mod_lt _ (by norm_num)

@[simp] theorem length_put64bit (v : UInt64) : (put64bit v).length = 8 := by
  simp [put64bit]

/-- `get64bit` reads back what `put64bit` wrote. -/
theorem get64bit_put64bit (v : UInt64) (rest : Bytes) : get64bit (put64bit v ++ rest) = v := by
  have hbytes : (put64bit v).map UInt8.toNat = toBytes 8 v.toNat := by
    rw [put64bit, List.map_map]
    refine (List.map_congr_left fun x hx => ?_).trans (List.map_id _)
    exact UInt8.toNat_ofNat_of_lt' (lt_of_mem_toBytes hx)
  have h8 : (256 : Nat) ^ 8 = 2 ^ 64 := by norm_num
  rw [get64bit, List.take_left' (length_put64bit v), hbytes, bigEndian_toBytes, h8,
    Nat.mod_eq_of_lt v.toNat_lt, UInt64.ofNat_toNat]

theorem zero_not_mem_fmtU (n : Nat) : (0 : UInt8) ∉ fmtU n := fun h =>
  absurd ((decimal_spec n).2.1 0 h) (by decide)

/-- The line of a `WRITE` or `TRUNC` entry has no NUL: the shadow reads it whole. -/
theorem ChangelogEntry.zero_not_mem_line (ts : UInt32) (e : ChangelogEntry) :
    (0 : UInt8) ∉ fsChangelogLine ts e.change := by
  intro h
  rw [fsChangelogLine, List.mem_append, List.mem_append] at h
  rcases h with (h | h) | h
  · exact zero_not_mem_fmtU _ h
  · exact absurd h (by decide)
  · -- the entry's text: names and digits
    have h := List.mem_of_mem_take h
    cases e <;> simp only [ChangelogEntry.change, Change.format, List.mem_append, zero_not_mem_fmtU, or_false] at h <;> revert h <;> decide

/-- What a C string read from a buffer is: the bytes before the NUL. -/
theorem cStr_append_zero {s : Bytes} (h : (0 : UInt8) ∉ s) (t : Bytes) : cStr (s ++ 0 :: t) = s := by
  rw [cStr, List.takeWhile_append_of_pos, List.takeWhile_cons_of_neg (by simp)]
  · exact List.append_nil s
  · intro b hb
    have hne : b ≠ 0 := fun hb0 => h (hb0 ▸ hb)
    simpa using hne

/-! ## The connection -/

/-- `MasterConnectionState`. -/
inductive MasterConnectionState where
  | none
  | synchronized
  | downloading
  | dumpRequestPending
  | limbo
  deriving DecidableEq, Repr

/-- The `mode` of the connection: `FREE`, `CONNECTING`, `HEADER`, `DATA`, `KILL`. -/
inductive ConnMode where
  | free
  | connecting
  | header
  | data
  | kill
  deriving DecidableEq, Repr

/-- `lizardfsVersion(major, minor, micro)`. -/
def lizardfsVersion (major minor micro : UInt32) : UInt32 := 0x010000 * major + 0x0100 * minor + micro

/-- The shadow's connection to the master (`masterconn`: its `mode`, `state`, the
master's `version`, `error_status`, and the `LIZ_MLTOMA_CHANGELOG_APPLY_ERROR` packets
queued, by their status) with the globals `masterconn_metachanges_log` works on:
`lastlogversion`, the versions of `restore()`, the metadata (`none` once `fs_unload()`
freed it) and the lines appended to the changelog file. While synchronized the
metadata is loaded. -/
structure MasterConn (σ : Type) where
  mode : ConnMode
  state : MasterConnectionState
  version : UInt32
  errorStatus : UInt8
  applyErrors : List UInt8
  lastlogversion : UInt64
  restoreVersions : RestoreVersions
  metadata : Option σ
  changelog : List Bytes
  loaded : state = .synchronized → metadata.isSome

namespace MasterConn

variable {σ : Type}

/-- `masterconn_kill_session`. -/
def killSession (c : MasterConn σ) : MasterConn σ := if c.mode ≠ .free then { c with mode := .kill } else c

/-- `masterconn_force_metadata_download`: `fs_unload()` (which calls `restore_reset()`
too), `restore_reset()`, `lastlogversion = 0`, and the session is killed. -/
def forceMetadataDownload (c : MasterConn σ) : MasterConn σ :=
  killSession { c with
    state := .none, metadata := none, restoreVersions := restoreReset, lastlogversion := 0
    loaded := fun h => by cases h }

/-- `masterconn_request_metadata_dump`: `changelogApplyError(error_status)` is queued
and the shadow waits for the master's dump. -/
def requestMetadataDump (c : MasterConn σ) : MasterConn σ :=
  { c with
    applyErrors := c.applyErrors ++ [c.errorStatus], state := .dumpRequestPending
    loaded := fun h => by cases h }

/-- `masterconn_handle_changelog_apply_error(eptr, status)`. -/
def handleChangelogApplyError (c : MasterConn σ) (status : UInt8) : MasterConn σ :=
  if c.version ≤ lizardfsVersion 2 5 0 then c.forceMetadataDownload
  else requestMetadataDump { c with errorStatus := status }

/-- After an apply error the shadow is no longer synchronized. -/
theorem handleChangelogApplyError_state (c : MasterConn σ) (status : UInt8) :
    (c.handleChangelogApplyError status).state ≠ .synchronized := by
  unfold handleChangelogApplyError forceMetadataDownload killSession requestMetadataDump
  split_ifs <;> simp

section Handler

variable (fsGetversion : σ → UInt64) (applyLine : σ → Bytes → LineStatus × σ)

/-- `masterconn_metachanges_log(eptr, data, length)` on the payload `data`. -/
def metachangesLog (c : MasterConn σ) (data : Bytes) : MasterConn σ :=
  -- a shadow rotates its changelog when it stores its metadata
  if data.length = 1 ∧ data.headD 0 = kForceLogRotate then c
  else if data.length < 10 then { c with mode := .kill }
  else if data.headD 0 ≠ 0xFF then { c with mode := .kill }
  else if data.getLastD 0 ≠ 0 then { c with mode := .kill }
  else if c.lastlogversion > 0 ∧ get64bit (data.drop 1) ≠ c.lastlogversion + 1 then
    -- "some changes lost"
    c.handleChangelogApplyError errorMetadataVersionMismatch
  else if hs : c.state = .synchronized then
    match restore fsGetversion applyLine c.restoreVersions (c.metadata.get (c.loaded hs)) (get64bit (data.drop 1))
        (lit ": " ++ cStr (data.drop 9)) .dontIgnoreAnyErrors with
    | (vs', m', 0) =>
      { c with
        restoreVersions := vs', metadata := some m', lastlogversion := get64bit (data.drop 1)
        changelog := c.changelog ++ [changelogFileLine (get64bit (data.drop 1)) (cStr (data.drop 9))]
        loaded := fun _ => rfl }
    | (vs', m', status) =>
      handleChangelogApplyError { c with restoreVersions := vs', metadata := some m', loaded := fun _ => rfl } status
  else
    { c with
      lastlogversion := get64bit (data.drop 1)
      changelog := c.changelog ++ [changelogFileLine (get64bit (data.drop 1)) (cStr (data.drop 9))] }

/-- A synchronized shadow takes the master's packet of the next version: it replays
the entry and logs it. -/
theorem metachangesLog_packet (c : MasterConn σ) {v : UInt64} {entry : Bytes} (hentry : (0 : UInt8) ∉ entry)
    (hnext : ¬ (c.lastlogversion > 0 ∧ v ≠ c.lastlogversion + 1)) (hs : c.state = .synchronized)
    {vs' : RestoreVersions} {m' : σ}
    (hr : restore fsGetversion applyLine c.restoreVersions (c.metadata.get (c.loaded hs)) v (lit ": " ++ entry)
      .dontIgnoreAnyErrors = (vs', m', 0)) :
    c.metachangesLog fsGetversion applyLine (metachangesLogPacket v entry) =
      { c with
        restoreVersions := vs', metadata := some m', lastlogversion := v
        changelog := c.changelog ++ [changelogFileLine v entry], loaded := fun _ => rfl } := by
  -- the packet is well formed: its version and its entry read back
  have hlen : (metachangesLogPacket v entry).length = entry.length + 10 := by
    simp [metachangesLogPacket]
    omega
  have hlast : (metachangesLogPacket v entry).getLastD 0 = 0 := by
    have hsnoc : metachangesLogPacket v entry = (0xFF :: (put64bit v ++ entry)) ++ [0] := by
      simp [metachangesLogPacket]
    rw [hsnoc, List.getLastD_concat]
  have hver : get64bit ((metachangesLogPacket v entry).drop 1) = v := by
    rw [metachangesLogPacket, List.drop_one, List.tail_cons, get64bit_put64bit]
  have hentry' : cStr ((metachangesLogPacket v entry).drop 9) = entry := by
    rw [metachangesLogPacket, show 9 = 1 + 8 from rfl, ← List.drop_drop, List.drop_one, List.tail_cons,
      List.drop_append_of_le_length (by simp), List.drop_of_length_le (by simp), List.nil_append,
      cStr_append_zero hentry]
  have hrot : ¬ ((metachangesLogPacket v entry).length = 1 ∧
      (metachangesLogPacket v entry).headD 0 = kForceLogRotate) := fun h => by omega
  unfold metachangesLog
  rw [if_neg hrot, if_neg (by omega), if_neg (by simp [metachangesLogPacket]), if_neg (by rw [hlast]; exact not_not_intro rfl),
    hver, if_neg hnext, dif_pos hs, hentry', hr]
  rfl

/-- The shadow takes the packets in turn. -/
def receiveAll (c : MasterConn σ) (packets : List Bytes) : MasterConn σ :=
  packets.foldl (metachangesLog fsGetversion applyLine) c

/-! ## The shadow stays in step -/

/-- A synchronized shadow is in step: its metadata is one version past the last
change it logged, and `restore()` is at the versions of `restore_reset()` or in
step with the metadata. -/
def InStep (c : MasterConn σ) : Prop :=
  ∀ m, c.state = .synchronized → c.metadata = some m →
    (fsGetversion m).toNat = c.lastlogversion.toNat + 1 ∧
      (c.restoreVersions = restoreReset ∨ Synced fsGetversion c.restoreVersions m)

theorem InStep.of_state_ne {c : MasterConn σ} (h : c.state ≠ .synchronized) : c.InStep fsGetversion :=
  fun _ hs => absurd hs h

variable {fsGetversion applyLine}

/-- What `restore()` took while the shadow was in step: an entry of the next
version, which leaves the metadata one version past it, or, before anything was
logged, an entry of version `0`, which changes nothing. -/
theorem InStep.restore_ok {c : MasterConn σ} (hc : c.InStep fsGetversion) {m : σ} (hs : c.state = .synchronized)
    (hm : c.metadata = some m) {v : UInt64} (hv : v.toNat + 1 < 2 ^ 64)
    (hnext : ¬ (c.lastlogversion > 0 ∧ v ≠ c.lastlogversion + 1)) {ptr : Bytes} {vs' : RestoreVersions} {m' : σ}
    (hr : restore fsGetversion applyLine c.restoreVersions m v ptr .dontIgnoreAnyErrors = (vs', m', 0)) :
    (fsGetversion m').toNat = v.toNat + 1 ∧ Synced fsGetversion vs' m' := by
  obtain ⟨hver, hvs⟩ := hc m hs hm
  have hv0 : fsGetversion m ≠ 0 := fun h0 => by rw [h0] at hver; simp at hver
  obtain ⟨vs₀, hs₀, hrest⟩ := exists_synced_of_reset_or_synced applyLine hvs hv0
  rw [hrest] at hr
  -- `restore()`'s versions sit one below the metadata's, at the last logged one
  have hcur : vs₀.currentFsVersion.toNat = c.lastlogversion.toNat := by
    have := hs₀.next_toNat
    rw [hs₀.next_eq] at this
    omega
  have hlt : c.lastlogversion.toNat + 1 < 2 ^ 64 := hver ▸ (fsGetversion m).toNat_lt
  rcases hs₀.restore_eq_ok applyLine hv hr with ⟨hle, rfl, rfl⟩ | ⟨-, hrig, -⟩ | ⟨hv', -, rfl, hsync'⟩
  · -- an old entry: only version `0` before anything was logged
    have hlast : c.lastlogversion = 0 := by
      by_contra hne
      have hpos : c.lastlogversion > 0 := by
        rw [gt_iff_lt, UInt64.lt_iff_toNat_lt]
        exact Nat.pos_of_ne_zero (by simpa [← UInt64.toNat_inj] using hne)
      have heq : v = c.lastlogversion + 1 := by
        by_contra hne'
        exact hnext ⟨hpos, hne'⟩
      have : v.toNat = c.lastlogversion.toNat + 1 := by
        rw [heq, toNat_add_one_of_lt hlt]
      omega
    rw [hlast] at hcur hver
    simp only [UInt64.toNat_zero] at hcur hver
    exact ⟨by omega, hs₀⟩
  · cases hrig
  · exact ⟨by rw [← hsync'.next_eq, hsync'.next_toNat], hsync'⟩

/-- **Every packet keeps the shadow in step**, whatever its bytes, as long as its
version is not `2 ^ 64 - 1`. -/
theorem InStep.metachangesLog {c : MasterConn σ} (hc : c.InStep fsGetversion) (data : Bytes)
    (hv : (get64bit (data.drop 1)).toNat + 1 < 2 ^ 64) :
    (c.metachangesLog fsGetversion applyLine data).InStep fsGetversion := by
  unfold MasterConn.metachangesLog
  split_ifs with hrot hshort hmark hnul hgap hs
  -- a rotation keeps the connection; a malformed packet only kills it
  · exact hc
  · exact hc
  · exact hc
  · exact hc
  · exact InStep.of_state_ne _ (handleChangelogApplyError_state _ _)
  · -- synchronized: the entry goes through `restore()`
    obtain ⟨m, hm⟩ := Option.isSome_iff_exists.mp (c.loaded hs)
    have hget : c.metadata.get (c.loaded hs) = m := by simp [hm]
    rw [hget]
    rcases hr : restore fsGetversion applyLine c.restoreVersions m (get64bit (data.drop 1))
      (lit ": " ++ cStr (data.drop 9)) .dontIgnoreAnyErrors with ⟨vs', m', code⟩
    by_cases hcode : code = 0
    · subst hcode
      obtain ⟨hver', hsync'⟩ := hc.restore_ok hs hm hv hgap hr
      intro m₁ _ hm₁
      cases hm₁
      exact ⟨hver', Or.inr hsync'⟩
    · -- an entry that does not replay is an apply error
      split
      · rename_i heq
        exact absurd (Prod.mk.inj (Prod.mk.inj heq).2).2 hcode
      · exact InStep.of_state_ne _ (handleChangelogApplyError_state _ _)
  · -- not synchronized: the entry is only logged
    exact InStep.of_state_ne _ hs

/-- **A shadow stays in step over any run of packets**: while it is synchronized,
its metadata is one version past the last change it logged, and `restore()` is in
step with it. -/
theorem shadow_in_step_over_any_packets {c : MasterConn σ} (hc : c.InStep fsGetversion) (packets : List Bytes)
    (hv : ∀ p ∈ packets, (get64bit (p.drop 1)).toNat + 1 < 2 ^ 64) :
    (c.receiveAll fsGetversion applyLine packets).InStep fsGetversion := by
  -- induction on the packets, from any shadow in step
  induction packets generalizing c with
  | nil => exact hc
  | cons p packets ih =>
    exact ih (hc.metachangesLog p (hv p List.mem_cons_self)) fun q hq => hv q (List.mem_cons_of_mem _ hq)

end Handler

/-- A shadow synchronized at the metadata of version 1, before it logged any change,
with `restore()` reset. -/
def freshShadow : MasterConn FsMetadata :=
  { mode := .data, state := .synchronized, version := lizardfsVersion 3 13 0, errorStatus := 0
    applyErrors := [], lastlogversion := 0, restoreVersions := restoreReset
    metadata := some oneEmptyFileAt1, changelog := [], loaded := fun _ => rfl }

theorem freshShadow_inStep : freshShadow.InStep fsGetversion := by
  intro m _ hm
  cases Option.some.inj hm
  exact ⟨rfl, Or.inl rfl⟩

/-- A packet of version 1, one of version 5 after it, a rotation, and a packet too
short to hold a version. -/
def mixedPackets : List Bytes :=
  [metachangesLogPacket 1 (lit "100|WRITE(2,0,1,0,1)"), metachangesLogPacket 5 (lit "101|TRUNC(2,0,1,2)"),
    [kForceLogRotate], [0xFF, 0]]

theorem fresh_shadow_in_step_after_mixed_packets :
    freshShadow.InStep fsGetversion ∧ (∀ p ∈ mixedPackets, (get64bit (p.drop 1)).toNat + 1 < 2 ^ 64) ∧
      (freshShadow.receiveAll fsGetversion (restoreLineOn fun s _ _ => (s, .einval)) mixedPackets).InStep
        fsGetversion := by
  have hv : ∀ p ∈ mixedPackets, (get64bit (p.drop 1)).toNat + 1 < 2 ^ 64 := by decide
  exact ⟨freshShadow_inStep, hv, shadow_in_step_over_any_packets freshShadow_inStep mixedPackets hv⟩

/-! ## Following the master -/

section Follow

variable (fsOther : FsMetadata → UInt32 → FsCall → FsMetadata × Status)

/-- One packet of the master's run: a synchronized shadow in step, whose metadata `s` replays
the master's entry to `s₁`, takes the packet of version `s.metaversion`, stays synchronized and
in step with `s₁`, and logs the master's line. -/
theorem metachangesLog_logged_entry {c : MasterConn FsMetadata} {s s₁ : FsMetadata} {ts : UInt32}
    {e : ChangelogEntry} (hsync : c.state = .synchronized) (hmeta : c.metadata = some s)
    (hc : c.InStep fsGetversion) (hres : restoreEntry s ts e = (s₁, .ok)) (he : e.Fits)
    (hsmv₁ : s₁.metaversion = s.metaversion + 1) (hfit : s.metaversion + 1 < 2 ^ 64) :
    ∃ c₁ : MasterConn FsMetadata,
      c.metachangesLog fsGetversion (restoreLineOn fsOther)
          (metachangesLogPacket (UInt64.ofNat s.metaversion) (fsChangelogLine ts e.change)) = c₁ ∧
        c₁.state = .synchronized ∧ c₁.mode = c.mode ∧ c₁.applyErrors = c.applyErrors ∧
        c₁.metadata = some s₁ ∧
        c₁.changelog = c.changelog ++
          [changelogFileLine (UInt64.ofNat s.metaversion) (fsChangelogLine ts e.change)] ∧
        c₁.InStep fsGetversion := by
  -- the shadow is in step: it logged the version below its metadata's
  obtain ⟨hver, hvs⟩ := hc s hsync hmeta
  have hlast : c.lastlogversion.toNat + 1 = s.metaversion := by
    rw [← hver, fsGetversion, toNat_ofNat_version (by omega)]
  have hv0 : fsGetversion s ≠ 0 := by
    rw [fsGetversion, Ne, ← UInt64.toNat_inj, toNat_ofNat_version (by omega)]
    simp only [UInt64.toNat_zero]
    omega
  obtain ⟨vs₀, hs₀, hrestore⟩ := exists_synced_of_reset_or_synced (restoreLineOn fsOther) hvs hv0
  have hcur : vs₀.currentFsVersion.toNat + 1 = s.metaversion := by
    have := hs₀.next_toNat
    rw [hs₀.next_eq, fsGetversion, toNat_ofNat_version (by omega)] at this
    omega
  -- the packet carries the next version, and its entry replays
  have hnext : ¬ (c.lastlogversion > 0 ∧ UInt64.ofNat s.metaversion ≠ c.lastlogversion + 1) := by
    rintro ⟨-, hne⟩
    apply hne
    rw [← UInt64.toNat_inj, toNat_ofNat_version (by omega), toNat_add_one_of_lt (by omega), hlast]
  have hget : c.metadata.get (c.loaded hsync) = s := by simp [hmeta]
  have hr : restore fsGetversion (restoreLineOn fsOther) c.restoreVersions (c.metadata.get (c.loaded hsync))
      (UInt64.ofNat s.metaversion) (lit ": " ++ fsChangelogLine ts e.change) .dontIgnoreAnyErrors =
      (⟨fsGetversion s₁, UInt64.ofNat s.metaversion⟩, s₁, 0) := by
    have hline := restore_changelogLine fsOther hs₀ hcur he hres hsmv₁ hfit
      (show LineEnd ([] : Bytes) from Or.inl rfl) .dontIgnoreAnyErrors
    rw [List.append_nil] at hline
    rw [hget, hrestore, hline]
  refine ⟨_, metachangesLog_packet fsGetversion (restoreLineOn fsOther) c
    (ChangelogEntry.zero_not_mem_line ts e) hnext hsync hr, hsync, rfl, rfl, rfl, rfl, ?_⟩
  -- after the packet the shadow is in step with the next version
  intro m₂ _ hm₂
  cases hm₂
  exact ⟨(synced_after hsmv₁ hfit).next_toNat, Or.inr (synced_after hsmv₁ hfit)⟩

/-- **A shadow follows the master.** The master, from metadata `m`, runs chunk
operations that all succeed and sends the entry of each to its shadows
(`matomlserv_broadcast_logstring`). A synchronized shadow in step, with metadata that
agrees with `m`, takes the packets: it stays synchronized and connected, queues no
apply error, ends with metadata that agrees with the master's, and its changelog file
goes on with the master's lines. -/
theorem masterconn_follows_master (ops : List (ChunkOp × ChunkEnv × Bool × SessionData)) :
    ∀ {m s m' : FsMetadata} {c : MasterConn FsMetadata}, FsAgree m s → m.Valid → Tallied s.chunks →
      ChunkOp.runAll m ops = some m' → (∀ te ∈ m'.changelog, te.2.Fits) → m'.metaversion < 2 ^ 64 →
      c.state = .synchronized → c.metadata = some s → c.InStep fsGetversion →
      ∃ logged, m'.changelog = m.changelog ++ logged ∧ ∃ s' c',
        c.receiveAll fsGetversion (restoreLineOn fsOther)
            (metachangesLogPackets s.metaversion (loggedLines logged)) = c' ∧
          c'.state = .synchronized ∧ c'.mode = c.mode ∧ c'.applyErrors = c.applyErrors ∧
          c'.metadata = some s' ∧ FsAgree m' s' ∧ Tallied s'.chunks ∧
          c'.changelog = c.changelog ++ changelogLines s.metaversion (loggedLines logged) := by
  -- induction on the operations, from any agreeing master and shadow in step
  induction ops with
  | nil =>
    intro m s m' c hag _ hs hrun _ _ hsync hmeta _
    cases hrun
    exact ⟨[], by simp, s, c, rfl, hsync, rfl, rfl, hmeta, hag, hs, by simp [loggedLines]⟩
  | cons o ops ih =>
    obtain ⟨op, env, quota, session⟩ := o
    intro m s m' c hag hm hs hrun hfits hbound hsync hmeta hc
    obtain ⟨m₁, hop, hrest⟩ := ChunkOp.runAll_cons_eq_some hrun
    -- the first operation: its entry replays on the shadow
    obtain ⟨e, s₁, hlog, hres, hag₁, hs₁⟩ := hag.replay hm hs hop
    have hmv₁ : m₁.metaversion = m.metaversion + 1 := ChunkOp.runOnMaster_metaversion hop
    have hsmv₁ : s₁.metaversion = s.metaversion + 1 := by rw [← hag₁.metaversion, hmv₁, hag.metaversion]
    have hfit : s.metaversion + 1 < 2 ^ 64 := by
      have := ChunkOp.runAll_metaversion hrest
      have := hag.metaversion
      omega
    obtain ⟨logged', hlogged'⟩ := ChunkOp.runAll_changelog (hm.runOnMaster hop) hrest
    have he : e.Fits := hfits (env.now, e) (by simp [hlogged', hlog])
    -- the shadow takes the packet of the entry, then the packets of the rest of the run
    obtain ⟨c₁, hstep, hsync₁, hmode₁, herr₁, hmeta₁, hcl₁, hin₁⟩ :=
      metachangesLog_logged_entry fsOther hsync hmeta hc hres he hsmv₁ hfit
    obtain ⟨logged, hlog', s', c', hrecv, hst, hmode, herr, hmeta', hag', hs', hcl⟩ :=
      ih hag₁ (hm.runOnMaster hop) hs₁ hrest hfits hbound hsync₁ hmeta₁ hin₁
    refine ⟨(env.now, e) :: logged, by simp [hlog', hlog], s', c', ?_, hst, hmode.trans hmode₁,
      herr.trans herr₁, hmeta', hag', hs', ?_⟩
    · rw [← hrecv, receiveAll, receiveAll, loggedLines, List.map_cons, metachangesLogPackets_cons,
        List.foldl_cons, hstep, hsmv₁, loggedLines]
    · rw [hcl, hcl₁, hsmv₁]
      simp only [loggedLines, List.map_cons, changelogLines_cons, List.append_assoc, List.singleton_append]

/-- The fresh shadow follows the master's two first writes. -/
theorem fresh_shadow_follows_two_writes :
    FsAgree oneEmptyFileAt1 oneEmptyFileAt1 ∧ oneEmptyFileAt1.Valid ∧ Tallied oneEmptyFileAt1.chunks ∧
      ∃ m', ChunkOp.runAll oneEmptyFileAt1 twoWrites = some m' ∧ (∀ te ∈ m'.changelog, te.2.Fits) ∧
        m'.metaversion < 2 ^ 64 ∧ freshShadow.state = .synchronized ∧
        freshShadow.metadata = some oneEmptyFileAt1 ∧ freshShadow.InStep fsGetversion ∧
        ∃ logged, m'.changelog = oneEmptyFileAt1.changelog ++ logged ∧ ∃ s' c',
          freshShadow.receiveAll fsGetversion (restoreLineOn fun s _ _ => (s, .einval))
              (metachangesLogPackets oneEmptyFileAt1.metaversion (loggedLines logged)) = c' ∧
            c'.state = .synchronized ∧ c'.mode = freshShadow.mode ∧ c'.applyErrors = freshShadow.applyErrors ∧
            c'.metadata = some s' ∧ FsAgree m' s' ∧ Tallied s'.chunks ∧
            c'.changelog = freshShadow.changelog ++
              changelogLines oneEmptyFileAt1.metaversion (loggedLines logged) := by
  have hm : oneEmptyFileAt1.Valid := ⟨oneEmptyFile_valid.tallied, oneEmptyFile_valid.bounded⟩
  have hsome : (ChunkOp.runAll oneEmptyFileAt1 twoWrites).isSome = true := by decide
  obtain ⟨m', hrun⟩ := Option.isSome_iff_exists.mp hsome
  have hcheck : (ChunkOp.runAll oneEmptyFileAt1 twoWrites).map
      (fun m' => decide (∀ te ∈ m'.changelog, te.2.Fits) && decide (m'.metaversion < 2 ^ 64)) = some true := by
    decide
  rw [hrun] at hcheck
  simp only [Option.map_some, Option.some.injEq, Bool.and_eq_true, decide_eq_true_eq] at hcheck
  obtain ⟨hfits, hbound⟩ := hcheck
  exact ⟨FsAgree.refl _, hm, hm.tallied, m', hrun, hfits, hbound, rfl, rfl, freshShadow_inStep,
    masterconn_follows_master (fun s _ _ => (s, .einval)) twoWrites (FsAgree.refl _) hm hm.tallied hrun hfits hbound
      rfl rfl freshShadow_inStep⟩

end Follow

end MasterConn

end LizardFs
