import Mathlib
import LizardFs.Lib.ScannedChecksum
import LizardFs.Master.ChunkTable

/-!
# The metadata checksums and their background recalculation

The master keeps three XOR checksums up to date on every change: of the nodes
(`gMetadata->fsNodesChecksum`, over `nodehash`), of the extended attributes
(`gMetadata->xattrChecksum`, over `xattr_data_hash`) and of the chunks
(`gChunksMetadata->chunksChecksum`, over `chunkhash`). Every object stores the
checksum last computed for it, and a change replaces the stored value in the sum
(`fsnodes_update_checksum`, `xattr_update_checksum`, `chunk_update_checksum`).

`ChecksumBackgroundUpdater` recomputes the node and xattr checksums from scratch,
a few buckets per call of `fs_background_checksum_recalculation_a_bit`, and the
chunk checksum by `chunks_update_checksum_a_bit`; when a pass ends it compares
what it rebuilt with what was kept and reports a mismatch. Changes made during a
pass go into the rebuilt sum only for objects whose bucket was already scanned
(`isNodeIncluded`, `isXattrIncluded`, `HASHPOS(chunkid) <
checksumRecalculationPosition`).

Each hash table is a `ScannedChecksum.Table`: the objects by id, the kept sum as
`total` and the sum being rebuilt as `scanned`. The contents of nodes and xattrs
and their checksum functions (`fsnodes_checksum`, `xattr_checksum`) are
parameters; chunks are `Chunk` with `chunkChecksum`. `Sound` is the invariant:
stored checksums fresh, kept sums exact, rebuilt sums exact over the scanned
buckets. Every operation keeps it (`Sound.runOp`), so no pass ever reports a
mismatch (`Sound.run`).
-/

namespace LizardFs

open ScannedChecksum

/-- `ChecksumRecalculatingStep`: `kNone` first, `kDone` last. -/
inductive ChecksumRecalculatingStep where
  | none
  | nodes
  | xattrs
  | chunks
  | done
  deriving DecidableEq, Repr

namespace ChecksumRecalculatingStep

/-- The enumerator's value, which the updater's `>` tests compare. -/
def toNat : ChecksumRecalculatingStep → Nat
  | none => 0
  | nodes => 1
  | xattrs => 2
  | chunks => 3
  | done => 4

/-- `++step`. The source asserts `step != kDone` first; the model keeps `done`. -/
def next : ChecksumRecalculatingStep → ChecksumRecalculatingStep
  | none => nodes
  | nodes => xattrs
  | xattrs => chunks
  | chunks => done
  | done => done

end ChecksumRecalculatingStep

/-- `ChecksumRecalculationStatus`, the result of `chunks_update_checksum_a_bit`. -/
inductive ChecksumRecalculationStatus where
  | inProgress
  | done
  deriving DecidableEq, Repr

/-- Which kept checksum a finished pass found wrong (the `"... checksum mismatch
found, replacing with a new value."` warnings). -/
inductive ChecksumMismatch where
  | fsNodes
  | xattr
  | chunks
  deriving DecidableEq, Repr

/-! ## The hash tables -/

/-- `NODEHASHSIZE`, `1 << NODEHASHBITS`. -/
def nodeHashSize : Nat := 2 ^ 22

/-- `NODEHASHPOS(nodeid)`. -/
def nodeHashPos (nodeid : Nat) : Nat := nodeid &&& (nodeHashSize - 1)

/-- `NODECHECKSUMSEED`. -/
def nodeChecksumSeed : UInt64 := 12345

/-- An xattr is found by its inode and name. -/
structure XattrKey where
  inode : UInt32
  attrname : List UInt8
  deriving DecidableEq, Repr

/-- `XATTR_DATA_HASH_SIZE`. -/
def xattrDataHashSize : Nat := 524288

/-- `xattr_data_hash_fn(inode, anleng, attrname)`, in `uint32_t`. -/
def xattrDataHashFn (inode : UInt32) (attrname : List UInt8) : UInt32 :=
  attrname.foldl (fun hash c => hash * 33 + c.toUInt32) (inode * 5381) &&& (524288 - 1)

/-- The bucket of an xattr. -/
def xattrBucket (k : XattrKey) : Nat := (xattrDataHashFn k.inode k.attrname).toNat

/-- `XATTRCHECKSUMSEED`. -/
def xattrChecksumSeed : UInt64 := 29857986791741783

/-- `HASHSIZE` of the chunk table. -/
def hashSize : Nat := 0x100000

/-- `HASHPOS(chunkid)`: the low bits of `(uint32_t)chunkid`. -/
def hashPos (chunkid : Nat) : Nat := chunkid % 2 ^ 32 &&& 0xFFFFF

theorem nodeHashPos_lt (nodeid : Nat) : nodeHashPos nodeid < nodeHashSize := by
  rw [nodeHashPos, nodeHashSize, Nat.and_two_pow_sub_one_eq_mod]
  exact Nat.mod_lt _ (Nat.two_pow_pos 22)

theorem xattrBucket_lt (k : XattrKey) : xattrBucket k < xattrDataHashSize := by
  rw [xattrBucket, xattrDataHashFn, UInt32.toNat_and]
  exact Nat.lt_of_le_of_lt Nat.and_le_right (by decide)

theorem hashPos_lt (chunkid : Nat) : hashPos chunkid < hashSize := by
  have h : chunkid % 2 ^ 32 &&& 0xFFFFF ≤ 0xFFFFF := Nat.and_le_right
  unfold hashPos hashSize
  omega

/-! ## The state -/

/-- The three tables with their kept and rebuilt sums, the background updater
(`step_`, `position_`, `speedLimit_`) and the chunk pass's
`checksumRecalculationPosition`. -/
structure MetadataChecksums (Node Xattr : Type) where
  /-- `nodehash`, `gMetadata->fsNodesChecksum`, the updater's `fsNodesChecksum` -/
  nodes : Table Nat Node
  /-- `xattr_data_hash`, `gMetadata->xattrChecksum`, the updater's `xattrChecksum` -/
  xattrs : Table XattrKey Xattr
  /-- `chunkhash`, `chunksChecksum`, `chunksChecksumRecalculated` -/
  chunks : Table Nat Chunk
  step : ChecksumRecalculatingStep
  position : Nat
  checksumRecalculationPosition : Nat
  speedLimit : Nat

/-- `ChecksumBackgroundUpdater::isNodeIncluded`. -/
def isNodeIncluded (step : ChecksumRecalculatingStep) (position : Nat) (nodeid : Nat) : Bool :=
  decide (ChecksumRecalculatingStep.nodes.toNat < step.toNat) ||
    (decide (step = .nodes) && decide (nodeHashPos nodeid < position))

/-- `ChecksumBackgroundUpdater::isXattrIncluded`. -/
def isXattrIncluded (step : ChecksumRecalculatingStep) (position : Nat) (k : XattrKey) : Bool :=
  decide (ChecksumRecalculatingStep.xattrs.toNat < step.toNat) ||
    (decide (step = .xattrs) && decide (xattrBucket k < position))

/-- The test of `chunk_update_checksum`: `HASHPOS(chunkid) < checksumRecalculationPosition`. -/
def isChunkIncluded (checksumRecalculationPosition : Nat) (chunkid : Nat) : Bool :=
  decide (hashPos chunkid < checksumRecalculationPosition)

namespace MetadataChecksums

variable {Node Xattr : Type} (nodeChecksum : Node → UInt64) (xattrChecksum : Xattr → UInt64)

/-- The metadata as `fs_loadall` leaves it: `fs_checksum(kForceRecalculate)`
has recomputed every checksum, and the updater is `reset()`. -/
def loaded (nodes : List (Nat × Entry Node)) (xattrs : List (XattrKey × Entry Xattr))
    (chunks : List (Nat × Entry Chunk)) (speedLimit : Nat) : MetadataChecksums Node Xattr where
  nodes := recalculate nodeChecksum nodeChecksumSeed ⟨nodes, 0, nodeChecksumSeed⟩
  xattrs := recalculate xattrChecksum xattrChecksumSeed ⟨xattrs, 0, xattrChecksumSeed⟩
  chunks := recalculate chunkChecksum chunksChecksumSeed ⟨chunks, 0, 0⟩
  step := .none
  position := 0
  checksumRecalculationPosition := 0
  speedLimit := speedLimit

variable (s : MetadataChecksums Node Xattr)

/-- `fsnodes_update_checksum(node)` after the node was changed by `g`. -/
def updateNode (nodeid : Nat) (g : Node → Node) : MetadataChecksums Node Xattr :=
  { s with nodes := update nodeChecksum (isNodeIncluded s.step s.position) nodeid g s.nodes }

/-- `fsnodes_create_node`: the node, with checksum 0, linked into `nodehash`, then
`fsnodes_update_checksum`. The inode pool hands out only unused ids. -/
def createNode (nodeid : Nat) (d : Node) : MetadataChecksums Node Xattr :=
  if nodeid ∈ s.nodes.entries.map Prod.fst then s
  else { s with nodes := insert nodeChecksum (isNodeIncluded s.step s.position) nodeid d s.nodes }

/-- `fsnodes_remove_node`: unlinked from `nodehash`, its checksum out of both sums. -/
def removeNode (nodeid : Nat) : MetadataChecksums Node Xattr :=
  { s with nodes := remove (isNodeIncluded s.step s.position) nodeid s.nodes }

/-- `xattr_update_checksum(xa)` after `xattr_setattr` replaced the value by `g`. -/
def updateXattr (k : XattrKey) (g : Xattr → Xattr) : MetadataChecksums Node Xattr :=
  { s with xattrs := update xattrChecksum (isXattrIncluded s.step s.position) k g s.xattrs }

/-- `xattr_setattr` of a name the inode does not have: a new entry with checksum
0 at the head of its bucket, then `xattr_update_checksum`. -/
def createXattr (k : XattrKey) (d : Xattr) : MetadataChecksums Node Xattr :=
  if k ∈ s.xattrs.entries.map Prod.fst then s
  else { s with xattrs := insert xattrChecksum (isXattrIncluded s.step s.position) k d s.xattrs }

/-- `xattr_removeentry(xa)`. -/
def removeXattr (k : XattrKey) : MetadataChecksums Node Xattr :=
  { s with xattrs := remove (isXattrIncluded s.step s.position) k s.xattrs }

/-- `chunk_update_checksum(c)` after the chunk was changed by `g`. -/
def updateChunk (chunkid : Nat) (g : Chunk → Chunk) : MetadataChecksums Node Xattr :=
  { s with chunks := update chunkChecksum (isChunkIncluded s.checksumRecalculationPosition) chunkid g s.chunks }

/-- `chunk_new(chunkid, version)`: a cleared chunk at the head of its bucket,
then `chunk_update_checksum`. Chunk ids are handed out once. -/
def newChunk (chunkid : Nat) (version : UInt32) : MetadataChecksums Node Xattr :=
  if chunkid ∈ s.chunks.entries.map Prod.fst then s
  else
    let inc := isChunkIncluded s.checksumRecalculationPosition
    { s with chunks := insert chunkChecksum inc chunkid (Chunk.new chunkid version) s.chunks }

/-- `ChunkWorker::deleteUnusedChunks`: a chunk of no file is unlinked and
`chunk_delete`d, and the sums are left alone. -/
def deleteChunk (chunkid : Nat) : MetadataChecksums Node Xattr :=
  match s.chunks.entries.lookup chunkid with
  | some e => if e.data.fileCount = 0 then { s with chunks := drop chunkid s.chunks } else s
  | none => s

/-- `ChecksumBackgroundUpdater::start`: only an idle updater starts. -/
def start : MetadataChecksums Node Xattr :=
  if s.step = .none then { s with step := s.step.next } else s

/-- `ChecksumBackgroundUpdater::incStep`. -/
def incStep : MetadataChecksums Node Xattr := { s with step := s.step.next, position := 0 }

/-- `ChecksumBackgroundUpdater::end`: `updateChecksum()` replaces a kept sum
that differs from the rebuilt one and reports it, then `reset()`. -/
def endRecalculation : MetadataChecksums Node Xattr × List ChecksumMismatch :=
  let nodes := if s.nodes.scanned ≠ s.nodes.total then { s.nodes with total := s.nodes.scanned } else s.nodes
  let xattrs := if s.xattrs.scanned ≠ s.xattrs.total then { s.xattrs with total := s.xattrs.scanned } else s.xattrs
  let mismatches := (if s.nodes.scanned ≠ s.nodes.total then [.fsNodes] else []) ++
    (if s.xattrs.scanned ≠ s.xattrs.total then [.xattr] else [])
  ({ s with
      nodes := { nodes with scanned := nodeChecksumSeed }
      xattrs := { xattrs with scanned := xattrChecksumSeed }
      step := .none
      position := 0 }, mismatches)

/-- The first lines of `chunks_update_checksum_a_bit`: a call at position 0
starts a pass, from the seed. -/
def chunksAtPassStart : Table Nat Chunk :=
  if s.checksumRecalculationPosition = 0 then { s.chunks with scanned := chunksChecksumSeed } else s.chunks

/-- `chunks_update_checksum_a_bit(speedLimit)`: the loop stops after
`speedLimit` chunks, and a loop that reaches the end compares and rewinds the
position. -/
def chunksUpdateChecksumABit :
    MetadataChecksums Node Xattr × ChecksumRecalculationStatus × List ChecksumMismatch :=
  let r := scanLoop chunkChecksum hashPos hashSize s.speedLimit 0 s.checksumRecalculationPosition s.chunksAtPassStart
  if r.2.2 then ({ s with chunks := r.2.1, checksumRecalculationPosition := r.1 }, .inProgress, [])
  else
    let t := r.2.1
    if t.total ≠ t.scanned then
      ({ s with chunks := { t with total := t.scanned }, checksumRecalculationPosition := 0 }, .done, [.chunks])
    else ({ s with chunks := t, checksumRecalculationPosition := 0 }, .done, [])

/-- `fs_background_checksum_recalculation_a_bit`: a few buckets of the current
step, the next step once the table is done; `kDone` ends the pass. -/
def recalculationABit : MetadataChecksums Node Xattr × List ChecksumMismatch :=
  match s.step with
  | .none => (s, [])
  | .nodes =>
    let r := scanLoop nodeChecksum nodeHashPos nodeHashSize s.speedLimit 0 s.position s.nodes
    let s' := { s with nodes := r.2.1, position := r.1 }
    (if s'.position = nodeHashSize then s'.incStep else s', [])
  | .xattrs =>
    let r := scanLoop xattrChecksum xattrBucket xattrDataHashSize s.speedLimit 0 s.position s.xattrs
    let s' := { s with xattrs := r.2.1, position := r.1 }
    (if s'.position = xattrDataHashSize then s'.incStep else s', [])
  | .chunks =>
    let r := s.chunksUpdateChecksumABit
    (if r.2.1 = .done then r.1.incStep else r.1, r.2.2)
  | .done => s.endRecalculation

end MetadataChecksums

/-- What happens to the metadata between two checks: a change of one object
followed by its checksum update, a creation or a removal, the start of a pass,
a new `METADATA_CHECKSUM_RECALCULATION_SPEED` on reload, or one call of the
background recalculation. -/
inductive ChecksumOp (Node Xattr : Type) where
  | updateNode (nodeid : Nat) (g : Node → Node)
  | createNode (nodeid : Nat) (d : Node)
  | removeNode (nodeid : Nat)
  | updateXattr (k : XattrKey) (g : Xattr → Xattr)
  | createXattr (k : XattrKey) (d : Xattr)
  | removeXattr (k : XattrKey)
  | updateChunk (chunkid : Nat) (g : Chunk → Chunk)
  | newChunk (chunkid : Nat) (version : UInt32)
  | deleteChunk (chunkid : Nat)
  | start
  | setSpeedLimit (value : Nat)
  | recalculationABit

namespace MetadataChecksums

variable {Node Xattr : Type} (nodeChecksum : Node → UInt64) (xattrChecksum : Xattr → UInt64)

/-- One operation, and the mismatches it reported. -/
def runOp (s : MetadataChecksums Node Xattr) : ChecksumOp Node Xattr → MetadataChecksums Node Xattr × List ChecksumMismatch
  | .updateNode i g => (s.updateNode nodeChecksum i g, [])
  | .createNode i d => (s.createNode nodeChecksum i d, [])
  | .removeNode i => (s.removeNode i, [])
  | .updateXattr k g => (s.updateXattr xattrChecksum k g, [])
  | .createXattr k d => (s.createXattr xattrChecksum k d, [])
  | .removeXattr k => (s.removeXattr k, [])
  | .updateChunk i g => (s.updateChunk i g, [])
  | .newChunk i v => (s.newChunk i v, [])
  | .deleteChunk i => (s.deleteChunk i, [])
  | .start => (s.start, [])
  | .setSpeedLimit v => ({ s with speedLimit := v }, [])
  | .recalculationABit => s.recalculationABit nodeChecksum xattrChecksum

/-- A run of operations, and every mismatch reported along it. -/
def run (s : MetadataChecksums Node Xattr) : List (ChecksumOp Node Xattr) → MetadataChecksums Node Xattr × List ChecksumMismatch
  | [] => (s, [])
  | op :: ops =>
    let r := s.runOp nodeChecksum xattrChecksum op
    let r' := r.1.run ops
    (r'.1, r.2 ++ r'.2)

/-- Every stored checksum is fresh and every kept sum exact; the rebuilt node
and xattr sums are exact over what the updater counts as included, the rebuilt
chunk sum over the buckets below the chunk pass's position while one is under
way; an idle updater is at position 0. -/
structure Sound (s : MetadataChecksums Node Xattr) : Prop where
  nodes : Tracks nodeChecksum nodeChecksumSeed s.nodes
  xattrs : Tracks xattrChecksum xattrChecksumSeed s.xattrs
  chunks : Tracks chunkChecksum chunksChecksumSeed s.chunks
  nodesScanned : Scanned nodeChecksumSeed (isNodeIncluded s.step s.position) s.nodes
  xattrsScanned : Scanned xattrChecksumSeed (isXattrIncluded s.step s.position) s.xattrs
  chunksScanned : 0 < s.checksumRecalculationPosition →
    Scanned chunksChecksumSeed (isChunkIncluded s.checksumRecalculationPosition) s.chunks
  idle : s.step = .none → s.position = 0

end MetadataChecksums

/-! ## Every operation keeps `Sound` -/

namespace MetadataChecksums

variable {Node Xattr : Type} {nodeChecksum : Node → UInt64} {xattrChecksum : Xattr → UInt64}
  {s : MetadataChecksums Node Xattr}

/-- A chunk of no file has checksum 0. -/
theorem chunkChecksum_of_fileCount {c : Chunk} (h : c.fileCount = 0) : chunkChecksum c = 0 := by
  rw [chunkChecksum, if_pos h]

/-- The metadata just loaded is sound: the updater is idle and includes nothing. -/
theorem Sound.loaded {nodes : List (Nat × Entry Node)} {xattrs : List (XattrKey × Entry Xattr)}
    {chunks : List (Nat × Entry Chunk)} (hn : (nodes.map Prod.fst).Nodup) (hx : (xattrs.map Prod.fst).Nodup)
    (hc : (chunks.map Prod.fst).Nodup) (speedLimit : Nat) :
    (loaded nodeChecksum xattrChecksum nodes xattrs chunks speedLimit).Sound nodeChecksum xattrChecksum where
  nodes := Tracks.recalculate hn
  xattrs := Tracks.recalculate hx
  chunks := Tracks.recalculate hc
  nodesScanned := (scanned_of_none rfl).congr fun _ _ => by
    simp [MetadataChecksums.loaded, isNodeIncluded, ChecksumRecalculatingStep.toNat]
  xattrsScanned := (scanned_of_none rfl).congr fun _ _ => by
    simp [MetadataChecksums.loaded, isXattrIncluded, ChecksumRecalculatingStep.toNat]
  chunksScanned := fun h => absurd h (Nat.lt_irrefl 0)
  idle := fun _ => rfl

theorem Sound.updateNode (hs : s.Sound nodeChecksum xattrChecksum) (i : Nat) (g : Node → Node) :
    (s.updateNode nodeChecksum i g).Sound nodeChecksum xattrChecksum :=
  { hs with nodes := hs.nodes.update i g, nodesScanned := hs.nodesScanned.update hs.nodes.unique i g }

theorem Sound.createNode (hs : s.Sound nodeChecksum xattrChecksum) (i : Nat) (d : Node) :
    (s.createNode nodeChecksum i d).Sound nodeChecksum xattrChecksum := by
  unfold MetadataChecksums.createNode
  split
  · exact hs
  · next hi => exact { hs with nodes := hs.nodes.insert hi d, nodesScanned := hs.nodesScanned.insert hs.nodes.unique hi d }

theorem Sound.removeNode (hs : s.Sound nodeChecksum xattrChecksum) (i : Nat) :
    (s.removeNode i).Sound nodeChecksum xattrChecksum :=
  { hs with nodes := hs.nodes.remove i, nodesScanned := hs.nodesScanned.remove hs.nodes.unique i }

theorem Sound.updateXattr (hs : s.Sound nodeChecksum xattrChecksum) (k : XattrKey) (g : Xattr → Xattr) :
    (s.updateXattr xattrChecksum k g).Sound nodeChecksum xattrChecksum :=
  { hs with xattrs := hs.xattrs.update k g, xattrsScanned := hs.xattrsScanned.update hs.xattrs.unique k g }

theorem Sound.createXattr (hs : s.Sound nodeChecksum xattrChecksum) (k : XattrKey) (d : Xattr) :
    (s.createXattr xattrChecksum k d).Sound nodeChecksum xattrChecksum := by
  unfold MetadataChecksums.createXattr
  split
  · exact hs
  · next hk =>
    exact { hs with xattrs := hs.xattrs.insert hk d, xattrsScanned := hs.xattrsScanned.insert hs.xattrs.unique hk d }

theorem Sound.removeXattr (hs : s.Sound nodeChecksum xattrChecksum) (k : XattrKey) :
    (s.removeXattr k).Sound nodeChecksum xattrChecksum :=
  { hs with xattrs := hs.xattrs.remove k, xattrsScanned := hs.xattrsScanned.remove hs.xattrs.unique k }

theorem Sound.updateChunk (hs : s.Sound nodeChecksum xattrChecksum) (i : Nat) (g : Chunk → Chunk) :
    (s.updateChunk i g).Sound nodeChecksum xattrChecksum :=
  { hs with chunks := hs.chunks.update i g,
            chunksScanned := fun h => (hs.chunksScanned h).update hs.chunks.unique i g }

theorem Sound.newChunk (hs : s.Sound nodeChecksum xattrChecksum) (i : Nat) (version : UInt32) :
    (s.newChunk i version).Sound nodeChecksum xattrChecksum := by
  unfold MetadataChecksums.newChunk
  split
  · exact hs
  · next hi =>
    exact { hs with chunks := hs.chunks.insert hi _,
                    chunksScanned := fun h => (hs.chunksScanned h).insert hs.chunks.unique hi _ }

theorem Sound.deleteChunk (hs : s.Sound nodeChecksum xattrChecksum) (i : Nat) :
    (s.deleteChunk i).Sound nodeChecksum xattrChecksum := by
  unfold MetadataChecksums.deleteChunk
  split
  · next e he =>
    split
    · next hfiles =>
      -- the stored checksum of a chunk of no file is 0: dropping it leaves the sums right
      have h0 : ∀ e', s.chunks.entries.lookup i = some e' → e'.checksum = 0 := by
        intro e' he'
        obtain rfl : e = e' := Option.some.inj (he.symm.trans he')
        rw [hs.chunks.current _ (mem_of_lookup he), chunkChecksum_of_fileCount hfiles]
      exact { hs with chunks := hs.chunks.drop h0,
                      chunksScanned := fun h => (hs.chunksScanned h).drop hs.chunks.unique h0 }
    · exact hs
  · exact hs

/-- `start` moves an idle updater to the nodes at position 0, where it includes
nothing yet. -/
theorem Sound.start (hs : s.Sound nodeChecksum xattrChecksum) : s.start.Sound nodeChecksum xattrChecksum := by
  unfold MetadataChecksums.start
  split
  · next hstep =>
    have hpos := hs.idle hstep
    exact { hs with
      nodesScanned := hs.nodesScanned.congr fun _ _ => by
        simp [isNodeIncluded, hstep, hpos, ChecksumRecalculatingStep.toNat, ChecksumRecalculatingStep.next]
      xattrsScanned := hs.xattrsScanned.congr fun _ _ => by
        simp [isXattrIncluded, hstep, ChecksumRecalculatingStep.toNat, ChecksumRecalculatingStep.next]
      idle := fun h => by simp [hstep, ChecksumRecalculatingStep.next] at h }
  · exact hs

theorem Sound.setSpeedLimit (hs : s.Sound nodeChecksum xattrChecksum) (v : Nat) :
    ({ s with speedLimit := v } : MetadataChecksums Node Xattr).Sound nodeChecksum xattrChecksum :=
  { hs with }

/-! ### The background steps -/

/-- A call in the nodes step: the scanned buckets are those below the new position. -/
theorem Sound.scanNodes (hs : s.Sound nodeChecksum xattrChecksum) (hstep : s.step = .nodes) :
    let r := scanLoop nodeChecksum nodeHashPos nodeHashSize s.speedLimit 0 s.position s.nodes
    ({ s with nodes := r.2.1, position := r.1 } : MetadataChecksums Node Xattr).Sound nodeChecksum xattrChecksum ∧
      (r.1 = nodeHashSize → ({ s with nodes := r.2.1, position := r.1 } : MetadataChecksums Node Xattr).incStep.Sound
        nodeChecksum xattrChecksum) := by
  intro r
  have hsc : Scanned nodeChecksumSeed (fun i => decide (nodeHashPos i < s.position)) s.nodes :=
    hs.nodesScanned.congr fun _ _ => by simp [isNodeIncluded, hstep]
  obtain ⟨h₁, h₂, -⟩ := scanLoop_spec 0 s.position hs.nodes hsc
  have ht : Tracks nodeChecksum nodeChecksumSeed r.2.1 := h₁ ▸ hs.nodes.with_scanned _
  -- the xattrs are not included before their own step, whatever the position
  have hx : ∀ p, Scanned xattrChecksumSeed (isXattrIncluded .nodes p) s.xattrs := fun _ =>
    hs.xattrsScanned.congr fun _ _ => by simp [isXattrIncluded, hstep, ChecksumRecalculatingStep.toNat]
  refine ⟨?_, fun hend => ?_⟩
  · exact { hs with
      nodes := ht
      nodesScanned := h₂.congr fun _ _ => by simp [isNodeIncluded, hstep, r]
      xattrsScanned := by simpa [hstep] using hx r.1
      idle := fun h => by simp [hstep] at h }
  -- all buckets scanned: every node is included from the xattrs step on
  have hend' : (scanLoop nodeChecksum nodeHashPos nodeHashSize s.speedLimit 0 s.position s.nodes).1 = nodeHashSize :=
    hend
  exact { hs with
    nodes := ht
    nodesScanned := h₂.congr fun x _ => by
      simp [isNodeIncluded, incStep, hstep, ChecksumRecalculatingStep.next, ChecksumRecalculatingStep.toNat,
        hend', nodeHashPos_lt x.1]
    xattrsScanned := (hx 0).congr fun _ _ => by
      simp [isXattrIncluded, incStep, hstep, ChecksumRecalculatingStep.next, ChecksumRecalculatingStep.toNat]
    idle := fun h => by simp [incStep, hstep, ChecksumRecalculatingStep.next] at h }

/-- A call in the xattrs step, the same over the xattr table. -/
theorem Sound.scanXattrs (hs : s.Sound nodeChecksum xattrChecksum) (hstep : s.step = .xattrs) :
    let r := scanLoop xattrChecksum xattrBucket xattrDataHashSize s.speedLimit 0 s.position s.xattrs
    ({ s with xattrs := r.2.1, position := r.1 } : MetadataChecksums Node Xattr).Sound nodeChecksum xattrChecksum ∧
      (r.1 = xattrDataHashSize → ({ s with xattrs := r.2.1, position := r.1 } : MetadataChecksums Node Xattr).incStep.Sound
        nodeChecksum xattrChecksum) := by
  intro r
  have hsc : Scanned xattrChecksumSeed (fun k => decide (xattrBucket k < s.position)) s.xattrs :=
    hs.xattrsScanned.congr fun _ _ => by simp [isXattrIncluded, hstep, ChecksumRecalculatingStep.toNat]
  obtain ⟨h₁, h₂, -⟩ := scanLoop_spec 0 s.position hs.xattrs hsc
  have ht : Tracks xattrChecksum xattrChecksumSeed r.2.1 := h₁ ▸ hs.xattrs.with_scanned _
  -- every node is included after the nodes step, whatever the position
  have hn : Scanned nodeChecksumSeed (fun _ => true) s.nodes :=
    hs.nodesScanned.congr fun _ _ => by simp [isNodeIncluded, hstep, ChecksumRecalculatingStep.toNat]
  refine ⟨?_, fun hend => ?_⟩
  · exact { hs with
      xattrs := ht
      xattrsScanned := h₂.congr fun _ _ => by simp [isXattrIncluded, hstep, r]
      nodesScanned := hn.congr fun _ _ => by simp [isNodeIncluded, hstep, ChecksumRecalculatingStep.toNat]
      idle := fun h => by simp [hstep] at h }
  have hend' : (scanLoop xattrChecksum xattrBucket xattrDataHashSize s.speedLimit 0 s.position s.xattrs).1 =
      xattrDataHashSize := hend
  exact { hs with
    xattrs := ht
    xattrsScanned := h₂.congr fun x _ => by
      simp [isXattrIncluded, incStep, hstep, ChecksumRecalculatingStep.next, ChecksumRecalculatingStep.toNat,
        hend', xattrBucket_lt x.1]
    nodesScanned := hn.congr fun _ _ => by
      simp [isNodeIncluded, incStep, hstep, ChecksumRecalculatingStep.next, ChecksumRecalculatingStep.toNat]
    idle := fun h => by simp [incStep, hstep, ChecksumRecalculatingStep.next] at h }

/-- `chunks_update_checksum_a_bit` keeps `Sound` and never finds a mismatch:
a pass at position 0 starts from the seed, and a loop that reaches the end has
included every chunk. -/
theorem Sound.chunksUpdateChecksumABit (hs : s.Sound nodeChecksum xattrChecksum) :
    let r := s.chunksUpdateChecksumABit
    r.1.Sound nodeChecksum xattrChecksum ∧ r.1.step = s.step ∧ r.2.2 = [] := by
  intro r
  -- the table the loop starts from, with the buckets below the position scanned
  have ht₀ : Tracks chunkChecksum chunksChecksumSeed s.chunksAtPassStart := by
    unfold chunksAtPassStart
    split
    · exact hs.chunks.with_scanned _
    · exact hs.chunks
  have hs₀ : Scanned chunksChecksumSeed (fun i => decide (hashPos i < s.checksumRecalculationPosition))
      s.chunksAtPassStart := by
    unfold chunksAtPassStart
    split
    · next h => exact (scanned_of_none rfl).congr fun _ _ => by simp [h]
    · next h => exact hs.chunksScanned (Nat.pos_of_ne_zero h)
  obtain ⟨h₁, h₂, h₃⟩ := scanLoop_spec 0 s.checksumRecalculationPosition ht₀ hs₀
  have ht : Tracks chunkChecksum chunksChecksumSeed
      (scanLoop chunkChecksum hashPos hashSize s.speedLimit 0 s.checksumRecalculationPosition s.chunksAtPassStart).2.1 :=
    h₁ ▸ ht₀.with_scanned _
  unfold r MetadataChecksums.chunksUpdateChecksumABit
  dsimp only
  split
  · next hstop =>
    exact ⟨{ hs with chunks := ht, chunksScanned := fun _ => h₂ }, rfl, rfl⟩
  · next hstop =>
    -- the loop ran to the end: every chunk is included, the rebuilt sum is the kept one
    have hsame := scanned_eq_total ht h₂ fun x _ =>
      decide_eq_true (Nat.lt_of_lt_of_le (hashPos_lt x.1) (h₃ (by simpa using hstop)))
    rw [if_neg (not_not.mpr hsame.symm)]
    exact ⟨{ hs with chunks := ht, chunksScanned := fun h => absurd h (Nat.lt_irrefl 0) }, rfl, rfl⟩

/-- The end of a pass: every node and xattr is included, so both rebuilt sums
are the kept ones and nothing is reported; `reset()` leaves an idle updater. -/
theorem Sound.endRecalculation (hs : s.Sound nodeChecksum xattrChecksum) (hstep : s.step = .done) :
    s.endRecalculation.1.Sound nodeChecksum xattrChecksum ∧ s.endRecalculation.2 = [] := by
  have hn := scanned_eq_total hs.nodes hs.nodesScanned fun _ _ => by
    simp [isNodeIncluded, hstep, ChecksumRecalculatingStep.toNat]
  have hx := scanned_eq_total hs.xattrs hs.xattrsScanned fun _ _ => by
    simp [isXattrIncluded, hstep, ChecksumRecalculatingStep.toNat]
  unfold MetadataChecksums.endRecalculation
  simp only [hn, hx, ne_eq, not_true_eq_false, if_false, List.append_nil, and_true]
  exact { hs with
    nodes := hs.nodes.with_scanned _
    xattrs := hs.xattrs.with_scanned _
    nodesScanned := (scanned_of_none rfl).congr fun _ _ => by simp [isNodeIncluded, ChecksumRecalculatingStep.toNat]
    xattrsScanned := (scanned_of_none rfl).congr fun _ _ => by simp [isXattrIncluded, ChecksumRecalculatingStep.toNat]
    idle := fun _ => rfl }

/-- The chunks step ended: the updater moves on to `kDone`, where everything is
included. -/
theorem Sound.incStep_of_chunks (hs : s.Sound nodeChecksum xattrChecksum) (hstep : s.step = .chunks) :
    s.incStep.Sound nodeChecksum xattrChecksum :=
  { hs with
    nodesScanned := hs.nodesScanned.congr fun _ _ => by
      simp [isNodeIncluded, incStep, hstep, ChecksumRecalculatingStep.next, ChecksumRecalculatingStep.toNat]
    xattrsScanned := hs.xattrsScanned.congr fun _ _ => by
      simp [isXattrIncluded, incStep, hstep, ChecksumRecalculatingStep.next, ChecksumRecalculatingStep.toNat]
    idle := fun h => by simp [incStep, hstep, ChecksumRecalculatingStep.next] at h }

/-- One call of `fs_background_checksum_recalculation_a_bit`, by the step it is in. -/
theorem Sound.recalculationABit (hs : s.Sound nodeChecksum xattrChecksum) :
    (s.recalculationABit nodeChecksum xattrChecksum).1.Sound nodeChecksum xattrChecksum ∧
      (s.recalculationABit nodeChecksum xattrChecksum).2 = [] := by
  unfold MetadataChecksums.recalculationABit
  split
  · next hstep => exact ⟨hs, rfl⟩
  · next hstep =>
    obtain ⟨hmid, hend⟩ := hs.scanNodes hstep
    refine ⟨?_, rfl⟩
    dsimp only
    split
    · next h => exact hend h
    · exact hmid
  · next hstep =>
    obtain ⟨hmid, hend⟩ := hs.scanXattrs hstep
    refine ⟨?_, rfl⟩
    dsimp only
    split
    · next h => exact hend h
    · exact hmid
  · next hstep =>
    obtain ⟨hc, hcstep, hnone⟩ := hs.chunksUpdateChecksumABit
    refine ⟨?_, hnone⟩
    dsimp only
    split
    · exact hc.incStep_of_chunks (hcstep.trans hstep)
    · exact hc
  · next hstep => exact hs.endRecalculation hstep

/-- Every operation keeps `Sound` and reports no mismatch. -/
theorem Sound.runOp (hs : s.Sound nodeChecksum xattrChecksum) (op : ChecksumOp Node Xattr) :
    (s.runOp nodeChecksum xattrChecksum op).1.Sound nodeChecksum xattrChecksum ∧
      (s.runOp nodeChecksum xattrChecksum op).2 = [] := by
  cases op with
  | updateNode i g => exact ⟨hs.updateNode i g, rfl⟩
  | createNode i d => exact ⟨hs.createNode i d, rfl⟩
  | removeNode i => exact ⟨hs.removeNode i, rfl⟩
  | updateXattr k g => exact ⟨hs.updateXattr k g, rfl⟩
  | createXattr k d => exact ⟨hs.createXattr k d, rfl⟩
  | removeXattr k => exact ⟨hs.removeXattr k, rfl⟩
  | updateChunk i g => exact ⟨hs.updateChunk i g, rfl⟩
  | newChunk i v => exact ⟨hs.newChunk i v, rfl⟩
  | deleteChunk i => exact ⟨hs.deleteChunk i, rfl⟩
  | start => exact ⟨hs.start, rfl⟩
  | setSpeedLimit v => exact ⟨hs.setSpeedLimit v, rfl⟩
  | recalculationABit => exact hs.recalculationABit

/-- Along any run from a sound state the state stays sound and nothing is reported. -/
theorem Sound.run (hs : s.Sound nodeChecksum xattrChecksum) (ops : List (ChecksumOp Node Xattr)) :
    (s.run nodeChecksum xattrChecksum ops).1.Sound nodeChecksum xattrChecksum ∧
      (s.run nodeChecksum xattrChecksum ops).2 = [] := by
  induction ops generalizing s with
  | nil => exact ⟨hs, rfl⟩
  | cons op ops ih =>
    obtain ⟨hs₁, hr₁⟩ := hs.runOp op
    obtain ⟨hs₂, hr₂⟩ := ih hs₁
    exact ⟨hs₂, by simp only [MetadataChecksums.run, hr₁, hr₂, List.append_nil]⟩

/-- From the metadata as loaded, along any run of changes and background calls
with any speed limits: every stored checksum is fresh, every kept sum is the
seed XORed with all stored checksums, the rebuilt sums are exact over the
scanned buckets, and no pass reports a mismatch. -/
theorem incremental_checksums_match_recomputed (nodeChecksum : Node → UInt64) (xattrChecksum : Xattr → UInt64)
    (nodes : List (Nat × Entry Node)) (xattrs : List (XattrKey × Entry Xattr)) (chunks : List (Nat × Entry Chunk))
    (hn : (nodes.map Prod.fst).Nodup) (hx : (xattrs.map Prod.fst).Nodup) (hc : (chunks.map Prod.fst).Nodup)
    (speedLimit : Nat) (ops : List (ChecksumOp Node Xattr)) :
    let r := (loaded nodeChecksum xattrChecksum nodes xattrs chunks speedLimit).run nodeChecksum xattrChecksum ops
    r.1.Sound nodeChecksum xattrChecksum ∧ r.2 = [] :=
  (Sound.loaded hn hx hc speedLimit).run ops

/-- Two nodes, an xattr and a chunk loaded; a node changed, a pass started, a
node created during it, and two calls of the pass. -/
theorem sample_run_checksums_match :
    ([(1, (⟨5, 0⟩ : Entry Nat)), (2, ⟨7, 0⟩)].map Prod.fst).Nodup ∧
      ([((⟨1, [97]⟩ : XattrKey), (⟨3, 0⟩ : Entry Nat))].map Prod.fst).Nodup ∧
      ([(1, (⟨Chunk.new 1 1, 0⟩ : Entry Chunk))].map Prod.fst).Nodup ∧
      let r := (loaded Nat.toUInt64 Nat.toUInt64 [(1, ⟨5, 0⟩), (2, ⟨7, 0⟩)] [(⟨1, [97]⟩, ⟨3, 0⟩)]
        [(1, ⟨Chunk.new 1 1, 0⟩)] 100).run Nat.toUInt64 Nat.toUInt64
        [.updateNode 1 (· + 1), .start, .recalculationABit, .createNode 3 9, .recalculationABit]
      r.1.Sound Nat.toUInt64 Nat.toUInt64 ∧ r.2 = [] :=
  ⟨by decide, by decide, by decide,
    incremental_checksums_match_recomputed Nat.toUInt64 Nat.toUInt64 _ _ _ (by decide) (by decide) (by decide) 100 _⟩

end MetadataChecksums

end LizardFs
