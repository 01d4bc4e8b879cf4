import Mathlib.Logic.Relation
import LizardFs.Master.Nodes

/-!
# What a session mounted on a subdirectory can reach

A client may mount a subdirectory `R` of the file system; its session's
`rootinode` is then `R`, which it addresses as `SPECIAL_INODE_ROOT`. This module
shows what `fsnodesGetNodeForOperation` and `fsLookup` (`fs_lookup`) let such a
session reach: `R`, the nodes below `R` through directory entries, and — whatever
their recorded path — the nodes in the trash and the reserved nodes, which
`fsnodes_isancestor_or_node_reserved_or_trash` admits for every session.

The walk of `fsnodes_isancestor` follows `parent` links; it says something about
directory entries because of the two invariants the source relies on: every parent
of a node has the node among its entries (`ParentsListed`), and a directory has at
most one parent (`DirsSingleParent`, asserted in the walk).
-/

namespace LizardFs

/-! ## Directory entries -/

/-- Directory `d` has an entry naming node `x`. -/
def EntryOf (nodes : Nat → Option FsNode) (d x : Nat) : Prop :=
  ∃ dn name, nodes d = some dn ∧ (name, x) ∈ dn.entries

/-- Node `x` lies below `r` through directory entries. -/
def Below (nodes : Nat → Option FsNode) (r x : Nat) : Prop := Relation.TransGen (EntryOf nodes) r x

/-- Every parent of a node has the node among its entries. -/
def ParentsListed (nodes : Nat → Option FsNode) : Prop :=
  ∀ x n, nodes x = some n → ∀ d ∈ n.parent, EntryOf nodes d x

/-- A directory has at most one parent. -/
def DirsSingleParent (nodes : Nat → Option FsNode) : Prop :=
  ∀ d n, nodes d = some n → n.type = .directory → n.parent.length ≤ 1

/-- `fsnodes_namecheck(name) >= 0`: not empty, at most `MAXFNAMELENG = 255` bytes,
not `.` or `..`, and no `\0` or `/`. -/
def fsnodesNamecheck (name : List UInt8) : Bool :=
  !(name.length = 0 || name.length > 255) && !(name = [46] || name = [46, 46]) &&
    name.all fun c => c ≠ 0 && c ≠ 47

/-- `fs_lookup(context, parent, name, inode, attr)`: the inode number it returns.
`.` and `..` of the session's root are `SPECIAL_INODE_ROOT`, and so is a parent
that is the session's root. -/
def fsLookup (nodes : Nat → Option FsNode) (ctx : FsContext) (parent : Nat) (name : List UInt8) :
    Except Status Nat :=
  match verifySession ctx .readOnly .notMeta with
  | .ok =>
    match fsnodesGetNodeForOperation nodes ctx .directory modeMaskX parent with
    | .error e => .error e
    | .ok (wdId, wd) =>
      if name = [46] then .ok (if wdId = ctx.rootinode then specialInodeRoot else wdId)
      else if name = [46, 46] then
        if wdId = ctx.rootinode then .ok specialInodeRoot
        else
          match wd.parent with
          | p :: _ => .ok (if p = ctx.rootinode then specialInodeRoot else p)
          | [] => .ok specialInodeRoot
      else if !fsnodesNamecheck name then .error .einval
      else
        match wd.entries.find? (·.1 == name) with
        | some (_, child) => .ok child
        | none => .error .enoent
  | e => .error e

section Walk

variable {nodes : Nat → Option FsNode} {r : Nat}

/-- **The walk is sound**: when it meets `r` from directory `d`, `d` is `r` or lies
below it. By induction on the fuel, one parent link per step. -/
theorem climbsTo_sound (hl : ParentsListed nodes) :
    ∀ fuel d, climbsTo nodes r fuel d = true → Relation.ReflTransGen (EntryOf nodes) r d := by
  intro fuel
  induction fuel with
  | zero =>
    intro d h
    simp only [climbsTo, Bool.false_eq_true] at h
  | succ fuel ih =>
    intro d h
    simp only [climbsTo] at h
    split at h
    · cases h
    rename_i dn hd
    rcases Bool.or_eq_true_iff.mp h with he | hp
    · rw [beq_iff_eq.mp he]
    · -- the walk went on to the first parent, which lists `d`
      split at hp
      · cases hp
      rename_i p rest hpar
      have hentry : EntryOf nodes p d := hl d dn hd p (by simp only [hpar, List.mem_cons, true_or])
      exact (ih p hp).tail hentry

/-- When `fsnodes_isancestor(r, node)` holds of node `x`, `x` lies below `r`. -/
theorem fsnodesIsancestor_sound (hl : ParentsListed nodes) {x : Nat} {n : FsNode} (hx : nodes x = some n)
    (h : fsnodesIsancestor nodes r n = true) : Below nodes r x := by
  obtain ⟨d, hd, hc⟩ := List.any_eq_true.mp h
  exact Relation.TransGen.tail' (climbsTo_sound hl _ d hc) (hl x n hx d hd)

/-- For a directory the ancestor test is a test of its only parent. -/
theorem fsnodesIsancestor_dir (hl : ParentsListed nodes) (hs : DirsSingleParent nodes) {x : Nat} {n : FsNode}
    (hx : nodes x = some n) (hdir : n.type = .directory) (h : fsnodesIsancestor nodes r n = true) :
    ∃ p rest, n.parent = p :: rest ∧ Relation.ReflTransGen (EntryOf nodes) r p := by
  obtain ⟨d, hd, hc⟩ := List.any_eq_true.mp h
  have hlen := hs x n hx hdir
  match hpar : n.parent, hd with
  | [p], hd =>
    rw [List.mem_singleton.mp hd] at hc
    exact ⟨p, [], rfl, climbsTo_sound hl _ p hc⟩
  | p :: q :: rest, _ =>
    rw [hpar] at hlen
    simp only [List.length_cons] at hlen
    omega

end Walk

/-! ## What a session on a subdirectory finds -/

section Session

variable {nodes : Nat → Option FsNode} {ctx : FsContext} {s : SessionData} {inode id : Nat} {p : FsNode}

/-- **The session's lookup, on a subdirectory**: the session's root, for
`SPECIAL_INODE_ROOT`; or the node of the inode, when it is in the trash or reserved
or lies below the root by the walk. -/
theorem sessionNode_subdir (hs : ctx.session = some s) (h0 : s.rootinode ≠ 0) (h1 : s.rootinode ≠ specialInodeRoot)
    (h : sessionNode nodes ctx inode = .ok (id, p)) :
    (id = s.rootinode ∧ inode = specialInodeRoot ∧ nodes id = some p ∧ p.type = .directory) ∨
    (id = inode ∧ nodes id = some p ∧ fsnodesIsancestorOrNodeReservedOrTrash nodes s.rootinode p = true) := by
  unfold sessionNode at h
  rw [hs] at h
  simp only [h1, h0, or_self, ↓reduceIte] at h
  split at h
  · cases h
  rename_i rn hrn
  split at h
  · cases h
  rename_i hdir
  split at h
  · -- `SPECIAL_INODE_ROOT` names the session's root
    rename_i hi
    cases h
    exact .inl ⟨rfl, hi, hrn, by simpa using hdir⟩
  split at h
  · cases h
  rename_i q hq
  split at h
  · cases h
  rename_i hanc
  cases h
  exact .inr ⟨rfl, hq, by simpa using hanc⟩

/-- Every node the session finds is its root, below its root, or in the trash or
reserved. -/
theorem sessionNode_confined (hl : ParentsListed nodes) (hs : ctx.session = some s) (h0 : s.rootinode ≠ 0)
    (h1 : s.rootinode ≠ specialInodeRoot) (h : sessionNode nodes ctx inode = .ok (id, p)) :
    id = s.rootinode ∨ Below nodes s.rootinode id ∨ p.type = .trash ∨ p.type = .reserved := by
  rcases sessionNode_subdir hs h0 h1 h with ⟨hid, -, -, -⟩ | ⟨-, hp, hanc⟩
  · exact .inl hid
  · simp only [fsnodesIsancestorOrNodeReservedOrTrash, Bool.or_eq_true, decide_eq_true_eq] at hanc
    rcases hanc with (hres | htr) | hanc
    · exact .inr (.inr (.inr hres))
    · exact .inr (.inr (.inl htr))
    · exact .inr (.inl (fsnodesIsancestor_sound hl hp hanc))

/-- A directory the session finds is its root or lies below it, through its only
parent. -/
theorem sessionNode_dir (hl : ParentsListed nodes) (hsp : DirsSingleParent nodes) (hs : ctx.session = some s)
    (h0 : s.rootinode ≠ 0) (h1 : s.rootinode ≠ specialInodeRoot) (h : sessionNode nodes ctx inode = .ok (id, p))
    (hdir : p.type = .directory) :
    id = s.rootinode ∨ (Below nodes s.rootinode id ∧
      ∃ q rest, p.parent = q :: rest ∧ Relation.ReflTransGen (EntryOf nodes) s.rootinode q) := by
  rcases sessionNode_subdir hs h0 h1 h with ⟨hid, -, -, -⟩ | ⟨-, hp, hanc⟩
  · exact .inl hid
  · simp only [fsnodesIsancestorOrNodeReservedOrTrash, hdir, reduceCtorEq, decide_false, Bool.or_false,
      Bool.false_or] at hanc
    exact .inr ⟨fsnodesIsancestor_sound hl hp hanc, fsnodesIsancestor_dir hl hsp hp hdir hanc⟩

/-- What `fs_lookup` returns is the session's root, below it, or found through the
entries of a directory below it. -/
theorem fsLookup_confined (hl : ParentsListed nodes) (hsp : DirsSingleParent nodes) (hs : ctx.session = some s)
    (h0 : s.rootinode ≠ 0) (h1 : s.rootinode ≠ specialInodeRoot) {parent : Nat} {name : List UInt8} {x : Nat}
    (h : fsLookup nodes ctx parent name = .ok x) : x = specialInodeRoot ∨ Below nodes s.rootinode x := by
  have hroot : ctx.rootinode = s.rootinode := by simp only [FsContext.rootinode, hs, Option.map_some, Option.getD_some]
  unfold fsLookup at h
  split at h
  case h_2 => cases h
  split at h
  · cases h
  rename_i wdId wd hg
  obtain ⟨hsn, hc⟩ := fsnodesGetNodeForOperation_eq_ok hg
  have hdir : wd.type = .directory := by
    simp only [ExpectedNodeType.check] at hc
    split at hc
    · cases hc
    · rename_i hne
      simpa using hne
  have hwd := sessionNode_dir hl hsp hs h0 h1 hsn hdir
  rw [hroot] at h
  split at h
  · -- `.`: the directory itself
    cases h
    split
    · exact .inl rfl
    · rename_i hne
      exact .inr (hwd.resolve_left hne).1
  split at h
  · -- `..`: the only parent of a directory below the root
    split at h
    · cases h
      exact .inl rfl
    rename_i hne
    obtain ⟨-, q, rest, hpar, hq⟩ := hwd.resolve_left hne
    rw [hpar] at h
    simp only [Except.ok.injEq] at h
    subst h
    split
    · exact .inl rfl
    · rename_i hqr
      exact .inr ((Relation.reflTransGen_iff_eq_or_transGen.mp hq).resolve_left fun he => hqr he)
  split at h
  · cases h
  split at h
  · -- an entry of the directory
    rename_i nm child hfind
    cases h
    have hentry : EntryOf nodes wdId x :=
      ⟨wd, nm, (sessionNode_eq_ok hsn).1, List.mem_of_find?_eq_some hfind⟩
    rcases hwd with hid | ⟨hbelow, -⟩
    · rw [← hid]
      exact .inr (.single hentry)
    · exact .inr (hbelow.tail hentry)
  · cases h

end Session

/-! ## Confinement -/

/-- A root directory 1 with a directory `a` (2), holding a file `f` (4), and a
node 3 in the trash, deleted from the root directory. -/
def rootWithTrash : Nat → Option FsNode
  | 1 => some ⟨.directory, [], [([97], 2)], 1, [], 0, 0, 0⟩
  | 2 => some ⟨.directory, [1], [([102], 4)], 1, [], 0, 0, 0⟩
  | 3 => some ⟨.trash, [], [], 1, [], 0, 0, 0⟩
  | 4 => some ⟨.file, [2], [], 1, [], 0, 0, 0⟩
  | _ => none

/-- A session of the master that mounted `a`. -/
def mountedOnA : FsContext :=
  FsContext.getForMaster ⟨0, fun _ => false, fun _ => false, false, false, false, fun _ => false, 0⟩ false
    ⟨2, false, none⟩

theorem rootWithTrash_parentsListed : ParentsListed rootWithTrash := by
  intro x n hx d hd
  match x, hx with
  | 2, hx =>
    cases hx
    rw [List.mem_singleton.mp hd]
    exact ⟨_, [97], rfl, List.mem_singleton_self _⟩
  | 4, hx =>
    cases hx
    rw [List.mem_singleton.mp hd]
    exact ⟨_, [102], rfl, List.mem_singleton_self _⟩
  | 1, hx =>
    cases hx
    cases hd
  | 3, hx =>
    cases hx
    cases hd

theorem rootWithTrash_dirsSingleParent : DirsSingleParent rootWithTrash := by
  intro d n hd _
  match d, hd with
  | 1, hd => cases hd; decide
  | 2, hd => cases hd; decide
  | 3, hd => cases hd; decide
  | 4, hd => cases hd; decide

/-- No directory of `rootWithTrash` has an entry for node 3. -/
theorem not_below_trash (r : Nat) : ¬ Below rootWithTrash r 3 := by
  intro h
  obtain ⟨d, -, dn, name, hd, hmem⟩ := Relation.TransGen.tail'_iff.mp h
  match d, hd with
  | 1, hd => cases hd; simp at hmem
  | 2, hd => cases hd; simp at hmem
  | 3, hd => cases hd; simp at hmem
  | 4, hd => cases hd; simp at hmem

/-- **A trash node outside the session's root is found.** With the two invariants
holding, the session mounted on `a` gets node 3, which is neither `a` nor below it:
`fsnodes_get_node_for_operation` admits every trash node, whatever path it was
deleted from. -/
theorem trash_node_outside_mount_is_found :
    ParentsListed rootWithTrash ∧ DirsSingleParent rootWithTrash ∧
      fsnodesGetNodeForOperation rootWithTrash mountedOnA .file modeMaskEmpty 3 =
        .ok (3, ⟨.trash, [], [], 1, [], 0, 0, 0⟩) ∧
      ¬ (3 = 2 ∨ Below rootWithTrash 2 3) :=
  ⟨rootWithTrash_parentsListed, rootWithTrash_dirsSingleParent, rfl, by
    rintro (h | h)
    · cases h
    · exact not_below_trash 2 h⟩

section Amended

variable {nodes : Nat → Option FsNode} {ctx : FsContext} {s : SessionData}

/-- **A session mounted on a subdirectory reaches its root, what lies below it and
the trash and reserved nodes.** Every node `fsnodes_get_node_for_operation` returns
to it is its root, below its root through directory entries, or in the trash or
reserved (whatever path it was deleted from); every inode number `fs_lookup`
returns to it is `SPECIAL_INODE_ROOT` or a node below its root. -/
theorem subdirectory_session_stays_below_root_or_in_trash (hl : ParentsListed nodes)
    (hsp : DirsSingleParent nodes) (hs : ctx.session = some s) (h0 : s.rootinode ≠ 0)
    (h1 : s.rootinode ≠ specialInodeRoot) :
    (∀ expected modemask inode id p, fsnodesGetNodeForOperation nodes ctx expected modemask inode = .ok (id, p) →
      nodes id = some p ∧ (id = s.rootinode ∨ Below nodes s.rootinode id ∨ p.type = .trash ∨ p.type = .reserved)) ∧
    (∀ parent name x, fsLookup nodes ctx parent name = .ok x → x = specialInodeRoot ∨ Below nodes s.rootinode x) := by
  refine ⟨fun expected modemask inode id p h => ?_, fun parent name x h => fsLookup_confined hl hsp hs h0 h1 h⟩
  have hsn := (fsnodesGetNodeForOperation_eq_ok h).1
  exact ⟨(sessionNode_eq_ok hsn).1, sessionNode_confined hl hs h0 h1 hsn⟩

end Amended

theorem mountedOnA_confined :
    ParentsListed rootWithTrash ∧ DirsSingleParent rootWithTrash ∧ mountedOnA.session = some ⟨2, false, none⟩ ∧
      (2 : Nat) ≠ 0 ∧ (2 : Nat) ≠ specialInodeRoot ∧
      (∀ expected modemask inode id p,
        fsnodesGetNodeForOperation rootWithTrash mountedOnA expected modemask inode = .ok (id, p) →
          rootWithTrash id = some p ∧ (id = 2 ∨ Below rootWithTrash 2 id ∨ p.type = .trash ∨ p.type = .reserved)) ∧
      (∀ parent name x, fsLookup rootWithTrash mountedOnA parent name = .ok x →
        x = specialInodeRoot ∨ Below rootWithTrash 2 x) :=
  ⟨rootWithTrash_parentsListed, rootWithTrash_dirsSingleParent, rfl, by decide, by decide,
    subdirectory_session_stays_below_root_or_in_trash rootWithTrash_parentsListed rootWithTrash_dirsSingleParent
      (show mountedOnA.session = some ⟨2, false, none⟩ from rfl) (by decide) (by decide)⟩

end LizardFs
