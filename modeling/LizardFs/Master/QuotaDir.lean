import LizardFs.Lib.Forest
import LizardFs.Master.NodeOps

/-!
# Directory quotas of a rename

Model of the directory-quota test that `fs_rename` makes before moving an entry from
`swd` to `dwd` (`src/master/filesystem_quota.cc`): `fsnodes_find_depth`,
`fsnodes_find_common_ancestor`, `fsnodes_test_dir_quota_noparents` and the two-directory
`fsnodes_quota_exceeded_dir(node, prev_node, resources)`.

Directories have one parent (`parent[0]`); the directories form a `Forest` of the
library, and `DirTree` adds the statistics and the hard limits of their quota entries
that the test reads.

* `fsnodesFindCommonAncestor_spec`: the common ancestor found is the deepest
  ancestor-or-self of both directories, and none is found exactly when they have none.
* `fsnodesQuotaExceededDir_eq_true_iff`: the test reports an exceeded quota exactly when
  some ancestor-or-self of the destination that is not one of the source fails
  `fsnodes_test_dir_quota_noparents`, and `fsnodesTestDirQuotaNoparents_iff`: that is a
  hard limit below its usage plus the delta, provided those sums fit an unsigned 64-bit
  value. The source adds a signed delta to an unsigned counter, so a negative delta
  larger than the usage wraps to a huge value and reads as an exceeded limit.
-/

namespace LizardFs

namespace QuotaDir

/-- The fields of `statsrecord` the quota test reads. -/
structure StatsRecord where
  inodes : UInt32
  size : UInt64

/-- The directories: the forest of their parents, their statistics, and the hard limits
`(*entry)[kHard]` of their entries in the quota database (`quota_database.get(kInode, id)`),
`none` without an entry. -/
structure DirTree where
  forest : Forest Nat
  stats : Nat → StatsRecord
  hardLimits : Nat → Option (QuotaResource → UInt64)

/-! ## The source functions -/

/-- The loop of `fsnodes_find_depth`: `while (!a->parent.empty()) { a = parent; ++depth; }`. -/
def findDepthLoop (F : Forest Nat) (a depth : Nat) : Nat :=
  match h : F.parent a with
  | none => depth
  | some p => findDepthLoop F p (depth + 1)
termination_by F.rank a
decreasing_by exact F.rank_lt h

/-- `fsnodes_find_depth`. -/
def fsnodesFindDepth (F : Forest Nat) (a : Nat) : Nat := findDepthLoop F a 1

/-- `for(;depth_a > depth_b;--depth_a) a = parent(a);`: `n` steps up. The source asserts
that there is a parent at every step. -/
def climb (F : Forest Nat) : Nat → Nat → Nat
  | 0, a => a
  | n + 1, a =>
    match F.parent a with
    | some p => climb F n p
    | none => a

/-- The loop `while(!a->parent.empty())` of `fsnodes_find_common_ancestor`: both nodes
step up until they meet; the source asserts that `b` has a parent when `a` has one. -/
def walkUp (F : Forest Nat) (a b : Nat) : Option Nat :=
  match _h : F.parent a with
  | none => none
  | some pa =>
    match F.parent b with
    | none => none
    | some pb => if pa = pb then some pa else walkUp F pa pb
termination_by F.rank a
decreasing_by exact F.rank_lt _h

/-- `fsnodes_find_common_ancestor(a, b)`, for two directories (the source returns
`nullptr` for a null argument, which the rename never passes). -/
def fsnodesFindCommonAncestor (F : Forest Nat) (a b : Nat) : Option Nat :=
  let depthA := fsnodesFindDepth F a
  let depthB := fsnodesFindDepth F b
  let a' := if depthA > depthB then climb F (depthA - depthB) a else a
  let b' := if depthB > depthA then climb F (depthB - depthA) b else b
  if a' = b' then some a' else walkUp F a' b'

/-- The sum of the `switch (resource.first)` of `fsnodes_test_dir_quota_noparents`:
the counter, widened to 64 bits, plus the signed delta in unsigned 64-bit arithmetic. -/
def usageAfter (stats : StatsRecord) : QuotaResource → Int64 → UInt64
  | .inodes, delta => stats.inodes.toUInt64 + delta.toUInt64
  | .size, delta => stats.size + delta.toUInt64

/-- The loop over `resource_list` of `fsnodes_test_dir_quota_noparents`. A zero limit is
no limit (`if (limit <= 0) continue;` on an unsigned limit). -/
def testResources (limit : QuotaResource → UInt64) (stats : StatsRecord) :
    List (QuotaResource × Int64) → Bool
  | [] => false
  | (resource, delta) :: rest =>
    if limit resource = 0 then testResources limit stats rest
    else if usageAfter stats resource delta > limit resource then true
    else testResources limit stats rest

/-- `fsnodes_test_dir_quota_noparents` for a directory. -/
def fsnodesTestDirQuotaNoparents (T : DirTree) (resources : List (QuotaResource × Int64))
    (node : Nat) : Bool :=
  match T.hardLimits node with
  | none => false
  | some limit => testResources limit (T.stats node) resources

/-- The loop `while(!node->parent.empty())` of `fsnodes_quota_exceeded_dir`: test the
parents up to the common ancestor. -/
def quotaWalk (T : DirTree) (resources : List (QuotaResource × Int64)) (common : Option Nat)
    (node : Nat) : Bool :=
  match _h : T.forest.parent node with
  | none => false
  | some p =>
    if some p = common then false
    else if fsnodesTestDirQuotaNoparents T resources p then true
    else quotaWalk T resources common p
termination_by T.forest.rank node
decreasing_by exact T.forest.rank_lt _h

/-- `fsnodes_quota_exceeded_dir(node, prev_node, resources)`: the quotas of the directories
that `node` is in and `prev_node` is not. -/
def fsnodesQuotaExceededDir (T : DirTree) (node prevNode : Nat)
    (resources : List (QuotaResource × Int64)) : Bool :=
  let common := fsnodesFindCommonAncestor T.forest prevNode node
  if some node = common then false
  else if fsnodesTestDirQuotaNoparents T resources node then true
  else quotaWalk T resources common node

/-! ## What the quota test is for -/

/-- The usage of a resource. -/
def current (s : StatsRecord) : QuotaResource → Int
  | .inodes => s.inodes.toNat
  | .size => s.size.toNat

/-- A hard limit of `D` on a listed resource is below its usage plus the delta. -/
def HardLimitExceeded (T : DirTree) (resources : List (QuotaResource × Int64)) (D : Nat) : Prop :=
  ∃ limit, T.hardLimits D = some limit ∧ ∃ r ∈ resources,
    limit r.1 ≠ 0 ∧ ((limit r.1).toNat : Int) < current (T.stats D) r.1 + r.2.toInt

/-- The usage plus the delta of every listed resource of `D` fits an unsigned 64-bit value. -/
def NoWrap (T : DirTree) (resources : List (QuotaResource × Int64)) (D : Nat) : Prop :=
  ∀ r ∈ resources, 0 ≤ current (T.stats D) r.1 + r.2.toInt ∧
    current (T.stats D) r.1 + r.2.toInt < 2 ^ 64

/-! ## Depth and common ancestor -/

section Ancestor

variable {F : Forest Nat}

theorem findDepthLoop_eq (a depth : Nat) : findDepthLoop F a depth = F.depth a + depth - 1 := by
  fun_induction findDepthLoop F a depth with
  | case1 a depth h =>
    rw [Forest.depth_of_root h]
    omega
  | case2 a depth p h ih =>
    rw [ih, Forest.depth_of_parent h]
    omega

theorem fsnodesFindDepth_eq (a : Nat) : fsnodesFindDepth F a = F.depth a := by
  rw [fsnodesFindDepth, findDepthLoop_eq]
  rfl

/-- Below the depth of a node, `climb` reaches its ancestor that many steps up. -/
theorem up_climb {n a : Nat} (h : n < F.depth a) : F.up n a = some (climb F n a) := by
  induction n generalizing a with
  | zero => rfl
  | succ n ih =>
    cases hp : F.parent a with
    | none =>
      rw [Forest.depth_of_root hp] at h
      omega
    | some p =>
      rw [Forest.depth_of_parent hp] at h
      rw [Forest.up_succ_of_parent hp, ih (by omega)]
      simp [climb, hp]

/-- Lifting the deeper node: an ancestor-or-self at the depth of the other node. -/
theorem climb_lift {a b : Nat} (h : F.depth b < F.depth a) :
    F.IsAncestorOrSelf (climb F (F.depth a - F.depth b) a) a ∧
      F.depth (climb F (F.depth a - F.depth b) a) = F.depth b := by
  have hup := up_climb (F := F) (n := F.depth a - F.depth b) (a := a) (by
    have := F.depth_pos b
    omega)
  refine ⟨⟨_, hup⟩, ?_⟩
  have := Forest.depth_up hup
  omega

/-- Stepping up together from two distinct nodes of one depth finds their deepest
common ancestor, or none when they have none. -/
theorem walkUp_spec {a b : Nat} (hd : F.depth a = F.depth b) (hne : a ≠ b) :
    (∀ c, walkUp F a b = some c → F.IsDeepestCommon a b c) ∧
      (walkUp F a b = none → ∀ c, ¬ F.IsCommon a b c) := by
  fun_induction walkUp F a b with
  | case1 a b ha =>
    exact ⟨fun c h => (by cases h), fun _ c => Forest.not_isCommon_of_root hne hd ha⟩
  | case2 a b pa ha hb =>
    -- `a` has a parent and `b`, of the same depth, has none: impossible
    have hda := Forest.depth_of_parent ha
    have hdb := Forest.depth_of_root hb
    have := F.depth_pos pa
    omega
  | case3 a b pa hb ha =>
    -- both parents are pa
    have hcommon : ∀ c, F.IsCommon a b c ↔ F.IsAncestorOrSelf c pa := fun c =>
      (Forest.isCommon_of_parents hne hd ha hb).trans Forest.isCommon_self
    refine ⟨fun c h => ?_, fun h => by cases h⟩
    rw [← Option.some.inj h]
    exact ⟨(hcommon pa).mpr (.refl pa), fun d hd' => (hcommon d).mp hd'⟩
  | case4 a b pa ha pb hb hne' ih =>
    have hdp : F.depth pa = F.depth pb := by
      have h1 := Forest.depth_of_parent ha
      have h2 := Forest.depth_of_parent hb
      omega
    obtain ⟨ihsome, ihnone⟩ := ih hdp hne'
    have hcommon : ∀ c, F.IsCommon a b c ↔ F.IsCommon pa pb c := fun c =>
      Forest.isCommon_of_parents hne hd ha hb
    refine ⟨fun c h => ?_, fun h c hc => ihnone h c ((hcommon c).mp hc)⟩
    obtain ⟨hc, hdeep⟩ := ihsome c h
    exact ⟨(hcommon c).mpr hc, fun d hd' => hdeep d ((hcommon d).mp hd')⟩

/-- After lifting, the two nodes have one depth and the same common ancestors. -/
theorem lifted_common {a b a' b' : Nat}
    (ha : a' = if F.depth a > F.depth b then climb F (F.depth a - F.depth b) a else a)
    (hb : b' = if F.depth b > F.depth a then climb F (F.depth b - F.depth a) b else b) :
    F.depth a' = F.depth b' ∧ ∀ c, F.IsCommon a b c ↔ F.IsCommon a' b' c := by
  by_cases hab : F.depth a > F.depth b
  · have hba : ¬ F.depth b > F.depth a := by omega
    obtain ⟨hanc, hdepth⟩ := climb_lift hab
    rw [if_pos hab] at ha
    rw [if_neg hba] at hb
    subst ha hb
    exact ⟨hdepth, fun c => Forest.isCommon_lift hanc hdepth⟩
  · by_cases hba : F.depth b > F.depth a
    · obtain ⟨hanc, hdepth⟩ := climb_lift hba
      rw [if_neg hab] at ha
      rw [if_pos hba] at hb
      subst ha hb
      refine ⟨hdepth.symm, fun c => ?_⟩
      have hlift := Forest.isCommon_lift (c := c) hanc hdepth
      exact ⟨fun h => (hlift.mp h.symm).symm, fun h => (hlift.mpr h.symm).symm⟩
    · rw [if_neg hab] at ha
      rw [if_neg hba] at hb
      subst ha hb
      exact ⟨by omega, fun c => Iff.rfl⟩

/-- `fsnodes_find_common_ancestor` finds the deepest common ancestor-or-self, or nothing
when the two directories have no common ancestor. -/
theorem fsnodesFindCommonAncestor_correct (a b : Nat) :
    (∀ c, fsnodesFindCommonAncestor F a b = some c → F.IsDeepestCommon a b c) ∧
      (fsnodesFindCommonAncestor F a b = none → ∀ c, ¬ F.IsCommon a b c) := by
  simp only [fsnodesFindCommonAncestor, fsnodesFindDepth_eq]
  generalize ha' : (if F.depth a > F.depth b then climb F (F.depth a - F.depth b) a else a) = a'
  generalize hb' : (if F.depth b > F.depth a then climb F (F.depth b - F.depth a) b else b) = b'
  obtain ⟨hdepth, hcommon⟩ := lifted_common ha'.symm hb'.symm
  split
  · next heq =>
    -- the lifted nodes meet: the meeting point is the deepest common ancestor
    refine ⟨fun c h => ?_, fun h => by cases h⟩
    rw [← Option.some.inj h]
    have hself : F.IsCommon a' b' a' := ⟨.refl a', by rw [← heq]; exact .refl a'⟩
    exact ⟨(hcommon a').mpr hself, fun d hd => ((hcommon d).mp hd).1⟩
  · next hne =>
    obtain ⟨hsome, hnone⟩ := walkUp_spec hdepth hne
    refine ⟨fun c h => ?_, fun h c hc => hnone h c ((hcommon c).mp hc)⟩
    obtain ⟨hc, hdeep⟩ := hsome c h
    exact ⟨(hcommon c).mpr hc, fun d hd => hdeep d ((hcommon d).mp hd)⟩

/-- The answer of `fsnodes_find_common_ancestor`, stated both ways. -/
theorem fsnodesFindCommonAncestor_spec (a b : Nat) :
    (∀ c, fsnodesFindCommonAncestor F a b = some c ↔ F.IsDeepestCommon a b c) ∧
      (fsnodesFindCommonAncestor F a b = none ↔ ∀ c, ¬ F.IsCommon a b c) := by
  obtain ⟨hsome, hnone⟩ := fsnodesFindCommonAncestor_correct (F := F) a b
  refine ⟨fun c => ⟨hsome c, fun hc => ?_⟩, ⟨hnone, fun h => ?_⟩⟩
  · -- the deepest common ancestor is unique
    cases hfind : fsnodesFindCommonAncestor F a b with
    | none => exact absurd hc.1 (hnone hfind c)
    | some c' =>
      have hc' := hsome c' hfind
      rw [Forest.IsAncestorOrSelf.antisymm (hc.2 c' hc'.1) (hc'.2 c hc.1)]
  · cases hfind : fsnodesFindCommonAncestor F a b with
    | none => rfl
    | some c => exact absurd (hsome c hfind).1 (h c)

end Ancestor

/-! ## The quota test of one directory -/

/-- The two's complement of a signed delta added to an unsigned 64-bit counter is the
sum modulo 2^64. -/
theorem toNat_add_toUInt64 (s : UInt64) (d : Int64) :
    ((s + d.toUInt64).toNat : Int) = ((s.toNat : Int) + d.toInt) % 2 ^ 64 := by
  have hcond := BitVec.toInt_eq_toNat_cond d.toBitVec
  have h1 : d.toInt = d.toBitVec.toInt := rfl
  have h2 : d.toUInt64.toNat = d.toBitVec.toNat := rfl
  have hlt := d.toBitVec.isLt
  rw [UInt64.toNat_add, h1, h2]
  split at hcond <;> omega

theorem usageAfter_toNat (stats : StatsRecord) (r : QuotaResource) (d : Int64) :
    ((usageAfter stats r d).toNat : Int) = (current stats r + d.toInt) % 2 ^ 64 := by
  cases r with
  | inodes =>
    rw [usageAfter, toNat_add_toUInt64, UInt32.toNat_toUInt64]
    rfl
  | size => exact toNat_add_toUInt64 _ _

/-- Without wrap-around the unsigned comparison is that of the exact sum. -/
theorem lt_usageAfter_iff {lim : UInt64} {stats : StatsRecord} {r : QuotaResource} {d : Int64}
    (h0 : 0 ≤ current stats r + d.toInt) (h1 : current stats r + d.toInt < 2 ^ 64) :
    lim < usageAfter stats r d ↔ (lim.toNat : Int) < current stats r + d.toInt := by
  rw [UInt64.lt_iff_toNat_lt, ← Int.ofNat_lt, usageAfter_toNat, Int.emod_eq_of_lt h0 h1]

theorem testResources_iff {limit : QuotaResource → UInt64} {stats : StatsRecord}
    {resources : List (QuotaResource × Int64)}
    (hwrap : ∀ r ∈ resources, 0 ≤ current stats r.1 + r.2.toInt ∧
      current stats r.1 + r.2.toInt < 2 ^ 64) :
    testResources limit stats resources = true ↔
      ∃ r ∈ resources, limit r.1 ≠ 0 ∧ ((limit r.1).toNat : Int) < current stats r.1 + r.2.toInt := by
  induction resources with
  | nil => simp [testResources]
  | cons r rest ih =>
    obtain ⟨resource, delta⟩ := r
    obtain ⟨h0, h1⟩ := hwrap (resource, delta) List.mem_cons_self
    have ih' := ih (fun r hr => hwrap r (List.mem_cons_of_mem _ hr))
    rw [List.exists_mem_cons_iff, testResources, ← ih']
    by_cases hzero : limit resource = 0
    · rw [if_pos hzero]
      simp [hzero]
    · rw [if_neg hzero]
      by_cases hgt : usageAfter stats resource delta > limit resource
      · -- the first exceeded limit stops the loop
        rw [if_pos hgt]
        exact iff_of_true rfl (.inl ⟨hzero, (lt_usageAfter_iff h0 h1).mp hgt⟩)
      · rw [if_neg hgt]
        have hle : ¬ ((limit resource).toNat : Int) < current stats resource + delta.toInt :=
          fun h => hgt ((lt_usageAfter_iff h0 h1).mpr h)
        exact ⟨.inr, fun h => h.resolve_left fun ⟨_, hlt⟩ => hle hlt⟩

/-- `fsnodes_test_dir_quota_noparents` reports a hard limit that the deltas exceed. -/
theorem fsnodesTestDirQuotaNoparents_iff {T : DirTree} {resources : List (QuotaResource × Int64)}
    {D : Nat} (hwrap : NoWrap T resources D) :
    fsnodesTestDirQuotaNoparents T resources D = true ↔ HardLimitExceeded T resources D := by
  unfold fsnodesTestDirQuotaNoparents HardLimitExceeded
  cases hlim : T.hardLimits D with
  | none => simp
  | some limit =>
    rw [testResources_iff hwrap]
    simp

/-! ## The walk up to the common ancestor -/

section Walk

variable {T : DirTree} {resources : List (QuotaResource × Int64)}

/-- The directories strictly below the stopping point `common`, if there is one. -/
def BelowCommon (F : Forest Nat) (common : Option Nat) (D : Nat) : Prop :=
  ∀ c, common = some c → ¬ F.IsAncestorOrSelf D c

/-- The walk from `node` tests the proper ancestors of `node` below the stopping point,
when that point is a proper ancestor of `node`. -/
theorem quotaWalk_iff {common : Option Nat} {node : Nat}
    (hc : ∀ c, common = some c → T.forest.IsAncestor c node) :
    quotaWalk T resources common node = true ↔
      ∃ D, T.forest.IsAncestor D node ∧ BelowCommon T.forest common D ∧
        fsnodesTestDirQuotaNoparents T resources D = true := by
  fun_induction quotaWalk T resources common node with
  | case1 node h =>
    refine iff_of_false Bool.false_ne_true ?_
    rintro ⟨D, hD, -⟩
    exact Forest.not_isAncestor_of_root h hD
  | case2 node p h hstop =>
    -- the parent is the stopping point: every proper ancestor is at or above it
    refine iff_of_false Bool.false_ne_true ?_
    rintro ⟨D, hD, hbelow, -⟩
    exact hbelow p hstop.symm ((Forest.isAncestor_iff_of_parent h).mp hD)
  | case3 node p h hstop htest =>
    refine iff_of_true rfl ⟨p, (Forest.isAncestor_iff_of_parent h).mpr (.refl p), ?_, htest⟩
    intro c hcp hpc
    have hcp' := (Forest.isAncestor_iff_of_parent h).mp (hc c hcp)
    exact hstop (by rw [hcp, Forest.IsAncestorOrSelf.antisymm hcp' hpc])
  | case4 node p h hstop htest ih =>
    have hc' : ∀ c, common = some c → T.forest.IsAncestor c p := by
      intro c hcp
      rcases Forest.isAncestorOrSelf_iff.mp ((Forest.isAncestor_iff_of_parent h).mp (hc c hcp))
        with heq | hanc
      · exact absurd (by rw [hcp, heq]) hstop
      · exact hanc
    rw [ih hc']
    constructor
    · rintro ⟨D, hD, hbelow, htD⟩
      exact ⟨D, (Forest.isAncestor_iff_of_parent h).mpr hD.isAncestorOrSelf, hbelow, htD⟩
    · rintro ⟨D, hD, hbelow, htD⟩
      rcases Forest.isAncestorOrSelf_iff.mp ((Forest.isAncestor_iff_of_parent h).mp hD)
        with rfl | hanc
      · exact absurd htD htest
      · exact ⟨D, hanc, hbelow, htD⟩

/-- Above the destination, being below the common ancestor is not being above the source. -/
theorem belowCommon_iff {F : Forest Nat} {src dst D : Nat} (hD : F.IsAncestorOrSelf D dst) :
    BelowCommon F (fsnodesFindCommonAncestor F src dst) D ↔ ¬ F.IsAncestorOrSelf D src := by
  obtain ⟨hsome, hnone⟩ := fsnodesFindCommonAncestor_correct (F := F) src dst
  unfold BelowCommon
  cases hfind : fsnodesFindCommonAncestor F src dst with
  | none => exact iff_of_true (fun c h => by cases h) (fun hs => hnone hfind D ⟨hs, hD⟩)
  | some c =>
    rw [Forest.isAncestorOrSelf_iff_of_deepest (hsome c hfind).symm hD]
    constructor
    · intro h
      exact h c rfl
    · rintro h c' hc'
      cases hc'
      exact h

/-- The two-directory test from the walk: the ancestors-or-self of `node` below the
stopping point, which is an ancestor-or-self of `node`. -/
theorem quotaExceeded_iff_belowCommon {common : Option Nat} {node : Nat}
    (hanc : ∀ c, common = some c → T.forest.IsAncestorOrSelf c node) :
    (if some node = common then false
      else if fsnodesTestDirQuotaNoparents T resources node then true
      else quotaWalk T resources common node) = true ↔
      ∃ D, T.forest.IsAncestorOrSelf D node ∧ BelowCommon T.forest common D ∧
        fsnodesTestDirQuotaNoparents T resources D = true := by
  by_cases hstop : some node = common
  · rw [if_pos hstop]
    refine iff_of_false Bool.false_ne_true ?_
    rintro ⟨D, hD, hbelow, -⟩
    exact hbelow node hstop.symm hD
  · rw [if_neg hstop]
    have hc : ∀ c, common = some c → T.forest.IsAncestor c node := fun c hcc =>
      (Forest.isAncestorOrSelf_iff.mp (hanc c hcc)).resolve_left fun h => hstop (by rw [hcc, h])
    have hnode : BelowCommon T.forest common node := fun c hcc hnc =>
      hstop (by rw [hcc, Forest.IsAncestorOrSelf.antisymm (hanc c hcc) hnc])
    by_cases htest : fsnodesTestDirQuotaNoparents T resources node = true
    · rw [if_pos htest]
      exact iff_of_true rfl ⟨node, .refl node, hnode, htest⟩
    · rw [if_neg htest, quotaWalk_iff hc]
      constructor
      · rintro ⟨D, hD, hbelow, htD⟩
        exact ⟨D, hD.isAncestorOrSelf, hbelow, htD⟩
      · rintro ⟨D, hD, hbelow, htD⟩
        rcases Forest.isAncestorOrSelf_iff.mp hD with rfl | hanc'
        · exact absurd htD htest
        · exact ⟨D, hanc', hbelow, htD⟩

/-- `fsnodes_quota_exceeded_dir(dst, src, ...)` tests exactly the directories that `dst`
is in and `src` is not. -/
theorem fsnodesQuotaExceededDir_eq_true_iff (dst src : Nat) :
    fsnodesQuotaExceededDir T dst src resources = true ↔
      ∃ D, T.forest.IsAncestorOrSelf D dst ∧ ¬ T.forest.IsAncestorOrSelf D src ∧
        fsnodesTestDirQuotaNoparents T resources D = true := by
  have hanc : ∀ c, fsnodesFindCommonAncestor T.forest src dst = some c →
      T.forest.IsAncestorOrSelf c dst := fun c h =>
    ((fsnodesFindCommonAncestor_correct src dst).1 c h).1.2
  rw [fsnodesQuotaExceededDir, quotaExceeded_iff_belowCommon hanc]
  constructor
  · rintro ⟨D, hD, hbelow, htD⟩
    exact ⟨D, hD, (belowCommon_iff hD).mp hbelow, htD⟩
  · rintro ⟨D, hD, hsrc, htD⟩
    exact ⟨D, hD, (belowCommon_iff hD).mpr hsrc, htD⟩

end Walk

/-! ## The rename's quota check -/

/-- The resource list of the rename,
`{{kInodes, quota_delta[kInodes]}, {kSize, quota_delta[kSize]}}`. -/
def renameDeltas (deltaInodes deltaSize : Int64) : List (QuotaResource × Int64) :=
  [(.inodes, deltaInodes), (.size, deltaSize)]

theorem rename_quota_tests_entered_directories (T : DirTree) (dst src : Nat)
    (deltaInodes deltaSize : Int64)
    (hwrap : ∀ D, T.forest.IsAncestorOrSelf D dst → ¬ T.forest.IsAncestorOrSelf D src →
      NoWrap T (renameDeltas deltaInodes deltaSize) D) :
    (∀ c, fsnodesFindCommonAncestor T.forest src dst = some c ↔
        T.forest.IsDeepestCommon src dst c) ∧
      (fsnodesFindCommonAncestor T.forest src dst = none ↔ ∀ c, ¬ T.forest.IsCommon src dst c) ∧
      (fsnodesQuotaExceededDir T dst src (renameDeltas deltaInodes deltaSize) = true ↔
        ∃ D, T.forest.IsAncestorOrSelf D dst ∧ ¬ T.forest.IsAncestorOrSelf D src ∧
          HardLimitExceeded T (renameDeltas deltaInodes deltaSize) D) := by
  obtain ⟨hsome, hnone⟩ := fsnodesFindCommonAncestor_spec (F := T.forest) src dst
  refine ⟨hsome, hnone, ?_⟩
  rw [fsnodesQuotaExceededDir_eq_true_iff]
  constructor
  · rintro ⟨D, hD, hsrc, htD⟩
    exact ⟨D, hD, hsrc, (fsnodesTestDirQuotaNoparents_iff (hwrap D hD hsrc)).mp htD⟩
  · rintro ⟨D, hD, hsrc, hex⟩
    exact ⟨D, hD, hsrc, (fsnodesTestDirQuotaNoparents_iff (hwrap D hD hsrc)).mpr hex⟩

/-- Directory 2 inside the root directory 1. -/
def nestedDirs : Forest Nat where
  parent n := if n = 2 then some 1 else none
  rank n := n
  rank_lt := by
    intro a p h
    by_cases ha : a = 2
    · simp only [ha, if_true, Option.some.injEq] at h
      omega
    · simp [ha] at h

/-- Empty directories, with a hard inode limit of 5 on directory 2. -/
def inodeLimitedTree : DirTree where
  forest := nestedDirs
  stats _ := ⟨0, 0⟩
  hardLimits n := if n = 2 then some fun | .inodes => 5 | .size => 0 else none

theorem nested_dir_not_above_root : ¬ nestedDirs.IsAncestorOrSelf 2 1 := by
  intro h
  have hle := h.depth_le
  rw [Forest.depth_of_parent (p := 1) rfl, Forest.depth_of_root rfl] at hle
  omega

/-- A move into directory 2 with an inode delta of -1: the unsigned sum 0 + (2^64 - 1)
is above the limit, though the usage would drop below it. -/
theorem negative_delta_wraps_quota_test :
    fsnodesQuotaExceededDir inodeLimitedTree 2 1 (renameDeltas (-1) 0) = true ∧
      ¬ ∃ D, nestedDirs.IsAncestorOrSelf D 2 ∧ ¬ nestedDirs.IsAncestorOrSelf D 1 ∧
        HardLimitExceeded inodeLimitedTree (renameDeltas (-1) 0) D := by
  constructor
  · rw [fsnodesQuotaExceededDir_eq_true_iff]
    exact ⟨2, .refl 2, nested_dir_not_above_root, by decide⟩
  · rintro ⟨D, hD, hsrc, limit, hlim, r, hr, hne, hlt⟩
    rcases Forest.isAncestorOrSelf_iff.mp hD with rfl | ⟨p, hp, hDp⟩
    · -- only directory 2 has a limit, and no exact sum is above it
      simp only [inodeLimitedTree, if_true, Option.some.injEq] at hlim
      subst hlim
      simp only [renameDeltas, List.mem_cons, List.not_mem_nil, or_false] at hr
      rcases hr with rfl | rfl
      · revert hlt
        decide
      · exact hne rfl
    · -- the only proper ancestor of 2 is 1
      have hp1 : p = 1 := by
        simp only [nestedDirs, if_true, Option.some.injEq] at hp
        exact hp.symm
      subst hp1
      exact hsrc hDp

theorem move_into_limited_dir_checks_quota :
    (∀ D, inodeLimitedTree.forest.IsAncestorOrSelf D 2 →
        ¬ inodeLimitedTree.forest.IsAncestorOrSelf D 1 → NoWrap inodeLimitedTree (renameDeltas 1 0) D) ∧
      ((∀ c, fsnodesFindCommonAncestor inodeLimitedTree.forest 1 2 = some c ↔
          inodeLimitedTree.forest.IsDeepestCommon 1 2 c) ∧
        (fsnodesFindCommonAncestor inodeLimitedTree.forest 1 2 = none ↔
          ∀ c, ¬ inodeLimitedTree.forest.IsCommon 1 2 c) ∧
        (fsnodesQuotaExceededDir inodeLimitedTree 2 1 (renameDeltas 1 0) = true ↔
          ∃ D, inodeLimitedTree.forest.IsAncestorOrSelf D 2 ∧
            ¬ inodeLimitedTree.forest.IsAncestorOrSelf D 1 ∧
            HardLimitExceeded inodeLimitedTree (renameDeltas 1 0) D)) := by
  have hwrap : ∀ D, inodeLimitedTree.forest.IsAncestorOrSelf D 2 →
      ¬ inodeLimitedTree.forest.IsAncestorOrSelf D 1 →
      NoWrap inodeLimitedTree (renameDeltas 1 0) D := by
    intro D _ _ r hr
    have hstats : inodeLimitedTree.stats D = ⟨0, 0⟩ := rfl
    simp only [renameDeltas, List.mem_cons, List.not_mem_nil, or_false] at hr
    rw [hstats]
    rcases hr with rfl | rfl <;> decide
  exact ⟨hwrap, rename_quota_tests_entered_directories inodeLimitedTree 2 1 1 0 hwrap⟩

end QuotaDir

end LizardFs
