import Mathlib.Order.Basic

/-!
# Forests given by parent pointers

A `Forest α` is a partial parent function on `α` with a rank that drops from a node
to its parent, so that following parents always ends at a root. `up n a` is the
ancestor `n` steps above `a`, and `depth a` the number of nodes from `a` to its root.

The ancestors of a node form a chain (`isAncestorOrSelf_total`) on which the depth is
injective (`eq_of_isAncestorOrSelf_of_depth_eq`). Common ancestors are what a
lowest-common-ancestor search needs: lifting the deeper node to the depth of the other
keeps them (`isCommon_lift`), one step up from two distinct nodes of one depth keeps
them (`isCommon_of_parents`), and below the deepest one the ancestors of one node are
not ancestors of the other (`isAncestorOrSelf_iff_of_deepest`).
-/

/-- Parent pointers with a rank that decreases to the parent, so that the parent links
have no cycle. -/
structure Forest (α : Type) where
  parent : α → Option α
  rank : α → Nat
  rank_lt : ∀ {a p : α}, parent a = some p → rank p < rank a

namespace Forest

variable {α : Type} (F : Forest α)

/-- The ancestor `n` steps above `a`, if there is one. -/
def up : Nat → α → Option α
  | 0, a => some a
  | n + 1, a => (F.parent a).bind (up n)

/-- The number of nodes from `a` to its root, both included. -/
def depth (a : α) : Nat :=
  match h : F.parent a with
  | none => 1
  | some p => depth p + 1
termination_by F.rank a
decreasing_by exact F.rank_lt h

/-- `b` is an ancestor of `a`, or `a` itself. -/
def IsAncestorOrSelf (b a : α) : Prop := ∃ n, F.up n a = some b

/-- `b` is a proper ancestor of `a`: an ancestor-or-self of its parent. -/
def IsAncestor (b a : α) : Prop := ∃ p, F.parent a = some p ∧ F.IsAncestorOrSelf b p

/-- `c` is an ancestor-or-self of both `x` and `y`. -/
def IsCommon (x y c : α) : Prop := F.IsAncestorOrSelf c x ∧ F.IsAncestorOrSelf c y

/-- `c` is a common ancestor-or-self of `x` and `y` and every other one is above it. -/
def IsDeepestCommon (x y c : α) : Prop :=
  F.IsCommon x y c ∧ ∀ d, F.IsCommon x y d → F.IsAncestorOrSelf d c

variable {F}

@[simp] theorem up_zero (a : α) : F.up 0 a = some a := rfl

theorem up_succ_of_parent {a p : α} (h : F.parent a = some p) (n : Nat) :
    F.up (n + 1) a = F.up n p := by
  simp [up, h]

theorem up_succ_of_root {a : α} (h : F.parent a = none) (n : Nat) : F.up (n + 1) a = none := by
  simp [up, h]

theorem up_add (m n : Nat) (a : α) : F.up (m + n) a = (F.up m a).bind (F.up n) := by
  induction m generalizing a with
  | zero => simp
  | succ m ih =>
    rw [Nat.add_right_comm]
    cases h : F.parent a with
    | none => rw [up_succ_of_root h, up_succ_of_root h, Option.bind_none]
    | some p => rw [up_succ_of_parent h, up_succ_of_parent h, ih]

theorem depth_of_parent {a p : α} (h : F.parent a = some p) : F.depth a = F.depth p + 1 := by
  rw [depth]
  split
  · next h' => rw [h] at h'; cases h'
  · next p' h' => rw [h] at h'; cases h'; rfl

theorem depth_of_root {a : α} (h : F.parent a = none) : F.depth a = 1 := by
  rw [depth]
  split
  · rfl
  · next p' h' => rw [h] at h'; cases h'

theorem depth_pos (a : α) : 0 < F.depth a := by
  cases h : F.parent a with
  | none => rw [depth_of_root h]; exact Nat.one_pos
  | some p => rw [depth_of_parent h]; exact Nat.succ_pos _

/-- Each step up lowers the depth by one. -/
theorem depth_up {n : Nat} {a b : α} (h : F.up n a = some b) : F.depth a = F.depth b + n := by
  induction n generalizing a with
  | zero => cases h; rfl
  | succ n ih =>
    cases hp : F.parent a with
    | none => rw [up_succ_of_root hp] at h; cases h
    | some p =>
      rw [up_succ_of_parent hp] at h
      rw [depth_of_parent hp, ih h, Nat.add_assoc]

/-! ## The ancestor relation -/

theorem IsAncestorOrSelf.refl (a : α) : F.IsAncestorOrSelf a a := ⟨0, rfl⟩

theorem IsAncestorOrSelf.of_parent {a p : α} (h : F.parent a = some p) :
    F.IsAncestorOrSelf p a :=
  ⟨1, by rw [up_succ_of_parent h]; rfl⟩

theorem IsAncestorOrSelf.trans {a b c : α} (hab : F.IsAncestorOrSelf b a)
    (hbc : F.IsAncestorOrSelf c b) : F.IsAncestorOrSelf c a := by
  obtain ⟨m, hm⟩ := hab
  obtain ⟨n, hn⟩ := hbc
  exact ⟨m + n, by rw [up_add, hm, Option.bind_some, hn]⟩

theorem IsAncestorOrSelf.depth_le {a b : α} (h : F.IsAncestorOrSelf b a) :
    F.depth b ≤ F.depth a := by
  obtain ⟨n, hn⟩ := h
  rw [depth_up hn]
  exact Nat.le_add_right _ _

/-- An ancestor-or-self is the node itself or an ancestor-or-self of its parent. -/
theorem isAncestorOrSelf_iff {a b : α} :
    F.IsAncestorOrSelf b a ↔ b = a ∨ ∃ p, F.parent a = some p ∧ F.IsAncestorOrSelf b p := by
  constructor
  · rintro ⟨n, hn⟩
    cases n with
    | zero => cases hn; exact .inl rfl
    | succ n =>
      cases hp : F.parent a with
      | none => rw [up_succ_of_root hp] at hn; cases hn
      | some p =>
        rw [up_succ_of_parent hp] at hn
        exact .inr ⟨p, rfl, n, hn⟩
  · rintro (rfl | ⟨p, hp, hb⟩)
    · exact .refl b
    · exact (IsAncestorOrSelf.of_parent hp).trans hb

theorem isAncestor_iff_of_parent {a b p : α} (h : F.parent a = some p) :
    F.IsAncestor b a ↔ F.IsAncestorOrSelf b p := by
  constructor
  · rintro ⟨p', hp', hb⟩
    rw [h] at hp'
    cases hp'
    exact hb
  · intro hb
    exact ⟨p, h, hb⟩

theorem not_isAncestor_of_root {a b : α} (h : F.parent a = none) : ¬ F.IsAncestor b a := by
  rintro ⟨p, hp, -⟩
  rw [h] at hp
  cases hp

theorem IsAncestor.isAncestorOrSelf {a b : α} (h : F.IsAncestor b a) : F.IsAncestorOrSelf b a :=
  Iff.mpr isAncestorOrSelf_iff (.inr h)

/-- Two ancestors of one node at one depth are the same node. -/
theorem eq_of_isAncestorOrSelf_of_depth_eq {a b c : α} (hb : F.IsAncestorOrSelf b a)
    (hc : F.IsAncestorOrSelf c a) (hd : F.depth b = F.depth c) : b = c := by
  obtain ⟨m, hm⟩ := hb
  obtain ⟨n, hn⟩ := hc
  have hmn : m = n := by
    have h1 := depth_up hm
    have h2 := depth_up hn
    omega
  subst hmn
  rw [hm] at hn
  exact Option.some.inj hn

theorem IsAncestorOrSelf.antisymm {a b : α} (hab : F.IsAncestorOrSelf b a)
    (hba : F.IsAncestorOrSelf a b) : a = b :=
  eq_of_isAncestorOrSelf_of_depth_eq (.refl a) hab (Nat.le_antisymm hab.depth_le hba.depth_le).symm

/-- The ancestors of a node form a chain. -/
theorem isAncestorOrSelf_total {a b c : α} (hb : F.IsAncestorOrSelf b a)
    (hc : F.IsAncestorOrSelf c a) : F.IsAncestorOrSelf c b ∨ F.IsAncestorOrSelf b c := by
  obtain ⟨m, hm⟩ := hb
  obtain ⟨n, hn⟩ := hc
  rcases Nat.le_total m n with hle | hle
  · obtain ⟨k, rfl⟩ := Nat.exists_eq_add_of_le hle
    rw [up_add, hm, Option.bind_some] at hn
    exact .inl ⟨k, hn⟩
  · obtain ⟨k, rfl⟩ := Nat.exists_eq_add_of_le hle
    rw [up_add, hn, Option.bind_some] at hm
    exact .inr ⟨k, hm⟩

/-! ## Common ancestors -/

theorem isCommon_self {a c : α} : F.IsCommon a a c ↔ F.IsAncestorOrSelf c a :=
  ⟨fun h => h.1, fun h => ⟨h, h⟩⟩

theorem IsCommon.symm {x y c : α} (h : F.IsCommon x y c) : F.IsCommon y x c := ⟨h.2, h.1⟩

/-- Lifting `x` to its ancestor at the depth of `y` keeps the common ancestors. -/
theorem isCommon_lift {x x' y c : α} (hx : F.IsAncestorOrSelf x' x)
    (hd : F.depth x' = F.depth y) : F.IsCommon x y c ↔ F.IsCommon x' y c := by
  constructor
  · rintro ⟨hcx, hcy⟩
    refine ⟨?_, hcy⟩
    rcases isAncestorOrSelf_total hx hcx with h | h
    · exact h
    · -- `x'` is above `c`, which is no deeper than `y`: they are the same node
      have hle : F.depth c ≤ F.depth x' := hd ▸ hcy.depth_le
      have heq := eq_of_isAncestorOrSelf_of_depth_eq hx hcx (Nat.le_antisymm h.depth_le hle)
      rw [heq]
      exact .refl c
  · rintro ⟨hcx', hcy⟩
    exact ⟨hx.trans hcx', hcy⟩

/-- From two distinct nodes of one depth, the common ancestors are those of their parents. -/
theorem isCommon_of_parents {a b pa pb c : α} (hne : a ≠ b) (hd : F.depth a = F.depth b)
    (ha : F.parent a = some pa) (hb : F.parent b = some pb) :
    F.IsCommon a b c ↔ F.IsCommon pa pb c := by
  constructor
  · rintro ⟨hca, hcb⟩
    -- `c` is neither `a` nor `b`, since one of them would then be above the other
    have hca' : c ≠ a := by
      intro hc
      subst hc
      exact hne (eq_of_isAncestorOrSelf_of_depth_eq hcb (.refl b) hd)
    have hcb' : c ≠ b := by
      intro hc
      subst hc
      exact hne (eq_of_isAncestorOrSelf_of_depth_eq (.refl a) hca hd)
    obtain ⟨pa', hpa', hcpa⟩ := (Iff.mp isAncestorOrSelf_iff hca).resolve_left hca'
    obtain ⟨pb', hpb', hcpb⟩ := (Iff.mp isAncestorOrSelf_iff hcb).resolve_left hcb'
    rw [ha] at hpa'
    rw [hb] at hpb'
    cases hpa'
    cases hpb'
    exact ⟨hcpa, hcpb⟩
  · rintro ⟨hca, hcb⟩
    exact ⟨(IsAncestorOrSelf.of_parent ha).trans hca, (IsAncestorOrSelf.of_parent hb).trans hcb⟩

/-- Nodes with no common ancestor, from one step up: a node without a parent has none
with a distinct node of its depth. -/
theorem not_isCommon_of_root {a b c : α} (hne : a ≠ b) (hd : F.depth a = F.depth b)
    (ha : F.parent a = none) : ¬ F.IsCommon a b c := by
  rintro ⟨hca, hcb⟩
  rcases Iff.mp isAncestorOrSelf_iff hca with hc | ⟨p, hp, -⟩
  · subst hc
    exact hne (eq_of_isAncestorOrSelf_of_depth_eq hcb (.refl b) hd)
  · rw [ha] at hp
    cases hp

theorem IsDeepestCommon.symm {x y c : α} (h : F.IsDeepestCommon x y c) :
    F.IsDeepestCommon y x c :=
  ⟨h.1.symm, fun d hd => h.2 d hd.symm⟩

/-- Above `x`, the ancestors of `y` are those of the deepest common ancestor. -/
theorem isAncestorOrSelf_iff_of_deepest {x y c d : α} (hc : F.IsDeepestCommon x y c)
    (hdx : F.IsAncestorOrSelf d x) : F.IsAncestorOrSelf d y ↔ F.IsAncestorOrSelf d c :=
  ⟨fun hdy => hc.2 d ⟨hdx, hdy⟩, fun hdc => hc.1.2.trans hdc⟩

end Forest
