import LizardFs.Locks.FileLocks
import LizardFs.Lib.Paging
import Mathlib.Algebra.Order.BigOperators.Group.List
import Mathlib.Algebra.Order.Group.Nat

/-!
# Listing the locks

Model of `copyToVector` and `copyInodeToVector` of `src/master/locks.cc`, behind
`fs_locks_list_all` and `fs_locks_list_inode`. A listing enumerates one
`lzfs_locks::Info` per owner of every lock, in container order, and returns the
`count` entries from position `index` on: `index` and `count` are `int64_t`, and the
loop skips whole locks while `pos + owners.size() <= index` (a comparison of
`uint64_t` values), then the owners of the first lock it reaches before `index`, and
stops when `count` drops to 0.

`copyLoop_eq` proves that the loop returns exactly the requested slice of the
enumeration, a page boundary inside the owners of a shared lock included, and
`lockListings_paginate` carries that to the four listings of a `FileLocks`: each pages
its enumeration, so reading it page after page lists every (lock, owner) pair once.
-/

namespace LizardFs

/-- `lzfs_locks::Info`: one owner of one lock, as the master lists and stores it. -/
structure LockInfo where
  version : ℕ
  inode : ℕ
  owner : ℕ
  sessionid : ℕ
  type : ℕ
  start : ℕ
  end_ : ℕ
  deriving DecidableEq, Repr

/-- `static_cast<uint16_t>(lock.type)`: the `lzfs_locks` constant of a lock type. -/
def LockType.code : LockType → ℕ
  | .invalid => 0
  | .unlock => 1
  | .shared => 2
  | .exclusive => 4

/-- The entry of owner `o` of `lock` on `inode`, with version 0. -/
def LockInfo.ofOwner (inode : ℕ) (lock : LockRange) (o : Owner) : LockInfo :=
  ⟨0, inode, o.owner, o.sessionid, lock.type.code, lock.start, lock.end_⟩

namespace Listing

/-- A signed or unsigned 64-bit value read as a `uint64_t`. -/
def asUInt64 (z : ℤ) : ℕ := (z % 2 ^ 64).toNat

/-- The locks of a container in its order, each with its inode. -/
def locksOf (fullData : List (ℕ × List LockRange)) : List (ℕ × LockRange) :=
  fullData.flatMap fun entry => entry.2.map fun lock => (entry.1, lock)

/-- The enumeration a listing pages: one entry per owner of every lock. -/
def entries (locks : List (ℕ × LockRange)) : List LockInfo :=
  locks.flatMap fun p => p.2.owners.map (LockInfo.ofOwner p.1 p.2)

/-- The owner loop: push the entry of each owner, and stop once `--count <= 0`.
Returns the entries and what is left of `count`. -/
def pushOwners (inode : ℕ) (lock : LockRange) : List Owner → ℤ → List LockInfo × ℤ
  | [], count => ([], count)
  | o :: os, count =>
    if count - 1 ≤ 0 then ([LockInfo.ofOwner inode lock o], count - 1)
    else
      let (pushed, left) := pushOwners inode lock os (count - 1)
      (LockInfo.ofOwner inode lock o :: pushed, left)

/-- The lock loop of `copyToVector` and `copyInodeToVector`: skip a lock whose owners
all stand before `index`, else push its owners from the one at `index` on; the function
returns when the owner loop has used up `count`. -/
def copyLoop (index : ℤ) : List (ℕ × LockRange) → ℤ → ℤ → List LockInfo
  | [], _, _ => []
  | (inode, lock) :: rest, pos, count =>
    if asUInt64 (pos + lock.owners.length) ≤ asUInt64 index then
      copyLoop index rest (pos + lock.owners.length) count
    else
      let skip := max (index - pos) 0
      let (pushed, left) := pushOwners inode lock (lock.owners.drop skip.toNat) count
      if left ≤ 0 then pushed else pushed ++ copyLoop index rest (pos + skip) left

/-- `copyToVector(full_data, index, count, data)`. -/
def copyToVector (fullData : List (ℕ × List LockRange)) (index count : ℤ) : List LockInfo :=
  if count ≤ 0 then [] else copyLoop index (locksOf fullData) 0 count

/-- `copyInodeToVector(lock_data, inode, index, count, data)`. -/
def copyInodeToVector (lockData : List LockRange) (inode : ℕ) (index count : ℤ) :
    List LockInfo :=
  if count ≤ 0 then [] else copyLoop index (lockData.map fun lock => (inode, lock)) 0 count

/-! ## The loop returns the requested slice -/

theorem asUInt64_of_lt {z : ℤ} (h0 : 0 ≤ z) (h : z < 2 ^ 64) : (asUInt64 z : ℤ) = z := by
  rw [asUInt64, Int.emod_eq_of_lt h0 h, Int.toNat_of_nonneg h0]

@[simp] theorem entries_nil : entries [] = [] := rfl

theorem entries_cons (inode : ℕ) (lock : LockRange) (rest : List (ℕ × LockRange)) :
    entries ((inode, lock) :: rest) =
      lock.owners.map (LockInfo.ofOwner inode lock) ++ entries rest := rfl

/-- The owner loop pushes the first `count` owners' entries and counts them off. -/
theorem pushOwners_eq (inode : ℕ) (lock : LockRange) : ∀ (os : List Owner) (count : ℤ),
    0 < count → pushOwners inode lock os count =
      ((os.map (LockInfo.ofOwner inode lock)).take count.toNat, count - min count os.length)
  | [], count, _ => by
    simp only [pushOwners, List.map_nil, List.take_nil, List.length_nil, Prod.mk.injEq, true_and]
    omega
  | o :: os, count, hc => by
    simp only [pushOwners]
    split
    · next h1 =>
      have hone : count.toNat = 0 + 1 := by omega
      rw [hone, List.map_cons, List.take_succ_cons, List.take_zero, List.length_cons]
      congr 1
      omega
    · next h1 =>
      rw [pushOwners_eq inode lock os (count - 1) (by omega)]
      have hsucc : count.toNat = (count - 1).toNat + 1 := by omega
      rw [hsucc, List.map_cons, List.take_succ_cons, List.length_cons]
      congr 1
      omega

/-- The lock loop from position `pos ≤ index` with `count` left returns the entries of
the rest of the enumeration from `index` on, `count` of them at most. The bound on the
enumeration keeps the `uint64_t` sums from wrapping. -/
theorem copyLoop_eq (index : ℤ) (hindex : index < 2 ^ 63) :
    ∀ (locks : List (ℕ × LockRange)) (pos count : ℤ), 0 ≤ pos → pos ≤ index → 0 < count →
      ((entries locks).length : ℤ) < 2 ^ 63 →
      copyLoop index locks pos count =
        ((entries locks).drop (index - pos).toNat).take count.toNat := by
  intro locks
  -- induction on the locks, for every position and count left
  induction locks with
  | nil => intro pos count _ _ _ _; simp [copyLoop]
  | cons p rest ih =>
    obtain ⟨inode, lock⟩ := p
    intro pos count hpos hle hc hlen
    have hlen' : ((entries rest).length : ℤ) + lock.owners.length < 2 ^ 63 := by
      rw [entries_cons, List.length_append, List.length_map] at hlen
      push_cast at hlen
      omega
    -- the comparison of the source is unsigned, but no sum here reaches 2^64
    have hcmp : asUInt64 (pos + lock.owners.length) ≤ asUInt64 index ↔
        pos + lock.owners.length ≤ index := by
      have h1 := asUInt64_of_lt (z := pos + lock.owners.length) (by omega) (by omega)
      have h2 := asUInt64_of_lt (z := index) (by omega) (by omega)
      omega
    rw [entries_cons]
    simp only [copyLoop]
    by_cases hskip : pos + lock.owners.length ≤ index
    · -- the whole lock stands before `index`
      rw [if_pos (hcmp.mpr hskip), ih _ count (by omega) hskip hc (by omega), List.drop_append]
      have hdrop : (lock.owners.map (LockInfo.ofOwner inode lock)).drop (index - pos).toNat = [] :=
        List.drop_eq_nil_of_le (by rw [List.length_map]; omega)
      rw [hdrop, List.nil_append, List.length_map]
      congr 2
      omega
    · -- the page starts inside this lock's owners
      rw [if_neg (fun h => hskip (hcmp.mp h))]
      have hmax : max (index - pos) 0 = index - pos := max_eq_left (by omega)
      simp only [hmax]
      rw [pushOwners_eq inode lock _ count hc, List.drop_append, ← List.map_drop,
        List.length_map, List.length_drop]
      have hnil : (index - pos).toNat - lock.owners.length = 0 := by omega
      rw [hnil, List.drop_zero]
      split
      · next hleft =>
        -- the page ends inside this lock too
        rw [List.take_append_of_le_length (by rw [List.length_map, List.length_drop]; omega)]
      · next hleft =>
        rw [ih _ _ (by omega) (by omega) (by omega) (by omega),
          List.take_append, List.take_of_length_le (by rw [List.length_map, List.length_drop]; omega),
          List.length_map, List.length_drop]
        have hzero : (index - (pos + (index - pos))).toNat = 0 := by omega
        rw [hzero, List.drop_zero]
        congr 2
        omega

end Listing

namespace FileLocks

open Listing

/-- `copyActiveToVector(index, count, data)`. -/
def copyActiveToVector (fl : FileLocks) (index count : ℤ) : List LockInfo :=
  copyToVector (fl.active.map fun entry => (entry.1, entry.2.data)) index count

/-- `copyPendingToVector(index, count, data)`. -/
def copyPendingToVector (fl : FileLocks) (index count : ℤ) : List LockInfo :=
  copyToVector fl.pending index count

/-- `copyActiveToVector(inode, index, count, data)`. -/
def copyActiveInodeToVector (fl : FileLocks) (inode : ℕ) (index count : ℤ) : List LockInfo :=
  match AssocList.find? fl.active inode with
  | none => []
  | some locks => copyInodeToVector locks.data inode index count

/-- `copyPendingToVector(inode, index, count, data)`. -/
def copyPendingInodeToVector (fl : FileLocks) (inode : ℕ) (index count : ℤ) : List LockInfo :=
  match AssocList.find? fl.pending inode with
  | none => []
  | some queue => copyInodeToVector queue inode index count

/-- The active locks' entries, inode after inode. -/
def activeEntries (fl : FileLocks) : List LockInfo :=
  entries (locksOf (fl.active.map fun entry => (entry.1, entry.2.data)))

/-- The pending locks' entries, inode after inode. -/
def pendingEntries (fl : FileLocks) : List LockInfo := entries (locksOf fl.pending)

/-- The entries of the active locks of one inode. -/
def activeInodeEntries (fl : FileLocks) (inode : ℕ) : List LockInfo :=
  match AssocList.find? fl.active inode with
  | none => []
  | some locks => entries (locks.data.map fun lock => (inode, lock))

/-- The entries of the pending locks of one inode. -/
def pendingInodeEntries (fl : FileLocks) (inode : ℕ) : List LockInfo :=
  match AssocList.find? fl.pending inode with
  | none => []
  | some queue => entries (queue.map fun lock => (inode, lock))

end FileLocks

namespace Listing

open Paging

/-- `copyToVector` pages the enumeration of its container. -/
theorem copyToVector_pages (fullData : List (ℕ × List LockRange))
    (hlen : ((entries (locksOf fullData)).length : ℤ) < 2 ^ 63) :
    Pages (2 ^ 63) (copyToVector fullData) (entries (locksOf fullData)) := by
  intro index count h0 hB hc
  rw [copyToVector, if_neg (by omega), copyLoop_eq index hB _ 0 count (Int.le_refl 0) h0 hc hlen,
    Int.sub_zero]

/-- `copyInodeToVector` pages the enumeration of one inode's locks. -/
theorem copyInodeToVector_pages (lockData : List LockRange) (inode : ℕ)
    (hlen : ((entries (lockData.map fun lock => (inode, lock))).length : ℤ) < 2 ^ 63) :
    Pages (2 ^ 63) (copyInodeToVector lockData inode)
      (entries (lockData.map fun lock => (inode, lock))) := by
  intro index count h0 hB hc
  rw [copyInodeToVector, if_neg (by omega), copyLoop_eq index hB _ 0 count (Int.le_refl 0) h0 hc hlen,
    Int.sub_zero]

/-- A listing that pages its enumeration reads it whole, each entry once, page after
page of any size below `2^63`. -/
def PagedListing (f : ℤ → ℤ → List LockInfo) (l : List LockInfo) : Prop :=
  Pages (2 ^ 63) f l ∧ ∀ k n : ℕ, 0 < k → l.length ≤ n * k → ((n * k : ℕ) : ℤ) ≤ 2 ^ 63 →
    readAll f k n = l

theorem pagedListing_of_pages {f : ℤ → ℤ → List LockInfo} {l : List LockInfo}
    (hf : Pages (2 ^ 63) f l) : PagedListing f l :=
  ⟨hf, fun _ n hk hlen hn => hf.readAll_eq_self hk n hn hlen⟩

/-- The locks of one inode of an association list are some of the locks of all. -/
theorem length_entries_find_le {β : Type} (m : List (ℕ × β)) (g : β → List LockRange)
    {inode : ℕ} {v : β} (h : AssocList.find? m inode = some v) :
    (entries ((g v).map fun lock => (inode, lock))).length ≤
      (entries (locksOf (m.map fun entry => (entry.1, g entry.2)))).length := by
  obtain ⟨e, he, hv⟩ := Option.map_eq_some_iff.mp h
  have hkey : e.1 = inode := by simpa using List.find?_some he
  have hmem := List.mem_of_find?_eq_some he
  subst hv hkey
  -- the entries of all inodes are the entries of each, one after the other
  have hsplit : entries (locksOf (m.map fun entry => (entry.1, g entry.2))) =
      m.flatMap fun entry => entries ((g entry.2).map fun lock => (entry.1, lock)) := by
    simp only [entries, locksOf, List.flatMap_map, List.flatMap_assoc]
  rw [hsplit, List.length_flatMap]
  exact List.single_le_sum (fun _ _ => Nat.zero_le _) _ (List.mem_map_of_mem hmem)

end Listing

open Listing Paging FileLocks in
/-- The four lock listings of the master page their enumerations, one entry per owner
of every lock in container order: each call with `0 ≤ index < 2^63` and `count > 0`
returns the entries at positions `index .. index + count - 1`, cut at the end, and
reading pages of `k` entries from index 0 until the end lists every (lock, owner) pair
once. -/
theorem lockListings_paginate (fl : FileLocks)
    (hactive : ((activeEntries fl).length : ℤ) < 2 ^ 63)
    (hpending : ((pendingEntries fl).length : ℤ) < 2 ^ 63) :
    PagedListing fl.copyActiveToVector (activeEntries fl) ∧
      PagedListing fl.copyPendingToVector (pendingEntries fl) ∧
      ∀ inode, PagedListing (fl.copyActiveInodeToVector inode) (activeInodeEntries fl inode) ∧
        PagedListing (fl.copyPendingInodeToVector inode) (pendingInodeEntries fl inode) := by
  refine ⟨pagedListing_of_pages (copyToVector_pages _ hactive),
    pagedListing_of_pages (copyToVector_pages _ (by simpa [pendingEntries] using hpending)),
    fun inode => ⟨?_, ?_⟩⟩
  · unfold copyActiveInodeToVector activeInodeEntries
    cases h : AssocList.find? fl.active inode with
    | none => exact pagedListing_of_pages fun _ _ _ _ _ => by simp
    | some locks =>
      have hle := length_entries_find_le fl.active LockRanges.data h
      exact pagedListing_of_pages (copyInodeToVector_pages _ _ (by
        unfold activeEntries at hactive
        omega))
  · unfold copyPendingInodeToVector pendingInodeEntries
    cases h : AssocList.find? fl.pending inode with
    | none => exact pagedListing_of_pages fun _ _ _ _ _ => by simp
    | some queue =>
      have hle := length_entries_find_le fl.pending id h
      simp only [id, List.map_id'] at hle
      exact pagedListing_of_pages (copyInodeToVector_pages _ _ (by
        unfold pendingEntries at hpending
        omega))

/-- Inode 1 with `[0, 10)` locked shared by two owners. -/
def sharedPairLocks : FileLocks :=
  ⟨[(1, ⟨[⟨.shared, 0, 10, [⟨1, 1, 0, 0⟩, ⟨2, 2, 0, 0⟩]⟩]⟩)], []⟩

open Listing FileLocks in
theorem sharedPair_listings_paginate :
    ((activeEntries sharedPairLocks).length : ℤ) < 2 ^ 63 ∧
      ((pendingEntries sharedPairLocks).length : ℤ) < 2 ^ 63 ∧
      PagedListing sharedPairLocks.copyActiveToVector (activeEntries sharedPairLocks) ∧
      PagedListing sharedPairLocks.copyPendingToVector (pendingEntries sharedPairLocks) ∧
      ∀ inode, PagedListing (sharedPairLocks.copyActiveInodeToVector inode)
          (activeInodeEntries sharedPairLocks inode) ∧
        PagedListing (sharedPairLocks.copyPendingInodeToVector inode)
          (pendingInodeEntries sharedPairLocks inode) :=
  ⟨by decide, by decide, lockListings_paginate sharedPairLocks (by decide) (by decide)⟩

/-- A page of one entry from index 1 starts at the second owner of the shared lock. -/
example : sharedPairLocks.copyActiveToVector 1 1 = [⟨0, 1, 2, 2, 2, 0, 10⟩] := by decide

end LizardFs
