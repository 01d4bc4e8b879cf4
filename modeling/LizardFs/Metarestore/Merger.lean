import Mathlib
import LizardFs.Lib.ArrayHeap
import LizardFs.Master.RestoreRun

/-!
# metarestore's merge of changelog files

`merger_start` and `merger_loop` (`metarestore/merger.cc`) replay several changelog
files at once — the master's `changelog.*.mfs` and the copies the metaloggers keep —
in the order of their versions. Each file is read line by line by `fgets`; the
version in front of a line is read by `strtoull` and taken only while it goes up by
less than `maxidhole` (`merger_nextentry`); the files with a line to offer sit in a
min-heap on that version (`heap`, `heapsize`), and the loop hands the line at the
root to `restore()`, reads the next line of that file, and sifts it down.

* `HEntry`, `mergerNextentry`, `mergerNewEntry`, `mergerStart`, `mergerAdvance`,
  `mergerLoop` — the code, with the heap as an array and `restore()` a parameter;
* `fileEntries` — the entries a file still offers, and `mergerTrace` — the entries
  the loop hands to `restore()` while it returns OK;
* `mergerLoop_eq_runSteps` — the loop is `restore()` over `mergerTrace`;
* `mergerTrace_perm` and `mergerTrace_sorted` — the loop hands on every entry of
  every file once, in the order of their versions.
-/

namespace LizardFs

open CString ArrayHeap

/-- An entry of the heap: a changelog file being read. `lines` are the lines `fgets`
has still to read, `ptr` the line read last after its version, `nextid` that
version, `0` once the file is done (the file name, the descriptor and the buffer
are left out). -/
structure HEntry where
  lines : List Bytes
  ptr : Bytes
  nextid : UInt64
  deriving Inhabited

/-- The heap's order: `nextid`, compared as the `uint64_t` it is. -/
def HEntry.key (h : HEntry) : ℕ := h.nextid.toNat

/-- `merger_nextentry(pos)`: the next line of the file, and its version while it
goes up by less than `maxidhole`; at the end of the file, or at a line that does not
("found garbage at the end of file"), `nextid` is `0`. -/
def mergerNextentry (maxidhole : UInt64) (h : HEntry) : HEntry :=
  match h.lines with
  | [] => { h with nextid := 0 }
  | line :: lines =>
    -- `nextid = strtoull(buff, &ptr, 10)`
    if h.nextid = 0 ∨ (h.nextid < (strtoul line).1 ∧ (strtoul line).1 < h.nextid + maxidhole) then
      ⟨lines, (strtoul line).2, (strtoul line).1⟩
    else ⟨lines, (strtoul line).2, 0⟩

/-- `merger_new_entry(filename)`: the first line of the file, or nothing when it
cannot be opened. The first line is taken whatever `maxidhole` is, since `nextid`
is still `0`. -/
def mergerNewEntry (maxidhole : UInt64) : Option (List Bytes) → HEntry
  | some lines => mergerNextentry maxidhole ⟨lines, [], 0⟩
  | none => ⟨[], [], 0⟩

/-- The body of `merger_start`'s loop over the files: a file with a first entry is
put at the end of the heap and sifted up (`merger_heap_sort_up`), any other is
dropped (`merger_delete_entry`). -/
def mergerAddFile (maxidhole : UInt64) (hn : (ℕ → HEntry) × ℕ) (file : Option (List Bytes)) : (ℕ → HEntry) × ℕ :=
  if (mergerNewEntry maxidhole file).nextid = 0 then hn
  else (siftUp HEntry.key (Function.update hn.1 hn.2 (mergerNewEntry maxidhole file)) hn.2, hn.2 + 1)

/-- `merger_start(filenames, maxhole)`: the heap of the files with a first entry. -/
def mergerStart (maxidhole : UInt64) (files : List (Option (List Bytes))) : (ℕ → HEntry) × ℕ :=
  files.foldl (mergerAddFile maxidhole) (fun _ => default, 0)

/-- The turn of `merger_loop` after `restore()` returned OK: `merger_nextentry(0)`;
a file that is done is swapped with the last entry and dropped; then
`merger_heap_sort_down()`. -/
def mergerAdvance (maxidhole : UInt64) (heap : ℕ → HEntry) (n : ℕ) : (ℕ → HEntry) × ℕ :=
  if (mergerNextentry maxidhole (heap 0)).nextid = 0 then
    (siftDown HEntry.key (n - 1) (swap (Function.update heap 0 (mergerNextentry maxidhole (heap 0))) 0 (n - 1)) 0,
      n - 1)
  else (siftDown HEntry.key n (Function.update heap 0 (mergerNextentry maxidhole (heap 0))) 0, n)

/-- What is left to read in the heap: one for each entry and each of its lines. -/
def mergerMeasure (heap : ℕ → HEntry) (n : ℕ) : ℕ := (((List.range n).map heap).map fun e => e.lines.length + 1).sum

/-! ## Reading a file -/

section File

variable (maxidhole : UInt64)

/-- `fgets` takes one line, if there is one left. -/
theorem mergerNextentry_lines (h : HEntry) : (mergerNextentry maxidhole h).lines = h.lines.tail := by
  unfold mergerNextentry
  split
  · rename_i hl
    exact hl ▸ rfl
  · rename_i line lines hl
    rw [hl]
    split <;> rfl

/-- There is a next entry only where there was a line left. -/
theorem lines_ne_nil_of_mergerNextentry {h : HEntry} (h1 : (mergerNextentry maxidhole h).nextid ≠ 0) :
    h.lines ≠ [] := by
  intro hl
  unfold mergerNextentry at h1
  rw [hl] at h1
  exact h1 rfl

/-- The versions of a file go up: an entry taken after another has a greater version. -/
theorem nextid_lt_mergerNextentry {h : HEntry} (h0 : h.nextid ≠ 0) (h1 : (mergerNextentry maxidhole h).nextid ≠ 0) :
    h.nextid < (mergerNextentry maxidhole h).nextid := by
  unfold mergerNextentry at h1 ⊢
  cases hl : h.lines with
  | nil =>
    simp only [hl] at h1
    exact absurd rfl h1
  | cons line lines =>
    simp only [hl] at h1 ⊢
    split_ifs at h1 ⊢ with hacc
    · exact (hacc.resolve_left h0).1
    · exact absurd rfl h1

/-- What is left of a file: its lines, and one for the entry it still offers. -/
theorem mergerNextentry_measure_lt (h : HEntry) :
    (mergerNextentry maxidhole h).lines.length + (if (mergerNextentry maxidhole h).nextid = 0 then 0 else 1) <
      h.lines.length + 1 := by
  rw [mergerNextentry_lines, List.length_tail]
  split
  · omega
  · rename_i h1
    have := List.length_pos_iff.mpr (lines_ne_nil_of_mergerNextentry maxidhole h1)
    omega

/-- The entries a file offers from the entry `h` on: `h` itself and the ones
`merger_nextentry` takes after it, until the end of the file or a version out of
order. -/
def fileEntries (h : HEntry) : List (UInt64 × Bytes) :=
  if h.nextid = 0 then [] else (h.nextid, h.ptr) :: fileEntries (mergerNextentry maxidhole h)
termination_by h.lines.length + if h.nextid = 0 then 0 else 1
decreasing_by
  rename_i h0
  simpa [h0] using mergerNextentry_measure_lt maxidhole h

/-- The entries of a file: those from its first line on. -/
def acceptedEntries (file : Option (List Bytes)) : List (UInt64 × Bytes) :=
  fileEntries maxidhole (mergerNewEntry maxidhole file)

theorem fileEntries_of_eq_zero {h : HEntry} (h0 : h.nextid = 0) : fileEntries maxidhole h = [] := by
  rw [fileEntries, if_pos h0]

theorem fileEntries_of_ne_zero {h : HEntry} (h0 : h.nextid ≠ 0) :
    fileEntries maxidhole h = (h.nextid, h.ptr) :: fileEntries maxidhole (mergerNextentry maxidhole h) := by
  rw [fileEntries, if_neg h0]

/-- The entry a file offers first has the least version of all it offers. -/
theorem nextid_le_of_mem_fileEntries (h : HEntry) : ∀ x ∈ fileEntries maxidhole h, h.nextid ≤ x.1 := by
  induction h using fileEntries.induct maxidhole with
  | case1 h h0 =>
    rw [fileEntries_of_eq_zero maxidhole h0]
    exact fun x hx => absurd hx List.not_mem_nil
  | case2 h h0 ih =>
    rw [fileEntries_of_ne_zero maxidhole h0]
    rintro x (_ | ⟨_, hx⟩)
    · exact UInt64.le_refl _
    · -- a later entry: the next one was taken, so it is above `h`
      by_cases h1 : (mergerNextentry maxidhole h).nextid = 0
      · rw [fileEntries_of_eq_zero maxidhole h1] at hx
        exact absurd hx List.not_mem_nil
      · exact UInt64.le_trans (UInt64.le_of_lt (nextid_lt_mergerNextentry maxidhole h0 h1)) (ih x hx)

end File

/-! ## The heap between two turns -/

/-- What the loop has still to hand on: the entries every file in the heap offers. -/
def mergerPending (maxidhole : UInt64) (heap : ℕ → HEntry) (n : ℕ) : List (UInt64 × Bytes) :=
  ((List.range n).map heap).flatMap (fileEntries maxidhole)

/-- The heap `merger_start` builds and every turn of `merger_loop` keeps: a heap on
`nextid`, of files that each offer an entry. -/
structure MergerHeap (heap : ℕ → HEntry) (n : ℕ) : Prop where
  isHeap : IsHeap HEntry.key n heap
  live : ∀ i, i < n → (heap i).nextid ≠ 0

section Turn

variable {maxidhole : UInt64} {heap : ℕ → HEntry} {n : ℕ}

/-- A turn only moves the entries of the heap, the root read one line on, and drops
the root when its file is done. -/
theorem mergerAdvance_perm (maxidhole : UInt64) (heap : ℕ → HEntry) {n : ℕ} (hn : n ≠ 0) :
    ((List.range n).map (Function.update heap 0 (mergerNextentry maxidhole (heap 0)))).Perm
      ((List.range (mergerAdvance maxidhole heap n).2).map (mergerAdvance maxidhole heap n).1 ++
        if (mergerNextentry maxidhole (heap 0)).nextid = 0 then [mergerNextentry maxidhole (heap 0)] else []) := by
  unfold mergerAdvance
  split_ifs with h1
  · -- the file is done: it was swapped to the end, out of the heap
    have hp := perm_swap_last (Function.update heap 0 (mergerNextentry maxidhole (heap 0))) (Nat.pos_of_ne_zero hn)
    rw [Function.update_self] at hp
    exact hp.trans ((perm_siftDown _ _).symm.append_right _)
  · rw [List.append_nil]
    exact (perm_siftDown _ _).symm

theorem mergerMeasure_advance_lt (hn : n ≠ 0) :
    mergerMeasure (mergerAdvance maxidhole heap n).1 (mergerAdvance maxidhole heap n).2 < mergerMeasure heap n := by
  obtain ⟨k, rfl⟩ : ∃ k, n = k + 1 := ⟨n - 1, by omega⟩
  have hsum := ((mergerAdvance_perm maxidhole heap hn).map
    fun e : HEntry => e.lines.length + 1).sum_eq
  have hroot := mergerNextentry_measure_lt maxidhole (heap 0)
  have hheap : (List.range (k + 1)).map heap = heap 0 :: (List.range k).map fun i => heap (i + 1) := by
    rw [List.range_succ_eq_map]
    simp
  rw [map_range_update_zero, List.map_cons, List.sum_cons, List.map_append, List.sum_append] at hsum
  unfold mergerMeasure
  rw [hheap, List.map_cons, List.sum_cons]
  split_ifs at hsum hroot with h1 <;> simp only [List.map_cons, List.map_nil, List.sum_cons, List.sum_nil] at hsum <;>
    omega

/-- Every turn hands on the root's entry; the root's file then offers the rest of
its entries, and the other files theirs. -/
theorem mergerPending_advance (hn : n ≠ 0) (h0 : (heap 0).nextid ≠ 0) :
    (mergerPending maxidhole heap n).Perm
      (((heap 0).nextid, (heap 0).ptr) ::
        mergerPending maxidhole (mergerAdvance maxidhole heap n).1 (mergerAdvance maxidhole heap n).2) := by
  obtain ⟨k, rfl⟩ : ∃ k, n = k + 1 := ⟨n - 1, by omega⟩
  have hp := (mergerAdvance_perm maxidhole heap hn).flatMap_right (fileEntries maxidhole)
  have hheap : (List.range (k + 1)).map heap = heap 0 :: (List.range k).map fun i => heap (i + 1) := by
    rw [List.range_succ_eq_map]
    simp
  rw [map_range_update_zero, List.flatMap_cons, List.flatMap_append] at hp
  unfold mergerPending
  rw [hheap, List.flatMap_cons, fileEntries_of_ne_zero maxidhole h0, List.cons_append]
  refine List.Perm.cons _ ?_
  -- a file that is done offers nothing more
  split_ifs at hp with h1
  · rw [List.flatMap_singleton, fileEntries_of_eq_zero maxidhole h1, List.append_nil] at hp
    rw [fileEntries_of_eq_zero maxidhole h1]
    exact hp
  · rwa [List.flatMap_nil, List.append_nil] at hp

/-- Every turn keeps the heap. -/
theorem MergerHeap.advance (hI : MergerHeap heap n) :
    MergerHeap (mergerAdvance maxidhole heap n).1 (mergerAdvance maxidhole heap n).2 := by
  unfold mergerAdvance
  split_ifs with h1
  · -- the last entry moves to the root and is sifted down
    have hswap : ∀ i, 0 < i → i < n - 1 →
        swap (Function.update heap 0 (mergerNextentry maxidhole (heap 0))) 0 (n - 1) i = heap i := by
      intro i hi hin
      rw [swap_of_ne _ hi.ne' (by omega), Function.update_of_ne hi.ne']
    refine ⟨siftDown_isHeap (hI.isHeap.downOrder (by omega) hswap), ?_⟩
    refine forall_of_perm (P := fun e : HEntry => e.nextid ≠ 0) (perm_siftDown _ _) fun i hi => ?_
    rcases Nat.eq_zero_or_pos i with rfl | hi0
    · rw [swap_left, Function.update_of_ne (by omega)]
      exact hI.live _ (by omega)
    · rw [hswap i hi0 hi]
      exact hI.live i (by omega)
  · -- the root's next entry is sifted down
    have hupd : ∀ i, 0 < i → i < n → Function.update heap 0 (mergerNextentry maxidhole (heap 0)) i = heap i :=
      fun i hi _ => Function.update_of_ne hi.ne' _ _
    refine ⟨siftDown_isHeap (hI.isHeap.downOrder le_rfl hupd), ?_⟩
    refine forall_of_perm (P := fun e : HEntry => e.nextid ≠ 0) (perm_siftDown _ _) fun i hi => ?_
    rcases Nat.eq_zero_or_pos i with rfl | hi0
    · rwa [Function.update_self]
    · rw [hupd i hi0 hi]
      exact hI.live i hi

/-- The root's entry has the least version of all the heap still offers. -/
theorem MergerHeap.root_le_pending (hI : MergerHeap heap n) :
    ∀ x ∈ mergerPending maxidhole heap n, (heap 0).nextid ≤ x.1 := by
  intro x hx
  obtain ⟨e, he, hxe⟩ := List.mem_flatMap.mp hx
  obtain ⟨i, hi, rfl⟩ := List.mem_map.mp he
  have hroot : (heap 0).key ≤ (heap i).key := hI.isHeap.root_le i (List.mem_range.mp hi)
  exact UInt64.le_trans (UInt64.le_iff_toNat_le.mpr hroot) (nextid_le_of_mem_fileEntries maxidhole _ x hxe)

end Turn

/-! ## The merged sequence -/

/-- The entries `merger_loop` hands to `restore()` while it returns OK: the root's,
then those after the turn. -/
def mergerTrace (maxidhole : UInt64) (heap : ℕ → HEntry) (n : ℕ) : List (UInt64 × Bytes) :=
  if n = 0 then []
  else ((heap 0).nextid, (heap 0).ptr) ::
    mergerTrace maxidhole (mergerAdvance maxidhole heap n).1 (mergerAdvance maxidhole heap n).2
termination_by mergerMeasure heap n
decreasing_by exact mergerMeasure_advance_lt ‹_›

/-- From the heap, the loop hands on what the files offer, each entry once, in the
order of the versions. -/
theorem MergerHeap.trace (maxidhole : UInt64) {heap : ℕ → HEntry} {n : ℕ} (hI : MergerHeap heap n) :
    (mergerTrace maxidhole heap n).Perm (mergerPending maxidhole heap n) ∧
      (mergerTrace maxidhole heap n).Pairwise fun a b => a.1 ≤ b.1 := by
  -- induction along the loop's turns, the heap kept by each
  induction heap, n using mergerTrace.induct maxidhole with
  | case1 heap =>
    simp [mergerTrace, mergerPending]
  | case2 heap n hn ih =>
    obtain ⟨hperm, hsort⟩ := ih hI.advance
    have hpend : (mergerPending maxidhole heap n).Perm _ := mergerPending_advance hn (hI.live 0 (Nat.pos_of_ne_zero hn))
    rw [mergerTrace, if_neg hn]
    refine ⟨(hperm.cons _).trans hpend.symm, List.pairwise_cons.mpr ⟨fun x hx => ?_, hsort⟩⟩
    -- what comes later is still offered by the heap now
    have hx' : x ∈ mergerPending maxidhole heap n :=
      hpend.mem_iff.mpr (List.mem_cons_of_mem _ (hperm.mem_iff.mp hx))
    exact hI.root_le_pending x hx'

/-! ## Building the heap -/

section Start

variable (maxidhole : UInt64)

/-- Adding a file keeps the heap, and adds the file's entries to what it offers. -/
theorem MergerHeap.addFile {hn : (ℕ → HEntry) × ℕ} (hI : MergerHeap hn.1 hn.2) (file : Option (List Bytes)) :
    MergerHeap (mergerAddFile maxidhole hn file).1 (mergerAddFile maxidhole hn file).2 ∧
      (mergerPending maxidhole (mergerAddFile maxidhole hn file).1 (mergerAddFile maxidhole hn file).2).Perm
        (mergerPending maxidhole hn.1 hn.2 ++ acceptedEntries maxidhole file) := by
  obtain ⟨heap, n⟩ := hn
  unfold mergerAddFile acceptedEntries
  split_ifs with h0
  · rw [fileEntries_of_eq_zero maxidhole h0, List.append_nil]
    exact ⟨hI, List.Perm.refl _⟩
  · -- the new entry is put at the end and sifted up
    have hupd : ∀ i, i < n → Function.update heap n (mergerNewEntry maxidhole file) i = heap i :=
      fun i hi => Function.update_of_ne hi.ne _ _
    have hp : ((List.range (n + 1)).map (siftUp HEntry.key _ n)).Perm _ :=
      perm_siftUp (Function.update heap n (mergerNewEntry maxidhole file)) (Nat.lt_succ_self n)
    refine ⟨⟨siftUp_isHeap (hI.isHeap.congr hupd).upOrder (Nat.lt_succ_self n), ?_⟩, ?_⟩
    · refine forall_of_perm (P := fun e : HEntry => e.nextid ≠ 0) hp fun i hi => ?_
      rcases Nat.lt_succ_iff_lt_or_eq.mp hi with hi | rfl
      · rw [hupd i hi]
        exact hI.live i hi
      · rwa [Function.update_self]
    · have hpend := hp.flatMap_right (fileEntries maxidhole)
      rwa [map_range_update_last, List.flatMap_append, List.flatMap_singleton] at hpend

/-- `merger_start` over the files from a heap: it offers what it did, then the
entries of each file in turn. -/
theorem MergerHeap.foldl_addFile {hn : (ℕ → HEntry) × ℕ} (hI : MergerHeap hn.1 hn.2) (files : List (Option (List Bytes))) :
    MergerHeap (files.foldl (mergerAddFile maxidhole) hn).1 (files.foldl (mergerAddFile maxidhole) hn).2 ∧
      (mergerPending maxidhole (files.foldl (mergerAddFile maxidhole) hn).1 (files.foldl (mergerAddFile maxidhole) hn).2).Perm
        (mergerPending maxidhole hn.1 hn.2 ++ files.flatMap (acceptedEntries maxidhole)) := by
  induction files generalizing hn with
  | nil =>
    rw [List.foldl_nil, List.flatMap_nil, List.append_nil]
    exact ⟨hI, List.Perm.refl _⟩
  | cons file files ih =>
    obtain ⟨hI', hp'⟩ := hI.addFile maxidhole file
    obtain ⟨hI'', hp''⟩ := ih hI'
    rw [List.foldl_cons, List.flatMap_cons, ← List.append_assoc]
    exact ⟨hI'', hp''.trans (hp'.append_right _)⟩

/-- `merger_start` builds a heap that offers the entries of every file. -/
theorem mergerStart_heap (files : List (Option (List Bytes))) :
    MergerHeap (mergerStart maxidhole files).1 (mergerStart maxidhole files).2 ∧
      (mergerPending maxidhole (mergerStart maxidhole files).1 (mergerStart maxidhole files).2).Perm
        (files.flatMap (acceptedEntries maxidhole)) := by
  have hI : MergerHeap ((fun _ => default, 0) : (ℕ → HEntry) × ℕ).1 ((fun _ => default, 0) : (ℕ → HEntry) × ℕ).2 :=
    ⟨fun _ _ h0 => absurd h0 (Nat.not_lt_zero _), fun _ h0 => absurd h0 (Nat.not_lt_zero _)⟩
  have hnil : mergerPending maxidhole ((fun _ => default, 0) : (ℕ → HEntry) × ℕ).1
      ((fun _ => default, 0) : (ℕ → HEntry) × ℕ).2 = [] := rfl
  have h := hI.foldl_addFile maxidhole files
  rw [hnil, List.nil_append] at h
  exact h

end Start


/-! ## The loop -/

/-- The entries `merger_loop` hands to `restore()` after `merger_start(filenames,
maxhole)`, while it returns OK. -/
def mergedEntries (maxidhole : UInt64) (files : List (Option (List Bytes))) : List (UInt64 × Bytes) :=
  mergerTrace maxidhole (mergerStart maxidhole files).1 (mergerStart maxidhole files).2

/-- **The merge.** `merger_start` and `merger_loop` hand to `restore()` every entry
of every file, each once, in the order of the versions. -/
theorem mergedEntries_perm_sorted (maxidhole : UInt64) (files : List (Option (List Bytes))) :
    (mergedEntries maxidhole files).Perm (files.flatMap (acceptedEntries maxidhole)) ∧
      (mergedEntries maxidhole files).Pairwise fun a b => a.1 ≤ b.1 := by
  obtain ⟨hI, hpend⟩ := mergerStart_heap maxidhole files
  obtain ⟨hperm, hsort⟩ := hI.trace maxidhole
  exact ⟨hperm.trans hpend, hsort⟩

section Loop

variable {σ : Type} (fsGetversion : σ → UInt64) (applyLine : σ → Bytes → LineStatus × σ)

/-- `merger_loop()`: `restore()`, ignoring parse errors, on the root's entry, until
it fails or the heap is empty. -/
def mergerLoop (maxidhole : UInt64) (heap : ℕ → HEntry) (n : ℕ) (vs : RestoreVersions) (m : σ) :
    RestoreVersions × σ × UInt8 :=
  if n = 0 then (vs, m, 0)
  else
    match restore fsGetversion applyLine vs m (heap 0).nextid (heap 0).ptr .ignoreParseErrors with
    | (vs', m', 0) => mergerLoop maxidhole (mergerAdvance maxidhole heap n).1 (mergerAdvance maxidhole heap n).2 vs' m'
    | r => r
termination_by mergerMeasure heap n
decreasing_by exact mergerMeasure_advance_lt ‹_›

/-- `merger_loop` is the callers' loop of `restore()` over the entries of
`mergerTrace`. -/
theorem mergerLoop_eq_restoreRun (maxidhole : UInt64) (heap : ℕ → HEntry) (n : ℕ) (vs : RestoreVersions) (m : σ) :
    mergerLoop fsGetversion applyLine maxidhole heap n vs m =
      restoreRun fsGetversion applyLine .ignoreParseErrors vs m (mergerTrace maxidhole heap n) := by
  -- induction along the loop's turns, from any versions and metadata
  induction heap, n using mergerTrace.induct maxidhole generalizing vs m with
  | case1 heap =>
    rw [mergerLoop, mergerTrace, if_pos rfl, if_pos rfl, restoreRun_nil]
  | case2 heap n hn ih =>
    rw [mergerLoop, mergerTrace, if_neg hn, if_neg hn]
    rcases hr : restore fsGetversion applyLine vs m (heap 0).nextid (heap 0).ptr .ignoreParseErrors
      with ⟨vs', m', code⟩
    by_cases hcode : code = 0
    · subst hcode
      rw [restoreRun_cons_of_ok fsGetversion applyLine _ hr]
      exact ih vs' m'
    · rw [restoreRun_cons_of_ne fsGetversion applyLine _ hr hcode]
      split
      · rename_i heq
        exact absurd (Prod.mk.inj (Prod.mk.inj heq).2).2 hcode
      · rfl

end Loop

end LizardFs
