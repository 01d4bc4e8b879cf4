import LizardFs.Lib.CounterTable

/-!
# XOR checksums kept incrementally, and recomputed by a background scan

A hash table of objects, each with a stored checksum, and two XOR accumulators:
`total`, the checksum of the whole table, and `scanned`, the checksum a
background pass is rebuilding bucket by bucket. An object is *included* when the
pass has already scanned its bucket. The operations:

* `update` — an object changed: its old checksum leaves both accumulators
  (`scanned` only if the object is included) and its fresh one enters them;
* `insert` — a new object with checksum 0, then `update`;
* `remove` — an object leaves both accumulators and the table;
* `drop` — an object leaves the table only (its checksum is 0);
* `scanBucket` — the pass adds every object of one bucket to `scanned`.

`Tracks` says that the stored checksums are fresh and `total` is the seed XORed
with all of them; `Scanned inc` that `scanned` is the seed XORed with those of
the included objects. The operations keep both, and a scan of the next bucket
moves `Scanned` from the buckets below it to the buckets up to it: once every
bucket is scanned, `scanned` is `total`.
-/

namespace ScannedChecksum

open CounterTable

variable {ι σ : Type} [DecidableEq ι]

/-- An object and its stored checksum. -/
structure Entry (σ : Type) where
  data : σ
  checksum : UInt64

/-- The objects by id, and the two accumulators. -/
structure Table (ι σ : Type) where
  entries : List (ι × Entry σ)
  total : UInt64
  scanned : UInt64

/-- The XOR of the stored checksums of the objects whose id satisfies `p`. -/
def xorWhere (p : ι → Bool) : List (ι × Entry σ) → UInt64
  | [] => 0
  | e :: t => (if p e.1 then e.2.checksum else 0) ^^^ xorWhere p t

section Ops

variable (f : σ → UInt64) (inc : ι → Bool)

/-- `update_checksum` after the object `i` changed by `g`: out of `scanned` if
included and out of `total` with the stored checksum, in with the fresh one. -/
def update (i : ι) (g : σ → σ) (t : Table ι σ) : Table ι σ :=
  match t.entries.lookup i with
  | none => t
  | some e =>
    let d := g e.data
    let scanned := if inc i then t.scanned ^^^ e.checksum else t.scanned
    let total := t.total ^^^ e.checksum ^^^ f d
    let scanned := if inc i then scanned ^^^ f d else scanned
    ⟨replace t.entries i ⟨d, f d⟩, total, scanned⟩

/-- A new object `d` with checksum 0 at the head of its bucket, then `update`. -/
def insert (i : ι) (d : σ) (t : Table ι σ) : Table ι σ :=
  update f inc i id ⟨(i, ⟨d, 0⟩) :: t.entries, t.total, t.scanned⟩

/-- Unlink object `i`: out of `scanned` if included, and out of `total`. -/
def remove (i : ι) (t : Table ι σ) : Table ι σ :=
  match t.entries.lookup i with
  | none => t
  | some e =>
    ⟨t.entries.filter fun e => e.1 ≠ i, t.total ^^^ e.checksum,
      if inc i then t.scanned ^^^ e.checksum else t.scanned⟩

end Ops

/-- Unlink object `i` and leave the accumulators alone. -/
def drop (i : ι) (t : Table ι σ) : Table ι σ := { t with entries := t.entries.filter fun e => e.1 ≠ i }

/-- `*_recalculate_checksum`: every stored checksum recomputed, and `total`
rebuilt from the seed over the whole table. -/
def recalculate (f : σ → UInt64) (seed : UInt64) (t : Table ι σ) : Table ι σ :=
  let entries := t.entries.map fun e => (e.1, (⟨e.2.data, f e.2.data⟩ : Entry σ))
  ⟨entries, entries.foldl (fun acc e => acc ^^^ e.2.checksum) seed, t.scanned⟩

section Scan

variable (f : σ → UInt64) (bucket : ι → Nat)

/-- `*_checksum_add_to_background`: recompute the stored checksum of `i`, fix
`total`, and add the checksum to `scanned`. -/
def addToBackground (i : ι) (t : Table ι σ) : Table ι σ :=
  match t.entries.lookup i with
  | none => t
  | some e => ⟨replace t.entries i ⟨e.data, f e.data⟩, t.total ^^^ e.checksum ^^^ f e.data, t.scanned ^^^ f e.data⟩

/-- The objects of bucket `b`. -/
def bucketIds (b : Nat) (t : Table ι σ) : List ι := (t.entries.filter fun e => bucket e.1 = b).map Prod.fst

/-- One bucket of the pass: every object of bucket `b` added to the background,
and how many there were. -/
def scanBucket (b : Nat) (t : Table ι σ) : Nat × Table ι σ :=
  ((bucketIds bucket b t).length, (bucketIds bucket b t).foldl (fun t i => addToBackground f i t) t)

/-- The loop `while (position < size)` of a pass: scan the bucket at the
position and move past it, and stop once `limit` objects were recalculated in
this call (after a whole bucket). Returns the position, the table, and whether
the limit stopped it. -/
def scanLoop (size limit : Nat) (recalculated pos : Nat) (t : Table ι σ) : Nat × Table ι σ × Bool :=
  if pos < size then
    let r := scanBucket f bucket pos t
    if limit ≤ recalculated + r.1 then (pos + 1, r.2, true)
    else scanLoop size limit (recalculated + r.1) (pos + 1) r.2
  else (pos, t, false)
termination_by size - pos

end Scan

/-! ## The invariants -/

section Invariants

variable (f : σ → UInt64)

/-- Ids are unique, every stored checksum is fresh, and `total` is the seed
XORed with all of them. -/
structure Tracks (seed : UInt64) (t : Table ι σ) : Prop where
  unique : (t.entries.map Prod.fst).Nodup
  current : ∀ e ∈ t.entries, e.2.checksum = f e.2.data
  total : t.total = seed ^^^ xorWhere (fun _ => true) t.entries

/-- `scanned` is the seed XORed with the checksums of the included objects. -/
def Scanned (seed : UInt64) (inc : ι → Bool) (t : Table ι σ) : Prop :=
  t.scanned = seed ^^^ xorWhere inc t.entries

end Invariants

/-! ## XOR over a table -/

theorem xor_left_comm (a b c : UInt64) : a ^^^ (b ^^^ c) = b ^^^ (a ^^^ c) := by
  rw [← UInt64.xor_assoc, UInt64.xor_comm a b, UInt64.xor_assoc]

theorem xor_cancel_left (a b : UInt64) : a ^^^ (a ^^^ b) = b := by
  rw [← UInt64.xor_assoc, UInt64.xor_self, UInt64.zero_xor]

omit [DecidableEq ι] in
@[simp] theorem xorWhere_nil (p : ι → Bool) : xorWhere p ([] : List (ι × Entry σ)) = 0 := rfl

omit [DecidableEq ι] in
theorem xorWhere_cons (p : ι → Bool) (e : ι × Entry σ) (t : List (ι × Entry σ)) :
    xorWhere p (e :: t) = (if p e.1 then e.2.checksum else 0) ^^^ xorWhere p t := rfl

omit [DecidableEq ι] in
/-- Only the ids of the table matter. -/
theorem xorWhere_congr {p q : ι → Bool} {t : List (ι × Entry σ)} (h : ∀ e ∈ t, p e.1 = q e.1) :
    xorWhere p t = xorWhere q t := by
  induction t with
  | nil => rfl
  | cons e t ih =>
    rw [xorWhere_cons, xorWhere_cons, h e (by simp), ih fun e' he' => h e' (by simp [he'])]

omit [DecidableEq ι] in
/-- No id of the table satisfies `p`: the XOR is empty. -/
theorem xorWhere_eq_zero {p : ι → Bool} {t : List (ι × Entry σ)} (h : ∀ e ∈ t, p e.1 = false) :
    xorWhere p t = 0 := by
  induction t with
  | nil => rfl
  | cons e t ih =>
    rw [xorWhere_cons, h e (by simp), ih fun e' he' => h e' (by simp [he'])]
    simp

omit [DecidableEq ι] in
/-- Two disjoint sets of ids: the XOR over their union splits. -/
theorem xorWhere_or {p q : ι → Bool} {t : List (ι × Entry σ)} (h : ∀ e ∈ t, ¬ (p e.1 ∧ q e.1)) :
    xorWhere (fun i => p i || q i) t = xorWhere p t ^^^ xorWhere q t := by
  induction t with
  | nil => simp
  | cons e t ih =>
    rw [xorWhere_cons, xorWhere_cons, xorWhere_cons, ih fun e' he' => h e' (by simp [he'])]
    have he := h e (by simp)
    -- at most one of `p` and `q` holds at the head
    cases hp : p e.1 <;> cases hq : q e.1 <;> simp_all [UInt64.xor_assoc, xor_left_comm]

/-! ## Lookups in a table with unique ids -/

theorem ne_of_lookup_eq_none {t : List (ι × Entry σ)} {i : ι} (h : t.lookup i = none) : ∀ x ∈ t, x.1 ≠ i := by
  induction t with
  | nil => simp
  | cons y t ih =>
    obtain ⟨j, d⟩ := y
    by_cases hj : j = i
    · subst hj
      simp [List.lookup] at h
    · have h' : t.lookup i = none := by simpa [List.lookup, beq_false_of_ne (Ne.symm hj)] using h
      intro x hx
      rcases List.mem_cons.mp hx with rfl | hx
      · exact hj
      · exact ih h' x hx

theorem mem_of_lookup {t : List (ι × Entry σ)} {i : ι} {e : Entry σ} (h : t.lookup i = some e) : (i, e) ∈ t := by
  induction t with
  | nil => simp at h
  | cons x t ih =>
    obtain ⟨j, d⟩ := x
    by_cases hj : j = i
    · subst hj
      have : d = e := by simpa [List.lookup] using h
      simp [this]
    · have h' : t.lookup i = some e := by simpa [List.lookup, beq_false_of_ne (Ne.symm hj)] using h
      exact List.mem_cons_of_mem _ (ih h')

theorem filter_ne_of_lookup_eq_none {t : List (ι × Entry σ)} {i : ι} (h : t.lookup i = none) :
    (t.filter fun x => x.1 ≠ i) = t :=
  List.filter_eq_self.mpr fun x hx => by simpa using ne_of_lookup_eq_none h x hx

theorem nodup_filter_ne {t : List (ι × Entry σ)} (hu : (t.map Prod.fst).Nodup) (i : ι) :
    ((t.filter fun x => x.1 ≠ i).map Prod.fst).Nodup :=
  hu.sublist (List.filter_sublist.map Prod.fst)

/-- With unique ids, putting back the entry an id already has changes nothing. -/
theorem replace_lookup_self {t : List (ι × Entry σ)} (hu : (t.map Prod.fst).Nodup) {i : ι} {e : Entry σ}
    (hi : t.lookup i = some e) : replace t i e = t := by
  induction t with
  | nil => simp at hi
  | cons x t ih =>
    obtain ⟨j, d⟩ := x
    simp only [List.map_cons, List.nodup_cons] at hu
    by_cases hj : j = i
    · subst hj
      have hd : d = e := by simpa [List.lookup] using hi
      subst hd
      have hrest := replace_of_not_mem hu.1 d
      simp only [replace] at hrest ⊢
      rw [List.map_cons, if_pos rfl, hrest]
    · have hi' : t.lookup i = some e := by simpa [List.lookup, beq_false_of_ne (Ne.symm hj)] using hi
      have := ih hu.2 hi'
      simp only [replace, List.map_cons, hj, if_false] at this ⊢
      rw [this]

/-- With unique ids, replacing the entry of `i` moves the XOR by the two checksums. -/
theorem xorWhere_replace (p : ι → Bool) {t : List (ι × Entry σ)} (hu : (t.map Prod.fst).Nodup) {i : ι}
    {e : Entry σ} (hi : t.lookup i = some e) (e' : Entry σ) :
    xorWhere p (replace t i e') = xorWhere p t ^^^ (if p i then e.checksum ^^^ e'.checksum else 0) := by
  induction t with
  | nil => simp at hi
  | cons x t ih =>
    obtain ⟨j, d⟩ := x
    simp only [List.map_cons, List.nodup_cons] at hu
    by_cases hj : j = i
    · subst hj
      have hd : d = e := by simpa [List.lookup] using hi
      subst hd
      -- the head is the entry replaced, and the rest has no entry of `j`
      have hrest := replace_of_not_mem hu.1 e'
      simp only [replace] at hrest ⊢
      rw [List.map_cons, if_pos rfl, hrest, xorWhere_cons, xorWhere_cons]
      cases p j
      · simp
      · simp only [if_true, UInt64.xor_assoc, xor_left_comm, xor_cancel_left]
        rw [UInt64.xor_comm]
    · have hi' : t.lookup i = some e := by simpa [List.lookup, beq_false_of_ne (Ne.symm hj)] using hi
      have := ih hu.2 hi'
      simp only [replace, List.map_cons, hj, if_false] at this ⊢
      rw [xorWhere_cons, xorWhere_cons, this, UInt64.xor_assoc]

/-- With unique ids, unlinking `i` takes its checksum out of the XOR. -/
theorem xorWhere_erase (p : ι → Bool) {t : List (ι × Entry σ)} (hu : (t.map Prod.fst).Nodup) {i : ι}
    {e : Entry σ} (hi : t.lookup i = some e) :
    xorWhere p (t.filter fun x => x.1 ≠ i) = xorWhere p t ^^^ (if p i then e.checksum else 0) := by
  induction t with
  | nil => simp at hi
  | cons x t ih =>
    obtain ⟨j, d⟩ := x
    simp only [List.map_cons, List.nodup_cons] at hu
    by_cases hj : j = i
    · subst hj
      have hd : d = e := by simpa [List.lookup] using hi
      subst hd
      have hrest : (t.filter fun x => x.1 ≠ j) = t := by
        refine List.filter_eq_self.mpr fun x hx => ?_
        have : x.1 ≠ j := fun h => hu.1 (h ▸ List.mem_map_of_mem hx)
        simpa using this
      rw [List.filter_cons_of_neg (by simp), hrest, xorWhere_cons, UInt64.xor_comm _ (xorWhere p t),
        UInt64.xor_assoc, UInt64.xor_self, UInt64.xor_zero]
    · have hi' : t.lookup i = some e := by simpa [List.lookup, beq_false_of_ne (Ne.symm hj)] using hi
      have := ih hu.2 hi'
      rw [List.filter_cons_of_pos (by simpa using hj), xorWhere_cons, xorWhere_cons, this, UInt64.xor_assoc]

/-- With unique ids, the XOR over the one id `i` is its checksum. -/
theorem xorWhere_single {t : List (ι × Entry σ)} (hu : (t.map Prod.fst).Nodup) {i : ι} {e : Entry σ}
    (hi : t.lookup i = some e) : xorWhere (fun j => decide (j = i)) t = e.checksum := by
  -- after unlinking `i` no id is left to count
  have h := xorWhere_erase (fun j => decide (j = i)) hu hi
  rw [xorWhere_eq_zero (fun x hx => by simpa using (List.mem_filter.mp hx).2), decide_eq_true rfl,
    if_pos rfl] at h
  calc xorWhere (fun j => decide (j = i)) t
      = xorWhere (fun j => decide (j = i)) t ^^^ (xorWhere (fun j => decide (j = i)) t ^^^ e.checksum) := by
        rw [← h, UInt64.xor_zero]
    _ = e.checksum := xor_cancel_left _ _

/-! ## The operations keep the invariants -/

section Keep

variable {f : σ → UInt64} {inc : ι → Bool} {seed seed' : UInt64} {t : Table ι σ} {i : ι}

omit [DecidableEq ι] in
/-- `Tracks` does not look at `scanned`. -/
theorem Tracks.with_scanned (ht : Tracks f seed t) (s : UInt64) : Tracks f seed { t with scanned := s } :=
  ⟨ht.unique, ht.current, ht.total⟩

/-- `update` needs only that the other entries are fresh: it makes the one of `i` so. -/
theorem tracks_update (hu : (t.entries.map Prod.fst).Nodup)
    (hcur : ∀ x ∈ t.entries, x.1 ≠ i → x.2.checksum = f x.2.data)
    (htot : t.total = seed ^^^ xorWhere (fun _ => true) t.entries) (g : σ → σ) :
    Tracks f seed (update f inc i g t) := by
  unfold ScannedChecksum.update
  cases hi : t.entries.lookup i with
  | none => exact ⟨hu, fun x hx => hcur x hx (ne_of_lookup_eq_none hi x hx), htot⟩
  | some e =>
    refine ⟨?_, fun x hx => ?_, ?_⟩
    · rw [map_fst_replace]
      exact hu
    · simp only [replace, List.mem_map] at hx
      obtain ⟨y, hy, rfl⟩ := hx
      by_cases hyi : y.1 = i
      · simp [hyi]
      · simpa [hyi] using hcur y hy hyi
    · simp only
      rw [xorWhere_replace _ hu hi, htot, if_pos rfl, UInt64.xor_assoc, UInt64.xor_assoc]

theorem Tracks.update (ht : Tracks f seed t) (i : ι) (g : σ → σ) : Tracks f seed (update f inc i g t) :=
  tracks_update ht.unique (fun x hx _ => ht.current x hx) ht.total g

theorem Scanned.update (hu : (t.entries.map Prod.fst).Nodup) (hs : Scanned seed' inc t) (i : ι) (g : σ → σ) :
    Scanned seed' inc (update f inc i g t) := by
  unfold ScannedChecksum.update Scanned
  cases hi : t.entries.lookup i with
  | none => exact hs
  | some e =>
    simp only
    rw [xorWhere_replace _ hu hi, hs]
    cases inc i
    · simp
    · simp only [if_true, UInt64.xor_assoc]

omit [DecidableEq ι] in
/-- The table `insert` hands to `update`: the new entry at the head. -/
theorem nodup_insert (hu : (t.entries.map Prod.fst).Nodup) (hi : i ∉ t.entries.map Prod.fst) (d : σ) :
    (((i, (⟨d, 0⟩ : Entry σ)) :: t.entries).map Prod.fst).Nodup :=
  List.nodup_cons.mpr ⟨hi, hu⟩

theorem Tracks.insert (ht : Tracks f seed t) (hi : i ∉ t.entries.map Prod.fst) (d : σ) :
    Tracks f seed (insert f inc i d t) := by
  -- before its `update` the new entry is stale, with checksum 0; the rest is fresh
  refine tracks_update (nodup_insert ht.unique hi d) (fun x hx hxi => ?_) ?_ id
  · rcases List.mem_cons.mp hx with rfl | hx
    · exact absurd rfl hxi
    · exact ht.current x hx
  · simp [xorWhere_cons, ht.total]

theorem Scanned.insert (hu : (t.entries.map Prod.fst).Nodup) (hs : Scanned seed' inc t)
    (hi : i ∉ t.entries.map Prod.fst) (d : σ) : Scanned seed' inc (insert f inc i d t) := by
  refine Scanned.update (nodup_insert hu hi d) ?_ i id
  simp [Scanned, xorWhere_cons, hs.symm]

theorem Tracks.remove (ht : Tracks f seed t) (i : ι) : Tracks f seed (remove inc i t) := by
  unfold ScannedChecksum.remove
  cases hi : t.entries.lookup i with
  | none => exact ht
  | some e =>
    refine ⟨nodup_filter_ne ht.unique i, fun x hx => ht.current x (List.mem_filter.mp hx).1, ?_⟩
    simp only
    rw [xorWhere_erase _ ht.unique hi, ht.total, if_pos rfl, UInt64.xor_assoc]

theorem Scanned.remove (hu : (t.entries.map Prod.fst).Nodup) (hs : Scanned seed' inc t) (i : ι) :
    Scanned seed' inc (remove inc i t) := by
  unfold ScannedChecksum.remove Scanned
  cases hi : t.entries.lookup i with
  | none => exact hs
  | some e =>
    simp only
    rw [xorWhere_erase _ hu hi, hs]
    cases inc i
    · simp
    · simp only [if_true, UInt64.xor_assoc]

/-- `drop` of an entry whose stored checksum is 0: nothing to take out. -/
theorem xorWhere_drop (p : ι → Bool) (hu : (t.entries.map Prod.fst).Nodup)
    (h0 : ∀ e, t.entries.lookup i = some e → e.checksum = 0) :
    xorWhere p (drop i t).entries = xorWhere p t.entries := by
  unfold drop
  cases hi : t.entries.lookup i with
  | none => rw [filter_ne_of_lookup_eq_none hi]
  | some e =>
    simp only
    rw [xorWhere_erase _ hu hi, h0 e hi]
    simp

theorem Tracks.drop (ht : Tracks f seed t) (h0 : ∀ e, t.entries.lookup i = some e → e.checksum = 0) :
    Tracks f seed (drop i t) :=
  ⟨nodup_filter_ne ht.unique i, fun x hx => ht.current x (List.mem_filter.mp hx).1,
    by rw [xorWhere_drop _ ht.unique h0]; exact ht.total⟩

theorem Scanned.drop (hu : (t.entries.map Prod.fst).Nodup) (hs : Scanned seed' inc t)
    (h0 : ∀ e, t.entries.lookup i = some e → e.checksum = 0) : Scanned seed' inc (drop i t) := by
  unfold Scanned
  rw [xorWhere_drop _ hu h0]
  exact hs

end Keep

omit [DecidableEq ι] in
theorem foldl_xor_checksum (a : UInt64) (l : List (ι × Entry σ)) :
    l.foldl (fun acc e => acc ^^^ e.2.checksum) a = a ^^^ xorWhere (fun _ => true) l := by
  induction l generalizing a with
  | nil => simp
  | cons e l ih => rw [List.foldl_cons, ih, xorWhere_cons, if_pos rfl, UInt64.xor_assoc]

omit [DecidableEq ι] in
/-- A recalculation from scratch establishes `Tracks`. -/
theorem Tracks.recalculate {f : σ → UInt64} {seed : UInt64} {t : Table ι σ}
    (hu : (t.entries.map Prod.fst).Nodup) : Tracks f seed (recalculate f seed t) :=
  ⟨by simpa [ScannedChecksum.recalculate, Function.comp_def] using hu,
    fun x hx => by
      simp only [ScannedChecksum.recalculate, List.mem_map] at hx
      obtain ⟨y, _, rfl⟩ := hx
      rfl,
    foldl_xor_checksum _ _⟩

omit [DecidableEq ι] in
/-- A rebuilt sum that includes nothing is the seed. -/
theorem scanned_of_none {seed : UInt64} {t : Table ι σ} (h : t.scanned = seed) : Scanned seed (fun _ => false) t := by
  unfold Scanned
  rw [xorWhere_eq_zero fun _ _ => rfl, UInt64.xor_zero, h]

omit [DecidableEq ι] in
/-- Only the ids of the table matter to `Scanned`. -/
theorem Scanned.congr {seed : UInt64} {p q : ι → Bool} {t : Table ι σ} (hs : Scanned seed p t)
    (h : ∀ x ∈ t.entries, p x.1 = q x.1) : Scanned seed q t := by
  unfold Scanned at hs ⊢
  rw [hs, xorWhere_congr h]

/-! ## The background pass -/

section Pass

variable {f : σ → UInt64} {bucket : ι → Nat} {seed seed' : UInt64} {t : Table ι σ}

omit [DecidableEq ι] in
theorem scanned_with_scanned {s : UInt64} : ({ t with scanned := s } : Table ι σ).scanned = s := rfl

/-- On a table whose checksums are fresh, `addToBackground` only adds the
object's checksum to `scanned`. -/
theorem addToBackground_of_tracks (ht : Tracks f seed t) (i : ι) :
    addToBackground f i t = { t with scanned := t.scanned ^^^ xorWhere (fun j => decide (j = i)) t.entries } := by
  unfold addToBackground
  cases hi : t.entries.lookup i with
  | none =>
    rw [xorWhere_eq_zero fun x hx => by simpa using ne_of_lookup_eq_none hi x hx, UInt64.xor_zero]
  | some e =>
    have hc : e.checksum = f e.data := ht.current _ (mem_of_lookup hi)
    have he : (⟨e.data, f e.data⟩ : Entry σ) = e := by rw [← hc]
    simp only
    rw [he, replace_lookup_self ht.unique hi, xorWhere_single ht.unique hi, ← hc, UInt64.xor_assoc,
      UInt64.xor_self, UInt64.xor_zero]

/-- The objects of a list of distinct ids, added to the background in turn. -/
theorem foldl_addToBackground (ht : Tracks f seed t) {l : List ι} (hl : l.Nodup) :
    l.foldl (fun t i => addToBackground f i t) t =
      { t with scanned := t.scanned ^^^ xorWhere (fun j => decide (j ∈ l)) t.entries } := by
  induction l generalizing t with
  | nil => simp [xorWhere_eq_zero]
  | cons a l ih =>
    obtain ⟨ha, hl⟩ := List.nodup_cons.mp hl
    -- the head's checksum first, then the rest's: disjoint, as `a ∉ l`
    have hsplit : xorWhere (fun j => decide (j ∈ a :: l)) t.entries =
        xorWhere (fun j => decide (j = a)) t.entries ^^^ xorWhere (fun j => decide (j ∈ l)) t.entries := by
      rw [← xorWhere_or fun x _ h => by
        simp only [decide_eq_true_eq] at h
        exact ha (h.1 ▸ h.2)]
      exact xorWhere_congr fun x _ => by simp
    rw [List.foldl_cons, addToBackground_of_tracks ht, ih (ht.with_scanned _) hl, hsplit, UInt64.xor_assoc]

omit [DecidableEq ι] in
theorem nodup_bucketIds (hu : (t.entries.map Prod.fst).Nodup) (b : Nat) : (bucketIds bucket b t).Nodup :=
  hu.sublist (List.filter_sublist.map Prod.fst)

/-- One bucket of the pass adds the checksums of its objects to `scanned`. -/
theorem scanBucket_of_tracks (ht : Tracks f seed t) (b : Nat) :
    (scanBucket f bucket b t).2 =
      { t with scanned := t.scanned ^^^ xorWhere (fun j => decide (bucket j = b)) t.entries } := by
  rw [scanBucket, foldl_addToBackground ht (nodup_bucketIds ht.unique b)]
  -- an id of the table is listed in bucket `b` exactly when it hashes there
  dsimp only
  congr 2
  refine xorWhere_congr fun x hx => decide_eq_decide.mpr ?_
  simp only [bucketIds, List.mem_map, List.mem_filter, decide_eq_true_eq]
  exact ⟨fun ⟨y, ⟨_, hy⟩, hyx⟩ => hyx ▸ hy, fun h => ⟨x, ⟨hx, h⟩, rfl⟩⟩

/-- A pass that has scanned the buckets below `pos` and scans `pos` has scanned
those below `pos + 1`. -/
theorem Scanned.scanBucket (ht : Tracks f seed t) {pos : Nat}
    (hs : Scanned seed' (fun j => decide (bucket j < pos)) t) :
    Scanned seed' (fun j => decide (bucket j < pos + 1)) (scanBucket f bucket pos t).2 := by
  unfold Scanned
  rw [scanBucket_of_tracks ht, scanned_with_scanned, hs, UInt64.xor_assoc,
    ← xorWhere_or fun x _ h => by simp at h; omega]
  exact congrArg _ (xorWhere_congr fun x _ => by
    rw [Bool.eq_iff_iff]
    simp only [Bool.or_eq_true, decide_eq_true_eq]
    omega)

/-- What a call of the loop does: it leaves the objects and `total` alone and
moves the position up to where it stopped, with every bucket below scanned; a
loop that the limit did not stop has reached `size`. -/
theorem scanLoop_spec {size limit : Nat} (recalculated pos : Nat) (ht : Tracks f seed t)
    (hs : Scanned seed' (fun j => decide (bucket j < pos)) t) :
    let r := scanLoop f bucket size limit recalculated pos t
    r.2.1 = { t with scanned := r.2.1.scanned } ∧ Scanned seed' (fun j => decide (bucket j < r.1)) r.2.1 ∧
      (r.2.2 = false → size ≤ r.1) := by
  fun_induction scanLoop f bucket size limit recalculated pos t with
  | case1 recalculated pos t hpos r hlim =>
    refine ⟨?_, hs.scanBucket ht, fun h => absurd h (by simp)⟩
    simp only [r, scanBucket_of_tracks ht]
  | case2 recalculated pos t hpos r hlim ih =>
    have hr : r.2 = { t with scanned := r.2.scanned } := by simp only [r, scanBucket_of_tracks ht]
    obtain ⟨h₁, h₂, h₃⟩ := ih (hr ▸ ht.with_scanned _) (hs.scanBucket ht)
    exact ⟨h₁.trans (by rw [hr]), h₂, h₃⟩
  | case3 recalculated pos t hpos =>
    exact ⟨rfl, hs, fun _ => Nat.le_of_not_lt hpos⟩

omit [DecidableEq ι] in
/-- Once every object is included, the rebuilt checksum is the kept one. -/
theorem scanned_eq_total {inc : ι → Bool} (ht : Tracks f seed t) (hs : Scanned seed inc t)
    (hall : ∀ x ∈ t.entries, inc x.1 = true) : t.scanned = t.total := by
  have hsame : xorWhere inc t.entries = xorWhere (fun _ => true) t.entries := xorWhere_congr hall
  rw [hs, ht.total, hsame]

end Pass

end ScannedChecksum
