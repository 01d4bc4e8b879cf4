import LizardFs.Common.Status

/-!
# Choosing the export for a mount request

Model of `exports_check` (`src/master/exports.cc`). Every record of the exports list
that admits the request (address range, minimum version, meta flag, path, password)
is compared with the record chosen so far, in the order of the list, and replaces it
when one of the tests of the `else if` chain says it is preferable: read-write over
read-only, then unrestricted root over mapped root, then quota-changing rights, then
a password, then a longer path.

The tests are not a lexicographic order: each of them is tried whenever the ones before
it fail, whatever they said about the other record. A read-write record with mapped
root and a read-only record with root `0` each replace the other, so the export chosen
depends on which comes last (`exports_choice_depends_on_order`). What does hold for
every order is that the chosen record admits the request (`exportsCheck_ok_accepts`).

The password digest is computed by MD5, a parameter `md5` of the model.
-/

namespace LizardFs

namespace Exports

/-- `SESFLAG_READONLY`. -/
def SESFLAG_READONLY : UInt8 := 0x01

/-- `SESFLAG_ALLCANCHANGEQUOTA`. -/
def SESFLAG_ALLCANCHANGEQUOTA : UInt8 := 0x08

/-- An exports record (`struct _exports`), with the fields `exports_check` reads; `pleng`
is the length of `path`. -/
structure ExportsRecord where
  /-- the exported directory, without `/` at the beginning and at the end -/
  path : List UInt8
  fromip : UInt32
  toip : UInt32
  minversion : UInt32
  passworddigest : List UInt8
  alldirs : Bool
  needpassword : Bool
  /-- the `meta` bit -/
  isMeta : Bool
  sesflags : UInt8
  mingoal : UInt8
  maxgoal : UInt8
  mintrashtime : UInt32
  maxtrashtime : UInt32
  rootuid : UInt32
  rootgid : UInt32
  mapalluid : UInt32
  mapallgid : UInt32
  deriving DecidableEq, Repr

/-- The session parameters `exports_check` writes through its pointer arguments. -/
structure SessionParams where
  sesflags : UInt8
  rootuid : UInt32
  rootgid : UInt32
  mapalluid : UInt32
  mapallgid : UInt32
  mingoal : UInt8
  maxgoal : UInt8
  mintrashtime : UInt32
  maxtrashtime : UInt32
  deriving DecidableEq, Repr

/-- The session parameters of a record. -/
def ExportsRecord.params (e : ExportsRecord) : SessionParams :=
  ⟨e.sesflags, e.rootuid, e.rootgid, e.mapalluid, e.mapallgid, e.mingoal, e.maxgoal,
    e.mintrashtime, e.maxtrashtime⟩

/-- The arguments of a request; a `NULL` `rndcode` or `passcode` is `none`. -/
structure Request where
  ip : UInt32
  version : UInt32
  meta_ : UInt8
  /-- the bytes of the path before its NUL -/
  path : List UInt8
  rndcode : Option (List UInt8)
  passcode : Option (List UInt8)

/-- The path without its leading and trailing `/`, as the first lines of
`exports_check` compute it (`p`, `pleng`); no path in meta mode. -/
def Request.strippedPath (r : Request) : List UInt8 :=
  if r.meta_ = 0 then
    ((r.path.dropWhile (· == 47)).reverse.dropWhile (· == 47)).reverse
  else []

/-- `rndstate`: the bitwise or of the 32 bytes of `rndcode`, 0 without one. -/
def Request.rndstate (r : Request) : UInt8 :=
  match r.rndcode with
  | some rnd => (rnd.take 32).foldl (· ||| ·) 0
  | none => 0

/-- The path test for a non-meta request. -/
def pathMatches (e : ExportsRecord) (p : List UInt8) : Bool :=
  if e.path.length = 0 then
    -- the root: the request must be for the root, unless all directories are exported
    p.length = 0 || e.alldirs
  else
    (p.length = e.path.length && p == e.path) ||
      (e.alldirs && decide (p.length > e.path.length) && p[e.path.length]? == some 47 &&
        p.take e.path.length == e.path)

/-- The loop body for one record: whether it admits the request (`ok`), and whether it
was refused for its password (`nopass` is set). -/
def checkRecord (md5 : List UInt8 → List UInt8) (r : Request) (e : ExportsRecord) :
    Bool × Bool :=
  if r.ip ≥ e.fromip ∧ r.ip ≤ e.toip ∧ r.version ≥ e.minversion ∧
      r.meta_ = (if e.isMeta then 1 else 0) then
    let ok := r.meta_ ≠ 0 || pathMatches e r.strippedPath
    if ok && e.needpassword then
      match r.rndcode, r.passcode with
      | some rnd, some pass =>
        if r.rndstate = 0 then (false, true)
        else if (md5 (rnd.take 16 ++ e.passworddigest ++ (rnd.drop 16).take 16)).take 16 ≠
            pass.take 16 then (false, true)
        else (true, false)
      | _, _ => (false, true)
    else (ok, false)
  else (false, false)

/-- Whether a record admits the request. -/
def ExportsRecord.admits (md5 : List UInt8 → List UInt8) (r : Request) (e : ExportsRecord) :
    Bool :=
  (checkRecord md5 r e).1

/-- The `else if` chain: whether the admitted record `e` replaces the chosen `f`. -/
def replaces (e f : ExportsRecord) : Bool :=
  if e.sesflags &&& SESFLAG_READONLY = 0 ∧ f.sesflags &&& SESFLAG_READONLY ≠ 0 then true
  else if e.rootuid = 0 ∧ f.rootuid ≠ 0 then true
  else if e.sesflags &&& SESFLAG_ALLCANCHANGEQUOTA ≠ 0 ∧
      f.sesflags &&& SESFLAG_ALLCANCHANGEQUOTA = 0 then true
  else if e.needpassword ∧ ¬ f.needpassword then true
  else e.path.length > f.path.length

/-- One iteration of the loop over the records: the chosen record `f` and `nopass`. -/
def checkStep (md5 : List UInt8 → List UInt8) (r : Request)
    (acc : Option ExportsRecord × Bool) (e : ExportsRecord) : Option ExportsRecord × Bool :=
  let (ok, refused) := checkRecord md5 r e
  let nopass := acc.2 || refused
  if ok then
    match acc.1 with
    | none => (some e, nopass)
    | some f => (some (if replaces e f then e else f), nopass)
  else (acc.1, nopass)

/-- `exports_check`: the session parameters of the chosen record, or the error. -/
def exportsCheck (md5 : List UInt8 → List UInt8) (records : List ExportsRecord) (r : Request) :
    Except Status SessionParams :=
  match records.foldl (checkStep md5 r) (none, false) with
  | (some f, _) => .ok f.params
  | (none, nopass) =>
    if nopass then
      if r.rndstate = 0 ∨ r.rndcode = none ∨ r.passcode = none then .error .nopassword
      else .error .badpassword
    else .error .eacces

/-! ## The chosen record admits the request -/

section Choice

variable (md5 : List UInt8 → List UInt8) (r : Request)

/-- The record chosen by a step is the previous choice or an admitted record. -/
theorem checkStep_chosen (acc : Option ExportsRecord × Bool) (e : ExportsRecord)
    {f : ExportsRecord} (hf : (checkStep md5 r acc e).1 = some f) :
    acc.1 = some f ∨ (f = e ∧ e.admits md5 r = true) := by
  unfold checkStep at hf
  unfold ExportsRecord.admits
  cases hok : (checkRecord md5 r e).1 with
  | false =>
    simp only [hok, Bool.false_eq_true, if_false] at hf
    exact .inl hf
  | true =>
    simp only [hok, if_true] at hf
    cases hacc : acc.1 with
    | none =>
      simp only [hacc, Option.some.injEq] at hf
      exact .inr ⟨hf.symm, rfl⟩
    | some g =>
      simp only [hacc, Option.some.injEq] at hf
      by_cases hrep : replaces e g = true
      · rw [if_pos hrep] at hf
        exact .inr ⟨hf.symm, rfl⟩
      · rw [if_neg hrep] at hf
        exact .inl (congrArg some hf)

/-- Along the loop the chosen record is one of the records seen, and admits the request. -/
theorem foldl_checkStep_chosen (records : List ExportsRecord) (acc : Option ExportsRecord × Bool)
    {f : ExportsRecord} (hf : (records.foldl (checkStep md5 r) acc).1 = some f) :
    acc.1 = some f ∨ (f ∈ records ∧ f.admits md5 r = true) := by
  induction records generalizing acc with
  | nil => exact .inl hf
  | cons e records ih =>
    rcases ih (checkStep md5 r acc e) hf with hstep | ⟨hmem, hadm⟩
    · rcases checkStep_chosen md5 r acc e hstep with hacc | ⟨rfl, hadm⟩
      · exact .inl hacc
      · exact .inr ⟨List.mem_cons_self .., hadm⟩
    · exact .inr ⟨List.mem_cons_of_mem _ hmem, hadm⟩

/-- On success the session parameters are those of a record that admits the request. -/
theorem exportsCheck_ok_accepts {records : List ExportsRecord} {s : SessionParams}
    (h : exportsCheck md5 records r = .ok s) :
    ∃ e ∈ records, e.admits md5 r = true ∧ s = e.params := by
  unfold exportsCheck at h
  split at h
  · next f nopass hfold =>
    have hf : (records.foldl (checkStep md5 r) (none, false)).1 = some f := by rw [hfold]
    have hchosen := foldl_checkStep_chosen md5 r records (none, false) hf
    rcases hchosen with hnone | ⟨hmem, hadm⟩
    · cases hnone
    · cases h
      exact ⟨f, hmem, hadm, rfl⟩
  · split at h
    · split at h <;> cases h
    · cases h

end Choice

/-! ## The choice depends on the order of the lines -/

/-- An admitted record is chosen when nothing was chosen before. -/
theorem checkStep_first (md5 : List UInt8 → List UInt8) (r : Request)
    {acc : Option ExportsRecord × Bool} {e : ExportsRecord} (hacc : acc.1 = none)
    (he : e.admits md5 r = true) : (checkStep md5 r acc e).1 = some e := by
  obtain ⟨c, nopass⟩ := acc
  cases hacc
  unfold ExportsRecord.admits at he
  simp [checkStep, he]

/-- An admitted record `e` that the chain prefers replaces the chosen `f`. -/
theorem checkStep_replaces (md5 : List UInt8 → List UInt8) (r : Request)
    {acc : Option ExportsRecord × Bool} {e f : ExportsRecord} (hacc : acc.1 = some f)
    (he : e.admits md5 r = true) (hrep : replaces e f = true) :
    (checkStep md5 r acc e).1 = some e := by
  obtain ⟨c, nopass⟩ := acc
  cases hacc
  unfold ExportsRecord.admits at he
  simp [checkStep, he, hrep]

/-- Read-write is preferred to read-only. -/
theorem replaces_of_readwrite {e f : ExportsRecord} (he : e.sesflags &&& SESFLAG_READONLY = 0)
    (hf : f.sesflags &&& SESFLAG_READONLY ≠ 0) : replaces e f = true := by
  simp [replaces, he, hf]

/-- Unrestricted root is preferred to mapped root, when the first test does not decide. -/
theorem replaces_of_root {e f : ExportsRecord} (he : e.rootuid = 0) (hf : f.rootuid ≠ 0) :
    replaces e f = true := by
  unfold replaces
  split
  · rfl
  · rw [if_pos ⟨he, hf⟩]

theorem exportsCheck_of_chosen {md5 : List UInt8 → List UInt8} {records : List ExportsRecord}
    {r : Request} {f : ExportsRecord}
    (h : (records.foldl (checkStep md5 r) (none, false)).1 = some f) :
    exportsCheck md5 records r = .ok f.params := by
  unfold exportsCheck
  split
  · next g nopass hfold =>
    rw [hfold] at h
    cases h
    rfl
  · next nopass hfold =>
    rw [hfold] at h
    cases h

/-- A read-write record with mapped root and a read-only record with unrestricted root
that both admit a request: whichever comes last in the exports list is chosen, and the
two choices give different session flags. -/
theorem exports_choice_depends_on_order (md5 : List UInt8 → List UInt8) (r : Request)
    (a b : ExportsRecord) (ha : a.admits md5 r = true) (hb : b.admits md5 r = true)
    (ha_rw : a.sesflags &&& SESFLAG_READONLY = 0) (ha_root : a.rootuid ≠ 0)
    (hb_ro : b.sesflags &&& SESFLAG_READONLY ≠ 0) (hb_root : b.rootuid = 0) :
    exportsCheck md5 [a, b] r = .ok b.params ∧ exportsCheck md5 [b, a] r = .ok a.params ∧
      a.params ≠ b.params := by
  refine ⟨?_, ?_, ?_⟩
  · -- `b` is read-only, but its root is unrestricted
    apply exportsCheck_of_chosen
    exact checkStep_replaces md5 r (checkStep_first md5 r rfl ha) hb
      (replaces_of_root hb_root ha_root)
  · -- `a` has mapped root, but it is read-write
    apply exportsCheck_of_chosen
    exact checkStep_replaces md5 r (checkStep_first md5 r rfl hb) ha
      (replaces_of_readwrite ha_rw hb_ro)
  · intro heq
    have hflags : a.sesflags = b.sesflags := congrArg SessionParams.sesflags heq
    rw [hflags] at ha_rw
    exact hb_ro ha_rw

/-- The record `exports_parseline` makes of the line `* / rw,alldirs,maproot=999:999`:
its defaults (`mapall` 999:999, goals `GoalId::kMin` to `GoalId::kMax`, any trash time)
with read-write access, `alldirs` and root mapped to 999:999. -/
def rwMappedRoot : ExportsRecord :=
  { path := [], fromip := 0, toip := 0xFFFFFFFF, minversion := 0, passworddigest := [],
    alldirs := true, needpassword := false, isMeta := false, sesflags := 0, mingoal := 1,
    maxgoal := 40, mintrashtime := 0, maxtrashtime := 0xFFFFFFFF, rootuid := 999,
    rootgid := 999, mapalluid := 999, mapallgid := 999 }

/-- The record of the line `* / ro,alldirs,maproot=0:0`. -/
def roRoot : ExportsRecord :=
  { rwMappedRoot with sesflags := SESFLAG_READONLY, rootuid := 0, rootgid := 0 }

/-- A client at 10.0.0.1 mounting `/`. -/
def rootMount : Request := ⟨0x0A000001, 0, 0, [47], none, none⟩

/-- With both lines in the exports file, a client mounting `/` gets a read-only session
when the read-only line comes last and a read-write one when it comes first. -/
theorem swapped_exports_lines_change_session :
    rwMappedRoot.admits (fun _ => []) rootMount = true ∧
      roRoot.admits (fun _ => []) rootMount = true ∧
      rwMappedRoot.sesflags &&& SESFLAG_READONLY = 0 ∧ rwMappedRoot.rootuid ≠ 0 ∧
      roRoot.sesflags &&& SESFLAG_READONLY ≠ 0 ∧ roRoot.rootuid = 0 ∧
      (exportsCheck (fun _ => []) [rwMappedRoot, roRoot] rootMount = .ok roRoot.params ∧
        exportsCheck (fun _ => []) [roRoot, rwMappedRoot] rootMount = .ok rwMappedRoot.params ∧
        rwMappedRoot.params ≠ roRoot.params) :=
  ⟨by decide, by decide, by decide, by decide, by decide, rfl,
    exports_choice_depends_on_order (fun _ => []) rootMount rwMappedRoot roRoot (by decide)
      (by decide) (by decide) (by decide) (by decide) rfl⟩

/-- The line `192.168.0.0/16 / rw,alldirs,maproot=999:999`. -/
def lanOnly : ExportsRecord := { rwMappedRoot with fromip := 0xC0A80000, toip := 0xC0A8FFFF }

/-- A client at 10.0.0.1, outside the network of the first line, gets the session of the
second line, which admits it. -/
theorem rootMount_session_from_admitting_line :
    exportsCheck (fun _ => []) [lanOnly, roRoot] rootMount = .ok roRoot.params ∧
      lanOnly.admits (fun _ => []) rootMount = false ∧
      ∃ e ∈ [lanOnly, roRoot], e.admits (fun _ => []) rootMount = true ∧ roRoot.params = e.params := by
  have h : exportsCheck (fun _ => []) [lanOnly, roRoot] rootMount = .ok roRoot.params := rfl
  exact ⟨h, by decide, exportsCheck_ok_accepts (fun _ => []) rootMount h⟩

end Exports

end LizardFs
