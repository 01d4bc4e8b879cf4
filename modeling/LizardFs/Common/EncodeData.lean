import LizardFs.Common.GaloisField
import LizardFs.Lib.Simd
import Mathlib.Algebra.BigOperators.Group.Finset.Basic
import Mathlib.Tactic.Ring

/-!
# The encoders of `galois_field_encode.cc`

`ec_encode_data(len, srcs, dests, v, src, dest)` computes `dests` rows of `len` bytes from
`srcs` source rows. For destination row `l` and source `j` it reads the 32-byte table at
`v + 32 (l srcs + j)`, 16 entries for the low nibble of a byte and 16 for the high one, and
byte `i` of row `l` is the xor over the sources of `tbl_lo[a & 0xF] ^ tbl_hi[a >> 4]` for
`a = src[j][i]` (`encodeSpec`). The file has four versions of it: the scalar
`ec_encode_data_default`, the 16-byte vector loop of `ec_encode_data_ssse3`,
`ec_encode_data_avx` and of the fallback for compilers without `__builtin_cpu_supports`, and
the 32-byte loop of `ec_encode_data_avx2`; `ec_get_encode_function` picks one by what the CPU
supports. The vector versions finish the bytes past their last whole vector with the scalar
loop.

Memory is a function of row and offset for `src` and `dest`, and of offset for `v`; the rows
of `dest` do not alias the sources or the tables.

The proof goes by byte: one vector round writes, at byte `k`, what the scalar loop writes at
`i + k` (`block16_eq`, `block32_eq`, from the lane and shuffle lemmas of `Simd`), so any run of
vector rounds followed by the scalar loop fills a row as the scalar loop alone does
(`vectorLoop_spec`, `vectorEncode_eq`), and all four versions write `encodeSpec`
(`ecEncodeData_agrees`). With the tables of `ec_init_tables` each lookup pair is a product in
GF(2^8) (`gfVectMulInit_lookup`), so a destination byte is the field sum of the coefficients
times the source bytes.
-/

namespace LizardFs

namespace GaloisFieldEncode

open Simd

/-! ## The scalar encoder -/

/-- `tbl_lo[a & 0xF] ^ tbl_hi[a >> 4]`, with `tbl_lo = tbl` and `tbl_hi = tbl + 16`. -/
def lookupByte (v : ℕ → UInt8) (tbl : ℕ) (a : UInt8) : UInt8 :=
  v (tbl + (a &&& 0xF).toNat) ^^^ v (tbl + 16 + (a >>> 4).toNat)

/-- The loop over the sources for byte `i` of a destination row whose tables start at `vrow`:
`s ^= tbl_lo[a & 0xF] ^ tbl_hi[a >> 4]`, then `tbl += 32`. -/
def scalarByte (srcs : ℕ) (v : ℕ → UInt8) (vrow : ℕ) (src : ℕ → ℕ → UInt8) (i : ℕ) : UInt8 :=
  (List.range srcs).foldl (fun s j => s ^^^ lookupByte v (vrow + 32 * j) (src j i)) 0

/-- `dest[l][i] = s`. -/
def writeByte (dest : ℕ → ℕ → UInt8) (l i : ℕ) (s : UInt8) : ℕ → ℕ → UInt8 :=
  Function.update dest l (Function.update (dest l) i s)

/-- `for (; i < len; i++) { ...; dest[l][i] = s; }`, with `n = len - i` rounds to go. -/
def scalarLoop (srcs : ℕ) (v : ℕ → UInt8) (vrow : ℕ) (src : ℕ → ℕ → UInt8) (l : ℕ) :
    ℕ → ℕ → (ℕ → ℕ → UInt8) → ℕ → ℕ → UInt8
  | 0, _, dest => dest
  | n + 1, i, dest =>
    scalarLoop srcs v vrow src l n (i + 1) (writeByte dest l i (scalarByte srcs v vrow src i))

/-- `ec_encode_data_default`: the tables of row `l` start at `v + l srcs 32`. -/
def ecEncodeDataDefault (len srcs dests : ℕ) (v : ℕ → UInt8) (src dest : ℕ → ℕ → UInt8) :
    ℕ → ℕ → UInt8 :=
  (List.range dests).foldl (fun dest l => scalarLoop srcs v (l * (srcs * 32)) src l len 0 dest) dest

/-! ## The vector encoders -/

/-- `*(v16u_unaligned *)(dest[l] + i) = s` for a register of `w` bytes. -/
def writeVector (dest : ℕ → ℕ → UInt8) (l i w : ℕ) (s : ℕ → UInt8) : ℕ → ℕ → UInt8 :=
  Function.update dest l (store (dest l) i w s)

/-- `for (; (i + w) <= len; i += w)`, writing the register `block i` at each `i`; it returns
the `i` the scalar loop goes on from. -/
def vectorLoop (w len : ℕ) (block : ℕ → ℕ → UInt8) (l : ℕ) :
    ℕ → ℕ → (ℕ → ℕ → UInt8) → ℕ × (ℕ → ℕ → UInt8)
  | 0, i, dest => (i, dest)
  | fuel + 1, i, dest =>
    if i + w ≤ len then vectorLoop w len block l fuel (i + w) (writeVector dest l i w (block i))
    else (i, dest)

/-- The loop over the sources of `ec_encode_data_ssse3` and `ec_encode_data_avx` at byte `i`:
`s ^= __builtin_shuffle(tbl_lo, mask_lo) ^ __builtin_shuffle(tbl_hi, mask_hi)`, the masks
taken on the 16-bit lanes of the source bytes. -/
def block16 (srcs : ℕ) (v : ℕ → UInt8) (vrow : ℕ) (src : ℕ → ℕ → UInt8) (i : ℕ) : ℕ → UInt8 :=
  (List.range srcs).foldl (fun s j =>
    let a := toLanes (load (src j) i)
    let tblLo := load v (vrow + 32 * j)
    let tblHi := load v (vrow + 32 * j + 16)
    let maskLo := ofLanes fun n => a n &&& 0xF0F
    let maskHi := ofLanes fun n => (a n >>> 4) &&& 0xF0F
    xorv s (xorv (shuffle tblLo maskLo) (shuffle tblHi maskHi))) fun _ => 0

/-- The loop over the sources of `ec_encode_data_avx2` at byte `i`: the 32 table bytes are
loaded at once, and `_mm256_permute2x128_si256` puts the high table (`0x11`) and the low one
(`0x00`) in both halves of a register for `_mm256_shuffle_epi8`. -/
def block32 (srcs : ℕ) (v : ℕ → UInt8) (vrow : ℕ) (src : ℕ → ℕ → UInt8) (i : ℕ) : ℕ → UInt8 :=
  (List.range srcs).foldl (fun s j =>
    let a := toLanes (load (src j) i)
    let tbl := load v (vrow + 32 * j)
    let tblHi := permute2x128 tbl tbl 0x11
    let tblLo := permute2x128 tbl tbl 0x00
    let maskLo := ofLanes fun n => a n &&& 0xF0F
    let maskHi := ofLanes fun n => (a n >>> 4) &&& 0xF0F
    xorv s (xorv (shuffleEpi8 tblLo maskLo) (shuffleEpi8 tblHi maskHi))) fun _ => 0

/-- A vector encoder: for each destination row the loop over `w`-byte vectors, then the scalar
loop from where it stopped. -/
def vectorEncode (w : ℕ)
    (block : ℕ → (ℕ → UInt8) → ℕ → (ℕ → ℕ → UInt8) → ℕ → ℕ → UInt8)
    (len srcs dests : ℕ) (v : ℕ → UInt8) (src dest : ℕ → ℕ → UInt8) : ℕ → ℕ → UInt8 :=
  (List.range dests).foldl (fun dest l =>
    let vrow := l * (srcs * 32)
    let (i, dest) := vectorLoop w len (block srcs v vrow src) l len 0 dest
    scalarLoop srcs v vrow src l (len - i) i dest) dest

/-- `ec_encode_data_ssse3`. -/
def ecEncodeDataSsse3 (len srcs dests : ℕ) (v : ℕ → UInt8) (src dest : ℕ → ℕ → UInt8) :
    ℕ → ℕ → UInt8 :=
  vectorEncode 16 block16 len srcs dests v src dest

/-- `ec_encode_data_avx`: the body of `ec_encode_data_ssse3`, compiled for AVX. -/
def ecEncodeDataAvx (len srcs dests : ℕ) (v : ℕ → UInt8) (src dest : ℕ → ℕ → UInt8) :
    ℕ → ℕ → UInt8 :=
  vectorEncode 16 block16 len srcs dests v src dest

/-- `ec_encode_data_avx2`. -/
def ecEncodeDataAvx2 (len srcs dests : ℕ) (v : ℕ → UInt8) (src dest : ℕ → ℕ → UInt8) :
    ℕ → ℕ → UInt8 :=
  vectorEncode 32 block32 len srcs dests v src dest

/-- `ec_encode_data` where `LIZARDFS_HAVE_CPU_CHECK` is not defined: the 16-byte vector loop
with no dispatch. -/
def ecEncodeDataGeneric (len srcs dests : ℕ) (v : ℕ → UInt8) (src dest : ℕ → ℕ → UInt8) :
    ℕ → ℕ → UInt8 :=
  vectorEncode 16 block16 len srcs dests v src dest

/-- What `__builtin_cpu_supports` reports. -/
structure CpuFeatures where
  avx2 : Bool
  avx : Bool
  ssse3 : Bool
deriving DecidableEq, Repr

/-- The type of `encode_function_type`. -/
abbrev EncodeFunction :=
  ℕ → ℕ → ℕ → (ℕ → UInt8) → (ℕ → ℕ → UInt8) → (ℕ → ℕ → UInt8) → ℕ → ℕ → UInt8

/-- `ec_get_encode_function`, with GCC 5 or later. -/
def ecGetEncodeFunction (cpu : CpuFeatures) : EncodeFunction :=
  if cpu.avx2 then ecEncodeDataAvx2
  else if cpu.avx then ecEncodeDataAvx
  else if cpu.ssse3 then ecEncodeDataSsse3
  else ecEncodeDataDefault

/-- `ec_init_tables(k, rows, a, g_tbls)`: `gf_vect_mul_init` of the `rows k` coefficients of
`a`, row by row, into consecutive 32-byte tables. -/
def ecInitTables (k rows : ℕ) (a : ℕ → UInt8) (gTbls : ℕ → UInt8) : ℕ → UInt8 :=
  (List.range rows).foldl (fun g i => (List.range k).foldl (fun g j =>
    store g (32 * (i * k + j)) 32 (gfVectMulInit (a (i * k + j)))) g) gTbls

/-! ## What every encoder writes -/

/-- Byte `i < len` of row `l < dests` is the xor over the sources `j` of the lookups of the low
and the high nibble of `src[j][i]` in the table at `32 (l srcs + j)`; every other byte of
`dest` stays as it was. -/
def encodeSpec (len srcs dests : ℕ) (v : ℕ → UInt8) (src dest : ℕ → ℕ → UInt8) :
    ℕ → ℕ → UInt8 :=
  fun l i =>
    if l < dests ∧ i < len then
      (List.range srcs).foldl (fun s j =>
        s ^^^ (v (32 * (l * srcs + j) + (src j i &&& 15).toNat) ^^^
          v (32 * (l * srcs + j) + 16 + (src j i >>> 4).toNat))) 0
    else dest l i

/-! ## Rows -/

section Rows

variable {srcs : ℕ} {v : ℕ → UInt8} {vrow : ℕ} {src : ℕ → ℕ → UInt8} {l : ℕ}

theorem writeByte_row (dest : ℕ → ℕ → UInt8) (i : ℕ) (s : UInt8) :
    writeByte dest l i s l = Function.update (dest l) i s :=
  Function.update_self l _ dest

theorem writeVector_row (dest : ℕ → ℕ → UInt8) (i w : ℕ) (s : ℕ → UInt8) :
    writeVector dest l i w s l = store (dest l) i w s :=
  Function.update_self l _ dest

/-- The scalar loop from `i` fills bytes `i .. i + n - 1` of row `l` and nothing else. -/
theorem scalarLoop_eq : ∀ (n i : ℕ) (dest : ℕ → ℕ → UInt8),
    scalarLoop srcs v vrow src l n i dest =
      Function.update dest l fun a =>
        if i ≤ a ∧ a < i + n then scalarByte srcs v vrow src a else dest l a
  | 0, i, dest => by
    rw [scalarLoop]
    -- no byte lies in the empty range
    have hrow : (fun a => if i ≤ a ∧ a < i + 0 then scalarByte srcs v vrow src a else dest l a) =
        dest l := funext fun a => if_neg (by omega)
    rw [hrow, Function.update_eq_self]
  | n + 1, i, dest => by
    rw [scalarLoop, scalarLoop_eq n (i + 1), writeByte_row, writeByte, Function.update_idem]
    congr 1
    funext a
    by_cases ha : a = i
    · subst ha
      rw [if_neg (by omega), if_pos (by omega), Function.update_self]
    · rw [Function.update_of_ne ha]
      by_cases hin : i + 1 ≤ a ∧ a < i + 1 + n
      · rw [if_pos hin, if_pos (by omega)]
      · rw [if_neg hin, if_neg (by omega)]

/-- Any number of vector rounds from `i ≤ len`, each writing the bytes the scalar loop would,
fill row `l` from `i` up to where they stop, and stop at or before `len`. -/
theorem vectorLoop_spec {w len : ℕ} {block : ℕ → ℕ → UInt8}
    (hblock : ∀ i, i + w ≤ len → ∀ k < w, block i k = scalarByte srcs v vrow src (i + k)) :
    ∀ (fuel i : ℕ) (dest : ℕ → ℕ → UInt8), i ≤ len →
      i ≤ (vectorLoop w len block l fuel i dest).1 ∧ (vectorLoop w len block l fuel i dest).1 ≤ len ∧
      (vectorLoop w len block l fuel i dest).2 = Function.update dest l fun a =>
        if i ≤ a ∧ a < (vectorLoop w len block l fuel i dest).1 then scalarByte srcs v vrow src a
        else dest l a
  | 0, i, dest, hi => by
    refine ⟨le_refl i, hi, ?_⟩
    have hrow : (fun a => if i ≤ a ∧ a < i then scalarByte srcs v vrow src a else dest l a) =
        dest l := funext fun a => if_neg (by omega)
    rw [vectorLoop, hrow, Function.update_eq_self]
  | fuel + 1, i, dest, hi => by
    rw [vectorLoop]
    split
    · next hround =>
      -- the round writes bytes `i .. i + w - 1`, the rounds after it the rest
      obtain ⟨hstart, hstop, hdest⟩ := vectorLoop_spec hblock fuel (i + w)
        (writeVector dest l i w (block i)) hround
      generalize vectorLoop w len block l fuel (i + w) (writeVector dest l i w (block i)) = r
        at hstart hstop hdest
      refine ⟨by omega, hstop, ?_⟩
      rw [hdest, writeVector_row, writeVector, Function.update_idem]
      congr 1
      funext a
      simp only [store]
      by_cases hw : i ≤ a ∧ a < i + w
      · rw [if_pos hw, if_neg (by omega), if_pos (by omega), hblock i hround (a - i) (by omega),
          Nat.add_sub_cancel' hw.1]
      · rw [if_neg hw]
        by_cases hin : i + w ≤ a ∧ a < r.1
        · rw [if_pos hin, if_pos (by omega)]
        · rw [if_neg hin, if_neg (by omega)]
    · refine ⟨le_refl i, hi, ?_⟩
      have hrow : (fun a => if i ≤ a ∧ a < i then scalarByte srcs v vrow src a else dest l a) =
          dest l := funext fun a => if_neg (by omega)
      rw [hrow, Function.update_eq_self]

end Rows

/-- A fold over the destination rows in which row `l` fills that row's first `len` bytes with
`rowVal l` and leaves the rest of `dest` alone fills every row below `dests`. -/
theorem foldl_rows {len : ℕ} {rowVal : ℕ → ℕ → UInt8}
    {step : (ℕ → ℕ → UInt8) → ℕ → ℕ → ℕ → UInt8}
    (hstep : ∀ dest l, step dest l =
      Function.update dest l fun a => if a < len then rowVal l a else dest l a) :
    ∀ (dests : ℕ) (dest : ℕ → ℕ → UInt8), (List.range dests).foldl step dest =
      fun l a => if l < dests ∧ a < len then rowVal l a else dest l a
  | 0, dest => funext fun l => funext fun a => (if_neg (by omega)).symm
  | dests + 1, dest => by
    rw [List.range_succ, List.foldl_append, List.foldl_cons, List.foldl_nil,
      foldl_rows hstep dests dest, hstep]
    funext l a
    -- row `dests` is the one the last step fills
    by_cases hl : l = dests
    · subst hl
      rw [Function.update_self]
      by_cases ha : a < len
      · rw [if_pos ha, if_pos ⟨by omega, ha⟩]
      · rw [if_neg ha, if_neg (by omega), if_neg (by omega)]
    · rw [Function.update_of_ne hl]
      by_cases hin : l < dests ∧ a < len
      · rw [if_pos hin, if_pos ⟨by omega, hin.2⟩]
      · rw [if_neg hin, if_neg (by omega)]

/-- The scalar byte of row `l` is the byte `encodeSpec` asks for. -/
theorem scalarByte_row (srcs : ℕ) (v : ℕ → UInt8) (src : ℕ → ℕ → UInt8) (l i : ℕ) :
    scalarByte srcs v (l * (srcs * 32)) src i =
      (List.range srcs).foldl (fun s j =>
        s ^^^ (v (32 * (l * srcs + j) + (src j i &&& 15).toNat) ^^^
          v (32 * (l * srcs + j) + 16 + (src j i >>> 4).toNat))) 0 := by
  have hbase : ∀ j, l * (srcs * 32) + 32 * j = 32 * (l * srcs + j) := fun j => by ring
  simp only [scalarByte, lookupByte, hbase]

theorem ecEncodeDataDefault_eq (len srcs dests : ℕ) (v : ℕ → UInt8) (src dest : ℕ → ℕ → UInt8) :
    ecEncodeDataDefault len srcs dests v src dest = encodeSpec len srcs dests v src dest := by
  have hstep : ∀ (dest : ℕ → ℕ → UInt8) l,
      scalarLoop srcs v (l * (srcs * 32)) src l len 0 dest =
        Function.update dest l fun a =>
          if a < len then scalarByte srcs v (l * (srcs * 32)) src a else dest l a := by
    intro dest l
    rw [scalarLoop_eq]
    simp only [Nat.zero_le, true_and, Nat.zero_add]
  rw [ecEncodeDataDefault, foldl_rows hstep]
  simp only [scalarByte_row]
  rfl

/-- A vector encoder whose rounds write what the scalar loop would writes `encodeSpec`. -/
theorem vectorEncode_eq {w : ℕ}
    {block : ℕ → (ℕ → UInt8) → ℕ → (ℕ → ℕ → UInt8) → ℕ → ℕ → UInt8}
    (hblock : ∀ srcs v vrow src i k, k < w →
      block srcs v vrow src i k = scalarByte srcs v vrow src (i + k))
    (len srcs dests : ℕ) (v : ℕ → UInt8) (src dest : ℕ → ℕ → UInt8) :
    vectorEncode w block len srcs dests v src dest = encodeSpec len srcs dests v src dest := by
  have hstep : ∀ (dest : ℕ → ℕ → UInt8) l,
      (let vrow := l * (srcs * 32)
       let (i, dest) := vectorLoop w len (block srcs v vrow src) l len 0 dest
       scalarLoop srcs v vrow src l (len - i) i dest) =
        Function.update dest l fun a =>
          if a < len then scalarByte srcs v (l * (srcs * 32)) src a else dest l a := by
    intro dest l
    obtain ⟨-, hstop, hdest⟩ := vectorLoop_spec (l := l)
      (fun i _ k hk => hblock srcs v (l * (srcs * 32)) src i k hk) len 0 dest (Nat.zero_le _)
    dsimp only
    generalize vectorLoop w len (block srcs v (l * (srcs * 32)) src) l len 0 dest = r at hstop hdest ⊢
    obtain ⟨stop, dest1⟩ := r
    dsimp only at hstop hdest ⊢
    -- the vector rounds fill bytes below `stop`, the scalar loop the bytes up to `len`
    rw [scalarLoop_eq, hdest, Function.update_self, Function.update_idem]
    congr 1
    funext a
    by_cases hlow : a < stop
    · rw [if_neg (by omega), if_pos ⟨Nat.zero_le a, hlow⟩, if_pos (by omega)]
    · by_cases ha : a < len
      · rw [if_pos ⟨by omega, by omega⟩, if_pos ha]
      · rw [if_neg (by omega), if_neg (by omega), if_neg ha]
  rw [vectorEncode, foldl_rows hstep]
  simp only [scalarByte_row]
  rfl

/-! ## One vector round -/

/-- A round of the 16-byte encoders writes at byte `k` what the scalar loop writes at `i + k`. -/
theorem block16_eq (srcs : ℕ) (v : ℕ → UInt8) (vrow : ℕ) (src : ℕ → ℕ → UInt8) (i k : ℕ) :
    block16 srcs v vrow src i k = scalarByte srcs v vrow src (i + k) := by
  simp only [block16, foldl_xorv_apply, scalarByte]
  congr 1
  funext s j
  -- the lane masks are the nibbles of byte `i + k` of source `j`
  have hlo := ofLanes_and_0x0F0F (load (src j) i) k
  have hhi := ofLanes_shiftRight_and_0x0F0F (load (src j) i) k
  simp only [xorv]
  rw [shuffle_of_lt _ _ (by rw [hlo]; exact toNat_and_0x0F_lt _), hlo,
    shuffle_of_lt _ _ (by rw [hhi]; exact toNat_shiftRight_four_lt _), hhi]
  rfl

/-- A round of `ec_encode_data_avx2` writes at byte `k < 32` what the scalar loop writes at
`i + k`. -/
theorem block32_eq (srcs : ℕ) (v : ℕ → UInt8) (vrow : ℕ) (src : ℕ → ℕ → UInt8) (i : ℕ)
    {k : ℕ} (hk : k < 32) :
    block32 srcs v vrow src i k = scalarByte srcs v vrow src (i + k) := by
  simp only [block32, foldl_xorv_apply, scalarByte]
  congr 1
  funext s j
  have hlo := ofLanes_and_0x0F0F (load (src j) i) k
  have hhi := ofLanes_shiftRight_and_0x0F0F (load (src j) i) k
  simp only [xorv]
  rw [shuffleEpi8_permute_low _ _ hk (by rw [hlo]; exact and_0x0F_and_0x80 _), hlo,
    and_0x0F_and_0x0F, shuffleEpi8_permute_high _ _ hk (by rw [hhi]; exact shiftRight_four_and_0x80 _),
    hhi, shiftRight_four_and_0x0F]
  simp only [load, lookupByte, Nat.add_assoc]

/-! ## The dispatch and the tables -/

theorem ecEncodeDataAvx2_eq (len srcs dests : ℕ) (v : ℕ → UInt8) (src dest : ℕ → ℕ → UInt8) :
    ecEncodeDataAvx2 len srcs dests v src dest = encodeSpec len srcs dests v src dest :=
  vectorEncode_eq (fun srcs v vrow src i _ hk => block32_eq srcs v vrow src i hk) len srcs dests
    v src dest

/-- Tables written one after another from entry `e0` hold entry `t / 32` at byte `t`. -/
theorem foldl_store_tables (table : ℕ → ℕ → UInt8) (e0 : ℕ) :
    ∀ (n : ℕ) (g : ℕ → UInt8),
      (List.range n).foldl (fun g j => store g (32 * (e0 + j)) 32 (table (e0 + j))) g =
        fun t => if 32 * e0 ≤ t ∧ t < 32 * (e0 + n) then table (t / 32) (t % 32) else g t
  | 0, g => funext fun t => (if_neg (by omega)).symm
  | n + 1, g => by
    rw [List.range_succ, List.foldl_append, List.foldl_cons, List.foldl_nil,
      foldl_store_tables table e0 n g]
    funext t
    simp only [store]
    -- byte `t` lies in the last table or in one before it
    by_cases hlast : 32 * (e0 + n) ≤ t ∧ t < 32 * (e0 + n) + 32
    · rw [if_pos hlast, if_pos (by omega), show t / 32 = e0 + n by omega,
        show t % 32 = t - 32 * (e0 + n) by omega]
    · rw [if_neg hlast]
      by_cases hin : 32 * e0 ≤ t ∧ t < 32 * (e0 + n)
      · rw [if_pos hin, if_pos (by omega)]
      · rw [if_neg hin, if_neg (by omega)]

/-- After `ec_init_tables`, byte `t` of the first `32 rows k` holds entry `t % 32` of the
table of coefficient `t / 32`. -/
theorem ecInitTables_apply (k rows : ℕ) (a gTbls : ℕ → UInt8) (t : ℕ) :
    ecInitTables k rows a gTbls t =
      if t < 32 * (rows * k) then gfVectMulInit (a (t / 32)) (t % 32) else gTbls t := by
  rw [ecInitTables]
  induction rows generalizing t with
  | zero => rw [if_neg (by omega)]; rfl
  | succ rows ih =>
    rw [List.range_succ, List.foldl_append, List.foldl_cons, List.foldl_nil,
      foldl_store_tables (fun e => gfVectMulInit (a e)) (rows * k) k]
    -- row `rows` holds the coefficients `rows k .. rows k + k - 1`
    have hrow : (rows + 1) * k = rows * k + k := Nat.succ_mul rows k
    dsimp only
    rw [hrow]
    by_cases hlast : 32 * (rows * k) ≤ t ∧ t < 32 * (rows * k + k)
    · rw [if_pos hlast, if_pos (by omega)]
    · rw [if_neg hlast, ih]
      by_cases hin : t < 32 * (rows * k)
      · rw [if_pos hin, if_pos (by omega)]
      · rw [if_neg hin, if_neg (by omega)]

/-- With the tables of `ec_init_tables`, the two lookups of a byte multiply it by the
coefficient of the table. -/
theorem lookup_ecInitTables {k rows e : ℕ} (a gTbls : ℕ → UInt8) (he : e < rows * k)
    (b : UInt8) :
    ecInitTables k rows a gTbls (32 * e + (b &&& 15).toNat) ^^^
      ecInitTables k rows a gTbls (32 * e + 16 + (b >>> 4).toNat) = gfMul (a e) b := by
  have hlo := toNat_and_0x0F_lt b
  have hhi := toNat_shiftRight_four_lt b
  rw [ecInitTables_apply, ecInitTables_apply, if_pos (by omega), if_pos (by omega),
    show (32 * e + (b &&& 15).toNat) / 32 = e by omega,
    show (32 * e + (b &&& 15).toNat) % 32 = (b &&& 15).toNat by omega,
    show (32 * e + 16 + (b >>> 4).toNat) / 32 = e by omega,
    show (32 * e + 16 + (b >>> 4).toNat) % 32 = 16 + (b >>> 4).toNat by omega]
  exact gfVectMulInit_lookup (a e) b

/-- A fold that xors bytes is the sum of their field elements. -/
theorem foldl_xor_eq_sum (f : ℕ → GF256) :
    ∀ n, (List.range n).foldl (fun s j => s ^^^ (f j).val) 0 = (∑ j ∈ Finset.range n, f j).val
  | 0 => rfl
  | n + 1 => by
    rw [List.range_succ, List.foldl_append, List.foldl_cons, List.foldl_nil, foldl_xor_eq_sum f n,
      Finset.sum_range_succ, GF256.val_add]

theorem ecEncodeData_agrees (len srcs dests : ℕ) (v : ℕ → UInt8) (src dest : ℕ → ℕ → UInt8) :
    ecEncodeDataSsse3 len srcs dests v src dest = encodeSpec len srcs dests v src dest ∧
    ecEncodeDataAvx len srcs dests v src dest = encodeSpec len srcs dests v src dest ∧
    ecEncodeDataAvx2 len srcs dests v src dest = encodeSpec len srcs dests v src dest ∧
    ecEncodeDataGeneric len srcs dests v src dest = encodeSpec len srcs dests v src dest ∧
    ecEncodeDataDefault len srcs dests v src dest = encodeSpec len srcs dests v src dest ∧
    ∀ (a gTbls : ℕ → UInt8) (l i : ℕ), l < dests → i < len →
      (⟨encodeSpec len srcs dests (ecInitTables srcs dests a gTbls) src dest l i⟩ : GF256) =
        ∑ j ∈ Finset.range srcs, (⟨a (l * srcs + j)⟩ : GF256) * ⟨src j i⟩ := by
  -- the three 16-byte encoders share one body
  have h16 := @vectorEncode_eq 16 block16
    (fun srcs v vrow src i k _ => block16_eq srcs v vrow src i k) len srcs dests v src dest
  refine ⟨h16, h16, ecEncodeDataAvx2_eq len srcs dests v src dest, h16,
    ecEncodeDataDefault_eq len srcs dests v src dest, ?_⟩
  intro a gTbls l i hl hi
  apply GF256.ext
  -- each table pair of the row is the product by its coefficient
  have hcoef : ∀ j ∈ List.range srcs, l * srcs + j < dests * srcs := fun j hj => by
    have hj' := List.mem_range.mp hj
    calc l * srcs + j < l * srcs + srcs := by omega
      _ = (l + 1) * srcs := (Nat.succ_mul l srcs).symm
      _ ≤ dests * srcs := Nat.mul_le_mul_right srcs hl
  rw [encodeSpec, if_pos ⟨hl, hi⟩, ← foldl_xor_eq_sum]
  refine List.foldl_ext _ _ 0 fun s j hj => ?_
  rw [lookup_ecInitTables a gTbls (hcoef j hj)]
  rfl

end GaloisFieldEncode

end LizardFs
