import Mathlib
import LizardFs.Lib.Decimal

/-!
# Network specifications of the exports and topology files

Model of `exports_parsenet` (`src/master/exports.cc`) and `topology_parsenet`
(`src/master/topology.cc`), which read the address part of an exports or topology
line. The two functions have the same body; it is `parsenet` here. A C string is
the list of its characters before the NUL; `return -1` is `none`, `return 0` with
`*fromip` and `*toip` set is `some (fromip, toip)`.

The grammar the files document is `NetSpec`: `*`, a dotted quad `a.b.c.d`, `a.b.c.d/n`,
`a.b.c.d/m1.m2.m3.m4` and `a.b.c.d-e.f.g.h`, every number written in decimal (leading
zeros allowed), octets at most 255 and `n` at most 32. `NetSpec.bounds` is the range
each form stands for, with `M = 0` for `/0`.

* `parsenet_render`: every spec other than `/0` is accepted with its range.
* `parsenet_sound`: every accepted string is a spec.
* `parsenet_zero_bits_single_address`: `a.b.c.d/0` stands for the single address `a.b.c.d`, not for
  every address. The source computes the mask as `0xFFFFFFFF << (32 - 0)`, a shift of
  a 32-bit value by 32, which C leaves undefined; the x86 shift that the compiler emits,
  like Lean's `UInt32` shift, takes the count modulo 32 and leaves `0xFFFFFFFF`.
-/

namespace LizardFs

namespace ParseNet

open Decimal

/-! ## The parser -/

/-- One octet: `if (*net>='0' && *net<='9') { octet=0; while (...) ... } else return -1;`
with the bound 255 checked after every digit. -/
def readOctet (net : List Char) : Option (Nat × List Char) :=
  if startsWithDigit net then scanDigits 255 0 net else none

/-- `if (*net!='.') return -1; net++;` -/
def expectDot : List Char → Option (List Char)
  | '.' :: net => some net
  | _ => none

/-- The loop `for (i=0 ; i<4; i++)` with `n` iterations left: an octet, a dot unless it
is the last one (`if (i<3)`), then `ip*=256; ip+=octet;`. -/
def quadLoop : Nat → UInt32 → List Char → Option (UInt32 × List Char)
  | 0, ip, net => some (ip, net)
  | n + 1, ip, net => do
    let (octet, net) ← readOctet net
    let net ← if n = 0 then pure net else expectDot net
    quadLoop n (ip * 256 + UInt32.ofNat octet) net

/-- `ip = 0xFFFFFFFF; if (octet<32) ip <<= 32-octet;` For `octet = 0` the C shift by 32
is undefined; `UInt32` shifts by the count modulo 32, as the x86 instruction does. -/
def bitsMask (octet : Nat) : UInt32 :=
  if octet < 32 then 0xFFFFFFFF <<< UInt32.ofNat (32 - octet) else 0xFFFFFFFF

/-- The loop after `/`. Its first iteration (`i==0`) ends it when the number is the last
thing on the line and at most 32 (`ip/bits`); otherwise the mask is read as a quad,
with `ip = 0*256 + octet` after the first octet. -/
def maskLoop (net : List Char) : Option (UInt32 × List Char) := do
  let (octet, net) ← readOctet net
  if net = [] ∧ octet ≤ 32 then pure (bitsMask octet, net)
  else
    let net ← expectDot net
    quadLoop 3 (UInt32.ofNat octet) net

/-- The body of `exports_parsenet` and `topology_parsenet`. -/
def parsenet (net : List Char) : Option (UInt32 × UInt32) :=
  if net = ['*'] then some (0, 0xFFFFFFFF)
  else match quadLoop 4 0 net with
    | some (ip, []) => some (ip, ip)
    | some (ip, '/' :: net) =>
      match maskLoop net with
      | some (mask, []) => some (ip &&& mask, (ip &&& mask) ||| (mask ^^^ 0xFFFFFFFF))
      | _ => none
    | some (ip, '-' :: net) =>
      match quadLoop 4 0 net with
      | some (ip2, []) => some (ip, ip2)
      | _ => none
    | _ => none

/-- `exports_parsenet`. -/
def exportsParsenet (net : List Char) : Option (UInt32 × UInt32) := parsenet net

/-- `topology_parsenet`. -/
def topologyParsenet (net : List Char) : Option (UInt32 × UInt32) := parsenet net

/-! ## The documented grammar -/

/-- Octets separated by dots. -/
def dotted : List (Numeral 255) → List Char
  | [] => []
  | [o] => o.digits
  | o :: os => o.digits ++ '.' :: dotted os

/-- The address the octets write, most significant first. -/
def address (os : List (Numeral 255)) : Nat :=
  os.foldl (fun a o => a * 256 + value o.digits) 0

/-- A dotted quad `a.b.c.d`. -/
structure Quad where
  octets : List (Numeral 255)
  length_eq : octets.length = 4

/-- The text of a quad. -/
def Quad.render (q : Quad) : List Char := dotted q.octets

/-- The 32-bit address of a quad. -/
def Quad.ip (q : Quad) : UInt32 := UInt32.ofNat (address q.octets)

/-- The forms of a network specification. -/
inductive NetSpec
  | any
  | single (a : Quad)
  | bits (a : Quad) (n : Numeral 32)
  | mask (a m : Quad)
  | range (a b : Quad)

/-- The text of a specification. -/
def NetSpec.render : NetSpec → List Char
  | .any => ['*']
  | .single a => a.render
  | .bits a n => a.render ++ '/' :: n.digits
  | .mask a m => a.render ++ '/' :: m.render
  | .range a b => a.render ++ '-' :: b.render

/-- The `n`-bit prefix mask: the top `n` of the 32 bits set. -/
def prefixMask (n : Nat) : UInt32 := UInt32.ofNat (2 ^ 32 - 2 ^ (32 - n))

/-- The addresses that agree with `ip` under the mask `m`. -/
def masked (ip m : UInt32) : UInt32 × UInt32 := (ip &&& m, (ip &&& m) ||| ~~~m)

/-- The first and last address a specification stands for. -/
def NetSpec.bounds : NetSpec → UInt32 × UInt32
  | .any => (0, 0xFFFFFFFF)
  | .single a => (a.ip, a.ip)
  | .bits a n => masked a.ip (prefixMask (value n.digits))
  | .mask a m => masked a.ip m.ip
  | .range a b => (a.ip, b.ip)

/-- The form `a.b.c.d/0`. -/
def NetSpec.IsZeroBits : NetSpec → Prop
  | .bits _ n => value n.digits = 0
  | _ => False

/-! ## Reading a specification back -/

theorem readOctet_numeral {b : Nat} (o : Numeral b) (hb : b ≤ 255) (rest : List Char)
    (hrest : startsWithDigit rest = false) :
    readOctet (o.digits ++ rest) = some (value o.digits, rest) := by
  have hd : startsWithDigit (o.digits ++ rest) = true := by
    rw [startsWithDigit_append_of_ne_nil o.ne_nil]
    exact o.startsWithDigit_digits
  rw [readOctet, if_pos hd, o.scan hb hrest]

/-- The code's accumulation of octets, in 32-bit arithmetic. -/
def foldOctets (ip : UInt32) (os : List (Numeral 255)) : UInt32 :=
  os.foldl (fun ip o => ip * 256 + UInt32.ofNat (value o.digits)) ip

theorem foldOctets_cons (ip : UInt32) (o : Numeral 255) (os : List (Numeral 255)) :
    foldOctets ip (o :: os) = foldOctets (ip * 256 + UInt32.ofNat (value o.digits)) os :=
  List.foldl_cons ..

/-- The 32-bit accumulation is the address taken modulo `2 ^ 32`. -/
theorem foldOctets_ofNat (a : Nat) (os : List (Numeral 255)) :
    foldOctets (UInt32.ofNat a) os =
      UInt32.ofNat (os.foldl (fun a o => a * 256 + value o.digits) a) := by
  induction os generalizing a with
  | nil => rfl
  | cons o os ih =>
    have hstep : UInt32.ofNat a * 256 + UInt32.ofNat (value o.digits) =
        UInt32.ofNat (a * 256 + value o.digits) := by
      rw [UInt32.ofNat_add, UInt32.ofNat_mul]
      rfl
    simp only [foldOctets, List.foldl_cons] at ih ⊢
    rw [hstep, ih]

theorem quadLoop_succ (n : Nat) (ip : UInt32) (net : List Char) :
    quadLoop (n + 1) ip net = (readOctet net).bind fun p =>
      (if n = 0 then some p.2 else expectDot p.2).bind
        (quadLoop n (ip * 256 + UInt32.ofNat p.1)) := by
  cases n <;> rfl

theorem maskLoop_eq (net : List Char) :
    maskLoop net = (readOctet net).bind fun p =>
      if p.2 = [] ∧ p.1 ≤ 32 then some (bitsMask p.1, p.2)
      else (expectDot p.2).bind (quadLoop 3 (UInt32.ofNat p.1)) := rfl

theorem expectDot_eq_some {s s' : List Char} (h : expectDot s = some s') : s = '.' :: s' := by
  unfold expectDot at h
  split at h
  · cases h; rfl
  · cases h

/-- The last iteration: no dot follows the octet. -/
theorem quadLoop_last {ip : UInt32} {net rest : List Char} {v : Nat}
    (h : readOctet net = some (v, rest)) :
    quadLoop 1 ip net = some (ip * 256 + UInt32.ofNat v, rest) := by
  rw [quadLoop_succ, h]
  rfl

/-- An iteration before the last: a dot follows the octet. -/
theorem quadLoop_dot (n : Nat) {ip : UInt32} {net net' : List Char} {v : Nat}
    (h : readOctet net = some (v, '.' :: net')) :
    quadLoop (n + 2) ip net = quadLoop (n + 1) (ip * 256 + UInt32.ofNat v) net' := by
  rw [quadLoop_succ, h]
  rfl

theorem quadLoop_dotted (os : List (Numeral 255)) (ip : UInt32) (rest : List Char)
    (hrest : startsWithDigit rest = false) :
    quadLoop os.length ip (dotted os ++ rest) = some (foldOctets ip os, rest) := by
  induction os generalizing ip with
  | nil => rfl
  | cons o os ih =>
    cases os with
    | nil => exact quadLoop_last (readOctet_numeral o (Nat.le_refl 255) _ hrest)
    | cons o' os =>
      have hdot : startsWithDigit ('.' :: (dotted (o' :: os) ++ rest)) = false := rfl
      have hread := readOctet_numeral o (Nat.le_refl 255) _ hdot
      have hsplit : dotted (o :: o' :: os) ++ rest = o.digits ++ '.' :: (dotted (o' :: os) ++ rest) := by
        simp [dotted]
      have hnext := ih (ip * 256 + UInt32.ofNat (value o.digits))
      rw [List.length_cons] at hnext
      rw [hsplit, show (o :: o' :: os).length = os.length + 2 from rfl, quadLoop_dot _ hread,
        hnext, foldOctets_cons ip o]

theorem Quad.quadLoop_render (q : Quad) (rest : List Char) (hrest : startsWithDigit rest = false) :
    quadLoop 4 0 (q.render ++ rest) = some (q.ip, rest) := by
  have h := quadLoop_dotted q.octets 0 _ hrest
  rw [q.length_eq] at h
  rw [Quad.render, h, Quad.ip, address, ← foldOctets_ofNat]
  rfl

theorem startsWithDigit_dotted (o : Numeral 255) (os : List (Numeral 255)) (rest : List Char) :
    startsWithDigit (dotted (o :: os) ++ rest) = true := by
  have h : ∃ t, dotted (o :: os) ++ rest = o.digits ++ t := by
    cases os with
    | nil => exact ⟨rest, rfl⟩
    | cons o' os => exact ⟨'.' :: (dotted (o' :: os) ++ rest), by simp [dotted]⟩
  obtain ⟨t, ht⟩ := h
  rw [ht, startsWithDigit_append_of_ne_nil o.ne_nil]
  exact o.startsWithDigit_digits

/-- A quad starts with a digit, so no line of it is the wildcard `*`. -/
theorem Quad.render_append_ne_star (q : Quad) (rest : List Char) : q.render ++ rest ≠ ['*'] := by
  obtain ⟨os, hlen⟩ := q
  match os, hlen with
  | o :: os, _ =>
    intro heq
    have hd := startsWithDigit_dotted o os rest
    rw [show dotted (o :: os) ++ rest = ['*'] from heq] at hd
    exact absurd hd (by decide)

theorem maskLoop_bits (n : Numeral 32) : maskLoop n.digits = some (bitsMask (value n.digits), []) := by
  have h := readOctet_numeral n (by decide) [] rfl
  rw [List.append_nil] at h
  simp [maskLoop, h, n.value_le]

theorem maskLoop_quad (q : Quad) : maskLoop q.render = some (q.ip, []) := by
  obtain ⟨os, hlen⟩ := q
  match os, hlen with
  | o :: o' :: os, hlen =>
    have hdot : startsWithDigit ('.' :: dotted (o' :: os)) = false := rfl
    have hread := readOctet_numeral o (Nat.le_refl 255) _ hdot
    have hloop := quadLoop_dotted (o' :: os) (UInt32.ofNat (value o.digits)) [] rfl
    have h3 : (o' :: os).length = 3 := by simpa using hlen
    rw [h3, List.append_nil] at hloop
    simp only [Quad.render, dotted, maskLoop, hread]
    simp only [reduceCtorEq, false_and, if_false, expectDot, Option.pure_def, Option.bind_eq_bind,
      Option.bind_some, hloop, Quad.ip, address, List.foldl_cons, Nat.zero_mul, Nat.zero_add,
      foldOctets_ofNat]

/-- The `bits` mask of the code is the prefix mask for every length from 1 to 32. -/
theorem bitsMask_eq_prefixMask : ∀ n : Fin 33, 0 < n.val → bitsMask n.val = prefixMask n.val := by
  decide

theorem xor_allOnes (m : UInt32) : m ^^^ 0xFFFFFFFF = ~~~m := by
  rw [show (0xFFFFFFFF : UInt32) = -1 by decide, UInt32.xor_neg_one]

/-- Every specification other than `a.b.c.d/0` is accepted with the range it stands for. -/
theorem parsenet_render (spec : NetSpec) (h : ¬ spec.IsZeroBits) :
    parsenet spec.render = some spec.bounds := by
  cases spec with
  | any => rfl
  | single a =>
    have hloop := a.quadLoop_render [] rfl
    rw [List.append_nil] at hloop
    have hne : a.render ≠ ['*'] := by simpa using a.render_append_ne_star []
    simp [parsenet, NetSpec.render, hne, hloop, NetSpec.bounds]
  | bits a n =>
    have hloop := a.quadLoop_render ('/' :: n.digits) rfl
    have hne := a.render_append_ne_star ('/' :: n.digits)
    have hn : 0 < value n.digits := Nat.pos_of_ne_zero h
    have hmask := bitsMask_eq_prefixMask ⟨value n.digits, by have := n.value_le; omega⟩ hn
    simp only [parsenet, NetSpec.render, hne, if_false, hloop, maskLoop_bits, hmask,
      xor_allOnes, NetSpec.bounds, masked]
  | mask a m =>
    have hloop := a.quadLoop_render ('/' :: m.render) rfl
    have hne := a.render_append_ne_star ('/' :: m.render)
    simp only [parsenet, NetSpec.render, hne, if_false, hloop, maskLoop_quad, xor_allOnes,
      NetSpec.bounds, masked]
  | range a b =>
    have hloop := a.quadLoop_render ('-' :: b.render) rfl
    have hloop2 := b.quadLoop_render [] rfl
    rw [List.append_nil] at hloop2
    have hne := a.render_append_ne_star ('-' :: b.render)
    simp only [parsenet, NetSpec.render, hne, if_false, hloop, hloop2, NetSpec.bounds]

/-- `a.b.c.d/0` is read as the single address `a.b.c.d` by both parsers, while it
stands for every address. -/
theorem parsenet_zero_bits_single_address (a : Quad) (n : Numeral 32) (hn : value n.digits = 0) :
    exportsParsenet (NetSpec.bits a n).render = some (a.ip, a.ip) ∧
      topologyParsenet (NetSpec.bits a n).render = some (a.ip, a.ip) ∧
      (a.ip, a.ip) ≠ (NetSpec.bits a n).bounds := by
  have hloop := a.quadLoop_render ('/' :: n.digits) rfl
  have hne := a.render_append_ne_star ('/' :: n.digits)
  have hall : (0xFFFFFFFF : UInt32) = -1 := by decide
  -- the code's mask for length 0 is all ones, the prefix mask of length 0 is empty
  have hmask : bitsMask 0 = -1 := by decide
  have hprefix : prefixMask 0 = 0 := by decide
  have hparse : parsenet (NetSpec.bits a n).render = some (a.ip, a.ip) := by
    simp only [parsenet, NetSpec.render, hne, if_false, hloop, maskLoop_bits, hn, hmask,
      UInt32.and_neg_one, hall, UInt32.xor_self, UInt32.or_zero]
  refine ⟨hparse, hparse, ?_⟩
  simp only [NetSpec.bounds, masked, hn, hprefix, UInt32.and_zero, UInt32.zero_or,
    UInt32.not_zero, ne_eq, Prod.mk.injEq, not_and]
  intro h0
  rw [h0]
  decide

/-- The quad `10.0.0.1`. -/
def tenNet : Quad :=
  ⟨[⟨['1', '0'], by decide, List.all_eq_true.mp (by decide), by decide⟩,
    ⟨['0'], by decide, List.all_eq_true.mp (by decide), by decide⟩,
    ⟨['0'], by decide, List.all_eq_true.mp (by decide), by decide⟩,
    ⟨['1'], by decide, List.all_eq_true.mp (by decide), by decide⟩], rfl⟩

/-- The prefix length `0`. -/
def zeroBits : Numeral 32 := ⟨['0'], by decide, List.all_eq_true.mp (by decide), by decide⟩

/-- The exports line address `10.0.0.1/0` admits only `10.0.0.1`. -/
theorem ten_net_slash_zero_admits_one_address :
    (NetSpec.bits tenNet zeroBits).render = "10.0.0.1/0".toList ∧ value zeroBits.digits = 0 ∧
      exportsParsenet (NetSpec.bits tenNet zeroBits).render = some (tenNet.ip, tenNet.ip) ∧
      topologyParsenet (NetSpec.bits tenNet zeroBits).render = some (tenNet.ip, tenNet.ip) ∧
      (tenNet.ip, tenNet.ip) ≠ (NetSpec.bits tenNet zeroBits).bounds :=
  ⟨by decide, rfl, parsenet_zero_bits_single_address tenNet zeroBits rfl⟩

/-- The quad `255.255.255.0`. -/
def classCMask : Quad :=
  ⟨[⟨['2', '5', '5'], by decide, List.all_eq_true.mp (by decide), by decide⟩,
    ⟨['2', '5', '5'], by decide, List.all_eq_true.mp (by decide), by decide⟩,
    ⟨['2', '5', '5'], by decide, List.all_eq_true.mp (by decide), by decide⟩,
    ⟨['0'], by decide, List.all_eq_true.mp (by decide), by decide⟩], rfl⟩

/-- `10.0.0.1/255.255.255.0` is read as the class C network of `10.0.0.1`. -/
theorem ten_net_class_c_accepted :
    ¬ (NetSpec.mask tenNet classCMask).IsZeroBits ∧
      parsenet (NetSpec.mask tenNet classCMask).render = some (NetSpec.mask tenNet classCMask).bounds ∧
      (NetSpec.mask tenNet classCMask).bounds = (0x0A000000, 0x0A0000FF) := by
  have hz : ¬ (NetSpec.mask tenNet classCMask).IsZeroBits := fun h => h
  exact ⟨hz, parsenet_render _ hz, by decide⟩

/-! ## What the parser accepts -/

theorem dotted_cons {o : Numeral 255} {os : List (Numeral 255)} (h : os ≠ []) :
    dotted (o :: os) = o.digits ++ '.' :: dotted os := by
  cases os with
  | nil => exact absurd rfl h
  | cons o' os => rfl

theorem readOctet_sound {s s1 : List Char} {v : Nat} (h : readOctet s = some (v, s1)) :
    ∃ o : Numeral 255, s = o.digits ++ s1 ∧ v = value o.digits ∧ startsWithDigit s1 = false := by
  unfold readOctet at h
  by_cases hd : startsWithDigit s = true
  · rw [if_pos hd] at h
    obtain ⟨ds, rfl, hall, hrest, rfl⟩ := scanDigits_sound h
    -- the digits are not empty, since the string starts with a digit and the rest does not
    have hne : ds ≠ [] := by
      rintro rfl
      rw [List.nil_append, hrest] at hd
      exact absurd hd (by decide)
    have hle : foldDigits 0 ds ≤ 255 := by
      have hscan : scanDigits 255 0 (ds ++ s1) =
          if foldDigits 0 ds ≤ 255 then some (foldDigits 0 ds, s1) else none :=
        scanDigits_append hall hrest (Nat.zero_le _)
      rw [h] at hscan
      by_contra hgt
      rw [if_neg hgt] at hscan
      exact absurd hscan (by simp)
    exact ⟨⟨ds, hne, hall, hle⟩, rfl, rfl, hrest⟩
  · rw [if_neg hd] at h
    exact absurd h (by simp)

/-- What the octet loop accepts: `n` octets separated by dots, followed by a rest that
does not start with a digit. -/
theorem quadLoop_sound {n : Nat} {ip r : UInt32} {s rest : List Char}
    (h : quadLoop n ip s = some (r, rest)) :
    ∃ os : List (Numeral 255), os.length = n ∧ s = dotted os ++ rest ∧
      (n ≠ 0 → startsWithDigit rest = false) := by
  induction n generalizing ip s with
  | zero =>
    simp only [quadLoop, Option.some.injEq, Prod.mk.injEq] at h
    obtain ⟨-, rfl⟩ := h
    exact ⟨[], rfl, rfl, fun h0 => absurd rfl h0⟩
  | succ n ih =>
    rw [quadLoop_succ] at h
    obtain ⟨⟨v, s1⟩, hread, hstep⟩ := Option.bind_eq_some_iff.mp h
    obtain ⟨s2, hnext, hloop⟩ := Option.bind_eq_some_iff.mp hstep
    obtain ⟨o, rfl, -, hs1⟩ := readOctet_sound hread
    cases n with
    | zero =>
      -- the last octet
      have hs2 : s1 = s2 := by simpa using hnext
      simp only [quadLoop, Option.some.injEq, Prod.mk.injEq] at hloop
      obtain ⟨-, rfl⟩ := hloop
      exact ⟨[o], rfl, by rw [hs2]; rfl, fun _ => hs2 ▸ hs1⟩
    | succ m =>
      -- a dot, then the remaining octets
      have hdot : s1 = '.' :: s2 := expectDot_eq_some (by simpa using hnext)
      obtain ⟨os, hlen, rfl, hrest⟩ := ih hloop
      have hne : os ≠ [] := by
        rintro rfl
        exact absurd hlen (by simp)
      refine ⟨o :: os, by simp [hlen], ?_, fun _ => hrest (Nat.add_one_ne_zero m)⟩
      rw [hdot, dotted_cons hne, List.append_assoc, List.cons_append]

/-- What the loop after `/` accepts to the end of the line: a prefix length of at most
32, or a quad. -/
theorem maskLoop_sound {s : List Char} {m : UInt32} (h : maskLoop s = some (m, [])) :
    (∃ n : Numeral 32, s = n.digits) ∨ ∃ q : Quad, s = q.render := by
  rw [maskLoop_eq] at h
  obtain ⟨⟨v, s1⟩, hread, h⟩ := Option.bind_eq_some_iff.mp h
  obtain ⟨o, rfl, rfl, hs1⟩ := readOctet_sound hread
  by_cases hbits : s1 = [] ∧ value o.digits ≤ 32
  · obtain ⟨rfl, hle⟩ := hbits
    exact .inl ⟨⟨o.digits, o.ne_nil, o.all_digits, hle⟩, by simp⟩
  · rw [if_neg hbits] at h
    obtain ⟨s2, hnext, hloop⟩ := Option.bind_eq_some_iff.mp h
    have hdot : s1 = '.' :: s2 := expectDot_eq_some hnext
    obtain ⟨os, hlen, hs2, -⟩ := quadLoop_sound hloop
    have hne : os ≠ [] := by
      rintro rfl
      exact absurd hlen (by simp)
    refine .inr ⟨⟨o :: os, by simp [hlen]⟩, ?_⟩
    rw [Quad.render, dotted_cons hne, hdot, hs2, List.append_nil]

/-- Every string the parser accepts is a network specification. -/
theorem parsenet_sound {s : List Char} {r : UInt32 × UInt32} (h : parsenet s = some r) :
    ∃ spec : NetSpec, spec.render = s := by
  by_cases hstar : s = ['*']
  · exact ⟨.any, hstar.symm⟩
  unfold parsenet at h
  rw [if_neg hstar] at h
  split at h
  · next ip hq =>
    obtain ⟨os, hlen, hs, -⟩ := quadLoop_sound hq
    exact ⟨.single ⟨os, hlen⟩, by rw [hs, List.append_nil]; rfl⟩
  · next ip net hq =>
    obtain ⟨os, hlen, hs, -⟩ := quadLoop_sound hq
    split at h
    · next mask hm =>
      rcases maskLoop_sound hm with ⟨n, rfl⟩ | ⟨q, rfl⟩
      · exact ⟨.bits ⟨os, hlen⟩ n, hs.symm⟩
      · exact ⟨.mask ⟨os, hlen⟩ q, hs.symm⟩
    · cases h
  · next ip net hq =>
    obtain ⟨os, hlen, hs, -⟩ := quadLoop_sound hq
    split at h
    · next ip2 hq2 =>
      obtain ⟨os2, hlen2, hs2, -⟩ := quadLoop_sound hq2
      refine ⟨.range ⟨os, hlen⟩ ⟨os2, hlen2⟩, ?_⟩
      rw [hs, hs2, List.append_nil]
      rfl
    · cases h
  · cases h

/-- The range `10.0.0.1-10.0.0.9` is accepted, and it is the text of a range. -/
theorem ten_net_range_is_spec :
    parsenet "10.0.0.1-10.0.0.9".toList = some (0x0A000001, 0x0A000009) ∧
      ∃ spec : NetSpec, spec.render = "10.0.0.1-10.0.0.9".toList := by
  have h : parsenet "10.0.0.1-10.0.0.9".toList = some (0x0A000001, 0x0A000009) := by decide
  exact ⟨h, parsenet_sound h⟩

end ParseNet

end LizardFs
