import Mathlib.Data.List.Basic

/-!
UTF-8 over octets as natural numbers: the encoding of a character, its exact
inverse, and a decoder that goes on past errors as a text decoder of the web
platform does.
-/

set_option autoImplicit false

namespace Utf8

def encodeChar (c : Char) : List Nat :=
  let n := c.toNat
  if n < 0x80 then [n]
  else if n < 0x800 then [0xC0 + n / 64, 0x80 + n % 64]
  else if n < 0x10000 then [0xE0 + n / 4096, 0x80 + n / 64 % 64, 0x80 + n % 64]
  else [0xF0 + n / 262144, 0x80 + n / 4096 % 64, 0x80 + n / 64 % 64, 0x80 + n % 64]

def sequenceLength (b : Nat) : Nat :=
  if b < 0x80 then 1 else if b < 0xE0 then 2 else if b < 0xF0 then 3 else 4

def payload : List Nat → Nat
  | [a] => a
  | [a, b] => a % 32 * 64 + b % 64
  | [a, b, c] => a % 16 * 4096 + b % 64 * 64 + c % 64
  | [a, b, c, d] => a % 8 * 262144 + b % 64 * 4096 + c % 64 * 64 + d % 64
  | _ => 0

def decodeChar (bs : List Nat) : Option Char :=
  if encodeChar (Char.ofNat (payload bs)) = bs then some (Char.ofNat (payload bs)) else none

theorem toNat_lt (c : Char) : c.toNat < 0x110000 := by
  have h := c.valid
  simp only [UInt32.isValidChar, Nat.isValidChar] at h
  show c.val.toNat < 0x110000
  omega

theorem payload_encodeChar (c : Char) : payload (encodeChar c) = c.toNat := by
  have hlt := toNat_lt c
  simp only [encodeChar]
  split
  · rfl
  split
  · simp only [payload]
    omega
  split
  · simp only [payload]
    omega
  · simp only [payload]
    omega

theorem decodeChar_eq_some {bs : List Nat} {c : Char} :
    decodeChar bs = some c ↔ bs = encodeChar c := by
  unfold decodeChar
  constructor
  · intro h
    split at h
    · rename_i heq
      rw [← Option.some.inj h, heq]
    · cases h
  · intro h
    have hc : Char.ofNat (payload bs) = c := by
      rw [h, payload_encodeChar, Char.ofNat_toNat]
    rw [hc, if_pos h.symm]

theorem encodeChar_eq_cons (c : Char) :
    ∃ b bs, encodeChar c = b :: bs ∧ sequenceLength b = (b :: bs).length := by
  have hlt := toNat_lt c
  simp only [encodeChar]
  split
  · rename_i h
    exact ⟨_, _, rfl, by simp [sequenceLength, h]⟩
  split
  · refine ⟨_, _, rfl, ?_⟩
    simp only [sequenceLength, List.length_cons, List.length_nil]
    rw [if_neg (by omega), if_pos (by omega)]
  split
  · refine ⟨_, _, rfl, ?_⟩
    simp only [sequenceLength, List.length_cons, List.length_nil]
    rw [if_neg (by omega), if_neg (by omega), if_pos (by omega)]
  · refine ⟨_, _, rfl, ?_⟩
    simp only [sequenceLength, List.length_cons, List.length_nil]
    rw [if_neg (by omega), if_neg (by omega), if_neg (by omega)]

theorem lt_of_mem_encodeChar {c : Char} {b : Nat} (h : b ∈ encodeChar c) : b < 256 := by
  have hlt := toNat_lt c
  simp only [encodeChar] at h
  split at h
  · rw [List.mem_singleton.mp h]
    omega
  split at h
  · simp only [List.mem_cons, List.not_mem_nil, or_false] at h
    omega
  split at h
  · simp only [List.mem_cons, List.not_mem_nil, or_false] at h
    omega
  · simp only [List.mem_cons, List.not_mem_nil, or_false] at h
    omega

/-! ### Decoding past errors -/

/-- What a decoder holds inside a sequence: the bits so far, the octets still
needed, and the range the next one has to lie in. -/
structure Pending where
  point : Nat
  needed : Nat
  lower : Nat
  upper : Nat

def REPLACEMENT : Char := Char.ofNat 0xFFFD

def lead (b : Nat) : List Char × Option Pending :=
  if b < 0x80 then ([Char.ofNat b], none)
  else if 0xC2 ≤ b ∧ b ≤ 0xDF then ([], some ⟨b % 32, 1, 0x80, 0xBF⟩)
  else if 0xE0 ≤ b ∧ b ≤ 0xEF then
    ([], some ⟨b % 16, 2, if b = 0xE0 then 0xA0 else 0x80, if b = 0xED then 0x9F else 0xBF⟩)
  else if 0xF0 ≤ b ∧ b ≤ 0xF4 then
    ([], some ⟨b % 8, 3, if b = 0xF0 then 0x90 else 0x80, if b = 0xF4 then 0x8F else 0xBF⟩)
  else ([REPLACEMENT], none)

/-- One octet: an octet that does not continue its sequence begins another. -/
def next : Option Pending → Nat → List Char × Option Pending
  | none, b => lead b
  | some p, b =>
    if p.lower ≤ b ∧ b ≤ p.upper then
      if p.needed ≤ 1 then ([Char.ofNat (p.point * 64 + b % 64)], none)
      else ([], some ⟨p.point * 64 + b % 64, p.needed - 1, 0x80, 0xBF⟩)
    else (REPLACEMENT :: (lead b).1, (lead b).2)

def decodeFrom : Option Pending → List Nat → List Char
  | none, [] => []
  | some _, [] => [REPLACEMENT]
  | p, b :: bs => (next p b).1 ++ decodeFrom (next p b).2 bs

def decode (bs : List Nat) : List Char := decodeFrom none bs

theorem next_none (b : Nat) : next none b = lead b := rfl

theorem next_tail (point k lower upper x : Nat) (hx : x < 64) (hl : lower ≤ 0x80 + x)
    (hu : 0x80 + x ≤ upper) :
    next (some ⟨point, k + 2, lower, upper⟩) (0x80 + x) =
      ([], some ⟨point * 64 + x, k + 1, 0x80, 0xBF⟩) := by
  have hmod : (0x80 + x) % 64 = x := by omega
  simp only [next, hmod]
  rw [if_pos ⟨hl, hu⟩, if_neg (by omega)]
  rfl

theorem next_last (point lower upper x : Nat) (hx : x < 64) (hl : lower ≤ 0x80 + x)
    (hu : 0x80 + x ≤ upper) :
    next (some ⟨point, 1, lower, upper⟩) (0x80 + x) = ([Char.ofNat (point * 64 + x)], none) := by
  have hmod : (0x80 + x) % 64 = x := by omega
  simp only [next, hmod]
  rw [if_pos ⟨hl, hu⟩, if_pos (by omega)]

theorem lead_two {x : Nat} (h : 2 ≤ x) (h' : x < 32) :
    lead (0xC0 + x) = ([], some ⟨x, 1, 0x80, 0xBF⟩) := by
  have hmod : (0xC0 + x) % 32 = x := by omega
  unfold lead
  rw [if_neg (by omega), if_pos (by omega), hmod]

theorem lead_three {x : Nat} (h : x < 16) :
    lead (0xE0 + x) = ([], some ⟨x, 2, if x = 0 then 0xA0 else 0x80, if x = 13 then 0x9F else 0xBF⟩) := by
  have hmod : (0xE0 + x) % 16 = x := by omega
  have hlow : (0xE0 + x = 0xE0) = (x = 0) := by rw [eq_iff_iff]; omega
  have hhigh : (0xE0 + x = 0xED) = (x = 13) := by rw [eq_iff_iff]; omega
  unfold lead
  rw [if_neg (by omega), if_neg (by omega), if_pos (by omega), hmod]
  simp only [hlow, hhigh]

theorem lead_four {x : Nat} (h : x ≤ 4) :
    lead (0xF0 + x) = ([], some ⟨x, 3, if x = 0 then 0x90 else 0x80, if x = 4 then 0x8F else 0xBF⟩) := by
  have hmod : (0xF0 + x) % 8 = x := by omega
  have hlow : (0xF0 + x = 0xF0) = (x = 0) := by rw [eq_iff_iff]; omega
  have hhigh : (0xF0 + x = 0xF4) = (x = 4) := by rw [eq_iff_iff]; omega
  unfold lead
  rw [if_neg (by omega), if_neg (by omega), if_neg (by omega), if_pos (by omega), hmod]
  simp only [hlow, hhigh]

theorem isValidChar_toNat (c : Char) : c.toNat < 0xD800 ∨ 0xDFFF < c.toNat ∧ c.toNat < 0x110000 :=
  c.valid

theorem decodeFrom_encodeChar (c : Char) (bs : List Nat) :
    decodeFrom none (encodeChar c ++ bs) = c :: decodeFrom none bs := by
  have hvalid := isValidChar_toNat c
  have hofNat : Char.ofNat c.toNat = c := Char.ofNat_toNat c
  simp only [encodeChar]
  generalize c.toNat = n at *
  split
  · rename_i h
    have hlead : lead n = ([c], none) := by
      rw [lead, if_pos h, hofNat]
    simp only [List.cons_append, List.nil_append, decodeFrom, next_none, hlead]
  split
  · have hlead := lead_two (x := n / 64) (by omega) (by omega)
    have hlast := next_last (n / 64) 0x80 0xBF (n % 64) (by omega) (by omega) (by omega)
    rw [show n / 64 * 64 + n % 64 = n by omega, hofNat] at hlast
    simp only [List.cons_append, List.nil_append, decodeFrom, next_none, hlead, hlast]
  split
  · have hlead := lead_three (x := n / 4096) (by omega)
    have htail := next_tail (n / 4096) 0 (if n / 4096 = 0 then 0xA0 else 0x80)
      (if n / 4096 = 13 then 0x9F else 0xBF) (n / 64 % 64) (by omega) (by split <;> omega) (by split <;> omega)
    have hlast := next_last (n / 4096 * 64 + n / 64 % 64) 0x80 0xBF (n % 64) (by omega) (by omega) (by omega)
    rw [show (n / 4096 * 64 + n / 64 % 64) * 64 + n % 64 = n by omega, hofNat] at hlast
    simp only [List.cons_append, List.nil_append, decodeFrom, next_none, hlead, htail, hlast]
  · have hlead := lead_four (x := n / 262144) (by omega)
    have htail := next_tail (n / 262144) 1 (if n / 262144 = 0 then 0x90 else 0x80)
      (if n / 262144 = 4 then 0x8F else 0xBF) (n / 4096 % 64) (by omega) (by split <;> omega) (by split <;> omega)
    have htail' := next_tail (n / 262144 * 64 + n / 4096 % 64) 0 0x80 0xBF (n / 64 % 64) (by omega) (by omega) (by omega)
    have hlast := next_last ((n / 262144 * 64 + n / 4096 % 64) * 64 + n / 64 % 64) 0x80 0xBF
      (n % 64) (by omega) (by omega) (by omega)
    rw [show ((n / 262144 * 64 + n / 4096 % 64) * 64 + n / 64 % 64) * 64 + n % 64 = n by omega,
      hofNat] at hlast
    simp only [List.cons_append, List.nil_append, decodeFrom, next_none, hlead, htail, htail', hlast]

theorem decode_encode (cs : List Char) : decode (cs.flatMap encodeChar) = cs := by
  unfold decode
  induction cs with
  | nil => rfl
  | cons c cs ih => rw [List.flatMap_cons, decodeFrom_encodeChar, ih]

end Utf8
