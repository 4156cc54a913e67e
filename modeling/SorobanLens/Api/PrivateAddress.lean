import SorobanLens.Lib.IpAddress
import Mathlib.Data.List.TakeWhile
import Mathlib.Tactic.Positivity

/-!
The address half of the webhook target guard: `isPrivateIPv4`, `isPrivateAddress`,
and for which spellings of an address they answer what the address is.
-/

set_option autoImplicit false

namespace SorobanLens

open IpAddress

def isIP (ip : String) : Nat :=
  match parse ip.toList with
  | some (.v4 _) => 4
  | some (.v6 _) => 6
  | none => 0

def decimalNumber (field : List Char) : Nat := Nat.ofDigitChars 10 field 0

/-- The comparisons of `isPrivateIPv4`, on `parts[0]`, `parts[1]` and `parts[2]`. -/
def privateOctets (a b c : Nat) : Bool :=
  a == 0 || a == 10 || a == 127 ||
  (a == 100 && b ≥ 64 && b ≤ 127) ||
  (a == 169 && b == 254) ||
  (a == 172 && b ≥ 16 && b ≤ 31) ||
  (a == 192 && b == 168) ||
  (a == 192 && b == 0 && c == 0) ||
  (a == 198 && (b == 18 || b == 19)) ||
  a ≥ 224

def isPrivateIPv4 (ip : List Char) : Bool :=
  match (ip.splitOn '.').map decimalNumber with
  | a :: b :: c :: _ => privateOctets a b c
  | _ => false

/-- `0{0,4}`, a field of both patterns. -/
def isZeros (field : List Char) : Bool := field.length ≤ 4 && field.all (· == '0')

/-- What follows `^(?:0{0,4}:){0,5}:?ffff:`, as the fields between colons. The `:?`
takes an empty field more. -/
def afterMappedHead (fields : List (List Char)) : Option (List (List Char)) :=
  let zeros := fields.takeWhile isZeros
  match fields.dropWhile isZeros with
  | head :: tail =>
    if head = ['f', 'f', 'f', 'f'] ∧
        (zeros.length ≤ 5 ∨ zeros.length = 6 ∧ zeros.getLast? = some []) then
      some tail
    else none
  | [] => none

/-- `\d+\.\d+\.\d+\.\d+` -/
def isFourDecimals (field : List Char) : Bool :=
  let parts := field.splitOn '.'
  parts.length == 4 && parts.all (fun part => !part.isEmpty && part.all Char.isDigit)

def isHexField (field : List Char) : Bool :=
  1 ≤ field.length && field.length ≤ 4 && field.all (fun c => (hexDigit c).isSome)

def mappedDotted (lower : List Char) : Option (List Char) :=
  match afterMappedHead (lower.splitOn ':') with
  | some [quad] => if isFourDecimals quad then some quad else none
  | _ => none

def mappedHex (lower : List Char) : Option (List Char × List Char) :=
  match afterMappedHead (lower.splitOn ':') with
  | some [hi, lo] => if isHexField hi ∧ isHexField lo then some (hi, lo) else none
  | _ => none

/-- `parseInt(field, 16)`; its `NaN` counts as 0 under the masks. -/
def parseHex (field : List Char) : Nat :=
  (hexValue 0 (field.takeWhile (fun c => (hexDigit c).isSome))).getD 0

def dottedText (a b c d : Nat) : List Char :=
  ['.'].intercalate [Nat.toDigits 10 a, Nat.toDigits 10 b, Nat.toDigits 10 c, Nat.toDigits 10 d]

def firstIsReserved (first : Nat) : Bool :=
  (first &&& 0xfe00) == 0xfc00 || (first &&& 0xffc0) == 0xfe80 || (first &&& 0xff00) == 0xff00

def isPrivateAddress (ip : String) : Bool :=
  if isIP ip = 4 then isPrivateIPv4 ip.toList
  else if isIP ip ≠ 6 then true
  else
    let lower := ip.toList.map Char.toLower
    match mappedDotted lower with
    | some quad => isPrivateIPv4 quad
    | none =>
      match mappedHex lower with
      | some (hiText, loText) =>
        let hi := parseHex hiText
        let lo := parseHex loText
        isPrivateIPv4 (dottedText (hi >>> 8) (hi &&& 0xff) (lo >>> 8) (lo &&& 0xff))
      | none =>
        if lower = [':', ':'] ∨ lower = [':', ':', '1'] then true
        else
          let first :=
            if [':', ':'].isPrefixOf lower then 0 else parseHex ((lower.splitOn ':').headD [])
          firstIsReserved first

/-! ### What the guard is for: addresses, not texts -/

/-- The blocks a webhook must not be sent to. -/
def reservedIPv4 : List (Ipv4 × Nat) :=
  [(⟨0, 0, 0, 0⟩, 8), (⟨10, 0, 0, 0⟩, 8), (⟨127, 0, 0, 0⟩, 8), (⟨100, 64, 0, 0⟩, 10),
    (⟨169, 254, 0, 0⟩, 16), (⟨172, 16, 0, 0⟩, 12), (⟨192, 168, 0, 0⟩, 16), (⟨192, 0, 0, 0⟩, 24),
    (⟨198, 18, 0, 0⟩, 15), (⟨224, 0, 0, 0⟩, 3)]

def isReservedIPv4 (v : Ipv4) : Bool :=
  reservedIPv4.any (fun block => v.inBlock block.1 block.2)

/-- Addresses the first group does not tell apart from public ones: unspecified,
loopback, and a reserved IPv4 address in mapped form. -/
def isReservedBelowZeros (v : Ipv6) : Bool :=
  v.groups == [0, 0, 0, 0, 0, 0, 0, 0] || v.groups == [0, 0, 0, 0, 0, 0, 0, 1] ||
    v.mapped.any isReservedIPv4

/-- Unique local, link local, multicast. -/
def reservedFirst : List (Fin 65536 × Nat) := [(0xfc00, 7), (0xfe80, 10), (0xff00, 8)]

def isReserved : Ip → Bool
  | .v4 v => isReservedIPv4 v
  | .v6 v =>
    isReservedBelowZeros v || reservedFirst.any (fun block => v.inBlock block.1 block.2)

/-- The spellings the guard compares literally or matches with a pattern. -/
def isRecognised (ip : String) : Bool :=
  let lower := ip.toList.map Char.toLower
  lower == [':', ':'] || lower == [':', ':', '1'] ||
    (mappedDotted lower).isSome || (mappedHex lower).isSome

/-! ### IPv4 -/

theorem decimalNumber_of_octet {field : List Char} {n : Fin 256} (h : octet field = some n) :
    decimalNumber field = n := by
  unfold octet at h
  split at h
  · split at h
    · simp only [Option.some.injEq] at h
      simp [← h, decimalNumber]
    · cases h
  · cases h

theorem fields_of_dotted {text : List Char} {v : Ipv4} (h : dotted text = some v) :
    (text.splitOn '.').map decimalNumber = [(v.a : Nat), v.b, v.c, v.d] := by
  unfold dotted at h
  split at h
  · rename_i a b c d hsplit
    cases ha : octet a with
    | none => simp [ha] at h
    | some a' =>
      cases hb : octet b with
      | none => simp [ha, hb] at h
      | some b' =>
        cases hc : octet c with
        | none => simp [ha, hb, hc] at h
        | some c' =>
          cases hd : octet d with
          | none => simp [ha, hb, hc, hd] at h
          | some d' =>
            simp [ha, hb, hc, hd] at h
            simp [hsplit, ← h, decimalNumber_of_octet ha, decimalNumber_of_octet hb,
              decimalNumber_of_octet hc, decimalNumber_of_octet hd]
  · cases h

theorem isReservedIPv4_eq (v : Ipv4) : isReservedIPv4 v = privateOctets v.a v.b v.c := by
  have hb := v.b.isLt
  simp only [isReservedIPv4, reservedIPv4, List.any_cons, List.any_nil,
    Ipv4.inBlock_of_le_eight _ _ (by decide : 8 ≤ 8),
    Ipv4.inBlock_of_le_eight _ _ (by decide : 3 ≤ 8),
    Ipv4.inBlock_of_le_sixteen _ _ (by decide : 10 ≤ 16),
    Ipv4.inBlock_of_le_sixteen _ _ (by decide : 12 ≤ 16),
    Ipv4.inBlock_of_le_sixteen _ _ (by decide : 15 ≤ 16),
    Ipv4.inBlock_of_le_sixteen _ _ (by decide : 16 ≤ 16), Ipv4.inBlock_twentyfour]
  have h100 : ((v.a : Nat) * 256 + v.b) / 64 = 401 ↔
      ((v.a : Nat) = 100 ∧ 64 ≤ (v.b : Nat)) ∧ (v.b : Nat) ≤ 127 := by omega
  have h169 : (v.a : Nat) * 256 + v.b = 43518 ↔ (v.a : Nat) = 169 ∧ (v.b : Nat) = 254 := by omega
  have h172 : ((v.a : Nat) * 256 + v.b) / 16 = 2753 ↔
      ((v.a : Nat) = 172 ∧ 16 ≤ (v.b : Nat)) ∧ (v.b : Nat) ≤ 31 := by omega
  have h192 : (v.a : Nat) * 256 + v.b = 49320 ↔ (v.a : Nat) = 192 ∧ (v.b : Nat) = 168 := by omega
  have h198 : ((v.a : Nat) * 256 + v.b) / 2 = 25353 ↔
      (v.a : Nat) = 198 ∧ ((v.b : Nat) = 18 ∨ (v.b : Nat) = 19) := by omega
  have h224 : (v.a : Nat) / 32 = 7 ↔ 224 ≤ (v.a : Nat) := by omega
  rw [Bool.eq_iff_iff]
  simp [privateOctets, h100, h169, h172, h192, h198, h224, or_assoc]

theorem isPrivateIPv4_of_dotted {text : List Char} {v : Ipv4} (h : dotted text = some v) :
    isPrivateIPv4 text = isReservedIPv4 v := by
  simp [isPrivateIPv4, fields_of_dotted h, isReservedIPv4_eq]

/-- What the pattern with two groups hands to `isPrivateIPv4`. -/
theorem isPrivateIPv4_dottedText (a b c d : Nat) :
    isPrivateIPv4 (dottedText a b c d) = privateOctets a b c := by
  have hdot (n : Nat) : '.' ∉ Nat.toDigits 10 n := by
    intro h
    have hdigit := Nat.isDigit_of_mem_toDigits (by decide) (by decide) h
    exact absurd hdigit (by decide)
  have hsplit : (dottedText a b c d).splitOn '.' =
      [Nat.toDigits 10 a, Nat.toDigits 10 b, Nat.toDigits 10 c, Nat.toDigits 10 d] := by
    unfold dottedText
    apply List.splitOn_intercalate
    · simp [hdot]
    · simp
  simp [isPrivateIPv4, hsplit, decimalNumber, Nat.ofDigitChars_ten_toDigits]

/-! ### The masks on the first group -/

theorem and_shiftLeft (n m k : Nat) : n &&& (m <<< k) = ((n >>> k) &&& m) <<< k := by
  apply Nat.eq_of_testBit_eq
  intro i
  simp only [Nat.testBit_and, Nat.testBit_shiftLeft, Nat.testBit_shiftRight]
  by_cases hk : k ≤ i
  · simp [hk]
  · simp [hk]

theorem mask_beq {n : Nat} (hn : n < 65536) (base bits : Nat) (hb : bits ≤ 16) :
    (n &&& ((2 ^ bits - 1) <<< (16 - bits)) == base <<< (16 - bits)) =
      (n / 2 ^ (16 - bits) == base) := by
  have hlt : n / 2 ^ (16 - bits) < 2 ^ bits := by
    rw [Nat.div_lt_iff_lt_mul (by positivity), ← Nat.pow_add, Nat.add_sub_cancel' hb]
    exact hn
  rw [and_shiftLeft, Nat.and_two_pow_sub_one_eq_mod, Nat.shiftRight_eq_div_pow,
    Nat.mod_eq_of_lt hlt, Bool.eq_iff_iff]
  simp only [beq_iff_eq, Nat.shiftLeft_eq]
  exact Nat.mul_left_inj (by positivity)

theorem firstIsReserved_eq (v : Ipv6) :
    firstIsReserved v.first = reservedFirst.any (fun block => v.inBlock block.1 block.2) := by
  have hn := v.first.isLt
  have h7 := mask_beq hn 126 7 (by decide)
  have h10 := mask_beq hn 1018 10 (by decide)
  have h8 := mask_beq hn 255 8 (by decide)
  simp only [Nat.reducePow, Nat.reduceSub, Nat.reduceShiftLeft] at h7 h10 h8
  simp [firstIsReserved, reservedFirst, Ipv6.inBlock, h7, h10, h8, Bool.or_assoc]

/-! ### The mapped patterns -/

theorem afterMappedHead_eq_some {fields tail : List (List Char)}
    (h : afterMappedHead fields = some tail) :
    ∃ zeros, fields = zeros ++ ['f', 'f', 'f', 'f'] :: tail ∧
      ∀ f ∈ zeros, ∀ c ∈ f, c = '0' := by
  have happ := List.takeWhile_append_dropWhile (p := isZeros) (l := fields)
  unfold afterMappedHead at h
  dsimp only at h
  split at h
  · rename_i head rest hd
    split at h
    · rename_i hhead
      refine ⟨fields.takeWhile isZeros, ?_, ?_⟩
      · rw [hd, hhead.1, Option.some.inj h] at happ
        exact happ.symm
      · intro f hf c hc
        have hzero := List.mem_takeWhile_imp hf
        simp only [isZeros, Bool.and_eq_true, List.all_eq_true, beq_iff_eq] at hzero
        exact hzero.2 c hc
    · cases h
  · cases h

theorem ipv6_eq_some {text : List Char} {v : Ipv6} (h : ipv6 text = some v) :
    ∃ body, withoutZone text = some body ∧ allGroups (body.splitOn ':') = some v.groups := by
  simp only [ipv6, Option.bind_eq_some_iff] at h
  obtain ⟨body, hbody, gs, hgs, h⟩ := h
  split at h
  · cases h
    exact ⟨body, hbody, hgs⟩
  · cases h

theorem allGroups_of_fields {text : List Char} {v : Ipv6} (h : ipv6 text = some v)
    (hz : ∀ f ∈ text.splitOn ':', '%' ∉ f) :
    allGroups (text.splitOn ':') = some v.groups := by
  obtain ⟨body, hbody, hgs⟩ := ipv6_eq_some h
  cases withoutZone_eq_some hbody with
  | inl htext => rw [htext, hgs]
  | inr htext =>
    obtain ⟨zone, htext⟩ := htext
    have hmem : '%' ∈ text := by simp [htext]
    obtain ⟨f, hf, hmem⟩ := exists_field_of_mem ':' hmem (by decide)
    exact absurd hmem (hz f hf)

/-- An accepted text one of the patterns starts to match: the tail closes the address,
after five groups of zero and `ffff`. -/
theorem groups_of_afterMappedHead {lower : List Char} {v : Ipv6} {tail : List (List Char)}
    (hv : ipv6 lower = some v) (h : afterMappedHead (lower.splitOn ':') = some tail)
    (ht : tail ≠ []) (hne : [] ∉ tail) (hz : ∀ f ∈ tail, '%' ∉ f) :
    ∃ k ts, groups tail = some ts ∧ v.groups = List.replicate k 0 ++ 65535 :: ts := by
  obtain ⟨zeros, hfields, hzeros⟩ := afterMappedHead_eq_some h
  have hzone : ∀ f ∈ lower.splitOn ':', '%' ∉ f := by
    intro f hf hmem
    rw [hfields, List.mem_append, List.mem_cons] at hf
    rcases hf with hf | hf | hf
    · exact absurd (hzeros f hf _ hmem) (by decide)
    · rw [hf] at hmem
      exact absurd hmem (by decide)
    · exact hz f hf hmem
  have hgs := allGroups_of_fields hv hzone
  rw [hfields] at hgs
  obtain ⟨k, ts, hts, hgroups⟩ :=
    allGroups_zeros_append hzeros (by simp) (by simpa using hne) hgs
  rw [groups_cons ht] at hts
  simp only [Option.bind_eq_some_iff, Option.map_eq_some_iff] at hts
  obtain ⟨g, hg, ts, hts, rfl⟩ := hts
  have hffff : group ['f', 'f', 'f', 'f'] = some 65535 := by decide
  rw [hffff, Option.some.injEq] at hg
  exact ⟨k, ts, hts, by rw [hgroups, hg]⟩

theorem mapped_of_groups {v : Ipv6} {k : Nat} {hi lo : Fin 65536}
    (h : v.groups = List.replicate k 0 ++ 65535 :: [hi, lo]) :
    v.mapped = some (Ipv4.ofGroups hi lo) := by
  have hlen := v.length_groups
  rw [h] at hlen
  have hk : k = 5 := by simpa using hlen
  rw [hk] at h
  unfold Ipv6.mapped
  rw [h]
  rfl

theorem ofGroups_toGroups (w : Ipv4) :
    ∃ hi lo, w.toGroups = [hi, lo] ∧ Ipv4.ofGroups hi lo = w := by
  refine ⟨_, _, rfl, ?_⟩
  obtain ⟨a, b, c, d⟩ := w
  simp only [Ipv4.ofGroups, Ipv4.mk.injEq]
  refine ⟨Fin.ext ?_, Fin.ext ?_, Fin.ext ?_, Fin.ext ?_⟩
  all_goals
    simp only
    omega

theorem hexDigit_dot : hexDigit '.' = none := by decide

theorem mappedDotted_spec {lower quad : List Char} {v : Ipv6} (hv : ipv6 lower = some v)
    (h : mappedDotted lower = some quad) :
    ∃ w, v.mapped = some w ∧ isPrivateIPv4 quad = isReservedIPv4 w := by
  unfold mappedDotted at h
  split at h
  · rename_i quad' hhead
    split at h
    · rename_i hfour
      cases h
      have hparts := hfour
      simp only [isFourDecimals, Bool.and_eq_true, beq_iff_eq, List.all_eq_true] at hparts
      have hdot : '.' ∈ quad := by
        by_contra hdot
        have hone := hparts.1
        rw [List.splitOn_eq_singleton hdot] at hone
        simp at hone
      have hzone : '%' ∉ quad := by
        intro hmem
        obtain ⟨f, hf, hmem⟩ := exists_field_of_mem '.' hmem (by decide)
        exact absurd ((hparts.2 f hf).2 _ hmem) (by decide)
      obtain ⟨k, ts, hts, hgroups⟩ := groups_of_afterMappedHead hv hhead (by simp)
        (by simpa using List.ne_nil_of_mem hdot) (by simpa using hzone)
      unfold groups at hts
      split at hts
      · rename_i w hw
        obtain ⟨hi, lo, htwo, hback⟩ := ofGroups_toGroups w
        rw [← Option.some.inj hts, htwo] at hgroups
        exact ⟨w, by rw [mapped_of_groups hgroups, hback], isPrivateIPv4_of_dotted hw⟩
      · obtain ⟨g, hg, -⟩ := Option.map_eq_some_iff.mp hts
        have hsome := hexDigit_of_hexValue (hexValue_of_group hg) _ hdot
        simp [hexDigit_dot] at hsome
    · cases h
  · cases h

theorem parseHex_of_group {field : List Char} {g : Fin 65536} (h : group field = some g) :
    parseHex field = g := by
  have hval := hexValue_of_group h
  have hall := hexDigit_of_hexValue hval
  have htake : field.takeWhile (fun c => (hexDigit c).isSome) = field :=
    List.takeWhile_eq_self_iff.mpr hall
  simp [parseHex, htake, hval]

theorem dotted_of_isHexField {field : List Char} (h : isHexField field = true) :
    dotted field = none := by
  simp only [isHexField, Bool.and_eq_true, List.all_eq_true] at h
  have hdot : '.' ∉ field := by
    intro hmem
    have hsome := h.2 _ hmem
    simp [hexDigit_dot] at hsome
  simp [dotted, List.splitOn_eq_singleton hdot]

theorem mappedHex_spec {lower hiText loText : List Char} {v : Ipv6} (hv : ipv6 lower = some v)
    (h : mappedHex lower = some (hiText, loText)) :
    ∃ hi lo : Fin 65536, v.mapped = some (Ipv4.ofGroups hi lo) ∧ parseHex hiText = hi ∧
      parseHex loText = lo := by
  unfold mappedHex at h
  split at h
  · rename_i hi' lo' hhead
    split at h
    · rename_i hhex
      simp only [Option.some.injEq, Prod.mk.injEq] at h
      rw [h.1, h.2] at hhex hhead
      have hfield {field : List Char} (hf : isHexField field = true) :
          field ≠ [] ∧ '%' ∉ field := by
        simp only [isHexField, Bool.and_eq_true, List.all_eq_true, decide_eq_true_eq] at hf
        refine ⟨List.ne_nil_of_length_pos hf.1.1, ?_⟩
        intro hmem
        exact absurd (hf.2 _ hmem) (by decide)
      have hhi := hfield hhex.1
      have hlo := hfield hhex.2
      obtain ⟨k, ts, hts, hgroups⟩ := groups_of_afterMappedHead hv hhead (by simp)
        (by simp [Ne.symm hhi.1, Ne.symm hlo.1]) (by simp [hhi.2, hlo.2])
      rw [groups_cons (by simp)] at hts
      simp only [groups, dotted_of_isHexField hhex.2, Option.bind_eq_some_iff,
        Option.map_eq_some_iff] at hts
      obtain ⟨hi, hhi, -, ⟨lo, hlo, rfl⟩, rfl⟩ := hts
      exact ⟨hi, lo, mapped_of_groups hgroups, parseHex_of_group hhi, parseHex_of_group hlo⟩
    · cases h
  · cases h

/-! ### Which spellings are answered for -/

theorem first_of_groups {v : Ipv6} {g : Fin 65536} {gs : List (Fin 65536)}
    (h : v.groups = g :: gs) : v.first = g := by
  simp [Ipv6.first, h]

theorem first_of_belowZeros {v : Ipv6} (h : isReservedBelowZeros v = true) : v.first = 0 := by
  simp only [isReservedBelowZeros, Bool.or_eq_true, beq_iff_eq, Option.any_eq_true] at h
  rcases h with (h | h) | ⟨w, hw, -⟩
  · exact first_of_groups h
  · exact first_of_groups h
  · unfold Ipv6.mapped at hw
    split at hw
    · rename_i hi lo hgroups
      exact first_of_groups hgroups
    · cases hw

theorem isReserved_of_belowZeros {v : Ipv6} (h : isReservedBelowZeros v = true) :
    isReserved (.v6 v) = true := by simp [isReserved, h]

/-- An address the zeros do not hide is told by its first group. -/
theorem isReserved_v6 (v : Ipv6) :
    isReserved (.v6 v) = (isReservedBelowZeros v || firstIsReserved v.first) := by
  rw [isReserved, firstIsReserved_eq]

theorem firstIsReserved_of_belowZeros {v : Ipv6} (h : isReservedBelowZeros v = true) :
    firstIsReserved v.first = false := by
  rw [first_of_belowZeros h]
  decide

theorem isReserved_of_mapped {v : Ipv6} {w : Ipv4} (h : v.mapped = some w) :
    isReserved (.v6 v) = isReservedIPv4 w := by
  have hgroups : ∃ hi lo, v.groups = [0, 0, 0, 0, 0, 65535, hi, lo] := by
    unfold Ipv6.mapped at h
    split at h
    · rename_i hi lo hgroups
      exact ⟨hi, lo, hgroups⟩
    · cases h
  obtain ⟨hi, lo, hgroups⟩ := hgroups
  have hfirst : firstIsReserved v.first = false := by
    rw [first_of_groups hgroups]
    decide
  rw [isReserved_v6, hfirst]
  simp [isReservedBelowZeros, h, hgroups]

theorem first_eq {lower : List Char} {v : Ipv6} (h : ipv6 lower = some v) :
    (if [':', ':'].isPrefixOf lower then 0 else parseHex ((lower.splitOn ':').headD [])) =
      (v.first : Nat) := by
  obtain ⟨body, hbody, hgs⟩ := ipv6_eq_some h
  have happ : ∃ zone, lower = body ++ zone := by
    cases withoutZone_eq_some hbody with
    | inl htext => exact ⟨[], by simp [htext]⟩
    | inr htext => exact htext.imp' (fun zone => '%' :: zone) (fun zone he => he)
  obtain ⟨zone, rfl⟩ := happ
  cases first_of_allGroups hgs v.length_groups with
  | inl hfirst =>
    obtain ⟨f, second, rest, g, hfields, hg, hhead⟩ := hfirst
    obtain ⟨ys, rfl, -, hmem⟩ := splitOn_eq_cons_cons hfields
    obtain ⟨c, cs, rfl⟩ := List.exists_cons_of_ne_nil (ne_nil_of_group hg)
    have hc : ':' ≠ c := by
      intro he
      exact hmem (he ▸ List.mem_cons_self)
    obtain ⟨gs, hgroups⟩ := List.head?_eq_some_iff.mp hhead
    rw [first_of_groups hgroups, List.append_assoc, List.cons_append (a := ':'),
      List.splitOn_append_cons_self_of_not_mem hmem]
    simp [List.isPrefixOf, hc, parseHex_of_group hg]
  | inr hfirst =>
    obtain ⟨second, rest, hfields, hhead⟩ := hfirst
    obtain ⟨ys, rfl, hys, -⟩ := splitOn_eq_cons_cons hfields
    obtain ⟨zs, rfl, -, -⟩ := splitOn_eq_cons_cons hys
    obtain ⟨gs, hgroups⟩ := List.head?_eq_some_iff.mp hhead
    rw [first_of_groups hgroups]
    simp [List.isPrefixOf]

/-- A loopback, unspecified or mapped address is seen only where the text is `::`,
`::1` or one of the patterns. -/
def isHiddenByZeros : Ip → Bool
  | .v4 _ => false
  | .v6 v => isReservedBelowZeros v

theorem isHidden_of_literal {lower : List Char} {v : Ipv6} (hv : ipv6 lower = some v)
    (h : lower = [':', ':'] ∨ lower = [':', ':', '1']) : isReservedBelowZeros v = true := by
  have hzero : (ipv6 [':', ':']).all isReservedBelowZeros = true := by decide +kernel
  have hone : (ipv6 [':', ':', '1']).all isReservedBelowZeros = true := by decide +kernel
  rcases h with rfl | rfl
  · simpa [hv] using hzero
  · simpa [hv] using hone

theorem isPrivateAddress_v6 {ip : String} {v : Ipv6} (h : parse ip.toList = some (.v6 v)) :
    isPrivateAddress ip = isReserved (.v6 v) ↔
      (isReservedBelowZeros v = true → isRecognised ip = true) := by
  have hversion : isIP ip = 6 := by simp [isIP, h]
  have hv : ipv6 (ip.toList.map Char.toLower) = some v := by
    unfold parse at h
    split at h
    · simp at h
    · simpa using h
  simp only [isPrivateAddress, hversion, isRecognised]
  generalize ip.toList.map Char.toLower = lower at hv
  cases hd : mappedDotted lower with
  | some quad =>
    obtain ⟨w, hw, hquad⟩ := mappedDotted_spec hv hd
    simp [hquad, isReserved_of_mapped hw]
  | none =>
    cases hx : mappedHex lower with
    | some pair =>
      obtain ⟨hiText, loText⟩ := pair
      obtain ⟨hi, lo, hw, hhi, hlo⟩ := mappedHex_spec hv hx
      have hands : ∀ n : Nat, n &&& 0xff = n % 256 := fun n => Nat.and_two_pow_sub_one_eq_mod n 8
      simp [hhi, hlo, isReserved_of_mapped hw, isPrivateIPv4_dottedText, isReservedIPv4_eq,
        Ipv4.ofGroups, hands, Nat.shiftRight_eq_div_pow]
    | none =>
      by_cases hlit : lower = [':', ':'] ∨ lower = [':', ':', '1']
      · have hhidden := isHidden_of_literal hv hlit
        simp [hlit, hhidden, isReserved_of_belowZeros hhidden]
      · simp only [hlit, first_eq hv, isReserved_v6]
        cases hhidden : isReservedBelowZeros v with
        | false => simp
        | true =>
          rw [not_or] at hlit
          simp [firstIsReserved_of_belowZeros hhidden, hlit.1, hlit.2]

/-- `isPrivateAddress` answers what the address is, but for the spellings of a hidden
address it neither compares with nor matches. -/
theorem isPrivateAddress_iff {ip : String} {a : Ip} (h : parse ip.toList = some a) :
    isPrivateAddress ip = isReserved a ↔ (isHiddenByZeros a = true → isRecognised ip = true) := by
  cases a with
  | v4 v =>
    have hv : dotted ip.toList = some v := by
      unfold parse at h
      split at h
      · simp_all
      · simp at h
    have hversion : isIP ip = 4 := by simp [isIP, h]
    simp [isPrivateAddress, hversion, isPrivateIPv4_of_dotted hv, isReserved, isHiddenByZeros]
  | v6 v => exact isPrivateAddress_v6 h

theorem isPrivateAddress_iff_mapped :
    isPrivateAddress "::FFFF:10.0.0.1" = isReserved (.v6 ⟨[0, 0, 0, 0, 0, 65535, 2560, 1], rfl⟩) ↔
      (isHiddenByZeros (.v6 ⟨[0, 0, 0, 0, 0, 65535, 2560, 1], rfl⟩) = true →
        isRecognised "::FFFF:10.0.0.1" = true) :=
  isPrivateAddress_iff (by decide +kernel)

/-- One loopback address, two texts, two answers. -/
theorem loopback_by_spelling :
    parse "::1".toList = parse "0:0:0:0:0:0:0:1".toList ∧ isIP "0:0:0:0:0:0:0:1" = 6 ∧
      isPrivateAddress "::1" = true ∧ isPrivateAddress "0:0:0:0:0:0:0:1" = false := by
  decide +kernel

example : isPrivateAddress "::ffff:127.0.0.1" = true ∧
    isPrivateAddress "::ffff:127.0.0.1%eth0" = false := by decide +kernel

end SorobanLens
