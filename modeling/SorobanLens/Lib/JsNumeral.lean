import SorobanLens.Lib.JsNumber
import SorobanLens.Lib.Json
import Mathlib.Data.List.TakeWhile

/-!
Numbers as text: `Number(text)`, and `String(n)` of an integer.
-/

set_option autoImplicit false

namespace JsNumber

def isWhite (c : Char) : Bool :=
  c.toNat ∈ [9, 10, 11, 12, 13, 32, 0xA0, 0xFEFF, 0x1680, 0x2028, 0x2029, 0x202F, 0x205F, 0x3000] ||
    (0x2000 ≤ c.toNat && c.toNat ≤ 0x200A)

def trimChars (cs : List Char) : List Char :=
  ((cs.dropWhile isWhite).reverse.dropWhile isWhite).reverse

def trim (text : String) : String := String.ofList (trimChars text.toList)

def readDigits (ds : List Char) : Option Nat :=
  if ds ≠ [] ∧ ds.all Char.isDigit then some (Nat.ofDigitChars 10 ds 0) else none

def readExponent : List Char → Option Int
  | [] => some 0
  | c :: cs =>
    if c = 'e' ∨ c = 'E' then
      match cs with
      | '+' :: ds => (readDigits ds).map Int.ofNat
      | '-' :: ds => (readDigits ds).map (fun n => -(n : Int))
      | ds => (readDigits ds).map Int.ofNat
    else none

def scaleTen (q : ℚ) : Int → ℚ
  | .ofNat n => q * 10 ^ n
  | .negSucc n => q / 10 ^ (n + 1)

def readFraction : List Char → List Char × List Char
  | '.' :: cs => (cs.takeWhile Char.isDigit, cs.dropWhile Char.isDigit)
  | cs => ([], cs)

def readDecimal (cs : List Char) : Option ℚ :=
  let whole := cs.takeWhile Char.isDigit
  let fraction := readFraction (cs.dropWhile Char.isDigit)
  if whole = [] ∧ fraction.1 = [] then none
  else
    (readExponent fraction.2).map (fun e =>
      scaleTen (Nat.ofDigitChars 10 (whole ++ fraction.1) 0 / 10 ^ fraction.1.length) e)

def readUnsigned (cs : List Char) : JsNumber :=
  if cs = "Infinity".toList then .posInf
  else
    match readDecimal cs with
    | some q => .fin q
    | none => .nan

def readSigned : List Char → JsNumber
  | '+' :: cs => readUnsigned cs
  | '-' :: cs => neg (readUnsigned cs)
  | cs => readUnsigned cs

/-- The base of a numeral that names one: `0x`, `0o`, `0b`. -/
def radixPrefix : List Char → Option Nat
  | '0' :: c :: _ =>
    if c = 'x' ∨ c = 'X' then some 16
    else if c = 'o' ∨ c = 'O' then some 8
    else if c = 'b' ∨ c = 'B' then some 2
    else none
  | _ => none

def digitValue (c : Char) : Nat :=
  if c.isDigit then c.toNat - 48
  else if 'a' ≤ c ∧ c ≤ 'z' then c.toNat - 87
  else if 'A' ≤ c ∧ c ≤ 'Z' then c.toNat - 55
  else 36

def readRadix (radix : Nat) (ds : List Char) : JsNumber :=
  if ds ≠ [] ∧ ds.all (fun c => decide (digitValue c < radix)) then
    .ofNat (ds.foldl (fun n c => n * radix + digitValue c) 0)
  else .nan

/-- `Number(text)`. -/
def ofText (text : String) : JsNumber :=
  let cs := trimChars text.toList
  if cs = [] then .fin 0
  else
    match radixPrefix cs with
    | some radix => readRadix radix (cs.drop 2)
    | none => readSigned cs

def significantDigits (ds : List Char) : List Char :=
  (ds.reverse.dropWhile (fun c => c = '0')).reverse

def scientific (d : Char) (more : List Char) (k : Nat) : List Char :=
  d :: ((if more = [] then [] else '.' :: more) ++ 'e' :: '+' :: Nat.toDigits 10 k)

/-- `String(n)` of a natural number: exponents from `1e21` on. -/
def natChars (n : Nat) : List Char :=
  let ds := Nat.toDigits 10 n
  if n < 10 ^ 21 then ds
  else
    match significantDigits ds with
    | [] => ds
    | d :: more => scientific d more (ds.length - 1)

def intText (n : Int) : String :=
  String.ofList (if n < 0 then '-' :: natChars n.natAbs else natChars n.natAbs)

def integerText : JsNumber → String
  | .fin q => intText q.num
  | .nan => "NaN"
  | .posInf => "Infinity"
  | .negInf => "-Infinity"

/-! ### Reading back -/

def isPlain (c : Char) : Bool := c.isDigit || c = '.' || c = 'e' || c = '+'

theorem isWhite_of_isPlain {c : Char} (h : isPlain c = true) : isWhite c = false := by
  have hcode : (48 ≤ c.toNat ∧ c.toNat ≤ 57) ∨ c.toNat = 46 ∨ c.toNat = 101 ∨ c.toNat = 43 := by
    simp only [isPlain, Bool.or_eq_true, decide_eq_true_eq] at h
    rcases h with ((hd | rfl) | rfl) | rfl
    · simp only [Char.isDigit, Bool.and_eq_true, decide_eq_true_eq, ge_iff_le,
        UInt32.le_iff_toNat_le] at hd
      exact .inl hd
    · exact .inr (.inl rfl)
    · exact .inr (.inr (.inl rfl))
    · exact .inr (.inr (.inr rfl))
  have hmem : c.toNat ∉ [9, 10, 11, 12, 13, 32, 0xA0, 0xFEFF, 0x1680, 0x2028, 0x2029, 0x202F,
      0x205F, 0x3000] := by
    simp only [List.mem_cons, List.not_mem_nil, or_false, not_or]
    omega
  simp only [isWhite, hmem, decide_false, Bool.false_or, Bool.and_eq_false_iff, decide_eq_false_iff_not]
  omega

theorem trimChars_eq {cs : List Char} (h : ∀ c ∈ cs, isWhite c = false) : trimChars cs = cs := by
  have hfront : cs.dropWhile isWhite = cs := by
    cases cs with
    | nil => rfl
    | cons c cs => simp [h c List.mem_cons_self]
  have hback : cs.reverse.dropWhile isWhite = cs.reverse := by
    cases hr : cs.reverse with
    | nil => rfl
    | cons c ds =>
      have hc : c ∈ cs := by
        rw [← List.mem_reverse, hr]
        exact List.mem_cons_self
      simp [h c hc]
  rw [trimChars, hfront, hback, List.reverse_reverse]

theorem radixPrefix_plain {cs : List Char} (h : ∀ c ∈ cs, isPlain c = true) :
    radixPrefix cs = none := by
  unfold radixPrefix
  split
  · rename_i c cs
    have hc : isPlain c = true := h c (by simp)
    have hne : ∀ d : Char, isPlain d = false → c ≠ d := by
      intro d hd heq
      rw [heq, hd] at hc
      cases hc
    simp [hne 'x' (by decide), hne 'X' (by decide), hne 'o' (by decide), hne 'O' (by decide),
      hne 'b' (by decide), hne 'B' (by decide)]
  · rfl

theorem significantDigits_append (ds : List Char) :
    ∃ zeros, ds = significantDigits ds ++ List.replicate zeros '0' := by
  refine ⟨(ds.reverse.takeWhile (fun c => c = '0')).length, ?_⟩
  have hzero : ds.reverse.takeWhile (fun c => decide (c = '0')) =
      List.replicate (ds.reverse.takeWhile (fun c => decide (c = '0'))).length '0' := by
    refine List.eq_replicate_of_mem ?_
    intro c hc
    simpa using List.mem_takeWhile_imp hc
  have hsplit := List.takeWhile_append_dropWhile (p := fun c => decide (c = '0')) (l := ds.reverse)
  have hback := congrArg List.reverse hsplit
  rw [List.reverse_append, List.reverse_reverse, hzero, List.reverse_replicate] at hback
  exact hback.symm

theorem digits_isDigit {n : Nat} : ∀ c ∈ Nat.toDigits 10 n, c.isDigit = true :=
  fun _ hc => Json.isDigit_toDigits hc

theorem readDecimal_scientific {d : Char} {more : List Char} (hd : d.isDigit = true)
    (hm : ∀ c ∈ more, c.isDigit = true) (k : Nat) :
    readDecimal (scientific d more k) =
      some (((Nat.ofDigitChars 10 (d :: more) 0 : Nat) : ℚ) / 10 ^ more.length * 10 ^ k) := by
  have hexp : readExponent ('e' :: '+' :: Nat.toDigits 10 k) = some (Int.ofNat k) := by
    have hall : (Nat.toDigits 10 k).all Char.isDigit = true :=
      List.all_eq_true.mpr digits_isDigit
    simp [readExponent, readDigits, Nat.toDigits_ne_nil, hall, Nat.ofDigitChars_ten_toDigits]
  have hfraction : readFraction ((if more = [] then [] else '.' :: more) ++
      'e' :: '+' :: Nat.toDigits 10 k) = (more, 'e' :: '+' :: Nat.toDigits 10 k) := by
    by_cases hnil : more = []
    · simp [hnil, readFraction]
    · simp [hnil, readFraction, List.takeWhile_append_of_pos hm, List.dropWhile_append_of_pos hm]
  have hstop : ∀ tail, ((if more = [] then [] else '.' :: more) ++ 'e' :: tail).takeWhile
      Char.isDigit = [] := by
    intro tail
    by_cases hnil : more = [] <;> simp [hnil]
  have hkeep : ∀ tail, ((if more = [] then [] else '.' :: more) ++ 'e' :: tail).dropWhile
      Char.isDigit = (if more = [] then [] else '.' :: more) ++ 'e' :: tail := by
    intro tail
    by_cases hnil : more = [] <;> simp [hnil]
  simp only [readDecimal, scientific, List.takeWhile_cons, List.dropWhile_cons, hd, if_true, hstop, hkeep,
    hfraction, reduceCtorEq, false_and, if_false, hexp, Option.map_some, scaleTen,
    List.singleton_append]

theorem natChars_spec (n : Nat) : readUnsigned (natChars n) = ofNat n ∧
    (∀ c ∈ natChars n, isPlain c = true) ∧ ∃ d cs, natChars n = d :: cs ∧ d.isDigit = true := by
  have hval : Nat.ofDigitChars 10 (Nat.toDigits 10 n) 0 = n := Nat.ofDigitChars_ten_toDigits
  have hplain : ∀ c ∈ Nat.toDigits 10 n, isPlain c = true := by
    intro c hc
    simp [isPlain, digits_isDigit c hc]
  by_cases hsmall : n < 10 ^ 21
  · rw [natChars, if_pos hsmall]
    obtain ⟨d, cs, hds⟩ := List.exists_cons_of_ne_nil (Nat.toDigits_ne_nil (b := 10) (n := n))
    have hd : d.isDigit = true := digits_isDigit d (by rw [hds]; exact List.mem_cons_self)
    have htake : (Nat.toDigits 10 n).takeWhile Char.isDigit = Nat.toDigits 10 n :=
      List.takeWhile_eq_self_iff.mpr digits_isDigit
    have hdrop : (Nat.toDigits 10 n).dropWhile Char.isDigit = [] :=
      List.dropWhile_eq_nil_iff.mpr digits_isDigit
    have hinf : Nat.toDigits 10 n ≠ "Infinity".toList := by
      intro heq
      rw [hds] at heq
      have hI : d = 'I' := (List.cons.inj (heq.trans (by rfl : _ = 'I' :: "nfinity".toList))).1
      rw [hI] at hd
      exact absurd hd (by decide)
    have hdec : readDecimal (Nat.toDigits 10 n) = some (n : ℚ) := by
      simp only [readDecimal, htake, hdrop, readFraction, readExponent, List.append_nil, hval,
        Nat.toDigits_ne_nil, false_and, if_false, Option.map_some, List.length_nil, pow_zero, div_one]
      simp [scaleTen]
    refine ⟨?_, hplain, d, cs, hds, hd⟩
    rw [readUnsigned, if_neg hinf, hdec]
    rfl
  · rw [natChars, if_neg hsmall]
    obtain ⟨zeros, hz⟩ := significantDigits_append (Nat.toDigits 10 n)
    cases hsig : significantDigits (Nat.toDigits 10 n) with
    | nil =>
      exfalso
      rw [hsig, List.nil_append] at hz
      rw [hz, Nat.ofDigitChars_replicate_zero, Nat.mul_zero] at hval
      omega
    | cons d more =>
      rw [hsig] at hz
      have hdigit : ∀ c ∈ d :: more, c.isDigit = true := by
        intro c hc
        refine digits_isDigit c (n := n) ?_
        rw [hz]
        exact List.mem_append_left _ hc
      have hd : d.isDigit = true := hdigit d List.mem_cons_self
      have hm : ∀ c ∈ more, c.isDigit = true := fun c hc => hdigit c (List.mem_cons_of_mem d hc)
      have hlen : (Nat.toDigits 10 n).length - 1 = more.length + zeros := by
        rw [hz]
        simp
      have hn : n = Nat.ofDigitChars 10 (d :: more) 0 * 10 ^ zeros := by
        rw [hz, Nat.ofDigitChars_append, Nat.ofDigitChars_replicate_zero] at hval
        rw [Nat.mul_comm]
        exact hval.symm
      have hq : (n : ℚ) = ((Nat.ofDigitChars 10 (d :: more) 0 : Nat) : ℚ) / 10 ^ more.length *
          10 ^ (more.length + zeros) := by
        have hpow : (10 : ℚ) ^ more.length ≠ 0 := by positivity
        rw [pow_add, ← mul_assoc, div_mul_cancel₀ _ hpow]
        exact_mod_cast hn
      simp only [hlen]
      refine ⟨?_, ?_, d, _, rfl, hd⟩
      · have hinf : scientific d more (more.length + zeros) ≠ "Infinity".toList := by
          intro heq
          have hI : d = 'I' := (List.cons.inj (heq.trans (by rfl : _ = 'I' :: "nfinity".toList))).1
          rw [hI] at hd
          exact absurd hd (by decide)
        have hdec := readDecimal_scientific hd hm (more.length + zeros)
        rw [← hq] at hdec
        rw [readUnsigned, if_neg hinf, hdec]
        rfl
      · intro c hc
        rcases List.mem_cons.mp hc with rfl | hc
        · simp [isPlain, hd]
        · rcases List.mem_append.mp hc with hc | hc
          · by_cases hnil : more = []
            · simp [hnil] at hc
            · simp only [hnil, if_false, List.mem_cons] at hc
              rcases hc with rfl | hc
              · decide
              · simp [isPlain, hm c hc]
          · simp only [List.mem_cons] at hc
            rcases hc with rfl | rfl | hc
            · decide
            · decide
            · simp [isPlain, digits_isDigit c hc]

theorem ofText_intText (n : Int) : ofText (intText n) = .fin n := by
  obtain ⟨hread, hplain, d, cs, hchars, hd⟩ := natChars_spec n.natAbs
  have hblank : ∀ c ∈ natChars n.natAbs, isWhite c = false :=
    fun c hc => isWhite_of_isPlain (hplain c hc)
  by_cases hneg : n < 0
  · have htrim : trimChars ('-' :: natChars n.natAbs) = '-' :: natChars n.natAbs := by
      refine trimChars_eq ?_
      intro c hc
      rcases List.mem_cons.mp hc with rfl | hc
      · decide
      · exact hblank c hc
    have hradix : radixPrefix ('-' :: natChars n.natAbs) = none := rfl
    have habs : (n.natAbs : ℤ) = -n := Int.ofNat_natAbs_of_nonpos (by omega)
    have hcast : -((n.natAbs : Nat) : ℚ) = n := by
      rw [← Int.cast_natCast, habs, Int.cast_neg, neg_neg]
    simp only [ofText, intText, hneg, if_true, String.toList_ofList, htrim, reduceCtorEq, if_false,
      hradix, readSigned, hread, ofNat, neg, hcast]
  · have hradix := radixPrefix_plain hplain
    have hsigned : readSigned (natChars n.natAbs) = readUnsigned (natChars n.natAbs) := by
      rw [hchars]
      unfold readSigned
      split
      · rename_i heq
        rw [(List.cons.inj heq).1] at hd
        exact absurd hd (by decide)
      · rename_i heq
        rw [(List.cons.inj heq).1] at hd
        exact absurd hd (by decide)
      · rfl
    have hne : natChars n.natAbs ≠ [] := by simp [hchars]
    have habs : (n.natAbs : ℤ) = n := Int.natAbs_of_nonneg (by omega)
    have hcast : ((n.natAbs : Nat) : ℚ) = n := by
      rw [← Int.cast_natCast, habs]
    simp only [ofText, intText, hneg, if_false, String.toList_ofList, trimChars_eq hblank, hne,
      hradix, hsigned, hread, ofNat, hcast]

example : ofText " 1.5e3 " = .fin 1500 := by decide +kernel

end JsNumber
