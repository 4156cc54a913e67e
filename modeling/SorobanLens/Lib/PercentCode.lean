import SorobanLens.Lib.Utf8

/-!
Percent escapes over UTF-8: `encodeURIComponent` and `decodeURIComponent` with a
grammar of the texts that decode, and the form encoding of `URLSearchParams`.
-/

set_option autoImplicit false

namespace PercentCode

open Utf8

def hexDigit (c : Char) : Option Nat :=
  if '0' ≤ c ∧ c ≤ '9' then some (c.toNat - 48)
  else if 'A' ≤ c ∧ c ≤ 'F' then some (c.toNat - 55)
  else if 'a' ≤ c ∧ c ≤ 'f' then some (c.toNat - 87)
  else none

def octet (h l : Char) : Option Nat :=
  match hexDigit h, hexDigit l with
  | some x, some y => some (16 * x + y)
  | _, _ => none

def hexChar (d : Nat) : Char := Char.ofNat (if d < 10 then 48 + d else 55 + d)

def escape (b : Nat) : List Char := ['%', hexChar (b / 16), hexChar (b % 16)]

def encodeWith (keep : Char → Bool) (c : Char) : List Char :=
  if keep c then [c] else (encodeChar c).flatMap escape

/-! ### URI components -/

def isUnescaped (c : Char) : Bool := c.isAlphanum || "-_.!~*'()".toList.contains c

def encodeURIComponent (cs : List Char) : List Char := cs.flatMap (encodeWith isUnescaped)

/-- `pending` are the octets read of a sequence that is not complete. -/
def decodeFrom : List Nat → List Char → Option (List Char)
  | pending, '%' :: h :: l :: rest =>
    match octet h l with
    | none => none
    | some b =>
      if (pending ++ [b]).length < sequenceLength ((pending ++ [b]).headD 0) then
        decodeFrom (pending ++ [b]) rest
      else
        match decodeChar (pending ++ [b]) with
        | some c => (decodeFrom [] rest).map (fun cs => c :: cs)
        | none => none
  | [], [] => some []
  | _ :: _, [] => none
  | pending, c :: rest =>
    if c = '%' ∨ pending ≠ [] then none else (decodeFrom [] rest).map (fun cs => c :: cs)

/-- `none` is a thrown `URIError`. -/
def decodeURIComponent (cs : List Char) : Option (List Char) := decodeFrom [] cs

inductive Spells : List Char → List Nat → Prop where
  | nil : Spells [] []
  | cons {h l : Char} {b : Nat} {cs : List Char} {bs : List Nat} (hb : octet h l = some b)
      (hs : Spells cs bs) : Spells ('%' :: h :: l :: cs) (b :: bs)

/-- Every percent sign of a text begins an escape, and the escapes spell characters. -/
inductive WellEscaped : List Char → Prop where
  | nil : WellEscaped []
  | plain {c : Char} {rest : List Char} (hc : c ≠ '%') (h : WellEscaped rest) :
      WellEscaped (c :: rest)
  | escaped {c : Char} {spelled rest : List Char} (hs : Spells spelled (encodeChar c))
      (h : WellEscaped rest) : WellEscaped (spelled ++ rest)

theorem octet_hexChar {b : Nat} (h : b < 256) :
    octet (hexChar (b / 16)) (hexChar (b % 16)) = some b := by
  have hdigit : ∀ d < 16, hexDigit (hexChar d) = some d := by decide
  rw [octet, hdigit (b / 16) (by omega), hdigit (b % 16) (by omega)]
  simp only [Option.some.injEq]
  omega

theorem spells_escape {bs : List Nat} (h : ∀ b ∈ bs, b < 256) : Spells (bs.flatMap escape) bs := by
  induction bs with
  | nil => exact .nil
  | cons b bs ih =>
    have hb := octet_hexChar (h b List.mem_cons_self)
    exact .cons hb (ih (fun x hx => h x (List.mem_cons_of_mem b hx)))

theorem decodeFrom_plain {c : Char} (hc : c ≠ '%') (rest : List Char) :
    decodeFrom [] (c :: rest) = (decodeFrom [] rest).map (fun cs => c :: cs) := by
  rw [decodeFrom]
  · simp [hc]
  · intro h l rest' heq
    exact absurd heq hc

/-- The rest of a character's escapes, after the octets that are pending. -/
theorem decodeFrom_spelled {c : Char} {spelled : List Char} {bs : List Nat}
    (hs : Spells spelled bs) (pending : List Nat) (hne : bs ≠ [])
    (hc : pending ++ bs = encodeChar c) (rest : List Char) :
    decodeFrom pending (spelled ++ rest) = (decodeFrom [] rest).map (fun cs => c :: cs) := by
  induction hs generalizing pending with
  | nil => exact absurd rfl hne
  | @cons h l b cs bs hb hs ih =>
    obtain ⟨x, xs, henc, hlen⟩ := encodeChar_eq_cons c
    have hhead : (pending ++ [b]).headD 0 = x := by
      rw [henc] at hc
      cases pending with
      | nil => exact (List.cons.inj hc).1
      | cons p ps => exact (List.cons.inj hc).1
    have htotal : (pending ++ [b]).length + bs.length = sequenceLength x := by
      rw [hlen, ← henc, ← hc]
      simp only [List.length_append, List.length_cons, List.length_nil]
      omega
    simp only [List.cons_append, decodeFrom, hb, hhead]
    cases bs with
    | nil =>
      have hall : decodeChar (pending ++ [b]) = some c := decodeChar_eq_some.mpr hc
      simp only [List.length_nil] at htotal
      cases hs
      rw [if_neg (by omega), hall]
      rfl
    | cons b' bs =>
      simp only [List.length_cons] at htotal
      rw [if_pos (by omega)]
      exact ih (pending ++ [b]) (by simp) (by rw [List.append_assoc]; exact hc)

theorem decodeURIComponent_encodeURIComponent (cs : List Char) :
    decodeURIComponent (encodeURIComponent cs) = some cs := by
  unfold decodeURIComponent encodeURIComponent
  induction cs with
  | nil => rfl
  | cons c cs ih =>
    rw [List.flatMap_cons, encodeWith]
    split
    · rename_i hkeep
      have hc : c ≠ '%' := by
        intro h
        rw [h] at hkeep
        exact absurd hkeep (by decide)
      rw [List.cons_append, List.nil_append, decodeFrom_plain hc, ih]
      rfl
    · have hspells := spells_escape (fun b hb => lt_of_mem_encodeChar (c := c) hb)
      obtain ⟨x, xs, henc, -⟩ := encodeChar_eq_cons c
      rw [decodeFrom_spelled hspells [] (by rw [henc]; simp) rfl, ih]
      rfl

/-- The rest of a character's escapes after the octets that are pending, and then
text that is well escaped. -/
def Resumes (pending : List Nat) (cs : List Char) : Prop :=
  ∃ c bs spelled rest, pending ++ bs = encodeChar c ∧ Spells spelled bs ∧ cs = spelled ++ rest ∧
    WellEscaped rest

theorem Resumes.wellEscaped {cs : List Char} (h : Resumes [] cs) : WellEscaped cs := by
  obtain ⟨c, bs, spelled, rest, hc, hs, rfl, hrest⟩ := h
  rw [List.nil_append] at hc
  rw [hc] at hs
  exact .escaped hs hrest

theorem resumes_of_decodeFrom {pending : List Nat} {cs out : List Char}
    (hout : decodeFrom pending cs = some out) : Resumes pending cs ∨ pending = [] ∧ WellEscaped cs := by
  have hclosed : ∀ {cs : List Char}, Resumes [] cs ∨ [] = ([] : List Nat) ∧ WellEscaped cs →
      WellEscaped cs := by
    intro cs hor
    cases hor with
    | inl hr => exact hr.wellEscaped
    | inr hw => exact hw.2
  fun_induction decodeFrom pending cs generalizing out with
  | case1 => cases hout
  | case2 pending h l rest b hb hlt ih =>
    obtain ⟨c, bs, spelled, rest', hc, hs, hcs, hrest⟩ := (ih hout).resolve_right (by simp)
    refine .inl ⟨c, b :: bs, '%' :: h :: l :: spelled, rest', ?_, .cons hb hs, ?_, hrest⟩
    · simpa using hc
    · rw [hcs]
      rfl
  | case3 pending h l rest b hb hlt c hc ih =>
    obtain ⟨out', hout', -⟩ := Option.map_eq_some_iff.mp hout
    refine .inl ⟨c, [b], ['%', h, l], rest, ?_, .cons hb .nil, rfl, hclosed (ih hout')⟩
    exact decodeChar_eq_some.mp hc
  | case4 => cases hout
  | case5 => exact .inr ⟨rfl, .nil⟩
  | case6 => cases hout
  | case7 => cases hout
  | case8 pending c rest hshape hif ih =>
    obtain ⟨out', hout', -⟩ := Option.map_eq_some_iff.mp hout
    have hp : pending = [] := by
      by_contra hne
      exact hif (.inr hne)
    refine .inr ⟨hp, .plain ?_ (hclosed (ih hout'))⟩
    intro hc
    exact hif (.inl hc)

theorem decodeURIComponent_isSome_iff (cs : List Char) :
    (decodeURIComponent cs).isSome = true ↔ WellEscaped cs := by
  constructor
  · intro h
    obtain ⟨out, hout⟩ := Option.isSome_iff_exists.mp h
    cases resumes_of_decodeFrom hout with
    | inl hr => exact hr.wellEscaped
    | inr hw => exact hw.2
  · intro h
    unfold decodeURIComponent
    induction h with
    | nil => rfl
    | plain hc _ ih => rwa [decodeFrom_plain hc, Option.isSome_map]
    | @escaped c spelled rest hs _ ih =>
      obtain ⟨x, xs, henc, -⟩ := encodeChar_eq_cons c
      rwa [decodeFrom_spelled hs [] (by rw [henc]; simp) rfl, Option.isSome_map]

theorem decodeFrom_eq_nil {pending : List Nat} {cs out : List Char}
    (h : decodeFrom pending cs = some out) (hout : out = []) : pending = [] ∧ cs = [] := by
  subst hout
  fun_induction decodeFrom pending cs with
  | case1 => cases h
  | case2 pending hi lo rest b hb hlt ih => simpa using (ih h).1
  | case3 => simp at h
  | case4 => cases h
  | case5 => exact ⟨rfl, rfl⟩
  | case6 => cases h
  | case7 => cases h
  | case8 => simp at h

theorem mem_encodeWith {keep : Char → Bool} {c x : Char} (h : x ∈ encodeWith keep c) :
    keep x = true ∨ x = '%' ∨ ∃ d < 16, x = hexChar d := by
  unfold encodeWith at h
  split at h
  · rename_i hkeep
    rw [List.mem_singleton.mp h]
    exact .inl hkeep
  · obtain ⟨b, hb, hx⟩ := List.mem_flatMap.mp h
    have hlt := lt_of_mem_encodeChar hb
    simp only [escape, List.mem_cons, List.not_mem_nil, or_false] at hx
    rcases hx with rfl | rfl | rfl
    · exact .inr (.inl rfl)
    · exact .inr (.inr ⟨b / 16, by omega, rfl⟩)
    · exact .inr (.inr ⟨b % 16, by omega, rfl⟩)

theorem encodeWith_ne_nil (keep : Char → Bool) (c : Char) : encodeWith keep c ≠ [] := by
  obtain ⟨b, bs, henc, -⟩ := encodeChar_eq_cons c
  unfold encodeWith
  split
  · simp
  · simp [henc, escape]

/-! ### Forms -/

def isFormPlain (c : Char) : Bool := c.isAlphanum || "*-._".toList.contains c

def formEncode (cs : List Char) : List Char :=
  cs.flatMap (fun c => if c = ' ' then ['+'] else encodeWith isFormPlain c)

def octets : List Char → List Nat
  | '%' :: h :: l :: rest =>
    match octet h l with
    | some b => b :: octets rest
    | none => encodeChar '%' ++ octets (h :: l :: rest)
  | c :: rest => encodeChar c ++ octets rest
  | [] => []

def plusToSpace (c : Char) : Char := if c = '+' then ' ' else c

def formDecode (cs : List Char) : List Char := decode (octets (cs.map plusToSpace))

theorem octets_plain {c : Char} (hc : c ≠ '%') (rest : List Char) :
    octets (c :: rest) = encodeChar c ++ octets rest := by
  rw [octets]
  intro h l rest' heq
  exact absurd heq hc

theorem octets_escape {b : Nat} (h : b < 256) (rest : List Char) :
    octets (escape b ++ rest) = b :: octets rest := by
  simp only [escape, List.cons_append, List.nil_append, octets, octet_hexChar h]

theorem map_plusToSpace_escape (b : Nat) (h : b < 256) : (escape b).map plusToSpace = escape b := by
  have hdigit : ∀ d < 16, plusToSpace (hexChar d) = hexChar d := by decide
  simp only [escape, List.map_cons, List.map_nil, hdigit (b / 16) (by omega),
    hdigit (b % 16) (by omega)]
  rfl

theorem octets_escapes {bs : List Nat} (h : ∀ b ∈ bs, b < 256) (rest : List Char) :
    octets ((bs.flatMap escape).map plusToSpace ++ rest) = bs ++ octets rest := by
  induction bs with
  | nil => rfl
  | cons b bs ih =>
    have hb := h b List.mem_cons_self
    rw [List.flatMap_cons, List.map_append, map_plusToSpace_escape b hb, List.append_assoc,
      octets_escape hb, ih (fun x hx => h x (List.mem_cons_of_mem b hx))]
    rfl

theorem octets_formEncode (cs : List Char) :
    octets ((formEncode cs).map plusToSpace) = cs.flatMap encodeChar := by
  unfold formEncode
  induction cs with
  | nil => rfl
  | cons c cs ih =>
    rw [List.flatMap_cons, List.map_append, List.flatMap_cons]
    split
    · rename_i hc
      rw [hc, ← ih]
      exact octets_plain (by decide) _
    · rw [encodeWith]
      split
      · rename_i hkeep
        have hplus : c ≠ '+' := by
          intro h
          rw [h] at hkeep
          exact absurd hkeep (by decide)
        have hpercent : c ≠ '%' := by
          intro h
          rw [h] at hkeep
          exact absurd hkeep (by decide)
        rw [List.map_singleton, plusToSpace, if_neg hplus, List.singleton_append,
          octets_plain hpercent, ih]
      · rw [octets_escapes (fun b hb => lt_of_mem_encodeChar hb), ih]

theorem formDecode_formEncode (cs : List Char) : formDecode (formEncode cs) = cs := by
  rw [formDecode, octets_formEncode, decode_encode]

/-- `new URLSearchParams(text)`, after its leading question mark. -/
def formParse (text : List Char) : List (List Char × List Char) :=
  ((text.splitOn '&').filter (fun piece => !piece.isEmpty)).map (fun piece =>
    (formDecode (piece.takeWhile (fun c => c != '=')),
      formDecode ((piece.dropWhile (fun c => c != '=')).drop 1)))

def formPair (pair : List Char × List Char) : List Char :=
  formEncode pair.1 ++ '=' :: formEncode pair.2

/-- `URLSearchParams.prototype.toString`. -/
def formSerialise (pairs : List (List Char × List Char)) : List Char :=
  ['&'].intercalate (pairs.map formPair)

theorem not_separator_of_mem_formEncode {cs : List Char} {x : Char} (h : x ∈ formEncode cs) :
    x ≠ '&' ∧ x ≠ '=' := by
  have hhex : ∀ d < 16, hexChar d ≠ '&' ∧ hexChar d ≠ '=' := by decide
  obtain ⟨c, -, hx⟩ := List.mem_flatMap.mp h
  split at hx
  · rw [List.mem_singleton.mp hx]
    decide
  · rcases mem_encodeWith hx with hkeep | rfl | ⟨d, hd, rfl⟩
    · constructor
      · intro h
        rw [h] at hkeep
        exact absurd hkeep (by decide)
      · intro h
        rw [h] at hkeep
        exact absurd hkeep (by decide)
    · decide
    · exact hhex d hd

theorem not_mem_formPair (pair : List Char × List Char) : '&' ∉ formPair pair := by
  intro h
  rcases List.mem_append.mp h with h | h
  · exact (not_separator_of_mem_formEncode h).1 rfl
  · rcases List.mem_cons.mp h with h | h
    · cases h
    · exact (not_separator_of_mem_formEncode h).1 rfl

theorem split_formPair (pair : List Char × List Char) :
    (formPair pair).takeWhile (fun c => c != '=') = formEncode pair.1 ∧
      ((formPair pair).dropWhile (fun c => c != '=')).drop 1 = formEncode pair.2 := by
  have hname : ∀ c ∈ formEncode pair.1, (c != '=') = true := by
    intro c hc
    simpa using (not_separator_of_mem_formEncode hc).2
  constructor
  · rw [formPair, List.takeWhile_append_of_pos hname]
    simp
  · rw [formPair, List.dropWhile_append_of_pos hname]
    simp

theorem formParse_formSerialise (pairs : List (List Char × List Char)) :
    formParse (formSerialise pairs) = pairs := by
  unfold formParse formSerialise
  cases pairs with
  | nil => rfl
  | cons p ps =>
    have hsplit : (['&'].intercalate ((p :: ps).map formPair)).splitOn '&' =
        (p :: ps).map formPair := by
      refine List.splitOn_intercalate '&' ?_ (by simp)
      intro piece hpiece
      obtain ⟨pair, -, rfl⟩ := List.mem_map.mp hpiece
      exact not_mem_formPair pair
    have hfull : ∀ piece ∈ (p :: ps).map formPair, (!piece.isEmpty) = true := by
      intro piece hpiece
      obtain ⟨pair, -, rfl⟩ := List.mem_map.mp hpiece
      simp [formPair]
    rw [hsplit, List.filter_eq_self.mpr hfull, List.map_map]
    refine (List.map_congr_left ?_).trans (List.map_id (p :: ps))
    intro pair _
    obtain ⟨hname, hvalue⟩ := split_formPair pair
    simp only [Function.comp_apply, hname, hvalue, formDecode_formEncode]
    rfl

end PercentCode
