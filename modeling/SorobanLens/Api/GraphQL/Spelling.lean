import SorobanLens.Api.GraphQL.Lexer

/-!
How tokens are written: lexemes and what may stand between them. The lexer accepts
a text exactly when it spells some tokens, and returns these.
-/

set_option autoImplicit false

namespace SorobanLens.GraphQL

open TokenParser

inductive Spells : Nat → List Nat → Prop where
  | plain {u : Nat} : u ≠ 0x22 → u ≠ 0x5C → isLineEnd u = false → Spells u [u]
  | simple {c v : Nat} : (c, v) ∈ SIMPLE_ESCAPES → Spells v [0x5C, c]
  | unicode {a b c d v : Nat} : unicodeUnit [a, b, c, d] = some v → Spells v [0x5C, 0x75, a, b, c, d]

inductive Fraction : List Nat → Prop where
  | absent : Fraction []
  | present {ds : List Nat} : ds ≠ [] → (∀ d ∈ ds, isDigit d = true) → Fraction (0x2E :: ds)

inductive Exponent : List Nat → Prop where
  | absent : Exponent []
  | present {mark : Nat} {sign ds : List Nat} : mark ∈ [0x65, 0x45] → sign ∈ [[], [0x2B], [0x2D]] →
      ds ≠ [] → (∀ d ∈ ds, isDigit d = true) → Exponent (mark :: (sign ++ ds))

inductive Lexeme : List Nat → Option TokenKind → Prop where
  | ignored {u : Nat} : isIgnored u = true → Lexeme [u] none
  | comment {us : List Nat} : (∀ u ∈ us, isLineEnd u = false) → Lexeme (0x23 :: us) none
  | spread : Lexeme [0x2E, 0x2E, 0x2E] (some (.punct "..."))
  | punct {u : Nat} : u ∈ PUNCTUATION → Lexeme [u] (some (.punct (unitsText [u])))
  | name {u : Nat} {us : List Nat} : isNameStart u = true → (∀ v ∈ us, isNamePart v = true) →
      Lexeme (u :: us) (some (.name (unitsText (u :: us))))
  | int {minus whole : List Nat} : minus ∈ [[], [0x2D]] → whole ≠ [] →
      (∀ d ∈ whole, isDigit d = true) →
      Lexeme (minus ++ whole) (some (.int (unitsText (minus ++ whole))))
  | float {minus whole frac exp : List Nat} : minus ∈ [[], [0x2D]] → whole ≠ [] →
      (∀ d ∈ whole, isDigit d = true) → Fraction frac → Exponent exp → ¬(frac = [] ∧ exp = []) →
      Lexeme (minus ++ whole ++ frac ++ exp)
        (some (.float (unitsText (minus ++ whole ++ frac ++ exp))))
  | string {chars : List (Nat × List Nat)} : (∀ c ∈ chars, Spells c.1 c.2) →
      Lexeme (0x22 :: (chars.flatMap Prod.snd ++ [0x22])) (some (.string (chars.map Prod.fst)))

def isExponentMark (u : Nat) : Bool := u = 0x65 ∨ u = 0x45

/-- The lexer would read the unit as part of the lexeme before it. -/
def runsOn (units : List Nat) : Option TokenKind → Nat → Bool
  | none, u => units.head? = some 0x23 && !isLineEnd u
  | some (.name _), u => isNamePart u
  | some (.int _), u => isDigit u || u = 0x2E || isExponentMark u
  | some (.float _), u => isDigit u || (isExponentMark u && !units.any isExponentMark)
  | _, _ => false

def Stops (w : List Nat × Option TokenKind) (tail : List Nat) : Prop :=
  ∀ u ∈ tail.head?, runsOn w.1 w.2 u = false

/-- Texts that spell tokens: lexemes in a row, none of which runs on into the next. -/
inductive Spelled : List TokenKind → List Nat → Prop where
  | done : Spelled [] []
  | skip {units us : List Nat} {ks : List TokenKind} : Lexeme units none → Stops (units, none) us →
      Spelled ks us → Spelled ks (units ++ us)
  | token {units us : List Nat} {k : TokenKind} {ks : List TokenKind} : Lexeme units (some k) →
      Stops (units, some k) us → Spelled ks us → Spelled (k :: ks) (units ++ us)

/-! ### Numbers -/

variable {us rest : List Nat} {i : Nat}

theorem digits_eq_ok {message : String} {ds : List Nat} :
    digits message i us = .ok (ds, rest) ↔
      us = ds ++ rest ∧ ds ≠ [] ∧ (∀ d ∈ ds, isDigit d = true) ∧ ∀ u ∈ rest.head?, isDigit u = false := by
  have hspan : us.takeWhile isDigit = ds ∧ us.dropWhile isDigit = rest ↔ _ := span_eq_iff
  unfold digits
  split
  · rename_i hnone
    constructor
    · simp
    · rintro ⟨h1, h2, h3, h4⟩
      exact absurd ((hspan.2 ⟨h1, h3, h4⟩).1.symm.trans hnone) h2
  · rename_i hsome
    simp only [Except.ok.injEq, Prod.mk.injEq]
    constructor
    · intro h
      obtain ⟨h1, h2, h3⟩ := hspan.1 h
      exact ⟨h1, fun hnil => hsome (h.1.trans hnil), h2, h3⟩
    · rintro ⟨h1, -, h3, h4⟩
      exact hspan.2 ⟨h1, h3, h4⟩

theorem oneOf_eq_ok {cs found : List Nat} :
    oneOf cs us = .ok (found, rest) ↔
      (∃ c ∈ cs, found = [c] ∧ us = c :: rest) ∨
        (found = [] ∧ us = rest ∧ ∀ u ∈ rest.head?, u ∉ cs) := by
  cases us with
  | nil =>
    simp only [oneOf, Except.ok.injEq, Prod.mk.injEq]
    grind
  | cons u us =>
    simp only [oneOf]
    split
    · simp only [Except.ok.injEq, Prod.mk.injEq]
      grind
    · simp only [Except.ok.injEq, Prod.mk.injEq]
      grind

theorem fraction_eq_ok {frac : List Nat} :
    fraction i us = .ok (frac, rest) ↔
      us = frac ++ rest ∧ Fraction frac ∧
        ∀ u ∈ rest.head?, if frac = [] then u ≠ 0x2E else isDigit u = false := by
  rw [fraction, bind_ok_iff]
  constructor
  · rintro ⟨dot, mid, hdot, h⟩
    obtain ⟨c, hc, rfl, rfl⟩ | ⟨rfl, rfl, hhead⟩ := oneOf_eq_ok.1 hdot
    · obtain rfl : c = 0x2E := by simpa using hc
      rw [if_neg (by simp), bind_ok_iff] at h
      obtain ⟨ds, mid', hds, h⟩ := h
      obtain ⟨rfl, rfl⟩ := pure_ok_iff.1 h
      obtain ⟨rfl, hne, hall, hhead⟩ := digits_eq_ok.1 hds
      exact ⟨rfl, .present hne hall, by simpa using hhead⟩
    · obtain ⟨rfl, rfl⟩ := pure_ok_iff.1 (by simpa using h)
      exact ⟨rfl, .absent, by simpa using hhead⟩
  · rintro ⟨rfl, hfrac, hhead⟩
    cases hfrac with
    | absent =>
      exact ⟨[], rest, oneOf_eq_ok.2 (.inr ⟨rfl, rfl, by simpa using hhead⟩), by simp [pure_apply]⟩
    | present hne hall =>
      rename_i ds
      refine ⟨[0x2E], ds ++ rest, oneOf_eq_ok.2 (.inl ⟨0x2E, by simp, rfl, rfl⟩), ?_⟩
      rw [if_neg (by simp), bind_of_ok (digits_eq_ok.2 ⟨rfl, hne, hall, by simpa using hhead⟩)]
      rfl

theorem exponent_eq_ok {exp : List Nat} :
    exponent i us = .ok (exp, rest) ↔
      us = exp ++ rest ∧ Exponent exp ∧
        ∀ u ∈ rest.head?, if exp = [] then isExponentMark u = false else isDigit u = false := by
  rw [exponent, bind_ok_iff]
  constructor
  · rintro ⟨mark, mid, hmark, h⟩
    obtain ⟨c, hc, rfl, rfl⟩ | ⟨rfl, rfl, hhead⟩ := oneOf_eq_ok.1 hmark
    · rw [if_neg (by simp), bind_ok_iff] at h
      obtain ⟨sign, mid', hsign, h⟩ := h
      obtain ⟨ds, mid'', hds, h⟩ := bind_ok_iff.1 h
      obtain ⟨rfl, rfl⟩ := pure_ok_iff.1 h
      obtain ⟨rfl, hne, hall, hhead⟩ := digits_eq_ok.1 hds
      have hwritten : sign ∈ [[], [0x2B], [0x2D]] ∧ mid = sign ++ (ds ++ mid'') := by
        obtain ⟨s, hs, rfl, rfl⟩ | ⟨rfl, rfl, -⟩ := oneOf_eq_ok.1 hsign
        · simpa using hs
        · simp
      refine ⟨by simp [hwritten.2], .present hc hwritten.1 hne hall, by simpa using hhead⟩
    · obtain ⟨rfl, rfl⟩ := pure_ok_iff.1 (by simpa using h)
      exact ⟨rfl, .absent, by simpa [isExponentMark] using hhead⟩
  · rintro ⟨rfl, hexp, hhead⟩
    cases hexp with
    | absent =>
      refine ⟨[], rest, oneOf_eq_ok.2 (.inr ⟨rfl, rfl, ?_⟩), by simp [pure_apply]⟩
      simpa [isExponentMark] using hhead
    | present hmark hsign hne hall =>
      rename_i mark sign ds
      have hdigits : digits "expected digits in the exponent" i (ds ++ rest) = .ok (ds, rest) :=
        digits_eq_ok.2 ⟨rfl, hne, hall, by simpa using hhead⟩
      have hsigned : oneOf [0x2B, 0x2D] (sign ++ (ds ++ rest)) = .ok (sign, ds ++ rest) := by
        obtain ⟨d, ds, rfl⟩ := List.exists_cons_of_ne_nil hne
        have hd : isDigit d = true := hall d List.mem_cons_self
        have hnot : d ∉ [0x2B, 0x2D] := by
          simp only [isDigit, decide_eq_true_eq] at hd
          simp only [List.mem_cons, List.not_mem_nil, or_false]
          omega
        simp only [List.mem_cons, List.not_mem_nil, or_false] at hsign
        obtain rfl | rfl | rfl := hsign
        · exact oneOf_eq_ok.2 (.inr ⟨rfl, rfl, by simpa using hnot⟩)
        · exact oneOf_eq_ok.2 (.inl ⟨_, by simp, rfl, rfl⟩)
        · exact oneOf_eq_ok.2 (.inl ⟨_, by simp, rfl, rfl⟩)
      refine ⟨[mark], sign ++ (ds ++ rest), oneOf_eq_ok.2 (.inl ⟨mark, hmark, rfl, by simp⟩), ?_⟩
      rw [if_neg (by simp), bind_of_ok hsigned, bind_of_ok hdigits]
      rfl

theorem not_digit_of_parts {frac exp tail : List Nat} (hfrac : Fraction frac) (hexp : Exponent exp)
    (htail : ∀ u ∈ tail.head?, isDigit u = false) :
    ∀ u ∈ (frac ++ (exp ++ tail)).head?, isDigit u = false := by
  cases hfrac with
  | present hne hall => simp [isDigit]
  | absent =>
    cases hexp with
    | absent => simpa using htail
    | present hmark hsign hne hall =>
      simp only [List.mem_cons, List.not_mem_nil, or_false] at hmark
      obtain rfl | rfl := hmark <;> simp [isDigit]

theorem numberToken_sound {k : TokenKind} (h : numberToken i us = .ok (k, rest)) :
    ∃ units, us = units ++ rest ∧ Lexeme units (some k) ∧ Stops (units, some k) rest := by
  obtain ⟨minus, mid₁, hminus, h₁⟩ := bind_ok_iff.1 h
  obtain ⟨whole, mid₂, hwhole, h₂⟩ := bind_ok_iff.1 h₁
  obtain ⟨frac, mid₃, hfrac, h₃⟩ := bind_ok_iff.1 h₂
  obtain ⟨exp, mid₄, hexp, h₄⟩ := bind_ok_iff.1 h₃
  have hsigned : minus ∈ [[], [0x2D]] ∧ us = minus ++ mid₁ := by
    obtain ⟨c, hc, rfl, rfl⟩ | ⟨rfl, rfl, -⟩ := oneOf_eq_ok.1 hminus
    · simpa using hc
    · simp
  obtain ⟨rfl, hne, hall, hwhole'⟩ := digits_eq_ok.1 hwhole
  obtain ⟨rfl, hF, hfrac'⟩ := fraction_eq_ok.1 hfrac
  obtain ⟨rfl, hE, hexp'⟩ := exponent_eq_ok.1 hexp
  split at h₄
  · rename_i hnone
    obtain ⟨rfl, rfl⟩ := hnone
    obtain ⟨rfl, rfl⟩ := pure_ok_iff.1 h₄
    refine ⟨minus ++ whole, by simp [hsigned.2], .int hsigned.1 hne hall, ?_⟩
    intro u hu
    have h1 : isDigit u = false := hwhole' u (by simpa using hu)
    have h2 : u ≠ 0x2E := by simpa using hfrac' u (by simpa using hu)
    have h3 : isExponentMark u = false := by simpa using hexp' u hu
    simp [runsOn, h1, h2, h3]
  · rename_i hsome
    obtain ⟨rfl, rfl⟩ := pure_ok_iff.1 h₄
    refine ⟨minus ++ whole ++ frac ++ exp, by simp [hsigned.2],
      .float hsigned.1 hne hall hF hE hsome, ?_⟩
    intro u hu
    cases hE with
    | absent =>
      have hdot : frac ≠ [] := fun hnil => hsome ⟨hnil, rfl⟩
      have h1 : isDigit u = false := by simpa [hdot] using hfrac' u (by simpa using hu)
      have h2 : isExponentMark u = false := by simpa using hexp' u hu
      simp [runsOn, h1, h2]
    | present hmark hsign hds hdigits =>
      rename_i mark sign ds
      have h1 : isDigit u = false := by simpa using hexp' u hu
      have h2 : isExponentMark mark = true := by simpa [isExponentMark] using hmark
      simp [runsOn, h1, h2]

theorem minus_apply {minus whole tail : List Nat} (hminus : minus ∈ [[], [0x2D]]) (hne : whole ≠ [])
    (hall : ∀ d ∈ whole, isDigit d = true) :
    oneOf [0x2D] (minus ++ (whole ++ tail)) = .ok (minus, whole ++ tail) := by
  obtain ⟨d, ds, rfl⟩ := List.exists_cons_of_ne_nil hne
  have hd : isDigit d = true := hall d List.mem_cons_self
  have hnot : d ≠ 0x2D := by
    simp only [isDigit, decide_eq_true_eq] at hd
    omega
  simp only [List.mem_cons, List.not_mem_nil, or_false] at hminus
  obtain rfl | rfl := hminus
  · exact oneOf_eq_ok.2 (.inr ⟨rfl, rfl, by simpa using hnot⟩)
  · exact oneOf_eq_ok.2 (.inl ⟨_, by simp, rfl, rfl⟩)

theorem numberToken_int {minus whole tail : List Nat} (hminus : minus ∈ [[], [0x2D]])
    (hne : whole ≠ []) (hall : ∀ d ∈ whole, isDigit d = true)
    (hstops : Stops (minus ++ whole, some (.int (unitsText (minus ++ whole)))) tail) :
    numberToken i (minus ++ (whole ++ tail)) = .ok (.int (unitsText (minus ++ whole)), tail) := by
  have hnext : ∀ u ∈ tail.head?, isDigit u = false ∧ u ≠ 0x2E ∧ isExponentMark u = false := by
    intro u hu
    have hu' := hstops u hu
    simp only [runsOn, Bool.or_eq_false_iff, decide_eq_false_iff_not] at hu'
    exact ⟨hu'.1.1, hu'.1.2, hu'.2⟩
  have hwhole : digits "expected a digit after \"-\"" i (whole ++ tail) = .ok (whole, tail) :=
    digits_eq_ok.2 ⟨rfl, hne, hall, fun u hu => (hnext u hu).1⟩
  have hfrac : fraction i tail = .ok ([], tail) :=
    fraction_eq_ok.2 ⟨rfl, .absent, fun u hu => by simpa using (hnext u hu).2.1⟩
  have hexp : exponent i tail = .ok ([], tail) :=
    exponent_eq_ok.2 ⟨rfl, .absent, fun u hu => by simpa using (hnext u hu).2.2⟩
  rw [numberToken, bind_of_ok (minus_apply hminus hne hall), bind_of_ok hwhole, bind_of_ok hfrac,
    bind_of_ok hexp]
  rfl

theorem isExponentMark_of_isDigit {u : Nat} (h : isDigit u = true) : isExponentMark u = false := by
  simp only [isDigit, decide_eq_true_eq] at h
  simp only [isExponentMark, decide_eq_false_iff_not]
  omega

theorem any_isExponentMark {minus whole frac : List Nat} (hminus : minus ∈ [[], [0x2D]])
    (hall : ∀ d ∈ whole, isDigit d = true) (hF : Fraction frac) :
    (minus ++ whole ++ frac).any isExponentMark = false := by
  have hsign : minus.any isExponentMark = false := by
    simp only [List.mem_cons, List.not_mem_nil, or_false] at hminus
    obtain rfl | rfl := hminus <;> rfl
  have hwhole : whole.any isExponentMark = false := by
    simpa using fun d hd => isExponentMark_of_isDigit (hall d hd)
  have hfrac : frac.any isExponentMark = false := by
    cases hF with
    | absent => rfl
    | present hne hdigits =>
      simpa [isExponentMark] using fun d hd => isExponentMark_of_isDigit (hdigits d hd)
  simp [hsign, hwhole, hfrac]

theorem numberToken_float {minus whole frac exp tail : List Nat} (hminus : minus ∈ [[], [0x2D]])
    (hne : whole ≠ []) (hall : ∀ d ∈ whole, isDigit d = true) (hF : Fraction frac)
    (hE : Exponent exp) (hsome : ¬(frac = [] ∧ exp = []))
    (hstops : Stops (minus ++ whole ++ frac ++ exp,
      some (.float (unitsText (minus ++ whole ++ frac ++ exp)))) tail) :
    numberToken i (minus ++ (whole ++ (frac ++ (exp ++ tail)))) =
      .ok (.float (unitsText (minus ++ whole ++ frac ++ exp)), tail) := by
  have hdigit : ∀ u ∈ tail.head?, isDigit u = false := by
    intro u hu
    have hu' := hstops u hu
    simp only [runsOn, Bool.or_eq_false_iff] at hu'
    exact hu'.1
  have hwhole : digits "expected a digit after \"-\"" i (whole ++ (frac ++ (exp ++ tail))) =
      .ok (whole, frac ++ (exp ++ tail)) :=
    digits_eq_ok.2 ⟨rfl, hne, hall, not_digit_of_parts hF hE hdigit⟩
  have hfrac : fraction i (frac ++ (exp ++ tail)) = .ok (frac, exp ++ tail) := by
    refine fraction_eq_ok.2 ⟨rfl, hF, ?_⟩
    intro u hu
    split
    · rename_i hnil
      -- No fraction, so there is an exponent, and its mark comes next.
      cases hE with
      | absent => exact absurd ⟨hnil, rfl⟩ hsome
      | present hmark hsign hds hdigits =>
        obtain rfl : _ = u := by simpa using hu
        simp only [List.mem_cons, List.not_mem_nil, or_false] at hmark
        omega
    · exact not_digit_of_parts .absent hE hdigit u hu
  have hexp : exponent i (exp ++ tail) = .ok (exp, tail) := by
    refine exponent_eq_ok.2 ⟨rfl, hE, ?_⟩
    intro u hu
    split
    · rename_i hnil
      subst hnil
      have hu' := hstops u hu
      simp only [runsOn, Bool.or_eq_false_iff, Bool.and_eq_false_iff] at hu'
      obtain hmark | hmark := hu'.2
      · exact hmark
      · rw [List.append_nil, any_isExponentMark hminus hall hF] at hmark
        cases hmark
    · exact hdigit u hu
  rw [numberToken, bind_of_ok (minus_apply hminus hne hall), bind_of_ok hwhole, bind_of_ok hfrac,
    bind_of_ok hexp, if_neg hsome]
  rfl

/-! ### Strings -/

def characters : Items Nat (Nat × List Nat) (Nat × List Nat) where
  tokens c := c.2
  allowed _ c := Spells c.1 c.2
  add s c := (s.1 + c.2.length, s.2 ++ [c.1])

theorem characters_after (s : Nat × List Nat) (chars : List (Nat × List Nat)) :
    (characters.after s chars).2 = s.2 ++ chars.map Prod.fst := by
  induction chars generalizing s with
  | nil => simp
  | cons c chars ih =>
    rw [Items.after_cons, ih]
    simp [characters]

theorem Spells.ne_nil {v : Nat} {units : List Nat} (h : Spells v units) : units ≠ [] := by
  cases h <;> simp

theorem lookup_simpleEscapes {c v : Nat} :
    SIMPLE_ESCAPES.lookup c = some v ↔ (c, v) ∈ SIMPLE_ESCAPES := by
  constructor
  · intro h
    obtain ⟨before, after, htable, -⟩ := List.lookup_eq_some_iff.1 h
    rw [htable]
    simp
  · intro h
    have htable : ∀ e ∈ SIMPLE_ESCAPES, SIMPLE_ESCAPES.lookup e.1 = some e.2 := by decide
    exact htable (c, v) h

theorem stringStep_sound :
    StepSound id inString stringStep characters (fun _ _ => True) := by
  rintro ⟨i, value⟩ us ⟨j, value'⟩ rest hgo h
  cases us with
  | nil => simp [inString] at hgo
  | cons u us =>
    simp only [inString, Bool.and_eq_true, decide_eq_true_eq, Bool.not_eq_true'] at hgo
    simp only [stringStep] at h
    split at h
    · rename_i hbackslash
      cases us with
      | nil => simp at h
      | cons next more =>
        simp only at h
        split at h
        · rename_i v hv
          simp only [Except.ok.injEq, Prod.mk.injEq] at h
          obtain ⟨⟨rfl, rfl⟩, rfl⟩ := h
          exact ⟨(v, [0x5C, next]), .simple (lookup_simpleEscapes.1 hv), trivial, rfl, by
            simp [hbackslash, characters]⟩
        · split at h
          · rename_i hu
            split at h
            · rename_i v hv
              simp only [Except.ok.injEq, Prod.mk.injEq] at h
              obtain ⟨⟨rfl, rfl⟩, rfl⟩ := h
              match more, hv with
              | a :: b :: c :: d :: rest, hv =>
                exact ⟨(v, [0x5C, 0x75, a, b, c, d]), .unicode hv, trivial, rfl, by
                  simp [hbackslash, hu, characters]⟩
            · simp at h
          · simp at h
    · rename_i hplain
      simp only [Except.ok.injEq, Prod.mk.injEq] at h
      obtain ⟨⟨rfl, rfl⟩, rfl⟩ := h
      exact ⟨(u, [u]), .plain hgo.1 hplain hgo.2, trivial, rfl, by simp [characters]⟩

theorem stringStep_complete :
    StepComplete id inString stringStep characters (fun _ _ => True) := by
  rintro ⟨i, value⟩ ⟨v, units⟩ us tail hspells - hus
  rw [List.map_id] at hus
  subst hus
  change Spells v units at hspells
  cases hspells with
  | plain hquote hbackslash hline =>
    exact ⟨by simp [characters, inString, hquote, hline], tail, by
      simp [characters, stringStep, hbackslash], by simp⟩
  | simple hc =>
    have hlookup := lookup_simpleEscapes.2 hc
    exact ⟨by simp [characters, inString, isLineEnd], tail, by
      simp [characters, stringStep, hlookup], by simp⟩
  | unicode hv =>
    have hnone : SIMPLE_ESCAPES.lookup 0x75 = none := by decide
    exact ⟨by simp [characters, inString, isLineEnd], tail, by
      simp [characters, stringStep, hnone, hv], by simp⟩

theorem stringToken_eq_ok {k : TokenKind} :
    stringToken i us = .ok (k, rest) ↔
      ∃ chars : List (Nat × List Nat), (∀ c ∈ chars, Spells c.1 c.2) ∧
        k = .string (chars.map Prod.fst) ∧ us = chars.flatMap Prod.snd ++ 0x22 :: rest := by
  rw [stringToken, bind_ok_iff]
  constructor
  · rintro ⟨s, mid, hloop, h⟩
    obtain ⟨_, mid', hclose, h⟩ := bind_ok_iff.1 h
    obtain ⟨rfl, rfl⟩ := pure_ok_iff.1 h
    obtain ⟨chars, hchain, rfl, hus, -⟩ := repeatWhile_sound stringStep_sound hloop
    simp only [List.map_id] at hus
    refine ⟨chars, hchain.forall (fun _ c hc => hc), by simp [characters_after], ?_⟩
    cases mid with
    | nil => simp [closeString] at hclose
    | cons u mid =>
      rw [closeString] at hclose
      split at hclose
      · rename_i hquote
        obtain rfl : mid = mid' := by simpa using hclose
        rw [hus, hquote]
        rfl
      · simp at hclose
  · rintro ⟨chars, hchars, rfl, rfl⟩
    have hchain : characters.Chain (fun _ _ => True) (0x22 :: rest) (i + 1, []) chars :=
      Items.chain_of_forall (fun c hc _ => hchars c hc) (fun _ _ _ => trivial)
    have hwritten : (chars.flatMap Prod.snd ++ 0x22 :: rest).map id =
        characters.written chars ++ 0x22 :: rest := List.map_id _
    have hstop : ∀ us : List Nat, us.map id = 0x22 :: rest → inString us = false := by
      intro us hus
      rw [List.map_id] at hus
      simp [hus, inString]
    obtain ⟨rest', hloop, hrest⟩ := repeatWhile_complete stuck stringStep_complete
      (fun _ c hc => hc.ne_nil) hchain hwritten hstop
    obtain rfl : rest' = 0x22 :: rest := by simpa using hrest
    refine ⟨_, _, hloop, ?_⟩
    rw [bind_of_ok (show closeString i (0x22 :: rest) = .ok ((), rest) from rfl)]
    simp [pure_apply, characters_after]

/-! ### Lexemes -/

theorem lexeme_sound {k : Option TokenKind} (hne : us ≠ []) (h : lexeme i us = .ok (k, rest)) :
    ∃ units, us = units ++ rest ∧ Lexeme units k ∧ Stops (units, k) rest := by
  obtain ⟨ch, us, rfl⟩ := List.exists_cons_of_ne_nil hne
  simp only [lexeme] at h
  split at h
  case isTrue hignored =>
    obtain ⟨rfl, rfl⟩ : none = k ∧ us = rest := by simpa using h
    refine ⟨[ch], rfl, .ignored hignored, fun u _ => ?_⟩
    have hhash : ch ≠ 0x23 := by
      rintro rfl
      simp [isIgnored] at hignored
    simp [runsOn, hhash]
  case isFalse =>
  split at h
  case isTrue hhash =>
    obtain ⟨rfl, hrest⟩ : none = k ∧ (ch :: us).dropWhile (fun u => !isLineEnd u) = rest := by
      simpa using h
    obtain ⟨hsplit, hrun, hnext⟩ := span_eq_iff.1 ⟨rfl, hrest⟩
    subst hhash
    have hcons : (0x23 :: us).takeWhile (fun u => !isLineEnd u) =
        0x23 :: us.takeWhile (fun u => !isLineEnd u) := by
      simp [isLineEnd]
    rw [hcons] at hsplit hrun
    refine ⟨_, hsplit, .comment (fun u hu => ?_), fun u hu => ?_⟩
    · simpa using hrun u (List.mem_cons_of_mem _ hu)
    · simpa [runsOn] using hnext u hu
  case isFalse =>
  split at h
  case isTrue hspread =>
    obtain ⟨rfl, rfl⟩ : some (.punct "...") = k ∧ (ch :: us).drop 3 = rest := by simpa using h
    refine ⟨[0x2E, 0x2E, 0x2E], ?_, .spread, fun u _ => rfl⟩
    rw [← hspread, List.take_append_drop]
  case isFalse =>
  split at h
  case isTrue hpunct =>
    obtain ⟨rfl, rfl⟩ : some (.punct (unitsText [ch])) = k ∧ us = rest := by simpa using h
    exact ⟨[ch], rfl, .punct hpunct, fun u _ => rfl⟩
  case isFalse =>
  split at h
  case isTrue hname =>
    obtain ⟨rfl, hrest⟩ : some (.name (unitsText ((ch :: us).takeWhile isNamePart))) = k ∧
        (ch :: us).dropWhile isNamePart = rest := by simpa using h
    obtain ⟨hsplit, hrun, hnext⟩ := span_eq_iff.1 ⟨rfl, hrest⟩
    have hcons : (ch :: us).takeWhile isNamePart = ch :: us.takeWhile isNamePart := by
      simp [isNamePart, hname]
    rw [hcons] at hsplit hrun ⊢
    exact ⟨_, hsplit, .name hname (fun u hu => hrun u (List.mem_cons_of_mem _ hu)),
      fun u hu => hnext u hu⟩
  case isFalse =>
  split at h
  case isTrue =>
    obtain ⟨k, hk, rfl⟩ := map_ok_iff.1 h
    exact numberToken_sound hk
  case isFalse =>
  split at h
  case isTrue hquote =>
    obtain ⟨k, hk, rfl⟩ := map_ok_iff.1 h
    obtain ⟨chars, hchars, rfl, rfl⟩ := stringToken_eq_ok.1 hk
    exact ⟨_, by simp [hquote], .string hchars, fun u _ => rfl⟩
  case isFalse => simp at h

theorem lexeme_punct {u : Nat} {tail : List Nat} (hu : u ∈ PUNCTUATION) :
    lexeme i (u :: tail) = .ok (some (.punct (unitsText [u])), tail) := by
  have hclass : ∀ u ∈ PUNCTUATION, isIgnored u = false ∧ u ≠ 0x23 ∧ u ≠ 0x2E := by decide
  obtain ⟨hignored, hhash, hdot⟩ := hclass u hu
  simp [lexeme, hignored, hhash, hdot, hu]

theorem lexeme_name {u : Nat} {tail : List Nat} (hu : isNameStart u = true) :
    lexeme i (u :: tail) =
      .ok (some (.name (unitsText ((u :: tail).takeWhile isNamePart))),
        (u :: tail).dropWhile isNamePart) := by
  have hclass : isIgnored u = false ∧ u ≠ 0x23 ∧ u ≠ 0x2E ∧ u ∉ PUNCTUATION := by
    simp only [isNameStart, decide_eq_true_eq] at hu
    simp only [isIgnored, PUNCTUATION, List.mem_cons, List.not_mem_nil, or_false,
      decide_eq_false_iff_not]
    omega
  obtain ⟨hignored, hhash, hdot, hpunct⟩ := hclass
  simp [lexeme, hignored, hhash, hdot, hpunct, hu]

theorem lexeme_number {minus whole tail : List Nat} (hminus : minus ∈ [[], [0x2D]])
    (hne : whole ≠ []) (hall : ∀ d ∈ whole, isDigit d = true) :
    lexeme i (minus ++ (whole ++ tail)) = (some <$> numberToken i) (minus ++ (whole ++ tail)) := by
  obtain ⟨u, us, hus, hu⟩ : ∃ u us, minus ++ (whole ++ tail) = u :: us ∧ (u = 0x2D ∨ isDigit u) := by
    obtain ⟨d, ds, rfl⟩ := List.exists_cons_of_ne_nil hne
    have hd : isDigit d = true := hall d List.mem_cons_self
    simp only [List.mem_cons, List.not_mem_nil, or_false] at hminus
    obtain rfl | rfl := hminus
    · exact ⟨d, ds ++ tail, rfl, .inr hd⟩
    · exact ⟨0x2D, d :: (ds ++ tail), rfl, .inl rfl⟩
  have hclass : isIgnored u = false ∧ u ≠ 0x23 ∧ u ≠ 0x2E ∧ u ∉ PUNCTUATION ∧
      isNameStart u = false := by
    simp only [isDigit, decide_eq_true_eq] at hu
    simp only [isIgnored, isNameStart, PUNCTUATION, List.mem_cons, List.not_mem_nil, or_false,
      decide_eq_false_iff_not]
    omega
  obtain ⟨hignored, hhash, hdot, hpunct, hname⟩ := hclass
  rw [hus]
  simp [lexeme, hignored, hhash, hdot, hpunct, hname, hu]

theorem lexeme_complete {units tail : List Nat} {k : Option TokenKind} (h : Lexeme units k)
    (hstops : Stops (units, k) tail) : lexeme i (units ++ tail) = .ok (k, tail) := by
  cases h with
  | ignored hu => simp [lexeme, hu]
  | comment hus =>
    rename_i us
    have hrun : ∀ u ∈ 0x23 :: us, (!isLineEnd u) = true := by
      simpa [isLineEnd] using hus
    have hnext : ∀ u ∈ tail.head?, (!isLineEnd u) = false := by
      simpa [Stops, runsOn] using hstops
    have hrest := (span_eq_iff.2 ⟨rfl, hrun, hnext⟩).2
    rw [List.cons_append] at hrest ⊢
    simp [lexeme, isIgnored, hrest]
  | spread => simp [lexeme, isIgnored]
  | punct hu => exact lexeme_punct hu
  | name hu hus =>
    rename_i u us
    have hrun : ∀ v ∈ u :: us, isNamePart v = true := by
      simpa [isNamePart, hu] using hus
    obtain ⟨htake, hdrop⟩ := span_eq_iff.2 ⟨rfl, hrun, hstops⟩
    rw [List.cons_append] at htake hdrop ⊢
    rw [lexeme_name hu, htake, hdrop]
  | int hminus hne hall =>
    rw [List.append_assoc, lexeme_number hminus hne hall]
    exact map_ok_iff.2 ⟨_, numberToken_int hminus hne hall hstops, rfl⟩
  | float hminus hne hall hF hE hsome =>
    simp only [List.append_assoc]
    rw [lexeme_number hminus hne hall]
    exact map_ok_iff.2 ⟨_, numberToken_float hminus hne hall hF hE hsome hstops, by simp⟩
  | string hchars =>
    rename_i chars
    have htoken : stringToken i (chars.flatMap Prod.snd ++ 0x22 :: tail) =
        .ok (.string (chars.map Prod.fst), tail) := stringToken_eq_ok.2 ⟨chars, hchars, rfl, rfl⟩
    have hread : lexeme i (0x22 :: (chars.flatMap Prod.snd ++ 0x22 :: tail)) =
        (some <$> stringToken i) (chars.flatMap Prod.snd ++ 0x22 :: tail) := by
      simp [lexeme, isIgnored, PUNCTUATION, isNameStart, isDigit]
    simp only [List.cons_append, List.append_assoc, List.nil_append]
    rw [hread]
    exact map_ok_iff.2 ⟨_, htoken, rfl⟩

/-! ### Texts -/

def lexemes : Items Nat (Nat × List Token) (List Nat × Option TokenKind) where
  tokens w := w.1
  allowed _ w := Lexeme w.1 w.2
  add s w := (s.1 + w.1.length, s.2 ++ (w.2.map (fun k => (⟨k, s.1⟩ : Token))).toList)

def layout : Nat → List (List Nat × Option TokenKind) → List Token
  | _, [] => []
  | i, w :: ws => (w.2.map (fun k => (⟨k, i⟩ : Token))).toList ++ layout (i + w.1.length) ws

theorem Lexeme.ne_nil {units : List Nat} {k : Option TokenKind} (h : Lexeme units k) :
    units ≠ [] := by
  cases h <;> simp_all

theorem lexemes_after (s : Nat × List Token) (ws : List (List Nat × Option TokenKind)) :
    lexemes.after s ws = (s.1 + (lexemes.written ws).length, s.2 ++ layout s.1 ws) := by
  induction ws generalizing s with
  | nil => simp [layout]
  | cons w ws ih =>
    rw [Items.after_cons, ih, Items.written_cons]
    simp [lexemes, layout, Nat.add_assoc]

theorem layout_kinds (i : Nat) (ws : List (List Nat × Option TokenKind)) :
    (layout i ws).map Token.kind = ws.filterMap Prod.snd := by
  induction ws generalizing i with
  | nil => rfl
  | cons w ws ih =>
    obtain ⟨units, k⟩ := w
    cases k <;> simp [layout, ih]

theorem lexStep_sound :
    StepSound id (fun us => !us.isEmpty) lexStep lexemes Stops := by
  rintro ⟨i, tokens⟩ us s' rest hgo h
  have hne : us ≠ [] := by simpa using hgo
  simp only [lexStep] at h
  split at h
  · simp at h
  · rename_i k rest' hlexeme
    simp only [Except.ok.injEq, Prod.mk.injEq] at h
    obtain ⟨rfl, rfl⟩ := h
    obtain ⟨units, rfl, hunits, hstops⟩ := lexeme_sound hne hlexeme
    refine ⟨(units, k), hunits, by simpa using hstops, ?_, by simp [lexemes]⟩
    simp [lexemes]

theorem lexStep_complete :
    StepComplete id (fun us => !us.isEmpty) lexStep lexemes Stops := by
  rintro ⟨i, tokens⟩ ⟨units, k⟩ us tail hunits hstops hus
  rw [List.map_id] at hus
  subst hus
  have hread := lexeme_complete (i := i) hunits hstops
  have hne := hunits.ne_nil
  refine ⟨by simp [lexemes, hne], tail, ?_, by simp⟩
  simp [lexStep, lexemes, hread]

theorem spelled_iff {ks : List TokenKind} {us : List Nat} (s : Nat × List Token) :
    Spelled ks us ↔ ∃ ws, lexemes.Chain Stops [] s ws ∧ us = lexemes.written ws ∧
      ks = ws.filterMap Prod.snd := by
  constructor
  · intro h
    induction h generalizing s with
    | done => exact ⟨[], trivial, rfl, rfl⟩
    | @skip units us ks hunits hstops _ ih =>
      obtain ⟨ws, hchain, rfl, rfl⟩ := ih (lexemes.add s (units, none))
      exact ⟨(units, none) :: ws, ⟨hunits, by simpa using hstops, hchain⟩, rfl, rfl⟩
    | @token units us k ks hunits hstops _ ih =>
      obtain ⟨ws, hchain, rfl, rfl⟩ := ih (lexemes.add s (units, some k))
      exact ⟨(units, some k) :: ws, ⟨hunits, by simpa using hstops, hchain⟩, rfl, rfl⟩
  · rintro ⟨ws, hchain, rfl, rfl⟩
    induction ws generalizing s with
    | nil => exact .done
    | cons w ws ih =>
      obtain ⟨units, k⟩ := w
      obtain ⟨hunits, hstops, hrest⟩ := hchain
      rw [List.append_nil] at hstops
      cases k with
      | none => exact .skip hunits hstops (ih _ hrest)
      | some k => exact .token hunits hstops (ih _ hrest)

theorem tokenize_eq_ok {ts : List Token} :
    tokenize us = .ok ts ↔ ∃ ws, lexemes.Chain Stops [] (0, []) ws ∧ us = lexemes.written ws ∧
      ts = layout 0 ws ++ [⟨.eof, us.length⟩] := by
  constructor
  · intro h
    unfold tokenize at h
    split at h
    · simp at h
    · rename_i s rest hloop
      obtain ⟨ws, hchain, rfl, hus, hstop⟩ := repeatWhile_sound lexStep_sound hloop
      obtain rfl : rest = [] := by simpa using hstop
      simp only [List.map_id, List.append_nil] at hus
      refine ⟨ws, by simpa using hchain, hus, ?_⟩
      simpa [lexemes_after] using h.symm
  · rintro ⟨ws, hchain, hus, rfl⟩
    have hstop : ∀ us : List Nat, us.map id = [] → (!us.isEmpty) = false := by simp
    have hwritten : us.map id = lexemes.written ws ++ [] := by simpa using hus
    obtain ⟨rest, hloop, -⟩ := repeatWhile_complete stuck lexStep_complete
      (fun _ w hw => hw.ne_nil) hchain hwritten hstop
    rw [tokenize, hloop]
    simp [lexemes_after]

/-- The lexer accepts the texts that spell tokens, and returns these. -/
theorem tokenize_iff_spelled {ks : List TokenKind} :
    (∃ ts, tokenize us = .ok ts ∧ ts.map Token.kind = ks ++ [.eof]) ↔ Spelled ks us := by
  rw [spelled_iff (0, [])]
  constructor
  · rintro ⟨ts, hts, hkinds⟩
    obtain ⟨ws, hchain, hus, rfl⟩ := tokenize_eq_ok.1 hts
    refine ⟨ws, hchain, hus, ?_⟩
    simpa [layout_kinds] using hkinds.symm
  · rintro ⟨ws, hchain, hus, rfl⟩
    exact ⟨_, tokenize_eq_ok.2 ⟨ws, hchain, hus, rfl⟩, by simp [layout_kinds]⟩

theorem layout_pos {s : Nat × List Token} {ws : List (List Nat × Option TokenKind)} {before : List Nat}
    (hchain : lexemes.Chain Stops [] s ws) :
    ∀ t ∈ layout before.length ws, ∃ units tail,
      (before ++ lexemes.written ws).drop t.pos = units ++ tail ∧
        Lexeme units (some t.kind) ∧ Stops (units, some t.kind) tail := by
  induction ws generalizing s before with
  | nil => simp [layout]
  | cons w ws ih =>
    obtain ⟨units, k⟩ := w
    obtain ⟨hunits, hstops, hrest⟩ := hchain
    intro t ht
    rw [layout, List.mem_append] at ht
    rw [Items.written_cons]
    obtain ht | ht := ht
    · cases k with
      | none => simp at ht
      | some k =>
        obtain rfl : t = ⟨k, before.length⟩ := by simpa using ht
        exact ⟨units, lexemes.written ws, by simp [lexemes], hunits, by simpa using hstops⟩
    · have hlength : before.length + units.length = (before ++ units).length := by simp
      rw [hlength] at ht
      obtain ⟨units', tail, hdrop, hrest⟩ := ih hrest t ht
      exact ⟨units', tail, by simpa [lexemes] using hdrop, hrest⟩

theorem layout_le {i : Nat} {ws : List (List Nat × Option TokenKind)} :
    ∀ t ∈ layout i ws, i ≤ t.pos := by
  induction ws generalizing i with
  | nil => simp [layout]
  | cons w ws ih =>
    obtain ⟨units, k⟩ := w
    intro t ht
    rw [layout, List.mem_append] at ht
    obtain ht | ht := ht
    · cases k with
      | none => simp at ht
      | some k =>
        obtain rfl : t = ⟨k, i⟩ := by simpa using ht
        exact Nat.le_refl i
    · have hle := ih t ht
      omega

theorem layout_sorted {s : Nat × List Token} {i : Nat} {ws : List (List Nat × Option TokenKind)}
    (hchain : lexemes.Chain Stops [] s ws) : (layout i ws).Pairwise (fun t u => t.pos < u.pos) := by
  induction ws generalizing s i with
  | nil => exact .nil
  | cons w ws ih =>
    obtain ⟨units, k⟩ := w
    obtain ⟨hunits, -, hrest⟩ := hchain
    have hpos : 0 < units.length := List.length_pos_iff.2 hunits.ne_nil
    rw [layout, List.pairwise_append]
    refine ⟨by cases k <;> simp, ih hrest, fun t ht u hu => ?_⟩
    cases k with
    | none => simp at ht
    | some k =>
      obtain rfl : t = ⟨k, i⟩ := by simpa using ht
      have hle := layout_le u hu
      dsimp only at hle ⊢
      omega

/-- The tokens of a text come in order, each where its lexeme stands, and the end last. -/
theorem tokenize_placed {ts : List Token} (h : tokenize us = .ok ts) :
    ∃ body, ts = body ++ [⟨.eof, us.length⟩] ∧ Spelled (body.map Token.kind) us ∧
      body.Pairwise (fun t u => t.pos < u.pos) ∧
      ∀ t ∈ body, ∃ units tail, us.drop t.pos = units ++ tail ∧ Lexeme units (some t.kind) ∧
        Stops (units, some t.kind) tail := by
  obtain ⟨ws, hchain, rfl, rfl⟩ := tokenize_eq_ok.1 h
  refine ⟨layout 0 ws, rfl, ?_, layout_sorted hchain, ?_⟩
  · exact (spelled_iff (0, [])).2 ⟨ws, hchain, rfl, layout_kinds 0 ws⟩
  · intro t ht
    exact layout_pos hchain t (show t ∈ layout [].length ws from ht)

/-- `-1 a`: a number and a name. -/
theorem tokenize_placed_number :
    ∃ body, [⟨.int "-1", 0⟩, ⟨.name "a", 3⟩, ⟨.eof, 4⟩] = body ++ [(⟨.eof, 4⟩ : Token)] ∧
      Spelled (body.map Token.kind) [0x2D, 0x31, 0x20, 0x61] ∧
      body.Pairwise (fun t u => t.pos < u.pos) ∧
      ∀ t ∈ body, ∃ units tail, [0x2D, 0x31, 0x20, 0x61].drop t.pos = units ++ tail ∧
        Lexeme units (some t.kind) ∧ Stops (units, some t.kind) tail :=
  @tokenize_placed [0x2D, 0x31, 0x20, 0x61] _ rfl

/-! ### Errors -/

def PointsInto (n : Nat) (e : RequestError) : Prop := ∃ message, ∃ pos < n, e = parseError message pos

section errors

variable {n : Nat} {pre : List Nat → Prop}

theorem digits_fails {message : String} (hi : i < n) :
    Triple pre (digits message i) (fun _ _ => True) (PointsInto n) := by
  intro us _
  refine ⟨fun _ _ _ => trivial, fun e he => ?_⟩
  unfold digits at he
  split at he
  · exact ⟨message, i, hi, by simpa using he.symm⟩
  · simp at he

theorem oneOf_fails {cs : List Nat} :
    Triple pre (oneOf cs) (fun _ _ => True) (PointsInto n) := by
  intro us _
  refine ⟨fun _ _ _ => trivial, fun e he => ?_⟩
  cases us with
  | nil => simp [oneOf] at he
  | cons u us =>
    rw [oneOf] at he
    split at he <;> simp at he

theorem fraction_fails (hi : i < n) :
    Triple pre (fraction i) (fun _ _ => True) (PointsInto n) :=
  oneOf_fails.bind fun _ => .ite (fun _ => .pure fun _ _ => trivial)
    fun _ => (digits_fails hi).bind fun _ => .pure fun _ _ => trivial

theorem exponent_fails (hi : i < n) :
    Triple pre (exponent i) (fun _ _ => True) (PointsInto n) :=
  oneOf_fails.bind fun _ => .ite (fun _ => .pure fun _ _ => trivial)
    fun _ => oneOf_fails.bind fun _ => (digits_fails hi).bind fun _ => .pure fun _ _ => trivial

theorem numberToken_fails (hi : i < n) :
    Triple pre (numberToken i) (fun _ _ => True) (PointsInto n) :=
  oneOf_fails.bind fun _ => (digits_fails hi).bind fun _ => (fraction_fails hi).bind fun _ =>
    (exponent_fails hi).bind fun _ => .ite (fun _ => .pure fun _ _ => trivial)
      fun _ => .pure fun _ _ => trivial

theorem stringStep_fails (s : Nat × List Nat) :
    Triple (fun us => s.1 + us.length = n ∧ inString us = true) (stringStep s)
      (fun s' us => s'.1 + us.length = n) (PointsInto n) := by
  rintro us ⟨hpos, hgo⟩
  obtain ⟨i, value⟩ := s
  constructor
  · intro s' rest h
    obtain ⟨⟨v, units⟩, -, -, rfl, hus⟩ := stringStep_sound (i, value) us s' rest hgo h
    have hlength := congrArg List.length hus
    simp only [List.map_id, List.length_append] at hlength
    simp only [characters] at hlength ⊢
    omega
  · intro e he
    cases us with
    | nil => simp [inString] at hgo
    | cons u us =>
      have hi : i < n := by simp only [List.length_cons] at hpos; omega
      simp only [stringStep] at he
      split at he
      · split at he
        · exact ⟨_, i, hi, by simpa using he.symm⟩
        · split at he
          · simp at he
          · split at he
            · split at he
              · simp at he
              · exact ⟨_, i, hi, by simpa using he.symm⟩
            · exact ⟨_, i, hi, by simpa using he.symm⟩
      · simp at he

theorem stringToken_fails (hi : i < n) :
    Triple (fun us => i + 1 + us.length = n) (stringToken i) (fun _ _ => True) (PointsInto n) := by
  have hclose : Triple (fun _ => True) (closeString i) (fun _ _ => True) (PointsInto n) := by
    intro us _
    refine ⟨fun _ _ _ => trivial, fun e he => ?_⟩
    cases us with
    | nil => exact ⟨_, i, hi, by simpa [closeString] using he.symm⟩
    | cons u us =>
      rw [closeString] at he
      split at he
      · simp at he
      · exact ⟨_, i, hi, by simpa using he.symm⟩
  refine Triple.bind (Triple.loop stuck stringStep_fails
    (stringStep_sound.shorter fun _ _ hc => hc.ne_nil) (i + 1, [])) fun s => ?_
  exact (hclose.of_imp fun _ _ => trivial).bind fun _ => .pure fun _ _ => trivial

theorem lexeme_fails {us : List Nat} (hpos : i + us.length = n) :
    ∀ e, lexeme i us = .error e → PointsInto n e := by
  intro e he
  cases us with
  | nil => simp [lexeme] at he
  | cons ch us =>
    have hlength : i + 1 + us.length = n := by simp only [List.length_cons] at hpos; omega
    have hi : i < n := by omega
    simp only [lexeme] at he
    split at he
    · simp at he
    · split at he
      · simp at he
      · split at he
        · simp at he
        · split at he
          · simp at he
          · split at he
            · simp at he
            · split at he
              · have hnumber : Triple (fun _ => True) (some <$> numberToken i) (fun _ _ => True)
                    (PointsInto n) := (numberToken_fails hi).map
                exact (hnumber (ch :: us) trivial).2 e he
              · split at he
                · exact ((stringToken_fails hi).map us hlength).2 e he
                · exact ⟨_, i, hi, by simpa using he.symm⟩

theorem lexStep_fails (s : Nat × List Token) :
    Triple (fun us => s.1 + us.length = n ∧ (!us.isEmpty) = true) (lexStep s)
      (fun s' us => s'.1 + us.length = n) (PointsInto n) := by
  rintro us ⟨hpos, hgo⟩
  constructor
  · intro s' rest h
    obtain ⟨⟨units, k⟩, -, -, rfl, hus⟩ := lexStep_sound s us s' rest hgo h
    have hlength := congrArg List.length hus
    simp only [List.map_id, List.length_append] at hlength
    simp only [lexemes] at hlength ⊢
    omega
  · intro e he
    simp only [lexStep] at he
    split at he
    · rename_i e' hlexeme
      obtain rfl : e' = e := by simpa using he
      exact lexeme_fails hpos e' hlexeme
    · simp at he

/-- A text that spells no tokens is refused at one of its units. -/
theorem tokenize_fails {e : RequestError} (h : tokenize us = .error e) :
    PointsInto us.length e := by
  have hloop := Triple.loop stuck (lexStep_fails (n := us.length))
    (lexStep_sound.shorter fun _ _ hw => hw.ne_nil) (0, []) us (by simp)
  unfold tokenize at h
  split at h
  · rename_i e' hrun
    obtain rfl : e' = e := by simpa using h
    exact hloop.2 e' hrun
  · simp at h

end errors

end SorobanLens.GraphQL
