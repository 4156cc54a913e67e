import SorobanLens.Api.GraphQL.DocumentParsing
import SorobanLens.Api.GraphQL.Spelling

/-!
The language of documents: what the front end accepts, and how it refuses the rest.
-/

set_option autoImplicit false

namespace SorobanLens.GraphQL

open TokenParser

/-! ### Refusals -/

/-- Why a document of `n` units is refused: a syntax error at one of its places, no
operation, too deep a nesting, or a fragment defined twice. -/
inductive Refused (n : Nat) : RequestError → Prop where
  | syntaxError (message : String) {pos : Nat} : pos ≤ n → Refused n (parseError message pos)
  | empty : Refused n ⟨.parseFailed, "The document contains no operation."⟩
  | nesting : Refused n tooDeep
  | fragment (name : String) :
      Refused n (invalid ("Fragment \"" ++ name ++ "\" is defined more than once."))

structure Ended (n : Nat) (ts : List Token) : Prop where
  last : ∃ t, ts.getLast? = some t ∧ t.kind = .eof
  pos : ∀ t ∈ ts, t.pos ≤ n

/-- A reader that never takes the end, and fails as a document is refused. -/
abbrev Safe {α : Type} (n : Nat) (p : Reader α) : Prop :=
  Triple (Ended n) p (fun _ => Ended n) (Refused n)

section safe

variable {n : Nat} {α β σ : Type} {p q : Reader α}

theorem Ended.tail {ts : List Token} (h : Ended n ts) (hkind : (tokenAt ts).kind ≠ .eof) :
    Ended n ts.tail := by
  obtain ⟨⟨t, hlast, heof⟩, hpos⟩ := h
  cases ts with
  | nil => simp at hlast
  | cons u us =>
    cases us with
    | nil =>
      obtain rfl : u = t := by simpa using hlast
      exact absurd heof hkind
    | cons v vs =>
      exact ⟨⟨t, by simpa using hlast, heof⟩, fun w hw => hpos w (List.mem_cons_of_mem u hw)⟩

theorem Ended.here {ts : List Token} (h : Ended n ts) : (tokenAt ts).pos ≤ n := by
  obtain ⟨⟨t, hlast, -⟩, hpos⟩ := h
  cases ts with
  | nil => simp at hlast
  | cons u us => exact hpos u List.mem_cons_self

theorem safe_failHere (message : String) : Safe n (failHere message : Reader α) := by
  intro ts hts
  refine ⟨by simp [failHere], fun e he => ?_⟩
  obtain rfl : parseError message (tokenAt ts).pos = e := by simpa [failHere] using he
  exact .syntaxError message hts.here

theorem safe_failWith {e : RequestError} (h : Refused n e) : Safe n (failWith e : Reader α) := by
  intro ts _
  refine ⟨by simp [failWith], fun e' he => ?_⟩
  obtain rfl : e = e' := by simpa [failWith] using he
  exact h

theorem safe_pure (a : α) : Safe n (pure a : Reader α) := .pure fun _ h => h

theorem safe_map {f : α → β} (hp : Safe n p) : Safe n (f <$> p) := by
  rw [map_eq_pure_bind]
  exact hp.bind fun _ => safe_pure _

theorem safe_takeKind {k : TokenKind} {message : String} (hk : k ≠ .eof) :
    Safe n (takeKind k message) := by
  intro ts hts
  unfold takeKind ifNext
  split
  · rename_i hkind
    have hkind' : (tokenAt ts).kind = k := by simpa using hkind
    refine ⟨fun a rest h => ?_, by simp [advance]⟩
    obtain rfl : ts.tail = rest := by simpa [advance] using h
    exact hts.tail (by rwa [hkind'])
  · exact safe_failHere message ts hts

theorem safe_expectPunct (value : String) : Safe n (expectPunct value) := safe_takeKind (by simp)

theorem safe_expectName : Safe n expectName := by
  intro ts hts
  unfold expectName
  split
  · rename_i name hkind
    refine ⟨fun a rest h => ?_, by simp⟩
    obtain ⟨-, rfl⟩ : name = a ∧ ts.tail = rest := by simpa using h
    exact hts.tail (by simp [hkind])
  · exact safe_failHere _ ts hts

theorem safe_choice {k : TokenKind} (hk : k ≠ .eof) (hp : Safe n p) (hq : Safe n q) :
    Safe n (ifNext (fun ts => (tokenAt ts).kind = k) (advance >>= fun _ => p) q) := by
  rw [ifNext_advance k ""]
  exact .choice ((safe_takeKind hk).bind fun _ => hp) hq

theorem safe_punct (value : String) (hp : Safe n p) (hq : Safe n q) :
    Safe n (ifNext (isPunct value) (advance >>= fun _ => p) q) :=
  safe_choice (k := .punct value) (by simp) hp hq

theorem safe_word (value : String) (hp : Safe n p) (hq : Safe n q) :
    Safe n (ifNext (isName value) (advance >>= fun _ => p) q) :=
  safe_choice (k := .name value) (by simp) hp hq

theorem safe_loop (go : List Token → Bool) {I : Items TokenKind σ β} {step : σ → Reader σ}
    {follow : List TokenKind → Prop} (hstep : ∀ s, Safe n (step s))
    (hreads : ∀ s, Reads Token.kind (step s) (I.round s) follow)
    (htokens : ∀ s w, I.allowed s w → I.tokens w ≠ []) (s : σ) :
    Safe n (repeatWhile stuck go step s) := by
  intro ts hts
  have hrounds : ∀ s, Triple (fun ts => Ended n ts ∧ go ts = true) (step s) (fun _ => Ended n)
      (Refused n) := fun s => (hstep s).of_imp fun _ h => h.1
  have hloop := Triple.loop stuck hrounds (fun s ts s' rest _ h => Reads.shorter hreads htokens s ts s' rest h) s ts hts
  exact ⟨fun s' rest h => (hloop.1 s' rest h).1, hloop.2⟩

/-! ### The functions of the parser -/

variable (number : String → JsNumber) {left : Nat} {isConst : Bool}

theorem safe_literal : Safe n (literal number) := by
  intro ts hts
  have htail : (tokenAt ts).kind ≠ .eof → ∀ (v : ValueNode) (w : ValueNode) rest,
      (Except.ok (v, ts.tail) : Except RequestError (ValueNode × List Token)) = .ok (w, rest) →
        Ended n rest := by
    intro hkind v w rest h
    obtain ⟨-, rfl⟩ : v = w ∧ ts.tail = rest := by simpa using h
    exact hts.tail hkind
  unfold literal
  split
  case h_1 => exact safe_failHere _ ts hts
  case h_6 => exact safe_failHere _ ts hts
  all_goals
    rename_i hkind
    exact ⟨htail (by simp [hkind]) _, by simp⟩

theorem safe_variableReference {q : Reader ValueNode} (hq : Safe n q) :
    Safe n (ifNext (isPunct "$") (variableReference isConst) q) := by
  cases isConst with
  | true => exact .choice (safe_failHere _) hq
  | false => exact safe_punct "$" (safe_expectName.bind fun _ => safe_pure _) hq

theorem safe_closed {f : σ → Reader α} {s : σ} {step : σ → Reader σ} {value : String}
    (hloop : Safe n (repeatWhile stuck (fun ts => !isPunct value ts) step s))
    (hf : ∀ s, Safe n (f s)) :
    Safe n (repeatWhile stuck (fun ts => !isPunct value ts) step s >>= fun a =>
      advance >>= fun _ => f a) := by
  rw [loop_advance]
  exact hloop.bind fun _ => (safe_expectPunct value).bind fun _ => hf _

section value

variable {value : Reader ValueNode} {V : List TokenKind → ValueNode → Prop}

theorem safe_listItems (hreads : Parses value V) (hopens : ∀ ks v, V ks v → Opens [] ks)
    (hvalue : Safe n value) : Safe n (listItems value) := by
  have hstep : ∀ items, Safe n (listStep value items) :=
    fun _ => .choice (safe_failHere _) (safe_map hvalue)
  have hloop := safe_loop (fun ts => !isPunct "]" ts) hstep
    (fun s => guard_parses (hreads.collect s) fun w hw => hopens w.1 w.2 hw)
    (fun _ w hw => (hopens w.1 w.2 hw).1) []
  exact safe_closed hloop fun _ => safe_pure _

theorem safe_objectStep (hvalue : Safe n value) (fields : List (String × ValueNode)) :
    Safe n (objectStep value fields) :=
  .choice (safe_failHere _) (safe_expectName.bind fun _ => (safe_expectPunct ":").bind fun _ =>
    hvalue.bind fun _ => safe_pure _)

theorem safe_objectFields (hreads : Parses value V) (hvalue : Safe n value) :
    Safe n (objectFields value) := by
  have hloop := safe_loop (fun ts => !isPunct "\x7d" ts) (safe_objectStep hvalue) (objectStep_parses hreads)
    (fun _ _ _ => by simp [members, named]) []
  exact safe_closed hloop fun _ => safe_pure _

theorem safe_argumentStep (hvalue : Safe n value) (args : List (String × ValueNode)) :
    Safe n (argumentStep value args) :=
  safe_expectName.bind fun _ => (safe_expectPunct ":").bind fun _ =>
    .ite (fun _ => safe_failHere _) fun _ => hvalue.bind fun _ => safe_pure _

end value

theorem safe_parseValue (left : Nat) : Safe n (parseValue number left isConst) := by
  induction left with
  | zero =>
    exact safe_variableReference (safe_punct "[" (safe_failWith .nesting)
      (safe_punct "\x7b" (safe_failWith .nesting) (safe_literal number)))
  | succ left ih =>
    have hreads := parseValue_parses number left isConst
    exact safe_variableReference (safe_punct "["
      (safe_listItems hreads (fun ks v h => h.opens.mono (by simp)) ih)
      (safe_punct "\x7b" (safe_objectFields hreads ih) (safe_literal number)))

theorem safe_parseArguments : Safe n (parseArguments (parseValue number left false)) := by
  have hloop := safe_loop (fun ts => !isPunct ")" ts) (safe_argumentStep (safe_parseValue number left (n := n)))
    (argumentStep_parses (parseValue_parses number left false))
    (fun _ _ _ => by simp [arguments, named]) []
  exact (safe_expectPunct "(").bind fun _ => hloop.bind fun _ => (safe_expectPunct ")").bind fun _ =>
    safe_pure _

theorem safe_optionalArguments : Safe n (optionalArguments (parseValue number left false)) :=
  .choice (safe_parseArguments number) (safe_pure _)

theorem safe_parseDirectives : Safe n (parseDirectives (parseValue number left false)) := by
  have hstep : ∀ directives, Safe n (expectPunct "@" >>= fun _ => expectName >>= fun name =>
      optionalArguments (parseValue number left false) >>= fun args =>
        pure (directives ++ [(⟨name, args⟩ : DirectiveNode)])) :=
    fun _ => (safe_expectPunct "@").bind fun _ => safe_expectName.bind fun _ =>
      (safe_optionalArguments number).bind fun _ => safe_pure _
  rw [parseDirectives_eq]
  refine safe_loop _ hstep (directive_parses number) (fun s w hw => ?_) []
  obtain ⟨ks, hks⟩ := directive_tokens s w hw
  simp [hks]

theorem safe_typeCondition : Safe n typeCondition :=
  safe_word "on" (safe_expectName.bind fun _ => safe_pure _) (safe_pure _)

theorem safe_aliasedName : Safe n aliasedName :=
  safe_expectName.bind fun _ => safe_punct ":" (safe_expectName.bind fun _ => safe_pure _) (safe_pure _)

theorem safe_parseSelection {set : Reader (List SelectionNode)} (hset : Safe n set) :
    Safe n (parseSelection (parseValue number left false) set) := by
  have hspread : Safe n (fragmentSpread (parseValue number left false)) :=
    safe_expectName.bind fun _ => (safe_parseDirectives number).bind fun _ => safe_pure _
  have hinline : Safe n (inlineFragment (parseValue number left false) set) :=
    safe_typeCondition.bind fun _ => (safe_parseDirectives number).bind fun _ => hset.bind fun _ =>
      safe_pure _
  have hfield : Safe n (fieldSelection (parseValue number left false) set) :=
    safe_aliasedName.bind fun _ => (safe_optionalArguments number).bind fun _ =>
      (safe_parseDirectives number).bind fun _ => (Triple.choice hset (safe_pure _)).bind fun _ =>
        safe_pure _
  exact safe_punct "..." (.choice hspread hinline) hfield

theorem safe_parseSelectionSet (left : Nat) : Safe n (parseSelectionSet number left) := by
  induction left with
  | zero => exact (safe_expectPunct "\x7b").bind fun _ => safe_failWith .nesting
  | succ left ih =>
    have hreads := parseSelection_parses (parseSelectionSet_parses number left)
    have hstep : ∀ selections, Safe n (selectionStep
        (parseSelection (parseValue number left false) (parseSelectionSet number left)) selections) :=
      fun _ => .choice (safe_failHere _) (safe_map (safe_parseSelection number ih))
    have hloop := safe_loop (fun ts => !isPunct "\x7d" ts) hstep
      (fun s => guard_parses (hreads.collect s) fun w hw => SelectionTokens.opens hw |>.mono (by simp))
      (fun _ w hw => (SelectionTokens.opens hw).1) []
    have hitems : Safe n (setItems
        (parseSelection (parseValue number left false) (parseSelectionSet number left))) :=
      safe_closed hloop fun _ => .ite (fun _ => safe_failHere _) fun _ => safe_pure _
    exact (safe_expectPunct "\x7b").bind fun _ => hitems

theorem safe_typeWith {list : Reader String} (hlist : Safe n list) : Safe n (typeWith list) :=
  (safe_punct "[" hlist safe_expectName).bind fun _ => safe_punct "!" (safe_pure _) (safe_pure _)

theorem safe_parseType (left : Nat) : Safe n (parseType left) := by
  induction left with
  | zero => exact safe_typeWith (safe_failWith .nesting)
  | succ left ih =>
    have hlist : Safe n (listType (parseType left)) :=
      ih.bind fun _ => (safe_expectPunct "]").bind fun _ => safe_pure _
    exact safe_typeWith hlist

theorem safe_variableStep (defs : List VariableDefinition) : Safe n (variableStep number defs) := by
  have hdefault : Safe n (defaultValue number) :=
    safe_punct "=" ((safe_parseValue number _).bind fun _ => safe_pure _) (safe_pure _)
  exact (safe_expectPunct "$").bind fun _ => safe_expectName.bind fun _ =>
    (safe_expectPunct ":").bind fun _ => (safe_parseType _).bind fun _ => hdefault.bind fun _ =>
      (safe_parseDirectives number).bind fun _ => safe_pure _

theorem safe_parseVariableDefinitions : Safe n (parseVariableDefinitions number) := by
  have htokens : ∀ (s : List VariableDefinition) w,
      (Items.collect (VariableTokens number)).allowed s w →
        (Items.collect (VariableTokens number)).tokens w ≠ [] := by
    rintro s ⟨ks, d⟩ hd
    cases hd with
    | mk htype hdefault hdirectives => simp [Items.collect]
  have hloop := safe_loop (fun ts => !isPunct ")" ts) (safe_variableStep number (n := n))
    (variableStep_parses number) htokens []
  exact (safe_expectPunct "(").bind fun _ => hloop.bind fun _ => (safe_expectPunct ")").bind fun _ =>
    safe_pure _

theorem safe_definitionStep (doc : DocumentNode) : Safe n (definitionStep number doc) := by
  have hset := safe_parseSelectionSet number MAX_PARSE_NESTING (n := n)
  have hoperation : ∀ type, Safe n
      (ifNext isAnyName (some <$> expectName) (pure none) >>= fun name =>
        ifNext (isPunct "(") (parseVariableDefinitions number) (pure []) >>= fun vars =>
          parseDirectives (parseValue number MAX_PARSE_NESTING false) >>= fun _ =>
            parseSelectionSet number MAX_PARSE_NESTING >>= fun selections =>
              pure (addOperation doc ⟨type, name, vars, selections⟩)) :=
    fun _ => (Triple.choice (safe_map safe_expectName) (safe_pure _)).bind fun _ =>
      (Triple.choice (safe_parseVariableDefinitions number) (safe_pure _)).bind fun _ =>
        (safe_parseDirectives number).bind fun _ => hset.bind fun _ => safe_pure _
  have hfragment : Safe n (expectName >>= fun name =>
      if name = "on" then failHere "\"on\" is not a valid fragment name" else
        expectName >>= fun on => if on ≠ "on" then failHere "expected \"on\"" else
          expectName >>= fun condition =>
            parseDirectives (parseValue number MAX_PARSE_NESTING false) >>= fun _ =>
              if doc.fragments.any (fun f => f.name == name) then
                failWith (invalid ("Fragment \"" ++ name ++ "\" is defined more than once."))
              else parseSelectionSet number MAX_PARSE_NESTING >>= fun selections =>
                pure (addFragment doc ⟨name, condition, selections⟩)) :=
    safe_expectName.bind fun name => .ite (fun _ => safe_failHere _) fun _ =>
      safe_expectName.bind fun _ => .ite (fun _ => safe_failHere _) fun _ =>
        safe_expectName.bind fun _ => (safe_parseDirectives number).bind fun _ =>
          .ite (fun _ => safe_failWith (.fragment name)) fun _ => hset.bind fun _ => safe_pure _
  exact .choice (hset.bind fun _ => safe_pure _) (safe_word "fragment" hfragment
    (safe_word "query" (hoperation .query) (safe_word "mutation" (hoperation .mutation)
      (safe_word "subscription" (hoperation .subscription) (safe_failHere _)))))

end safe

/-! ### The language -/

variable {number : String → JsNumber} {us : List Nat} {ks : List TokenKind}

theorem Spelled.eof_notMem (h : Spelled ks us) : .eof ∉ ks := by
  induction h with
  | done => simp
  | skip hunits hstops hrest ih => exact ih
  | token hunits hstops hrest ih =>
    simp only [List.mem_cons, not_or]
    refine ⟨?_, ih⟩
    rintro rfl
    cases hunits

theorem tokenize_ended {ts : List Token} (h : tokenize us = .ok ts) : Ended us.length ts := by
  obtain ⟨ws, hchain, rfl, rfl⟩ := tokenize_eq_ok.1 h
  refine ⟨⟨⟨.eof, (lexemes.written ws).length⟩, by simp, rfl⟩, fun t ht => ?_⟩
  rw [List.mem_append, List.mem_singleton] at ht
  obtain ht | rfl := ht
  · obtain ⟨units, tail, hdrop, hunits, -⟩ := layout_pos hchain t (show t ∈ layout [].length ws from ht)
    have hlength := congrArg List.length hdrop
    have hpos := List.length_pos_iff.2 hunits.ne_nil
    simp only [List.nil_append, List.length_drop, List.length_append] at hlength
    omega
  · exact Nat.le_refl _

theorem safe_documentTokens (n : Nat) : Safe n (documentTokens number) := by
  have hloop := safe_loop (fun ts => !isEof ts) (safe_definitionStep number (n := n))
    (definitionStep_parses number) (fun _ w hw => hw.1.opens.1) ⟨[], []⟩
  exact hloop.bind fun _ => .ite (fun _ => safe_failWith .empty) fun _ => safe_pure _

theorem documentTokens_stop {ts rest : List Token} {doc : DocumentNode}
    (h : documentTokens number ts = .ok (doc, rest)) : isEof rest = true := by
  obtain ⟨doc', mid, hloop, h⟩ := bind_ok_iff.1 h
  have hstop : isEof mid = true := by simpa using repeatWhile_stop hloop
  split at h
  · cases h
  · obtain ⟨-, rfl⟩ := pure_ok_iff.1 h
    exact hstop

theorem documentTokens_eq_ok {ts : List Token} {doc : DocumentNode} {n : Nat} (hts : Ended n ts)
    (hkinds : ts.map Token.kind = ks ++ [.eof]) (heof : .eof ∉ ks) :
    (∃ rest, documentTokens number ts = .ok (doc, rest)) ↔ DocumentTokens number ks doc := by
  constructor
  · rintro ⟨rest, h⟩
    obtain ⟨ks', hks', hsplit⟩ := (documentTokens_parses number).sound h
    obtain ⟨⟨t, hlast, -⟩, -⟩ := (safe_documentTokens n ts hts).1 doc rest h
    have hstop := documentTokens_stop h
    cases rest with
    | nil => simp at hlast
    | cons r rest =>
      have hr : r.kind = .eof := by simpa [isEof, tokenAt] using hstop
      -- The end stands last and nowhere else, so the parser has read all of `ks`.
      rw [hkinds, List.map_cons, hr] at hsplit
      obtain ⟨mid, hmid, htail⟩ | ⟨mid, hmid, htail⟩ := List.append_eq_append_iff.1 hsplit
      · cases mid with
        | nil => simpa [hmid] using hks'
        | cons k mid => simp at htail
      · cases mid with
        | nil => simpa [hmid] using hks'
        | cons k mid =>
          obtain rfl : k = .eof := by simpa using (List.cons.inj htail).1.symm
          exact absurd (by simp [hmid]) heof
  · intro h
    obtain ⟨rest, hread, -⟩ := (documentTokens_parses number).complete h hkinds rfl
    exact ⟨rest, hread⟩

/-- The front end accepts the texts that spell the tokens of a document, and returns
that document. -/
theorem parseDocument_iff {doc : DocumentNode} :
    parseDocument number us = .ok doc ↔ ∃ ks, Spelled ks us ∧ DocumentTokens number ks doc := by
  constructor
  · intro h
    unfold parseDocument at h
    split at h
    · cases h
    · rename_i ts htokens
      obtain ⟨ws, hchain, hus, hts⟩ := tokenize_eq_ok.1 htokens
      have hkinds : ts.map Token.kind = ws.filterMap Prod.snd ++ [.eof] := by
        simp [hts, layout_kinds]
      have hspelled := tokenize_iff_spelled.1 ⟨ts, htokens, hkinds⟩
      split at h
      · cases h
      · rename_i doc' rest hread
        obtain rfl : doc' = doc := by simpa using h
        exact ⟨_, hspelled, (documentTokens_eq_ok (tokenize_ended htokens) hkinds
          hspelled.eof_notMem).1 ⟨rest, hread⟩⟩
  · rintro ⟨ks, hspelled, hdoc⟩
    obtain ⟨ts, htokens, hkinds⟩ := tokenize_iff_spelled.2 hspelled
    obtain ⟨rest, hread⟩ := (documentTokens_eq_ok (tokenize_ended htokens) hkinds
      hspelled.eof_notMem).2 hdoc
    simp [parseDocument, htokens, hread]

/-- A text that is no document is refused, with a reason that points into it. -/
theorem parseDocument_refused {e : RequestError} (h : parseDocument number us = .error e) :
    Refused us.length e := by
  unfold parseDocument at h
  split at h
  · rename_i e' htokens
    obtain rfl : e' = e := by simpa using h
    obtain ⟨message, pos, hpos, rfl⟩ := tokenize_fails htokens
    exact .syntaxError message (Nat.le_of_lt hpos)
  · rename_i ts htokens
    split at h
    · rename_i e' hread
      obtain rfl : e' = e := by simpa using h
      exact (safe_documentTokens us.length ts (tokenize_ended htokens)).2 e' hread
    · cases h

/-- `a`: no definition starts so. -/
theorem parseDocument_refused_name :
    Refused 1 (parseError "expected an operation or a fragment" 0) :=
  @parseDocument_refused (fun _ => .nan) [0x61] _ rfl

end SorobanLens.GraphQL
