import SorobanLens.Api.GraphQL.Parsing

/-!
Selections, variables and definitions: the parser reads the grammar, up to whole
documents.
-/

set_option autoImplicit false

namespace SorobanLens.GraphQL

open TokenParser

variable {number : String → JsNumber} {left : Nat}

/-! ### What parts start with -/

theorem ArgumentTokens.start {ks : List TokenKind} {args : List (String × ValueNode)}
    (h : ArgumentTokens number left ks args) : ks = [] ∨ next ks = .punct "(" := by
  cases h with
  | absent => exact .inl rfl
  | present => exact .inr rfl

theorem DirectivesTokens.start {ks : List TokenKind} {directives : List DirectiveNode}
    (h : DirectivesTokens number left ks directives) : ks = [] ∨ next ks = .punct "@" := by
  obtain ⟨items, hall, rfl, rfl⟩ := h
  cases items with
  | nil => exact .inl rfl
  | cons i items =>
    obtain ⟨ks, d⟩ := i
    have hd := hall _ List.mem_cons_self
    cases hd with
    | mk hargs => exact .inr rfl

theorem SetTokens.start {ks : List TokenKind} {selections : List SelectionNode}
    (h : SetTokens number left ks selections) : next ks = .punct "\x7b" := by
  cases h with
  | mk hne hall => rfl

theorem next_append {ks tail : List TokenKind} {first : TokenKind} (h : next ks = first)
    (hfirst : first ≠ .eof) : next (ks ++ tail) = first := by
  cases ks with
  | nil => exact absurd h.symm hfirst
  | cons k ks => exact h

theorem next_optional {ks tail : List TokenKind} {first k : TokenKind}
    (h : ks = [] ∨ next ks = first) (hfirst : first ≠ .eof) (hne : first ≠ k) (htail : next tail ≠ k) :
    next (ks ++ tail) ≠ k := by
  obtain rfl | h := h
  · exact htail
  · rwa [next_append h hfirst]

theorem SelectionTokens.opens {ks : List TokenKind} {s : SelectionNode}
    (h : SelectionTokens number left ks s) : Opens ["\x7d", ":", "(", "@", "\x7b"] ks := by
  cases h with
  | leaf hname hargs hdirectives => cases hname <;> simp [Opens, Clear]
  | node hname hargs hdirectives hset => cases hname <;> simp [Opens, Clear]
  | spread hname hdirectives => simp [Opens, Clear]
  | inline hcondition hdirectives hset => simp [Opens, Clear]

/-! ### Selections -/

theorem typeCondition_parses :
    Reads Token.kind typeCondition ConditionTokens (fun tail => next tail ≠ .name "on") := by
  refine (word_parses "on" (name_parses fun name => (Reads.pure (some name)).congr (fun _ _ => Iff.rfl)
    (fun _ _ => trivial)) ((Reads.pure none).congr (fun _ _ => Iff.rfl) (fun _ _ => trivial)) ?_).congr
    (fun ks condition => ?_) (fun _ h => h)
  · rintro ks a tail ⟨rfl, rfl⟩ htail
    exact htail
  · constructor
    · rintro (⟨_, rfl, name, _, rfl, rfl, rfl⟩ | ⟨rfl, rfl⟩)
      · exact .present name
      · exact .absent
    · intro h
      cases h with
      | absent => exact .inr ⟨rfl, rfl⟩
      | present name => exact .inl ⟨_, rfl, name, _, rfl, rfl, rfl⟩

theorem aliasedName_parses :
    Reads Token.kind aliasedName FieldNameTokens (fun tail => next tail ≠ .punct ":") := by
  refine (name_parses fun first => optional_parses ":" (name_parses fun name =>
    Reads.pure ((some first, name) : Option String × String))).congr (fun ks name => ?_)
    (fun _ h => ⟨trivial, h⟩)
  constructor
  · rintro ⟨first, _, rfl, (⟨_, rfl, name, _, rfl, rfl, rfl⟩ | ⟨rfl, rfl⟩)⟩
    · exact .aliased first name
    · exact .plain first
  · intro h
    cases h with
    | plain name => exact ⟨name, _, rfl, .inr ⟨rfl, rfl⟩⟩
    | aliased first name => exact ⟨first, _, rfl, .inl ⟨_, rfl, name, _, rfl, rfl, rfl⟩⟩

section selections

variable {set : Reader (List SelectionNode)}

theorem inlineFragment_parses (hset : Parses set (SetTokens number left)) :
    Parses (inlineFragment (parseValue number left false) set) (fun ks s =>
      ∃ kc kd ks' condition directives selections, ConditionTokens kc condition ∧
        DirectivesTokens number left kd directives ∧ SetTokens number left ks' selections ∧
        ks = kc ++ (kd ++ ks') ∧ s = .inline condition directives selections) := by
  refine (typeCondition_parses.bind (fun condition => (parseDirectives_parses number).bind
    (fun directives => hset.map (SelectionNode.inline condition directives)) ?_) ?_).congr
    (fun ks s => ?_) (fun _ h => h)
  · rintro directives ks s tail ⟨selections, hselections, rfl⟩ - value hvalue
    rw [next_append hselections.start (by simp)]
    rintro ⟨rfl⟩
    simp at hvalue
  · rintro condition _ s tail ⟨kd, directives, ks, hdirectives, ⟨selections, hselections, rfl⟩, rfl⟩ -
    rw [List.append_assoc]
    refine next_optional hdirectives.start (by simp) (by simp) ?_
    rw [next_append hselections.start (by simp)]
    simp
  · constructor
    · rintro ⟨kc, condition, _, hcondition, ⟨kd, directives, ks, hdirectives, ⟨selections, hset, rfl⟩, rfl⟩, rfl⟩
      exact ⟨kc, kd, ks, condition, directives, selections, hcondition, hdirectives, hset, rfl, rfl⟩
    · rintro ⟨kc, kd, ks, condition, directives, selections, hcondition, hdirectives, hset, rfl, rfl⟩
      exact ⟨kc, condition, _, hcondition, ⟨kd, directives, ks, hdirectives, ⟨selections, hset, rfl⟩,
        rfl⟩, rfl⟩

abbrev fieldStops : List String := [":", "(", "@", "\x7b"]

theorem fieldSelection_parses (hset : Parses set (SetTokens number left)) :
    Reads Token.kind (fieldSelection (parseValue number left false) set) (fun ks s =>
      ∃ kn ka kd ks' name args directives selections, FieldNameTokens kn name ∧
        ArgumentTokens number left ka args ∧ DirectivesTokens number left kd directives ∧
        (SetTokens number left ks' selections ∨ ks' = [] ∧ selections = []) ∧
        ks = kn ++ (ka ++ (kd ++ ks')) ∧ s = .field name.1 name.2 args directives selections)
      (Clear fieldStops) := by
  have hrest : Reads Token.kind (ifNext (isPunct "\x7b") set (pure []))
      (fun ks selections => SetTokens number left ks selections ∨ ks = [] ∧ selections = [])
      (Clear fieldStops) := by
    refine (part_parses "\x7b" hset ?_).congr (fun _ _ => Iff.rfl) (fun _ h => ⟨trivial, h _ (by simp)⟩)
    intro ks selections h
    cases h with
    | mk hne hall => exact ⟨_, rfl⟩
  have hstart : ∀ {ks : List TokenKind} {selections : List SelectionNode},
      SetTokens number left ks selections ∨ ks = [] ∧ selections = [] →
        ks = [] ∨ next ks = .punct "\x7b" := by
    rintro ks selections (h | ⟨rfl, -⟩)
    · exact .inr h.start
    · exact .inl rfl
  refine (aliasedName_parses.bind (fun name => (optionalArguments_parses number).bind
    (fun args => (parseDirectives_parses number).bind
      (fun directives => hrest.map (SelectionNode.field name.1 name.2 args directives)) ?_) ?_) ?_).congr
    (fun ks s => ?_) (fun _ h => h)
  · rintro directives ks s tail ⟨selections, hselections, rfl⟩ htail value hvalue
    refine next_optional (hstart hselections) (by simp) ?_ (htail value ?_)
    · rintro ⟨rfl⟩
      simp at hvalue
    · simp only [List.mem_cons, List.not_mem_nil, or_false] at hvalue ⊢
      exact .inr (hvalue.imp_right .inl)
  · rintro args _ s tail ⟨kd, directives, ks, hdirectives, ⟨selections, hselections, rfl⟩, rfl⟩ htail
    rw [List.append_assoc]
    exact next_optional hdirectives.start (by simp) (by simp)
      (next_optional (hstart hselections) (by simp) (by simp) (htail _ (by simp)))
  · rintro name _ s tail ⟨ka, args, _, hargs, ⟨kd, directives, ks, hdirectives,
      ⟨selections, hselections, rfl⟩, rfl⟩, rfl⟩ htail
    rw [List.append_assoc, List.append_assoc]
    exact next_optional hargs.start (by simp) (by simp)
      (next_optional hdirectives.start (by simp) (by simp)
        (next_optional (hstart hselections) (by simp) (by simp) (htail _ (by simp))))
  · constructor
    · rintro ⟨kn, name, _, hname, ⟨ka, args, _, hargs, ⟨kd, directives, ks, hdirectives,
        ⟨selections, hselections, rfl⟩, rfl⟩, rfl⟩, rfl⟩
      exact ⟨kn, ka, kd, ks, name, args, directives, selections, hname, hargs, hdirectives, hselections,
        rfl, rfl⟩
    · rintro ⟨kn, ka, kd, ks, name, args, directives, selections, hname, hargs, hdirectives,
        hselections, rfl, rfl⟩
      exact ⟨kn, name, _, hname, ⟨ka, args, _, hargs, ⟨kd, directives, ks, hdirectives,
        ⟨selections, hselections, rfl⟩, rfl⟩, rfl⟩, rfl⟩

theorem fragmentSpread_checked (value : Reader ValueNode) (q : Reader SelectionNode) :
    ifNext isFragmentName (fragmentSpread value) q =
      ifNext isFragmentName (expectName >>= fun name => if name = "on" then failHere "" else
        parseDirectives value >>= fun directives => pure (.spread name directives)) q := by
  funext ts
  unfold ifNext
  split
  · rename_i hname
    unfold isFragmentName at hname
    split at hname
    · rename_i name hkind
      have hread : expectName ts = .ok (name, ts.tail) := by simp [expectName, hkind]
      rw [fragmentSpread, bind_of_ok hread, bind_of_ok hread, if_neg (by simpa using hname)]
    · cases hname
  · rfl

def nextFragmentName (ks : List TokenKind) : Bool :=
  match next ks with
  | .name value => value ≠ "on"
  | _ => false

theorem isFragmentName_eq (ts : List Token) :
    isFragmentName ts = nextFragmentName (ts.map Token.kind) := by
  rw [isFragmentName, tokenAt_kind]
  rfl

theorem parseSelection_parses (hset : Parses set (SetTokens number left)) :
    Reads Token.kind (parseSelection (parseValue number left false) set)
      (SelectionTokens number left) (Clear fieldStops) := by
  have hspread : Reads Token.kind (expectName >>= fun name => if name = "on" then failHere "" else
      parseDirectives (parseValue number left false) >>= fun directives =>
        pure (SelectionNode.spread name directives)) _ (Clear ["(", "@"]) :=
    name_parses fun name => Reads.unless (refuses_failHere "")
      ((parseDirectives_parses number).map (SelectionNode.spread name))
  have hbranch := Reads.choice nextFragmentName isFragmentName_eq
    hspread ((inlineFragment_parses hset).congr (fun _ _ => Iff.rfl) (fun _ _ => trivial)) ?_ ?_
  · rw [← fragmentSpread_checked] at hbranch
    refine (choice_parses "..." (hbranch.congr (fun _ _ => Iff.rfl) ?_) (fieldSelection_parses hset) ?_).congr
      (fun ks s => ?_) (fun _ h => h)
    · intro tail h value hvalue
      refine h value ?_
      simp only [List.mem_cons, List.not_mem_nil, or_false] at hvalue ⊢
      exact .inr (hvalue.imp_right .inl)
    · rintro ks s tail ⟨kn, ka, kd, ks', name, args, directives, selections, hname, -, -, -, rfl, -⟩ -
      cases hname <;> simp
    · constructor
      · rintro (⟨_, rfl, (⟨name, ks, rfl, hon, directives, hdirectives, rfl⟩ |
          ⟨kc, kd, ks, condition, directives, selections, hcondition, hdirectives, hset, rfl, rfl⟩)⟩ |
          ⟨kn, ka, kd, ks, name, args, directives, selections, hname, hargs, hdirectives,
            hset | ⟨rfl, rfl⟩, rfl, rfl⟩)
        · exact .spread hon hdirectives
        · exact .inline hcondition hdirectives hset
        · exact .node hname hargs hdirectives hset
        · rw [List.append_nil]
          exact .leaf hname hargs hdirectives
      · intro h
        cases h with
        | spread hon hdirectives => exact .inl ⟨_, rfl, .inl ⟨_, _, rfl, hon, _, hdirectives, rfl⟩⟩
        | inline hcondition hdirectives hset =>
          exact .inl ⟨_, rfl, .inr ⟨_, _, _, _, _, _, hcondition, hdirectives, hset, rfl, rfl⟩⟩
        | node hname hargs hdirectives hset =>
          exact .inr ⟨_, _, _, _, _, _, _, _, hname, hargs, hdirectives, .inl hset, rfl, rfl⟩
        | leaf hname hargs hdirectives =>
          exact .inr ⟨_, _, _, [], _, _, _, _, hname, hargs, hdirectives, .inr ⟨rfl, rfl⟩, by simp, rfl⟩
  · rintro ks s tail ⟨name, ks', rfl, hon, -⟩
    simpa [nextFragmentName] using hon
  · rintro ks s tail ⟨kc, kd, ks', condition, directives, selections, hcondition, hdirectives, hset,
      rfl, rfl⟩ -
    cases hcondition with
    | absent =>
      have hnext : ∃ value, next ([] ++ (kd ++ ks') ++ tail) = .punct value := by
        obtain rfl | hd := hdirectives.start
        · exact ⟨_, next_append hset.start (by simp)⟩
        · rw [List.nil_append, List.append_assoc]
          exact ⟨_, next_append hd (by simp)⟩
      obtain ⟨value, hvalue⟩ := hnext
      rw [nextFragmentName, hvalue]
    | present name => simp [nextFragmentName]

theorem setItems_parses {selection : Reader SelectionNode}
    (hselection : Reads Token.kind selection (SelectionTokens number left) (Clear fieldStops)) :
    Parses (setItems selection) (fun ks selections =>
      ∃ items : List (List TokenKind × SelectionNode), items ≠ [] ∧
        (∀ i ∈ items, SelectionTokens number left i.1 i.2) ∧
        ks = items.flatMap Prod.fst ++ [.punct "\x7d"] ∧ selections = items.map Prod.snd) := by
  have hitems := items_parses "\x7d" "unexpected end of document, expected \"\x7d\"" hselection
    (fun ks s h => h.opens)
  have hclosed := hitems.bind (fun selections => behind_parses "\x7d"
    (Reads.unless (c := selections.isEmpty = true)
      (refuses_failHere "a selection set must not be empty") (Reads.pure selections))) ?_
  · rw [setItems, loop_advance]
    refine hclosed.congr (fun ks selections => ?_) (fun _ h => h)
    constructor
    · rintro ⟨_, _, _, ⟨items, hall, rfl, rfl⟩, ⟨_, rfl, hne, rfl, rfl⟩, rfl⟩
      exact ⟨items, by simpa using hne, hall, rfl, rfl⟩
    · rintro ⟨items, hne, hall, rfl, rfl⟩
      exact ⟨_, _, _, ⟨items, hall, rfl, rfl⟩, ⟨_, rfl, by simpa using hne, rfl, rfl⟩, rfl⟩
  · rintro selections _ s tail ⟨ks, rfl, -⟩ -
    exact ⟨rfl, by simp [Clear]⟩

end selections

theorem parseSelectionSet_parses (number : String → JsNumber) (left : Nat) :
    Parses (parseSelectionSet number left) (SetTokens number left) := by
  induction left with
  | zero =>
    refine (behind_parses "\x7b" (Reads.of_refuses (refuses_failWith tooDeep))).congr
      (fun ks selections => ?_) (fun _ h => h)
    constructor
    · rintro ⟨_, _, h⟩
      exact h.elim
    · intro h
      cases h
  | succ left ih =>
    refine (behind_parses "\x7b" (setItems_parses (parseSelection_parses ih))).congr
      (fun ks selections => ?_) (fun _ h => h)
    constructor
    · rintro ⟨_, rfl, items, hne, hall, rfl, rfl⟩
      exact .mk hne hall
    · intro h
      cases h with
      | mk hne hall => exact ⟨_, rfl, _, hne, hall, rfl, rfl⟩

/-! ### Types and variables -/

theorem typeWith_parses {list : Reader String} {L : List TokenKind → String → Prop}
    (hlist : Parses list L) :
    Reads Token.kind (typeWith list) (fun ks type => ∃ ks' text,
        ((∃ k, ks' = .punct "[" :: k ∧ L k text) ∨ ks' = [.name text]) ∧
        (ks = ks' ++ [.punct "!"] ∧ type = (text ++ "!", true) ∨ ks = ks' ∧ type = (text, false)))
      (fun tail => next tail ≠ .punct "!") := by
  have hbase := choice_parses "[" hlist expectName_parses
    (by rintro ks name tail rfl -; simp)
  refine (hbase.bind (fun text => optional_parses "!" (d := (text, false))
    (Reads.pure (text ++ "!", true))) (fun _ _ _ _ _ _ => trivial)).congr (fun ks type => ?_)
    (fun _ h => ⟨trivial, h⟩)
  constructor
  · rintro ⟨ks', text, _, hbase, (⟨_, rfl, rfl, rfl⟩ | ⟨rfl, rfl⟩), rfl⟩
    · exact ⟨ks', text, hbase, .inl ⟨rfl, rfl⟩⟩
    · exact ⟨ks', text, hbase, .inr ⟨by simp, rfl⟩⟩
  · rintro ⟨ks', text, hbase, (⟨rfl, rfl⟩ | ⟨rfl, rfl⟩)⟩
    · exact ⟨ks', text, _, hbase, .inl ⟨_, rfl, rfl, rfl⟩, rfl⟩
    · exact ⟨ks, text, _, hbase, .inr ⟨rfl, rfl⟩, by simp⟩

theorem typeTokens_iff {ks : List TokenKind} {type : String × Bool} :
    TypeTokens left ks type ↔ ∃ ks' text, TypeTokens left ks' (text, false) ∧
      (ks = ks' ++ [.punct "!"] ∧ type = (text ++ "!", true) ∨ ks = ks' ∧ type = (text, false)) := by
  constructor
  · intro h
    cases h with
    | name name => exact ⟨_, _, .name name, .inr ⟨rfl, rfl⟩⟩
    | list h => exact ⟨_, _, .list h, .inr ⟨rfl, rfl⟩⟩
    | nonNull h => exact ⟨_, _, h, .inl ⟨rfl, rfl⟩⟩
  · rintro ⟨ks', text, h, (⟨rfl, rfl⟩ | ⟨rfl, rfl⟩)⟩
    · exact .nonNull h
    · exact h

theorem parseType_parses (left : Nat) :
    Reads Token.kind (parseType left) (TypeTokens left) (fun tail => next tail ≠ .punct "!") := by
  induction left with
  | zero =>
    refine (typeWith_parses (Reads.of_refuses (refuses_failWith tooDeep))).congr (fun ks type => ?_)
      (fun _ h => h)
    rw [typeTokens_iff]
    refine exists_congr fun ks' => exists_congr fun text => and_congr_left fun _ => ?_
    constructor
    · rintro (⟨_, _, h⟩ | rfl)
      · exact h.elim
      · exact .name text
    · intro h
      cases h
      exact .inr rfl
  | succ left ih =>
    have hlist : Parses (listType (parseType left)) _ :=
      closed_parses "]" (g := fun inner : String × Bool => "[" ++ inner.1 ++ "]")
        (ih.congr (fun _ _ => Iff.rfl) (fun tail h => by simp [h]))
    refine (typeWith_parses hlist).congr (fun ks type => ?_)
      (fun _ h => h)
    rw [typeTokens_iff]
    refine exists_congr fun ks' => exists_congr fun text => and_congr_left fun _ => ?_
    constructor
    · rintro (⟨_, rfl, k, inner, rfl, h, rfl⟩ | rfl)
      · exact .list h
      · exact .name text
    · intro h
      cases h with
      | name name => exact .inr rfl
      | list h => exact .inl ⟨_, rfl, _, _, rfl, h, rfl⟩

theorem defaultValue_parses (number : String → JsNumber) :
    Reads Token.kind (defaultValue number) (DefaultTokens number)
      (fun tail => next tail ≠ .punct "=") := by
  refine (optional_parses "=" ((parseValue_parses number MAX_PARSE_NESTING true).map some)).congr
    (fun ks default => ?_) (fun _ h => ⟨trivial, h⟩)
  constructor
  · rintro (⟨_, rfl, v, hv, rfl⟩ | ⟨rfl, rfl⟩)
    · exact .present hv
    · exact .absent
  · intro h
    cases h with
    | absent => exact .inr ⟨rfl, rfl⟩
    | present hv => exact .inl ⟨_, rfl, _, hv, rfl⟩

theorem DefaultTokens.start {ks : List TokenKind} {default : Option ValueNode}
    (h : DefaultTokens number ks default) : ks = [] ∨ next ks = .punct "=" := by
  cases h with
  | absent => exact .inl rfl
  | present => exact .inr rfl

abbrev variableStops : List String := ["!", "=", "(", "@"]

theorem variableStep_parses (number : String → JsNumber) (defs : List VariableDefinition) :
    Reads Token.kind (variableStep number defs) ((Items.collect (VariableTokens number)).round defs)
      (Clear variableStops) := by
  have hrest : ∀ name, Reads Token.kind
      (parseType MAX_PARSE_NESTING >>= fun type => defaultValue number >>= fun default =>
        parseDirectives (parseValue number MAX_PARSE_NESTING false) >>= fun _ =>
          pure (defs ++ [⟨name, type.1, type.2, default⟩]))
      (fun ks ds => ∃ kt kv kd type default directives, TypeTokens MAX_PARSE_NESTING kt type ∧
        DefaultTokens number kv default ∧ DirectivesTokens number MAX_PARSE_NESTING kd directives ∧
        ks = kt ++ (kv ++ kd) ∧ ds = defs ++ [⟨name, type.1, type.2, default⟩])
      (Clear variableStops) := by
    intro name
    refine ((parseType_parses MAX_PARSE_NESTING).bind (fun type => (defaultValue_parses number).bind
      (fun default => ((parseDirectives_parses number).map
        fun _ => defs ++ [(⟨name, type.1, type.2, default⟩ : VariableDefinition)]).congr
          (fun _ _ => Iff.rfl) ?_) ?_) ?_).congr (fun ks ds => ?_) (fun _ h => h)
    · intro tail htail value hvalue
      refine htail value ?_
      simp only [List.mem_cons, List.not_mem_nil, or_false] at hvalue ⊢
      exact .inr (.inr hvalue)
    · rintro default kd ds tail ⟨directives, hdirectives, rfl⟩ htail
      exact next_optional hdirectives.start (by simp) (by simp) (htail _ (by simp))
    · rintro type _ ds tail ⟨kv, default, kd, hdefault, ⟨directives, hdirectives, rfl⟩, rfl⟩ htail
      rw [List.append_assoc]
      exact next_optional hdefault.start (by simp) (by simp)
        (next_optional hdirectives.start (by simp) (by simp) (htail _ (by simp)))
    · constructor
      · rintro ⟨kt, type, _, htype, ⟨kv, default, kd, hdefault, ⟨directives, hdirectives, rfl⟩, rfl⟩, rfl⟩
        exact ⟨kt, kv, kd, type, default, directives, htype, hdefault, hdirectives, rfl, rfl⟩
      · rintro ⟨kt, kv, kd, type, default, directives, htype, hdefault, hdirectives, rfl, rfl⟩
        exact ⟨kt, type, _, htype, ⟨kv, default, kd, hdefault, ⟨directives, hdirectives, rfl⟩, rfl⟩, rfl⟩
  refine (behind_parses "$" (named_parses hrest)).congr (fun ks ds => ?_) (fun _ h => h)
  constructor
  · rintro ⟨_, rfl, name, _, rfl, kt, kv, kd, type, default, directives, htype, hdefault, hdirectives,
      rfl, rfl⟩
    exact ⟨(_, _), .mk htype hdefault hdirectives, rfl, rfl⟩
  · rintro ⟨⟨ks, d⟩, hd, rfl, rfl⟩
    cases hd with
    | mk htype hdefault hdirectives =>
      exact ⟨_, rfl, _, _, rfl, _, _, _, _, _, _, htype, hdefault, hdirectives, rfl, rfl⟩

theorem parseVariableDefinitions_parses (number : String → JsNumber) :
    Parses (parseVariableDefinitions number) (fun ks defs =>
      ∃ items : List (List TokenKind × VariableDefinition), (∀ i ∈ items, VariableTokens number i.1 i.2) ∧
        ks = .punct "(" :: (items.flatMap Prod.fst ++ [.punct ")"]) ∧ defs = items.map Prod.snd) := by
  have hopens : ∀ (s : List VariableDefinition) w, (Items.collect (VariableTokens number)).allowed s w →
      Opens (")" :: variableStops) ((Items.collect (VariableTokens number)).tokens w) := by
    rintro s ⟨ks, d⟩ hd
    cases hd with
    | mk htype hdefault hdirectives => simp [Opens, Clear, Items.collect]
  have hloop := until_parses ")" variableStops (variableStep_parses number) hopens []
  have hclosed := closed_parses ")" (g := id)
    (hloop.congr (fun _ _ => Iff.rfl) (fun tail h => ⟨h, by simp [Clear, h]⟩))
  refine (behind_parses "(" hclosed).congr (fun ks defs => ?_) (fun _ h => h)
  constructor
  · rintro ⟨_, rfl, _, _, rfl, hrounds, rfl⟩
    obtain ⟨items, hall, rfl, rfl⟩ := Items.rounds_collect.1 hrounds
    exact ⟨items, hall, rfl, rfl⟩
  · rintro ⟨items, hall, rfl, rfl⟩
    exact ⟨_, rfl, _, _, rfl, Items.rounds_collect.2 ⟨items, hall, rfl, rfl⟩, rfl⟩

/-! ### Definitions -/

def addDefinition (doc : DocumentNode) : Definition → DocumentNode
  | .operation op => addOperation doc op
  | .fragment f => addFragment doc f

def definitions (number : String → JsNumber) :
    Items TokenKind DocumentNode (List TokenKind × Definition) where
  tokens w := w.1
  allowed doc w := DefinitionTokens number w.1 w.2 ∧
    ∀ f, w.2.fragment? = some f → f.name ∉ doc.fragments.map FragmentNode.name
  add doc w := addDefinition doc w.2

theorem VariablesTokens.start {ks : List TokenKind} {vars : List VariableDefinition}
    (h : VariablesTokens number ks vars) : ks = [] ∨ next ks = .punct "(" := by
  cases h with
  | absent => exact .inl rfl
  | present => exact .inr rfl

theorem variables_parses (number : String → JsNumber) :
    Reads Token.kind (ifNext (isPunct "(") (parseVariableDefinitions number) (pure []))
      (VariablesTokens number) (fun tail => next tail ≠ .punct "(") := by
  refine (part_parses "(" (parseVariableDefinitions_parses number) ?_).congr (fun ks vars => ?_)
    (fun _ h => ⟨trivial, h⟩)
  · rintro ks vars ⟨items, -, rfl, -⟩
    exact ⟨_, rfl⟩
  · constructor
    · rintro (⟨items, hall, rfl, rfl⟩ | ⟨rfl, rfl⟩)
      · exact .present hall
      · exact .absent
    · intro h
      cases h with
      | absent => exact .inr ⟨rfl, rfl⟩
      | present hall => exact .inl ⟨_, hall, rfl, rfl⟩

def nextAnyName (ks : List TokenKind) : Bool :=
  match next ks with
  | .name _ => true
  | _ => false

theorem isAnyName_eq (ts : List Token) : isAnyName ts = nextAnyName (ts.map Token.kind) := by
  rw [isAnyName, tokenAt_kind]
  rfl

theorem nextAnyName_false {ks : List TokenKind} {value : String} (h : next ks = .punct value) :
    nextAnyName ks = false := by
  rw [nextAnyName, h]

theorem operationName_parses :
    Reads Token.kind (ifNext isAnyName (some <$> expectName) (pure none)) OperationNameTokens
      (fun tail => nextAnyName tail = false) := by
  refine (Reads.choice nextAnyName isAnyName_eq
    ((expectName_parses.map some).congr (fun _ _ => Iff.rfl) (fun _ _ => trivial))
    ((Reads.pure none).congr (fun _ _ => Iff.rfl) (fun _ _ => trivial)) ?_ ?_).congr
    (fun ks name => ?_) (fun _ h => h)
  · rintro ks name tail ⟨_, rfl, rfl⟩
    rfl
  · rintro ks name tail ⟨rfl, rfl⟩ htail
    exact htail
  · constructor
    · rintro (⟨name, rfl, rfl⟩ | ⟨rfl, rfl⟩)
      · exact .present name
      · exact .absent
    · intro h
      cases h with
      | absent => exact .inr ⟨rfl, rfl⟩
      | present name => exact .inl ⟨name, rfl, rfl⟩

section step

variable (number : String → JsNumber) (doc : DocumentNode)

theorem operationRest_parses (type : OperationType) :
    Parses (ifNext isAnyName (some <$> expectName) (pure none) >>= fun name =>
      ifNext (isPunct "(") (parseVariableDefinitions number) (pure []) >>= fun vars =>
        parseDirectives (parseValue number MAX_PARSE_NESTING false) >>= fun _ =>
          parseSelectionSet number MAX_PARSE_NESTING >>= fun selections =>
            pure (addOperation doc ⟨type, name, vars, selections⟩))
      (fun ks doc' => ∃ kn kv kd ks' name vars directives selections, OperationNameTokens kn name ∧
        VariablesTokens number kv vars ∧ DirectivesTokens number MAX_PARSE_NESTING kd directives ∧
        SetTokens number MAX_PARSE_NESTING ks' selections ∧ ks = kn ++ (kv ++ (kd ++ ks')) ∧
        doc' = addOperation doc ⟨type, name, vars, selections⟩) := by
  refine (operationName_parses.bind (fun name => (variables_parses number).bind
    (fun vars => (parseDirectives_parses number).bind
      (fun _ => (parseSelectionSet_parses number MAX_PARSE_NESTING).map
        fun selections => addOperation doc ⟨type, name, vars, selections⟩) ?_) ?_) ?_).congr
    (fun ks doc' => ?_) (fun _ h => h)
  · rintro directives ks doc' tail ⟨selections, hset, rfl⟩ - value hvalue
    rw [next_append hset.start (by simp)]
    rintro ⟨rfl⟩
    simp at hvalue
  · rintro vars _ doc' tail ⟨kd, directives, ks, hdirectives, ⟨selections, hset, rfl⟩, rfl⟩ -
    rw [List.append_assoc]
    refine next_optional hdirectives.start (by simp) (by simp) ?_
    rw [next_append hset.start (by simp)]
    simp
  · rintro name _ doc' tail ⟨kv, vars, _, hvars, ⟨kd, directives, ks, hdirectives,
      ⟨selections, hset, rfl⟩, rfl⟩, rfl⟩ -
    have hnext : ∃ value, next (kv ++ (kd ++ ks) ++ tail) = .punct value := by
      obtain rfl | hv := hvars.start
      · obtain rfl | hd := hdirectives.start
        · exact ⟨_, next_append hset.start (by simp)⟩
        · rw [List.nil_append, List.append_assoc]
          exact ⟨_, next_append hd (by simp)⟩
      · rw [List.append_assoc]
        exact ⟨_, next_append hv (by simp)⟩
    obtain ⟨value, hvalue⟩ := hnext
    exact nextAnyName_false hvalue
  · constructor
    · rintro ⟨kn, name, _, hname, ⟨kv, vars, _, hvars, ⟨kd, directives, ks, hdirectives,
        ⟨selections, hset, rfl⟩, rfl⟩, rfl⟩, rfl⟩
      exact ⟨kn, kv, kd, ks, name, vars, directives, selections, hname, hvars, hdirectives, hset, rfl, rfl⟩
    · rintro ⟨kn, kv, kd, ks, name, vars, directives, selections, hname, hvars, hdirectives, hset,
        rfl, rfl⟩
      exact ⟨kn, name, _, hname, ⟨kv, vars, _, hvars, ⟨kd, directives, ks, hdirectives,
        ⟨selections, hset, rfl⟩, rfl⟩, rfl⟩, rfl⟩

theorem fragmentRest_parses :
    Parses (expectName >>= fun name =>
      if name = "on" then failHere "\"on\" is not a valid fragment name" else
        expectName >>= fun on => if on ≠ "on" then failHere "expected \"on\"" else
          expectName >>= fun condition =>
            parseDirectives (parseValue number MAX_PARSE_NESTING false) >>= fun _ =>
              if doc.fragments.any (fun f => f.name == name) then
                failWith (invalid ("Fragment \"" ++ name ++ "\" is defined more than once."))
              else parseSelectionSet number MAX_PARSE_NESTING >>= fun selections =>
                pure (addFragment doc ⟨name, condition, selections⟩))
      (fun ks doc' => ∃ name condition kd ks' directives selections, name ≠ "on" ∧
        DirectivesTokens number MAX_PARSE_NESTING kd directives ∧
        SetTokens number MAX_PARSE_NESTING ks' selections ∧
        name ∉ doc.fragments.map FragmentNode.name ∧
        ks = .name name :: .name "on" :: .name condition :: (kd ++ ks') ∧
        doc' = addFragment doc ⟨name, condition, selections⟩) := by
  have hbody : ∀ name condition, Parses
      (parseDirectives (parseValue number MAX_PARSE_NESTING false) >>= fun _ =>
        if doc.fragments.any (fun f => f.name == name) then
          failWith (invalid ("Fragment \"" ++ name ++ "\" is defined more than once."))
        else parseSelectionSet number MAX_PARSE_NESTING >>= fun selections =>
          pure (addFragment doc ⟨name, condition, selections⟩))
      (fun ks doc' => ∃ kd ks' directives selections,
        DirectivesTokens number MAX_PARSE_NESTING kd directives ∧
        SetTokens number MAX_PARSE_NESTING ks' selections ∧
        name ∉ doc.fragments.map FragmentNode.name ∧ ks = kd ++ ks' ∧
        doc' = addFragment doc ⟨name, condition, selections⟩) := by
    intro name condition
    have hgiven : doc.fragments.any (fun f => f.name == name) = true ↔
        name ∈ doc.fragments.map FragmentNode.name := by
      simp [List.any_eq_true, List.mem_map]
    refine ((parseDirectives_parses number).bind (fun _ => Reads.unless (refuses_failWith _)
      ((parseSelectionSet_parses number MAX_PARSE_NESTING).map
        fun selections => addFragment doc ⟨name, condition, selections⟩)) ?_).congr (fun ks doc' => ?_)
      (fun _ h => h)
    · rintro directives ks doc' tail ⟨-, selections, hset, rfl⟩ - value hvalue
      rw [next_append hset.start (by simp)]
      rintro ⟨rfl⟩
      simp at hvalue
    · constructor
      · rintro ⟨kd, directives, ks, hdirectives, ⟨hnew, selections, hset, rfl⟩, rfl⟩
        exact ⟨kd, ks, directives, selections, hdirectives, hset, fun h => hnew (hgiven.2 h), rfl, rfl⟩
      · rintro ⟨kd, ks, directives, selections, hdirectives, hset, hnew, rfl, rfl⟩
        exact ⟨kd, directives, ks, hdirectives, ⟨fun h => hnew (hgiven.1 h), selections, hset, rfl⟩, rfl⟩
  refine (name_parses fun name => Reads.unless (refuses_failHere _) (name_parses fun on =>
    Reads.unless (refuses_failHere _) (name_parses fun condition => hbody name condition))).congr
    (fun ks doc' => ?_) (fun _ h => h)
  constructor
  · rintro ⟨name, _, rfl, hon, on, _, rfl, honly, condition, _, rfl, kd, ks, directives, selections,
      hdirectives, hset, hnew, rfl, rfl⟩
    obtain rfl : on = "on" := not_not.1 honly
    exact ⟨name, condition, kd, ks, directives, selections, hon, hdirectives, hset, hnew, rfl, rfl⟩
  · rintro ⟨name, condition, kd, ks, directives, selections, hon, hdirectives, hset, hnew, rfl, rfl⟩
    exact ⟨name, _, rfl, hon, "on", _, rfl, fun h => h rfl, condition, _, rfl, kd, ks, directives,
      selections, hdirectives, hset, hnew, rfl, rfl⟩

theorem definitionStep_parses :
    Parses (definitionStep number doc) ((definitions number).round doc) := by
  have hsubscription := word_parses "subscription"
    (operationRest_parses number doc .subscription)
    (Reads.of_refuses (refuses_failHere "expected an operation or a fragment")) (fun _ _ _ h => h.elim)
  have hmutation := word_parses "mutation"
    (operationRest_parses number doc .mutation) hsubscription
    (by rintro ks doc' tail (⟨ks', rfl, -⟩ | h) -; exacts [by simp, h.elim])
  have hquery := word_parses "query"
    (operationRest_parses number doc .query) hmutation
    (by rintro ks doc' tail (⟨ks', rfl, -⟩ | ⟨ks', rfl, -⟩ | h) -; exacts [by simp, by simp, h.elim])
  have hfragment := word_parses "fragment" (fragmentRest_parses number doc) hquery
    (by
      rintro ks doc' tail (⟨ks', rfl, -⟩ | ⟨ks', rfl, -⟩ | ⟨ks', rfl, -⟩ | h) -
      exacts [by simp, by simp, by simp, h.elim])
  have hall := Reads.choice (nextPunct "\x7b") (isPunct_eq "\x7b")
    ((parseSelectionSet_parses number MAX_PARSE_NESTING).map
      fun selections => addOperation doc ⟨.query, none, [], selections⟩) hfragment ?_ ?_
  · refine hall.congr (fun ks doc' => ?_) (fun _ h => h)
    constructor
    · rintro (⟨selections, hset, rfl⟩ | ⟨_, rfl, name, condition, kd, ks, directives, selections, hon,
        hdirectives, hset, hnew, rfl, rfl⟩ | ⟨_, rfl, kn, kv, kd, ks, name, vars, directives, selections,
        hname, hvars, hdirectives, hset, rfl, rfl⟩ | ⟨_, rfl, kn, kv, kd, ks, name, vars, directives,
        selections, hname, hvars, hdirectives, hset, rfl, rfl⟩ | ⟨_, rfl, kn, kv, kd, ks, name, vars,
        directives, selections, hname, hvars, hdirectives, hset, rfl, rfl⟩ | h)
      · exact ⟨(_, _), ⟨.shorthand hset, by simp [Definition.fragment?]⟩, rfl, rfl⟩
      · exact ⟨(_, _), ⟨.fragment hon hdirectives hset, by simpa [Definition.fragment?] using hnew⟩,
          rfl, rfl⟩
      · exact ⟨(_, _), ⟨.operation .query hname hvars hdirectives hset,
          by simp [Definition.fragment?]⟩, rfl, rfl⟩
      · exact ⟨(_, _), ⟨.operation .mutation hname hvars hdirectives hset,
          by simp [Definition.fragment?]⟩, rfl, rfl⟩
      · exact ⟨(_, _), ⟨.operation .subscription hname hvars hdirectives hset,
          by simp [Definition.fragment?]⟩, rfl, rfl⟩
      · exact h.elim
    · rintro ⟨⟨ks, d⟩, ⟨hd, hnew⟩, rfl, rfl⟩
      cases hd with
      | shorthand hset => exact .inl ⟨_, hset, rfl⟩
      | fragment hon hdirectives hset =>
        exact .inr (.inl ⟨_, rfl, _, _, _, _, _, _, hon, hdirectives, hset, hnew _ rfl, rfl, rfl⟩)
      | @operation type kn kv kd ks name vars directives selections hname hvars hdirectives hset =>
        cases type with
        | query => exact .inr (.inr (.inl ⟨_, rfl, _, _, _, _, _, _, _, _, hname, hvars, hdirectives,
            hset, rfl, rfl⟩))
        | mutation => exact .inr (.inr (.inr (.inl ⟨_, rfl, _, _, _, _, _, _, _, _, hname, hvars,
            hdirectives, hset, rfl, rfl⟩)))
        | subscription => exact .inr (.inr (.inr (.inr (.inl ⟨_, rfl, _, _, _, _, _, _, _, _, hname,
            hvars, hdirectives, hset, rfl, rfl⟩))))
  · rintro ks doc' tail ⟨selections, hset, rfl⟩
    simp [nextPunct, next_append hset.start (by simp)]
  · rintro ks doc' tail (⟨ks', rfl, -⟩ | ⟨ks', rfl, -⟩ | ⟨ks', rfl, -⟩ | ⟨ks', rfl, -⟩ | h) -
    · exact nextPunct_false.2 (by simp)
    · exact nextPunct_false.2 (by simp)
    · exact nextPunct_false.2 (by simp)
    · exact nextPunct_false.2 (by simp)
    · exact h.elim

end step

/-! ### Documents -/

theorem DefinitionTokens.opens {ks : List TokenKind} {d : Definition}
    (h : DefinitionTokens number ks d) : Opens [] ks := by
  cases h with
  | shorthand hset =>
    cases hset with
    | mk hne hall => simp [Opens, Clear]
  | operation type hname hvars hdirectives hset => simp [Opens, Clear]
  | fragment hon hdirectives hset => simp [Opens, Clear]

theorem definitions_after (doc : DocumentNode) (ws : List (List TokenKind × Definition)) :
    (definitions number).after doc ws =
      ⟨doc.operations ++ ws.filterMap (fun w => w.2.operation?),
        doc.fragments ++ ws.filterMap (fun w => w.2.fragment?)⟩ := by
  induction ws generalizing doc with
  | nil => simp
  | cons w ws ih =>
    obtain ⟨ks, d⟩ := w
    rw [Items.after_cons, ih]
    cases d <;>
      simp [definitions, addDefinition, addOperation, addFragment, Definition.operation?,
        Definition.fragment?]

theorem definitions_chain {doc : DocumentNode} {ws : List (List TokenKind × Definition)} :
    (definitions number).Chain (fun _ _ => True) [] doc ws ↔
      (∀ w ∈ ws, DefinitionTokens number w.1 w.2) ∧
        ((ws.filterMap (fun w => w.2.fragment?)).map FragmentNode.name).Nodup ∧
        ∀ f ∈ ws.filterMap (fun w => w.2.fragment?), f.name ∉ doc.fragments.map FragmentNode.name := by
  induction ws generalizing doc with
  | nil => simp [Items.Chain]
  | cons w ws ih =>
    obtain ⟨ks, d⟩ := w
    rw [Items.Chain, ih]
    cases d with
    | operation op =>
      simp [definitions, addDefinition, addOperation, Definition.fragment?, and_assoc]
    | fragment f =>
      have hadd : ((definitions number).add doc (ks, .fragment f)).fragments.map FragmentNode.name =
          doc.fragments.map FragmentNode.name ++ [f.name] := by
        simp [definitions, addDefinition, addFragment]
      rw [hadd]
      simp only [List.filterMap_cons, Definition.fragment?, List.map_cons, List.nodup_cons,
        List.forall_mem_cons, List.mem_append, List.mem_singleton]
      constructor
      · rintro ⟨⟨hd, hnew⟩, -, hall, hnodup, hfresh⟩
        have hdistinct : f.name ∉ (ws.filterMap (fun w => w.2.fragment?)).map FragmentNode.name := by
          intro hmem
          obtain ⟨g, hg, hname⟩ := List.mem_map.1 hmem
          exact hfresh g hg (.inr hname)
        exact ⟨⟨hd, hall⟩, ⟨hdistinct, hnodup⟩, hnew f rfl, fun g hg h => hfresh g hg (.inl h)⟩
      · rintro ⟨⟨hd, hall⟩, ⟨hdistinct, hnodup⟩, hnew, hfresh⟩
        refine ⟨⟨hd, fun g hg => ?_⟩, trivial, hall, hnodup, fun g hg => ?_⟩
        · obtain rfl : f = g := by simpa [Definition.fragment?] using hg
          exact hnew
        · rintro (h | h)
          · exact hfresh g hg h
          · exact hdistinct (List.mem_map.2 ⟨g, hg, h⟩)

theorem definitions_parses (number : String → JsNumber) :
    Reads Token.kind (repeatWhile stuck (fun ts => !isEof ts) (definitionStep number) ⟨[], []⟩)
      ((definitions number).rounds ⟨[], []⟩) (fun tail => next tail = .eof) := by
  have hgo : ∀ ts, (!isEof ts) = !nextEof (ts.map Token.kind) := fun ts => by rw [isEof_eq]
  have hnext : ∀ doc w ks, (definitions number).allowed doc w →
      (!nextEof ((definitions number).tokens w ++ ks)) = true := by
    intro doc w ks hw
    have heof : next ((definitions number).tokens w ++ ks) ≠ .eof := (hw.1.opens.next ks).1
    simpa [nextEof] using heof
  refine (Reads.loop stuck (fun ks => !nextEof ks) hgo (definitionStep_parses number)
    (fun _ w hw => hw.1.opens.1) hnext (fun _ _ _ _ => trivial) ⟨[], []⟩).congr
    (fun _ _ => Iff.rfl) (fun ks h => ?_)
  simp [nextEof, h]

theorem documentTokens_parses (number : String → JsNumber) :
    Reads Token.kind (documentTokens number) (DocumentTokens number) (fun tail => next tail = .eof) := by
  have hcheck : ∀ doc : DocumentNode, Reads Token.kind
      (if doc.operations.isEmpty then
        failWith ⟨.parseFailed, "The document contains no operation."⟩ else pure doc)
      (fun ks doc' => ¬doc.operations.isEmpty = true ∧ ks = [] ∧ doc' = doc)
      (fun tail => next tail = .eof) :=
    fun doc => Reads.unless (refuses_failWith _)
      ((Reads.pure doc).congr (fun _ _ => Iff.rfl) (fun _ _ => trivial))
  refine ((definitions_parses number).bind hcheck ?_).congr (fun ks doc => ?_) (fun _ h => h)
  · rintro doc _ doc' tail ⟨-, rfl, -⟩ htail
    exact htail
  · constructor
    · rintro ⟨_, _, _, ⟨items, hchain, rfl, rfl⟩, ⟨hne, rfl, rfl⟩, rfl⟩
      obtain ⟨hall, hnodup, -⟩ := definitions_chain.1 hchain
      rw [definitions_after] at hne ⊢
      rw [List.append_nil]
      exact .mk hall (by simpa using hne) hnodup
    · intro h
      cases h with
      | @mk items hall hne hnodup =>
        refine ⟨_, _, [], ⟨items, definitions_chain.2 ⟨hall, hnodup, by simp⟩, rfl, rfl⟩,
          ⟨?_, rfl, ?_⟩, by simp [Items.written, definitions]⟩
        · rw [definitions_after]
          simpa using hne
        · rw [definitions_after]
          rfl

end SorobanLens.GraphQL
