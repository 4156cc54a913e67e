import SorobanLens.Api.GraphQL.Grammar

/-!
The parser reads the grammar: each of its functions reads the sentences of one part,
wherever they stand, and nothing else.
-/

set_option autoImplicit false

namespace SorobanLens.GraphQL

open TokenParser
open Json (OBJECT_PROTOTYPE)

/-! ### Single tokens -/

variable {number : String → JsNumber}

def next (ks : List TokenKind) : TokenKind := ks.headD .eof

def nextPunct (value : String) (ks : List TokenKind) : Bool := next ks = .punct value

def nextEof (ks : List TokenKind) : Bool := next ks = .eof

def Clear (stops : List String) (ks : List TokenKind) : Prop :=
  ∀ value ∈ stops, next ks ≠ .punct value

@[simp] theorem next_nil : next [] = .eof := rfl

@[simp] theorem next_cons (k : TokenKind) (ks : List TokenKind) : next (k :: ks) = k := rfl

theorem tokenAt_kind (ts : List Token) : (tokenAt ts).kind = next (ts.map Token.kind) := by
  cases ts <;> rfl

theorem isPunct_eq (value : String) (ts : List Token) :
    isPunct value ts = nextPunct value (ts.map Token.kind) := by
  simp [isPunct, nextPunct, tokenAt_kind]

theorem isEof_eq (ts : List Token) : isEof ts = nextEof (ts.map Token.kind) := by
  simp [isEof, nextEof, tokenAt_kind]

theorem nextPunct_false {value : String} {ks : List TokenKind} :
    nextPunct value ks = false ↔ next ks ≠ .punct value := by
  simp [nextPunct]

theorem refuses_failHere {α : Type} (message : String) : Refuses (failHere message : Reader α) :=
  fun _ => ⟨_, rfl⟩

theorem refuses_failWith {α : Type} (e : RequestError) : Refuses (failWith e : Reader α) :=
  fun _ => ⟨e, rfl⟩

/-- Tokens a parser reads, wherever they stand. -/
abbrev Parses {α : Type} (p : Reader α) (G : List TokenKind → α → Prop) : Prop :=
  Reads Token.kind p G (fun _ => True)

def takeKind (k : TokenKind) (message : String) : Reader Unit :=
  ifNext (fun ts => (tokenAt ts).kind = k) advance (failHere message)

theorem takeKind_parses (k : TokenKind) (message : String) (hk : k ≠ .eof) :
    Parses (takeKind k message) (fun ks _ => ks = [k]) where
  sound {ts a rest} h := by
    cases ts with
    | nil => simp [takeKind, ifNext, tokenAt, failHere, Ne.symm hk] at h
    | cons t ts =>
      simp only [takeKind, ifNext] at h
      split at h
      · rename_i hkind
        obtain rfl : ts = rest := by simpa [advance] using h
        exact ⟨_, rfl, by simpa [tokenAt] using hkind⟩
      · simp [failHere] at h
  complete := by
    rintro ts ks a tail rfl hts -
    cases ts with
    | nil => simp at hts
    | cons t ts =>
      obtain ⟨ht, hrest⟩ : t.kind = k ∧ ts.map Token.kind = tail := by simpa using hts
      exact ⟨ts, by simp [takeKind, ifNext, tokenAt, ht, advance], hrest⟩

theorem expectName_parses : Parses expectName (fun ks name => ks = [.name name]) where
  sound {ts name rest} h := by
    cases ts with
    | nil => simp [expectName, tokenAt, failHere] at h
    | cons t ts =>
      simp only [expectName] at h
      split at h
      · rename_i value hvalue
        obtain ⟨rfl, rfl⟩ : value = name ∧ ts = rest := by simpa using h
        exact ⟨_, rfl, by simpa [tokenAt] using hvalue⟩
      · simp [failHere] at h
  complete := by
    rintro ts ks name tail rfl hts -
    cases ts with
    | nil => simp at hts
    | cons t ts =>
      obtain ⟨ht, hrest⟩ : t.kind = .name name ∧ ts.map Token.kind = tail := by simpa using hts
      exact ⟨ts, by simp [expectName, tokenAt, ht], hrest⟩

theorem takeKind_eq_ok {k : TokenKind} {message : String} {ts : List Token}
    (h : (tokenAt ts).kind = k) : takeKind k message ts = .ok ((), ts.tail) := by
  simp [takeKind, ifNext, h, advance]

theorem advance_bind {α : Type} {p : Reader α} {k : TokenKind} {message : String} {ts : List Token}
    (h : (tokenAt ts).kind = k) :
    (advance >>= fun _ => p) ts = (takeKind k message >>= fun _ => p) ts := by
  rw [bind_of_ok (show advance ts = .ok ((), ts.tail) from rfl), bind_of_ok (takeKind_eq_ok h)]

theorem ifNext_advance {α : Type} (k : TokenKind) (message : String) (p : Reader α) (q : Reader α) :
    ifNext (fun ts => (tokenAt ts).kind = k) (advance >>= fun _ => p) q =
      ifNext (fun ts => (tokenAt ts).kind = k) (takeKind k message >>= fun _ => p) q := by
  funext ts
  unfold ifNext
  split
  · rename_i h
    exact advance_bind (by simpa using h)
  · rfl

theorem loop_advance {α σ : Type} (value : String) (step : σ → Reader σ) (s : σ) (f : σ → Reader α) :
    (repeatWhile stuck (fun ts => !isPunct value ts) step s >>= fun a => advance >>= fun _ => f a) =
      (repeatWhile stuck (fun ts => !isPunct value ts) step s >>= fun a =>
        expectPunct value >>= fun _ => f a) := by
  funext ts
  cases h : repeatWhile stuck (fun ts => !isPunct value ts) step s ts with
  | error e => rw [bind_of_error h, bind_of_error h]
  | ok r =>
    obtain ⟨s', rest⟩ := r
    have hstop : isPunct value rest = true := by simpa using repeatWhile_stop h
    rw [bind_of_ok h, bind_of_ok h]
    exact advance_bind (by simpa [isPunct] using hstop)

/-! ### Composition -/

section composition

variable {α β σ : Type} {value : String} {p q : Reader α} {f : String → Reader α}
variable {G G' : List TokenKind → α → Prop} {H : String → List TokenKind → α → Prop}
variable {follow : List TokenKind → Prop}

theorem taken_parses {k : TokenKind} {message : String} (hk : k ≠ .eof)
    (hp : Reads Token.kind p G follow) :
    Reads Token.kind (takeKind k message >>= fun _ => p) (fun ks a => ∃ ks', ks = k :: ks' ∧ G ks' a)
      follow := by
  refine ((takeKind_parses k message hk).bind (fun _ => hp) (fun _ _ _ _ _ _ => trivial)).congr
    (fun ks a => ?_) (fun _ h => h)
  constructor
  · rintro ⟨_, _, ks', rfl, hks, rfl⟩
    exact ⟨ks', rfl, hks⟩
  · rintro ⟨ks', rfl, hks⟩
    exact ⟨_, (), ks', rfl, hks, rfl⟩

theorem behind_parses (value : String) (hp : Reads Token.kind p G follow) :
    Reads Token.kind (expectPunct value >>= fun _ => p)
      (fun ks a => ∃ ks', ks = .punct value :: ks' ∧ G ks' a) follow :=
  taken_parses (by simp) hp

theorem name_parses (hf : ∀ name, Reads Token.kind (f name) (H name) follow) :
    Reads Token.kind (expectName >>= f)
      (fun ks a => ∃ name ks', ks = .name name :: ks' ∧ H name ks' a) follow := by
  refine (expectName_parses.bind hf (fun _ _ _ _ _ _ => trivial)).congr
    (fun ks a => ?_) (fun _ h => h)
  constructor
  · rintro ⟨_, name, ks', rfl, hks, rfl⟩
    exact ⟨name, ks', rfl, hks⟩
  · rintro ⟨name, ks', rfl, hks⟩
    exact ⟨_, name, ks', rfl, hks, rfl⟩

theorem named_parses (hf : ∀ name, Reads Token.kind (f name) (H name) follow) :
    Reads Token.kind (expectName >>= fun name => expectPunct ":" >>= fun _ => f name)
      (fun ks a => ∃ name ks', ks = .name name :: .punct ":" :: ks' ∧ H name ks' a) follow := by
  refine (name_parses (fun name => behind_parses ":" (hf name))).congr (fun ks a => ?_) (fun _ h => h)
  constructor
  · rintro ⟨name, _, rfl, ks', rfl, hks⟩
    exact ⟨name, ks', rfl, hks⟩
  · rintro ⟨name, ks', rfl, hks⟩
    exact ⟨name, _, rfl, ks', rfl, hks⟩

theorem closed_parses (value : String) {g : α → β}
    (hp : Reads Token.kind p G (fun tail => next tail = .punct value)) :
    Parses (p >>= fun a => expectPunct value >>= fun _ => pure (g a))
      (fun ks b => ∃ ks' a, ks = ks' ++ [.punct value] ∧ G ks' a ∧ b = g a) := by
  refine (hp.bind (fun a => behind_parses value (Reads.pure (g a))) ?_).congr (fun ks b => ?_) (fun _ h => h)
  · rintro a ks b tail ⟨ks', rfl, -⟩ -
    rfl
  · constructor
    · rintro ⟨k₁, a, _, hk₁, ⟨_, rfl, rfl, rfl⟩, rfl⟩
      exact ⟨k₁, a, rfl, hk₁, rfl⟩
    · rintro ⟨k₁, a, rfl, hk₁, rfl⟩
      exact ⟨k₁, a, _, hk₁, ⟨[], rfl, rfl, rfl⟩, rfl⟩

theorem kindChoice_parses (k : TokenKind) (hk : k ≠ .eof) (hp : Reads Token.kind p G follow)
    (hq : Reads Token.kind q G' follow)
    (hG' : ∀ ks a tail, G' ks a → follow tail → next (ks ++ tail) ≠ k) :
    Reads Token.kind (ifNext (fun ts => (tokenAt ts).kind = k) (advance >>= fun _ => p) q)
      (fun ks a => (∃ ks', ks = k :: ks' ∧ G ks' a) ∨ G' ks a) follow := by
  rw [ifNext_advance k ""]
  refine Reads.choice (fun ks => decide (next ks = k)) (fun ts => by rw [tokenAt_kind])
    (taken_parses hk hp) hq ?_ ?_
  · rintro ks a tail ⟨ks', rfl, -⟩
    simp
  · intro ks a tail hks htail
    exact decide_eq_false (hG' ks a tail hks htail)

theorem choice_parses (value : String) (hp : Reads Token.kind p G follow) (hq : Reads Token.kind q G' follow)
    (hG' : ∀ ks a tail, G' ks a → follow tail → next (ks ++ tail) ≠ .punct value) :
    Reads Token.kind (ifNext (isPunct value) (advance >>= fun _ => p) q)
      (fun ks a => (∃ ks', ks = .punct value :: ks' ∧ G ks' a) ∨ G' ks a) follow :=
  kindChoice_parses (.punct value) (by simp) hp hq hG'

theorem word_parses (value : String) (hp : Reads Token.kind p G follow) (hq : Reads Token.kind q G' follow)
    (hG' : ∀ ks a tail, G' ks a → follow tail → next (ks ++ tail) ≠ .name value) :
    Reads Token.kind (ifNext (isName value) (advance >>= fun _ => p) q)
      (fun ks a => (∃ ks', ks = .name value :: ks' ∧ G ks' a) ∨ G' ks a) follow :=
  kindChoice_parses (.name value) (by simp) hp hq hG'

theorem part_parses (value : String) {d : α} (hp : Reads Token.kind p G follow)
    (hG : ∀ ks a, G ks a → ∃ ks', ks = .punct value :: ks') :
    Reads Token.kind (ifNext (isPunct value) p (pure d)) (fun ks a => G ks a ∨ ks = [] ∧ a = d)
      (fun tail => follow tail ∧ next tail ≠ .punct value) := by
  refine Reads.choice (nextPunct value) (isPunct_eq value)
    (hp.congr (fun _ _ => Iff.rfl) (fun _ h => h.1))
    ((Reads.pure d).congr (fun _ _ => Iff.rfl) (fun _ _ => trivial)) ?_ ?_
  · intro ks a tail hks
    obtain ⟨ks', rfl⟩ := hG ks a hks
    simp [nextPunct]
  · rintro ks a tail ⟨rfl, rfl⟩ htail
    exact nextPunct_false.2 htail.2

theorem optional_parses (value : String) {d : α} (hp : Reads Token.kind p G follow) :
    Reads Token.kind (ifNext (isPunct value) (advance >>= fun _ => p) (pure d))
      (fun ks a => (∃ ks', ks = .punct value :: ks' ∧ G ks' a) ∨ ks = [] ∧ a = d)
      (fun tail => follow tail ∧ next tail ≠ .punct value) := by
  refine choice_parses value (hp.congr (fun _ _ => Iff.rfl) (fun _ h => h.1))
    ((Reads.pure d).congr (fun _ _ => Iff.rfl) (fun _ _ => trivial)) ?_
  rintro ks a tail ⟨rfl, rfl⟩ htail
  exact htail.2

def Opens (stops : List String) (ks : List TokenKind) : Prop :=
  ks ≠ [] ∧ next ks ≠ .eof ∧ Clear stops ks

theorem Opens.next {stops : List String} {ks : List TokenKind} (h : Opens stops ks)
    (tail : List TokenKind) : next (ks ++ tail) ≠ .eof ∧ Clear stops (ks ++ tail) := by
  obtain ⟨hne, heof, hclear⟩ := h
  cases ks with
  | nil => exact absurd rfl hne
  | cons k ks => exact ⟨heof, hclear⟩

theorem Opens.mono {stops stops' : List String} {ks : List TokenKind} (h : Opens stops ks)
    (hsub : stops' ⊆ stops) : Opens stops' ks :=
  ⟨h.1, h.2.1, fun value hvalue => h.2.2 value (hsub hvalue)⟩

variable {I : Items TokenKind σ β} {step : σ → Reader σ} {stops : List String}

theorem until_parses (value : String) (stops : List String)
    (hstep : ∀ s, Reads Token.kind (step s) (I.round s) (Clear stops))
    (hopens : ∀ s w, I.allowed s w → Opens (value :: stops) (I.tokens w)) (s : σ) :
    Reads Token.kind (repeatWhile stuck (fun ts => !isPunct value ts) step s) (I.rounds s)
      (fun tail => next tail = .punct value ∧ Clear stops tail) := by
  have hgo : ∀ ts, (!isPunct value ts) = !nextPunct value (ts.map Token.kind) :=
    fun ts => by rw [isPunct_eq]
  have hnext : ∀ s w ks, I.allowed s w → (!nextPunct value (I.tokens w ++ ks)) = true := by
    intro s w ks hw
    have hclear := ((hopens s w hw).next ks).2 value List.mem_cons_self
    simp [nextPunct, hclear]
  have hfollow : ∀ s w ks, I.allowed s w → Clear stops (I.tokens w ++ ks) :=
    fun s w ks hw v hv => ((hopens s w hw).next ks).2 v (List.mem_cons_of_mem value hv)
  refine (Reads.loop stuck (fun ks => !nextPunct value ks) hgo hstep (fun s w hw => (hopens s w hw).1)
    hnext hfollow s).congr (fun _ _ => Iff.rfl) (fun ks h => ?_)
  simpa [nextPunct] using h

theorem guard_parses {message : String} {s : σ} {r : Reader σ}
    (hr : Reads Token.kind r (I.round s) follow)
    (hopens : ∀ w, I.allowed s w → Opens [] (I.tokens w)) :
    Reads Token.kind (ifNext isEof (failHere message) r) (I.round s) follow := by
  refine Reads.unlessNext nextEof isEof_eq (refuses_failHere message) hr ?_
  rintro ks s' tail ⟨w, hw, rfl, rfl⟩ -
  exact decide_eq_false ((hopens w hw).next tail).1

theorem items_parses (value message : String)
    (hp : Reads Token.kind p G (Clear stops)) (hopens : ∀ ks a, G ks a → Opens (value :: stops) ks) :
    Reads Token.kind
      (repeatWhile stuck (fun ts => !isPunct value ts)
        (fun items => ifNext isEof (failHere message) ((fun a => items ++ [a]) <$> p)) [])
      (fun ks as => ∃ items : List (List TokenKind × α), (∀ i ∈ items, G i.1 i.2) ∧
        ks = items.flatMap Prod.fst ∧ as = items.map Prod.snd)
      (fun tail => next tail = .punct value ∧ Clear stops tail) := by
  have hround : ∀ s, Reads Token.kind
      (ifNext isEof (failHere message) ((fun a => s ++ [a]) <$> p)) ((Items.collect G).round s)
      (Clear stops) :=
    fun s => guard_parses (hp.collect s) (fun w hw => (hopens w.1 w.2 hw).mono (by simp))
  exact (until_parses value stops hround (fun _ w hw => hopens w.1 w.2 hw) []).congr
    (fun _ _ => Items.rounds_collect) (fun _ h => h)

end composition

/-! ### Values -/

theorem literal_parses (number : String → JsNumber) : Parses (literal number) (LiteralTokens number) where
  sound {ts v rest} h := by
    cases ts with
    | nil => simp [literal, tokenAt, failHere] at h
    | cons t ts =>
      simp only [literal] at h
      split at h
      case h_1 => simp [failHere] at h
      case h_6 => simp [failHere] at h
      case h_2 text ht =>
        obtain ⟨rfl, rfl⟩ : .int (number text) = v ∧ ts = rest := by simpa using h
        exact ⟨_, .int text, by simpa [tokenAt] using ht⟩
      case h_3 text ht =>
        obtain ⟨rfl, rfl⟩ : .float (number text) = v ∧ ts = rest := by simpa using h
        exact ⟨_, .float text, by simpa [tokenAt] using ht⟩
      case h_4 units ht =>
        obtain ⟨rfl, rfl⟩ : .string (String.ofList (Json.joinUnits units)) = v ∧ ts = rest := by
          simpa using h
        exact ⟨_, .string units, by simpa [tokenAt] using ht⟩
      case h_5 text ht =>
        obtain ⟨rfl, rfl⟩ : nameValue text = v ∧ ts = rest := by simpa using h
        exact ⟨_, .name text, by simpa [tokenAt] using ht⟩
  complete {ts ks v tail} hks hts _ := by
    cases ts with
    | nil => cases hks <;> simp at hts
    | cons t ts =>
      cases hks <;>
        (obtain ⟨ht, hrest⟩ := List.cons.inj hts
         exact ⟨ts, by simp [literal, tokenAt, ht], hrest⟩)

theorem LiteralTokens.next {ks : List TokenKind} {v : ValueNode} (h : LiteralTokens number ks v) :
    ks ≠ [] ∧ next ks ≠ .eof ∧ ∀ value, next ks ≠ .punct value := by
  cases h <;> simp

theorem ValueTokens.opens {left : Nat} {isConst : Bool} {ks : List TokenKind} {v : ValueNode}
    (h : ValueTokens number left isConst ks v) : Opens ["]", "\x7d", ")"] ks := by
  cases h with
  | reference name => simp [Opens, Clear]
  | literal h =>
    obtain ⟨hne, heof, hpunct⟩ := h.next
    exact ⟨hne, heof, fun value _ => hpunct value⟩
  | list h => simp [Opens, Clear]
  | object h => simp [Opens, Clear]

def members (V : List TokenKind → ValueNode → Prop) :
    Items TokenKind (List (String × ValueNode)) (String × List TokenKind × ValueNode) where
  tokens := named
  allowed _ f := V f.2.1 f.2.2
  add o f := setField o f.1 f.2.2

theorem opens_named {stops : List String} (f : String × List TokenKind × ValueNode) :
    Opens stops (named f) := by
  simp [named, Opens, Clear]

section values

variable {value : Reader ValueNode} {V : List TokenKind → ValueNode → Prop}

theorem listItems_parses (hvalue : Parses value V) (hopens : ∀ ks v, V ks v → Opens ["]"] ks) :
    Parses (listItems value) (fun ks v => ∃ items : List (List TokenKind × ValueNode),
      (∀ i ∈ items, V i.1 i.2) ∧ ks = items.flatMap Prod.fst ++ [.punct "]"] ∧
        v = .list (items.map Prod.snd)) := by
  have hitems := items_parses "]" "unterminated list"
    (hvalue.congr (fun _ _ => Iff.rfl) (fun _ _ => trivial)) hopens
  have hclosed := closed_parses "]" (g := ValueNode.list)
    (hitems.congr (fun _ _ => Iff.rfl) (fun _ h => ⟨h, by simp [Clear]⟩))
  rw [listItems, loop_advance]
  refine hclosed.congr (fun ks v => ?_) (fun _ h => h)
  constructor
  · rintro ⟨_, _, rfl, ⟨items, hall, rfl, rfl⟩, rfl⟩
    exact ⟨items, hall, rfl, rfl⟩
  · rintro ⟨items, hall, rfl, rfl⟩
    exact ⟨_, _, rfl, ⟨items, hall, rfl, rfl⟩, rfl⟩

theorem objectStep_parses (hvalue : Parses value V) (fields : List (String × ValueNode)) :
    Parses (objectStep value fields) ((members V).round fields) := by
  have hfield : Parses (expectName >>= fun name => expectPunct ":" >>= fun _ =>
      value >>= fun v => pure (setField fields name v)) ((members V).round fields) := by
    refine (named_parses fun name => hvalue.map (setField fields name)).congr (fun ks o => ?_)
      (fun _ h => h)
    constructor
    · rintro ⟨name, ks', rfl, v, hv, rfl⟩
      exact ⟨(name, ks', v), hv, rfl, rfl⟩
    · rintro ⟨⟨name, ks', v⟩, hv, rfl, rfl⟩
      exact ⟨name, ks', rfl, v, hv, rfl⟩
  exact guard_parses hfield (fun w _ => opens_named w)

theorem objectFields_parses (hvalue : Parses value V) :
    Parses (objectFields value) (fun ks v => ∃ fields : List (String × List TokenKind × ValueNode),
      (∀ f ∈ fields, V f.2.1 f.2.2) ∧ ks = fields.flatMap named ++ [.punct "\x7d"] ∧
        v = .object (fields.foldl (fun o f => setField o f.1 f.2.2) [])) := by
  have hfields := until_parses "\x7d" []
    (fun s => (objectStep_parses hvalue s).congr (fun _ _ => Iff.rfl) (fun _ _ => trivial))
    (fun _ w _ => opens_named w) []
  have hclosed := closed_parses "\x7d" (g := ValueNode.object)
    (hfields.congr (fun _ _ => Iff.rfl) (fun ks h => ⟨h, fun value hvalue => absurd hvalue (List.not_mem_nil)⟩))
  rw [objectFields, loop_advance]
  refine hclosed.congr (fun ks v => ?_) (fun _ h => h)
  constructor
  · rintro ⟨_, _, rfl, ⟨fields, hchain, rfl, rfl⟩, rfl⟩
    exact ⟨fields, hchain.forall (fun _ _ hf => hf), rfl, rfl⟩
  · rintro ⟨fields, hall, rfl, rfl⟩
    exact ⟨_, _, rfl, ⟨fields, Items.chain_of_forall (fun f hf _ => hall f hf) (fun _ _ _ => trivial),
      rfl, rfl⟩, rfl⟩

theorem variableReference_parses (isConst : Bool) (q : Reader ValueNode)
    (hq : Parses q V) (hnot : ∀ ks v tail, V ks v → next (ks ++ tail) ≠ .punct "$") :
    Parses (ifNext (isPunct "$") (variableReference isConst) q)
      (fun ks v => (isConst = false ∧ ∃ name, ks = [.punct "$", .name name] ∧ v = .variable name) ∨
        V ks v) := by
  cases isConst with
  | true =>
    refine (Reads.choice (nextPunct "$") (isPunct_eq "$") (Reads.of_refuses (refuses_failHere _)) hq
      (fun _ _ _ h => h.elim) (fun ks v tail hks _ => nextPunct_false.2 (hnot ks v tail hks))).congr
      (fun ks v => by simp) (fun _ h => h)
  | false =>
    refine (choice_parses "$" (name_parses fun name => Reads.pure (ValueNode.variable name)) hq
      (fun ks v tail hks _ => hnot ks v tail hks)).congr (fun ks v => ?_) (fun _ h => h)
    constructor
    · rintro (⟨_, rfl, name, _, rfl, rfl, rfl⟩ | hks)
      · exact .inl ⟨rfl, name, rfl, rfl⟩
      · exact .inr hks
    · rintro (⟨-, name, rfl, rfl⟩ | hks)
      · exact .inl ⟨_, rfl, name, _, rfl, rfl, rfl⟩
      · exact .inr hks

theorem valueWith_parses {isConst : Bool} {list object : Reader ValueNode}
    {L O : List TokenKind → ValueNode → Prop} (hlist : Parses list L) (hobject : Parses object O) :
    Parses (valueWith number isConst list object)
      (fun ks v => (isConst = false ∧ ∃ name, ks = [.punct "$", .name name] ∧ v = .variable name) ∨
        (∃ ks', ks = .punct "[" :: ks' ∧ L ks' v) ∨ (∃ ks', ks = .punct "\x7b" :: ks' ∧ O ks' v) ∨
        LiteralTokens number ks v) := by
  have hliteral : ∀ value ks v (tail : List TokenKind), LiteralTokens number ks v →
      next (ks ++ tail) ≠ .punct value := by
    intro value ks v tail h
    obtain ⟨hne, heof, hpunct⟩ := h.next
    have hopens : Opens [value] ks := ⟨hne, heof, fun v _ => hpunct v⟩
    exact (hopens.next tail).2 value List.mem_cons_self
  refine variableReference_parses isConst _ (choice_parses "[" hlist
    (choice_parses "\x7b" hobject (literal_parses number) (fun ks v tail h _ => hliteral _ ks v tail h)) ?_) ?_
  · rintro ks v tail (⟨ks', rfl, -⟩ | h) -
    · simp
    · exact hliteral _ ks v tail h
  · rintro ks v tail (⟨ks', rfl, -⟩ | ⟨ks', rfl, -⟩ | h)
    · simp
    · simp
    · exact hliteral _ ks v tail h

end values

theorem parseValue_parses (number : String → JsNumber) (left : Nat) (isConst : Bool) :
    Parses (parseValue number left isConst) (ValueTokens number left isConst) := by
  induction left with
  | zero =>
    refine (valueWith_parses (Reads.of_refuses (refuses_failWith tooDeep))
      (Reads.of_refuses (refuses_failWith tooDeep))).congr (fun ks v => ?_) (fun _ h => h)
    constructor
    · rintro (⟨rfl, name, rfl, rfl⟩ | ⟨_, _, h⟩ | ⟨_, _, h⟩ | h)
      · exact .reference name
      · exact h.elim
      · exact h.elim
      · exact .literal h
    · intro h
      cases h with
      | reference name => exact .inl ⟨rfl, name, rfl, rfl⟩
      | literal h => exact .inr (.inr (.inr h))
  | succ left ih =>
    refine (valueWith_parses (listItems_parses ih fun ks v h => h.opens.mono (by simp))
      (objectFields_parses ih)).congr (fun ks v => ?_) (fun _ h => h)
    constructor
    · rintro (⟨rfl, name, rfl, rfl⟩ | ⟨_, rfl, items, hall, rfl, rfl⟩ | ⟨_, rfl, fields, hall, rfl, rfl⟩ | h)
      · exact .reference name
      · exact .list hall
      · exact .object hall
      · exact .literal h
    · intro h
      cases h with
      | reference name => exact .inl ⟨rfl, name, rfl, rfl⟩
      | literal h => exact .inr (.inr (.inr h))
      | list hall => exact .inr (.inl ⟨_, rfl, _, hall, rfl, rfl⟩)
      | object hall => exact .inr (.inr (.inl ⟨_, rfl, _, hall, rfl, rfl⟩))

/-! ### Arguments and directives -/

def arguments (V : List TokenKind → ValueNode → Prop) :
    Items TokenKind (List (String × ValueNode)) (String × List TokenKind × ValueNode) where
  tokens := named
  allowed args a := ¬(args.any (fun b => b.1 == a.1) ∨ a.1 ∈ OBJECT_PROTOTYPE) ∧ V a.2.1 a.2.2
  add args a := args ++ [(a.1, a.2.2)]

section arguments

variable {V : List TokenKind → ValueNode → Prop}

theorem arguments_chain {s : List (String × ValueNode)}
    {ws : List (String × List TokenKind × ValueNode)} :
    (arguments V).Chain (fun _ _ => True) [] s ws ↔
      (∀ a ∈ ws, V a.2.1 a.2.2) ∧ (∀ a ∈ ws, a.1 ∉ OBJECT_PROTOTYPE) ∧ (ws.map Prod.fst).Nodup ∧
        ∀ a ∈ ws, a.1 ∉ s.map Prod.fst := by
  induction ws generalizing s with
  | nil => simp [Items.Chain]
  | cons w ws ih =>
    have hgiven : s.any (fun b => b.1 == w.1) = true ↔ w.1 ∈ s.map Prod.fst := by
      simp [List.any_eq_true, List.mem_map]
    rw [Items.Chain, ih]
    simp only [arguments, hgiven, List.forall_mem_cons, List.map_cons, List.map_append, List.map_nil,
      List.nodup_cons, List.mem_append, List.mem_singleton]
    constructor
    · rintro ⟨⟨hnew, hV⟩, -, hall, hproto, hnodup, hfresh⟩
      rw [not_or] at hnew
      have hdistinct : w.1 ∉ ws.map Prod.fst := by
        intro hmem
        obtain ⟨a, ha, hname⟩ := List.mem_map.1 hmem
        exact hfresh a ha (.inr hname)
      exact ⟨⟨hV, hall⟩, ⟨hnew.2, hproto⟩, ⟨hdistinct, hnodup⟩, hnew.1,
        fun a ha hmem => hfresh a ha (.inl hmem)⟩
    · rintro ⟨⟨hV, hall⟩, ⟨hp, hproto⟩, ⟨hdistinct, hnodup⟩, hnew, hfresh⟩
      refine ⟨⟨not_or.2 ⟨hnew, hp⟩, hV⟩, trivial, hall, hproto, hnodup, ?_⟩
      rintro a ha (hmem | hname)
      · exact hfresh a ha hmem
      · exact hdistinct (List.mem_map.2 ⟨a, ha, hname⟩)

theorem arguments_after (s : List (String × ValueNode))
    (ws : List (String × List TokenKind × ValueNode)) :
    (arguments V).after s ws = s ++ ws.map (fun a => (a.1, a.2.2)) := by
  induction ws generalizing s with
  | nil => simp
  | cons w ws ih =>
    rw [Items.after_cons, ih]
    simp [arguments]

theorem argumentStep_parses {value : Reader ValueNode} (hvalue : Parses value V)
    (args : List (String × ValueNode)) :
    Parses (argumentStep value args) ((arguments V).round args) := by
  refine (named_parses fun name => Reads.unless (refuses_failHere _)
    (hvalue.map fun v => args ++ [(name, v)])).congr (fun ks o => ?_) (fun _ h => h)
  constructor
  · rintro ⟨name, ks', rfl, hnew, v, hv, rfl⟩
    exact ⟨(name, ks', v), ⟨hnew, hv⟩, rfl, rfl⟩
  · rintro ⟨⟨name, ks', v⟩, ⟨hnew, hv⟩, rfl, rfl⟩
    exact ⟨name, ks', rfl, hnew, v, hv, rfl⟩

end arguments

section levels

variable (number : String → JsNumber) {left : Nat}

theorem parseArguments_parses :
    Parses (parseArguments (parseValue number left false)) (fun ks args =>
      ∃ items : List (String × List TokenKind × ValueNode),
        (∀ a ∈ items, ValueTokens number left false a.2.1 a.2.2) ∧ (items.map Prod.fst).Nodup ∧
        (∀ a ∈ items, a.1 ∉ OBJECT_PROTOTYPE) ∧
        ks = .punct "(" :: (items.flatMap named ++ [.punct ")"]) ∧
        args = items.map (fun a => (a.1, a.2.2))) := by
  have hloop := until_parses ")" []
    (fun s => (argumentStep_parses (parseValue_parses number left false) s).congr
      (fun _ _ => Iff.rfl) (fun _ _ => trivial))
    (fun _ w _ => opens_named w) []
  have hclosed := closed_parses ")" (g := id)
    (hloop.congr (fun _ _ => Iff.rfl) (fun ks h => ⟨h, fun value hvalue => absurd hvalue (List.not_mem_nil)⟩))
  refine (behind_parses "(" hclosed).congr (fun ks args => ?_) (fun _ h => h)
  constructor
  · rintro ⟨_, rfl, _, _, rfl, ⟨ws, hchain, rfl, rfl⟩, rfl⟩
    obtain ⟨hall, hproto, hnodup, -⟩ := arguments_chain.1 hchain
    exact ⟨ws, hall, hnodup, hproto, rfl, by simp [arguments_after]⟩
  · rintro ⟨ws, hall, hnodup, hproto, rfl, rfl⟩
    exact ⟨_, rfl, _, _, rfl, ⟨ws, arguments_chain.2 ⟨hall, hproto, hnodup, by simp⟩, rfl, rfl⟩,
      by simp [arguments_after]⟩

theorem optionalArguments_parses :
    Reads Token.kind (optionalArguments (parseValue number left false)) (ArgumentTokens number left)
      (fun tail => next tail ≠ .punct "(") := by
  refine (part_parses "(" (parseArguments_parses number) ?_).congr (fun ks args => ?_)
    (fun _ h => ⟨trivial, h⟩)
  · rintro ks args ⟨items, -, -, -, rfl, -⟩
    exact ⟨_, rfl⟩
  · constructor
    · rintro (⟨items, hall, hnodup, hproto, rfl, rfl⟩ | ⟨rfl, rfl⟩)
      · exact .present hall hnodup hproto
      · exact .absent
    · intro h
      cases h with
      | absent => exact .inr ⟨rfl, rfl⟩
      | present hall hnodup hproto => exact .inl ⟨_, hall, hnodup, hproto, rfl, rfl⟩

theorem directive_parses (directives : List DirectiveNode) :
    Reads Token.kind
      (expectPunct "@" >>= fun _ => expectName >>= fun name =>
        optionalArguments (parseValue number left false) >>= fun args =>
          pure (directives ++ [⟨name, args⟩]))
      ((Items.collect (DirectiveTokens number left)).round directives)
      (fun tail => next tail ≠ .punct "(") := by
  refine (behind_parses "@" (name_parses fun name => (optionalArguments_parses number).map
      fun args => directives ++ [(⟨name, args⟩ : DirectiveNode)])).congr (fun ks ds => ?_) (fun _ h => h)
  constructor
  · rintro ⟨_, rfl, name, ks', rfl, args, hargs, rfl⟩
    exact ⟨(_, ⟨name, args⟩), .mk hargs, rfl, rfl⟩
  · rintro ⟨⟨ks', d⟩, hd, rfl, rfl⟩
    cases hd with
    | mk hargs => exact ⟨_, rfl, _, _, rfl, _, hargs, rfl⟩

theorem directive_tokens {number : String → JsNumber} (s : List DirectiveNode)
    (w : List TokenKind × DirectiveNode) (hw : (Items.collect (DirectiveTokens number left)).allowed s w) :
    ∃ ks, (Items.collect (DirectiveTokens number left)).tokens w = .punct "@" :: ks := by
  obtain ⟨ks, d⟩ := w
  cases hw with
  | mk hargs => exact ⟨_, rfl⟩

theorem parseDirectives_eq (value : Reader ValueNode) :
    parseDirectives value = repeatWhile stuck (isPunct "@") (fun directives =>
      expectPunct "@" >>= fun _ => expectName >>= fun name => optionalArguments value >>= fun args =>
        pure (directives ++ [⟨name, args⟩])) [] := by
  rw [parseDirectives, repeatWhile_congr]
  intro directives ts hts
  exact advance_bind (by simpa [isPunct] using hts)

theorem parseDirectives_parses :
    Reads Token.kind (parseDirectives (parseValue number left false)) (DirectivesTokens number left)
      (Clear ["(", "@"]) := by
  rw [parseDirectives_eq]
  refine (Reads.loop stuck (nextPunct "@") (isPunct_eq "@") (directive_parses number) ?_ ?_ ?_ []).congr
    (fun ks ds => Items.rounds_collect) (fun ks h => ?_)
  · intro s w hw
    obtain ⟨ks, hks⟩ := directive_tokens s w hw
    simp [hks]
  · intro s w tail hw
    obtain ⟨ks, hks⟩ := directive_tokens s w hw
    simp [hks, nextPunct]
  · intro s w tail hw
    obtain ⟨ks, hks⟩ := directive_tokens s w hw
    simp [hks]
  · exact ⟨nextPunct_false.2 (h "@" (by simp)), h "(" (by simp)⟩

end levels

end SorobanLens.GraphQL
