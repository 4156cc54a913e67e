import Mathlib.Data.List.TakeWhile
import Mathlib.Tactic.Common

/-!
Parsers that take tokens from the front of a list, the loop that reads items until
something else comes, and what relates such a loop to the sequences it accepts.
-/

set_option autoImplicit false

namespace TokenParser

variable {τ κ ε α β σ ω : Type}

abbrev Parser (τ ε : Type) := StateT (List τ) (Except ε)

theorem bind_of_ok {p : Parser τ ε α} {f : α → Parser τ ε β} {ts mid : List τ} {a : α}
    (h : p ts = .ok (a, mid)) : (p >>= f) ts = f a mid := by
  simp [bind, StateT.bind, Except.bind, h]

theorem bind_of_error {p : Parser τ ε α} {f : α → Parser τ ε β} {ts : List τ} {e : ε}
    (h : p ts = .error e) : (p >>= f) ts = .error e := by
  simp [bind, StateT.bind, Except.bind, h]

theorem bind_ok_iff {p : Parser τ ε α} {f : α → Parser τ ε β} {ts rest : List τ} {b : β} :
    (p >>= f) ts = .ok (b, rest) ↔ ∃ a mid, p ts = .ok (a, mid) ∧ f a mid = .ok (b, rest) := by
  cases hp : p ts with
  | error e => simp [bind_of_error hp]
  | ok r =>
    obtain ⟨a, mid⟩ := r
    simp [bind_of_ok hp]

theorem pure_apply (a : α) (ts : List τ) : (pure a : Parser τ ε α) ts = .ok (a, ts) := rfl

theorem pure_ok_iff {a b : α} {ts rest : List τ} :
    (pure a : Parser τ ε α) ts = .ok (b, rest) ↔ a = b ∧ ts = rest := by
  rw [pure_apply, Except.ok.injEq, Prod.mk.injEq]

theorem map_ok_iff {p : Parser τ ε α} {f : α → β} {ts rest : List τ} {b : β} :
    (f <$> p) ts = .ok (b, rest) ↔ ∃ a, p ts = .ok (a, rest) ∧ f a = b := by
  rw [map_eq_pure_bind, bind_ok_iff]
  constructor
  · rintro ⟨a, mid, ha, hb⟩
    obtain ⟨rfl, rfl⟩ := pure_ok_iff.1 hb
    exact ⟨a, ha, rfl⟩
  · rintro ⟨a, ha, rfl⟩
    exact ⟨a, rest, ha, rfl⟩

/-! ### The loop -/

/-- Run `step` while `go` holds of what is left; the number bounds the rounds. -/
def loopWhile (stuck : ε) (go : List τ → Bool) (step : σ → Parser τ ε σ) : Nat → σ → Parser τ ε σ
  | 0, _ => fun _ => .error stuck
  | n + 1, s => fun ts => if go ts then (step s >>= loopWhile stuck go step n) ts else .ok (s, ts)

theorem loopWhile_go {stuck : ε} {go : List τ → Bool} {step : σ → Parser τ ε σ} {n : Nat} {s : σ}
    {ts : List τ} (h : go ts = true) :
    loopWhile stuck go step (n + 1) s ts = (step s >>= loopWhile stuck go step n) ts :=
  if_pos h

theorem loopWhile_stop {stuck : ε} {go : List τ → Bool} {step : σ → Parser τ ε σ} {n : Nat} {s : σ}
    {ts : List τ} (h : go ts = false) : loopWhile stuck go step (n + 1) s ts = .ok (s, ts) :=
  if_neg (by simp [h])

/-- A loop whose rounds each take a token: there are no more rounds than tokens. -/
def repeatWhile (stuck : ε) (go : List τ → Bool) (step : σ → Parser τ ε σ) (s : σ) : Parser τ ε σ :=
  fun ts => loopWhile stuck go step (ts.length + 1) s ts

/-- The items a loop reads: how each is written, which may come in a given state,
and the state it leads to. -/
structure Items (κ σ ω : Type) where
  tokens : ω → List κ
  allowed : σ → ω → Prop
  add : σ → ω → σ

namespace Items

variable (I : Items κ σ ω)

def written (ws : List ω) : List κ := ws.flatMap I.tokens

def after (s : σ) (ws : List ω) : σ := ws.foldl I.add s

def Chain (follow : ω → List κ → Prop) (tail : List κ) : σ → List ω → Prop
  | _, [] => True
  | s, w :: ws =>
    I.allowed s w ∧ follow w (I.written ws ++ tail) ∧ Chain follow tail (I.add s w) ws

variable {I} {follow follow' : ω → List κ → Prop} {tail : List κ}

@[simp] theorem written_nil : I.written [] = [] := rfl

@[simp] theorem written_cons (w : ω) (ws : List ω) :
    I.written (w :: ws) = I.tokens w ++ I.written ws := rfl

@[simp] theorem after_nil (s : σ) : I.after s [] = s := rfl

@[simp] theorem after_cons (s : σ) (w : ω) (ws : List ω) :
    I.after s (w :: ws) = I.after (I.add s w) ws := rfl

/-- Where the state does not matter, a chain is a list of allowed items. -/
theorem chain_of_forall {s : σ} {ws : List ω} (hallowed : ∀ w ∈ ws, ∀ s, I.allowed s w)
    (hfollow : ∀ w ∈ ws, ∀ ks, follow w ks) : I.Chain follow tail s ws := by
  induction ws generalizing s with
  | nil => exact trivial
  | cons w ws ih =>
    have hrest := ih (s := I.add s w) (fun v hv => hallowed v (List.mem_cons_of_mem w hv))
      (fun v hv => hfollow v (List.mem_cons_of_mem w hv))
    exact ⟨hallowed w List.mem_cons_self s, hfollow w List.mem_cons_self _, hrest⟩

theorem Chain.forall {P : ω → Prop} {s : σ} {ws : List ω} (h : I.Chain follow tail s ws)
    (hP : ∀ s w, I.allowed s w → P w) : ∀ w ∈ ws, P w := by
  induction ws generalizing s with
  | nil => simp
  | cons w ws ih =>
    intro v hv
    obtain rfl | hv := List.mem_cons.1 hv
    · exact hP s v h.1
    · exact ih h.2.2 v hv

/-- Follow conditions may be exchanged when what comes next decides them: the first
token of the next item, or the tail. -/
theorem Chain.follow_of_first {s : σ} {ws : List ω} (h : I.Chain follow tail s ws)
    (htail : ∀ w, follow' w tail)
    (hnext : ∀ s w v ks, I.allowed s w → follow' v (I.tokens w ++ ks)) :
    I.Chain follow' tail s ws := by
  induction ws generalizing s with
  | nil => exact trivial
  | cons w ws ih =>
    refine ⟨h.1, ?_, ih h.2.2⟩
    cases ws with
    | nil => exact htail w
    | cons v vs =>
      rw [written_cons, List.append_assoc]
      exact hnext _ v w _ h.2.2.1

end Items

section rules

variable {stuck : ε} {kind : τ → κ} {go : List τ → Bool} {step : σ → Parser τ ε σ}
variable {I : Items κ σ ω} {follow : ω → List κ → Prop}

def StepSound (kind : τ → κ) (go : List τ → Bool) (step : σ → Parser τ ε σ) (I : Items κ σ ω)
    (follow : ω → List κ → Prop) : Prop :=
  ∀ s ts s' rest, go ts = true → step s ts = .ok (s', rest) →
    ∃ w, I.allowed s w ∧ follow w (rest.map kind) ∧ s' = I.add s w ∧
      ts.map kind = I.tokens w ++ rest.map kind

def StepComplete (kind : τ → κ) (go : List τ → Bool) (step : σ → Parser τ ε σ) (I : Items κ σ ω)
    (follow : ω → List κ → Prop) : Prop :=
  ∀ s w ts tail, I.allowed s w → follow w tail → ts.map kind = I.tokens w ++ tail →
    go ts = true ∧ ∃ rest, step s ts = .ok (I.add s w, rest) ∧ rest.map kind = tail

theorem loopWhile_sound (hstep : StepSound kind go step I follow) (n : Nat) {s s' : σ}
    {ts rest : List τ} (h : loopWhile stuck go step n s ts = .ok (s', rest)) :
    ∃ ws, I.Chain follow (rest.map kind) s ws ∧ s' = I.after s ws ∧
      ts.map kind = I.written ws ++ rest.map kind ∧ go rest = false := by
  induction n generalizing s ts with
  | zero => simp [loopWhile] at h
  | succ n ih =>
    cases hgo : go ts with
    | true =>
      rw [loopWhile_go hgo] at h
      obtain ⟨mid, left, hone, hmore⟩ := bind_ok_iff.1 h
      obtain ⟨w, hallowed, hfollow, rfl, hw⟩ := hstep s ts mid left hgo hone
      obtain ⟨ws, hchain, rfl, hws, hstop⟩ := ih hmore
      refine ⟨w :: ws, ⟨hallowed, ?_, hchain⟩, rfl, ?_, hstop⟩
      · rwa [← hws]
      · rw [hw, hws, Items.written_cons, List.append_assoc]
    | false =>
      rw [loopWhile_stop hgo] at h
      obtain ⟨rfl, rfl⟩ : s = s' ∧ ts = rest := by simpa using h
      exact ⟨[], trivial, rfl, rfl, hgo⟩

theorem loopWhile_complete (hstep : StepComplete kind go step I follow)
    (htokens : ∀ s w, I.allowed s w → I.tokens w ≠ []) (n : Nat) {s : σ} {ws : List ω}
    {ts : List τ} {tail : List κ} (hn : ts.length < n) (hchain : I.Chain follow tail s ws)
    (hts : ts.map kind = I.written ws ++ tail)
    (hstop : ∀ rest, rest.map kind = tail → go rest = false) :
    ∃ rest, loopWhile stuck go step n s ts = .ok (I.after s ws, rest) ∧ rest.map kind = tail := by
  induction ws generalizing n s ts with
  | nil =>
    obtain ⟨m, rfl⟩ : ∃ m, n = m + 1 := ⟨n - 1, by omega⟩
    have htail : ts.map kind = tail := by simpa using hts
    exact ⟨ts, loopWhile_stop (hstop ts htail), htail⟩
  | cons w ws ih =>
    obtain ⟨m, rfl⟩ : ∃ m, n = m + 1 := ⟨n - 1, by omega⟩
    obtain ⟨hallowed, hfollow, hrest⟩ := hchain
    rw [Items.written_cons, List.append_assoc] at hts
    obtain ⟨hgo, left, hone, hleft⟩ := hstep s w ts _ hallowed hfollow hts
    have hlength : left.length < m := by
      have hw := List.length_pos_iff.2 (htokens s w hallowed)
      have h1 := congrArg List.length hts
      have h2 := congrArg List.length hleft
      simp only [List.length_map, List.length_append] at h1 h2
      omega
    obtain ⟨rest, hmore, hrest⟩ := ih m hlength hrest hleft
    refine ⟨rest, ?_, hrest⟩
    rw [loopWhile_go hgo, bind_of_ok hone, hmore, Items.after_cons]

theorem repeatWhile_sound (hstep : StepSound kind go step I follow) {s s' : σ} {ts rest : List τ}
    (h : repeatWhile stuck go step s ts = .ok (s', rest)) :
    ∃ ws, I.Chain follow (rest.map kind) s ws ∧ s' = I.after s ws ∧
      ts.map kind = I.written ws ++ rest.map kind ∧ go rest = false :=
  loopWhile_sound hstep _ h

theorem repeatWhile_complete (stuck : ε) (hstep : StepComplete kind go step I follow)
    (htokens : ∀ s w, I.allowed s w → I.tokens w ≠ []) {s : σ} {ws : List ω} {ts : List τ}
    {tail : List κ} (hchain : I.Chain follow tail s ws) (hts : ts.map kind = I.written ws ++ tail)
    (hstop : ∀ rest, rest.map kind = tail → go rest = false) :
    ∃ rest, repeatWhile stuck go step s ts = .ok (I.after s ws, rest) ∧ rest.map kind = tail :=
  loopWhile_complete hstep htokens _ (Nat.lt_succ_self _) hchain hts hstop

end rules

theorem repeatWhile_congr {stuck : ε} {go : List τ → Bool} {step step' : σ → Parser τ ε σ}
    (h : ∀ s ts, go ts = true → step s ts = step' s ts) :
    repeatWhile stuck go step = repeatWhile stuck go step' := by
  have hrounds : ∀ n s ts, loopWhile stuck go step n s ts = loopWhile stuck go step' n s ts := by
    intro n
    induction n with
    | zero => intro s ts; rfl
    | succ n ih =>
      intro s ts
      cases hgo : go ts with
      | true =>
        rw [loopWhile_go hgo, loopWhile_go hgo]
        cases hstep : step s ts with
        | error e => rw [bind_of_error hstep, bind_of_error (h s ts hgo ▸ hstep)]
        | ok r =>
          obtain ⟨s', mid⟩ := r
          rw [bind_of_ok hstep, bind_of_ok (h s ts hgo ▸ hstep), ih]
      | false => rw [loopWhile_stop hgo, loopWhile_stop hgo]
  funext s ts
  exact hrounds _ s ts

theorem repeatWhile_stop {stuck : ε} {go : List τ → Bool} {step : σ → Parser τ ε σ} {s s' : σ}
    {ts rest : List τ} (h : repeatWhile stuck go step s ts = .ok (s', rest)) : go rest = false := by
  unfold repeatWhile at h
  generalize ts.length + 1 = n at h
  induction n generalizing s ts with
  | zero => simp [loopWhile] at h
  | succ n ih =>
    cases hgo : go ts with
    | true =>
      rw [loopWhile_go hgo] at h
      obtain ⟨s₁, mid, -, hmore⟩ := bind_ok_iff.1 h
      exact ih hmore
    | false =>
      rw [loopWhile_stop hgo] at h
      obtain ⟨-, rfl⟩ : s = s' ∧ ts = rest := by simpa using h
      exact hgo

/-! ### Grammars -/

/-- `p` reads what `G` describes: what it has read is a sentence of `G` for the value
it returns, and it reads every sentence that stands where `follow` allows. -/
structure Reads (kind : τ → κ) (p : Parser τ ε α) (G : List κ → α → Prop)
    (follow : List κ → Prop) : Prop where
  sound : ∀ {ts a rest}, p ts = .ok (a, rest) → ∃ ks, G ks a ∧ ts.map kind = ks ++ rest.map kind
  complete : ∀ {ts ks a tail}, G ks a → ts.map kind = ks ++ tail → follow tail →
    ∃ rest, p ts = .ok (a, rest) ∧ rest.map kind = tail

def ifNext (go : List τ → Bool) (p q : Parser τ ε α) : Parser τ ε α :=
  fun ts => if go ts then p ts else q ts

def Refuses (p : Parser τ ε α) : Prop := ∀ ts, ∃ e, p ts = .error e

section grammars

variable {kind : τ → κ} {follow follow' : List κ → Prop} {p q : Parser τ ε α}
variable {f : α → Parser τ ε β} {G G' : List κ → α → Prop} {H : α → List κ → β → Prop}

theorem Reads.congr (hp : Reads kind p G follow) (hG : ∀ ks a, G ks a ↔ G' ks a)
    (hfollow : ∀ ks, follow' ks → follow ks) : Reads kind p G' follow' where
  sound h := by
    obtain ⟨ks, hks, hts⟩ := hp.sound h
    exact ⟨ks, (hG ks _).1 hks, hts⟩
  complete hks hts htail := hp.complete ((hG _ _).2 hks) hts (hfollow _ htail)

theorem Reads.pure (a : α) :
    Reads kind (pure a : Parser τ ε α) (fun ks b => ks = [] ∧ b = a) (fun _ => True) where
  sound h := by
    obtain ⟨rfl, rfl⟩ := pure_ok_iff.1 h
    exact ⟨[], ⟨rfl, rfl⟩, rfl⟩
  complete := by
    rintro ts ks b tail ⟨rfl, rfl⟩ hts -
    exact ⟨ts, rfl, hts⟩

theorem Reads.bind (hp : Reads kind p G follow) (hf : ∀ a, Reads kind (f a) (H a) follow')
    (hnext : ∀ a ks b tail, H a ks b → follow' tail → follow (ks ++ tail)) :
    Reads kind (p >>= f) (fun ks b => ∃ k₁ a k₂, G k₁ a ∧ H a k₂ b ∧ ks = k₁ ++ k₂) follow' where
  sound h := by
    obtain ⟨a, mid, ha, hb⟩ := bind_ok_iff.1 h
    obtain ⟨k₁, hk₁, hts⟩ := hp.sound ha
    obtain ⟨k₂, hk₂, hmid⟩ := (hf a).sound hb
    exact ⟨k₁ ++ k₂, ⟨k₁, a, k₂, hk₁, hk₂, rfl⟩, by rw [hts, hmid, List.append_assoc]⟩
  complete := by
    rintro ts ks b tail ⟨k₁, a, k₂, hk₁, hk₂, rfl⟩ hts htail
    rw [List.append_assoc] at hts
    obtain ⟨mid, ha, hmid⟩ := hp.complete hk₁ hts (hnext a k₂ b tail hk₂ htail)
    obtain ⟨rest, hb, hrest⟩ := (hf a).complete hk₂ hmid htail
    exact ⟨rest, by rw [bind_of_ok ha, hb], hrest⟩

theorem Reads.map (g : α → β) (hp : Reads kind p G follow) :
    Reads kind (g <$> p) (fun ks b => ∃ a, G ks a ∧ b = g a) follow where
  sound h := by
    obtain ⟨a, ha, rfl⟩ := map_ok_iff.1 h
    obtain ⟨ks, hks, hts⟩ := hp.sound ha
    exact ⟨ks, ⟨a, hks, rfl⟩, hts⟩
  complete := by
    rintro ts ks b tail ⟨a, hks, rfl⟩ hts htail
    obtain ⟨rest, ha, hrest⟩ := hp.complete hks hts htail
    exact ⟨rest, map_ok_iff.2 ⟨a, ha, rfl⟩, hrest⟩

theorem Reads.choice (next : List κ → Bool) {go : List τ → Bool}
    (hgo : ∀ ts, go ts = next (ts.map kind)) (hp : Reads kind p G follow)
    (hq : Reads kind q G' follow)
    (hG : ∀ ks a tail, G ks a → next (ks ++ tail) = true)
    (hG' : ∀ ks a tail, G' ks a → follow tail → next (ks ++ tail) = false) :
    Reads kind (ifNext go p q) (fun ks a => G ks a ∨ G' ks a) follow where
  sound h := by
    unfold ifNext at h
    split at h
    · obtain ⟨ks, hks, hts⟩ := hp.sound h
      exact ⟨ks, .inl hks, hts⟩
    · obtain ⟨ks, hks, hts⟩ := hq.sound h
      exact ⟨ks, .inr hks, hts⟩
  complete := by
    rintro ts ks a tail (hks | hks) hts htail
    · have hnext : go ts = true := by rw [hgo, hts, hG ks a tail hks]
      obtain ⟨rest, ha, hrest⟩ := hp.complete hks hts htail
      exact ⟨rest, (if_pos hnext).trans ha, hrest⟩
    · have hnext : go ts = false := by rw [hgo, hts, hG' ks a tail hks htail]
      obtain ⟨rest, ha, hrest⟩ := hq.complete hks hts htail
      exact ⟨rest, (if_neg (by simp [hnext])).trans ha, hrest⟩

theorem Reads.of_refuses (hp : Refuses p) : Reads kind p (fun _ _ => False) follow where
  sound h := by
    obtain ⟨e, he⟩ := hp _
    rw [he] at h
    cases h
  complete h := h.elim

theorem Reads.unless {c : Prop} [Decidable c] (hp : Refuses p) (hq : Reads kind q G follow) :
    Reads kind (if c then p else q) (fun ks a => ¬c ∧ G ks a) follow where
  sound h := by
    split at h
    · obtain ⟨e, he⟩ := hp _
      rw [he] at h
      cases h
    · rename_i hc
      obtain ⟨ks, hks, hts⟩ := hq.sound h
      exact ⟨ks, ⟨hc, hks⟩, hts⟩
  complete := by
    rintro ts ks a tail ⟨hc, hks⟩ hts htail
    rw [if_neg hc]
    exact hq.complete hks hts htail

theorem Reads.unlessNext (next : List κ → Bool) {go : List τ → Bool}
    (hgo : ∀ ts, go ts = next (ts.map kind)) (hp : Refuses p) (hq : Reads kind q G follow)
    (hG : ∀ ks a tail, G ks a → follow tail → next (ks ++ tail) = false) :
    Reads kind (ifNext go p q) G follow :=
  (Reads.choice next hgo (Reads.of_refuses hp) hq (fun _ _ _ h => h.elim) hG).congr
    (fun _ _ => by simp) (fun _ h => h)

def Items.round (I : Items κ σ ω) (s : σ) (ks : List κ) (s' : σ) : Prop :=
  ∃ w, I.allowed s w ∧ ks = I.tokens w ∧ s' = I.add s w

def Items.rounds (I : Items κ σ ω) (s : σ) (ks : List κ) (s' : σ) : Prop :=
  ∃ ws, I.Chain (fun _ _ => True) [] s ws ∧ ks = I.written ws ∧ s' = I.after s ws

def Items.collect (G : List κ → α → Prop) : Items κ (List α) (List κ × α) where
  tokens w := w.1
  allowed _ w := G w.1 w.2
  add s w := s ++ [w.2]

theorem Items.after_collect (s : List α) (ws : List (List κ × α)) :
    (Items.collect G).after s ws = s ++ ws.map Prod.snd := by
  induction ws generalizing s with
  | nil => simp
  | cons w ws ih =>
    rw [after_cons, ih]
    simp [collect]

theorem Items.rounds_collect {ks : List κ} {as : List α} :
    (Items.collect G).rounds [] ks as ↔ ∃ ws : List (List κ × α), (∀ w ∈ ws, G w.1 w.2) ∧
      ks = ws.flatMap Prod.fst ∧ as = ws.map Prod.snd := by
  constructor
  · rintro ⟨ws, hchain, rfl, rfl⟩
    exact ⟨ws, hchain.forall (fun _ _ hw => hw), rfl, by simp [Items.after_collect]⟩
  · rintro ⟨ws, hws, rfl, rfl⟩
    exact ⟨ws, chain_of_forall (fun w hw _ => hws w hw) (fun _ _ _ => trivial), rfl,
      by simp [Items.after_collect]⟩

theorem Reads.collect (hp : Reads kind p G follow) (s : List α) :
    Reads kind ((fun a => s ++ [a]) <$> p) ((Items.collect G).round s) follow := by
  refine (hp.map (fun a => s ++ [a])).congr (fun ks s' => ?_) (fun _ h => h)
  constructor
  · rintro ⟨a, ha, rfl⟩
    exact ⟨(ks, a), ha, rfl, rfl⟩
  · rintro ⟨w, hw, rfl, rfl⟩
    exact ⟨w.2, hw, rfl⟩

theorem Items.Chain.retail {I : Items κ σ ω} {tail tail' : List κ} {s : σ} {ws : List ω}
    (h : I.Chain (fun _ _ => True) tail s ws) : I.Chain (fun _ _ => True) tail' s ws := by
  induction ws generalizing s with
  | nil => exact trivial
  | cons w ws ih => exact ⟨h.1, trivial, ih h.2.2⟩

/-- A loop that ends where no item starts reads the items in a row. -/
theorem Reads.loop (stuck : ε) (next : List κ → Bool) {go : List τ → Bool}
    {step : σ → Parser τ ε σ} {I : Items κ σ ω} (hgo : ∀ ts, go ts = next (ts.map kind))
    (hstep : ∀ s, Reads kind (step s) (I.round s) follow)
    (htokens : ∀ s w, I.allowed s w → I.tokens w ≠ [])
    (hnext : ∀ s w ks, I.allowed s w → next (I.tokens w ++ ks) = true)
    (hfollow : ∀ s w ks, I.allowed s w → follow (I.tokens w ++ ks)) (s : σ) :
    Reads kind (repeatWhile stuck go step s) (I.rounds s)
      (fun tail => next tail = false ∧ follow tail) where
  sound {ts s' rest} h := by
    have hsound : StepSound kind go step I (fun _ _ => True) := by
      intro s ts s' rest _ hs
      obtain ⟨ks, ⟨w, hw, rfl, rfl⟩, hts⟩ := (hstep s).sound hs
      exact ⟨w, hw, trivial, rfl, hts⟩
    obtain ⟨ws, hchain, rfl, hts, -⟩ := repeatWhile_sound hsound h
    exact ⟨_, ⟨ws, hchain.retail, rfl, rfl⟩, hts⟩
  complete := by
    rintro ts ks s' tail ⟨ws, hchain, rfl, rfl⟩ hts ⟨hstop, htail⟩
    have hcomplete : StepComplete kind go step I (fun _ => follow) := by
      intro s w ts tail hw hfw hts
      obtain ⟨rest, hrun, hrest⟩ := (hstep s).complete ⟨w, hw, rfl, rfl⟩ hts hfw
      exact ⟨by rw [hgo, hts, hnext s w tail hw], rest, hrun, hrest⟩
    have hchain' : I.Chain (fun _ => follow) tail s ws :=
      hchain.retail.follow_of_first (fun _ => htail)
        (fun s w _ ks hw => hfollow s w ks hw)
    exact repeatWhile_complete stuck hcomplete htokens hchain' hts
      (fun rest hrest => by rw [hgo, hrest, hstop])

end grammars

/-! ### What holds of a run -/

/-- From tokens with `pre`, the parser succeeds with `post`, or fails with `fails`. -/
def Triple (pre : List τ → Prop) (p : Parser τ ε α) (post : α → List τ → Prop)
    (fails : ε → Prop) : Prop :=
  ∀ ts, pre ts → (∀ a rest, p ts = .ok (a, rest) → post a rest) ∧ ∀ e, p ts = .error e → fails e

section triples

variable {pre pre' : List τ → Prop} {post : α → List τ → Prop} {post' : β → List τ → Prop}
variable {fails : ε → Prop} {p : Parser τ ε α} {f : α → Parser τ ε β}

theorem Triple.pure {a : α} (h : ∀ ts, pre ts → post a ts) :
    Triple pre (pure a : Parser τ ε α) post fails := by
  intro ts hts
  constructor
  · intro b rest hb
    obtain ⟨rfl, rfl⟩ := pure_ok_iff.1 hb
    exact h ts hts
  · intro e he
    simp [pure_apply] at he

theorem Triple.bind (hp : Triple pre p post fails) (hf : ∀ a, Triple (post a) (f a) post' fails) :
    Triple pre (p >>= f) post' fails := by
  intro ts hts
  obtain ⟨hok, herror⟩ := hp ts hts
  cases h : p ts with
  | error e =>
    rw [bind_of_error h]
    exact ⟨by simp, fun e' he' => by cases he'; exact herror e h⟩
  | ok r =>
    obtain ⟨a, mid⟩ := r
    rw [bind_of_ok h]
    exact hf a mid (hok a mid h)

theorem Triple.map {g : α → β} (hp : Triple pre p post fails) :
    Triple pre (g <$> p) (fun _ _ => True) fails := by
  rw [map_eq_pure_bind]
  exact hp.bind fun _ => .pure fun _ _ => trivial

theorem Triple.ite {c : Prop} [Decidable c] {q : Parser τ ε α} (hp : c → Triple pre p post fails)
    (hq : ¬ c → Triple pre q post fails) : Triple pre (if c then p else q) post fails := by
  split
  · exact hp ‹c›
  · exact hq ‹¬ c›

theorem Triple.of_imp (hp : Triple pre p post fails) (h : ∀ ts, pre' ts → pre ts) :
    Triple pre' p post fails :=
  fun ts hts => hp ts (h ts hts)

/-- A loop whose rounds each take a token ends, and fails only where a round fails. -/
theorem Triple.loop (stuck : ε) {go : List τ → Bool} {step : σ → Parser τ ε σ}
    {inv : σ → List τ → Prop}
    (hstep : ∀ s, Triple (fun ts => inv s ts ∧ go ts = true) (step s) inv fails)
    (hshorter : ∀ s ts s' rest, go ts = true → step s ts = .ok (s', rest) → rest.length < ts.length)
    (s : σ) : Triple (inv s) (repeatWhile stuck go step s)
      (fun s' rest => inv s' rest ∧ go rest = false) fails := by
  have hrounds : ∀ n s ts, ts.length < n → inv s ts →
      (∀ s' rest, loopWhile stuck go step n s ts = .ok (s', rest) → inv s' rest ∧ go rest = false) ∧
      ∀ e, loopWhile stuck go step n s ts = .error e → fails e := by
    intro n
    induction n with
    | zero => intro s ts hn; omega
    | succ n ih =>
      intro s ts hn hts
      cases hgo : go ts with
      | true =>
        rw [loopWhile_go hgo]
        obtain ⟨hok, herror⟩ := hstep s ts ⟨hts, hgo⟩
        cases h : step s ts with
        | error e =>
          rw [bind_of_error h]
          exact ⟨by simp, fun e' he' => by cases he'; exact herror e h⟩
        | ok r =>
          obtain ⟨s', mid⟩ := r
          rw [bind_of_ok h]
          have hlength := hshorter s ts s' mid hgo h
          exact ih s' mid (by omega) (hok s' mid h)
      | false =>
        rw [loopWhile_stop hgo]
        constructor
        · intro s' rest h
          obtain ⟨rfl, rfl⟩ : s = s' ∧ ts = rest := by simpa using h
          exact ⟨hts, hgo⟩
        · simp
  exact fun ts hts => hrounds _ s ts (Nat.lt_succ_self _) hts

theorem Triple.choice {go : List τ → Bool} {q : Parser τ ε α} (hp : Triple pre p post fails)
    (hq : Triple pre q post fails) : Triple pre (ifNext go p q) post fails := by
  intro ts hts
  unfold ifNext
  split
  · exact hp ts hts
  · exact hq ts hts

theorem Reads.shorter {kind : τ → κ} {step : σ → Parser τ ε σ} {I : Items κ σ ω}
    {follow : List κ → Prop} (hstep : ∀ s, Reads kind (step s) (I.round s) follow)
    (htokens : ∀ s w, I.allowed s w → I.tokens w ≠ []) (s : σ) (ts : List τ) (s' : σ)
    (rest : List τ) (h : step s ts = .ok (s', rest)) : rest.length < ts.length := by
  obtain ⟨ks, ⟨w, hw, rfl, rfl⟩, hts⟩ := (hstep s).sound h
  have hpos := List.length_pos_iff.2 (htokens s w hw)
  have hlength := congrArg List.length hts
  simp only [List.length_map, List.length_append] at hlength
  omega

theorem StepSound.shorter {kind : τ → κ} {go : List τ → Bool} {step : σ → Parser τ ε σ}
    {I : Items κ σ ω} {follow : ω → List κ → Prop} (hstep : StepSound kind go step I follow)
    (htokens : ∀ s w, I.allowed s w → I.tokens w ≠ []) (s : σ) (ts : List τ) (s' : σ)
    (rest : List τ) (hgo : go ts = true) (h : step s ts = .ok (s', rest)) :
    rest.length < ts.length := by
  obtain ⟨w, hallowed, -, -, hw⟩ := hstep s ts s' rest hgo h
  have hpos := List.length_pos_iff.2 (htokens s w hallowed)
  have hlength := congrArg List.length hw
  simp only [List.length_map, List.length_append] at hlength
  omega

end triples

/-! ### Runs of a class -/

theorem span_eq_iff {p : τ → Bool} {l run rest : List τ} :
    l.takeWhile p = run ∧ l.dropWhile p = rest ↔
      l = run ++ rest ∧ (∀ t ∈ run, p t = true) ∧ ∀ t ∈ rest.head?, p t = false := by
  constructor
  · rintro ⟨rfl, rfl⟩
    refine ⟨List.takeWhile_append_dropWhile.symm, fun t ht => List.mem_takeWhile_imp ht, ?_⟩
    intro t ht
    have hhead := List.head?_dropWhile_not p l
    rw [ht] at hhead
    simpa using hhead
  · rintro ⟨rfl, hrun, hrest⟩
    induction run with
    | nil =>
      cases rest with
      | nil => simp
      | cons t ts =>
        have ht : p t = false := hrest t rfl
        simp [ht]
    | cons r run ih =>
      have hr : p r = true := hrun r List.mem_cons_self
      obtain ⟨h1, h2⟩ := ih (fun t ht => hrun t (List.mem_cons_of_mem r ht))
      simp [hr, h1, h2]

end TokenParser
