import SorobanLens.Api.GraphQL.Execute

/-!
The limits of a query on their way to the store: a page or a list is never asked
for more items than its field was estimated with.
-/

set_option autoImplicit false

namespace SorobanLens.GraphQL

open SorobanLens

/-! ### Arguments -/

theorem coerceArg_int {field name : String} {raw v : JsValue} {required : Bool}
    (h : coerceArg field name ⟨.int, required⟩ raw = .ok v) :
    v = .null ∨ ∃ q : ℚ, v = .number (.fin q) ∧ q.den = 1 := by
  cases raw with
  | null =>
    cases required with
    | true => simp [coerceArg] at h
    | false =>
      simp only [coerceArg, Bool.false_eq_true, if_false, Except.ok.injEq] at h
      exact .inl h.symm
  | number n =>
    simp only [coerceArg] at h
    split at h
    · rename_i hint
      cases h
      cases n with
      | fin q => exact .inr ⟨q, rfl, by simpa [JsNumber.isInteger] using hint⟩
      | nan => cases hint
      | posInf => cases hint
      | negInf => cases hint
    · cases h
  | undefined => simp [coerceArg] at h
  | boolean b => simp [coerceArg] at h
  | string s => simp [coerceArg] at h
  | array items => simp [coerceArg] at h
  | object fields => simp [coerceArg] at h
  | inherited => simp [coerceArg] at h

/-- Every resolved argument is declared, and was coerced to its type; none is
given twice. -/
theorem resolveDeclared_ok {field : String} {given : List (String × ValueNode)} {vars : Variables}
    {declared : List (String × ArgDef)} {args : Args}
    (h : resolveDeclared field given vars declared = .ok args) :
    (args.map Prod.fst).Sublist (declared.map Prod.fst) ∧
      ∀ a ∈ args, ∃ d raw, (a.1, d) ∈ declared ∧ coerceArg field a.1 d raw = .ok a.2 := by
  induction declared generalizing args with
  | nil =>
    cases h
    exact ⟨List.Sublist.refl _, by simp⟩
  | cons d ds ih =>
    obtain ⟨name, argDef⟩ := d
    have hskip : ∀ {args : Args}, resolveDeclared field given vars ds = .ok args →
        (args.map Prod.fst).Sublist (((name, argDef) :: ds).map Prod.fst) ∧
          ∀ a ∈ args, ∃ d raw, (a.1, d) ∈ (name, argDef) :: ds ∧ coerceArg field a.1 d raw = .ok a.2 := by
      intro args hrest
      obtain ⟨hsub, hall⟩ := ih hrest
      refine ⟨hsub.cons _, ?_⟩
      intro a ha
      obtain ⟨d, raw, hd, hc⟩ := hall a ha
      exact ⟨d, raw, List.mem_cons_of_mem _ hd, hc⟩
    unfold resolveDeclared at h
    split at h
    · split at h
      · cases h
      · exact hskip h
    · obtain ⟨value, hv, h⟩ := bind_eq_ok.mp h
      obtain ⟨rest, hrest, h⟩ := bind_eq_ok.mp h
      cases h
      obtain ⟨hsub, hall⟩ := ih hrest
      refine ⟨hsub.cons_cons name, ?_⟩
      intro a ha
      rcases List.mem_cons.mp ha with rfl | ha
      · exact ⟨argDef, _, List.mem_cons_self, hv⟩
      · obtain ⟨d, raw, hd, hc⟩ := hall a ha
        exact ⟨d, raw, List.mem_cons_of_mem _ hd, hc⟩

theorem resolveArgs_ok {field : String} {declared : List (String × ArgDef)}
    {given : List (String × ValueNode)} {vars : Variables} {args : Args}
    (h : resolveArgs field declared given vars = .ok args) :
    resolveDeclared field given vars declared = .ok args := by
  unfold resolveArgs at h
  split at h
  · cases h
  · exact h

theorem schema_args (t : ObjectType) : ∀ f ∈ schema t,
    (f.2.args.map Prod.fst).Nodup ∧ ∀ a ∈ f.2.args, a.1 = "limit" → a.2.type = .int := by
  cases t <;> decide

theorem mem_of_lookup {α : Type} {fields : List (String × α)} {name : String} {a : α}
    (h : fields.lookup name = some a) : (name, a) ∈ fields := by
  induction fields with
  | nil => cases h
  | cons f fs ih =>
    rw [List.lookup_cons] at h
    split at h
    · rename_i heq
      cases h
      rw [eq_of_beq heq]
      exact List.mem_cons_self
    · exact List.mem_cons_of_mem f (ih h)

structure Args.Typed (args : Args) : Prop where
  nodup : (args.map Prod.fst).Nodup
  limit : ∀ v, ("limit", v) ∈ args → v = .null ∨ ∃ q : ℚ, v = .number (.fin q) ∧ q.den = 1

theorem typed_resolveArgs {t : ObjectType} {name field : String} {def_ : FieldDef}
    {given : List (String × ValueNode)} {vars : Variables} {args : Args}
    (hd : fieldDef t name = some def_) (h : resolveArgs field def_.args given vars = .ok args) :
    args.Typed := by
  obtain ⟨hnodup, hint⟩ := schema_args t _ (mem_of_lookup hd)
  obtain ⟨hsub, hall⟩ := resolveDeclared_ok (resolveArgs_ok h)
  refine ⟨hnodup.sublist hsub, ?_⟩
  intro v hv
  obtain ⟨⟨type, required⟩, raw, hdecl, hc⟩ := hall _ hv
  have htype : type = .int := hint _ hdecl rfl
  subst htype
  exact coerceArg_int hc

theorem Args.Typed.filter {args : Args} (h : args.Typed) (p : String × JsValue → Bool) :
    Args.Typed (args.filter p) :=
  ⟨h.nodup.sublist (List.filter_sublist.map _), fun v hv => h.limit v (List.mem_of_mem_filter hv)⟩

theorem Args.Typed.get_limit {args : Args} (h : args.Typed) :
    (∃ q : ℚ, args.get "limit" = .number (.fin q) ∧ q.den = 1) ∨
      (args.get "limit" = .null ∨ args.get "limit" = .undefined) := by
  cases hl : args.lookup "limit" with
  | none => exact .inr (.inr (by simp [Args.get, hl]))
  | some v =>
    rcases h.limit v (mem_of_lookup hl) with rfl | ⟨q, rfl, hq⟩
    · exact .inr (.inl (by simp [Args.get, hl]))
    · exact .inl ⟨q, by simp [Args.get, hl], hq⟩

theorem lookup_filter_ne {α : Type} {fields : List (String × α)} {name other : String}
    (h : name ≠ other) :
    (fields.filter (fun f => decide (f.1 ≠ other))).lookup name = fields.lookup name := by
  induction fields with
  | nil => rfl
  | cons f fs ih =>
    by_cases hf : f.1 = other
    · have hb : (name == f.1) = false := by
        rw [hf]
        simpa using h
      rw [List.filter_cons_of_neg (by simp [hf]), ih, List.lookup_cons, hb]
    · rw [List.filter_cons_of_pos (by simp [hf]), List.lookup_cons, List.lookup_cons, ih]

/-! ### Limits on the way to the store -/

def limitText : JsValue → Option String
  | .number n => some (JsNumber.integerText n)
  | _ => none

theorem name_argParams {a : String × JsValue} (h : a.1 ≠ "limit") :
    ∀ p ∈ argParams a, p.1 ≠ "limit" := by
  intro p hp
  unfold argParams at hp
  split at hp
  · simp at hp
  · simp at hp
  · obtain ⟨t, -, rfl⟩ := List.mem_map.mp hp
    split <;> simp
  · simp only [List.mem_singleton] at hp
    rw [hp]
    exact h

theorem lookup_append_of_not_mem {α : Type} {xs ys : List (String × α)} {name : String}
    (h : ∀ x ∈ xs, x.1 ≠ name) : (xs ++ ys).lookup name = ys.lookup name := by
  induction xs with
  | nil => rfl
  | cons x xs ih =>
    have hx : (name == x.1) = false := by simpa using (h x List.mem_cons_self).symm
    rw [List.cons_append, List.lookup_cons, hx]
    exact ih (fun y hy => h y (List.mem_cons_of_mem x hy))

theorem get_limit_params {args : Args} (h : args.Typed) :
    Params.get (args.flatMap argParams) "limit" = limitText (args.get "limit") := by
  induction args with
  | nil => rfl
  | cons a args ih =>
    obtain ⟨name, v⟩ := a
    have hn := List.nodup_cons.mp h.nodup
    have htail : Args.Typed args := ⟨hn.2, fun w hw => h.limit w (List.mem_cons_of_mem _ hw)⟩
    by_cases hname : name = "limit"
    · subst hname
      have hrest : Args.get args "limit" = .undefined := by
        cases hl : args.lookup "limit" with
        | none => simp [Args.get, hl]
        | some w => exact absurd (List.mem_map_of_mem (mem_of_lookup hl)) hn.1
      rcases h.limit v List.mem_cons_self with rfl | ⟨q, rfl, -⟩
      · have ht := ih htail
        rw [hrest] at ht
        simpa [List.flatMap_cons, argParams, Args.get, limitText] using ht
      · simp [List.flatMap_cons, argParams, Params.get, Args.get, limitText, argText]
    · have hb : ("limit" == name) = false := by simpa using fun heq : "limit" = name => hname heq.symm
      have hget : Args.get ((name, v) :: args) "limit" = Args.get args "limit" := by
        simp [Args.get, List.lookup_cons, hb]
      rw [hget, ← ih htail]
      exact lookup_append_of_not_mem (name_argParams hname)

theorem intText_ne (n : Int) : JsNumber.intText n ≠ "" := by
  intro h
  obtain ⟨-, -, d, cs, hchars, -⟩ := JsNumber.natChars_spec n.natAbs
  have hl := congrArg String.toList h
  rw [JsNumber.intText, String.toList_ofList, hchars] at hl
  split at hl <;> cases hl

theorem eventQuery_limit {ctx : Context} {args : Args} {contractId : Option String} {q : EventQuery}
    (ht : args.Typed) (h : eventQueryFromArgs ctx args contractId = .ok q) :
    (normaliseLimit ctx.max q.limit : Int) ≤ ownLimit ctx.max args := by
  obtain ⟨p, hp, hq⟩ := map_eq_ok.mp h
  have hlimit : q.limit = p.limit := by
    rw [← hq]
    split <;> rfl
  obtain ⟨hl, -⟩ := parseEventQuery_ok hp
  rw [hlimit]
  have hparam := get_limit_params ht
  rcases ht.get_limit with ⟨x, hx, hden⟩ | hnone
  · rw [hx] at hparam
    have hint : ((x.num : ℤ) : ℚ) = x := (Rat.den_eq_one_iff x).mp hden
    have htext : JsNumber.ofText (JsNumber.intText x.num) = .fin x := by
      rw [JsNumber.ofText_intText, hint]
    have hparse : intParam (args.flatMap argParams) "limit" = .ok (some (.fin x)) := by
      have hne := intText_ne x.num
      simp only [limitText, JsNumber.integerText] at hparam
      unfold intParam
      rw [hparam]
      split
      · rename_i heq
        cases heq
      · rename_i heq
        exact absurd (Option.some.inj heq) hne
      · rename_i raw _ heq
        cases heq
        rw [htext]
        simp [JsNumber.isInteger, hden]
    have hsome : limitParam ctx.max (args.flatMap argParams) = .ok p.limit := hl
    cases hpl : p.limit with
    | none =>
      rw [hpl] at hsome
      simp only [limitParam, hparse, bind, Except.bind] at hsome
      split at hsome <;> cases hsome
    | some y =>
      rw [hpl] at hsome
      obtain ⟨n, hn, hlo, hhi⟩ := limitParam_ok hsome
      have hy : y = .fin x := by
        simp only [limitParam, hparse, bind, Except.bind] at hsome
        split at hsome
        · cases hsome
        · cases hsome
          rfl
      rw [hy] at hn ⊢
      have hxn : x = (n : ℚ) := by simpa [JsNumber.ofNat] using hn
      have hnum : x.num = n := by rw [hxn]; simp
      have htrunc : JsNumber.truncate x = n := by rw [hxn]; simp [JsNumber.truncate]
      simp only [normaliseLimit, ownLimit, hx, htrunc, hnum]
      omega
  · have hget : limitText (args.get "limit") = none := by
      rcases hnone with hn | hn <;> rw [hn] <;> rfl
    rw [hget] at hparam
    have hparse : intParam (args.flatMap argParams) "limit" = .ok none := by
      unfold intParam
      rw [hparam]
    have hpl : p.limit = none := by
      simp only [limitParam, hparse, bind, Except.bind, pure, Except.pure, Except.ok.injEq] at hl
      exact hl.symm
    rw [hpl]
    rcases hnone with hn | hn <;> simp [normaliseLimit, ownLimit, hn]

theorem boundedLimit_ok {max : MaxQueryLimit} {args : Args} {limit : Option JsNumber}
    (ht : args.Typed) (h : boundedLimit max (args.get "limit") = .ok limit) :
    (∃ x, limit = some x ∧ (∃ n, args.get "limit" = .number n) ∧
        (normaliseLimit max (some x) : Int) ≤ ownLimit max args) ∨
      (limit = none ∧ (∀ n, args.get "limit" ≠ .number n) ∧ ownLimit max args = DEFAULT_QUERY_LIMIT) := by
  rcases ht.get_limit with ⟨x, hx, hden⟩ | hnone
  · rw [hx] at h
    simp only [boundedLimit] at h
    split at h
    · cases h
    · rename_i hrange
      cases h
      rw [Bool.or_eq_true, not_or] at hrange
      have hint : ((x.num : ℤ) : ℚ) = x := (Rat.den_eq_one_iff x).mp hden
      have hlo : ¬ x < 1 := by simpa [JsNumber.ofNat] using hrange.1
      have hlo' : (1 : ℤ) ≤ x.num := by
        rw [← hint] at hlo
        exact_mod_cast not_lt.mp hlo
      have htrunc : JsNumber.truncate x = x.num := by
        rw [← hint]
        simp [JsNumber.truncate]
      refine .inl ⟨_, rfl, ⟨_, hx⟩, ?_⟩
      simp only [normaliseLimit, ownLimit, hx, htrunc]
      omega
  · have hno : ∀ n, args.get "limit" ≠ .number n := by
      intro n
      rcases hnone with hn | hn <;> simp [hn]
    have hlimit : limit = none := by
      rcases hnone with hn | hn <;> rw [hn] at h <;> cases h <;> rfl
    refine .inr ⟨hlimit, hno, ?_⟩
    rcases hnone with hn | hn <;> simp [ownLimit, hn]

end SorobanLens.GraphQL
