import SorobanLens.Api.GraphQL.Resolve

/-!
What the estimate of the analysis says about the execution: the fields completed
are no more than estimated, as long as nothing selected is estimated too low.
-/

set_option autoImplicit false

namespace SorobanLens.GraphQL

open SorobanLens

/-! ### Which fields a selection reaches -/

/-- A field that executing a selection set can complete, with the page size it is
estimated under. -/
inductive Selected (doc : DocumentNode) (vars : Variables) (max : MaxQueryLimit) :
    ObjectType → List SelectionNode → Int → ObjectType → CollectedField → Int → Prop where
  | here {t : ObjectType} {selections : List SelectionNode} {pageSize : Int}
      {fields : List CollectedField} {c : CollectedField}
      (hf : collectFields doc t.text vars selections = .ok fields) (hc : c ∈ fields) :
      Selected doc vars max t selections pageSize t c pageSize
  | deeper {t o u : ObjectType} {selections : List SelectionNode} {pageSize size : Int}
      {fields : List CollectedField} {c d : CollectedField} {def_ : FieldDef} {args : Args}
      (hf : collectFields doc t.text vars selections = .ok fields) (hc : c ∈ fields)
      (hname : c.name ≠ "__typename") (hd : fieldDef t c.name = some def_)
      (ha : resolveArgs (fieldLabel t c.name) def_.args c.args vars = .ok args)
      (ho : def_.type.base = .object o)
      (hs : Selected doc vars max o c.selections (childPageSize def_ (ownLimit max args) pageSize)
        u d size) :
      Selected doc vars max t selections pageSize u d size

/-- A selected field that is not estimated too low: a list is not sized by a
negative limit, and `contracts` has a limit where the store's default is larger
than the estimate's. -/
def Sound (vars : Variables) (max : MaxQueryLimit) (t : ObjectType) (c : CollectedField)
    (pageSize : Int) : Prop :=
  ∀ def_ args, fieldDef t c.name = some def_ →
    resolveArgs (fieldLabel t c.name) def_.args c.args vars = .ok args →
    0 ≤ multiplier def_ (ownLimit max args) pageSize ∧
      (t = .query → c.name = "contracts" → (∃ n, args.get "limit" = .number n) ∨ max.val ≤ 50)

def AllSound (doc : DocumentNode) (vars : Variables) (max : MaxQueryLimit) (t : ObjectType)
    (selections : List SelectionNode) (pageSize : Int) : Prop :=
  ∀ u c size, Selected doc vars max t selections pageSize u c size → Sound vars max u c size

/-! ### Counting -/

theorem settle_fields (type : TypeRef) (path : List PathStep) (o : Outcome JsonValue) :
    (settle type path o).fields = o.fields + 1 := by
  unfold settle
  split
  · rfl
  · split <;> rfl

theorem all_fields {α : Type} (os : List (Outcome α)) :
    (Outcome.all os).fields = (os.map Outcome.fields).sum := by
  induction os with
  | nil => rfl
  | cons o os ih => simp [Outcome.all, ih]

theorem all_fields_le {α : Type} {os : List (Outcome α)} {n : Int}
    (h : ∀ o ∈ os, (o.fields : Int) ≤ n) : ((Outcome.all os).fields : Int) ≤ os.length * n := by
  induction os with
  | nil => simp [Outcome.all, Outcome.returned]
  | cons o os ih =>
    have ho := h o List.mem_cons_self
    have hos := ih (fun p hp => h p (List.mem_cons_of_mem o hp))
    simp only [Outcome.all, List.length_cons]
    push_cast
    linarith

theorem completeValue_fields_le {exec : Executor} {def_ : FieldDef} {o : ObjectType} {raw : Raw}
    {own pageSize children : Int} {selections : List SelectionNode} {path : List PathStep}
    (ho : def_.type.base = .object o) (hfits : raw.Fits def_ o own pageSize)
    (hm : 0 ≤ multiplier def_ own pageSize) (hc : 0 ≤ children)
    (hexec : ∀ s path, s.Fits (childPageSize def_ own pageSize) o →
      ((exec o selections s path).fields : Int) ≤ children) :
    ((completeValue exec def_.type raw selections path).fields : Int) ≤
      multiplier def_ own pageSize * children := by
  have hnonneg : 0 ≤ multiplier def_ own pageSize * children := Int.mul_nonneg hm hc
  have hfields : ∀ s path, (completeObject exec def_.type.base selections path s).fields =
      (exec o selections s path).fields := by
    intro s path
    rw [ho]
    rfl
  cases raw with
  | null =>
    simp only [completeValue]
    split <;> exact hnonneg
  | scalar v =>
    have hzero : (completeValue exec def_.type (.scalar v) selections path).fields = 0 := by
      cases v <;> simp only [completeValue] <;> split <;> rfl
    rw [hzero]
    exact hnonneg
  | object s =>
    simp only [completeValue]
    split
    · exact hnonneg
    · rename_i hlist
      rw [hfields]
      simpa [multiplier, hlist] using hexec s path hfits
  | list items =>
    simp only [completeValue]
    split
    · obtain ⟨hlen, hitems⟩ := hfits
      have hall : ∀ p ∈ items.mapIdx (fun i s =>
          completeObject exec def_.type.base selections (path ++ [.index i]) s),
          (p.fields : Int) ≤ children := by
        intro p hp
        obtain ⟨i, hi, rfl⟩ := List.mem_mapIdx.mp hp
        rw [hfields]
        exact hexec _ _ (hitems _ (List.getElem_mem hi))
      have hsum := all_fields_le hall
      rw [List.length_mapIdx] at hsum
      exact hsum.trans (Int.mul_le_mul_of_nonneg_right hlen hc)
    · exact hnonneg

theorem completeValue_scalar {exec : Executor} {type : TypeRef} {raw : Raw}
    {selections : List SelectionNode} {path : List PathStep} (ho : type.base = .scalar) :
    (completeValue exec type raw selections path).fields = 0 := by
  cases raw with
  | null =>
    simp only [completeValue]
    split <;> rfl
  | scalar v => cases v <;> simp only [completeValue] <;> split <;> rfl
  | object s =>
    simp only [completeValue, ho, completeObject]
    split <;> rfl
  | list items =>
    simp only [completeValue, ho]
    split
    · rw [all_fields]
      refine List.sum_eq_zero ?_
      intro n hn
      obtain ⟨p, hp, rfl⟩ := List.mem_map.mp hn
      obtain ⟨i, hi, rfl⟩ := List.mem_mapIdx.mp hp
      rfl
    · rfl

theorem fieldCost_ok {max : MaxQueryLimit} {vars : Variables}
    {below : ObjectType → List SelectionNode → Int → Except RequestError Int} {t : ObjectType}
    {c : CollectedField} {pageSize : Int} {cost : Option Int}
    (h : fieldCost max vars below t pageSize c = .ok cost) :
    (c.name = "__typename" ∧ cost = none) ∨
      (c.name ≠ "__typename" ∧ ∃ def_ args, fieldDef t c.name = some def_ ∧
        resolveArgs (fieldLabel t c.name) def_.args c.args vars = .ok args ∧
        ((def_.type.base = .scalar ∧ cost = some 1) ∨ ∃ o children, def_.type.base = .object o ∧
          below o c.selections (childPageSize def_ (ownLimit max args) pageSize) = .ok children ∧
          cost = some (1 + multiplier def_ (ownLimit max args) pageSize * children))) := by
  unfold fieldCost at h
  split at h
  · rename_i hname
    cases h
    exact .inl ⟨hname, rfl⟩
  · rename_i hname
    split at h
    · cases h
    · cases hd : fieldDef t c.name with
      | none =>
        rw [hd] at h
        simp only at h
        split at h
        · obtain ⟨_, _, h⟩ := bind_eq_ok.mp h
          cases h
        · cases h
      | some def_ =>
        rw [hd] at h
        obtain ⟨args, hargs, h⟩ := bind_eq_ok.mp h
        refine .inr ⟨hname, def_, args, rfl, hargs, ?_⟩
        cases ho : def_.type.base with
        | scalar =>
          rw [ho] at h
          simp only at h
          split at h
          · cases h
            exact .inl ⟨rfl, rfl⟩
          · cases h
        | object o =>
          rw [ho] at h
          simp only at h
          split at h
          · cases h
          · obtain ⟨children, hchildren, h⟩ := bind_eq_ok.mp h
            cases h
            exact .inr ⟨o, children, rfl, hchildren, rfl⟩

theorem executeField_le {ctx : Context} (hctx : ctx.Bounded) {vars : Variables} {exec : Executor}
    {t : ObjectType} {source : Source} {path : List PathStep} {c : CollectedField}
    {def_ : FieldDef} {args : Args} {o : ObjectType} {pageSize children : Int}
    (hname : c.name ≠ "__typename") (hd : fieldDef t c.name = some def_)
    (hargs : resolveArgs (fieldLabel t c.name) def_.args c.args vars = .ok args)
    (ho : def_.type.base = .object o) (hs : source.Fits pageSize t)
    (hsound : Sound vars ctx.max t c pageSize) (hc : 0 ≤ children)
    (hexec : ∀ s path, s.Fits (childPageSize def_ (ownLimit ctx.max args) pageSize) o →
      ((exec o c.selections s path).fields : Int) ≤ children) :
    ((executeField ctx vars exec t source path c).fields : Int) ≤
      1 + multiplier def_ (ownLimit ctx.max args) pageSize * children := by
  obtain ⟨hm, hgiven⟩ := hsound def_ args hd hargs
  have hnonneg : 0 ≤ multiplier def_ (ownLimit ctx.max args) pageSize * children :=
    Int.mul_nonneg hm hc
  unfold executeField
  simp only [hname, if_false, hd, settle_fields, hargs, Except.mapError]
  cases hr : resolve ctx t c.name source args with
  | error f =>
    simp only [Outcome.failed]
    push_cast
    omega
  | ok raw =>
    have hfits := resolve_fits hctx hd ho (typed_resolveArgs hd hargs) hs
      (fun ht hn => (hgiven ht hn).imp_right (fewContracts_of_max hctx)) hr
    have hle : ((completeValue exec def_.type raw c.selections
        (path ++ [.key c.responseKey])).fields : Int) ≤ _ :=
      completeValue_fields_le ho hfits hm hc hexec
    simp only
    push_cast
    omega

theorem executeField_scalar {ctx : Context} {vars : Variables} {exec : Executor} {t : ObjectType}
    {source : Source} {path : List PathStep} {c : CollectedField} {def_ : FieldDef} {args : Args}
    (hname : c.name ≠ "__typename") (hd : fieldDef t c.name = some def_)
    (hargs : resolveArgs (fieldLabel t c.name) def_.args c.args vars = .ok args)
    (ho : def_.type.base = .scalar) : (executeField ctx vars exec t source path c).fields = 1 := by
  unfold executeField
  simp only [hname, if_false, hd, settle_fields, hargs, Except.mapError]
  cases resolve ctx t c.name source args with
  | error f => rfl
  | ok raw => simp [completeValue_scalar ho]

theorem addFields_le {limits : Limits} {cost : CollectedField → Except RequestError (Option Int)}
    {cs : List CollectedField} {n : CollectedField → Nat} {total total' : Int}
    (h : addFields limits cost cs total = .ok total')
    (hn : ∀ c ∈ cs, ∀ r, cost c = .ok r → (n c : Int) ≤ r.getD 1) :
    total + ((cs.map n).sum : Nat) ≤ total' := by
  induction cs generalizing total with
  | nil =>
    cases h
    simp
  | cons c cs ih =>
    obtain ⟨r, hr, h⟩ := bind_eq_ok.mp h
    obtain ⟨mid, hmid, h⟩ := bind_eq_ok.mp h
    have hc := hn c List.mem_cons_self r hr
    have hrest := ih h (fun d hd => hn d (List.mem_cons_of_mem c hd))
    have hadd : mid = total + r.getD 1 := by
      unfold addCost at hmid
      split at hmid
      · cases hmid
        rfl
      · split at hmid
        · cases hmid
        · cases hmid
          rfl
    rw [hadd] at hrest
    simp only [List.map_cons, List.sum_cons]
    push_cast at hrest ⊢
    linarith

theorem addFields_within {limits : Limits}
    {cost : CollectedField → Except RequestError (Option Int)} {cs : List CollectedField}
    {c : CollectedField} {total total' : Int} (h : addFields limits cost (cs ++ [c]) total = .ok total')
    (hc : cost c ≠ .ok none) : total' ≤ limits.maxComplexity := by
  induction cs generalizing total with
  | nil =>
    obtain ⟨r, hr, h⟩ := bind_eq_ok.mp h
    obtain ⟨mid, hmid, h⟩ := bind_eq_ok.mp h
    cases h
    cases r with
    | none => exact absurd hr hc
    | some n =>
      simp only [addCost] at hmid
      split at hmid
      · cases hmid
      · cases hmid
        omega
  | cons d cs ih =>
    obtain ⟨r, hr, h⟩ := bind_eq_ok.mp h
    obtain ⟨mid, hmid, h⟩ := bind_eq_ok.mp h
    exact ih h

/-- The estimate bounds the execution, however deep it is followed. -/
theorem walk_sound {ctx : Context} (hctx : ctx.Bounded) {doc : DocumentNode} {vars : Variables}
    {limits : Limits} {depth : Nat} {t : ObjectType} {selections : List SelectionNode}
    {pageSize total : Int}
    (h : walk doc vars limits ctx.max depth t selections pageSize = .ok total)
    (hall : AllSound doc vars ctx.max t selections pageSize) :
    0 ≤ total ∧ ∀ fuel source path, source.Fits pageSize t →
      ((executeSelection ctx doc vars fuel t selections source path).fields : Int) ≤ total := by
  induction depth generalizing t selections pageSize total with
  | zero => cases h
  | succ depth ih =>
    obtain ⟨fields, hfields, h⟩ := bind_eq_ok.mp h
    -- what the induction says of the children of each field collected here
    have hbelow : ∀ c ∈ fields, ∀ def_ args o children, c.name ≠ "__typename" →
        fieldDef t c.name = some def_ →
        resolveArgs (fieldLabel t c.name) def_.args c.args vars = .ok args →
        def_.type.base = .object o →
        walk doc vars limits ctx.max depth o c.selections
          (childPageSize def_ (ownLimit ctx.max args) pageSize) = .ok children →
        0 ≤ children ∧ ∀ fuel s path,
          s.Fits (childPageSize def_ (ownLimit ctx.max args) pageSize) o →
            ((executeSelection ctx doc vars fuel o c.selections s path).fields : Int) ≤ children := by
      intro c hc def_ args o children hname hd ha ho hw
      refine ih hw ?_
      intro u d size hsel
      exact hall u d size (.deeper hfields hc hname hd ha ho hsel)
    have hsound : ∀ c ∈ fields, Sound vars ctx.max t c pageSize :=
      fun c hc => hall t c pageSize (.here hfields hc)
    have hpos : ∀ c ∈ fields, ∀ r,
        fieldCost ctx.max vars (walk doc vars limits ctx.max depth) t pageSize c = .ok r →
        ((0 : Nat) : Int) ≤ r.getD 1 := by
      intro c hc r hr
      rcases fieldCost_ok hr with ⟨-, rfl⟩ | ⟨hname, def_, args, hd, ha, ⟨-, rfl⟩ |
        ⟨o, children, ho, hw, rfl⟩⟩
      · simp
      · simp
      · have hm := (hsound c hc def_ args hd ha).1
        have hc' := (hbelow c hc def_ args o children hname hd ha ho hw).1
        have hprod := Int.mul_nonneg hm hc'
        simp only [Option.getD_some]
        push_cast
        omega
    refine ⟨?_, ?_⟩
    · have hle := addFields_le h hpos
      simp only [List.map_const', List.sum_replicate] at hle
      simpa using hle
    · intro fuel source path hs
      cases fuel with
      | zero =>
        have hle := addFields_le h hpos
        simpa [executeSelection, Outcome.failed] using hle
      | succ fuel =>
        have hle := addFields_le h (n := fun c =>
          (executeField ctx vars (executeSelection ctx doc vars fuel) t source path c).fields) ?_
        · rw [Int.zero_add] at hle
          simp only [executeSelection, hfields, all_fields, List.map_map]
          exact hle
        · intro c hc r hr
          rcases fieldCost_ok hr with ⟨hname, rfl⟩ | ⟨hname, def_, args, hd, ha, ⟨ho, rfl⟩ |
            ⟨o, children, ho, hw, rfl⟩⟩
          · simp [executeField, hname]
          · simp [executeField_scalar hname hd ha ho]
          · obtain ⟨hc', hexec⟩ := hbelow c hc def_ args o children hname hd ha ho hw
            exact executeField_le hctx hname hd ha ho hs (hsound c hc) hc'
              (fun s path hfit => hexec fuel s path hfit)

/-! ### Depth -/

theorem completeValue_congr {exec exec' : Executor} {type : TypeRef} {raw : Raw}
    {selections : List SelectionNode} {path : List PathStep}
    (h : ∀ o, type.base = .object o → ∀ s path, exec o selections s path = exec' o selections s path) :
    completeValue exec type raw selections path = completeValue exec' type raw selections path := by
  have hobject : ∀ path s, completeObject exec type.base selections path s =
      completeObject exec' type.base selections path s := by
    intro path s
    cases hb : type.base with
    | scalar => rfl
    | object o => simp only [completeObject, h o hb]
  cases raw with
  | null => rfl
  | scalar v => cases v <;> rfl
  | object s => simp only [completeValue, hobject]
  | list items => simp only [completeValue, hobject]

theorem executeField_congr {ctx : Context} {vars : Variables} {exec exec' : Executor}
    {t : ObjectType} {source : Source} {path : List PathStep} {c : CollectedField}
    (h : ∀ def_ args o, c.name ≠ "__typename" → fieldDef t c.name = some def_ →
      resolveArgs (fieldLabel t c.name) def_.args c.args vars = .ok args →
      def_.type.base = .object o → ∀ s path, exec o c.selections s path = exec' o c.selections s path) :
    executeField ctx vars exec t source path c = executeField ctx vars exec' t source path c := by
  unfold executeField
  split
  · rfl
  · rename_i hname
    split
    · rfl
    · rename_i def_ hd
      cases ha : resolveArgs (fieldLabel t c.name) def_.args c.args vars with
      | error e => rfl
      | ok args =>
        simp only [Except.mapError]
        cases resolve ctx t c.name source args with
        | error f => rfl
        | ok raw => simp only [completeValue_congr (h def_ args · hname hd ha)]

theorem cost_of_addFields {limits : Limits}
    {cost : CollectedField → Except RequestError (Option Int)} {cs : List CollectedField}
    {total total' : Int} (h : addFields limits cost cs total = .ok total') :
    ∀ c ∈ cs, ∃ r, cost c = .ok r := by
  induction cs generalizing total with
  | nil => simp
  | cons d cs ih =>
    obtain ⟨r, hr, h⟩ := bind_eq_ok.mp h
    obtain ⟨mid, hmid, h⟩ := bind_eq_ok.mp h
    intro c hc
    rcases List.mem_cons.mp hc with rfl | hc
    · exact ⟨r, hr⟩
    · exact ih h c hc

/-- A selection the analysis walked is executed in full within the same depth. -/
theorem executeSelection_enough {ctx : Context} {doc : DocumentNode} {vars : Variables}
    {limits : Limits} {depth : Nat} {t : ObjectType} {selections : List SelectionNode}
    {pageSize total : Int}
    (h : walk doc vars limits ctx.max depth t selections pageSize = .ok total) (more : Nat)
    (source : Source) (path : List PathStep) :
    executeSelection ctx doc vars (depth + more) t selections source path =
      executeSelection ctx doc vars depth t selections source path := by
  induction depth generalizing t selections pageSize total source path with
  | zero => cases h
  | succ depth ih =>
    obtain ⟨fields, hfields, h⟩ := bind_eq_ok.mp h
    have hsame : ∀ c ∈ fields,
        executeField ctx vars (executeSelection ctx doc vars (depth + more)) t source path c =
          executeField ctx vars (executeSelection ctx doc vars depth) t source path c := by
      intro c hc
      refine executeField_congr ?_
      intro def_ args o hname hd ha ho s path'
      obtain ⟨r, hr⟩ := cost_of_addFields h c hc
      rcases fieldCost_ok hr with ⟨htype, -⟩ | ⟨-, def', args', hd', ha', ⟨ho', -⟩ |
        ⟨o', children, ho', hw, -⟩⟩
      · exact absurd htype hname
      · rw [hd, Option.some.injEq] at hd'
        subst hd'
        rw [ho] at ho'
        cases ho'
      · rw [hd, Option.some.injEq] at hd'
        subst hd'
        rw [ho] at ho'
        cases ho'
        exact ih hw s path'
    rw [Nat.add_right_comm]
    simp only [executeSelection, hfields, List.map_congr_left hsame]

/-! ### A whole request -/

/-- Nothing a request selects is estimated too low, and the last of its own fields
is held to the limit: every field but `__typename` is. -/
structure Estimated (doc : DocumentNode) (vars : Variables) (max : MaxQueryLimit)
    (op : OperationNode) : Prop where
  sound : AllSound doc vars max .query op.selections DEFAULT_QUERY_LIMIT
  last : ∀ fields c, collectFields doc "Query" vars op.selections = .ok (fields ++ [c]) →
    c.name ≠ "__typename"

theorem prepare_ok {limits : Limits} {max : MaxQueryLimit} {r : Request} {op : OperationNode}
    {vars : Variables} (h : prepare limits max r = .ok (op, vars)) :
    ∃ total, analyse r.document op vars limits max = .ok total := by
  obtain ⟨_, -, h⟩ := bind_eq_ok.mp h
  obtain ⟨_, -, h⟩ := bind_eq_ok.mp h
  obtain ⟨_, -, h⟩ := bind_eq_ok.mp h
  obtain ⟨total, ht, h⟩ := bind_eq_ok.mp h
  cases h
  exact ⟨total, ht⟩

theorem analyse_within {doc : DocumentNode} {op : OperationNode} {vars : Variables} {limits : Limits}
    {max : MaxQueryLimit} {total : Int} (h : analyse doc op vars limits max = .ok total)
    (he : Estimated doc vars max op) : total ≤ limits.maxComplexity := by
  unfold analyse at h
  cases hdepth : limits.maxDepth with
  | zero =>
    rw [hdepth] at h
    cases h
  | succ depth =>
    rw [hdepth] at h
    obtain ⟨fields, hfields, h⟩ := bind_eq_ok.mp h
    rcases List.eq_nil_or_concat fields with rfl | ⟨front, c, rfl⟩
    · cases h
      omega
    · have hname := he.last front c (by simpa [ObjectType.text] using hfields)
      rw [List.concat_eq_append] at h
      refine addFields_within h ?_
      intro hnone
      rcases fieldCost_ok hnone with ⟨htype, -⟩ | ⟨-, _, _, -, -, ⟨-, hsome⟩ | ⟨_, _, -, -, hsome⟩⟩
      · exact hname htype
      · cases hsome
      · cases hsome

/-- A request that passes the analysis completes no more fields than the limit on
its complexity, if nothing it selects is estimated too low. -/
theorem executed_within_complexity {ctx : Context} (hctx : ctx.Bounded) {limits : Limits}
    {r : Request} {op : OperationNode} {vars : Variables}
    (h : prepare limits ctx.max r = .ok (op, vars)) (he : Estimated r.document vars ctx.max op)
    (fuel : Nat) :
    (executeSelection ctx r.document vars fuel .query op.selections .root []).fields ≤
      limits.maxComplexity := by
  obtain ⟨total, ht⟩ := prepare_ok h
  have hwithin := analyse_within ht he
  have hle := (walk_sound hctx ht he.sound).2 fuel .root [] trivial
  omega

/-! ### One event and its contract -/

def oneEvent : LensEvent where
  id := "e"
  contractId := "C"
  type := .contract
  ledger := 5
  ledgerClosedAt := ""
  txHash := ""
  transactionIndex := 0
  operationIndex := 0
  inSuccessfulContractCall := true
  topics := []
  topicsXdr := []
  value := ⟨"void", .null⟩
  valueXdr := ""
  decodeError := none
  indexedAt := ""

theorem one_le_thousand : 1 ≤ 1000 := by decide

def oneEventStore : Context where
  store :=
    { queryEvents := fun _ => .ok ⟨[], none, none, 0, false⟩
      getEvent := fun _ => .ok (some oneEvent)
      listContracts := fun _ => .ok [⟨"C", 1, 5, 5, ""⟩]
      listTopics := fun _ _ => .ok [] }
  max := ⟨1000, one_le_thousand⟩
  dateParse := fun _ => none

theorem oneEventStore_bounded : oneEventStore.Bounded where
  events := by
    intro q p h
    cases h
    simp
  event := by
    intro id e h
    cases h
    exact Nat.zero_le 8
  contracts := by
    intro limit list h
    cases h
    exact normaliseLimit_pos _ _
  topics := by
    intro id limit list h
    cases h
    simp

def leaf (name : String) : SelectionNode := .field none name [] [] []

def eventRequest (selections : List SelectionNode) : Request where
  document := ⟨[⟨.query, none, [], [.field none "event" [("id", .string "e")] [] selections]⟩], []⟩
  operationName := none
  provided := .undefined

theorem eventRequest_estimated : Estimated (eventRequest [leaf "id"]).document [] ⟨1000, by decide⟩
    ⟨.query, none, [], [.field none "event" [("id", .string "e")] [] [leaf "id"]]⟩ where
  sound := by
    intro u c size hsel
    cases hsel with
    | here hf hc =>
      cases hf
      cases List.mem_singleton.mp hc
      intro def_ args hd _
      cases hd
      exact ⟨by simp [multiplier], fun _ hname => absurd hname (by decide)⟩
    | deeper hf hc hname hd ha ho hs =>
      cases hf
      cases List.mem_singleton.mp hc
      cases hd
      cases ho
      cases hs with
      | here hf hc =>
        cases hf
        cases List.mem_singleton.mp hc
        intro def_ args hd _
        cases hd
        exact ⟨by simp [multiplier, requiredScalar], fun ht => by cases ht⟩
      | deeper hf hc hname hd ha ho hs =>
        cases hf
        cases List.mem_singleton.mp hc
        cases hd
        cases ho
  last := by
    intro fields c hf
    have hcollect : collectFields (eventRequest [leaf "id"]).document "Query" []
        [.field none "event" [("id", .string "e")] [] [leaf "id"]] =
          .ok ([] ++ [⟨"event", "event", [("id", .string "e")], [leaf "id"]⟩]) := rfl
    rw [hcollect] at hf
    cases List.append_inj_right' (Except.ok.inj hf) rfl
    decide

theorem executed_within_complexity_event :
    (executeSelection oneEventStore (eventRequest [leaf "id"]).document [] 8 .query
      [.field none "event" [("id", .string "e")] [] [leaf "id"]] .root []).fields ≤ 2 := by
  have h : prepare ⟨8, 2⟩ oneEventStore.max (eventRequest [leaf "id"]) =
      .ok (⟨.query, none, [], [.field none "event" [("id", .string "e")] [] [leaf "id"]]⟩, []) := rfl
  exact executed_within_complexity oneEventStore_bounded h eventRequest_estimated 8

/-- `{ event(id: "e") { contract { topics(limit: -10) { topic } contractId … } } }`. -/
def negativeLimit : Request :=
  eventRequest
    [ .field none "contract" [] []
        [ .field none "topics" [("limit", .int (.fin (-10)))] [] [leaf "topic"]
        , leaf "contractId", leaf "eventCount", leaf "firstLedger", leaf "lastLedger"
        , leaf "lastSeenAt" ] ]

theorem negative_limit_uncounted : oneEventStore.Bounded ∧
    ∃ op vars, prepare ⟨8, 1⟩ oneEventStore.max negativeLimit = .ok (op, vars) ∧
      1 < (executeSelection oneEventStore negativeLimit.document vars 8 .query op.selections
        .root []).fields := by
  refine ⟨oneEventStore_bounded, _, _, rfl, ?_⟩
  decide +kernel

end SorobanLens.GraphQL
