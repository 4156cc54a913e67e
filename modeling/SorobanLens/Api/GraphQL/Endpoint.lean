import SorobanLens.Api.GraphQL.Complexity
import SorobanLens.Api.GraphQL.Language

/-!
A request from its text on: what is refused before the store is used, and what the
limits can change.
-/

set_option autoImplicit false

namespace SorobanLens.GraphQL

open SorobanLens
open Json (OBJECT_PROTOTYPE)

def DEFAULT_GRAPHQL_MAX_QUERY_LENGTH : Nat := 10000

structure GraphQLOptions where
  maxDepth : Option Nat := none
  maxComplexity : Option Nat := none
  maxQueryLength : Option Nat := none

def GraphQLOptions.limits (options : GraphQLOptions) : Limits :=
  ⟨options.maxDepth.getD DEFAULT_GRAPHQL_MAX_DEPTH,
    options.maxComplexity.getD DEFAULT_GRAPHQL_MAX_COMPLEXITY⟩

def GraphQLOptions.maxLength (options : GraphQLOptions) : Nat :=
  options.maxQueryLength.getD DEFAULT_GRAPHQL_MAX_QUERY_LENGTH

/-- A request as it arrives; its query need not be a string. -/
structure GraphQLRequest where
  query : Option String
  «variables» : JsValue
  operationName : Option String

def readQuery (number : String → JsNumber) (maxLength : Nat) :
    Option String → Except RequestError DocumentNode
  | none => .error ⟨.parseFailed, "A \"query\" string is required."⟩
  | some query =>
    if JsNumber.trim query = "" then .error ⟨.parseFailed, "A \"query\" string is required."⟩
    else if maxLength < (utf16 query).length then
      .error ⟨.queryTooLarge, "The query is longer than " ++ toString maxLength ++ " characters."⟩
    else parseDocument number (utf16 query)

def executeGraphQL (number : String → JsNumber) (options : GraphQLOptions) (ctx : Context)
    (request : GraphQLRequest) : Response :=
  match readQuery number options.maxLength request.query with
  | .error e => badRequest e
  | .ok doc => executeRequest options.limits ctx ⟨doc, request.operationName, request.variables⟩

/-! ### Selected names -/

mutual
def SelectionNode.fieldNames : SelectionNode → List String
  | .field _ name _ _ selections => name :: fieldNamesOf selections
  | .spread _ _ => []
  | .inline _ _ selections => fieldNamesOf selections

def fieldNamesOf : List SelectionNode → List String
  | [] => []
  | s :: ss => s.fieldNames ++ fieldNamesOf ss
end

def DocumentNode.fieldNames (doc : DocumentNode) : List String :=
  doc.operations.flatMap (fun op => fieldNamesOf op.selections) ++
    doc.fragments.flatMap (fun f => fieldNamesOf f.selections)

/-- None of the names is one a plain object has already. -/
def Own (names : List String) : Prop := ∀ name ∈ names, name ∉ OBJECT_PROTOTYPE

def CollectedField.Own (c : CollectedField) : Prop :=
  c.name ∉ OBJECT_PROTOTYPE ∧ GraphQL.Own (fieldNamesOf c.selections)

theorem own_append {xs ys : List String} : Own (xs ++ ys) ↔ Own xs ∧ Own ys := by
  simp only [Own, List.mem_append, or_imp, forall_and]

theorem fieldNamesOf_append (ss ts : List SelectionNode) :
    fieldNamesOf (ss ++ ts) = fieldNamesOf ss ++ fieldNamesOf ts := by
  induction ss with
  | nil => rfl
  | cons s ss ih => rw [List.cons_append, fieldNamesOf, ih, fieldNamesOf, List.append_assoc]

theorem own_addField {key name : String} {args : List (String × ValueNode)}
    {selections : List SelectionNode} (hname : name ∉ OBJECT_PROTOTYPE)
    (hsel : Own (fieldNamesOf selections)) {cs out : List CollectedField}
    (hcs : ∀ c ∈ cs, c.Own) (h : addField key name args selections cs = .ok out) :
    ∀ c ∈ out, c.Own := by
  induction cs generalizing out with
  | nil =>
    cases h
    simpa using ⟨hname, hsel⟩
  | cons c cs ih =>
    obtain ⟨hc, hrest⟩ := List.forall_mem_cons.mp hcs
    unfold addField at h
    split at h
    · split at h
      · cases h
        refine List.forall_mem_cons.mpr ⟨⟨hc.1, ?_⟩, hrest⟩
        rw [fieldNamesOf_append]
        exact own_append.mpr ⟨hc.2, hsel⟩
      · cases h
    · obtain ⟨rest, hadd, rfl⟩ := map_eq_ok.mp h
      exact List.forall_mem_cons.mpr ⟨hc, ih hrest hadd⟩

def OwnSpread (spread : Spreader) : Prop := ∀ name into out, (∀ c ∈ into, CollectedField.Own c) →
  spread name into = .ok out → ∀ c ∈ out, c.Own

mutual
theorem own_collectOne {t : String} {vars : Variables} {spread : Spreader} (hspread : OwnSpread spread)
    (s : SelectionNode) {into out : List CollectedField} (hs : Own s.fieldNames)
    (hinto : ∀ c ∈ into, c.Own) (h : collectOne t vars spread s into = .ok out) :
    ∀ c ∈ out, c.Own := by
  cases s with
  | field key name args ds selections =>
    rw [collectOne] at h
    obtain ⟨keep, -, h⟩ := bind_eq_ok.mp h
    cases keep with
    | false =>
      cases h
      exact hinto
    | true =>
      obtain ⟨hname, hsel⟩ := List.forall_mem_cons.mp hs
      exact own_addField hname hsel hinto h
  | spread name ds =>
    rw [collectOne] at h
    obtain ⟨keep, -, h⟩ := bind_eq_ok.mp h
    cases keep with
    | false =>
      cases h
      exact hinto
    | true => exact hspread name into out hinto h
  | inline condition ds selections =>
    rw [collectOne] at h
    obtain ⟨keep, -, h⟩ := bind_eq_ok.mp h
    cases keep with
    | false =>
      cases h
      exact hinto
    | true =>
      dsimp only at h
      split at h
      · cases h
        exact hinto
      · exact own_collectAll hspread selections hs hinto h

theorem own_collectAll {t : String} {vars : Variables} {spread : Spreader} (hspread : OwnSpread spread)
    (ss : List SelectionNode) {into out : List CollectedField} (hs : Own (fieldNamesOf ss))
    (hinto : ∀ c ∈ into, c.Own) (h : collectAll t vars spread ss into = .ok out) :
    ∀ c ∈ out, c.Own := by
  cases ss with
  | nil =>
    rw [collectAll] at h
    cases h
    exact hinto
  | cons s ss =>
    rw [collectAll] at h
    obtain ⟨mid, hmid, h⟩ := bind_eq_ok.mp h
    obtain ⟨hone, hall⟩ := own_append.mp hs
    exact own_collectAll hspread ss hall (own_collectOne hspread s hone hinto hmid) h
end

/-- Whatever is refused is refused for a reason of its own. -/
def Coded {α : Type} (r : Except RequestError α) : Prop := ∀ e, r = .error e → e.code ≠ .internalError

theorem coded_ok {α : Type} (a : α) : Coded (.ok a : Except RequestError α) := by
  intro e h
  cases h

theorem coded_error {α : Type} {e : RequestError} (h : e.code ≠ .internalError) :
    Coded (.error e : Except RequestError α) := by
  rintro _ ⟨rfl⟩
  exact h

theorem coded_bind_ok {α β : Type} {r : Except RequestError α} {f : α → Except RequestError β}
    (hr : Coded r) (hf : ∀ a, r = .ok a → Coded (f a)) : Coded (r >>= f) := by
  cases r with
  | error e => exact coded_error (hr e rfl)
  | ok a => exact hf a rfl

theorem coded_bind {α β : Type} {r : Except RequestError α} {f : α → Except RequestError β}
    (hr : Coded r) (hf : ∀ a, Coded (f a)) : Coded (r >>= f) :=
  coded_bind_ok hr (fun a _ => hf a)

theorem coded_map {α β : Type} {r : Except RequestError α} {f : α → β} (hr : Coded r) :
    Coded (r.map f) := by
  cases r with
  | error e => exact coded_error (hr e rfl)
  | ok a => exact coded_ok _

theorem coded_invalid {α : Type} (message : String) :
    Coded (.error (invalid message) : Except RequestError α) :=
  coded_error (by simp [invalid])

theorem coded_included (vars : Variables) (ds : List DirectiveNode) : Coded (included vars ds) := by
  induction ds with
  | nil => exact coded_ok _
  | cons d ds ih =>
    unfold included
    split
    · exact coded_invalid _
    · split
      · split
        · exact coded_ok _
        · split
          · exact coded_ok _
          · exact ih
      · exact coded_invalid _

theorem coded_addField (key name : String) (args : List (String × ValueNode))
    (selections : List SelectionNode) (cs : List CollectedField) :
    Coded (addField key name args selections cs) := by
  induction cs with
  | nil => exact coded_ok _
  | cons c cs ih =>
    unfold addField
    split
    · split
      · exact coded_ok _
      · exact coded_invalid _
    · exact coded_map ih

mutual
theorem coded_collectOne {t : String} {vars : Variables} {spread : Spreader}
    (hspread : ∀ name into, Coded (spread name into)) (s : SelectionNode) (into : List CollectedField) :
    Coded (collectOne t vars spread s into) := by
  cases s with
  | field key name args ds selections =>
    rw [collectOne]
    refine coded_bind (coded_included vars ds) fun keep => ?_
    cases keep with
    | false => exact coded_ok _
    | true => exact coded_addField _ _ _ _ _
  | spread name ds =>
    rw [collectOne]
    refine coded_bind (coded_included vars ds) fun keep => ?_
    cases keep with
    | false => exact coded_ok _
    | true => exact hspread name into
  | inline condition ds selections =>
    rw [collectOne]
    refine coded_bind (coded_included vars ds) fun keep => ?_
    cases keep with
    | false => exact coded_ok _
    | true =>
      dsimp only
      split
      · exact coded_ok _
      · exact coded_collectAll hspread selections into

theorem coded_collectAll {t : String} {vars : Variables} {spread : Spreader}
    (hspread : ∀ name into, Coded (spread name into)) (ss : List SelectionNode)
    (into : List CollectedField) : Coded (collectAll t vars spread ss into) := by
  cases ss with
  | nil =>
    rw [collectAll]
    exact coded_ok _
  | cons s ss =>
    rw [collectAll]
    exact coded_bind (coded_collectOne hspread s into) fun into => coded_collectAll hspread ss into
end

section answers

variable {number : String → JsNumber} {options : GraphQLOptions} {ctx : Context}
variable {request : GraphQLRequest}

theorem readQuery_iff {maxLength : Nat} {query : Option String} {doc : DocumentNode} :
    readQuery number maxLength query = .ok doc ↔ ∃ text ks, query = some text ∧
      JsNumber.trim text ≠ "" ∧ (utf16 text).length ≤ maxLength ∧ Spelled ks (utf16 text) ∧
      DocumentTokens number ks doc := by
  cases query with
  | none => simp [readQuery]
  | some text =>
    unfold readQuery
    dsimp only
    split
    · rename_i hblank
      simp [hblank]
    · rename_i htext
      split
      · rename_i hlong
        simp only [reduceCtorEq, false_iff, not_exists]
        rintro text' ks ⟨⟨rfl⟩, -, hlength, -⟩
        omega
      · rename_i hlength
        rw [parseDocument_iff]
        constructor
        · rintro ⟨ks, hspelled, hdoc⟩
          exact ⟨text, ks, rfl, htext, by omega, hspelled, hdoc⟩
        · rintro ⟨_, ks, ⟨rfl⟩, -, -, hspelled, hdoc⟩
          exact ⟨ks, hspelled, hdoc⟩

example : (executeGraphQL (fun _ => .nan) {} oneEventStore
    ⟨some "\x7bconstructor\x7d", .undefined, none⟩).status = 500 := by decide +kernel

/-! ### Limits -/

theorem addFields_mono {limits limits' : Limits}
    {cost cost' : CollectedField → Except RequestError (Option Int)} {cs : List CollectedField}
    (hlimits : limits.maxComplexity ≤ limits'.maxComplexity)
    (hcost : ∀ c r, cost c = .ok r → cost' c = .ok r) {total n : Int}
    (h : addFields limits cost cs total = .ok n) : addFields limits' cost' cs total = .ok n := by
  induction cs generalizing total with
  | nil => exact h
  | cons c cs ih =>
    obtain ⟨r, hr, h⟩ := bind_eq_ok.mp h
    obtain ⟨mid, hmid, h⟩ := bind_eq_ok.mp h
    have hadd : addCost limits' total r = .ok mid := by
      cases r with
      | none => exact hmid
      | some k =>
        unfold addCost at hmid ⊢
        dsimp only at hmid ⊢
        split at hmid
        · cases hmid
        · rw [if_neg (by omega)]
          exact hmid
    exact bind_eq_ok.mpr ⟨r, hcost c r hr, bind_eq_ok.mpr ⟨mid, hadd, ih h⟩⟩

theorem fieldCost_mono {max : MaxQueryLimit} {vars : Variables}
    {below below' : ObjectType → List SelectionNode → Int → Except RequestError Int}
    (hbelow : ∀ t ss k n, below t ss k = .ok n → below' t ss k = .ok n) {t : ObjectType}
    {pageSize : Int} {c : CollectedField} {r : Option Int}
    (h : fieldCost max vars below t pageSize c = .ok r) :
    fieldCost max vars below' t pageSize c = .ok r := by
  unfold fieldCost at h ⊢
  split at h
  · rwa [if_pos ‹_›]
  · rw [if_neg ‹_›]
    split at h
    · cases h
    · rw [if_neg ‹_›]
      split at h
      · split at h
        · obtain ⟨_, _, h⟩ := bind_eq_ok.mp h
          cases h
        · cases h
      · obtain ⟨args, hargs, h⟩ := bind_eq_ok.mp h
        refine bind_eq_ok.mpr ⟨args, hargs, ?_⟩
        split at h
        · exact h
        · split at h
          · cases h
          · rw [if_neg ‹_›]
            obtain ⟨children, hchildren, h⟩ := bind_eq_ok.mp h
            exact bind_eq_ok.mpr ⟨children, hbelow _ _ _ _ hchildren, h⟩

/-- What passes the analysis passes it under higher limits, at the same cost. -/
theorem walk_mono {doc : DocumentNode} {vars : Variables} {limits limits' : Limits}
    {max : MaxQueryLimit} (hlimits : limits.maxComplexity ≤ limits'.maxComplexity) {depth depth' : Nat}
    (hdepth : depth ≤ depth') {t : ObjectType} {ss : List SelectionNode} {pageSize n : Int}
    (h : walk doc vars limits max depth t ss pageSize = .ok n) :
    walk doc vars limits' max depth' t ss pageSize = .ok n := by
  induction depth generalizing depth' t ss pageSize n with
  | zero => cases h
  | succ depth ih =>
    obtain ⟨more, rfl⟩ : ∃ more, depth' = more + 1 := ⟨depth' - 1, by omega⟩
    obtain ⟨fields, hfields, h⟩ := bind_eq_ok.mp h
    have hbelow : ∀ t ss k n, walk doc vars limits max depth t ss k = .ok n →
        walk doc vars limits' max more t ss k = .ok n := fun t ss k n hn => ih (by omega) hn
    exact bind_eq_ok.mpr ⟨fields, hfields,
      addFields_mono hlimits (fun c r hr => fieldCost_mono hbelow hr) h⟩

theorem prepare_mono {limits limits' : Limits} {max : MaxQueryLimit} {r : Request}
    {op : OperationNode} {vars : Variables} (hdepth : limits.maxDepth ≤ limits'.maxDepth)
    (hlimits : limits.maxComplexity ≤ limits'.maxComplexity)
    (h : prepare limits max r = .ok (op, vars)) : prepare limits' max r = .ok (op, vars) := by
  obtain ⟨op', hop, h⟩ := bind_eq_ok.mp h
  obtain ⟨_, hquery, h⟩ := bind_eq_ok.mp h
  obtain ⟨vars', hvars, h⟩ := bind_eq_ok.mp h
  obtain ⟨total, htotal, h⟩ := bind_eq_ok.mp h
  exact bind_eq_ok.mpr ⟨op', hop, bind_eq_ok.mpr ⟨(), hquery, bind_eq_ok.mpr ⟨vars', hvars,
    bind_eq_ok.mpr ⟨total, walk_mono hlimits hdepth htotal, h⟩⟩⟩⟩

theorem executeRequest_mono {limits limits' : Limits} {r : Request}
    (hdepth : limits.maxDepth ≤ limits'.maxDepth)
    (hlimits : limits.maxComplexity ≤ limits'.maxComplexity)
    (h : (executeRequest limits ctx r).status = 200) :
    executeRequest limits' ctx r = executeRequest limits ctx r := by
  cases hprepare : prepare limits ctx.max r with
  | error e =>
    unfold executeRequest at h
    rw [hprepare] at h
    dsimp only at h
    split at h <;> cases h
  | ok p =>
    obtain ⟨op, vars⟩ := p
    obtain ⟨total, htotal⟩ := prepare_ok hprepare
    obtain ⟨more, hmore⟩ : ∃ more, limits'.maxDepth = limits.maxDepth + more :=
      ⟨limits'.maxDepth - limits.maxDepth, by omega⟩
    have hsame := executeSelection_enough htotal more .root []
    unfold executeRequest
    rw [hprepare, prepare_mono hdepth hlimits hprepare]
    dsimp only
    rw [hmore, hsame]

/-- Limits only refuse: a request that is answered is answered alike under higher ones. -/
theorem executeGraphQL_limits {options' : GraphQLOptions}
    (hdepth : options.limits.maxDepth ≤ options'.limits.maxDepth)
    (hcomplexity : options.limits.maxComplexity ≤ options'.limits.maxComplexity)
    (hlength : options.maxLength ≤ options'.maxLength)
    (h : (executeGraphQL number options ctx request).status = 200) :
    executeGraphQL number options' ctx request = executeGraphQL number options ctx request := by
  unfold executeGraphQL at h ⊢
  cases hread : readQuery number options.maxLength request.query with
  | error e =>
    rw [hread] at h
    cases h
  | ok doc =>
    obtain ⟨text, ks, hquery, hblank, hle, hspelled, hdoc⟩ := readQuery_iff.1 hread
    have hread' : readQuery number options'.maxLength request.query = .ok doc :=
      readQuery_iff.2 ⟨text, ks, hquery, hblank, Nat.le_trans hle hlength, hspelled, hdoc⟩
    rw [hread] at h
    rw [hread']
    exact executeRequest_mono hdepth hcomplexity h

/-- `\x7b__typename\x7d`, under a higher limit on depth. -/
theorem executeGraphQL_limits_typename :
    executeGraphQL (fun _ => .nan) { maxDepth := some 20 } oneEventStore
        ⟨some "\x7b__typename\x7d", .undefined, none⟩ =
      executeGraphQL (fun _ => .nan) {} oneEventStore ⟨some "\x7b__typename\x7d", .undefined, none⟩ :=
  executeGraphQL_limits (by decide) (by decide) (by decide) (by decide +kernel)

end answers

end SorobanLens.GraphQL
