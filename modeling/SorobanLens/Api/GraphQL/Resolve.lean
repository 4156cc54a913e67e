import SorobanLens.Api.GraphQL.Limits

/-!
What resolvers return, against the size their fields were estimated with.
-/

set_option autoImplicit false

namespace SorobanLens.GraphQL

open SorobanLens

def MAX_TOPICS : Nat := 8

def LensEvent.Small (e : LensEvent) : Prop := e.topics.length ≤ MAX_TOPICS

structure Context.Bounded (ctx : Context) : Prop where
  events : ∀ q p, ctx.store.queryEvents q = .ok p →
    p.events.length ≤ normaliseLimit ctx.max q.limit ∧ ∀ e ∈ p.events, LensEvent.Small e
  event : ∀ id e, ctx.store.getEvent id = .ok (some e) → LensEvent.Small e
  contracts : ∀ limit list, ctx.store.listContracts limit = .ok list →
    list.length ≤ normaliseLimit ctx.max (some (limit.getD (.ofNat 100)))
  topics : ∀ id limit list, ctx.store.listTopics id limit = .ok list →
    list.length ≤ normaliseLimit ctx.max (some (limit.getD (.ofNat 50)))

def Context.FewContracts (ctx : Context) : Prop :=
  ∀ list, ctx.store.listContracts none = .ok list → list.length ≤ DEFAULT_QUERY_LIMIT

/-- An object of a type, no larger than its selection was estimated for. -/
def Source.Fits (pageSize : Int) : ObjectType → Source → Prop
  | .query, .root => True
  | .eventPage, .page p => (p.events.length : Int) ≤ pageSize ∧ ∀ e ∈ p.events, LensEvent.Small e
  | .event, .event e => LensEvent.Small e
  | .decodedValue, .decoded _ => True
  | .contract, .contract _ => True
  | .topic, .topic _ => True
  | _, _ => False

def Raw.Fits (def_ : FieldDef) (o : ObjectType) (own pageSize : Int) : Raw → Prop
  | .null | .scalar _ => True
  | .object s => s.Fits (childPageSize def_ own pageSize) o
  | .list items => (items.length : Int) ≤ multiplier def_ own pageSize ∧
      ∀ s ∈ items, s.Fits (childPageSize def_ own pageSize) o

/-- Every field resolves to no more objects than the analysis charges for. -/
def Context.Charged (ctx : Context) : Prop :=
  ∀ (t : ObjectType) (name : String) (def_ : FieldDef) (o : ObjectType) (source : Source)
    (args : Args) (raw : Raw) (pageSize : Int), fieldDef t name = some def_ →
    def_.type.base = .object o → args.Typed → source.Fits pageSize t →
    resolve ctx t name source args = .ok raw → raw.Fits def_ o (ownLimit ctx.max args) pageSize

theorem fromStore_ok {α : Type} {r : Except StoreError α} {a : α} (h : fromStore r = .ok a) :
    r = .ok a := by
  cases r with
  | ok b =>
    cases h
    rfl
  | error e => cases h

theorem apiFailure_ok {α : Type} {r : Except ApiError α} {a : α} (h : apiFailure r = .ok a) :
    r = .ok a := by
  cases r with
  | ok b =>
    cases h
    rfl
  | error e => cases h

theorem normaliseLimit_ofNat (max : MaxQueryLimit) (n : Nat) :
    normaliseLimit max (some (.ofNat n)) = min (Max.max n 1) max.val := by
  have h : JsNumber.truncate (n : ℚ) = n := by simp [JsNumber.truncate]
  simp only [normaliseLimit, JsNumber.ofNat, h]
  omega

theorem contractById_fits (list : List ContractSummary) (id : String) (def_ : FieldDef)
    (own pageSize : Int) : (contractById list id).Fits def_ .contract own pageSize := by
  unfold contractById
  split <;> trivial

section Resolving

variable {ctx : Context} (hctx : ctx.Bounded)

include hctx

theorem queryPage_fits {args typed : Args} {contractId : Option String} {raw : Raw}
    {def_ : FieldDef} {pageSize : Int} (ht : args.Typed) (hpaged : def_.paged = true)
    (hsame : ownLimit ctx.max args = ownLimit ctx.max typed)
    (h : queryPage ctx args contractId = .ok raw) :
    raw.Fits def_ .eventPage (ownLimit ctx.max typed) pageSize := by
  obtain ⟨q, hq, h⟩ := bind_eq_ok.mp h
  obtain ⟨page, hpage, h⟩ := bind_eq_ok.mp h
  cases h
  have hlimit := eventQuery_limit ht (apiFailure_ok hq)
  obtain ⟨hlen, hsmall⟩ := hctx.events q page (fromStore_ok hpage)
  have hchild : childPageSize def_ (ownLimit ctx.max typed) pageSize = ownLimit ctx.max typed := by
    simp [childPageSize, hpaged]
  simp only [Raw.Fits, hchild, Source.Fits]
  refine ⟨?_, hsmall⟩
  omega

theorem topicList_fits {args : Args} {contractId : String} {raw : Raw} {def_ : FieldDef}
    {pageSize : Int} (ht : args.Typed) (hlist : def_.type.list = true)
    (hsize : def_.size = some .limit) (h : topicList ctx contractId args = .ok raw) :
    raw.Fits def_ .topic (ownLimit ctx.max args) pageSize := by
  obtain ⟨limit, hlimit, h⟩ := bind_eq_ok.mp h
  obtain ⟨topics, htopics, h⟩ := bind_eq_ok.mp h
  cases h
  have hlen := hctx.topics contractId limit topics (fromStore_ok htopics)
  have hmult : multiplier def_ (ownLimit ctx.max args) pageSize = ownLimit ctx.max args := by
    simp [multiplier, hlist, hsize]
  simp only [Raw.Fits, hmult, List.length_map]
  refine ⟨?_, ?_⟩
  · rcases boundedLimit_ok ht (apiFailure_ok hlimit) with ⟨x, rfl, -, hx⟩ | ⟨rfl, -, hown⟩
    · rw [Option.getD_some] at hlen
      omega
    · rw [Option.getD_none, normaliseLimit_ofNat] at hlen
      rw [hown]
      simp only [DEFAULT_QUERY_LIMIT]
      omega
  · intro s hs
    obtain ⟨t, -, rfl⟩ := List.mem_map.mp hs
    trivial

theorem fewContracts_of_max (hmax : ctx.max.val ≤ 50) : ctx.FewContracts := by
  intro list hlist
  have hlen := hctx.contracts none list hlist
  rw [Option.getD_none, normaliseLimit_ofNat] at hlen
  simp only [DEFAULT_QUERY_LIMIT]
  omega

theorem contractList_fits {args : Args} {limit : Option JsNumber} {contracts : List ContractSummary}
    {def_ : FieldDef} {pageSize : Int} (ht : args.Typed) (hlist : def_.type.list = true)
    (hsize : def_.size = some .limit)
    (hgiven : (∃ n, args.get "limit" = .number n) ∨ ctx.FewContracts)
    (hlimit : apiFailure (boundedLimit ctx.max (args.get "limit")) = .ok limit)
    (hcontracts : fromStore (ctx.store.listContracts limit) = .ok contracts) :
    (Raw.list (contracts.map .contract)).Fits def_ .contract (ownLimit ctx.max args) pageSize := by
  have hlen := hctx.contracts limit contracts (fromStore_ok hcontracts)
  have hmult : multiplier def_ (ownLimit ctx.max args) pageSize = ownLimit ctx.max args := by
    simp [multiplier, hlist, hsize]
  simp only [Raw.Fits, hmult, List.length_map]
  refine ⟨?_, ?_⟩
  · rcases boundedLimit_ok ht (apiFailure_ok hlimit) with ⟨x, rfl, -, hx⟩ | ⟨rfl, hno, hown⟩
    · rw [Option.getD_some] at hlen
      omega
    · rcases hgiven with ⟨n, hn⟩ | hfew
      · exact absurd hn (hno n)
      · rw [hown]
        exact_mod_cast hfew contracts (fromStore_ok hcontracts)
  · intro s hs
    obtain ⟨c, -, rfl⟩ := List.mem_map.mp hs
    trivial

theorem resolve_fits {t : ObjectType} {name : String} {def_ : FieldDef} {o : ObjectType}
    {source : Source} {args : Args} {raw : Raw} {pageSize : Int}
    (hd : fieldDef t name = some def_) (ho : def_.type.base = .object o) (ht : args.Typed)
    (hs : source.Fits pageSize t)
    (hgiven : t = .query → name = "contracts" →
      (∃ n, args.get "limit" = .number n) ∨ ctx.FewContracts)
    (h : resolve ctx t name source args = .ok raw) :
    raw.Fits def_ o (ownLimit ctx.max args) pageSize := by
  have hmem := mem_of_lookup hd
  cases t with
  | query =>
    simp only [schema, List.mem_cons, Prod.mk.injEq, List.not_mem_nil, or_false] at hmem
    rcases hmem with ⟨rfl, rfl⟩ | ⟨rfl, rfl⟩ | ⟨rfl, rfl⟩ | ⟨rfl, rfl⟩ | ⟨rfl, rfl⟩ <;> cases ho
    · obtain ⟨id, -, h⟩ := bind_eq_ok.mp h
      refine queryPage_fits hctx (ht.filter _) rfl ?_ h
      have hget : Args.get (args.filter (fun a => a.1 ≠ "contractId")) "limit" = args.get "limit" := by
        simp only [Args.get, lookup_filter_ne (show "limit" ≠ "contractId" by decide)]
      simp only [ownLimit, hget]
    · obtain ⟨e, he, rfl⟩ := map_eq_ok.mp h
      cases e with
      | none => trivial
      | some e => exact hctx.event _ e (fromStore_ok he)
    · obtain ⟨limit, hlimit, h⟩ := bind_eq_ok.mp h
      obtain ⟨contracts, hcontracts, h⟩ := bind_eq_ok.mp h
      cases h
      exact contractList_fits hctx ht rfl rfl (hgiven rfl rfl) hlimit hcontracts
    · obtain ⟨list, -, h⟩ := bind_eq_ok.mp h
      obtain ⟨id, -, h⟩ := bind_eq_ok.mp h
      cases h
      exact contractById_fits list id _ _ _
    · obtain ⟨id, -, h⟩ := bind_eq_ok.mp h
      exact topicList_fits hctx ht rfl rfl h
  | eventPage =>
    cases source <;> try exact hs.elim
    rename_i p
    simp only [schema, List.mem_cons, Prod.mk.injEq, List.not_mem_nil, or_false] at hmem
    rcases hmem with ⟨rfl, rfl⟩ | ⟨rfl, rfl⟩ | ⟨rfl, rfl⟩ <;> cases ho
    cases h
    refine ⟨?_, ?_⟩
    · simpa [multiplier, listOf] using hs.1
    · intro s hs'
      obtain ⟨e, he, rfl⟩ := List.mem_map.mp hs'
      exact hs.2 e he
  | event =>
    cases source <;> try exact hs.elim
    rename_i e
    simp only [schema, List.mem_cons, Prod.mk.injEq, List.not_mem_nil, or_false] at hmem
    rcases hmem with ⟨rfl, rfl⟩ | ⟨rfl, rfl⟩ | ⟨rfl, rfl⟩ | ⟨rfl, rfl⟩ | ⟨rfl, rfl⟩ | ⟨rfl, rfl⟩ |
      ⟨rfl, rfl⟩ | ⟨rfl, rfl⟩ | ⟨rfl, rfl⟩ | ⟨rfl, rfl⟩ | ⟨rfl, rfl⟩ | ⟨rfl, rfl⟩ | ⟨rfl, rfl⟩ |
      ⟨rfl, rfl⟩ <;> cases ho
    · cases h
      have hsmall : e.topics.length ≤ MAX_TOPICS := hs
      refine ⟨?_, ?_⟩
      · simp only [multiplier, listOf, if_true, List.length_map]
        exact_mod_cast hsmall
      · intro s hs'
        obtain ⟨v, -, rfl⟩ := List.mem_map.mp hs'
        trivial
    · cases h
      trivial
    · obtain ⟨list, -, rfl⟩ := map_eq_ok.mp h
      exact contractById_fits list _ _ _ _
  | decodedValue =>
    simp only [schema, List.mem_cons, Prod.mk.injEq, List.not_mem_nil, or_false] at hmem
    rcases hmem with ⟨rfl, rfl⟩ | ⟨rfl, rfl⟩ <;> cases ho
  | contract =>
    cases source <;> try exact hs.elim
    simp only [schema, List.mem_cons, Prod.mk.injEq, List.not_mem_nil, or_false] at hmem
    rcases hmem with ⟨rfl, rfl⟩ | ⟨rfl, rfl⟩ | ⟨rfl, rfl⟩ | ⟨rfl, rfl⟩ | ⟨rfl, rfl⟩ | ⟨rfl, rfl⟩ |
      ⟨rfl, rfl⟩ <;> cases ho
    · exact topicList_fits hctx ht rfl rfl h
    · exact queryPage_fits hctx ht rfl rfl h
  | topic =>
    simp only [schema, List.mem_cons, Prod.mk.injEq, List.not_mem_nil, or_false] at hmem
    rcases hmem with ⟨rfl, rfl⟩ | ⟨rfl, rfl⟩ <;> cases ho

theorem charged_of_few (hfew : ctx.FewContracts) : ctx.Charged :=
  fun _ _ _ _ _ _ _ _ hd ho ht hs h => resolve_fits hctx hd ho ht hs (fun _ _ => .inr hfew) h

end Resolving

end SorobanLens.GraphQL
