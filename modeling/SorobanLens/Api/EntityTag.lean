import SorobanLens.Store.Growth
import Mathlib
import SorobanLens.Api.Stream
import SorobanLens.Lib.Regex

/-!
The two event-list routes with their validator: `entityTag`, `matchesEntityTag`, the
304, and what a 304 is worth over the writes between two requests.
-/

set_option autoImplicit false

namespace SorobanLens

variable {τ : Type}

structure ListApi (τ : Type) where
  rd : Reader
  /-- `Date.parse`, in milliseconds. -/
  dateParse : String → Option Int
  /-- SHA-1 of a text, in base64url. -/
  sha1 : String → String
  /-- `decodeURIComponent`; `none` is a thrown `URIError`. -/
  decodeURIComponent : String → Option String
  /-- `ContractTypedDecoder.fromRecord(record)?.decode(event)`. -/
  decodeTyped : ContractSpecRecord → LensEvent → Option τ

inductive EventListRoute where
  | events
  /-- `/contracts/{id}/events`, with the path segment as it was sent. -/
  | contractEvents (segment : String)

def EventListRoute.path : EventListRoute → String
  | .events => "/events"
  | .contractEvents segment => "/contracts/" ++ segment ++ "/events"

structure ListRequest where
  route : EventListRoute
  query : Params
  accept : Option String
  ifNoneMatch : Option String

inductive ListError where
  | api (e : ApiError)
  | store (e : StoreError)
  | malformedUri
  deriving DecidableEq

/-! ### Content negotiation -/

def splitTrim (sep : Char) (text : String) : List String :=
  (text.toList.splitOn sep).map (fun piece => trimText (String.ofList piece))

def lowerCase (text : String) : String := String.ofList (text.toList.map Char.toLower)

/-- `/^q\s*=/i` -/
def isQuality (param : String) : Bool :=
  match param.toList with
  | c :: cs => c.toLower == 'q' && (cs.dropWhile Regex.isSpace).head? == some '='
  | [] => false

def acceptRange (part : String) : String × JsNumber :=
  match splitTrim ';' part with
  | [] => ("", .ofNat 1)
  | range :: rest =>
    let q := match rest.find? isQuality with
      | some param => JsNumber.ofText (String.ofList ((param.toList.splitOn '=')[1]?.getD []))
      | none => .ofNat 1
    (lowerCase range, if q.isFinite then q else .ofNat 0)

/-- The quality of the most specific range that matches, or 0. -/
def qualityOf (ranges : List (String × JsNumber)) (type majorRange : String) : JsNumber :=
  ((ranges.lookup type).or ((ranges.lookup majorRange).or (ranges.lookup "*/*"))).getD (.ofNat 0)

def wantsCsv (params : Params) (accept : Option String) : Except ApiError Bool :=
  match given (params.get "format") with
  | some format =>
    if lowerCase format = "csv" then .ok true
    else if lowerCase format = "json" then .ok false
    else .error (.badRequest ("\"format\" must be \"json\" or \"csv\", got \"" ++ format ++ "\".")
      "format")
  | none =>
    let header := accept.getD ""
    if trimText header = "" then .ok false
    else
      let ranges := (splitTrim ',' header).map acceptRange
      .ok (JsNumber.lt (qualityOf ranges "application/json" "application/*")
        (qualityOf ranges "text/csv" "text/*"))

/-! ### The validator -/

/-- The parameters as the validator sees them: keys sorted, repeats in their order. -/
def filterText (params : Params) : String :=
  "&".intercalate ((params.mergeSort (fun a b => !decide (utf16 b.1 < utf16 a.1))).map
    (fun p => p.1 ++ "=" ++ p.2))

def entityTagOf (sha1 : String → String) (newest path filter representation : String) : String :=
  "W/\"" ++ sha1 (newest ++ "\n" ++ path ++ "\n" ++ filter ++ "\n" ++ representation) ++ "\""

/-- `tag.trim().replace(/^W\//, '')` -/
def bareTag (tag : List Char) : List Char :=
  match JsNumber.trimChars tag with
  | 'W' :: '/' :: rest => rest
  | rest => rest

def matchesEntityTag (header : Option String) (etag : String) : Bool :=
  match given header with
  | none => false
  | some value => (value.toList.splitOn ',').any (fun candidate =>
      JsNumber.trimChars candidate == ['*'] || bareTag candidate == bareTag etag.toList)

/-! ### The handlers -/

inductive ListTarget where
  | batch (ids : List String)
  | query (query : EventQuery)
  deriving DecidableEq

structure ListPlan where
  csv : Bool
  fields : Option (List String)
  target : ListTarget
  deriving DecidableEq

def listPlan (api : ListApi τ) (req : ListRequest) : Except ListError ListPlan :=
  match req.route with
  | .events => do
    let csv ← (wantsCsv req.query req.accept).mapError .api
    let fields ← (parseFields req.query).mapError .api
    match ← (parseIds req.query).mapError .api with
    | some ids => pure ⟨csv, fields, .batch ids⟩
    | none => do
      let query ← (parseEventQuery api.dateParse api.rd.maxLimit req.query).mapError .api
      pure ⟨csv, fields, .query query⟩
  | .contractEvents segment =>
    match api.decodeURIComponent segment with
    | none => .error .malformedUri
    | some decoded => do
      let contractId ← (assertContractId decoded).mapError .api
      let fields ← (parseFields req.query).mapError .api
      let query ← (parseEventQuery api.dateParse api.rd.maxLimit req.query).mapError .api
      let csv ← (wantsCsv req.query req.accept).mapError .api
      pure ⟨csv, fields, .query { query with contractId := some contractId }⟩

/-- The body of a JSON answer; of each event only `fields` are written. -/
structure ListBody (τ : Type) where
  events : List (LensEvent × Option τ)
  fields : Option (List String)
  nextCursor : Option String := none
  prevCursor : Option String := none
  total : Option (Nat × Bool) := none
  missing : Option (List String) := none
  emptyReason : Option String := none

/-- The spec `SpecCache` decodes with once its entry is fresh: a failed load is none. -/
def specOf (db : Db) (contractId : String) : Option ContractSpecRecord :=
  ((getContractSpec contractId db).toOption).join

def typedOf (api : ListApi τ) (db : Db) (e : LensEvent) : Option τ :=
  (specOf db e.contractId).bind (fun record => api.decodeTyped record e)

def annotate (api : ListApi τ) (db : Db) (events : List LensEvent) : List (LensEvent × Option τ) :=
  events.map (fun e => (e, typedOf api db e))

def noEventsMessage (contractId : String) : String :=
  "No indexed events for contract \"" ++ contractId ++ "\". " ++
    "The contract may not exist, or may exist on-chain but not be one this instance indexes — " ++
    "check LENS_CONTRACT_IDS."

def batchBody (api : ListApi τ) (fields : Option (List String)) (ids : List String) (db : Db) :
    Except ListError (ListBody τ) := do
  let found ← (ids.mapM (fun id => getEvent api.rd.build id db)).mapError .store
  pure
    { events := annotate api db (found.filterMap id)
      fields := fields
      missing := some (((ids.zip found).filter (fun p => p.2.isNone)).map Prod.fst) }

def bodyOf (api : ListApi τ) (fields : Option (List String)) (db : Db) (page : EventPage) :
    ListBody τ where
  events := annotate api db page.events
  fields := fields
  nextCursor := page.nextCursor
  prevCursor := page.prevCursor
  total := some (page.total, page.totalIsEstimate)

def pageBody (api : ListApi τ) (route : EventListRoute) (fields : Option (List String))
    (query : EventQuery) (db : Db) (cache : CountCache) : Except ListError (ListBody τ) := do
  let page ← ((queryEvents api.rd query db cache).1).mapError .store
  match route with
  | .events => pure (bodyOf api fields db page)
  | .contractEvents _ =>
    if page.events.isEmpty then do
      let any : EventQuery := { contractId := query.contractId, limit := some (.ofNat 1) }
      let known ← ((queryEvents api.rd any db (queryEvents api.rd query db cache).2).1).mapError .store
      if known.events.isEmpty then
        .error (.api (.notFound (noEventsMessage (query.contractId.getD ""))))
      else pure { bodyOf api fields db page with emptyReason := some "no_matching_events" }
    else pure (bodyOf api fields db page)

/-- What a handler returns; `none` is a CSV stream. -/
def listBody (api : ListApi τ) (req : ListRequest) (db : Db) (cache : CountCache) :
    Except ListError (Option (ListBody τ)) := do
  let plan ← listPlan api req
  if plan.csv then pure none
  else
    match plan.target with
    | .batch ids => (batchBody api plan.fields ids db).map some
    | .query query => (pageBody api req.route plan.fields query db cache).map some

/-! ### Answering -/

inductive ListResponse (τ : Type) where
  | notModified (etag : String)
  /-- A 200; a CSV stream carries no validator and has no body here. -/
  | ok (etag : Option String) (body : Option (ListBody τ))
  | failed (e : ListError)

def ListResponse.etag : ListResponse τ → Option String
  | .notModified etag => some etag
  | .ok etag _ => etag
  | .failed _ => none

/-- `(await store.getLatestEventId()) ?? ''` -/
def newestId (db : Db) : Except StoreError String := (getLatestEventId db).map (fun id => id.getD "")

def entityTag (api : ListApi τ) (req : ListRequest) (db : Db) : Except ListError String := do
  let csv ← (wantsCsv req.query req.accept).mapError .api
  let newest ← (newestId db).mapError .store
  pure (entityTagOf api.sha1 newest req.route.path (filterText req.query)
    (if csv then "csv" else "json"))

def assertSchemaCurrent (db : Db) : Except ListError Unit :=
  if db.appliedVersions.foldl max 0 = LATEST_SCHEMA_VERSION then .ok ()
  else .error (.api ⟨503, "unavailable", "The database is at schema v" ++
    toString (db.appliedVersions.foldl max 0) ++ ", expected v" ++ toString LATEST_SCHEMA_VERSION ++
    ". A migration is pending; see GET /health.", none⟩)

def handleList (api : ListApi τ) (req : ListRequest) (db : Db) (cache : CountCache) :
    ListResponse τ :=
  match assertSchemaCurrent db with
  | .error e => .failed e
  | .ok () =>
    match entityTag api req db with
    | .error e => .failed e
    | .ok etag =>
      if matchesEntityTag req.ifNoneMatch etag then .notModified etag
      else
        match listBody api req db cache with
        | .error e => .failed e
        | .ok none => .ok none none
        | .ok (some body) => .ok (some etag) (some body)

/-! ### Writes between two requests -/

def topId (db : Db) : String := (db.storedIds.max?).getD ""

namespace ListTarget

/-- No id a write adds can show in the answer. -/
def Spared (rd : Reader) (db db' : Db) : ListTarget → Prop
  | .batch ids => ∀ id ∈ ids, id ∈ db'.storedIds → id ∈ db.storedIds
  | .query q => ∀ id ∈ (matchingRows rd.text q db').map EventRow.id, id ∉ db.storedIds →
      q.OutOfReach (normaliseLimit rd.maxLimit q.limit)
        ((matchingRows rd.text q db).map EventRow.id) id

def Shows (rd : Reader) (db : Db) (e : LensEvent) : ListTarget → Prop
  | .batch ids => ∃ row ∈ tableRows db.events, row.id ∈ ids ∧ rowToEvent row = some e
  | .query q => ∃ row ∈ matchingRows rd.text q db, q.OnPage (normaliseLimit rd.maxLimit q.limit)
      ((matchingRows rd.text q db).map EventRow.id) row.id ∧ rowToEvent row = some e

end ListTarget

/-- A write that leaves what the answer shows, or is told by the newest id. -/
inductive QuietWrite (api : ListApi τ) (target : ListTarget) (db : Db) : Db → Prop where
  | insertEvents (host : Host) (now : Nat → String) (events : List RawEvent) :
      topId db < topId ((StoreOp.insertEvents now events).exec host db) ∨
        target.Spared api.rd db ((StoreOp.insertEvents now events).exec host db) →
      QuietWrite api target db ((StoreOp.insertEvents now events).exec host db)
  | saveContractSpec (host : Host) (record : ContractSpecRecord) :
      (∀ e, target.Shows api.rd db e → e.contractId = record.contractId →
        typedOf api ((StoreOp.saveContractSpec record).exec host db) e = typedOf api db e) →
      QuietWrite api target db ((StoreOp.saveContractSpec record).exec host db)

structure AnswersAlike (api : ListApi τ) (target : ListTarget) (a b : Db) : Prop where
  batch : ∀ ids, target = .batch ids → ∀ id ∈ ids, ∀ found,
    getEvent api.rd.build id a = .ok found → getEvent api.rd.build id b = .ok found
  page : ∀ q, target = .query q → rowPage api.rd q b = rowPage api.rd q a
  canAnswer : ∀ q, CanAnswer api.rd q a → CanAnswer api.rd q b
  matching : ∀ q, ∀ row ∈ matchingRows api.rd.text q a, row ∈ matchingRows api.rd.text q b
  shows : ∀ e, target.Shows api.rd a e → target.Shows api.rd b e
  typed : ∀ e, target.Shows api.rd a e → typedOf api b e = typedOf api a e

namespace AnswersAlike

variable {api : ListApi τ} {target : ListTarget} {a b c : Db}

theorem refl (a : Db) : AnswersAlike api target a a :=
  ⟨fun _ _ _ _ _ h => h, fun _ _ => rfl, fun _ h => h, fun _ _ h => h, fun _ h => h, fun _ _ => rfl⟩

theorem trans (h : AnswersAlike api target a b) (g : AnswersAlike api target b c) :
    AnswersAlike api target a c where
  batch := fun ids ht id hid found hf => g.batch ids ht id hid found (h.batch ids ht id hid found hf)
  page := fun q ht => (g.page q ht).trans (h.page q ht)
  canAnswer := fun q hq => g.canAnswer q (h.canAnswer q hq)
  matching := fun q row hrow => g.matching q row (h.matching q row hrow)
  shows := fun e he => g.shows e (h.shows e he)
  typed := fun e he => (g.typed e (h.shows e he)).trans (h.typed e he)

end AnswersAlike

theorem shows_query {rd : Reader} {db : Db} {q : EventQuery} {e : LensEvent} :
    (ListTarget.query q).Shows rd db e ↔ ∃ row ∈ (rowPage rd q db).rows, rowToEvent row = some e := by
  constructor
  · intro h
    obtain ⟨row, hrow, hpage, he⟩ := h
    exact ⟨row, mem_rowPage.mpr ⟨hrow, hpage⟩, he⟩
  · intro h
    obtain ⟨row, hrow, he⟩ := h
    exact ⟨row, (mem_rowPage.mp hrow).1, (mem_rowPage.mp hrow).2, he⟩

namespace Db.Grown

variable {db db' : Db}

theorem rowPage_eq (h : db.Grown db') {rd : Reader} {q : EventQuery}
    (hspared : (ListTarget.query q).Spared rd db db') : rowPage rd q db' = rowPage rd q db := by
  obtain ⟨more, hmore, hnew⟩ := h.matchingRows rd.text q
  have hnodup := nodup_matchingRows rd.text q db'
  unfold rowPage
  rw [hmore] at hnodup ⊢
  refine keysetPage_append hnodup ?_
  intro m hm
  exact hspared m.id (by simp [hmore, List.mem_map_of_mem hm]) (hnew m hm)

theorem mem_tableRows (h : db.Grown db') {row : EventRow} (hrow : row ∈ tableRows db.events) :
    row ∈ tableRows db'.events := by
  cases ht : db.events with
  | none =>
    rw [ht] at hrow
    cases hrow
  | some t =>
    have hsome : db'.events.isSome = true := by rw [h.hasEvents, ht]; rfl
    obtain ⟨t', ht'⟩ := Option.isSome_iff_exists.mp hsome
    obtain ⟨added, hadded⟩ := h.rows t t' ht ht'
    rw [ht] at hrow
    have hmem : row ∈ t.rows := hrow
    rw [ht']
    show row ∈ t'.rows
    simp [hadded, hmem]

theorem prepared (h : db.Grown db') {build : SqliteBuild} (hp : SorobanLens.prepared build db = .ok ()) :
    SorobanLens.prepared build db' = .ok () := by
  obtain ⟨⟨t, ht⟩, a, ha⟩ := prepared_ok.mp hp
  obtain ⟨he, hf⟩ := prepareWrite_ok.mp ht
  have hsome : db'.events.isSome = true := by rw [h.hasEvents, he]; rfl
  have haddr : db'.eventAddresses.isSome = true := by rw [h.hasAddresses, ha]; rfl
  obtain ⟨t', ht'⟩ := Option.isSome_iff_exists.mp hsome
  refine prepared_ok.mpr ⟨⟨t', prepareWrite_ok.mpr ⟨ht', ?_⟩⟩, Option.isSome_iff_exists.mp haddr⟩
  intro hn
  rw [h.frame.triggers] at hn
  exact ⟨(hf hn).1, by rw [h.hasFts]; exact (hf hn).2⟩

end Db.Grown

theorem getEvent_ok {build : SqliteBuild} {id : String} {db : Db} {found : Option LensEvent} :
    getEvent build id db = .ok found ↔ prepared build db = .ok () ∧ ∃ t, db.events = some t ∧
      ((t.find? id = none ∧ found = none) ∨
        ∃ row e, t.find? id = some row ∧ rowToEvent row = some e ∧ found = some e) := by
  unfold getEvent
  have hunit (p : Unit → Prop) : (∃ a, p a) ↔ p () := ⟨fun ⟨_, h⟩ => h, fun h => ⟨(), h⟩⟩
  rw [bind_eq_ok, hunit]
  refine and_congr_right (fun _ => ?_)
  cases ht : db.events with
  | none => simp
  | some t =>
    cases hf : t.find? id with
    | none => simp [hf, pure, Except.pure, Eq.comm]
    | some row =>
      cases he : rowToEvent row with
      | none => simp [hf, he]
      | some e => simp [hf, he, pure, Except.pure, Eq.comm]

theorem Db.Grown.answersAlike {api : ListApi τ} {target : ListTarget} {db db' : Db}
    (h : db.Grown db') (hspared : target.Spared api.rd db db') :
    AnswersAlike api target db db' where
  batch := by
    intro ids htarget id hid found hfound
    subst htarget
    obtain ⟨hprep, t, ht, hcase⟩ := getEvent_ok.mp hfound
    have hsome : db'.events.isSome = true := by rw [h.hasEvents, ht]; rfl
    obtain ⟨t', ht'⟩ := Option.isSome_iff_exists.mp hsome
    obtain ⟨added, hadded⟩ := h.rows t t' ht ht'
    refine getEvent_ok.mpr ⟨h.prepared hprep, t', ht', ?_⟩
    rcases hcase with ⟨hnone, rfl⟩ | ⟨row, e, hrow, he, rfl⟩
    · refine .inl ⟨?_, rfl⟩
      rw [KeyedTable.find?_eq_none] at hnone ⊢
      intro row hrow hk
      have hstored := hspared id hid (mem_storedIds.mpr ⟨t', ht', row, hrow, hk⟩)
      obtain ⟨u, hu, other, hother, hk'⟩ := mem_storedIds.mp hstored
      rw [ht, Option.some.injEq] at hu
      subst hu
      exact hnone other hother hk'
    · obtain ⟨hmem, hk⟩ := KeyedTable.find?_eq_some.mp hrow
      exact .inr ⟨row, e, KeyedTable.find?_eq_some.mpr ⟨by simp [hadded, hmem], hk⟩, he, rfl⟩
  page := by
    intro q htarget
    subst htarget
    exact h.rowPage_eq hspared
  canAnswer := fun q hq => h.canAnswer.mpr hq
  matching := by
    intro q row hrow
    obtain ⟨more, hmore, -⟩ := h.matchingRows api.rd.text q
    simp [hmore, hrow]
  shows := by
    intro e he
    cases target with
    | batch ids =>
      obtain ⟨row, hrow, hid, hread⟩ := he
      exact ⟨row, h.mem_tableRows hrow, hid, hread⟩
    | query q =>
      rw [shows_query] at he ⊢
      rwa [h.rowPage_eq hspared]
  typed := by
    intro e _
    simp only [typedOf, specOf, getContractSpec, h.frame.contractSpecs]

theorem saveContractSpec_frame (record : ContractSpecRecord) (db : Db) :
    ∃ specs, (saveContractSpec record db).2 = { db with contractSpecs := specs } := by
  unfold saveContractSpec
  split
  · exact ⟨db.contractSpecs, rfl⟩
  · exact ⟨_, rfl⟩

theorem answersAlike_specs {api : ListApi τ} {target : ListTarget} {db : Db}
    {specs : Option SpecTable}
    (htyped : ∀ e, target.Shows api.rd db e →
      typedOf api { db with contractSpecs := specs } e = typedOf api db e) :
    AnswersAlike api target db { db with contractSpecs := specs } where
  batch := fun ids _ id _ found hf => hf
  page := fun _ _ => rfl
  canAnswer := by
    intro q hq
    refine ⟨hq.1, ?_⟩
    intro c hc
    have hprep := hq.2 c hc
    cases c with
    | _ => exact hprep
  matching := fun _ _ h => h
  shows := fun e he => by cases target <;> exact he
  typed := htyped

theorem typedOf_saveContractSpec_of_ne {api : ListApi τ} {record : ContractSpecRecord} {db : Db}
    {e : LensEvent} (h : e.contractId ≠ record.contractId) :
    typedOf api (saveContractSpec record db).2 e = typedOf api db e := by
  unfold saveContractSpec
  split
  · rfl
  · rename_i t ht
    simp only [typedOf, specOf, getContractSpec, ht]
    have hkey : e.contractId ≠ record.toRow.contractId := h
    rw [KeyedTable.find?_upsert_of_ne hkey]

/-! ### Runs -/

theorem topId_mem_or (db : Db) : topId db ∈ db.storedIds ∨ topId db = "" := by
  unfold topId
  cases h : db.storedIds.max? with
  | none => exact .inr rfl
  | some id => exact .inl (List.max?_mem h)

theorem le_topId {db : Db} {id : String} (h : id ∈ db.storedIds) : id ≤ topId db := by
  unfold topId
  cases hm : db.storedIds.max? with
  | none =>
    rw [List.max?_eq_none_iff] at hm
    rw [hm] at h
    cases h
  | some top => exact (List.max?_eq_some_iff.mp hm).2 id h

theorem topId_le_of_subset {db db' : Db} (h : ∀ id ∈ db.storedIds, id ∈ db'.storedIds) :
    topId db ≤ topId db' := by
  rcases topId_mem_or db with hmem | hempty
  · exact le_topId (h _ hmem)
  · rw [hempty]
    exact le_of_not_gt (not_lt_empty _)

/-- One write keeps the newest id from falling, and the answer unless it rises. -/
theorem QuietWrite.step {api : ListApi τ} {target : ListTarget} {db db' : Db}
    (h : QuietWrite api target db db') :
    topId db ≤ topId db' ∧ (topId db' = topId db → AnswersAlike api target db db') := by
  cases h with
  | insertEvents host now events hquiet =>
    have hgrown : db.Grown ((StoreOp.insertEvents now events).exec host db) :=
      grown_insertEvents host.rt host.build now events db
    obtain ⟨added, hadded⟩ := hgrown.storedIds
    refine ⟨topId_le_of_subset (fun id hid => by simp [hadded, hid]), ?_⟩
    intro hsame
    rcases hquiet with hrise | hspared
    · rw [hsame] at hrise
      exact absurd hrise (lt_irrefl _)
    · exact hgrown.answersAlike hspared
  | saveContractSpec host record hquiet =>
    obtain ⟨specs, hspecs⟩ := saveContractSpec_frame record db
    have hexec : (StoreOp.saveContractSpec record).exec host db =
        { db with contractSpecs := specs } := hspecs
    rw [hexec]
    refine ⟨le_refl _, fun _ => answersAlike_specs ?_⟩
    intro e he
    rw [← hspecs]
    by_cases hid : e.contractId = record.contractId
    · exact hquiet e he hid
    · exact typedOf_saveContractSpec_of_ne hid

theorem QuietWrite.reached {api : ListApi τ} {target : ListTarget} {db db' : Db}
    (h : QuietWrite api target db db') (hr : db.Reached) : db'.Reached := by
  cases h with
  | insertEvents host now events => exact hr.exec host _
  | saveContractSpec host record => exact hr.exec host _

theorem answersAlike_of_run {api : ListApi τ} {target : ListTarget} {db db' : Db}
    (h : Relation.ReflTransGen (QuietWrite api target) db db') :
    topId db ≤ topId db' ∧ (topId db' = topId db → AnswersAlike api target db db') := by
  induction h with
  | refl => exact ⟨le_refl _, fun _ => .refl db⟩
  | tail _ hstep ih =>
    obtain ⟨hle, hlast⟩ := hstep.step
    refine ⟨ih.1.trans hle, ?_⟩
    intro hsame
    have hmid := le_antisymm (hle.trans (le_of_eq hsame)) ih.1
    exact (ih.2 hmid).trans (hlast (hsame.trans hmid.symm))

/-! ### The same answer -/

structure ListBody.SamePage (body' body : ListBody τ) : Prop where
  events : body'.events = body.events
  fields : body'.fields = body.fields
  nextCursor : body'.nextCursor = body.nextCursor
  prevCursor : body'.prevCursor = body.prevCursor
  missing : body'.missing = body.missing

section Answer

variable {api : ListApi τ} {a b : Db} {cache cache' : CountCache} {fields : Option (List String)}
  {body : ListBody τ}

theorem annotate_congr {events : List LensEvent}
    (h : ∀ e ∈ events, typedOf api b e = typedOf api a e) :
    annotate api b events = annotate api a events := by
  refine List.map_congr_left ?_
  intro e he
  rw [h e he]

theorem mapM_of_ok {α β ε : Type} {f g : α → Except ε β} {xs : List α} {ys : List β}
    (h : xs.mapM f = .ok ys) (hfg : ∀ x ∈ xs, ∀ y, f x = .ok y → g x = .ok y) :
    xs.mapM g = .ok ys ∧ ∀ y ∈ ys, ∃ x ∈ xs, f x = .ok y := by
  induction xs generalizing ys with
  | nil =>
    rw [List.mapM_nil] at h
    cases h
    exact ⟨rfl, by simp⟩
  | cons x xs ih =>
    rw [List.mapM_cons] at h
    obtain ⟨y, hy, h⟩ := bind_eq_ok.mp h
    obtain ⟨rest, hrest, h⟩ := bind_eq_ok.mp h
    cases h
    obtain ⟨hg, hfrom⟩ := ih hrest (fun x hx => hfg x (List.mem_cons_of_mem _ hx))
    refine ⟨?_, ?_⟩
    · rw [List.mapM_cons, hfg x List.mem_cons_self y hy, hg]
      rfl
    · intro z hz
      rcases List.mem_cons.mp hz with rfl | hz
      · exact ⟨x, List.mem_cons_self, hy⟩
      · obtain ⟨w, hw, hfw⟩ := hfrom z hz
        exact ⟨w, List.mem_cons_of_mem _ hw, hfw⟩

theorem batchBody_alike {ids : List String} (h : AnswersAlike api (.batch ids) a b)
    (hbody : batchBody api fields ids a = .ok body) :
    ∃ body', batchBody api fields ids b = .ok body' ∧ body'.SamePage body := by
  obtain ⟨found, hfound, hbody⟩ := bind_eq_ok.mp hbody
  rw [mapError_eq_ok] at hfound
  cases hbody
  obtain ⟨hb, hfrom⟩ := mapM_of_ok hfound (h.batch ids rfl)
  refine ⟨_, bind_eq_ok.mpr ⟨found, mapError_eq_ok.mpr hb, rfl⟩, ?_, rfl, rfl, rfl, rfl⟩
  refine annotate_congr ?_
  intro e he
  obtain ⟨e', he', hsome⟩ := List.mem_filterMap.mp he
  cases hsome
  obtain ⟨id, hid, hget⟩ := hfrom _ he'
  obtain ⟨-, t, ht, ⟨-, hnone⟩ | ⟨row, e'', hrow, hread, hsome⟩⟩ := getEvent_ok.mp hget
  · cases hnone
  · cases hsome
    obtain ⟨hmem, hk⟩ := KeyedTable.find?_eq_some.mp hrow
    refine h.typed e ⟨row, ?_, by rw [hk]; exact hid, hread⟩
    rw [ht]
    exact hmem

theorem rowPage_eq_nil {rd : Reader} {q : EventQuery} {db : Db} (hcursor : q.cursor = none)
    (h : (rowPage rd q db).rows = []) : matchingRows rd.text q db = [] := by
  have hpast : (fun row : EventRow => q.pastCursor row.id) = fun _ => true := by
    funext row
    simp [EventQuery.pastCursor, given, hcursor]
  have hpos := normaliseLimit_pos rd.maxLimit q.limit
  have hscan : scanned q (normaliseLimit rd.maxLimit q.limit) (matchingRows rd.text q db) = [] := by
    unfold rowPage at h
    rw [keysetPage_scan] at h
    split at h
    · simpa using h
    · exact h
  unfold scanned at hscan
  rw [hpast, List.filter_true, List.take_eq_nil_iff] at hscan
  rcases hscan with hzero | hnil
  · omega
  · refine List.eq_nil_iff_forall_not_mem.mpr ?_
    intro row hrow
    have hmem : row ∈ orderById q.scanOrder (matchingRows rd.text q db) :=
      Keyset.mem_arrange.mpr hrow
    rw [hnil] at hmem
    cases hmem

theorem knownStays {target : ListTarget} (h : AnswersAlike api target a b) {q : EventQuery}
    {known known' : EventPage} {ca cb : CountCache}
    (hknown : (queryEvents api.rd { contractId := q.contractId, limit := some (.ofNat 1) } a ca).1 =
      .ok known)
    (hknown' : (queryEvents api.rd { contractId := q.contractId, limit := some (.ofNat 1) } b cb).1 =
      .ok known') (hsome : known.events.isEmpty = false) : known'.events.isEmpty = false := by
  obtain ⟨hrows, -, -⟩ := queryEvents_rowPage hknown
  obtain ⟨hrows', -, -⟩ := queryEvents_rowPage hknown'
  cases hev : known'.events with
  | cons e es => rfl
  | nil =>
    exfalso
    rw [hev] at hrows'
    have hnil' : (rowPage api.rd { contractId := q.contractId, limit := some (.ofNat 1) } b).rows = [] := by
      simpa using (mapM_eq_some.mp hrows')
    have hnone := rowPage_eq_nil rfl hnil'
    have hnil : (rowPage api.rd { contractId := q.contractId, limit := some (.ofNat 1) } a).rows = [] := by
      refine List.eq_nil_iff_forall_not_mem.mpr ?_
      intro row hrow
      have hmem := h.matching _ row (mem_rowPage.mp hrow).1
      rw [hnone] at hmem
      cases hmem
    rw [hnil] at hrows
    have hempty : known.events = [] := by simpa [Eq.comm] using hrows
    simp [hempty] at hsome

theorem pageBody_alike {q : EventQuery} {route : EventListRoute}
    (h : AnswersAlike api (.query q) a b) (hr : b.Reached)
    (hbody : pageBody api route fields q a cache = .ok body) (cache' : CountCache) :
    ∃ body', pageBody api route fields q b cache' = .ok body' ∧ body'.SamePage body := by
  obtain ⟨page, hpage, hbody⟩ := bind_eq_ok.mp hbody
  rw [mapError_eq_ok] at hpage
  obtain ⟨page', hpage'⟩ := hr.queryEvents_ok (h.canAnswer q (canAnswer_of_ok hpage)) cache'
  obtain ⟨hrows, hnext, hprev⟩ := queryEvents_rowPage hpage
  obtain ⟨hrows', hnext', hprev'⟩ := queryEvents_rowPage hpage'
  rw [h.page q rfl] at hrows' hnext' hprev'
  have hevents : page'.events = page.events := Option.some.inj (hrows'.symm.trans hrows)
  have hannotate : annotate api b page'.events = annotate api a page.events := by
    rw [hevents]
    refine annotate_congr ?_
    intro e he
    obtain ⟨row, hrow, hread⟩ := (mem_of_forall₂ (mapM_eq_some.mp hrows)).2 e he
    exact h.typed e (shows_query.mpr ⟨row, hrow, hread⟩)
  have hnextCursor := hnext'.trans hnext.symm
  have hprevCursor := hprev'.trans hprev.symm
  have hsame : (bodyOf api fields b page').SamePage (bodyOf api fields a page) :=
    ⟨hannotate, rfl, hnextCursor, hprevCursor, rfl⟩
  cases route with
  | events =>
    cases hbody
    exact ⟨bodyOf api fields b page', bind_eq_ok.mpr ⟨page', mapError_eq_ok.mpr hpage', rfl⟩, hsame⟩
  | contractEvents segment =>
    simp only at hbody
    split at hbody
    · rename_i hempty
      obtain ⟨known, hknown, hbody⟩ := bind_eq_ok.mp hbody
      rw [mapError_eq_ok] at hknown
      split at hbody
      · cases hbody
      · rename_i hsome
        cases hbody
        obtain ⟨known', hknown'⟩ := hr.queryEvents_ok (h.canAnswer _ (canAnswer_of_ok hknown))
          (queryEvents api.rd q b cache').2
        have hstill : known'.events.isEmpty = false :=
          knownStays h hknown hknown' (by simpa using hsome)
        refine ⟨{ bodyOf api fields b page' with emptyReason := some "no_matching_events" },
          bind_eq_ok.mpr ⟨page', mapError_eq_ok.mpr hpage', ?_⟩,
          ⟨hsame.events, hsame.fields, hsame.nextCursor, hsame.prevCursor, hsame.missing⟩⟩
        simp only [hevents, hempty, if_true]
        refine bind_eq_ok.mpr ⟨known', mapError_eq_ok.mpr hknown', ?_⟩
        rw [hstill]
        rfl
    · rename_i hempty
      cases hbody
      refine ⟨bodyOf api fields b page', bind_eq_ok.mpr ⟨page', mapError_eq_ok.mpr hpage', ?_⟩, hsame⟩
      simp only [hevents, hempty]
      rfl

theorem listBody_alike {req : ListRequest} {plan : ListPlan}
    (h : AnswersAlike api plan.target a b) (hr : b.Reached) (hplan : listPlan api req = .ok plan)
    (hbody : listBody api req a cache = .ok (some body)) (cache' : CountCache) :
    ∃ body', listBody api req b cache' = .ok (some body') ∧ body'.SamePage body := by
  obtain ⟨plan', hplan', hbody⟩ := bind_eq_ok.mp hbody
  rw [hplan] at hplan'
  cases hplan'
  have hwrap {body' : Except ListError (Option (ListBody τ))}
      (hb : (if plan.csv then pure none
        else match plan.target with
          | .batch ids => (batchBody api plan.fields ids b).map some
          | .query query => (pageBody api req.route plan.fields query b cache').map some) = body') :
      listBody api req b cache' = body' := by
    rw [← hb]
    unfold listBody
    rw [hplan]
    rfl
  split at hbody
  · cases hbody
  · rename_i hcsv
    cases htarget : plan.target with
    | batch ids =>
      rw [htarget] at hbody h
      obtain ⟨body₀, hbody₀, heq⟩ := map_eq_ok.mp hbody
      cases heq
      obtain ⟨body', hbody', hsame⟩ := batchBody_alike h hbody₀
      exact ⟨body', hwrap (by simp only [hcsv, htarget, hbody']; rfl), hsame⟩
    | query q =>
      rw [htarget] at hbody h
      obtain ⟨body₀, hbody₀, heq⟩ := map_eq_ok.mp hbody
      cases heq
      obtain ⟨body', hbody', hsame⟩ := pageBody_alike h hr hbody₀ cache'
      exact ⟨body', hwrap (by simp only [hcsv, htarget, hbody']; rfl), hsame⟩

end Answer

/-! ### Two tags that match -/

def isBase64Url (c : Char) : Bool := c.isAlphanum || c == '-' || c == '_'

theorem code_of_isBase64Url {c : Char} (h : isBase64Url c = true) :
    45 ≤ c.toNat ∧ c.toNat ≤ 122 := by
  simp only [isBase64Url, Char.isAlphanum, Char.isAlpha, Char.isUpper, Char.isLower, Char.isDigit,
    Bool.or_eq_true, Bool.and_eq_true, decide_eq_true_eq, beq_iff_eq, ge_iff_le,
    UInt32.le_iff_toNat_le] at h
  rcases h with ((((h | h) | h) | rfl) | rfl)
  · exact ⟨le_trans (by decide) h.1, le_trans h.2 (by decide)⟩
  · exact ⟨le_trans (by decide) h.1, le_trans h.2 (by decide)⟩
  · exact ⟨le_trans (by decide) h.1, le_trans h.2 (by decide)⟩
  · decide
  · decide

/-- A hash as it is taken here: no two texts share one, and it is base64url. -/
structure HashesApart (sha1 : String → String) : Prop where
  injective : ∀ a b, sha1 a = sha1 b → a = b
  plain : ∀ text, ∀ c ∈ (sha1 text).toList, isBase64Url c = true

section Tags

variable {sha1 : String → String}

theorem toList_entityTagOf (newest path filter representation : String) :
    (entityTagOf sha1 newest path filter representation).toList = 'W' :: '/' :: '"' ::
      (sha1 (newest ++ "\n" ++ path ++ "\n" ++ filter ++ "\n" ++ representation)).toList ++ ['"'] := by
  simp [entityTagOf, String.toList_append]

theorem tag_plain (h : HashesApart sha1) (newest path filter representation : String) :
    ∀ c ∈ (entityTagOf sha1 newest path filter representation).toList,
      c ≠ ',' ∧ JsNumber.isWhite c = false := by
  intro c hc
  rw [toList_entityTagOf] at hc
  have hcode : 34 ≤ c.toNat ∧ c.toNat ≤ 122 ∧ c.toNat ≠ 44 := by
    simp only [List.cons_append, List.mem_cons, List.mem_append, List.not_mem_nil, or_false] at hc
    rcases hc with rfl | rfl | rfl | hc | rfl
    · decide
    · decide
    · decide
    · have hrange := code_of_isBase64Url (h.plain _ c hc)
      omega
    · decide
  constructor
  · intro hcomma
    exact hcode.2.2 (by rw [hcomma]; decide)
  · have hmem : c.toNat ∉ [9, 10, 11, 12, 13, 32, 0xA0, 0xFEFF, 0x1680, 0x2028, 0x2029, 0x202F,
        0x205F, 0x3000] := by
      simp only [List.mem_cons, List.not_mem_nil, or_false, not_or]
      omega
    simp only [JsNumber.isWhite, hmem, decide_false, Bool.false_or, Bool.and_eq_false_iff,
      decide_eq_false_iff_not]
    omega

theorem bareTag_entityTagOf (h : HashesApart sha1) (newest path filter representation : String) :
    bareTag (entityTagOf sha1 newest path filter representation).toList = '"' ::
      (sha1 (newest ++ "\n" ++ path ++ "\n" ++ filter ++ "\n" ++ representation)).toList ++ ['"'] := by
  have htrim := JsNumber.trimChars_eq
    (fun c hc => (tag_plain h newest path filter representation c hc).2)
  unfold bareTag
  rw [htrim, toList_entityTagOf]
  rfl

theorem matches_iff_newest (h : HashesApart sha1) (newest newest' path filter representation : String) :
    matchesEntityTag (some (entityTagOf sha1 newest path filter representation))
      (entityTagOf sha1 newest' path filter representation) = true ↔ newest = newest' := by
  have hplain := tag_plain h newest path filter representation
  have hgiven : given (some (entityTagOf sha1 newest path filter representation)) =
      some (entityTagOf sha1 newest path filter representation) := by
    refine given_eq_some.mpr ⟨rfl, ?_⟩
    intro hempty
    have hlist := congrArg String.toList hempty
    simp [toList_entityTagOf] at hlist
  have hsplit : (entityTagOf sha1 newest path filter representation).toList.splitOn ',' =
      [(entityTagOf sha1 newest path filter representation).toList] :=
    List.splitOn_eq_singleton (fun hmem => (hplain ',' hmem).1 rfl)
  have htrim := JsNumber.trimChars_eq (fun c hc => (hplain c hc).2)
  have hstar : (entityTagOf sha1 newest path filter representation).toList ≠ ['*'] := by
    rw [toList_entityTagOf]
    simp
  have hbare : matchesEntityTag (some (entityTagOf sha1 newest path filter representation))
      (entityTagOf sha1 newest' path filter representation) = true ↔
        sha1 (newest ++ "\n" ++ path ++ "\n" ++ filter ++ "\n" ++ representation) =
          sha1 (newest' ++ "\n" ++ path ++ "\n" ++ filter ++ "\n" ++ representation) := by
    unfold matchesEntityTag
    simp only [hgiven, hsplit, List.any_cons, List.any_nil, Bool.or_false, htrim, Bool.or_eq_true,
      beq_iff_eq, hstar, false_or, bareTag_entityTagOf h]
    simp [String.toList_inj]
  rw [hbare]
  constructor
  · intro hsha
    have htext := congrArg String.toList (h.injective _ _ hsha)
    simp only [String.toList_append, List.append_assoc] at htext
    exact String.toList_inj.mp (List.append_cancel_right htext)
  · intro hsame
    rw [hsame]

end Tags

/-! ### What a 304 says -/

section NotModified

variable {api : ListApi τ} {req : ListRequest} {db db' : Db} {cache cache' : CountCache}
  {tag tag' : String}

theorem newestId_ok {newest : String} (h : newestId db = .ok newest) : newest = topId db := by
  obtain ⟨top, htop, rfl⟩ := map_eq_ok.mp h
  unfold getLatestEventId at htop
  split at htop
  · cases htop
  · rename_i t ht
    cases htop
    simp [topId, Db.storedIds, ht]

theorem entityTag_ok (h : entityTag api req db = .ok tag) :
    ∃ csv, wantsCsv req.query req.accept = .ok csv ∧ tag = entityTagOf api.sha1 (topId db)
      req.route.path (filterText req.query) (if csv then "csv" else "json") := by
  obtain ⟨csv, hcsv, h⟩ := bind_eq_ok.mp h
  obtain ⟨newest, hnewest, h⟩ := bind_eq_ok.mp h
  rw [mapError_eq_ok] at hcsv hnewest
  cases h
  exact ⟨csv, hcsv, by rw [newestId_ok hnewest]⟩

theorem etag_handleList (h : (handleList api req db cache).etag = some tag) :
    entityTag api req db = .ok tag := by
  unfold handleList at h
  split at h
  · cases h
  · split at h
    · cases h
    · rename_i etag hetag
      have hsame : etag = tag := by
        split at h
        · exact Option.some.inj h
        · split at h
          · cases h
          · cases h
          · exact Option.some.inj h
      rw [hetag, hsame]

theorem notModified_handleList (h : handleList api req db cache = .notModified tag) :
    entityTag api req db = .ok tag ∧ matchesEntityTag req.ifNoneMatch tag = true := by
  unfold handleList at h
  split at h
  · cases h
  · split at h
    · cases h
    · rename_i etag hetag
      split at h
      · rename_i hmatch
        cases h
        exact ⟨hetag, hmatch⟩
      · split at h <;> cases h

/-- A 304 for the tag of an earlier answer is sent where the newest id is the same. -/
theorem topId_eq_of_notModified (hsha : HashesApart api.sha1)
    (hfirst : (handleList api req db cache).etag = some tag)
    (hsecond : handleList api { req with ifNoneMatch := some tag } db' cache' = .notModified tag') :
    topId db' = topId db := by
  obtain ⟨csv, hcsv, rfl⟩ := entityTag_ok (etag_handleList hfirst)
  obtain ⟨htag', hmatch⟩ := notModified_handleList hsecond
  obtain ⟨csv', hcsv', rfl⟩ := entityTag_ok htag'
  have hsame : csv' = csv := Except.ok.inj (hcsv'.symm.trans hcsv)
  rw [hsame] at hmatch
  exact ((matches_iff_newest hsha _ _ _ _ _).mp hmatch).symm

/-- A 304 is sent for an unchanged page, as long as every insert in between either stores
an id above all there were or nothing in the page's reach, and no saved spec changes a
typed view the page shows. -/
theorem notModified_unchanged (hsha : HashesApart api.sha1) {plan : ListPlan}
    (hplan : listPlan api req = .ok plan) (hr : db.Reached)
    (hfirst : (handleList api req db cache).etag = some tag)
    (hrun : Relation.ReflTransGen (QuietWrite api plan.target) db db')
    (hsecond : handleList api { req with ifNoneMatch := some tag } db' cache' = .notModified tag')
    {body : ListBody τ} (hbody : listBody api req db cache = .ok (some body)) :
    ∃ body', listBody api req db' cache' = .ok (some body') ∧ body'.SamePage body := by
  have hr' : db'.Reached := invariant_of_run (fun _ _ h hstep => hstep.reached h) hr hrun
  have htop := topId_eq_of_notModified hsha hfirst hsecond
  exact listBody_alike ((answersAlike_of_run hrun).2 htop) hr' hplan hbody cache'

end NotModified

/-! ### A late event -/

def spelledHash (text : String) : String :=
  String.ofList (text.toList.flatMap (fun c => List.replicate c.toNat 'a' ++ ['b']))

theorem replicate_sep_inj {a b : Char} (hab : a ≠ b) {m n : Nat} {s t : List Char}
    (h : List.replicate m a ++ b :: s = List.replicate n a ++ b :: t) : m = n ∧ s = t := by
  induction m generalizing n with
  | zero =>
    cases n with
    | zero => simpa using h
    | succ n =>
      simp only [List.replicate_succ, List.replicate_zero, List.nil_append, List.cons_append,
        List.cons.injEq] at h
      exact absurd h.1.symm hab
  | succ m ih =>
    cases n with
    | zero =>
      simp only [List.replicate_succ, List.replicate_zero, List.nil_append, List.cons_append,
        List.cons.injEq] at h
      exact absurd h.1 hab
    | succ n =>
      simp only [List.replicate_succ, List.cons_append, List.cons.injEq, true_and] at h
      obtain ⟨hmn, hst⟩ := ih h
      exact ⟨by omega, hst⟩

theorem hashesApart_spelledHash : HashesApart spelledHash where
  injective := by
    intro a b h
    have hlist := congrArg String.toList h
    simp only [spelledHash, String.toList_ofList] at hlist
    refine String.toList_inj.mp ?_
    generalize a.toList = xs at hlist ⊢
    generalize b.toList = ys at hlist ⊢
    induction xs generalizing ys with
    | nil => cases ys <;> simp_all
    | cons x xs ih =>
      cases ys with
      | nil => simp at hlist
      | cons y ys =>
        simp only [List.flatMap_cons, List.append_assoc, List.cons_append, List.nil_append] at hlist
        obtain ⟨hcode, hrest⟩ := replicate_sep_inj (by decide) hlist
        rw [Char.toNat_inj.mp hcode, ih _ hrest]
  plain := by
    intro text c hc
    simp only [spelledHash, String.toList_ofList, List.mem_flatMap, List.mem_append,
      List.mem_replicate, List.mem_singleton] at hc
    obtain ⟨-, -, ⟨-, rfl⟩ | rfl⟩ := hc <;> decide

def smallApi : ListApi Unit where
  rd := plainReader
  dateParse := fun _ => none
  sha1 := spelledHash
  decodeURIComponent := some
  decodeTyped := fun _ _ => none

def pollRequest (query : Params) : ListRequest := ⟨.events, query, none, none⟩

def earlyDb : Db :=
  (StoreOp.insertEvents (fun _ => "") [{ Postgres.nulEvent with id := "b" }]).exec smallHost openedDb

def lateWrite : StoreOp :=
  .insertEvents (fun _ => "")
    [{ Postgres.nulEvent with id := "a", inSuccessfulContractCall := false }]

def lateDb : Db := lateWrite.exec smallHost earlyDb

theorem reached_earlyDb : earlyDb.Reached := reached_openedDb.exec smallHost _

theorem reached_lateDb : lateDb.Reached := reached_earlyDb.exec smallHost _

theorem handleList_ok {api : ListApi τ} {req : ListRequest} {db : Db} {cache : CountCache}
    {tag : String} {body : ListBody τ} (hschema : assertSchemaCurrent db = .ok ())
    (htag : entityTag api req db = .ok tag) (hheader : req.ifNoneMatch = none)
    (hbody : listBody api req db cache = .ok (some body)) :
    handleList api req db cache = .ok (some tag) (some body) := by
  simp [handleList, hschema, htag, hheader, hbody, matchesEntityTag, given]

theorem handleList_notModified {api : ListApi τ} {req : ListRequest} {db : Db} {cache : CountCache}
    {tag : String} (hschema : assertSchemaCurrent db = .ok ())
    (htag : entityTag api req db = .ok tag) (hmatch : matchesEntityTag req.ifNoneMatch tag = true) :
    handleList api req db cache = .notModified tag := by
  simp [handleList, hschema, htag, hmatch]

theorem listBody_page {api : ListApi τ} {query : Params} {fields : Option (List String)}
    {q : EventQuery} {db : Db} {cache : CountCache} {page : EventPage}
    (hplan : listPlan api (pollRequest query) = .ok ⟨false, fields, .query q⟩)
    (hpage : (queryEvents api.rd q db cache).1 = .ok page) :
    listBody api (pollRequest query) db cache = .ok (some (bodyOf api fields db page)) := by
  unfold listBody
  rw [hplan]
  have hbody : pageBody api .events fields q db cache = .ok (bodyOf api fields db page) :=
    bind_eq_ok.mpr ⟨page, mapError_eq_ok.mpr hpage, rfl⟩
  exact map_eq_ok.mpr ⟨_, hbody, rfl⟩

def pollTag (query : Params) : String :=
  entityTagOf spelledHash "b" "/events" (filterText query) "json"

theorem entityTag_earlyDb {query : Params} (h : wantsCsv query none = .ok false) :
    entityTag smallApi (pollRequest query) earlyDb = .ok (pollTag query) := by
  have hnewest : newestId earlyDb = .ok "b" := by decide +kernel
  exact bind_eq_ok.mpr ⟨false, mapError_eq_ok.mpr h, bind_eq_ok.mpr ⟨"b",
    mapError_eq_ok.mpr hnewest, rfl⟩⟩

theorem entityTag_lateDb {query : Params} (h : wantsCsv query none = .ok false) :
    entityTag smallApi { pollRequest query with ifNoneMatch := some (pollTag query) } lateDb =
      .ok (pollTag query) := by
  have hnewest : newestId lateDb = .ok "b" := by decide +kernel
  exact bind_eq_ok.mpr ⟨false, mapError_eq_ok.mpr h, bind_eq_ok.mpr ⟨"b",
    mapError_eq_ok.mpr hnewest, rfl⟩⟩

theorem notModified_unchanged_late : ∃ tag body body',
    handleList smallApi (pollRequest [("successfulOnly", "true")]) earlyDb [] =
        .ok (some tag) (some body) ∧
      handleList smallApi { pollRequest [("successfulOnly", "true")] with ifNoneMatch := some tag }
        lateDb [] = .notModified tag ∧
      listBody smallApi (pollRequest [("successfulOnly", "true")]) lateDb [] = .ok (some body') ∧
      body'.SamePage body := by
  have hplan : listPlan smallApi (pollRequest [("successfulOnly", "true")]) =
      .ok ⟨false, none, .query { successfulOnly := some true }⟩ := by rfl
  have hcsv : wantsCsv [("successfulOnly", "true")] none = .ok false := by rfl
  have hask : CanAnswer smallApi.rd { successfulOnly := some true } earlyDb := by
    refine ⟨by decide +kernel, ?_⟩
    have hwhere : buildWhere { successfulOnly := some true } = [.successful] := rfl
    simp [hwhere, Condition.prepare]
  obtain ⟨page, hpage⟩ := reached_earlyDb.queryEvents_ok hask []
  have hbody := listBody_page hplan hpage
  have hfirst := handleList_ok (by decide +kernel) (entityTag_earlyDb hcsv) rfl hbody
  have hsecond : handleList smallApi { pollRequest [("successfulOnly", "true")] with
      ifNoneMatch := some (pollTag [("successfulOnly", "true")]) } lateDb [] =
        .notModified (pollTag [("successfulOnly", "true")]) :=
    handleList_notModified (by decide +kernel) (entityTag_lateDb hcsv)
      ((matches_iff_newest hashesApart_spelledHash _ _ _ _ _).mpr rfl)
  have hspared : (ListTarget.query { successfulOnly := some true }).Spared plainReader earlyDb
      lateDb := by
    have hids : (matchingRows plainReader.text { successfulOnly := some true } lateDb).map
        EventRow.id = ["b"] := by decide +kernel
    have hstored : earlyDb.storedIds = ["b"] := by decide +kernel
    intro id hid hnew
    rw [hids] at hid
    rw [hstored] at hnew
    exact absurd hid hnew
  obtain ⟨body', hbody', hsame⟩ := notModified_unchanged hashesApart_spelledHash hplan
    reached_earlyDb (by rw [hfirst]; rfl)
    (.single (.insertEvents smallHost _ _ (.inr hspared))) hsecond hbody
  exact ⟨_, _, body', hfirst, hsecond, hbody', hsame⟩

/-- An unfiltered poll goes on being told that nothing changed. -/
theorem notModified_stale : ∃ tag body body',
    handleList smallApi (pollRequest []) earlyDb [] = .ok (some tag) (some body) ∧
      handleList smallApi { pollRequest [] with ifNoneMatch := some tag } lateDb [] =
        .notModified tag ∧
      listBody smallApi (pollRequest []) lateDb [] = .ok (some body') ∧ ¬ body'.SamePage body := by
  have hplan : listPlan smallApi (pollRequest []) = .ok ⟨false, none, .query {}⟩ := by rfl
  have hcsv : wantsCsv [] none = .ok false := by rfl
  have hwhere : buildWhere {} = [] := rfl
  have hask : CanAnswer smallApi.rd {} earlyDb := ⟨by decide +kernel, by simp [hwhere]⟩
  have hask' : CanAnswer smallApi.rd {} lateDb := ⟨by decide +kernel, by simp [hwhere]⟩
  obtain ⟨page, hpage⟩ := reached_earlyDb.queryEvents_ok hask []
  obtain ⟨page', hpage'⟩ := reached_lateDb.queryEvents_ok hask' []
  have hbody := listBody_page hplan hpage
  have hbody' := listBody_page hplan hpage'
  refine ⟨pollTag [], _, _, handleList_ok (by decide +kernel) (entityTag_earlyDb hcsv) rfl hbody,
    handleList_notModified (by decide +kernel) (entityTag_lateDb hcsv)
      ((matches_iff_newest hashesApart_spelledHash _ _ _ _ _).mpr rfl), hbody', ?_⟩
  intro hsame
  have hevents : page'.events = page.events := by
    have hmap := congrArg (List.map Prod.fst) hsame.events
    simpa [bodyOf, annotate, Function.comp_def] using hmap
  have hids := map_id_of_mapM (queryEvents_rowPage hpage).1
  have hids' := map_id_of_mapM (queryEvents_rowPage hpage').1
  have hrows : (rowPage smallApi.rd {} earlyDb).rows.map EventRow.id = ["b"] := by decide +kernel
  have hrows' : (rowPage smallApi.rd {} lateDb).rows.map EventRow.id = ["b", "a"] := by
    decide +kernel
  rw [hevents, hids, hrows, hrows'] at hids'
  cases hids'

end SorobanLens
