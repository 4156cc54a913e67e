import SorobanLens.Store.Aggregates
import SorobanLens.Api.EntityTag
import SorobanLens.Api.GraphQL.Complexity

/-!
The routes that answer with counts, and the GraphQL endpoint over a SQLite file: what
they say of a contract, and what the estimate of a query may take the store to return.
-/

set_option autoImplicit false

namespace SorobanLens

open GroupBy

variable {τ : Type}

/-! ### Handlers -/

def TimeBucket.ofText : String → Option TimeBucket
  | "minute" => some .minute
  | "hour" => some .hour
  | "day" => some .day
  | _ => none

structure ActivityQuery where
  bucket : TimeBucket
  lower : Option JsNumber
  upper : Option JsNumber
  topics : Option (List (Option String))
  successfulOnly : Option Bool

def parseActivityQuery (dateParse : String → Option Int) (params : Params) :
    Except ApiError ActivityQuery := do
  let bucket := (params.get "bucket").getD "hour"
  match TimeBucket.ofText bucket with
  | none => .error (.badRequest ("\"bucket\" must be one of minute, hour, day, got \"" ++ bucket ++
      "\".") "bucket")
  | some bucket =>
    let lower ← timeParam dateParse params "from"
    let upper ← timeParam dateParse params "to"
    assertOrdered lower upper (fun _ _ => "\"from\" must not be after \"to\".") "from"
    let topics ← parseTopics params
    let successfulOnly ← boolParam params "successfulOnly"
    pure ⟨bucket, lower, upper, topics, successfulOnly⟩

/-- `assertContractId(decodeURIComponent(segment))` -/
def contractOfPath (api : ListApi τ) (segment : String) : Except ListError String :=
  match api.decodeURIComponent segment with
  | none => .error .malformedUri
  | some decoded => (assertContractId decoded).mapError .api

def ActivityQuery.eventQuery (contractId : String) (q : ActivityQuery) : EventQuery :=
  { contractId := some contractId
    fromTime := q.lower
    toTime := q.upper
    topics := q.topics
    successfulOnly := q.successfulOnly }

/-- `GET /contracts/{id}/activity`; the body writes a bucket's start as a date. -/
def contractActivity (api : ListApi τ) (segment : String) (params : Params) (db : Db) :
    Except ListError (List TimeBucketCount) := do
  let contractId ← contractOfPath api segment
  let q ← (parseActivityQuery api.dateParse params).mapError .api
  (countByTimeBucket api.rd.text api.rd.build (q.eventQuery contractId) q.bucket db).mapError .store

def noStatsMessage (contractId : String) : String :=
  "No indexed events for contract \"" ++ contractId ++ "\". " ++
    "The contract may exist on-chain but not be one this instance indexes — " ++
    "check LENS_CONTRACT_IDS."

def shownContracts (ties : Ties ContractSummary) (max : MaxQueryLimit) (db : Db) :
    Except StoreError (List ContractSummary) := listContracts ties max (some (.ofNat max.val)) db

def contractStats (api : ListApi τ) (ties : Ties ContractSummary) (segment : String) (db : Db) :
    Except ListError ContractSummary := do
  let contractId ← contractOfPath api segment
  let list ← (shownContracts ties api.rd.maxLimit db).mapError .store
  match list.find? (fun c => c.contractId == contractId) with
  | some summary => pure summary
  | none => .error (.api (.notFound (noStatsMessage contractId)))

def contractTopics (api : ListApi τ) (ties : Ties TopicCount) (segment : String) (params : Params)
    (db : Db) : Except ListError (List TopicCount) := do
  let contractId ← contractOfPath api segment
  let limit := (given (params.get "limit")).map JsNumber.ofText
  (listTopics ties api.rd.maxLimit contractId limit db).mapError .store

def graphqlStore (ties : Ties ContractSummary) (topicTies : Ties TopicCount) (rd : Reader)
    (cache : CountCache) (db : Db) : GraphQL.Store where
  queryEvents q := (queryEvents rd q db cache).1
  getEvent id := getEvent rd.build id db
  listContracts limit := listContracts ties rd.maxLimit limit db
  listTopics contractId limit := listTopics topicTies rd.maxLimit contractId limit db

def graphqlContext (ties : Ties ContractSummary) (topicTies : Ties TopicCount) (api : ListApi τ)
    (cache : CountCache) (db : Db) : GraphQL.Context where
  store := graphqlStore ties topicTies api.rd cache db
  max := api.rd.maxLimit
  dateParse := api.dateParse

/-! ### One contract's summary -/

section Shown

variable {ties : Ties ContractSummary} {max : MaxQueryLimit} {db : Db}
  {list : List ContractSummary} {c : ContractSummary}

theorem shownContracts_ok (h : shownContracts ties max db = .ok list) :
    list = top ContractSummary.rank ties max.val (contractSummaries (tableRows db.events)) := by
  have hlimit : normaliseLimit max (some (.ofNat max.val)) = max.val := by
    have hpos := max.pos
    rw [GraphQL.normaliseLimit_ofNat]
    omega
  rw [listContracts_ok h, Option.getD_some, hlimit]

def ContractSummary.asLate (c : ContractSummary) (db : Db) : Nat :=
  (contractSummaries (tableRows db.events)).countP (fun d => c.lastLedger ≤ d.lastLedger)

def ContractSummary.later (c : ContractSummary) (db : Db) : Nat :=
  (contractSummaries (tableRows db.events)).countP (fun d => c.lastLedger < d.lastLedger)

theorem shown_of_few (h : shownContracts ties max db = .ok list)
    (hc : c ∈ contractSummaries (tableRows db.events)) (hfew : c.asLate db ≤ max.val) : c ∈ list := by
  rw [shownContracts_ok h]
  exact mem_top_of_few hc hfew

theorem hidden_of_many (h : shownContracts ties max db = .ok list) (hmany : max.val ≤ c.later db) :
    c ∉ list := by
  rw [shownContracts_ok h]
  refine not_mem_top_of_many (hmany.trans (le_of_eq ?_))
  refine List.countP_congr ?_
  intro d _
  simp only [ContractSummary.rank, decide_eq_true_eq, not_le]

theorem mem_summaries (h : shownContracts ties max db = .ok list) (hc : c ∈ list) :
    c ∈ contractSummaries (tableRows db.events) := by
  rw [shownContracts_ok h] at hc
  exact mem_of_mem_top hc

theorem find_summary {xs : List ContractSummary}
    (hxs : ∀ d ∈ xs, d ∈ contractSummaries (tableRows db.events)) (id : String) :
    xs.find? (fun d => d.contractId == id) = some c ↔ c ∈ xs ∧ c.contractId = id := by
  constructor
  · intro hf
    exact ⟨List.mem_of_find?_eq_some hf, by simpa using List.find?_some hf⟩
  · intro h
    cases hf : xs.find? (fun d => d.contractId == id) with
    | none => exact absurd h.2 (by simpa using List.find?_eq_none.mp hf c h.1)
    | some d =>
      have hid : d.contractId = c.contractId := by
        rw [h.2]
        simpa using List.find?_some hf
      rw [summary_unique (hxs d (List.mem_of_find?_eq_some hf)) (hxs c h.1) hid]

end Shown

theorem contractStats_ok {api : ListApi τ} {ties : Ties ContractSummary} {segment contractId : String}
    {db : Db} {c : ContractSummary} (hpath : contractOfPath api segment = .ok contractId) :
    contractStats api ties segment db = .ok c ↔
      ∃ list, shownContracts ties api.rd.maxLimit db = .ok list ∧ c ∈ list ∧
        c.contractId = contractId := by
  unfold contractStats
  rw [hpath, bind_eq_ok]
  constructor
  · intro h
    obtain ⟨_, hid, h⟩ := h
    cases hid
    obtain ⟨list, hlist, h⟩ := bind_eq_ok.mp h
    have hlist := mapError_eq_ok.mp hlist
    split at h
    · rename_i summary hf
      cases h
      exact ⟨list, hlist, (find_summary (fun d hd => mem_summaries hlist hd) contractId).mp hf⟩
    · cases h
  · intro h
    obtain ⟨list, hlist, hc⟩ := h
    refine ⟨contractId, rfl, bind_eq_ok.mpr ⟨list, mapError_eq_ok.mpr hlist, ?_⟩⟩
    rw [(find_summary (fun d hd => mem_summaries hlist hd) contractId).mpr hc]
    rfl

theorem resolve_contract {ties : Ties ContractSummary} {topicTies : Ties TopicCount}
    {api : ListApi τ} {cache : CountCache} {db : Db} {e : LensEvent} {args : GraphQL.Args}
    {c : ContractSummary} :
    GraphQL.resolve (graphqlContext ties topicTies api cache db) .event "contract" (.event e) args =
        .ok (.object (.contract c)) ↔
      ∃ list, shownContracts ties api.rd.maxLimit db = .ok list ∧ c ∈ list ∧
        c.contractId = e.contractId := by
  have hread : GraphQL.resolve (graphqlContext ties topicTies api cache db) .event "contract"
      (.event e) args = (GraphQL.fromStore (shownContracts ties api.rd.maxLimit db)).map
        (fun list => GraphQL.contractById list e.contractId) := rfl
  rw [hread, map_eq_ok]
  refine exists_congr ?_
  intro list
  have hiff : GraphQL.fromStore (shownContracts ties api.rd.maxLimit db) = .ok list ↔
      shownContracts ties api.rd.maxLimit db = .ok list := mapError_eq_ok
  rw [hiff]
  refine and_congr_right ?_
  intro hlist
  have hsums : ∀ d ∈ list.reverse, d ∈ contractSummaries (tableRows db.events) :=
    fun d hd => mem_summaries hlist (List.mem_reverse.mp hd)
  have hfind := find_summary (c := c) hsums e.contractId
  rw [List.mem_reverse] at hfind
  rw [← hfind, GraphQL.contractById]
  split
  · rename_i d hd
    rw [hd]
    simp
  · rename_i hd
    rw [hd]
    simp

/-- What a way to ask for one contract's summary answers: what its rows sum to, if fewer
contracts than the ceiling were active as late, and nothing if as many were active later. -/
structure SummaryShown (answer : ContractSummary → Prop) (contractId : String)
    (max : MaxQueryLimit) (db : Db) : Prop where
  exact : ∀ c, answer c → c.contractId = contractId ∧
    c.Sums (members EventRow.contractId contractId (tableRows db.events))
  shown : ∀ c ∈ contractSummaries (tableRows db.events), c.contractId = contractId →
    c.asLate db ≤ max.val → answer c
  hidden : ∀ c ∈ contractSummaries (tableRows db.events), c.contractId = contractId →
    max.val ≤ c.later db → ∀ d, ¬ answer d

theorem shown_of_list {ties : Ties ContractSummary} {max : MaxQueryLimit} {db : Db}
    {list : List ContractSummary} (hlist : shownContracts ties max db = .ok list) (id : String) :
    SummaryShown (fun c => ∃ l, shownContracts ties max db = .ok l ∧ c ∈ l ∧ c.contractId = id)
      id max db where
  exact := by
    intro c hc
    obtain ⟨l, hl, hmem, rfl⟩ := hc
    exact ⟨rfl, sums_of_mem (mem_summaries hl hmem)⟩
  shown := by
    intro c hc hid hfew
    exact ⟨list, hlist, shown_of_few hlist hc hfew, hid⟩
  hidden := by
    intro c hc hid hmany d hd
    obtain ⟨l, hl, hmem, hdid⟩ := hd
    have hsame := summary_unique (mem_summaries hl hmem) hc (hdid.trans hid.symm)
    rw [hsame] at hmem
    exact hidden_of_many hl hmany hmem

/-- The statistics of a contract and the contract an event is joined with. -/
theorem contract_summary_shown {api : ListApi τ} {ties : Ties ContractSummary}
    (topicTies : Ties TopicCount) (cache : CountCache) {segment contractId : String} {db : Db}
    (hpath : contractOfPath api segment = .ok contractId) (hevents : db.events.isSome = true) :
    SummaryShown (fun c => contractStats api ties segment db = .ok c) contractId api.rd.maxLimit db ∧
      (∀ e args, e.contractId = contractId → SummaryShown (fun c =>
        GraphQL.resolve (graphqlContext ties topicTies api cache db) .event "contract" (.event e)
          args = .ok (.object (.contract c))) contractId api.rd.maxLimit db) ∧
      ((∀ c, contractStats api ties segment db ≠ .ok c) → contractStats api ties segment db =
        .error (.api (.notFound (noStatsMessage contractId)))) := by
  obtain ⟨t, ht⟩ := Option.isSome_iff_exists.mp hevents
  have hlist : ∃ list, shownContracts ties api.rd.maxLimit db = .ok list := by
    simp [shownContracts, listContracts, eventRows, ht, Except.map]
  obtain ⟨list, hlist⟩ := hlist
  have hshown := shown_of_list hlist contractId
  refine ⟨?_, ?_, ?_⟩
  · simpa only [contractStats_ok hpath] using hshown
  · intro e args he
    simpa only [resolve_contract, he] using hshown
  · intro hnone
    cases hf : list.find? (fun c => c.contractId == contractId) with
    | none =>
      unfold contractStats
      rw [hpath, hlist]
      simp only [bind, Except.bind, Except.mapError, hf]
    | some c =>
      obtain ⟨hc, hid⟩ := (find_summary (fun d hd => mem_summaries hlist hd) contractId).mp hf
      exact absurd ((contractStats_ok hpath).mpr ⟨list, hlist, hc, hid⟩) (hnone c)

theorem sum_topicCounts (rows : List EventRow) :
    ((topicCounts rows).map TopicCount.count).sum = (rows.filterMap EventRow.topic0).length := by
  have hsum := sum_length_groups (id : String → String) (rows.filterMap EventRow.topic0)
  rw [← hsum, topicCounts, List.map_map]
  rfl

/-- A contract's topics count no more events than its statistics do. -/
theorem topics_within_stats {api : ListApi τ} {ties : Ties ContractSummary}
    {topicTies : Ties TopicCount} {segment : String} {params : Params} {db : Db}
    {topics : List TopicCount} {c : ContractSummary}
    (htopics : contractTopics api topicTies segment params db = .ok topics)
    (hstats : contractStats api ties segment db = .ok c) :
    (topics.map TopicCount.count).sum ≤ c.eventCount := by
  obtain ⟨contractId, hpath, htopics⟩ := bind_eq_ok.mp htopics
  obtain ⟨rows, hrows, rfl⟩ := map_eq_ok.mp (mapError_eq_ok.mp htopics)
  obtain ⟨list, hlist, hc, hid⟩ := (contractStats_ok hpath).mp hstats
  have hsums := sums_of_mem (mem_summaries hlist hc)
  obtain ⟨shown, hperm, hsub⟩ := top_subperm (fun a b : TopicCount => b.count ≤ a.count) topicTies
    (normaliseLimit api.rd.maxLimit (some (((given (params.get "limit")).map JsNumber.ofText).getD
      (.ofNat 50)))) (topicCounts (rows.filter (fun row => row.contractId = contractId)))
  have hshown := (hsub.map TopicCount.count).sum_le_sum (fun _ _ => Nat.zero_le _)
  have hcounted := List.length_filterMap_le EventRow.topic0
    (rows.filter (fun row => row.contractId = contractId))
  have hcount : c.eventCount = (rows.filter (fun row => row.contractId = contractId)).length := by
    rw [hsums.count, hid, eventRows_ok hrows]
    rfl
  rw [sum_topicCounts, (hperm.map _).sum_eq] at hshown
  omega

/-! ### Chart and list -/

/-- One window, the same topics and outcome, and no other filter. -/
structure SameFilters (chart list : Params) : Prop where
  fromTime : list.get "fromTime" = chart.get "from"
  toTime : list.get "toTime" = chart.get "to"
  topics : list.getAll "topic" = chart.getAll "topic"
  successfulOnly : list.get "successfulOnly" = chart.get "successfulOnly"
  none_else : ∀ name ∈ ["fromLedger", "toLedger", "txHash", "address", "search",
    "transactionIndex", "operationIndex"], list.get name = none

theorem timeParam_same {p q : Params} {a b : String} (dateParse : String → Option Int)
    (h : p.get a = q.get b) :
    (timeParam dateParse p a).toOption = (timeParam dateParse q b).toOption := by
  simp only [timeParam, h]
  cases q.get b with
  | none => rfl
  | some raw =>
    simp only
    split
    · rfl
    · split
      · rfl
      · cases dateParse (trimText raw) <;> rfl

theorem toOption_inj {ε α : Type} {x y : Except ε α} {a b : α} (h : x.toOption = y.toOption)
    (hx : x = .ok a) (hy : y = .ok b) : a = b := by
  rw [hx, hy] at h
  exact Option.some.inj h

theorem sameFilters_where {dateParse : String → Option Int} {max : MaxQueryLimit}
    {chart list : Params} {a : ActivityQuery} {q : EventQuery} (hsame : SameFilters chart list)
    (ha : parseActivityQuery dateParse chart = .ok a)
    (hq : parseEventQuery dateParse max list = .ok q) (contractId : String) :
    buildWhere { q with contractId := some contractId } = buildWhere (a.eventQuery contractId) := by
  have habsent := hsame.none_else
  simp only [List.forall_mem_cons, List.not_mem_nil, false_implies, implies_true, and_true] at habsent
  obtain ⟨hfromLedger, htoLedger, htxHash, haddress, hsearch, htransaction, hoperation⟩ := habsent
  obtain ⟨limit, -, hq⟩ := bind_eq_ok.mp hq
  obtain ⟨order, -, hq⟩ := bind_eq_ok.mp hq
  obtain ⟨direction, -, hq⟩ := bind_eq_ok.mp hq
  obtain ⟨fromLedger, hfl, hq⟩ := bind_eq_ok.mp hq
  obtain ⟨toLedger, htl, hq⟩ := bind_eq_ok.mp hq
  obtain ⟨-, -, hq⟩ := bind_eq_ok.mp hq
  obtain ⟨fromTime, hft, hq⟩ := bind_eq_ok.mp hq
  obtain ⟨toTime, htt, hq⟩ := bind_eq_ok.mp hq
  obtain ⟨-, -, hq⟩ := bind_eq_ok.mp hq
  obtain ⟨txHash, htx, hq⟩ := bind_eq_ok.mp hq
  obtain ⟨address, had, hq⟩ := bind_eq_ok.mp hq
  obtain ⟨transactionIndex, hti, hq⟩ := bind_eq_ok.mp hq
  obtain ⟨operationIndex, hoi, hq⟩ := bind_eq_ok.mp hq
  obtain ⟨successfulOnly, hso, hq⟩ := bind_eq_ok.mp hq
  obtain ⟨topics, htp, hq⟩ := bind_eq_ok.mp hq
  cases hq
  simp only [intParam, hfromLedger] at hfl
  simp only [intParam, htoLedger] at htl
  simp only [checkedParam, htxHash] at htx
  simp only [checkedParam, haddress] at had
  simp only [indexParam, intParam, htransaction] at hti
  simp only [indexParam, intParam, hoperation] at hoi
  cases hfl
  cases htl
  cases htx
  cases had
  cases hti
  cases hoi
  unfold parseActivityQuery at ha
  simp only at ha
  split at ha
  · cases ha
  · obtain ⟨lower, hlower, ha⟩ := bind_eq_ok.mp ha
    obtain ⟨upper, hupper, ha⟩ := bind_eq_ok.mp ha
    obtain ⟨-, -, ha⟩ := bind_eq_ok.mp ha
    obtain ⟨topics', htp', ha⟩ := bind_eq_ok.mp ha
    obtain ⟨successfulOnly', hso', ha⟩ := bind_eq_ok.mp ha
    cases ha
    have hfrom := toOption_inj (timeParam_same dateParse hsame.fromTime) hft hlower
    have hto := toOption_inj (timeParam_same dateParse hsame.toTime) htt hupper
    have htopics : topics = topics' := by
      simp only [parseTopics, hsame.topics] at htp
      exact Except.ok.inj (htp.symm.trans htp')
    have hsuccessful : successfulOnly = successfulOnly' := by
      simp only [boolParam, hsame.successfulOnly] at hso
      exact Except.ok.inj (hso.symm.trans hso')
    rw [hfrom, hto, htopics, hsuccessful]
    simp only [buildWhere, conditions, ActivityQuery.eventQuery, hsearch]
    rfl

theorem total_pageBody {api : ListApi τ} {route : EventListRoute} {fields : Option (List String)}
    {query : EventQuery} {db : Db} {cache : CountCache} {body : ListBody τ} {total : Nat × Bool}
    (h : pageBody api route fields query db cache = .ok body) (ht : body.total = some total) :
    ∃ page, (queryEvents api.rd query db cache).1 = .ok page ∧
      (page.total, page.totalIsEstimate) = total := by
  obtain ⟨page, hpage, h⟩ := bind_eq_ok.mp h
  have hpage := mapError_eq_ok.mp hpage
  refine ⟨page, hpage, ?_⟩
  cases route with
  | events =>
    cases h
    exact Option.some.inj ht
  | contractEvents segment =>
    simp only at h
    split at h
    · obtain ⟨known, -, h⟩ := bind_eq_ok.mp h
      split at h
      · cases h
      · cases h
        exact Option.some.inj ht
    · cases h
      exact Option.some.inj ht

theorem queryEvents_counted {rd : Reader} {query : EventQuery} {db : Db} {cache : CountCache}
    {p : EventPage} (h : (queryEvents rd query db cache).1 = .ok p)
    (hskip : query.skipTotal ≠ some true) : (p.total, p.totalIsEstimate) =
      (countCached rd.numbers rd.clock (sqlWhere (buildWhere query))
        (matchingRows rd.text query db) cache).1 := by
  unfold queryEvents at h
  split at h
  · cases h
  · dsimp only at h
    split at h
    · cases h
    · rename_i rows hsel
      obtain ⟨-, -, rfl⟩ := selectWhere_ok.mp hsel
      exact toEventPage_count h

/-- The buckets of a contract's chart add up to the total of its list of events. -/
theorem chart_matches_list {api : ListApi τ} {segment : String} {chart list : Params}
    {accept ifNoneMatch : Option String} {db : Db} {cache : CountCache} {body : ListBody τ}
    {counts : List TimeBucketCount} {total : Nat} (hsame : SameFilters chart list)
    (hchart : contractActivity api segment chart db = .ok counts)
    (hlist : listBody api ⟨.contractEvents segment, list, accept, ifNoneMatch⟩ db cache =
      .ok (some body)) (htotal : body.total = some (total, false)) :
    (counts.map TimeBucketCount.count).sum = total := by
  obtain ⟨contractId, hpath, hchart⟩ := bind_eq_ok.mp hchart
  obtain ⟨a, ha, hchart⟩ := bind_eq_ok.mp hchart
  have ha := mapError_eq_ok.mp ha
  obtain ⟨-, -, rfl⟩ := countByTimeBucket_ok.mp (mapError_eq_ok.mp hchart)
  obtain ⟨plan, hplan, hlist⟩ := bind_eq_ok.mp hlist
  simp only [listPlan] at hplan
  unfold contractOfPath at hpath
  split at hpath
  · cases hpath
  · rename_i decoded hdecoded
    rw [hdecoded] at hplan
    obtain ⟨id, hid, hplan⟩ := bind_eq_ok.mp hplan
    rw [hpath] at hid
    cases hid
    obtain ⟨fields, -, hplan⟩ := bind_eq_ok.mp hplan
    obtain ⟨q, hq, hplan⟩ := bind_eq_ok.mp hplan
    obtain ⟨csv, -, hplan⟩ := bind_eq_ok.mp hplan
    cases hplan
    simp only at hlist
    split at hlist
    · cases hlist
    · obtain ⟨found, hfound, heq⟩ := map_eq_ok.mp hlist
      cases heq
      obtain ⟨page, hpage, hcount⟩ := total_pageBody hfound htotal
      have hwhere := sameFilters_where hsame ha (mapError_eq_ok.mp hq) contractId
      have hskip : q.skipTotal = none := by
        have hparsed := mapError_eq_ok.mp hq
        obtain ⟨_, -, hparsed⟩ := bind_eq_ok.mp hparsed
        iterate 14
          obtain ⟨_, -, hparsed⟩ := bind_eq_ok.mp hparsed
        cases hparsed
        rfl
      have hexact := total_sqlite hpage (Prod.mk.inj hcount).2
      rw [if_neg (by simp [hskip]), (Prod.mk.inj hcount).1] at hexact
      rw [(bucketCounts_series _ _).total, hexact]
      simp only [matchingRows, hwhere]

/-! ### One contract with one event -/

def someContract : String := String.ofList ('C' :: List.replicate 55 'A')

def contractDb : Db :=
  (StoreOp.insertDecoded [{ plainEvent "a" with contractId := someContract }]).exec smallHost openedDb

theorem reached_contractDb : contractDb.Reached := reached_openedDb.exec smallHost _

theorem assert_someContract : assertContractId someContract = .ok someContract := by rfl

theorem path_someContract : contractOfPath smallApi someContract = .ok someContract := by rfl

theorem where_someContract :
    buildWhere { contractId := some someContract } = [.contractId someContract] := by
  have hne : someContract ≠ "" := by decide +kernel
  simp [buildWhere, conditions, topicConditions, given, hne]

theorem contract_summary_shown_one : SummaryShown
    (fun c => contractStats smallApi (Ties.met _) someContract contractDb = .ok c) someContract
      smallApi.rd.maxLimit contractDb := by
  have hevents : contractDb.events.isSome = true := by decide +kernel
  exact (contract_summary_shown (Ties.met _) [] path_someContract hevents).1

theorem listBody_someContract : ∃ body,
    listBody smallApi ⟨.contractEvents someContract, [], none, none⟩ contractDb [] =
      .ok (some body) ∧ body.total = some (1, false) := by
  have hfields : parseFields [] = .ok none := by rfl
  have hquery : parseEventQuery smallApi.dateParse smallApi.rd.maxLimit [] = .ok {} := by rfl
  have hcsv : wantsCsv [] none = .ok false := by rfl
  have hdecode : smallApi.decodeURIComponent someContract = some someContract := rfl
  have hplan : listPlan smallApi ⟨.contractEvents someContract, [], none, none⟩ =
      .ok ⟨false, none, .query { contractId := some someContract }⟩ := by
    simp only [listPlan, hdecode, assert_someContract, hfields, hquery, hcsv, Except.mapError, bind,
      Except.bind, pure, Except.pure]
  have hask : CanAnswer smallApi.rd { contractId := some someContract } contractDb := by
    refine ⟨by decide +kernel, ?_⟩
    rw [where_someContract]
    simp [Condition.prepare]
  obtain ⟨page, hpage⟩ := reached_contractDb.queryEvents_ok hask []
  have hcount := queryEvents_counted hpage (by simp)
  have htotal : (countCached smallApi.rd.numbers smallApi.rd.clock
      (sqlWhere (buildWhere { contractId := some someContract })) (matchingRows smallApi.rd.text { contractId := some someContract } contractDb) []).1 =
        (1, false) := by decide +kernel
  have hids := map_id_of_mapM (queryEvents_rowPage hpage).1
  have hrows : (rowPage smallApi.rd { contractId := some someContract } contractDb).rows.map
      EventRow.id = ["a"] := by decide +kernel
  have hsome : page.events.isEmpty = false := by
    cases hevents : page.events with
    | nil =>
      rw [hevents, hrows] at hids
      cases hids
    | cons e es => rfl
  refine ⟨bodyOf smallApi none contractDb page, ?_, ?_⟩
  · have hbody : pageBody smallApi (.contractEvents someContract) none
        { contractId := some someContract } contractDb [] = .ok (bodyOf smallApi none contractDb page) := by
      refine bind_eq_ok.mpr ⟨page, mapError_eq_ok.mpr hpage, ?_⟩
      simp only [hsome, Bool.false_eq_true, if_false]
      rfl
    refine bind_eq_ok.mpr ⟨_, hplan, ?_⟩
    simp only [Bool.false_eq_true, if_false]
    exact map_eq_ok.mpr ⟨_, hbody, rfl⟩
  · simp only [bodyOf, hcount, htotal]

theorem chart_matches_list_one : ∃ counts,
    contractActivity smallApi someContract [] contractDb = .ok counts ∧
      (counts.map TimeBucketCount.count).sum = 1 := by
  have hparse : parseActivityQuery smallApi.dateParse [] = .ok ⟨.hour, none, none, none, none⟩ := by
    rfl
  have hchart : contractActivity smallApi someContract [] contractDb = .ok [⟨0, 1, 7, 7⟩] := by
    refine bind_eq_ok.mpr ⟨_, path_someContract,
      bind_eq_ok.mpr ⟨_, mapError_eq_ok.mpr hparse, mapError_eq_ok.mpr ?_⟩⟩
    have hwhere : buildWhere (ActivityQuery.eventQuery someContract ⟨.hour, none, none, none, none⟩) =
        [.contractId someContract] := where_someContract
    refine countByTimeBucket_ok.mpr ⟨by decide +kernel, ?_, by decide +kernel⟩
    rw [hwhere]
    simp [Condition.prepare]
  obtain ⟨body, hbody, htotal⟩ := listBody_someContract
  exact ⟨_, hchart, chart_matches_list ⟨rfl, rfl, rfl, rfl, by simp [Params.get]⟩ hchart hbody htotal⟩

/-! ### What the estimate takes from the store -/

theorem length_pageWindow (rd : Reader) (query : EventQuery) (db : Db) :
    (pageWindow rd query db).page.length ≤ normaliseLimit rd.maxLimit query.limit := by
  unfold pageWindow window
  split
  · simp [Keyset.backward, List.rtake_eq_reverse_take_reverse]
  · simp [Keyset.forward]

theorem bounded_of_few_topics {ties : Ties ContractSummary} {topicTies : Ties TopicCount}
    {api : ListApi τ} {cache : CountCache} {db : Db}
    (h : ∀ row ∈ tableRows db.events, ∀ e, rowToEvent row = some e → e.topics.length ≤ 8) :
    (graphqlContext ties topicTies api cache db).Bounded := by
  refine ⟨?_, ?_, ?_, ?_⟩
  · intro q p hp
    obtain ⟨hread, -, -⟩ := queryEvents_ok hp
    have hall := mapM_eq_some.mp hread
    refine ⟨?_, ?_⟩
    · rw [← hall.length_eq]
      exact length_pageWindow api.rd q db
    · intro e he
      obtain ⟨row, hrow, hre⟩ := (mem_of_forall₂ hall).2 e he
      have hmatch : row ∈ matchingRows api.rd.text q db :=
        PagedStore.mem_pageWindow (s := .sqlite api.rd db) hrow
      obtain ⟨t, ht, hmem, -⟩ := mem_matchingRows.mp hmatch
      refine h row ?_ e hre
      rw [ht]
      exact hmem
  · intro id e he
    obtain ⟨-, t, ht, ⟨-, hnone⟩ | ⟨row, found, hf, hr, hsome⟩⟩ := getEvent_ok.mp he
    · cases hnone
    · cases hsome
      refine h row ?_ _ hr
      rw [ht]
      exact (KeyedTable.find?_eq_some.mp hf).1
  · intro limit list hlist
    have hlist : listContracts ties api.rd.maxLimit limit db = .ok list := hlist
    rw [listContracts_ok hlist, length_top]
    exact Nat.min_le_left _ _
  · intro id limit list hlist
    have hlist : listTopics topicTies api.rd.maxLimit id limit db = .ok list := hlist
    obtain ⟨rows, -, rfl⟩ := map_eq_ok.mp hlist
    rw [length_top]
    exact Nat.min_le_left _ _

theorem fewContracts_iff {ties : Ties ContractSummary} {topicTies : Ties TopicCount}
    {api : ListApi τ} {cache : CountCache} {db : Db} :
    (graphqlContext ties topicTies api cache db).FewContracts ↔
      (contractSummaries (tableRows db.events)).length ≤ 50 ∨ api.rd.maxLimit.val ≤ 50 := by
  have hdefault : normaliseLimit api.rd.maxLimit (some (.ofNat 100)) =
      min 100 api.rd.maxLimit.val := by
    rw [GraphQL.normaliseLimit_ofNat]
    omega
  constructor
  · intro h
    cases ht : db.events with
    | none =>
      left
      exact Nat.zero_le 50
    | some t =>
      have hlist : listContracts ties api.rd.maxLimit none db = .ok (top ContractSummary.rank ties
          (normaliseLimit api.rd.maxLimit (some (.ofNat 100))) (contractSummaries t.rows)) := by
        simp [listContracts, eventRows, ht, Except.map]
      have hlen := h _ hlist
      rw [length_top, hdefault, DEFAULT_QUERY_LIMIT] at hlen
      show (contractSummaries t.rows).length ≤ 50 ∨ api.rd.maxLimit.val ≤ 50
      omega
  · intro h list hlist
    have hlist : listContracts ties api.rd.maxLimit none db = .ok list := hlist
    rw [listContracts_ok hlist, length_top, Option.getD_none, hdefault, DEFAULT_QUERY_LIMIT]
    omega

/-- No field of a query resolves to more than it is charged for exactly when no stored event
has more topics than an event is charged for, and `contracts` without a limit finds no more
contracts than the default it is charged. -/
theorem graphql_charged_iff {ties : Ties ContractSummary} {topicTies : Ties TopicCount}
    {api : ListApi τ} {cache : CountCache} {db : Db}
    (hready : prepared api.rd.build db = .ok ()) :
    (graphqlContext ties topicTies api cache db).Charged ↔
      (∀ row ∈ tableRows db.events, ∀ e, rowToEvent row = some e → e.topics.length ≤ 8) ∧
        ((contractSummaries (tableRows db.events)).length ≤ 50 ∨ api.rd.maxLimit.val ≤ 50) := by
  constructor
  · intro h
    refine ⟨?_, ?_⟩
    · intro row hrow e he
      cases ht : db.events with
      | none =>
        rw [ht] at hrow
        cases hrow
      | some t =>
        rw [ht] at hrow
        have hfind : t.find? row.id = some row := KeyedTable.find?_eq_some.mpr ⟨hrow, rfl⟩
        have hget : getEvent api.rd.build row.id db = .ok (some e) :=
          getEvent_ok.mpr ⟨hready, t, ht, .inr ⟨row, e, hfind, he, rfl⟩⟩
        have hresolve : GraphQL.resolve (graphqlContext ties topicTies api cache db) .query "event"
            .root [("id", .string row.id)] = .ok (.object (.event e)) := by
          show (GraphQL.fromStore (getEvent api.rd.build row.id db)).map _ = _
          rw [hget]
          rfl
        have htyped : GraphQL.Args.Typed [("id", .string row.id)] := ⟨by simp, by simp⟩
        exact h .query "event" _ .event .root _ _ 0 rfl rfl htyped trivial hresolve
    · suffices hfew : (graphqlContext ties topicTies api cache db).FewContracts from
        fewContracts_iff.mp hfew
      intro list hlist
      have hresolve : GraphQL.resolve (graphqlContext ties topicTies api cache db) .query "contracts"
          .root [] = .ok (.list (list.map .contract)) := by
        show GraphQL.fromStore _ >>= _ = _
        rw [hlist]
        rfl
      have htyped : GraphQL.Args.Typed [] := ⟨List.nodup_nil, by simp⟩
      have hfits : ((list.map GraphQL.Source.contract).length : Int) ≤ DEFAULT_QUERY_LIMIT :=
        (h .query "contracts" _ .contract .root _ _ 0 rfl rfl htyped trivial hresolve).1
      rw [List.length_map] at hfits
      exact_mod_cast hfits
  · intro ⟨htopics, hfew⟩
    exact GraphQL.charged_of_few (bounded_of_few_topics htopics) (fewContracts_iff.mpr hfew)

theorem graphql_charged_iff_one :
    (graphqlContext (Ties.met _) (Ties.met _) smallApi [] contractDb).Charged := by
  have hrows : tableRows contractDb.events =
      [insertParams smallHost.rt { plainEvent "a" with contractId := someContract }] := by rfl
  have hready : prepared smallApi.rd.build contractDb = .ok () := by rfl
  refine (graphql_charged_iff hready).mpr ⟨?_, .inl ?_⟩
  · intro row hrow e he
    rw [hrows, List.mem_singleton] at hrow
    rw [hrow, rowToEvent_insertParams] at he
    cases he
    exact Nat.zero_le 8
  · rw [hrows]
    decide +kernel

end SorobanLens
