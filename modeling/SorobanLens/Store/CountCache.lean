import SorobanLens.Lib.JsonRead
import SorobanLens.Lib.PrefixCode
import SorobanLens.Store.Operations
import SorobanLens.Store.Query
import SorobanLens.Store.Stability

/-!
What the totals of pages are, over runs of writes and queries with a cache of counts:
which queries have one key, and how old a cached count may be.
-/

set_option autoImplicit false

namespace SorobanLens

/-! ### The key of a count -/

def clauseTexts : List String :=
  ["contract_id = ?", "tx_hash = ?", "id IN (SELECT event_id FROM events_fts WHERE events_fts MATCH ?)",
    "(topics_json::text ILIKE ? OR value_json::text ILIKE ?)",
    "id IN (SELECT event_id FROM event_addresses WHERE address = ?)", "transaction_index = ?",
    "operation_index = ?", "ledger >= ?", "ledger <= ?", "closed_at_unix >= ?", "closed_at_unix <= ?",
    "in_successful_call = 1", "topic0 = ?", "topic1 = ?", "topic2 = ?", "topic3 = ?"]

def Condition.kind : Condition → Nat
  | .contractId _ => 0
  | .txHash _ => 1
  | .search _ => 2
  | .ilike _ => 3
  | .address _ => 4
  | .transactionIndex _ => 5
  | .operationIndex _ => 6
  | .fromLedger _ => 7
  | .toLedger _ => 8
  | .fromTime _ => 9
  | .toTime _ => 10
  | .successful => 11
  | .topic .topic0 _ => 12
  | .topic .topic1 _ => 13
  | .topic .topic2 _ => 14
  | .topic .topic3 _ => 15

def Condition.ofKind : Nat → Option SqlParam → Option Condition
  | 0, some (.text v) => some (.contractId v)
  | 1, some (.text v) => some (.txHash v)
  | 2, some (.text v) => some (.search v)
  | 3, some (.text v) => some (.ilike v)
  | 4, some (.text v) => some (.address v)
  | 5, some (.number n) => some (.transactionIndex n)
  | 6, some (.number n) => some (.operationIndex n)
  | 7, some (.number n) => some (.fromLedger n)
  | 8, some (.number n) => some (.toLedger n)
  | 9, some (.number n) => some (.fromTime n)
  | 10, some (.number n) => some (.toTime n)
  | 11, none => some .successful
  | 12, some (.text v) => some (.topic .topic0 v)
  | 13, some (.text v) => some (.topic .topic1 v)
  | 14, some (.text v) => some (.topic .topic2 v)
  | 15, some (.text v) => some (.topic .topic3 v)
  | _, _ => none

theorem Condition.ofKind_kind (c : Condition) : ofKind c.kind c.param = some c := by
  cases c with
  | topic column v => cases column <;> rfl
  | _ => rfl

theorem Condition.isSome_param (c : Condition) : c.param.isSome = decide (c.kind ≠ 11) := by
  cases c with
  | topic column v => cases column <;> rfl
  | _ => rfl

theorem Condition.text_eq (c : Condition) : clauseTexts[c.kind]? = some c.text := by
  cases c with
  | topic column v => cases column <;> rfl
  | _ => rfl

theorem Condition.kind_eq {c d : Condition} (h : c.text = d.text) : c.kind = d.kind := by
  have hlt : c.kind < clauseTexts.length := (List.getElem?_eq_some_iff.mp c.text_eq).1
  have hnodup : clauseTexts.Nodup := by decide +kernel
  exact (List.getElem?_inj hlt hnodup).mp (by rw [c.text_eq, d.text_eq, h])

theorem free_clauseTexts : PrefixCode.Free (clauseTexts.map String.toList) := by
  constructor
  · decide +kernel
  · decide +kernel

theorem mem_clauseTexts {conds : List Condition} {word : List Char}
    (h : word ∈ (conds.map Condition.text).map String.toList) :
    word ∈ clauseTexts.map String.toList := by
  obtain ⟨text, htext, rfl⟩ := List.mem_map.mp h
  obtain ⟨c, -, rfl⟩ := List.mem_map.mp htext
  exact List.mem_map_of_mem (List.mem_of_getElem? c.text_eq)

theorem toList_clause {conds : List Condition} (h : conds ≠ []) : (sqlWhere conds).clause.toList =
    "WHERE ".toList ++ " AND ".toList.intercalate ((conds.map Condition.text).map String.toList) := by
  rw [sqlWhere, if_neg h, String.toList_append, String.toList_intercalate]

theorem map_text_eq {cs ds : List Condition} (h : (sqlWhere cs).clause = (sqlWhere ds).clause) :
    cs.map Condition.text = ds.map Condition.text := by
  have hinj : Function.Injective String.toList := fun s t hst => String.toList_inj.mp hst
  by_cases hc : cs = [] <;> by_cases hd : ds = []
  · rw [hc, hd]
  · have hlists := congrArg String.toList h
    rw [toList_clause hd, hc] at hlists
    simp [sqlWhere] at hlists
  · have hlists := congrArg String.toList h
    rw [toList_clause hc, hd] at hlists
    simp [sqlWhere] at hlists
  · have hlists := congrArg String.toList h
    rw [toList_clause hc, toList_clause hd] at hlists
    exact hinj.list_map (free_clauseTexts.intercalate_injective (by decide)
      (fun _ => mem_clauseTexts) (fun _ => mem_clauseTexts) (List.append_cancel_left hlists))

theorem whole_clause (conds : List Condition) : Whole (sqlWhere conds).clause := by
  by_cases hnil : conds = []
  · rw [hnil]
    decide
  · intro hmem
    rw [toList_clause hnil] at hmem
    obtain hwhere | hmem := List.mem_append.mp hmem
    · exact absurd hwhere (by decide)
    · obtain hand | ⟨word, hword, hmem⟩ := PrefixCode.mem_of_mem_intercalate hmem
      · exact absurd hand (by decide)
      · have hplain : ∀ w ∈ clauseTexts.map String.toList, '\x00' ∉ w := by decide +kernel
        exact hplain word (mem_clauseTexts hword) hmem

/-- A key says which clause and which values, as JSON, it was made of. -/
theorem sql_eq_of_countKey {numbers : Json.NumFormat ℚ} {cs ds : List Condition}
    (h : countKey numbers (sqlWhere cs) = countKey numbers (sqlWhere ds)) :
    (sqlWhere cs).clause = (sqlWhere ds).clause ∧
      (sqlWhere cs).values.map SqlParam.json = (sqlWhere ds).values.map SqlParam.json := by
  have hclause : (sqlWhere cs).clause = (sqlWhere ds).clause := by
    have hcut := congrArg readText h
    unfold countKey at hcut
    rwa [readText_append (whole_clause cs), readText_append (whole_clause ds)] at hcut
  have hcanonical : ∀ values : List SqlParam, (Json.arr (values.map SqlParam.json)).Canonical := by
    intro values
    refine Json.canonical_arr ?_
    intro v hv
    obtain ⟨p, -, rfl⟩ := List.mem_map.mp hv
    cases p with
    | text s => rfl
    | number n => cases n <;> rfl
  unfold countKey at h
  rw [hclause] at h
  have harr := Json.stringify_inj numbers (hcanonical _) (hcanonical _)
    ((String.append_right_inj _).mp h)
  exact ⟨hclause, Json.arr.inj harr⟩

def Condition.Finite (c : Condition) : Prop := ∀ n, c.param = some (.number n) → n.isFinite = true

theorem SqlParam.json_inj {p q : SqlParam} (hp : ∀ n, p = .number n → n.isFinite = true)
    (hq : ∀ n, q = .number n → n.isFinite = true) (h : p.json = q.json) : p = q := by
  have hfinite : ∀ r : SqlParam, (∀ n, r = .number n → n.isFinite = true) →
      (∃ s, r = .text s) ∨ ∃ x, r = .number (.fin x) := by
    intro r hr
    cases r with
    | text s => exact .inl ⟨s, rfl⟩
    | number n =>
      cases n with
      | fin x => exact .inr ⟨x, rfl⟩
      | nan | negInf | posInf => cases hr _ rfl
  obtain ⟨s, rfl⟩ | ⟨x, rfl⟩ := hfinite p hp <;> obtain ⟨t, rfl⟩ | ⟨y, rfl⟩ := hfinite q hq
  · exact congrArg SqlParam.text (Json.str.inj h)
  · cases h
  · cases h
  · exact congrArg (fun x => SqlParam.number (.fin x)) (Json.num.inj h)

theorem Condition.eq_of_kind_of_param {c d : Condition} (hkind : c.kind = d.kind)
    (hparam : c.param = d.param) : c = d := by
  have hread := c.ofKind_kind
  rw [hkind, hparam, d.ofKind_kind] at hread
  exact (Option.some.inj hread).symm

-- A clause takes a value or takes none, so two lists of the same clauses share out their
-- values alike.
theorem param_eq_of_values {c d : Condition} {cs ds : List Condition} (hc : c.Finite)
    (hd : d.Finite) (hkind : c.kind = d.kind)
    (h : ((c :: cs).filterMap Condition.param).map SqlParam.json =
      ((d :: ds).filterMap Condition.param).map SqlParam.json) :
    c.param = d.param ∧ (cs.filterMap Condition.param).map SqlParam.json =
      (ds.filterMap Condition.param).map SqlParam.json := by
  have hsome : c.param.isSome = d.param.isSome := by rw [c.isSome_param, d.isSome_param, hkind]
  cases hcp : c.param with
  | none =>
    cases hdp : d.param with
    | none => simpa [hcp, hdp] using h
    | some q => simp [hcp, hdp] at hsome
  | some p =>
    cases hdp : d.param with
    | none => simp [hcp, hdp] at hsome
    | some q =>
      simp only [List.filterMap_cons, hcp, hdp, List.map_cons, List.cons.injEq] at h
      refine ⟨congrArg some (SqlParam.json_inj ?_ ?_ h.1), h.2⟩
      · exact fun n hn => hc n (by rw [hcp, hn])
      · exact fun n hn => hd n (by rw [hdp, hn])

/-- Conditions over finite numbers with one key are the same. -/
theorem conditions_eq_of_countKey {numbers : Json.NumFormat ℚ} {cs ds : List Condition}
    (hcs : ∀ c ∈ cs, c.Finite) (hds : ∀ d ∈ ds, d.Finite)
    (h : countKey numbers (sqlWhere cs) = countKey numbers (sqlWhere ds)) : cs = ds := by
  obtain ⟨hclause, hvalues⟩ := sql_eq_of_countKey h
  have htexts := map_text_eq hclause
  simp only [sqlWhere] at hvalues
  clear h hclause
  induction cs generalizing ds with
  | nil => exact (List.map_eq_nil_iff.mp htexts.symm).symm
  | cons c cs ih =>
    cases ds with
    | nil => cases htexts
    | cons d ds =>
      obtain ⟨hc, hcs⟩ := List.forall_mem_cons.mp hcs
      obtain ⟨hd, hds⟩ := List.forall_mem_cons.mp hds
      obtain ⟨htext, htexts⟩ := List.cons.inj htexts
      have hkind := Condition.kind_eq htext
      obtain ⟨hparam, hvalues⟩ := param_eq_of_values hc hd hkind hvalues
      rw [Condition.eq_of_kind_of_param hkind hparam, ih hcs hds hvalues htexts]

/-! ### Which queries have one key -/

def EventQuery.numbers (q : EventQuery) : List JsNumber :=
  [q.transactionIndex, q.operationIndex, q.fromLedger, q.toLedger, q.fromTime, q.toTime].filterMap id

def EventQuery.FiniteNumbers (q : EventQuery) : Prop := ∀ n ∈ q.numbers, n.isFinite = true

theorem mem_topicConditions {topics : Option (List (Option String))} {c : Condition}
    (h : c ∈ topicConditions topics) : ∃ column v, c = .topic column v := by
  obtain ⟨t, -, ht⟩ := List.mem_filterMap.mp h
  split at ht
  · exact ⟨_, _, (Option.some.inj ht).symm⟩
  · cases ht

theorem number_mem_numbers {q : EventQuery} {c : Condition} (hc : c ∈ buildWhere q) {n : JsNumber}
    (hn : c.param = some (.number n)) : n ∈ q.numbers := by
  have hfixed : c ∉ topicConditions q.topics := by
    intro htopic
    obtain ⟨column, v, rfl⟩ := mem_topicConditions htopic
    cases hn
  have hflag : c ∉ (if q.successfulOnly = some true then [Condition.successful] else []) := by
    intro hsucc
    split at hsucc
    · rw [List.mem_singleton] at hsucc
      rw [hsucc] at hn
      cases hn
    · cases hsucc
  simp only [buildWhere, conditions, List.mem_append, hfixed, hflag, or_false, List.mem_map,
    Option.mem_toList] at hc
  cases c with
  | contractId v | txHash v | search v | ilike v | address v | topic column v | successful => cases hn
  | transactionIndex m | operationIndex m | fromLedger m | toLedger m | fromTime m | toTime m =>
    cases hn
    simp at hc
    simp [EventQuery.numbers, hc]

theorem finite_buildWhere {q : EventQuery} (h : q.FiniteNumbers) : ∀ c ∈ buildWhere q, c.Finite :=
  fun _ hc n hn => h n (number_mem_numbers hc hn)

theorem buildWhere_eq_of_countKey {q r : EventQuery} (hq : q.FiniteNumbers) (hr : r.FiniteNumbers)
    {numbers : Json.NumFormat ℚ}
    (h : countKey numbers (sqlWhere (buildWhere q)) = countKey numbers (sqlWhere (buildWhere r))) :
    buildWhere q = buildWhere r :=
  conditions_eq_of_countKey (finite_buildWhere hq) (finite_buildWhere hr) h

theorem matchingRows_congr {tm : TextMatch} {q r : EventQuery} (h : buildWhere q = buildWhere r)
    (db : Db) : matchingRows tm q db = matchingRows tm r db := by
  unfold matchingRows
  rw [h]

/-! ### One count -/

theorem countCached_cases (numbers : Json.NumFormat ℚ) (clock : CountClock) (sql : SqlWhere)
    (rows : List EventRow) (cache : CountCache) :
    (∃ cached, JsNumber.lt (.ofNat 0) clock.countCacheTtlMs = true ∧
      (countKey numbers sql, cached) ∈ cache ∧ JsNumber.lt clock.before cached.expiresAt = true ∧
      countCached numbers clock sql rows cache = ((cached.total, true), cache)) ∨
    ((countCached numbers clock sql rows cache).1 = (rows.length, false) ∧
      ∀ entry ∈ (countCached numbers clock sql rows cache).2, entry ∈ cache ∨
        (JsNumber.lt (.ofNat 0) clock.countCacheTtlMs = true ∧ entry =
          (countKey numbers sql, ⟨rows.length, JsNumber.add clock.after clock.countCacheTtlMs⟩))) := by
  unfold countCached
  dsimp only
  split
  · rename_i cached hcached
    obtain ⟨hlookup, hfresh⟩ := Option.filter_eq_some_iff.mp hcached
    split at hlookup
    · rename_i hcaching
      obtain ⟨front, back, rfl, -⟩ := List.lookup_eq_some_iff.mp hlookup
      exact .inl ⟨cached, hcaching, by simp, hfresh, rfl⟩
    · cases hlookup
  · refine .inr ⟨rfl, ?_⟩
    intro entry hentry
    dsimp only at hentry
    split at hentry
    · rename_i hcaching
      obtain rfl | hold := List.mem_cons.mp hentry
      · exact .inr ⟨hcaching, rfl⟩
      · exact .inl (List.mem_of_mem_filter hold)
    · exact .inl hentry

theorem queryEvents_count {rd : Reader} {query : EventQuery} {db : Db} {cache : CountCache}
    {result : Except StoreError EventPage} {cache' : CountCache}
    (h : queryEvents rd query db cache = (result, cache')) :
    (cache' = cache ∧ (∀ page, result = .ok page → query.skipTotal = some true)) ∨
      (query.skipTotal ≠ some true ∧
        cache' = (countCached rd.numbers rd.clock (sqlWhere (buildWhere query))
          (matchingRows rd.text query db) cache).2 ∧
        ∀ page, result = .ok page → (page.total, page.totalIsEstimate) =
          (countCached rd.numbers rd.clock (sqlWhere (buildWhere query))
            (matchingRows rd.text query db) cache).1) := by
  unfold queryEvents at h
  split at h
  · obtain ⟨rfl, rfl⟩ := Prod.mk.inj h
    exact .inl ⟨rfl, fun page hpage => by cases hpage⟩
  · dsimp only at h
    split at h
    · obtain ⟨rfl, rfl⟩ := Prod.mk.inj h
      exact .inl ⟨rfl, fun page hpage => by cases hpage⟩
    · rename_i rows hsel
      obtain ⟨-, -, rfl⟩ := selectWhere_ok.mp hsel
      by_cases hskip : query.skipTotal = some true
      · rw [if_pos hskip] at h
        exact .inl ⟨(Prod.mk.inj h).2.symm, fun _ _ => hskip⟩
      · rw [if_neg hskip] at h
        obtain ⟨hresult, hcache⟩ := Prod.mk.inj h
        refine .inr ⟨hskip, hcache.symm, ?_⟩
        intro page hpage
        rw [hpage] at hresult
        unfold RowPage.toEventPage at hresult
        split at hresult
        · cases hresult
        · cases hresult
          rfl

/-! ### Runs of writes and queries -/

/-- A page that was answered: over which database, when, and at which moments counts
had been taken before. -/
structure CountAnswer where
  query : EventQuery
  page : EventPage
  db : Db
  time : ℚ
  moments : List (ℚ × Db)

structure CountRun where
  db : Db
  cache : CountCache
  now : ℚ
  moments : List (ℚ × Db)
  answers : List CountAnswer

def Reader.between (rd : Reader) (before after : ℚ) : Reader :=
  { rd with clock := ⟨rd.clock.countCacheTtlMs, .fin before, .fin after⟩ }

/-- A write, or a query that a page or an error answers, under a clock that does not go
back. Queries are of one kind `P`. -/
inductive CountStep (rd : Reader) (P : EventQuery → Prop) : CountRun → CountRun → Prop where
  | write {s : CountRun} (host : Host) (op : StoreOp) (time : ℚ) : s.now ≤ time →
      CountStep rd P s { s with db := op.exec host s.db, now := time }
  | answered {s : CountRun} (query : EventQuery) (before after : ℚ) (page : EventPage)
      (cache : CountCache) : P query → s.now ≤ before → before ≤ after →
      queryEvents (rd.between before after) query s.db s.cache = (.ok page, cache) →
      CountStep rd P s
        { s with
          cache := cache
          now := after
          moments := (after, s.db) :: s.moments
          answers := ⟨query, page, s.db, before, s.moments⟩ :: s.answers }
  | refused {s : CountRun} (query : EventQuery) (before after : ℚ) (error : StoreError)
      (cache : CountCache) : P query → s.now ≤ before → before ≤ after →
      queryEvents (rd.between before after) query s.db s.cache = (.error error, cache) →
      CountStep rd P s { s with cache := cache, now := after, moments := (after, s.db) :: s.moments }

def UsesCache (rd : Reader) (query : EventQuery) : Prop :=
  JsNumber.lt (.ofNat 0) rd.clock.countCacheTtlMs = true ∧ query.skipTotal ≠ some true

/-- The total is exact; or it is an estimate, exact at a moment less than the cache's
lifetime ago. -/
def CountAnswer.Right (rd : Reader) (a : CountAnswer) : Prop :=
  a.query.skipTotal = some true ∨
    (a.page.totalIsEstimate = false ∧ a.page.total = (matchingRows rd.text a.query a.db).length) ∨
    (a.page.totalIsEstimate = true ∧ ∃ moment ∈ a.moments, moment.1 ≤ a.time ∧
      JsNumber.lt (.fin (a.time - moment.1)) rd.clock.countCacheTtlMs = true ∧
      a.page.total = (matchingRows rd.text a.query moment.2).length)

def CountsRight (rd : Reader) (s : CountRun) : Prop :=
  (∀ a ∈ s.answers, a.Right rd) ∧
    ∀ a ∈ s.answers, ∀ b ∈ s.answers, UsesCache rd a.query → UsesCache rd b.query →
      countKey rd.numbers (sqlWhere (buildWhere a.query)) =
        countKey rd.numbers (sqlWhere (buildWhere b.query)) →
      ∀ tm db, matchingRows tm a.query db = matchingRows tm b.query db

def CountRun.Opened (s : CountRun) : Prop := s.cache = [] ∧ s.moments = [] ∧ s.answers = []

def SafeQuery (rd : Reader) (query : EventQuery) : Prop := UsesCache rd query → query.FiniteNumbers

/-- What a cached count was, of a query with the key, and when it expires. -/
def CachedCount.Genuine (rd : Reader) (moments : List (ℚ × Db)) (key : String)
    (cached : CachedCount) : Prop :=
  ∃ query : EventQuery, query.FiniteNumbers ∧
    countKey rd.numbers (sqlWhere (buildWhere query)) = key ∧
    ∃ moment ∈ moments, cached.total = (matchingRows rd.text query moment.2).length ∧
      cached.expiresAt = JsNumber.add (.fin moment.1) rd.clock.countCacheTtlMs

structure CountRun.Sound (rd : Reader) (s : CountRun) : Prop where
  past : ∀ moment ∈ s.moments, moment.1 ≤ s.now
  cache : ∀ entry ∈ s.cache, entry.2.Genuine rd s.moments entry.1
  safe : ∀ a ∈ s.answers, SafeQuery rd a.query
  right : ∀ a ∈ s.answers, a.Right rd

theorem lt_add_iff {b t : ℚ} {ttl : JsNumber} (h : JsNumber.lt (.ofNat 0) ttl = true) :
    JsNumber.lt (.fin b) (.add (.fin t) ttl) = true ↔ JsNumber.lt (.fin (b - t)) ttl = true := by
  cases ttl with
  | fin q =>
    simp only [JsNumber.add, JsNumber.fin_lt_fin, decide_eq_true_eq]
    exact sub_lt_iff_lt_add'.symm
  | posInf => exact Iff.rfl
  | nan => simp at h
  | negInf => cases h

theorem CachedCount.Genuine.mono {rd : Reader} {moments : List (ℚ × Db)} {key : String}
    {cached : CachedCount} (h : cached.Genuine rd moments key) (moment : ℚ × Db) :
    cached.Genuine rd (moment :: moments) key := by
  obtain ⟨query, hfinite, hkey, m, hm, hcount⟩ := h
  exact ⟨query, hfinite, hkey, m, List.mem_cons_of_mem _ hm, hcount⟩

variable {rd : Reader} {s t : CountRun}

theorem genuine_of_query {query : EventQuery} {before after : ℚ}
    {result : Except StoreError EventPage} {cache : CountCache} (hs : s.Sound rd)
    (hsafe : SafeQuery rd query)
    (h : queryEvents (rd.between before after) query s.db s.cache = (result, cache)) :
    ∀ entry ∈ cache, entry.2.Genuine rd ((after, s.db) :: s.moments) entry.1 := by
  have hold : ∀ entry ∈ s.cache, entry.2.Genuine rd ((after, s.db) :: s.moments) entry.1 :=
    fun entry hentry => (hs.cache entry hentry).mono _
  intro entry hentry
  obtain ⟨rfl, -⟩ | ⟨hskip, rfl, -⟩ := queryEvents_count h
  · exact hold entry hentry
  · obtain ⟨cached, -, -, -, heq⟩ | ⟨-, hnew⟩ := countCached_cases rd.numbers
      (rd.between before after).clock (sqlWhere (buildWhere query))
      (matchingRows rd.text query s.db) s.cache
    · have hsame : (countCached rd.numbers (rd.between before after).clock
          (sqlWhere (buildWhere query)) (matchingRows (rd.between before after).text query s.db)
          s.cache).2 = s.cache :=
        congrArg Prod.snd heq
      exact hold entry (hsame ▸ hentry)
    · obtain hmem | ⟨hcaching, rfl⟩ := hnew entry hentry
      · exact hold entry hmem
      · exact ⟨query, hsafe ⟨hcaching, hskip⟩, rfl, (after, s.db), List.mem_cons_self, rfl, rfl⟩

theorem right_of_query {query : EventQuery} {before after : ℚ} {page : EventPage}
    {cache : CountCache} (hs : s.Sound rd) (hsafe : SafeQuery rd query) (hnow : s.now ≤ before)
    (h : queryEvents (rd.between before after) query s.db s.cache = (.ok page, cache)) :
    CountAnswer.Right rd ⟨query, page, s.db, before, s.moments⟩ := by
  obtain ⟨-, hskip⟩ | ⟨hskip, -, hpage⟩ := queryEvents_count h
  · exact .inl (hskip page rfl)
  · have htotal := hpage page rfl
    obtain ⟨cached, hcaching, hmem, hfresh, heq⟩ | ⟨heq, -⟩ := countCached_cases
      rd.numbers (rd.between before after).clock (sqlWhere (buildWhere query))
      (matchingRows rd.text query s.db) s.cache
    · rw [show countCached (rd.between before after).numbers (rd.between before after).clock
        (sqlWhere (buildWhere query)) (matchingRows (rd.between before after).text query s.db)
        s.cache = _ from heq] at htotal
      obtain ⟨htotal, hestimate⟩ := Prod.mk.inj htotal
      obtain ⟨other, hfinite, hkey, moment, hmoment, hcount, hexpires⟩ := hs.cache _ hmem
      have hsame := buildWhere_eq_of_countKey hfinite (hsafe ⟨hcaching, hskip⟩) hkey
      refine .inr (.inr ⟨hestimate, moment, hmoment, le_trans (hs.past moment hmoment) hnow, ?_, ?_⟩)
      · rw [hexpires] at hfresh
        exact (lt_add_iff hcaching).mp hfresh
      · rw [show page.total = cached.total from htotal, hcount, matchingRows_congr hsame]
    · rw [show (countCached (rd.between before after).numbers (rd.between before after).clock
        (sqlWhere (buildWhere query)) (matchingRows (rd.between before after).text query s.db)
        s.cache).1 = _ from heq] at htotal
      obtain ⟨htotal, hestimate⟩ := Prod.mk.inj htotal
      exact .inr (.inl ⟨hestimate, htotal⟩)

theorem CountRun.Sound.step (hs : s.Sound rd) (h : CountStep rd (SafeQuery rd) s t) : t.Sound rd := by
  cases h with
  | write host op time htime =>
    exact ⟨fun m hm => le_trans (hs.past m hm) htime, hs.cache, hs.safe, hs.right⟩
  | answered query before after page cache hsafe hbefore hafter hquery =>
    refine ⟨?_, genuine_of_query hs hsafe hquery, ?_, ?_⟩
    · exact List.forall_mem_cons.mpr ⟨le_refl _, fun m hm =>
        le_trans (hs.past m hm) (le_trans hbefore hafter)⟩
    · exact List.forall_mem_cons.mpr ⟨hsafe, hs.safe⟩
    · exact List.forall_mem_cons.mpr ⟨right_of_query hs hsafe hbefore hquery, hs.right⟩
  | refused query before after error cache hsafe hbefore hafter hquery =>
    refine ⟨?_, genuine_of_query hs hsafe hquery, hs.safe, hs.right⟩
    exact List.forall_mem_cons.mpr ⟨le_refl _, fun m hm =>
      le_trans (hs.past m hm) (le_trans hbefore hafter)⟩

/-- Under safe queries every total is right, in every state a run reaches. -/
theorem counts_right (rd : Reader) {s : CountRun}
    (h : Reachable CountRun.Opened (CountStep rd (SafeQuery rd)) s) : CountsRight rd s := by
  have hinit : ∀ a : CountRun, a.Opened → a.Sound rd := by
    intro a ha
    obtain ⟨hcache, hmoments, hanswers⟩ := ha
    constructor <;> simp [hcache, hmoments, hanswers]
  have hstep : ∀ a b : CountRun, a.Sound rd → CountStep rd (SafeQuery rd) a b → b.Sound rd :=
    fun _ _ ha hab => ha.step hab
  have hs := Reachable.invariant hinit hstep h
  refine ⟨hs.right, ?_⟩
  intro a ha b hb hca hcb hkey tm db
  exact matchingRows_congr
    (buildWhere_eq_of_countKey (hs.safe a ha hca) (hs.safe b hb hcb) hkey) db

def cachingReader : Reader := { plainReader with clock := ⟨.ofNat 2000, .ofNat 0, .ofNat 0⟩ }

def fromBelow : EventQuery :=
  { fromLedger := some .negInf, order := some .asc, cursor := some "b" }

def fromAbove : EventQuery := { fromLedger := some .posInf }

def plainRun : CountRun := ⟨plainDb ["a"], [], 0, [], []⟩

theorem canAnswer_plain {query : EventQuery} (h : buildWhere query = [] ∨
    ∃ n, buildWhere query = [.fromLedger n]) : CanAnswer cachingReader query (plainDb ["a"]) := by
  refine ⟨by decide +kernel, ?_⟩
  intro c hc
  obtain heq | ⟨n, heq⟩ := h
  · rw [heq] at hc
    cases hc
  · rw [heq, List.mem_singleton] at hc
    rw [hc]
    rfl

theorem answered_plain (query : EventQuery) (h : buildWhere query = [] ∨
    ∃ n, buildWhere query = [.fromLedger n]) (hskip : query.skipTotal ≠ some true)
    (hpage : (pageWindow cachingReader query (plainDb ["a"])).page = []) (cache : CountCache) :
    ∃ page, queryEvents (cachingReader.between 0 0) query (plainDb ["a"]) cache = (.ok page,
        (countCached cachingReader.numbers (cachingReader.between 0 0).clock
          (sqlWhere (buildWhere query)) (matchingRows cachingReader.text query (plainDb ["a"]))
          cache).2) ∧
      (page.total, page.totalIsEstimate) = (countCached cachingReader.numbers
        (cachingReader.between 0 0).clock (sqlWhere (buildWhere query))
        (matchingRows cachingReader.text query (plainDb ["a"])) cache).1 := by
  have hcan : CanAnswer (cachingReader.between 0 0) query (plainDb ["a"]) := canAnswer_plain h
  have hread : (pageWindow (cachingReader.between 0 0) query (plainDb ["a"])).page.mapM rowToEvent =
      some [] := by
    rw [show (pageWindow (cachingReader.between 0 0) query (plainDb ["a"])).page = [] from hpage]
    rfl
  obtain ⟨page, hok, -⟩ := queryEvents_of_readable hcan hread cache
  have hquery : queryEvents (cachingReader.between 0 0) query (plainDb ["a"]) cache =
      (.ok page, (queryEvents (cachingReader.between 0 0) query (plainDb ["a"]) cache).2) :=
    Prod.ext hok rfl
  obtain ⟨-, hskipped⟩ | ⟨-, hcache, htotal⟩ := queryEvents_count hquery
  · exact absurd (hskipped page rfl) hskip
  · exact ⟨page, hquery.trans (by rw [hcache]; rfl), htotal page rfl⟩

def pastAll : EventQuery := { order := some .asc, cursor := some "b" }

theorem counts_right_plain : ∃ s : CountRun, s.answers.length = 1 ∧ CountsRight cachingReader s := by
  obtain ⟨page, hquery, -⟩ := answered_plain pastAll (.inl rfl) (by decide)
    (by decide +kernel) []
  have hstart : Reachable CountRun.Opened (CountStep cachingReader (SafeQuery cachingReader)) plainRun :=
    .start ⟨rfl, rfl, rfl⟩
  have hsafe : SafeQuery cachingReader pastAll := fun _ n hn => by cases hn
  exact ⟨_, rfl, counts_right cachingReader
    (hstart.next (.answered pastAll 0 0 page _ hsafe (le_refl _) (le_refl _) hquery))⟩

/-- An infinity and its opposite have one key. -/
theorem infinities_share_count : ¬ ∀ s : CountRun,
    Reachable CountRun.Opened (CountStep cachingReader (fun _ => True)) s → CountsRight cachingReader s := by
  intro hall
  obtain ⟨first, hfirst, -⟩ := answered_plain fromBelow (.inr ⟨_, rfl⟩) (by decide)
    (by decide +kernel) []
  obtain ⟨second, hsecond, htotal⟩ := answered_plain fromAbove (.inr ⟨_, rfl⟩) (by decide)
    (by decide +kernel) (countCached cachingReader.numbers (cachingReader.between 0 0).clock
      (sqlWhere (buildWhere fromBelow)) (matchingRows cachingReader.text fromBelow (plainDb ["a"]))
      []).2
  have hstart : Reachable CountRun.Opened (CountStep cachingReader (fun _ => True)) plainRun :=
    .start ⟨rfl, rfl, rfl⟩
  have hone := hstart.next (.answered fromBelow 0 0 first _ trivial (le_refl _) (le_refl _) hfirst)
  have htwo := hone.next (.answered fromAbove 0 0 second _ trivial (le_refl _) (le_refl _) hsecond)
  have hright := (hall _ htwo).1 _ List.mem_cons_self
  have hcounted : (second.total, second.totalIsEstimate) = (1, true) := htotal.trans (by decide +kernel)
  obtain ⟨hone, -⟩ := Prod.mk.inj hcounted
  have hnone : (matchingRows cachingReader.text fromAbove (plainDb ["a"])).length = 0 := by decide +kernel
  obtain hskip | ⟨-, hexact⟩ | ⟨-, moment, hmoment, -, -, hexact⟩ := hright
  · cases hskip
  · exact absurd (hone.symm.trans (hexact.trans hnone)) (by decide)
  · rw [List.mem_singleton.mp hmoment] at hexact
    exact absurd (hone.symm.trans (hexact.trans hnone)) (by decide)

end SorobanLens
