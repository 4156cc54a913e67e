import SorobanLens.Store.Postgres
import SorobanLens.Store.Stability

/-!
Pages of either store: what a page holds, when its cursors are there, and that
paging back from a page returns the one before it.
-/

set_option autoImplicit false

namespace SorobanLens

inductive PagedStore where
  | sqlite (rd : Reader) (db : Db)
  | postgres (rd : Postgres.PgReader) (db : Postgres.PgDb)

namespace PagedStore

def queryEvents : PagedStore → EventQuery → CountCache → Except StoreError EventPage
  | .sqlite rd db, query, cache => (SorobanLens.queryEvents rd query db cache).1
  | .postgres rd db, query, cache => (Postgres.queryEvents rd query db cache).1

def matching : PagedStore → EventQuery → List EventRow
  | .sqlite rd db, query => matchingRows rd.text query db
  | .postgres rd db, query => Postgres.matchingRows rd.text query db

def limit : PagedStore → EventQuery → Nat
  | .sqlite rd _, query => normaliseLimit rd.maxLimit query.limit
  | .postgres rd _, query => normaliseLimit rd.maxLimit query.limit

/-- The statement of a filter runs. -/
def Accepts : PagedStore → EventQuery → Prop
  | .sqlite rd db, query => CanAnswer rd query db
  | .postgres _ _, query => (Postgres.buildWhere query).all Postgres.conditionBinds = true

def CursorBinds : PagedStore → EventQuery → Prop
  | .sqlite _ _, _ => True
  | .postgres _ _, query => (given query.cursor).all Postgres.textBinds = true

/-- No stored id is empty or holds U+0000, which a `TEXT` column of Postgres does not. -/
def IdsUsable : PagedStore → Prop
  | .sqlite _ db => ∀ id ∈ db.storedIds, id ≠ "" ∧ Whole id
  | .postgres _ db => ∀ row ∈ db.events.rows, row.id ≠ "" ∧ Postgres.textBinds row.id = true

structure Usable (s : PagedStore) (query : EventQuery) : Prop where
  ids : s.IdsUsable
  search : query.SearchWhole

def pageWindow (s : PagedStore) (query : EventQuery) : Keyset.Window EventRow :=
  window query.resultOrder query.isBackward (given query.cursor) (s.limit query) (s.matching query)

theorem nodup_matching (s : PagedStore) (query : EventQuery) :
    ((s.matching query).map EventRow.id).Nodup := by
  cases s with
  | sqlite rd db => exact nodup_matchingRows rd.text query db
  | postgres rd db => exact Keyset.nodup_filter db.events.nodup _

theorem postgres_queryEvents_ok {rd : Postgres.PgReader} {query : EventQuery} {db : Postgres.PgDb}
    {cache : CountCache} {p : EventPage} (h : (Postgres.queryEvents rd query db cache).1 = .ok p) :
    (Postgres.buildWhere query).all Postgres.conditionBinds = true ∧
      (given query.cursor).all Postgres.textBinds = true ∧ ∃ count,
        (keysetPage query.resultOrder query.isBackward (given query.cursor)
          (normaliseLimit rd.maxLimit query.limit)
          (Postgres.matchingRows rd.text query db)).toEventPage count = .ok p := by
  unfold Postgres.queryEvents at h
  simp only at h
  split at h
  · cases h
  · rename_i hconds
    split at h
    · cases h
    · rename_i hcursor
      exact ⟨by simpa using hconds, by simpa using hcursor, _, h⟩

theorem queryEvents_ok {s : PagedStore} {query : EventQuery} {cache : CountCache} {p : EventPage}
    (h : s.queryEvents query cache = .ok p) :
    s.Accepts query ∧ (s.pageWindow query).page.mapM rowToEvent = some p.events ∧
      p.nextCursor = (s.pageWindow query).next EventRow.id ∧
      p.prevCursor = (s.pageWindow query).prev EventRow.id := by
  cases s with
  | sqlite rd db => exact ⟨canAnswer_of_ok h, SorobanLens.queryEvents_ok h⟩
  | postgres rd db =>
    obtain ⟨hconds, -, count, hpage⟩ := postgres_queryEvents_ok h
    have hnodup : ((Postgres.matchingRows rd.text query db).map EventRow.id).Nodup :=
      nodup_matching (.postgres rd db) query
    rw [keysetPage_eq hnodup] at hpage
    exact ⟨hconds, toEventPage_ok hpage⟩

/-- A query that runs, and whose page reads back, succeeds whatever was counted before. -/
theorem queryEvents_of_accepts {s : PagedStore} {query : EventQuery} (h : s.Accepts query)
    (hc : s.CursorBinds query) {events : List LensEvent}
    (hread : (s.pageWindow query).page.mapM rowToEvent = some events) (cache : CountCache) :
    ∃ p, s.queryEvents query cache = .ok p ∧ p.events = events := by
  cases s with
  | sqlite rd db => exact queryEvents_of_readable h hread cache
  | postgres rd db =>
    have hnodup : ((Postgres.matchingRows rd.text query db).map EventRow.id).Nodup :=
      nodup_matching (.postgres rd db) query
    have hread' : (window query.resultOrder query.isBackward (given query.cursor)
        (normaliseLimit rd.maxLimit query.limit)
        (Postgres.matchingRows rd.text query db)).page.mapM rowToEvent = some events := hread
    have hconds : (Postgres.buildWhere query).all Postgres.conditionBinds = true := h
    have hbinds : (given query.cursor).all Postgres.textBinds = true := hc
    simp only [queryEvents, Postgres.queryEvents, hconds, hbinds, Bool.true_eq_false, if_false,
      keysetPage_eq hnodup, RowPage.toEventPage, hread']
    exact ⟨_, rfl, rfl⟩

/-! ### Windows -/

theorem ascending_pageWindow (s : PagedStore) (query : EventQuery) :
    Keyset.Ascending EventRow.id query.resultOrder.Before (s.pageWindow query).all := by
  have hnodup := s.nodup_matching query
  rw [pageWindow, window_all hnodup]
  exact ascending_orderById hnodup _

theorem pageWindow_all (s : PagedStore) (query : EventQuery) :
    (s.pageWindow query).all = orderById query.resultOrder (s.matching query) :=
  window_all (s.nodup_matching query) _ _ _ _

/-- Where the query pages on: another cursor, and its direction kept or turned. -/
def resumed (query : EventQuery) (cursor : Option String) (direction : Option Direction) :
    EventQuery :=
  { query with cursor := cursor, direction := direction }

theorem pageWindow_forward {s : PagedStore} {query : EventQuery} (h : query.isBackward = false) :
    s.pageWindow query = Keyset.forward EventRow.id query.resultOrder.Before
      (orderById query.resultOrder (s.matching query)) (given query.cursor) (s.limit query) := by
  simp only [pageWindow, window, h, Bool.false_eq_true, if_false]

theorem pageWindow_backward {s : PagedStore} {query : EventQuery} (h : query.isBackward = true) :
    s.pageWindow query = Keyset.backward EventRow.id query.resultOrder.Before
      (orderById query.resultOrder (s.matching query)) (given query.cursor) (s.limit query) := by
  simp only [pageWindow, window, h, if_true]

theorem matching_resumed (s : PagedStore) (query : EventQuery) (cursor : Option String)
    (direction : Option Direction) : s.matching (resumed query cursor direction) = s.matching query := by
  cases s <;> rfl

theorem limit_resumed (s : PagedStore) (query : EventQuery) (cursor : Option String)
    (direction : Option Direction) : s.limit (resumed query cursor direction) = s.limit query := by
  cases s <;> rfl

theorem accepts_resumed {s : PagedStore} {query : EventQuery} (h : s.Accepts query)
    (cursor : Option String) (direction : Option Direction) :
    s.Accepts (resumed query cursor direction) := by
  cases s <;> exact h

theorem mem_pageWindow {s : PagedStore} {query : EventQuery} {row : EventRow}
    (h : row ∈ (s.pageWindow query).page) : row ∈ s.matching query := by
  have hall : row ∈ (s.pageWindow query).all := by simp [Keyset.Window.all, h]
  rw [pageWindow_all] at hall
  exact Keyset.mem_arrange.mp hall

theorem usable_of_matching {s : PagedStore} (h : s.IdsUsable) {query : EventQuery} {row : EventRow}
    (hrow : row ∈ s.matching query) : row.id ≠ "" ∧ ∀ direction,
      s.CursorBinds (resumed query (some row.id) direction) := by
  cases s with
  | sqlite rd db =>
    obtain ⟨t, ht, hmem, -⟩ := mem_matchingRows.mp hrow
    have hstored : row.id ∈ db.storedIds := mem_storedIds.mpr ⟨t, ht, row, hmem, rfl⟩
    exact ⟨(h row.id hstored).1, fun _ => trivial⟩
  | postgres rd db =>
    obtain ⟨hne, hbinds⟩ := h row (List.mem_filter.mp hrow).1
    refine ⟨hne, ?_⟩
    intro direction
    show (given (some row.id)).all Postgres.textBinds = true
    rw [given_eq_some.mpr ⟨rfl, hne⟩]
    exact hbinds

theorem limit_pos (s : PagedStore) (query : EventQuery) : 1 ≤ s.limit query := by
  cases s with
  | sqlite rd db => exact normaliseLimit_pos _ _
  | postgres rd db => exact normaliseLimit_pos _ _

/-! ### Consecutive pages -/

/-- The page after one whose last row is `x` starts where that one ended. -/
theorem pageWindow_next {s : PagedStore} (h : s.IdsUsable) {query : EventQuery}
    (hforward : query.isBackward = false) {x : EventRow}
    (hx : (s.pageWindow query).page.getLast? = some x) :
    s.pageWindow (resumed query (some x.id) query.direction) =
      ⟨(s.pageWindow query).before ++ (s.pageWindow query).page,
        (s.pageWindow query).after.take (s.limit query),
        (s.pageWindow query).after.drop (s.limit query)⟩ := by
  have hid := (usable_of_matching h (mem_pageWindow (List.mem_of_getLast? hx))).1
  have hgiven : given (some x.id) = some x.id := given_eq_some.mpr ⟨rfl, hid⟩
  have hnext := Keyset.forward_from_last (s.ascending_pageWindow query) hx (s.limit query)
  rw [pageWindow_all] at hnext
  have hturn : (resumed query (some x.id) query.direction).isBackward = false := hforward
  rw [pageWindow_forward hturn, matching_resumed, limit_resumed, ← hnext]
  show Keyset.forward _ _ _ (given (some x.id)) _ = _
  rw [hgiven]
  rfl

/-- Turning round at the first row of the next page reads this one again. -/
theorem pageWindow_back {s : PagedStore} (h : s.IdsUsable) {query : EventQuery}
    (hforward : query.isBackward = false) {x y : EventRow}
    (hx : (s.pageWindow query).page.getLast? = some x)
    (hy : (s.pageWindow (resumed query (some x.id) query.direction)).page.head? = some y) :
    s.pageWindow (resumed query (some y.id) (some .backward)) = s.pageWindow query := by
  have hxid := (usable_of_matching h (mem_pageWindow (List.mem_of_getLast? hx))).1
  have hymem := mem_pageWindow (List.mem_of_mem_head? hy)
  have hyid := (usable_of_matching h hymem).1
  have hasc : Keyset.Ascending EventRow.id query.resultOrder.Before
      (orderById query.resultOrder (s.matching query)) :=
    ascending_orderById (s.nodup_matching query) _
  have hnext : s.pageWindow (resumed query (some x.id) query.direction) =
      Keyset.forward EventRow.id query.resultOrder.Before
        (orderById query.resultOrder (s.matching query)) (some x.id) (s.limit query) := by
    have hturn : (resumed query (some x.id) query.direction).isBackward = false := hforward
    rw [pageWindow_forward hturn, matching_resumed, limit_resumed]
    show Keyset.forward _ _ _ (given (some x.id)) _ = _
    rw [given_eq_some.mpr ⟨rfl, hxid⟩]
    rfl
  rw [pageWindow_forward hforward] at hx ⊢
  rw [hnext] at hy
  have hturn : (resumed query (some y.id) (some .backward)).isBackward = true := rfl
  rw [pageWindow_backward hturn, matching_resumed, limit_resumed]
  show Keyset.backward _ _ _ (given (some y.id)) _ = _
  rw [given_eq_some.mpr ⟨rfl, hyid⟩]
  exact Keyset.backward_of_next hasc hx hy

end PagedStore

def EventPage.Agrees (p q : EventPage) : Prop :=
  p.events = q.events ∧ p.nextCursor = q.nextCursor ∧ p.prevCursor = q.prevCursor

namespace PagedStore

theorem agrees_of_pageWindow {s : PagedStore} {query other : EventQuery} {p : EventPage}
    {cache : CountCache} (h : s.queryEvents query cache = .ok p) (haccepts : s.Accepts other)
    (hbinds : s.CursorBinds other) (hwindow : s.pageWindow other = s.pageWindow query)
    (cache' : CountCache) : ∃ r, s.queryEvents other cache' = .ok r ∧ r.Agrees p := by
  obtain ⟨-, hread, hnext, hprev⟩ := queryEvents_ok h
  rw [← hwindow] at hread hnext hprev
  obtain ⟨r, hr, hevents⟩ := queryEvents_of_accepts haccepts hbinds hread cache'
  obtain ⟨-, -, hnext', hprev'⟩ := queryEvents_ok hr
  exact ⟨r, hr, hevents, hnext'.trans hnext.symm, hprev'.trans hprev.symm⟩

/-- Paging back from the page after this one, and on again. -/
theorem back_and_forth {s : PagedStore} (hids : s.IdsUsable) {query : EventQuery}
    (hforward : query.isBackward = false) {cache cache' : CountCache} {p p' : EventPage} {n : String}
    (h : s.queryEvents query cache = .ok p) (hn : p.nextCursor = some n)
    (h' : s.queryEvents (resumed query (some n) query.direction) cache' = .ok p') :
    ∃ d, p'.prevCursor = some d ∧ ∀ c, ∃ r,
      s.queryEvents (resumed query (some d) (some .backward)) c = .ok r ∧ r.Agrees p ∧
      ∀ c', ∃ r', s.queryEvents (resumed query r.nextCursor query.direction) c' = .ok r' ∧
        r'.Agrees p' := by
  obtain ⟨haccepts, -, hnext, -⟩ := queryEvents_ok h
  obtain ⟨-, -, -, hprev'⟩ := queryEvents_ok h'
  obtain ⟨x, hx, rfl, hafter⟩ := Keyset.next_eq_some (hnext.symm.trans hn)
  have hwindow := pageWindow_next hids hforward hx
  have hpage : (s.pageWindow (resumed query (some x.id) query.direction)).page ≠ [] := by
    have hpos := s.limit_pos query
    rw [hwindow]
    simp only [ne_eq, List.take_eq_nil_iff, hafter, or_false]
    omega
  obtain ⟨y, hy⟩ := Option.isSome_iff_exists.mp (List.isSome_head?.mpr hpage)
  have hbefore : (s.pageWindow (resumed query (some x.id) query.direction)).before.isEmpty = false := by
    have hne : (s.pageWindow query).page ≠ [] := List.ne_nil_of_mem (List.mem_of_getLast? hx)
    rw [hwindow]
    simp [hne]
  have hd : p'.prevCursor = some y.id := by
    rw [hprev', Keyset.Window.prev, hbefore, hy]
    rfl
  refine ⟨y.id, hd, ?_⟩
  intro c
  have hback := pageWindow_back hids hforward hx hy
  have hymem : y ∈ s.matching query := by
    have hmem := mem_pageWindow (List.mem_of_mem_head? hy)
    rwa [matching_resumed] at hmem
  obtain ⟨r, hr, hagrees⟩ := agrees_of_pageWindow h (accepts_resumed haccepts _ _)
    ((usable_of_matching hids hymem).2 _) hback c
  refine ⟨r, hr, hagrees, ?_⟩
  intro c'
  rw [hagrees.2.1, hn]
  exact agrees_of_pageWindow h' (accepts_resumed haccepts _ _)
    ((usable_of_matching hids (mem_pageWindow (List.mem_of_getLast? hx))).2 _) rfl c'

/-! ### The ends of a result -/

theorem map_id_events {s : PagedStore} {query : EventQuery} {cache : CountCache} {p : EventPage}
    (h : s.queryEvents query cache = .ok p) :
    p.events.map LensEvent.id = (s.pageWindow query).page.map EventRow.id :=
  map_id_of_mapM (queryEvents_ok h).2.1

theorem nextCursor_none_iff {s : PagedStore} {query : EventQuery} {cache : CountCache}
    {p : EventPage} (h : s.queryEvents query cache = .ok p) {e : LensEvent}
    (he : p.events.getLast? = some e) :
    p.nextCursor = none ↔ ∀ row ∈ s.matching query, ¬ query.resultOrder.Before e.id row.id := by
  have hlast : (p.events.map LensEvent.id).getLast? = some e.id := by simp [List.getLast?_map, he]
  rw [map_id_events h, List.getLast?_map] at hlast
  obtain ⟨x, hx, hid⟩ := Option.map_eq_some_iff.mp hlast
  rw [(queryEvents_ok h).2.2.1, Keyset.next_eq_none_iff (s.ascending_pageWindow query) hx,
    pageWindow_all, hid]
  simp only [orderById, Keyset.mem_arrange]

theorem prevCursor_none_iff {s : PagedStore} {query : EventQuery} {cache : CountCache}
    {p : EventPage} (h : s.queryEvents query cache = .ok p) {e : LensEvent}
    (he : p.events.head? = some e) :
    p.prevCursor = none ↔ ∀ row ∈ s.matching query, ¬ query.resultOrder.Before row.id e.id := by
  have hfirst : (p.events.map LensEvent.id).head? = some e.id := by simp [List.head?_map, he]
  rw [map_id_events h, List.head?_map] at hfirst
  obtain ⟨x, hx, hid⟩ := Option.map_eq_some_iff.mp hfirst
  rw [(queryEvents_ok h).2.2.2, Keyset.prev_eq_none_iff (s.ascending_pageWindow query) hx,
    pageWindow_all, hid]
  simp only [orderById, Keyset.mem_arrange]

theorem prevCursor_of_first {s : PagedStore} {query : EventQuery}
    (hforward : query.isBackward = false) (hcursor : given query.cursor = none)
    {cache : CountCache} {p : EventPage} (h : s.queryEvents query cache = .ok p) :
    p.prevCursor = none := by
  rw [(queryEvents_ok h).2.2.2, pageWindow_forward hforward, hcursor]
  simp [Keyset.Window.prev, Keyset.forward, Keyset.past]

theorem page_of_backward {s : PagedStore} {query : EventQuery}
    (hbackward : query.isBackward = true) (hcursor : given query.cursor = none) :
    (s.pageWindow query).page =
      (orderById query.resultOrder (s.matching query)).rtake (s.limit query) := by
  have hall : ∀ row ∈ orderById query.resultOrder (s.matching query),
      Keyset.short EventRow.id query.resultOrder.Before none row = true := fun _ _ => rfl
  rw [pageWindow_backward hbackward, hcursor]
  simp only [Keyset.backward, List.filter_eq_self.mpr hall]

/-- Paging back undoes paging forward, and the cursors are there exactly when
there is something on their side. -/
theorem paging_back_undoes_forward (s : PagedStore) (query : EventQuery)
    (husable : s.Usable query) (cache : CountCache) (p : EventPage)
    (h : s.queryEvents query cache = .ok p) :
    (query.isBackward = false → ∀ n, p.nextCursor = some n → ∀ cache' p',
      s.queryEvents (resumed query (some n) query.direction) cache' = .ok p' →
      ∃ d, p'.prevCursor = some d ∧ ∀ c, ∃ r,
        s.queryEvents (resumed query (some d) (some .backward)) c = .ok r ∧ r.Agrees p ∧
        ∀ c', ∃ r', s.queryEvents (resumed query r.nextCursor query.direction) c' = .ok r' ∧
          r'.Agrees p') ∧
    (query.isBackward = false → given query.cursor = none → p.prevCursor = none) ∧
    (∀ e, p.events.getLast? = some e →
      (p.nextCursor = none ↔ ∀ row ∈ s.matching query, ¬ query.resultOrder.Before e.id row.id)) ∧
    (∀ e, p.events.head? = some e →
      (p.prevCursor = none ↔ ∀ row ∈ s.matching query, ¬ query.resultOrder.Before row.id e.id)) ∧
    (query.isBackward = true → given query.cursor = none →
      ((orderById query.resultOrder (s.matching query)).rtake (s.limit query)).mapM rowToEvent =
        some p.events ∧
      p.events.length = min (s.limit query) (s.matching query).length) := by
  refine ⟨?_, ?_, fun e he => nextCursor_none_iff h he, fun e he => prevCursor_none_iff h he, ?_⟩
  · intro hforward n hn cache' p' h'
    exact back_and_forth husable.ids hforward h hn h'
  · intro hforward hcursor
    exact prevCursor_of_first hforward hcursor h
  · intro hbackward hcursor
    have hpage := s.page_of_backward hbackward hcursor
    have hlen : p.events.length = (s.pageWindow query).page.length := by
      simpa using congrArg List.length (map_id_events h)
    have hsame : (orderById query.resultOrder (s.matching query)).length = (s.matching query).length :=
      (List.perm_insertionSort _ _).length_eq
    refine ⟨hpage ▸ (queryEvents_ok h).2.1, ?_⟩
    rw [hlen, hpage, List.rtake, List.length_drop, hsame]
    omega

/-! ### Pages of one event -/

theorem plain_page (query : EventQuery) (ids found : List String)
    (hcan : CanAnswer plainReader query (plainDb ids))
    (hpage : (PagedStore.pageWindow (.sqlite plainReader (plainDb ids)) query).page =
      found.map plainRow) :
    ∃ p, queryEvents (.sqlite plainReader (plainDb ids)) query [] = .ok p ∧
      p.events = found.map plainEvent := by
  refine queryEvents_of_accepts (s := .sqlite plainReader (plainDb ids)) hcan trivial ?_ []
  rw [hpage]
  exact plainRow_reads found

/-- Two events on pages of one, there and back. -/
theorem paging_back_two_events : ∃ p p' r : EventPage,
    queryEvents (.sqlite plainReader (plainDb ["a", "b"]))
      { order := some .asc, limit := some (.ofNat 1) } [] = .ok p ∧ p.nextCursor = some "a" ∧
    queryEvents (.sqlite plainReader (plainDb ["a", "b"]))
      { order := some .asc, limit := some (.ofNat 1), cursor := some "a" } [] = .ok p' ∧
    p'.prevCursor = some "b" ∧
    queryEvents (.sqlite plainReader (plainDb ["a", "b"]))
      { order := some .asc, limit := some (.ofNat 1), cursor := some "b",
        direction := some .backward } [] = .ok r ∧ r.Agrees p := by
  have hlimit : normaliseLimit plainReader.maxLimit (some (.ofNat 1)) = 1 := by decide +kernel
  have hids : IdsUsable (.sqlite plainReader (plainDb ["a", "b"])) := by
    show ∀ id ∈ ["a", "b"], id ≠ "" ∧ Whole id
    decide
  obtain ⟨p, hp, -⟩ := plain_page { order := some .asc, limit := some (.ofNat 1) }
    ["a", "b"] ["a"] ⟨rfl, by decide⟩ (by
      rw [pageWindow, limit, hlimit]
      rfl)
  obtain ⟨p', hp', -⟩ := plain_page
    { order := some .asc, limit := some (.ofNat 1), cursor := some "a" }
    ["a", "b"] ["b"] ⟨rfl, by decide⟩ (by
      rw [pageWindow, limit, hlimit]
      rfl)
  have hnext : p.nextCursor = some "a" := by
    rw [(queryEvents_ok hp).2.2.1, pageWindow, limit, hlimit]
    rfl
  have hprev : p'.prevCursor = some "b" := by
    rw [(queryEvents_ok hp').2.2.2, pageWindow, limit, hlimit]
    rfl
  obtain ⟨d, hd, hback⟩ :=
    (paging_back_undoes_forward _ _ ⟨hids, fun text htext => by cases htext⟩ [] p hp).1 rfl "a"
      hnext [] p' hp'
  rw [hprev, Option.some.injEq] at hd
  subst hd
  obtain ⟨r, hr, hagrees, -⟩ := hback []
  exact ⟨p, p', r, hp, hnext, hp', hprev, hr, hagrees⟩

/-- An event whose id is empty cannot be paged back from: its id is no cursor. -/
theorem empty_id_restarts : ¬ ∀ (s : PagedStore) (query : EventQuery) (cache : CountCache)
    (p : EventPage), s.queryEvents query cache = .ok p → query.isBackward = false →
    ∀ n, p.nextCursor = some n → ∀ cache' p',
      s.queryEvents (resumed query (some n) query.direction) cache' = .ok p' →
      ∃ d, p'.prevCursor = some d ∧ ∀ c, ∃ r,
        s.queryEvents (resumed query (some d) (some .backward)) c = .ok r ∧ r.Agrees p := by
  intro hclaim
  have hlimit : normaliseLimit plainReader.maxLimit (some (.ofNat 1)) = 1 := by decide +kernel
  obtain ⟨p, hp, hevents⟩ := plain_page { limit := some (.ofNat 1) }
    ["", "a"] ["a"] ⟨rfl, by decide⟩ (by
      rw [pageWindow, limit, hlimit]
      rfl)
  obtain ⟨p', hp', -⟩ := plain_page { limit := some (.ofNat 1), cursor := some "a" }
    ["", "a"] [""] ⟨rfl, by decide⟩ (by
      rw [pageWindow, limit, hlimit]
      rfl)
  have hnext : p.nextCursor = some "a" := by
    rw [(queryEvents_ok hp).2.2.1, pageWindow, limit, hlimit]
    rfl
  have hprev : p'.prevCursor = some "" := by
    rw [(queryEvents_ok hp').2.2.2, pageWindow, limit, hlimit]
    rfl
  obtain ⟨d, hd, hback⟩ := hclaim _ _ [] p hp rfl "a" hnext [] p' hp'
  rw [hprev, Option.some.injEq] at hd
  subst hd
  obtain ⟨r, hr, hagrees⟩ := hback []
  have hids := map_id_events hr
  rw [hagrees.1, hevents, pageWindow, limit, resumed, hlimit] at hids
  have hfalse : ["a"] = [""] := hids
  exact absurd hfalse (by decide)

end PagedStore

end SorobanLens
