import SorobanLens.Store.Query

/-!
The storage trait as the API relies on it: which ids are stored, which of them a
query matches, and the page it answers with. The SQLite store is one.
-/

set_option autoImplicit false

namespace SorobanLens

def EventQuery.filter (query : EventQuery) : EventQuery :=
  { query with limit := none, cursor := none, direction := none, skipTotal := none, order := none }

def idWindow (query : EventQuery) (limit : Nat) (ids : List String) : Keyset.Window String :=
  let xs := Keyset.arrange id query.resultOrder.Before ids
  if query.isBackward then
    Keyset.backward id query.resultOrder.Before xs (given query.cursor) limit
  else Keyset.forward id query.resultOrder.Before xs (given query.cursor) limit

structure EventStore (σ : Type) where
  stored : σ → List String
  matching : EventQuery → σ → List String
  normaliseLimit : Option JsNumber → Nat
  /-- What `queryEvents` may answer; the total depends on a cache. -/
  queryEvents : EventQuery → σ → EventPage → Prop
  distinct : ∀ q s, (matching q s).Nodup
  isStored : ∀ q s, ∀ id ∈ matching q s, id ∈ stored s
  matching_filter : ∀ q s, matching q s = matching q.filter s
  limit_pos : ∀ l, 1 ≤ normaliseLimit l
  window : ∀ {q s p}, queryEvents q s p →
    p.events.map LensEvent.id = (idWindow q (normaliseLimit q.limit) (matching q s)).page ∧
      p.nextCursor = (idWindow q (normaliseLimit q.limit) (matching q s)).next id ∧
      p.prevCursor = (idWindow q (normaliseLimit q.limit) (matching q s)).prev id

namespace EventStore

variable {σ : Type} (E : EventStore σ)

/-- Ids that stay stored keep matching what they matched. -/
def Settled (s t : σ) : Prop :=
  ∀ q, ∀ id ∈ E.stored s, id ∈ E.stored t → (id ∈ E.matching q t ↔ id ∈ E.matching q s)

structure Inserted (s t : σ) : Prop where
  kept : ∀ id ∈ E.stored s, id ∈ E.stored t
  settled : E.Settled s t

structure Pruned (s t : σ) : Prop where
  kept : ∀ id ∈ E.stored t, id ∈ E.stored s
  settled : E.Settled s t

end EventStore

namespace EventStore

variable {σ : Type} {E : EventStore σ} {query : EventQuery} {store : σ} {page : EventPage}

/-- A forward page of an ascending query: matching ids in order, past the cursor. -/
theorem page_ascending (h : E.queryEvents query store page) (horder : query.order = some .asc)
    (hforward : query.isBackward = false) :
    (page.events.map LensEvent.id).Pairwise (· < ·) ∧ ∀ id ∈ page.events.map LensEvent.id,
      id ∈ E.matching query store ∧ ∀ c, given query.cursor = some c → c < id := by
  have hasc : query.resultOrder = .asc := by simp [EventQuery.resultOrder, horder]
  have hpage := (E.window h).1
  simp only [idWindow, hforward, hasc, Bool.false_eq_true, if_false, Keyset.forward] at hpage
  rw [hpage]
  have hnodup : ((E.matching query store).map id).Nodup := by
    rw [List.map_id]
    exact E.distinct query store
  constructor
  · have harranged := Keyset.ascending_arrange (r := Order.asc.Before) hnodup
    exact (harranged.sublist (List.filter_sublist)).sublist (List.take_sublist _ _)
  · intro id hid
    obtain ⟨hmem, hpast⟩ := List.mem_filter.mp (List.mem_of_mem_take hid)
    refine ⟨Keyset.mem_arrange.mp hmem, ?_⟩
    intro c hc
    rw [hc] at hpast
    have hbefore : query.resultOrder.Before c id := of_decide_eq_true hpast
    rw [hasc] at hbefore
    exact hbefore

theorem page_covers (h : E.queryEvents query store page) (horder : query.order = some .asc)
    (hforward : query.isBackward = false) {id : String} (hid : id ∈ E.matching query store)
    (hpast : ∀ c, given query.cursor = some c → c < id) (hno : id ∉ page.events.map LensEvent.id) :
    ∀ x ∈ page.events.map LensEvent.id, x < id := by
  have hasc : query.resultOrder = .asc := by simp [EventQuery.resultOrder, horder]
  have hpage := (E.window h).1
  simp only [idWindow, hforward, Bool.false_eq_true, if_false, Keyset.forward] at hpage
  have hnodup : ((E.matching query store).map (fun x => x)).Nodup := by
    rw [List.map_id']
    exact E.distinct query store
  have hsorted := (Keyset.ascending_arrange (r := query.resultOrder.Before) hnodup).filter
    (Keyset.past (fun x => x) query.resultOrder.Before (given query.cursor))
  have hmem : id ∈ (Keyset.arrange (fun x => x) query.resultOrder.Before
      (E.matching query store)).filter
        (Keyset.past (fun x => x) query.resultOrder.Before (given query.cursor)) := by
    refine List.mem_filter.mpr ⟨Keyset.mem_arrange.mpr hid, ?_⟩
    cases hc : given query.cursor with
    | none => rfl
    | some c =>
      refine decide_eq_true ?_
      rw [hasc]
      exact hpast c hc
  intro x hx
  rw [hpage] at hx hno
  rw [← List.take_append_drop (E.normaliseLimit query.limit) (List.filter _ _)] at hmem hsorted
  have hafter := (List.mem_append.mp hmem).resolve_left hno
  have hbefore := (List.pairwise_append.mp hsorted).2.2 x hx id hafter
  rw [hasc] at hbefore
  exact hbefore

/-- A page with no next cursor holds all there is past the cursor. -/
theorem page_complete (h : E.queryEvents query store page) (hforward : query.isBackward = false)
    (hnext : page.nextCursor = none) {x : String} (hid : x ∈ E.matching query store)
    (hpast : ∀ c, given query.cursor = some c → query.resultOrder.Before c x) :
    x ∈ page.events.map LensEvent.id := by
  obtain ⟨hpage, hcursor, _⟩ := E.window h
  have hpos := E.limit_pos query.limit
  simp only [idWindow, hforward, Bool.false_eq_true, if_false] at hpage hcursor
  rw [hpage]
  generalize hw : Keyset.forward id query.resultOrder.Before
    (Keyset.arrange id query.resultOrder.Before (E.matching query store))
    (given query.cursor) (E.normaliseLimit query.limit) = w at hpage hcursor ⊢
  have hafter : w.after = [] := by
    by_contra hne
    have hlen : w.page.length = E.normaliseLimit query.limit := by
      rw [← hw] at hne ⊢
      exact Keyset.length_page_forward hne
    have hlast : w.page.getLast? = none := by
      have hempty : w.after.isEmpty = false := by simpa using hne
      rw [hnext] at hcursor
      simpa [Keyset.Window.next, hempty] using hcursor.symm
    rw [List.getLast?_eq_none_iff] at hlast
    rw [hlast, List.length_nil] at hlen
    omega
  have hmem : x ∈ w.page ++ w.after := by
    rw [← hw]
    simp only [Keyset.forward, List.take_append_drop]
    refine List.mem_filter.mpr ⟨Keyset.mem_arrange.mpr hid, ?_⟩
    cases hc : given query.cursor with
    | none => rfl
    | some c => exact decide_eq_true (hpast c hc)
  rwa [hafter, List.append_nil] at hmem

/-- The next cursor is the last id of its page. -/
theorem page_next (h : E.queryEvents query store page) (hforward : query.isBackward = false)
    {c : String} (hnext : page.nextCursor = some c) :
    (page.events.map LensEvent.id).getLast? = some c := by
  obtain ⟨hpage, hcursor, _⟩ := E.window h
  simp only [idWindow, hforward, Bool.false_eq_true, if_false] at hpage hcursor
  rw [hpage]
  rw [hnext, Keyset.Window.next] at hcursor
  split at hcursor
  · cases hcursor
  · simpa using hcursor.symm

end EventStore

/-! ### The SQLite store -/

def Db.storedIds (db : Db) : List String :=
  match db.events with
  | none => []
  | some t => t.rows.map EventRow.id

theorem mem_storedIds {db : Db} {id : String} :
    id ∈ db.storedIds ↔ ∃ t, db.events = some t ∧ ∃ row ∈ t.rows, row.id = id := by
  unfold Db.storedIds
  cases db.events <;> simp

theorem map_window (order : Order) (backward : Bool) (cursor : Option String) (limit : Nat)
    {rows : List EventRow} (h : (rows.map EventRow.id).Nodup) :
    (window order backward cursor limit rows).map EventRow.id =
      if backward then
        Keyset.backward id order.Before
          (Keyset.arrange id order.Before (rows.map EventRow.id)) cursor limit
      else
        Keyset.forward id order.Before
          (Keyset.arrange id order.Before (rows.map EventRow.id)) cursor limit := by
  have harr : (orderById order rows).map EventRow.id =
      Keyset.arrange id order.Before (rows.map EventRow.id) := Keyset.arrange_map h
  cases backward with
  | true =>
    simp only [window, if_true, ← harr]
    exact Keyset.backward_map _ cursor limit
  | false =>
    simp only [window, Bool.false_eq_true, if_false, ← harr]
    exact Keyset.forward_map _ cursor limit

theorem map_pageWindow (rd : Reader) (query : EventQuery) (db : Db) :
    (pageWindow rd query db).map EventRow.id =
      idWindow query (normaliseLimit rd.maxLimit query.limit)
        ((matchingRows rd.text query db).map EventRow.id) :=
  map_window _ _ _ _ (nodup_matchingRows rd.text query db)

def sqliteStore (rd : Reader) : EventStore Db where
  stored := Db.storedIds
  matching q db := (matchingRows rd.text q db).map EventRow.id
  normaliseLimit := normaliseLimit rd.maxLimit
  queryEvents q db p := ∃ cache, (queryEvents rd q db cache).1 = .ok p
  distinct q db := nodup_matchingRows rd.text q db
  isStored q db id hid := by
    obtain ⟨row, hrow, rfl⟩ := List.mem_map.mp hid
    obtain ⟨t, ht, hmem, -⟩ := mem_matchingRows.mp hrow
    exact mem_storedIds.mpr ⟨t, ht, row, hmem, rfl⟩
  matching_filter _ _ := rfl
  limit_pos := normaliseLimit_pos rd.maxLimit
  window := by
    intro q db p h
    obtain ⟨cache, h⟩ := h
    obtain ⟨hev, hnext, hprev⟩ := queryEvents_ok h
    rw [← map_pageWindow, map_id_of_mapM hev, hnext, hprev, Keyset.next_map, Keyset.prev_map]
    exact ⟨rfl, rfl, rfl⟩

theorem sqliteStore_answers {rd : Reader} {query : EventQuery} {db : Db} {events : List LensEvent}
    (h : CanAnswer rd query db) (hread : (pageWindow rd query db).page.mapM rowToEvent = some events) :
    ∃ total estimate, (sqliteStore rd).queryEvents query db
      { events := events
        nextCursor := (pageWindow rd query db).next EventRow.id
        prevCursor := (pageWindow rd query db).prev EventRow.id
        total := total
        totalIsEstimate := estimate } := by
  obtain ⟨count, heq⟩ := queryEvents_eq h []
  refine ⟨count.1, count.2, [], ?_⟩
  rw [heq]
  simp only [RowPage.toEventPage, hread]

end SorobanLens
