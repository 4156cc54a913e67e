import SorobanLens.Api.Csv
import SorobanLens.Api.Params
import SorobanLens.Store.Paging

/-!
The streamed CSV export: the caller's query is issued again and again, each time
from the last page's `nextCursor`, also when the query reads backward.
-/

set_option autoImplicit false

namespace SorobanLens

/-! ### Caps -/

/-- A cap on a count; `none` is no cap. -/
abbrev Cap := Option Nat

namespace Cap

def number : Cap → JsNumber
  | none => .posInf
  | some n => .ofNat n

def clip : Cap → Nat → Nat
  | none, n => n
  | some c, n => min c n

def spend (cap : Cap) (n : Nat) : Cap := cap.map (· - n)

def take {α : Type} : Cap → List α → List α
  | none, xs => xs
  | some c, xs => xs.take c

def rtake {α : Type} : Cap → List α → List α
  | none, xs => xs
  | some c, xs => xs.rtake c

theorem take_of_length_le {α : Type} {cap : Cap} {n : Nat} {xs : List α}
    (h : xs.length ≤ cap.clip n) : cap.take xs = xs := by
  cases cap with
  | none => rfl
  | some c =>
    simp only [clip] at h
    exact List.take_of_length_le (by omega)

theorem take_sublist {α : Type} (cap : Cap) (xs : List α) : (cap.take xs).Sublist xs := by
  cases cap with
  | none => exact List.Sublist.refl _
  | some c => exact List.take_sublist _ _

end Cap

/-! ### Pages that slide by one -/

def SlidesApart {α : Type} (n : Nat) (cap : Cap) (xs : List α) : Prop :=
  xs.length ≤ 1 ∨ n = 1 ∨ ∃ c, cap = some c ∧ c ≤ n ∧ c ≤ xs.length

def PagedStore.maxLimit : PagedStore → MaxQueryLimit
  | .sqlite rd _ => rd.maxLimit
  | .postgres rd _ => rd.maxLimit

def csvPageSize (max : MaxQueryLimit) : Nat := min 500 max.val

/-- The caller's query for one page: its limit is the page's, and its cursor gives
way to one from a page before. -/
def exportQuery (max : MaxQueryLimit) (query : EventQuery) (remaining : JsNumber)
    (cursor : Option String) : EventQuery :=
  { query with
    limit := some (JsNumber.min remaining (.ofNat (csvPageSize max)))
    cursor := if (given cursor).isSome then cursor else query.cursor }

/-- Every event matching `query`, a page at a time. `caches` is what the count cache
holds when a query is made, and `none` says that the turns ran out. -/
def eachEventPage (s : PagedStore) (query : EventQuery) (caches : Nat → CountCache) :
    Nat → JsNumber → Option String → Option (Except StoreError (List LensEvent))
  | 0, _, _ => none
  | turns + 1, remaining, cursor =>
    if JsNumber.lt (.ofNat 0) remaining then
      match s.queryEvents (exportQuery s.maxLimit query remaining cursor) (caches turns) with
      | .error e => some (.error e)
      | .ok page =>
        match given page.nextCursor with
        | none => some (.ok page.events)
        | some next =>
          (eachEventPage s query caches turns
            (JsNumber.add remaining (JsNumber.neg (.ofNat page.events.length))) (some next)).map
              (fun rest => rest.map (fun events => page.events ++ events))
    else some (.ok [])

def exportEvents (s : PagedStore) (query : EventQuery) (caches : Nat → CountCache) (turns : Nat) :
    Option (Except StoreError (List LensEvent)) :=
  eachEventPage s query caches turns (query.limit.getD .posInf) query.cursor

namespace PagedStore

/-- The store answers the query, and every match serves as a cursor. -/
structure Answers (s : PagedStore) (query : EventQuery) : Prop where
  accepts : s.Accepts query
  searchWhole : query.SearchWhole
  cursorBinds : s.CursorBinds query
  reads : ∀ row ∈ s.matching query, ∃ e, rowToEvent row = some e
  idsWhole : ∀ row ∈ s.matching query, Whole row.id

def ordered (s : PagedStore) (query : EventQuery) : List EventRow :=
  orderById query.resultOrder (s.matching query)

variable {s : PagedStore} {query : EventQuery} {rows : List EventRow}

theorem Answers.mapM (h : s.Answers query) {rows : List EventRow}
    (hrows : ∀ row ∈ rows, row ∈ s.matching query) : ∃ events, rows.mapM rowToEvent = some events := by
  induction rows with
  | nil => exact ⟨[], rfl⟩
  | cons row rows ih =>
    obtain ⟨e, he⟩ := h.reads row (hrows row List.mem_cons_self)
    obtain ⟨events, hevents⟩ := ih (fun r hr => hrows r (List.mem_cons_of_mem _ hr))
    exact ⟨e :: events, by simp [he, hevents]⟩

theorem normaliseLimit_ofNat {max : MaxQueryLimit} {n : Nat} (hn : 1 ≤ n) (hmax : n ≤ max.val) :
    normaliseLimit max (some (.ofNat n)) = n := by
  have htrunc : JsNumber.truncate ((n : Nat) : ℚ) = n := by simp [JsNumber.truncate]
  simp only [normaliseLimit, JsNumber.ofNat, htrunc]
  omega

def nearest (s : PagedStore) (query : EventQuery) (cursor : Option String) : List EventRow :=
  ((s.ordered query).filter (Keyset.short EventRow.id query.resultOrder.Before (given cursor))).reverse

def HasBeyond (s : PagedStore) (query : EventQuery) (cursor : Option String) : Prop :=
  ∃ row ∈ s.matching query,
    Keyset.short EventRow.id query.resultOrder.Before (given cursor) row = false

def cap (query : EventQuery) : Cap := query.limit.map JsNumber.floorNat

/-- The matching rows on the side of the cursor that is read, or the first of them in
scan direction, in the order of the query. -/
def requested (s : PagedStore) (query : EventQuery) : List EventRow :=
  if query.isBackward then
    (cap query).rtake ((s.ordered query).filter
      (Keyset.short EventRow.id query.resultOrder.Before (given query.cursor)))
  else
    (cap query).take ((s.ordered query).filter
      (Keyset.past EventRow.id query.resultOrder.Before (given query.cursor)))

def StopsAtEmptyId (s : PagedStore) (query : EventQuery) : Prop :=
  csvPageSize s.maxLimit = 1 ∧ query.limit = none ∧ query.resultOrder = .asc ∧
    given query.cursor = none ∧ (∃ row ∈ s.matching query, row.id = "") ∧
    2 ≤ (s.matching query).length

def PagesApart (s : PagedStore) (query : EventQuery) : Prop :=
  (query.isBackward = true → s.HasBeyond query query.cursor →
    SlidesApart (csvPageSize s.maxLimit) (cap query) (s.nearest query query.cursor)) ∧
  (query.isBackward = true → ¬ s.HasBeyond query query.cursor →
    (s.nearest query query.cursor).length ≤ csvPageSize s.maxLimit ∨
      ∃ c, cap query = some c ∧ c ≤ csvPageSize s.maxLimit) ∧
  (query.isBackward = false → ¬ s.StopsAtEmptyId query)

structure Exported (s : PagedStore) (query : EventQuery) (rows : List EventRow) : Prop where
  reads : ∀ caches turns, (s.matching query).length < turns → ∃ events,
    exportEvents s query caches turns = some (.ok events) ∧ rows.mapM rowToEvent = some events
  perm : s.PagesApart query → rows.Perm (s.requested query)
  apart : rows.Nodup → rows.length = (s.requested query).length → s.PagesApart query

end PagedStore

end SorobanLens
