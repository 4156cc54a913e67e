import SorobanLens.Store.RowInvariant
import SorobanLens.Store.Stability

/-!
Inserting as a query sees it: rows are added at the end of the table, the rows there
were match what they matched, and no table comes or goes.
-/

set_option autoImplicit false

namespace SorobanLens

structure Db.Grown (db db' : Db) : Prop where
  frame : db.SameFrame db'
  hasEvents : db'.events.isSome = db.events.isSome
  hasAddresses : db'.eventAddresses.isSome = db.eventAddresses.isSome
  hasFts : db'.eventsFts.isSome = db.eventsFts.isSome
  rows : ∀ t t', db.events = some t → db'.events = some t' → ∃ added, t'.rows = t.rows ++ added
  holds : ∀ (tm : TextMatch) t, db.events = some t → ∀ row ∈ t.rows, ∀ c : Condition,
    c.holds tm db' row = c.holds tm db row

theorem Db.Grown.refl (db : Db) : db.Grown db where
  frame := .refl db
  hasEvents := rfl
  hasAddresses := rfl
  hasFts := rfl
  rows := by
    intro t t' ht ht'
    rw [ht, Option.some.injEq] at ht'
    exact ⟨[], by simp [ht']⟩
  holds := fun _ _ _ _ _ _ => rfl

theorem Db.Grown.trans {a b c : Db} (h : a.Grown b) (g : b.Grown c) : a.Grown c where
  frame := h.frame.trans g.frame
  hasEvents := g.hasEvents.trans h.hasEvents
  hasAddresses := g.hasAddresses.trans h.hasAddresses
  hasFts := g.hasFts.trans h.hasFts
  rows := by
    intro t t'' ht ht''
    have hsome : b.events.isSome = true := by rw [h.hasEvents, ht]; rfl
    obtain ⟨t', ht'⟩ := Option.isSome_iff_exists.mp hsome
    obtain ⟨more, hmore⟩ := h.rows t t' ht ht'
    obtain ⟨added, hadded⟩ := g.rows t' t'' ht' ht''
    exact ⟨more ++ added, by rw [hadded, hmore, List.append_assoc]⟩
  holds := by
    intro tm t ht row hrow c
    have hsome : b.events.isSome = true := by rw [h.hasEvents, ht]; rfl
    obtain ⟨t', ht'⟩ := Option.isSome_iff_exists.mp hsome
    obtain ⟨more, hmore⟩ := h.rows t t' ht ht'
    have hrow' : row ∈ t'.rows := by simp [hmore, hrow]
    rw [g.holds tm t' ht' row hrow' c, h.holds tm t ht row hrow c]

section Inserting

variable {rt : Runtime} {build : SqliteBuild} {db db' : Db}

theorem grown_insertOne {e : LensEvent} {n : Nat} (h : insertOne rt build e db = .ok (n, db')) :
    db.Grown db' := by
  obtain ⟨t, ht, ⟨-, rfl, -⟩ | ⟨-, -, hid, hins⟩⟩ := insertOne_ok h
  · exact .refl _
  · obtain ⟨a, ha, ha'⟩ := hins.addresses
    refine ⟨hins.frame, by simp [ht, hins.events], by simp [ha, ha'], hins.fts.isSome, ?_, ?_⟩
    · intro u u' hu hu'
      rw [ht, Option.some.injEq] at hu
      rw [hins.events, Option.some.injEq] at hu'
      subst hu hu'
      exact ⟨_, KeyedTable.rows_insertOrIgnore_of_not_has hid⟩
    · intro tm u hu row hrow
      rw [ht, Option.some.injEq] at hu
      subst hu
      have hne : row.id ≠ e.id := KeyedTable.not_has_iff.mp hid row hrow
      refine holds_congr ?_ ?_
      · intro r hr
        exact mem_indexedAddresses_insert hins (hr ▸ hne)
      · intro f hf
        exact mem_fts_insert hins (hf ▸ hne)

theorem grown_insertDecoded (rt : Runtime) (build : SqliteBuild) (es : List LensEvent) (db : Db) :
    db.Grown (insertDecoded rt build es db).2 := by
  cases h : insertDecoded rt build es db with
  | mk r db' =>
    rcases insertDecoded_cases h with ⟨n, -, hb⟩ | ⟨e, -, rfl⟩
    · exact insertBatch_induct (P := fun d => db.Grown d)
        (fun e m mid mid' hp hstep => hp.trans (grown_insertOne hstep)) (.refl db) hb
    · exact .refl _

theorem grown_insertEvents (rt : Runtime) (build : SqliteBuild) (now : Nat → String)
    (events : List RawEvent) (db : Db) : db.Grown (insertEvents rt build now events db).2 :=
  grown_insertDecoded rt build _ db

end Inserting

namespace Db.Grown

variable {db db' : Db} (h : db.Grown db')

include h

theorem storedIds : ∃ added, db'.storedIds = db.storedIds ++ added := by
  unfold Db.storedIds
  cases ht : db.events with
  | none =>
    have hnone := h.hasEvents
    rw [ht] at hnone
    simp [Option.not_isSome_iff_eq_none.mp (by simpa using hnone)]
  | some t =>
    have hsome : db'.events.isSome = true := by rw [h.hasEvents, ht]; rfl
    obtain ⟨t', ht'⟩ := Option.isSome_iff_exists.mp hsome
    obtain ⟨added, hadded⟩ := h.rows t t' ht ht'
    exact ⟨added.map EventRow.id, by simp [ht', hadded]⟩

theorem prepare {build : SqliteBuild} {c : Condition} :
    c.prepare build db' = .ok () ↔ c.prepare build db = .ok () := by
  cases c with
  | search phrase =>
    simp only [Condition.prepare, map_eq_ok, fts_ok]
    have hf := h.hasFts
    cases hdb : db.eventsFts <;> cases hdb' : db'.eventsFts <;> simp_all
  | address v =>
    simp only [Condition.prepare, map_eq_ok, addressTable_ok]
    have ha := h.hasAddresses
    cases hdb : db.eventAddresses <;> cases hdb' : db'.eventAddresses <;> simp_all
  | _ => rfl

theorem matchingRows (tm : TextMatch) (query : EventQuery) :
    ∃ more, SorobanLens.matchingRows tm query db' = SorobanLens.matchingRows tm query db ++ more ∧
      ∀ row ∈ more, row.id ∉ db.storedIds := by
  cases ht : db.events with
  | none =>
    have hnone := h.hasEvents
    rw [ht] at hnone
    have ht' : db'.events = none := Option.not_isSome_iff_eq_none.mp (by simpa using hnone)
    exact ⟨[], by simp [SorobanLens.matchingRows, ht, ht'], by simp⟩
  | some t =>
    have hsome : db'.events.isSome = true := by rw [h.hasEvents, ht]; rfl
    obtain ⟨t', ht'⟩ := Option.isSome_iff_exists.mp hsome
    obtain ⟨added, hadded⟩ := h.rows t t' ht ht'
    have hold : t.rows.filter (matchesAll tm db' (buildWhere query)) =
        t.rows.filter (matchesAll tm db (buildWhere query)) :=
      List.filter_congr (fun row hrow => matchesAll_congr (h.holds tm t ht row hrow) _)
    refine ⟨added.filter (matchesAll tm db' (buildWhere query)), ?_, ?_⟩
    · simp [SorobanLens.matchingRows, ht, ht', hadded, hold]
    · intro row hrow hstored
      obtain ⟨u, hu, other, hother, hid⟩ := mem_storedIds.mp hstored
      rw [ht, Option.some.injEq] at hu
      subst hu
      have hnodup := t'.nodup
      rw [hadded, List.map_append] at hnodup
      exact (List.nodup_append.mp hnodup).2.2 other.id (List.mem_map_of_mem hother) row.id
        (List.mem_map_of_mem (List.mem_of_mem_filter hrow)) hid

theorem canAnswer {rd : Reader} {query : EventQuery} :
    CanAnswer rd query db' ↔ CanAnswer rd query db := by
  unfold CanAnswer
  simp only [h.hasEvents, h.prepare]

end Db.Grown

/-! ### What is out of a page's reach -/

def EventQuery.scanOrder (query : EventQuery) : Order :=
  if query.isBackward then query.resultOrder.flip else query.resultOrder

def EventQuery.pastCursor (query : EventQuery) (id : String) : Bool :=
  match given query.cursor with
  | some c => decide (query.scanOrder.Before c id)
  | none => true

/-- Of the matching ids, the one given stands among the first `limit` past the cursor. -/
def EventQuery.OnPage (query : EventQuery) (limit : Nat) (ids : List String) (x : String) : Prop :=
  query.pastCursor x = true ∧
    Keyset.rank id query.scanOrder.Before (ids.filter query.pastCursor) x < limit

/-- One more matching id would move neither the page nor a cursor: it comes after a
full page that is not the last, or joins others on the cursor's other side. -/
def EventQuery.OutOfReach (query : EventQuery) (limit : Nat) (ids : List String) (x : String) :
    Prop :=
  if query.pastCursor x then
    limit < (ids.filter query.pastCursor).length ∧
      limit ≤ Keyset.rank id query.scanOrder.Before (ids.filter query.pastCursor) x
  else ids.filter query.pastCursor = [] ∨ ∃ y ∈ ids, query.pastCursor y = false

section Page

variable (query : EventQuery) (limit : Nat)

def scanned (rows : List EventRow) : List EventRow :=
  (orderById query.scanOrder (rows.filter (fun row => query.pastCursor row.id))).take limit

/-- The id of the first scanned row, when a matching row lies on its other side. -/
def nearCursor (rows : List EventRow) : Option String :=
  ((scanned query limit rows).head?.map EventRow.id).filter
    (fun first => rows.any (fun row => decide (query.scanOrder.Before row.id first)))

def farCursor (rows : List EventRow) : Option String :=
  if limit < (rows.filter (fun row => query.pastCursor row.id)).length then
    (scanned query limit rows).getLast?.map EventRow.id
  else none

theorem past_forward (hb : query.isBackward = false) :
    Keyset.past EventRow.id query.resultOrder.Before (given query.cursor) =
      fun row => query.pastCursor row.id := by
  funext row
  unfold Keyset.past EventQuery.pastCursor EventQuery.scanOrder
  rw [hb, if_neg (by decide)]
  cases given query.cursor <;> rfl

theorem short_backward (hb : query.isBackward = true) :
    Keyset.short EventRow.id query.resultOrder.Before (given query.cursor) =
      fun row => query.pastCursor row.id := by
  funext row
  unfold Keyset.short EventQuery.pastCursor EventQuery.scanOrder
  rw [hb, if_pos rfl]
  cases given query.cursor with
  | none => rfl
  | some c => cases query.resultOrder <;> rfl

theorem existsBeyond_scan (rows : List EventRow) (first : String) :
    existsBeyond rows (if query.isBackward then
      (if query.resultOrder = .desc then CompareOp.lt else .gt)
      else (if query.resultOrder = .desc then CompareOp.gt else .lt)) first =
      rows.any (fun row => decide (query.scanOrder.Before row.id first)) := by
  unfold existsBeyond EventQuery.scanOrder
  cases query.isBackward <;> cases query.resultOrder <;> rfl

theorem keysetPage_scan (rows : List EventRow) :
    keysetPage query.resultOrder query.isBackward (given query.cursor) limit rows =
      if query.isBackward then
        ⟨(scanned query limit rows).reverse, nearCursor query limit rows, farCursor query limit rows⟩
      else ⟨scanned query limit rows, farCursor query limit rows, nearCursor query limit rows⟩ := by
  have hlen : (orderById query.scanOrder (rows.filter (fun row => query.pastCursor row.id))).length =
      (rows.filter (fun row => query.pastCursor row.id)).length :=
    (List.perm_insertionSort _ _).length_eq
  have hmore : limit < ((orderById query.scanOrder
      (rows.filter (fun row => query.pastCursor row.id))).take (limit + 1)).length ↔
        limit < (rows.filter (fun row => query.pastCursor row.id)).length := by
    rw [List.length_take, hlen]
    omega
  have hpage := Keyset.page_of_probe
    (orderById query.scanOrder (rows.filter (fun row => query.pastCursor row.id))) limit
  simp only [hmore] at hpage
  have hbeyond := funext (existsBeyond_scan query rows)
  cases hb : query.isBackward with
  | false =>
    have hscan : query.scanOrder = query.resultOrder := by simp [EventQuery.scanOrder, hb]
    rw [hb] at hbeyond
    rw [hscan] at hmore hpage
    simp only [keysetPage, Bool.false_eq_true, if_false, inKeyset_forward, past_forward query hb,
      decide_eq_true_eq, scanned, nearCursor, farCursor, hscan, hmore, hpage]
    simp only [Bool.false_eq_true, if_false, hscan] at hbeyond
    rw [hbeyond]
  | true =>
    have hscan : query.scanOrder = query.resultOrder.flip := by simp [EventQuery.scanOrder, hb]
    rw [hb] at hbeyond
    rw [hscan] at hmore hpage
    simp only [keysetPage, if_true, inKeyset_backward, short_backward query hb,
      decide_eq_true_eq, scanned, nearCursor, farCursor, hscan, hmore, hpage,
      List.getLast?_reverse, List.head?_reverse]
    simp only [if_true, hscan] at hbeyond
    rw [hbeyond]

theorem rank_ids (rows : List EventRow) (x : String) :
    Keyset.rank id query.scanOrder.Before ((rows.map EventRow.id).filter query.pastCursor) x =
      Keyset.rank EventRow.id query.scanOrder.Before
        (rows.filter (fun row => query.pastCursor row.id)) x := by
  simp only [Keyset.rank, List.filter_map, List.length_map]
  rfl

theorem length_ids (rows : List EventRow) :
    ((rows.map EventRow.id).filter query.pastCursor).length =
      (rows.filter (fun row => query.pastCursor row.id)).length := by
  simp only [List.filter_map, List.length_map]
  rfl

theorem mem_scanned_iff {rows : List EventRow} (h : (rows.map EventRow.id).Nodup) {row : EventRow}
    (hrow : row ∈ rows) :
    row ∈ scanned query limit rows ↔ query.OnPage limit (rows.map EventRow.id) row.id := by
  have hasc := ascending_orderById (Keyset.nodup_filter h (fun row => query.pastCursor row.id))
    query.scanOrder
  unfold scanned EventQuery.OnPage
  rw [rank_ids]
  constructor
  · intro hmem
    have hin := Keyset.mem_arrange.mp (List.mem_of_mem_take hmem)
    refine ⟨(List.mem_filter.mp hin).2, ?_⟩
    rw [← Keyset.rank_arrange]
    exact (Keyset.mem_take_iff_rank hasc (List.mem_of_mem_take hmem)).mp hmem
  · intro hpage
    rw [← Keyset.rank_arrange] at hpage
    refine (Keyset.mem_take_iff_rank hasc ?_).mpr hpage.2
    exact Keyset.mem_arrange.mpr (List.mem_filter.mpr ⟨hrow, hpage.1⟩)

variable {query limit} {rows more : List EventRow}

theorem before_of_not_past {x y : String} (hy : query.pastCursor y = false)
    (hx : query.pastCursor x = true) : query.scanOrder.Before y x := by
  unfold EventQuery.pastCursor at hy hx
  cases hc : given query.cursor with
  | none => simp [hc] at hy
  | some c =>
    simp only [hc, decide_eq_true_eq, decide_eq_false_iff_not] at hy hx
    rcases trichotomous_of query.scanOrder.Before y c with hlt | rfl | hgt
    · exact IsTrans.trans _ _ _ hlt hx
    · exact hx
    · exact absurd hgt hy

theorem scanned_append (h : ((rows ++ more).map EventRow.id).Nodup)
    (hlate : ∀ m ∈ more, query.OutOfReach limit (rows.map EventRow.id) m.id) :
    scanned query limit (rows ++ more) = scanned query limit rows := by
  unfold scanned
  rw [List.filter_append]
  refine Keyset.take_arrange_append ?_ ?_
  · rw [← List.filter_append]
    exact Keyset.nodup_filter h _
  · intro m hm
    obtain ⟨hmem, hpast⟩ := List.mem_filter.mp hm
    have hreach := hlate m hmem
    unfold EventQuery.OutOfReach at hreach
    rw [if_pos hpast, rank_ids] at hreach
    exact hreach.2

theorem farCursor_append (h : ((rows ++ more).map EventRow.id).Nodup)
    (hlate : ∀ m ∈ more, query.OutOfReach limit (rows.map EventRow.id) m.id) :
    farCursor query limit (rows ++ more) = farCursor query limit rows := by
  unfold farCursor
  rw [scanned_append h hlate, List.filter_append, List.length_append]
  cases hmore : more.filter (fun row => query.pastCursor row.id) with
  | nil => simp
  | cons m late =>
    have hm : m ∈ more.filter (fun row => query.pastCursor row.id) := by simp [hmore]
    obtain ⟨hmem, hpast⟩ := List.mem_filter.mp hm
    have hreach := hlate m hmem
    unfold EventQuery.OutOfReach at hreach
    rw [if_pos hpast, length_ids] at hreach
    rw [if_pos hreach.1, if_pos (by omega)]

theorem nearCursor_append (h : ((rows ++ more).map EventRow.id).Nodup)
    (hlate : ∀ m ∈ more, query.OutOfReach limit (rows.map EventRow.id) m.id) :
    nearCursor query limit (rows ++ more) = nearCursor query limit rows := by
  have hrows : (rows.map EventRow.id).Nodup := by
    rw [List.map_append] at h
    exact (List.nodup_append.mp h).1
  have hasc := ascending_orderById (Keyset.nodup_filter hrows (fun row => query.pastCursor row.id))
    query.scanOrder
  unfold nearCursor
  rw [scanned_append h hlate]
  cases hfirst : (scanned query limit rows).head? with
  | none => rfl
  | some first =>
    have hmem : first ∈ scanned query limit rows := List.mem_of_mem_head? hfirst
    have hahead : first ∈ rows.filter (fun row => query.pastCursor row.id) :=
      Keyset.mem_arrange.mp (List.mem_of_mem_take hmem)
    have hany : more.any (fun row => decide (query.scanOrder.Before row.id first.id)) = true →
        rows.any (fun row => decide (query.scanOrder.Before row.id first.id)) = true := by
      intro hmore
      obtain ⟨m, hm, hbefore⟩ := List.any_eq_true.mp hmore
      have hbefore := of_decide_eq_true hbefore
      have hreach := hlate m hm
      unfold EventQuery.OutOfReach at hreach
      split at hreach
      · -- a late row past the cursor comes after the whole page
        rw [rank_ids] at hreach
        have hafter := Keyset.before_of_mem_take hasc (n := limit) (k := m.id) (by
          unfold orderById
          rw [Keyset.rank_arrange]
          exact hreach.2) hmem
        exact absurd hbefore (asymm hafter)
      · rcases hreach with hempty | ⟨y, hy, hpast⟩
        · have hlen := length_ids query rows
          rw [hempty, List.length_nil] at hlen
          rw [List.length_eq_zero_iff.mp hlen.symm] at hahead
          cases hahead
        · obtain ⟨row, hrow, rfl⟩ := List.mem_map.mp hy
          refine List.any_eq_true.mpr ⟨row, hrow, decide_eq_true ?_⟩
          exact before_of_not_past hpast (List.mem_filter.mp hahead).2
    simp only [Option.map_some, Option.filter_some, List.any_append, Bool.or_eq_true]
    by_cases hold : rows.any (fun row => decide (query.scanOrder.Before row.id first.id)) = true
    · simp [hold]
    · have hnew := mt hany hold
      simp [hold, hnew]

/-- Rows out of reach leave the page and its cursors. -/
theorem keysetPage_append (h : ((rows ++ more).map EventRow.id).Nodup)
    (hlate : ∀ m ∈ more, query.OutOfReach limit (rows.map EventRow.id) m.id) :
    keysetPage query.resultOrder query.isBackward (given query.cursor) limit (rows ++ more) =
      keysetPage query.resultOrder query.isBackward (given query.cursor) limit rows := by
  rw [keysetPage_scan, keysetPage_scan, scanned_append h hlate, farCursor_append h hlate,
    nearCursor_append h hlate]

end Page

/-! ### Answers of a file with a history -/

theorem exists_mapM_of_readable {rows : List EventRow} (h : ∀ row ∈ rows, row.Readable) :
    ∃ events, rows.mapM rowToEvent = some events := by
  induction rows with
  | nil => exact ⟨[], rfl⟩
  | cons row rows ih =>
    obtain ⟨e, he⟩ := h row List.mem_cons_self
    obtain ⟨es, hes⟩ := ih (fun row hrow => h row (List.mem_cons_of_mem _ hrow))
    exact ⟨e :: es, by simp [List.mapM_cons, he, hes]⟩

def rowPage (rd : Reader) (query : EventQuery) (db : Db) : RowPage :=
  keysetPage query.resultOrder query.isBackward (given query.cursor)
    (normaliseLimit rd.maxLimit query.limit) (matchingRows rd.text query db)

theorem rowPage_eq (rd : Reader) (query : EventQuery) (db : Db) :
    rowPage rd query db =
      { rows := (pageWindow rd query db).page
        nextCursor := (pageWindow rd query db).next EventRow.id
        prevCursor := (pageWindow rd query db).prev EventRow.id } :=
  keysetPage_eq (nodup_matchingRows rd.text query db) _ _ _ _

theorem queryEvents_rowPage {rd : Reader} {query : EventQuery} {db : Db} {cache : CountCache}
    {p : EventPage} (h : (queryEvents rd query db cache).1 = .ok p) :
    (rowPage rd query db).rows.mapM rowToEvent = some p.events ∧
      p.nextCursor = (rowPage rd query db).nextCursor ∧
      p.prevCursor = (rowPage rd query db).prevCursor := by
  rw [rowPage_eq]
  exact queryEvents_ok h

theorem mem_rowPage {rd : Reader} {query : EventQuery} {db : Db} {row : EventRow} :
    row ∈ (rowPage rd query db).rows ↔ row ∈ matchingRows rd.text query db ∧
      query.OnPage (normaliseLimit rd.maxLimit query.limit)
        ((matchingRows rd.text query db).map EventRow.id) row.id := by
  have hscan : row ∈ (rowPage rd query db).rows ↔
      row ∈ scanned query (normaliseLimit rd.maxLimit query.limit) (matchingRows rd.text query db) := by
    unfold rowPage
    rw [keysetPage_scan]
    cases query.isBackward <;> simp
  rw [hscan]
  constructor
  · intro hmem
    have hin := (List.mem_filter.mp (Keyset.mem_arrange.mp (List.mem_of_mem_take hmem))).1
    exact ⟨hin, (mem_scanned_iff _ _ (nodup_matchingRows _ _ _) hin).mp hmem⟩
  · intro h
    exact (mem_scanned_iff _ _ (nodup_matchingRows _ _ _) h.1).mpr h.2

/-- A query with its tables there is answered: every row of the file reads back. -/
theorem Db.Reached.queryEvents_ok {db : Db} (hr : db.Reached) {rd : Reader} {query : EventQuery}
    (h : CanAnswer rd query db) (cache : CountCache) :
    ∃ p, (SorobanLens.queryEvents rd query db cache).1 = .ok p := by
  have hread : ∀ row ∈ (rowPage rd query db).rows, row.Readable := by
    intro row hrow
    obtain ⟨t, ht, hmem, -⟩ := mem_matchingRows.mp (mem_rowPage.mp hrow).1
    exact hr.readable.rows ht row hmem
  obtain ⟨events, hevents⟩ := exists_mapM_of_readable hread
  rw [rowPage_eq] at hevents
  obtain ⟨p, hp, -⟩ := queryEvents_of_readable h hevents cache
  exact ⟨p, hp⟩

end SorobanLens
