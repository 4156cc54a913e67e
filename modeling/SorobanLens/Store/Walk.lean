import SorobanLens.Store.Stability
import SorobanLens.Store.Operations
import Mathlib.Data.List.Perm.Subperm

/-!
A forward walk through the pages of a query, with inserts and prunes between
them: each page is read from the store of its moment.
-/

set_option autoImplicit false

namespace SorobanLens

inductive WalkStatus where
  | walking
  | finished
  | failed
  deriving DecidableEq

structure Walk (σ : Type) where
  store : σ
  past : List σ
  cursor : Option String
  yielded : List String
  status : WalkStatus

def EventQuery.resume (query : EventQuery) (cursor : Option String) : EventQuery :=
  { query with cursor := cursor }

namespace Walk

variable {σ : Type}

def stores (w : Walk σ) : List σ := w.store :: w.past

def start (query : EventQuery) (s : σ) : Walk σ := ⟨s, [], query.cursor, [], .walking⟩

def landed (w : Walk σ) (p : EventPage) : Walk σ :=
  { w with
    cursor := p.nextCursor
    yielded := w.yielded ++ p.events.map LensEvent.id
    status := if p.nextCursor.isSome then .walking else .finished }

def moved (w : Walk σ) (t : σ) : Walk σ := { w with store := t, past := w.store :: w.past }

inductive Step (E : EventStore σ) (query : EventQuery) : Walk σ → Walk σ → Prop
  | page {w : Walk σ} {p : EventPage} (hw : w.status = .walking)
      (h : E.queryEvents (query.resume w.cursor) w.store p) : Step E query w (w.landed p)
  | fail {w : Walk σ} (hw : w.status = .walking) : Step E query w { w with status := .failed }
  | insert {w : Walk σ} {t : σ} (hw : w.status = .walking) (h : E.Inserted w.store t) :
      Step E query w (w.moved t)
  | prune {w : Walk σ} {t : σ} (hw : w.status = .walking) (h : E.Pruned w.store t) :
      Step E query w (w.moved t)

end Walk

namespace EventStore

variable {σ : Type} (E : EventStore σ) (query : EventQuery)

/-- The matching ids past a cursor, in the order of the query. -/
def ahead (cursor : Option String) (s : σ) : List String :=
  (Keyset.arrange id query.resultOrder.Before (E.matching query s)).filter
    (Keyset.past id query.resultOrder.Before (given cursor))

def Usable (s : σ) : Prop := query.resultOrder = .asc → "" ∉ E.stored s

variable {E query} {s t : σ} {cursor : Option String} {p : EventPage}

theorem matching_resume (cursor : Option String) :
    E.matching (query.resume cursor) s = E.matching query s := by
  rw [E.matching_filter, E.matching_filter query]
  rfl

theorem ascending_arranged : Keyset.Ascending id query.resultOrder.Before
    (Keyset.arrange id query.resultOrder.Before (E.matching query s)) := by
  refine Keyset.ascending_arrange ?_
  rw [List.map_id]
  exact E.distinct query s

theorem mem_ahead {x : String} : x ∈ E.ahead query cursor s ↔ x ∈ E.matching query s ∧
    Keyset.past id query.resultOrder.Before (given cursor) x = true := by
  simp only [ahead, List.mem_filter, Keyset.mem_arrange]

theorem ahead_pairwise : (E.ahead query cursor s).Pairwise query.resultOrder.Before :=
  ascending_arranged.filter _

theorem nodup_of_before {xs : List String} (h : xs.Pairwise query.resultOrder.Before) : xs.Nodup := by
  refine List.Pairwise.imp ?_ h
  intro a b hab heq
  subst heq
  exact irrefl a hab

theorem idWindow_resume (hforward : query.isBackward = false) :
    idWindow (query.resume cursor) (E.normaliseLimit query.limit) (E.matching query s) =
      Keyset.forward id query.resultOrder.Before
        (Keyset.arrange id query.resultOrder.Before (E.matching query s)) (given cursor)
        (E.normaliseLimit query.limit) := by
  have hturn : (query.resume cursor).isBackward = false := hforward
  simp only [idWindow, hturn, Bool.false_eq_true, if_false]
  rfl

theorem page_ahead (h : E.queryEvents (query.resume cursor) s p) (hforward : query.isBackward = false) :
    p.events.map LensEvent.id = (E.ahead query cursor s).take (E.normaliseLimit query.limit) := by
  have hpage := (E.window h).1
  rw [matching_resume] at hpage
  exact hpage.trans (congrArg Keyset.Window.page (idWindow_resume hforward))

theorem past_iff {c : Option String} {x : String} :
    Keyset.past id query.resultOrder.Before (given c) x = true ↔
      ∀ k, given c = some k → query.resultOrder.Before k x := by
  cases given c <;> simp [Keyset.past]

theorem mem_last_page (h : E.queryEvents (query.resume cursor) s p)
    (hforward : query.isBackward = false) (hnone : p.nextCursor = none) {x : String}
    (hx : x ∈ E.ahead query cursor s) : x ∈ p.events.map LensEvent.id := by
  obtain ⟨hmem, hpast⟩ := mem_ahead.mp hx
  rw [← matching_resume cursor] at hmem
  exact page_complete h hforward hnone hmem (past_iff.mp hpast)

theorem ahead_next (h : E.queryEvents (query.resume cursor) s p)
    (hforward : query.isBackward = false) {d : String} (hd : p.nextCursor = some d) (hne : d ≠ "") :
    E.ahead query (some d) s = (E.ahead query cursor s).drop (E.normaliseLimit query.limit) := by
  have hlast := page_next h hforward hd
  rw [page_ahead h hforward] at hlast
  have harranged : Keyset.Ascending id query.resultOrder.Before
      (Keyset.arrange id query.resultOrder.Before (E.matching query s)) := ascending_arranged
  have hall := Keyset.forward_all harranged (given cursor) (E.normaliseLimit query.limit)
  have hcut := Keyset.filter_past_last (by rwa [hall]) hlast
  rw [hall] at hcut
  simp only [ahead, given_eq_some.mpr ⟨rfl, hne⟩]
  exact hcut

theorem next_ne_empty (h : E.queryEvents (query.resume cursor) s p)
    (hforward : query.isBackward = false) (hids : E.Usable query s) {d : String}
    (hd : p.nextCursor = some d) : d ≠ "" := by
  have hlast := List.mem_of_getLast? (page_next h hforward hd)
  rw [page_ahead h hforward] at hlast
  have hmem := (mem_ahead.mp (List.mem_of_mem_take hlast)).1
  intro hempty
  subst hempty
  cases horder : query.resultOrder with
  | asc => exact hids horder (E.isStored _ _ _ hmem)
  | desc =>
    -- nothing comes after the empty id, so a page that ends with it is the last
    have hnext := (E.window h).2.1
    rw [matching_resume, show (query.resume cursor).limit = query.limit from rfl,
      idWindow_resume hforward, hd] at hnext
    obtain ⟨-, -, -, hafter⟩ := Keyset.next_eq_some hnext.symm
    obtain ⟨y, hy⟩ := List.exists_mem_of_ne_nil _ hafter
    have hordered : (E.ahead query cursor s).Pairwise query.resultOrder.Before := ahead_pairwise
    have hcross := List.take_append_drop (E.normaliseLimit query.limit) (E.ahead query cursor s) ▸
      hordered
    have hbefore := (List.pairwise_append.mp hcross).2.2 "" hlast y hy
    rw [horder] at hbefore
    exact not_lt_empty y hbefore

theorem page_le_next (h : E.queryEvents (query.resume cursor) s p)
    (hforward : query.isBackward = false) {d : String} (hd : p.nextCursor = some d) {x : String}
    (hx : x ∈ p.events.map LensEvent.id) : x = d ∨ query.resultOrder.Before x d := by
  obtain ⟨ys, hys⟩ := List.getLast?_eq_some_iff.mp (page_next h hforward hd)
  have hasc : (p.events.map LensEvent.id).Pairwise query.resultOrder.Before := by
    rw [page_ahead h hforward]
    exact ahead_pairwise.sublist (List.take_sublist _ _)
  rw [hys] at hx hasc
  rcases List.mem_append.mp hx with hx | hx
  · exact .inr ((List.pairwise_append.mp hasc).2.2 x hx d List.mem_cons_self)
  · exact .inl (List.mem_singleton.mp hx)

end EventStore

namespace Walk

variable {σ : Type} {E : EventStore σ} {query : EventQuery} {w v : Walk σ}

structure Stable (E : EventStore σ) (query : EventQuery) (w : Walk σ) : Prop where
  ordered : w.yielded.Pairwise query.resultOrder.Before
  matched : ∀ x ∈ w.yielded, ∃ s ∈ w.stores, x ∈ E.matching query s
  fresh : ∀ x ∈ w.yielded, Keyset.past id query.resultOrder.Before (given query.cursor) x = true
  behind : w.status = .walking → ∀ x ∈ w.yielded, ∀ y,
    Keyset.past id query.resultOrder.Before (given w.cursor) y = true → query.resultOrder.Before x y
  onward : w.status = .walking → ∀ y,
    Keyset.past id query.resultOrder.Before (given w.cursor) y = true →
      Keyset.past id query.resultOrder.Before (given query.cursor) y = true
  settled : ∀ x, (∀ s ∈ w.stores, x ∈ E.stored s) →
    ∀ s ∈ w.stores, (x ∈ E.matching query s ↔ x ∈ E.matching query w.store)
  covered : w.status ≠ .failed → ∀ x, (∀ s ∈ w.stores, x ∈ E.stored s) →
    x ∈ E.matching query w.store →
    Keyset.past id query.resultOrder.Before (given query.cursor) x = true →
    x ∈ w.yielded ∨ (w.status = .walking ∧
      Keyset.past id query.resultOrder.Before (given w.cursor) x = true)

theorem stable_start (s : σ) : Stable E query (start query s) where
  ordered := .nil
  matched := by simp [start]
  fresh := by simp [start]
  behind := by simp [start]
  onward _ _ h := h
  settled x _ s hs := by
    obtain rfl : s = _ := by simpa [stores, start] using hs
    exact Iff.rfl
  covered _ x _ _ hpast := .inr ⟨rfl, hpast⟩

theorem Stable.moved (h : Stable E query w) {t : σ} (ht : E.Settled w.store t) :
    Stable E query (w.moved t) where
  ordered := h.ordered
  matched x hx := by
    obtain ⟨s, hs, hmem⟩ := h.matched x hx
    exact ⟨s, List.mem_cons_of_mem _ hs, hmem⟩
  fresh := h.fresh
  behind := h.behind
  onward := h.onward
  settled x hx s hs := by
    have hold : ∀ s ∈ w.stores, x ∈ E.stored s := fun s hs => hx s (List.mem_cons_of_mem _ hs)
    have hnow : x ∈ E.matching query t ↔ x ∈ E.matching query w.store :=
      ht query x (hold w.store List.mem_cons_self) (hx t List.mem_cons_self)
    cases hs with
    | head => exact Iff.rfl
    | tail _ hs => exact (h.settled x hold s hs).trans hnow.symm
  covered hw x hx hmem hpast := by
    have hold : ∀ s ∈ w.stores, x ∈ E.stored s := fun s hs => hx s (List.mem_cons_of_mem _ hs)
    have hnow : x ∈ E.matching query t ↔ x ∈ E.matching query w.store :=
      ht query x (hold w.store List.mem_cons_self) (hx t List.mem_cons_self)
    exact h.covered hw x hold (hnow.mp hmem) hpast

theorem Stable.fail (h : Stable E query w) : Stable E query { w with status := .failed } where
  ordered := h.ordered
  matched := h.matched
  fresh := h.fresh
  behind hw := by cases hw
  onward hw := by cases hw
  settled := h.settled
  covered hw := absurd rfl hw

theorem mem_page {p : EventPage} (hp : E.queryEvents (query.resume w.cursor) w.store p)
    (hforward : query.isBackward = false) {x : String} (hx : x ∈ p.events.map LensEvent.id) :
    x ∈ E.ahead query w.cursor w.store := by
  rw [E.page_ahead hp hforward] at hx
  exact List.mem_of_mem_take hx

theorem nextCursor_of_landed {p : EventPage} (h : (w.landed p).status = .walking) :
    ∃ d, p.nextCursor = some d := by
  refine Option.isSome_iff_exists.mp ?_
  by_contra hnone
  simp [landed, hnone] at h

theorem next_mem {p : EventPage} (hp : E.queryEvents (query.resume w.cursor) w.store p)
    (hforward : query.isBackward = false) {d : String} (hd : p.nextCursor = some d) :
    d ∈ p.events.map LensEvent.id := List.mem_of_getLast? (E.page_next hp hforward hd)

theorem past_next {p : EventPage} (hp : E.queryEvents (query.resume w.cursor) w.store p)
    (hforward : query.isBackward = false) (hids : E.Usable query w.store) {d y : String}
    (hd : p.nextCursor = some d)
    (hy : Keyset.past id query.resultOrder.Before (given (w.landed p).cursor) y = true) :
    query.resultOrder.Before d y := by
  have hne := E.next_ne_empty hp hforward hids hd
  refine EventStore.past_iff.mp hy d ?_
  simp only [landed, hd]
  exact given_eq_some.mpr ⟨rfl, hne⟩

theorem Stable.landed (h : Stable E query w) (hforward : query.isBackward = false)
    (hw : w.status = .walking) {p : EventPage} (hids : E.Usable query w.store)
    (hp : E.queryEvents (query.resume w.cursor) w.store p) : Stable E query (w.landed p) where
  ordered := by
    refine List.pairwise_append.mpr ⟨h.ordered, ?_, ?_⟩
    · rw [E.page_ahead hp hforward]
      exact E.ahead_pairwise.sublist (List.take_sublist _ _)
    · intro x hx y hy
      exact h.behind hw x hx y (E.mem_ahead.mp (mem_page hp hforward hy)).2
  matched x hx := by
    rcases List.mem_append.mp hx with hx | hx
    · exact h.matched x hx
    · exact ⟨w.store, List.mem_cons_self, (E.mem_ahead.mp (mem_page hp hforward hx)).1⟩
  fresh x hx := by
    rcases List.mem_append.mp hx with hx | hx
    · exact h.fresh x hx
    · exact h.onward hw x (E.mem_ahead.mp (mem_page hp hforward hx)).2
  behind hwalking x hx y hy := by
    obtain ⟨d, hd⟩ := nextCursor_of_landed hwalking
    have hdy : query.resultOrder.Before d y := past_next hp hforward hids hd hy
    rcases List.mem_append.mp hx with hx | hx
    · have hxd := h.behind hw x hx d (E.mem_ahead.mp (mem_page hp hforward (next_mem hp hforward hd))).2
      exact IsTrans.trans _ _ _ hxd hdy
    · rcases E.page_le_next hp hforward hd hx with rfl | hxd
      · exact hdy
      · exact IsTrans.trans _ _ _ hxd hdy
  onward hwalking y hy := by
    obtain ⟨d, hd⟩ := nextCursor_of_landed hwalking
    have hpast := (E.mem_ahead.mp (mem_page hp hforward (next_mem hp hforward hd))).2
    have hdy : query.resultOrder.Before (id d) (id y) := past_next hp hforward hids hd hy
    exact h.onward hw y (Keyset.past_mono hdy hpast)
  settled := h.settled
  covered _ x hx hmem hpast := by
    rcases h.covered (by simp [hw]) x hx hmem hpast with hold | ⟨-, hnew⟩
    · exact .inl (List.mem_append_left _ hold)
    · have hahead : x ∈ E.ahead query w.cursor w.store := E.mem_ahead.mpr ⟨hmem, hnew⟩
      cases hd : p.nextCursor with
      | none => exact .inl (List.mem_append_right _ (E.mem_last_page hp hforward hd hahead))
      | some d =>
        have hne := E.next_ne_empty hp hforward hids hd
        rw [← List.take_append_drop (E.normaliseLimit query.limit) (E.ahead _ _ _),
          ← E.page_ahead hp hforward, ← E.ahead_next hp hforward hd hne] at hahead
        rcases List.mem_append.mp hahead with hpage | hrest
        · exact .inl (List.mem_append_right _ hpage)
        · refine .inr ⟨by simp [Walk.landed, hd], ?_⟩
          simp only [Walk.landed, hd]
          exact (E.mem_ahead.mp hrest).2

/-- What holds of the walk whose stores have all been usable. -/
theorem stable_of_reachable (hforward : query.isBackward = false)
    (h : Reachable (fun w => ∃ s, w = start query s) (Step E query) w)
    (hids : ∀ s ∈ w.stores, E.Usable query s) : Stable E query w := by
  have hstep : ∀ w v : Walk σ, ((∀ s ∈ w.stores, E.Usable query s) → Stable E query w) →
      Step E query w v → (∀ s ∈ v.stores, E.Usable query s) → Stable E query v := by
    intro w v hw hstep hids
    cases hstep with
    | page hwalking hp => exact (hw hids).landed hforward hwalking (hids _ List.mem_cons_self) hp
    | fail hwalking => exact (hw hids).fail
    | insert hwalking ht =>
      exact (hw (fun s hs => hids s (List.mem_cons_of_mem _ hs))).moved ht.settled
    | prune hwalking ht =>
      exact (hw (fun s hs => hids s (List.mem_cons_of_mem _ hs))).moved ht.settled
  have hinit : ∀ w : Walk σ, (∃ s, w = start query s) →
      (∀ s ∈ w.stores, E.Usable query s) → Stable E query w := by
    intro w hw _
    obtain ⟨s, rfl⟩ := hw
    exact stable_start s
  exact Reachable.invariant hinit hstep h hids

/-! ### The end of a walk -/

def left (E : EventStore σ) (query : EventQuery) (w : Walk σ) : Nat :=
  if w.status = .walking then (E.ahead query w.cursor w.store).length + 1 else 0

/-- Queries and prunes alone, with the number of queries. -/
inductive Quiet (E : EventStore σ) (query : EventQuery) (w : Walk σ) : Nat → Walk σ → Prop
  | refl : Quiet E query w 0 w
  | page {n : Nat} {v : Walk σ} {p : EventPage} (h : Quiet E query w n v) (hv : v.status = .walking)
      (hp : E.queryEvents (query.resume v.cursor) v.store p) : Quiet E query w (n + 1) (v.landed p)
  | fail {n : Nat} {v : Walk σ} (h : Quiet E query w n v) (hv : v.status = .walking) :
      Quiet E query w (n + 1) { v with status := .failed }
  | prune {n : Nat} {v : Walk σ} {t : σ} (h : Quiet E query w n v) (hv : v.status = .walking)
      (ht : E.Pruned v.store t) : Quiet E query w n (v.moved t)

theorem left_landed (hforward : query.isBackward = false) (hw : w.status = .walking)
    {p : EventPage} (hids : E.Usable query w.store)
    (hp : E.queryEvents (query.resume w.cursor) w.store p) :
    left E query (w.landed p) + 1 ≤ left E query w := by
  simp only [left, hw, if_true]
  cases hd : p.nextCursor with
  | none => simp [landed, hd]
  | some d =>
    have hne := E.next_ne_empty hp hforward hids hd
    have hpos := E.limit_pos query.limit
    have hmem := List.length_pos_of_mem (mem_page hp hforward (next_mem hp hforward hd))
    have hahead := congrArg List.length (E.ahead_next hp hforward hd hne)
    rw [List.length_drop] at hahead
    simp only [landed, hd, Option.isSome_some, if_true]
    omega

theorem left_pruned {t : σ} (ht : E.Pruned w.store t) :
    left E query (w.moved t) ≤ left E query w := by
  have hsub : E.ahead query w.cursor t ⊆ E.ahead query w.cursor w.store := by
    intro x hx
    obtain ⟨hmem, hpast⟩ := E.mem_ahead.mp hx
    have hstored := E.isStored _ _ _ hmem
    exact E.mem_ahead.mpr ⟨(ht.settled query x (ht.kept x hstored) hstored).mp hmem, hpast⟩
  have hle := ((EventStore.nodup_of_before E.ahead_pairwise).subperm hsub).length_le
  by_cases hw : w.status = .walking
  · simp only [left, moved, hw, if_true]
    omega
  · simp [left, moved, hw]

/-- Prunes bring no empty id in. -/
theorem Quiet.usable {n : Nat} (h : Quiet E query w n v) (hids : E.Usable query w.store) :
    E.Usable query v.store := by
  induction h with
  | refl => exact hids
  | page _ _ _ ih => exact ih
  | fail _ _ ih => exact ih
  | prune _ _ ht ih => exact fun horder hempty => ih horder (ht.kept _ hempty)

theorem Quiet.bounded {n : Nat} (h : Quiet E query w n v) (hforward : query.isBackward = false)
    (hids : E.Usable query w.store) : n + left E query v ≤ left E query w := by
  induction h with
  | refl => omega
  | page hq hv hp ih =>
    have hstep := left_landed hforward hv (hq.usable hids) hp
    omega
  | fail hq hv ih =>
    simp only [left, hv, if_true] at ih
    simp only [left, reduceCtorEq, if_false]
    omega
  | prune _ _ ht ih =>
    have hstep : left E query _ ≤ left E query _ := left_pruned ht
    omega

end Walk

/-! ### Walks over the SQLite store -/

theorem EventStore.Pruned.refl {σ : Type} (E : EventStore σ) (s : σ) : E.Pruned s s :=
  ⟨fun _ h => h, fun _ _ _ _ => Iff.rfl⟩

theorem EventStore.Pruned.trans {σ : Type} {E : EventStore σ} {a b c : σ} (h : E.Pruned a b)
    (g : E.Pruned b c) : E.Pruned a c where
  kept := fun id hid => h.kept id (g.kept id hid)
  settled := fun q id ha hc =>
    (g.settled q id (g.kept id hc) hc).trans (h.settled q id ha (g.kept id hc))

theorem pruned_pruneToSize (rd : Reader) {build : SqliteBuild} {disk : Option Disk}
    {targetBytes chunkLedgers : JsNumber} {db db' : Db} {r : Except StoreError PruneToSizeResult}
    (h : pruneToSize build disk targetBytes chunkLedgers db = (r, db')) :
    (sqliteStore rd).Pruned db db' := by
  refine pruneToSize_induct (P := fun d => (sqliteStore rd).Pruned db d) ?_ (.refl _ db) h
  intro p mid mid' hp hdel
  exact hp.trans (pruned_deleteEvents rd hdel)

namespace Walk

def ask (rd : Reader) (query : EventQuery) (cache : CountCache) (w : Walk Db) : Walk Db :=
  match (queryEvents rd (query.resume w.cursor) w.store cache).1 with
  | .ok p => w.landed p
  | .error _ => { w with status := .failed }

inductive SqliteStep (rd : Reader) (query : EventQuery) : Walk Db → Walk Db → Prop
  | ask {w : Walk Db} (cache : CountCache) (hw : w.status = .walking) :
      SqliteStep rd query w (w.ask rd query cache)
  | insertDecoded {w : Walk Db} (rt : Runtime) (build : SqliteBuild) (events : List LensEvent)
      (hw : w.status = .walking) :
      SqliteStep rd query w (w.moved (insertDecoded rt build events w.store).2)
  | pruneBefore {w : Walk Db} (build : SqliteBuild) (ledger : JsNumber) (hw : w.status = .walking) :
      SqliteStep rd query w (w.moved (pruneBefore build ledger w.store).2)
  | pruneToSize {w : Walk Db} (build : SqliteBuild) (disk : Option Disk)
      (targetBytes chunkLedgers : JsNumber) (hw : w.status = .walking) :
      SqliteStep rd query w
        (w.moved (pruneToSize build disk targetBytes chunkLedgers w.store).2)

inductive SqliteQuiet (rd : Reader) (query : EventQuery) (w : Walk Db) : Nat → Walk Db → Prop
  | refl : SqliteQuiet rd query w 0 w
  | ask {n : Nat} {v : Walk Db} (h : SqliteQuiet rd query w n v) (cache : CountCache)
      (hv : v.status = .walking) : SqliteQuiet rd query w (n + 1) (v.ask rd query cache)
  | pruneBefore {n : Nat} {v : Walk Db} (h : SqliteQuiet rd query w n v) (build : SqliteBuild)
      (ledger : JsNumber) (hv : v.status = .walking) :
      SqliteQuiet rd query w n (v.moved (SorobanLens.pruneBefore build ledger v.store).2)
  | pruneToSize {n : Nat} {v : Walk Db} (h : SqliteQuiet rd query w n v) (build : SqliteBuild)
      (disk : Option Disk) (targetBytes chunkLedgers : JsNumber) (hv : v.status = .walking) :
      SqliteQuiet rd query w n
        (v.moved (SorobanLens.pruneToSize build disk targetBytes chunkLedgers v.store).2)

variable {rd : Reader} {query : EventQuery} {w v : Walk Db}

theorem ask_cases (rd : Reader) (query : EventQuery) (cache : CountCache) (w : Walk Db) :
    (∃ p, (sqliteStore rd).queryEvents (query.resume w.cursor) w.store p ∧
      w.ask rd query cache = w.landed p) ∨ w.ask rd query cache = { w with status := .failed } := by
  unfold ask
  split
  · rename_i p hp
    exact .inl ⟨p, ⟨cache, hp⟩, rfl⟩
  · exact .inr rfl

theorem step_of_sqlite (h : SqliteStep rd query w v) : Step (sqliteStore rd) query w v := by
  cases h with
  | ask cache hw =>
    rcases ask_cases rd query cache w with ⟨p, hp, heq⟩ | heq
    · exact heq ▸ .page hw hp
    · exact heq ▸ .fail hw
  | insertDecoded rt build events hw => exact .insert hw (inserted_insertDecoded rd rfl)
  | pruneBefore build ledger hw => exact .prune hw (pruned_pruneBefore rd rfl)
  | pruneToSize build disk targetBytes chunkLedgers hw => exact .prune hw (pruned_pruneToSize rd rfl)

theorem quiet_of_sqlite {n : Nat} (h : SqliteQuiet rd query w n v) :
    Quiet (sqliteStore rd) query w n v := by
  induction h with
  | refl => exact .refl
  | @ask n v h cache hv ih =>
    rcases ask_cases rd query cache v with ⟨p, hp, heq⟩ | heq
    · exact heq ▸ ih.page hv hp
    · exact heq ▸ ih.fail hv
  | pruneBefore h build ledger hv ih => exact ih.prune hv (pruned_pruneBefore rd rfl)
  | pruneToSize h build disk targetBytes chunkLedgers hv ih =>
    exact ih.prune hv (pruned_pruneToSize rd rfl)

/-- What the walk asks for and the ids it meets are whole, and if it ascends it meets no
empty id. -/
structure Legible (query : EventQuery) (w : Walk Db) : Prop where
  search : query.SearchWhole
  ids : ∀ db ∈ w.stores, ∀ id ∈ db.storedIds, Whole id
  nonempty : query.resultOrder = .asc → ∀ db ∈ w.stores, "" ∉ db.storedIds

/-- A walk yields in order what matches, and all of it that stayed; without inserts
it makes a bounded number of queries. -/
theorem walk_stable (rd : Reader) (query : EventQuery) (hforward : query.isBackward = false)
    (w : Walk Db) (h : Reachable (fun w => ∃ db, w = start query db) (SqliteStep rd query) w)
    (hlegible : w.Legible query) :
    w.yielded.Pairwise query.resultOrder.Before ∧ w.yielded.Nodup ∧
    (∀ x ∈ w.yielded, ∃ db ∈ w.stores, x ∈ (matchingRows rd.text query db).map EventRow.id) ∧
    (w.status = .finished → ∀ x, (∀ db ∈ w.stores, x ∈ db.storedIds) →
      (∃ db ∈ w.stores, x ∈ (matchingRows rd.text query db).map EventRow.id) →
      (∀ c, given query.cursor = some c → query.resultOrder.Before c x) → w.yielded.count x = 1) ∧
    (∀ n v, SqliteQuiet rd query w n v → n ≤ left (sqliteStore rd) query w ∧
      (n = left (sqliteStore rd) query w → v.status ≠ .walking)) := by
  have husable : ∀ db ∈ w.stores, (sqliteStore rd).Usable query db :=
    fun db hdb horder => hlegible.nonempty horder db hdb
  have hstable := stable_of_reachable hforward (h.mono (fun _ _ => step_of_sqlite)) husable
  have hnodup := EventStore.nodup_of_before hstable.ordered
  refine ⟨hstable.ordered, hnodup, hstable.matched, ?_, ?_⟩
  · intro hfinished x hx hmatch hpast
    obtain ⟨db, hdb, hmem⟩ := hmatch
    have hnow := (hstable.settled x hx db hdb).mp hmem
    rcases hstable.covered (by simp [hfinished]) x hx hnow (EventStore.past_iff.mpr hpast) with
      hyielded | ⟨hwalking, -⟩
    · exact List.count_eq_one_of_mem hnodup hyielded
    · rw [hfinished] at hwalking
      cases hwalking
  · intro n v hquiet
    have hbound := (quiet_of_sqlite hquiet).bounded hforward (husable _ List.mem_cons_self)
    refine ⟨by omega, ?_⟩
    intro hn hwalking
    simp only [left, hwalking, if_true] at hbound
    simp only [left] at hn
    omega

/-! ### Walks in steps of one -/

def onePerPage : EventQuery := { order := some .asc, limit := some (.ofNat 1) }

theorem plain_ask {ids : List String} (found : List String) {cursor next : Option String} {yielded : List String}
    (hevents : (plainDb ids).events.isSome = true)
    (hpage : (window .asc false (given cursor) 1
      (matchingRows plainReader.text onePerPage (plainDb ids))).page = found.map plainRow)
    (hnext : (window .asc false (given cursor) 1
      (matchingRows plainReader.text onePerPage (plainDb ids))).next EventRow.id = next)
    (h : Reachable (fun w => ∃ db, w = start onePerPage db) (SqliteStep plainReader onePerPage)
      ⟨plainDb ids, [], cursor, yielded, .walking⟩) :
    Reachable (fun w => ∃ db, w = start onePerPage db) (SqliteStep plainReader onePerPage)
      ⟨plainDb ids, [], next, yielded ++ found, if next.isSome then .walking else .finished⟩ := by
  have hlimit : normaliseLimit plainReader.maxLimit (some (.ofNat 1)) = 1 := by decide +kernel
  have hwindow : pageWindow plainReader (onePerPage.resume cursor) (plainDb ids) =
      window .asc false (given cursor) 1
        (matchingRows plainReader.text onePerPage (plainDb ids)) := by
    have hone : normaliseLimit plainReader.maxLimit (onePerPage.resume cursor).limit = 1 := hlimit
    rw [pageWindow, hone]
    rfl
  have hcan : CanAnswer plainReader (onePerPage.resume cursor) (plainDb ids) :=
    ⟨hevents, fun c hc => by cases hc⟩
  obtain ⟨total, estimate, cache, hq⟩ := plain_answers hcan (hwindow ▸ hpage)
  have hask := h.next (.ask cache rfl)
  have hids : (found.map plainEvent).map LensEvent.id = found := by
    rw [List.map_map]
    exact List.map_id found
  rw [hwindow, hnext] at hq
  simpa only [ask, hq, landed, hids] using hask

/-- Two events, one on each page. -/
theorem walk_two_events : ∃ w : Walk Db, w.status = .finished ∧ w.yielded = ["a", "b"] ∧
    w.yielded.Nodup ∧ w.yielded.count "a" = 1 := by
  have hstart : Reachable (fun w => ∃ db, w = start onePerPage db)
      (SqliteStep plainReader onePerPage) ⟨plainDb ["a", "b"], [], none, [], .walking⟩ :=
    .start ⟨_, rfl⟩
  have hfirst := plain_ask ["a"] rfl rfl rfl hstart
  have hsecond := plain_ask ["b"] rfl rfl rfl hfirst
  have hids : ∀ db ∈ [plainDb ["a", "b"]], db.storedIds = ["a", "b"] := by
    intro db hdb
    obtain rfl := List.mem_singleton.mp hdb
    rfl
  obtain ⟨-, hnodup, -, hall, -⟩ := walk_stable plainReader onePerPage rfl _ hsecond
    { search := fun text htext => by cases htext
      ids := fun db hdb => by rw [hids db hdb]; decide
      nonempty := fun _ db hdb => by rw [hids db hdb]; decide }
  refine ⟨_, rfl, rfl, hnodup, hall rfl "a" ?_ ⟨_, List.mem_cons_self, ?_⟩ ?_⟩
  · intro db hdb
    obtain rfl := List.mem_singleton.mp hdb
    show "a" ∈ ["a", "b"]
    decide
  · show "a" ∈ ["a", "b"]
    decide
  · intro c hc
    cases hc

/-- An empty id sends an ascending walk back to its start. -/
theorem empty_id_repeats : ¬ ∀ (rd : Reader) (query : EventQuery), query.isBackward = false →
    ∀ w : Walk Db, Reachable (fun w => ∃ db, w = start query db) (SqliteStep rd query) w →
      w.yielded.Nodup := by
  intro hclaim
  have hstart : Reachable (fun w => ∃ db, w = start onePerPage db)
      (SqliteStep plainReader onePerPage) ⟨plainDb ["", "a"], [], none, [], .walking⟩ :=
    .start ⟨_, rfl⟩
  have hfirst := plain_ask [""] rfl rfl rfl hstart
  have hsecond := plain_ask [""] rfl rfl rfl hfirst
  exact absurd (hclaim plainReader onePerPage rfl _ hsecond) (by decide)

end Walk

end SorobanLens
