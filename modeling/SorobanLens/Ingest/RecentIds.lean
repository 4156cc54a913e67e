import SorobanLens.Ingest.Poller
import SorobanLens.Lib.Transition
import Mathlib.Data.List.Induction

/-!
The ids the poller remembers are the last ones it admitted, over every sequence
of `add` calls; and what follows for the events a stream yields and suppresses.
-/

set_option autoImplicit false

namespace SorobanLens

/-- Among the last of `ids`, counted from the end for as long as the count does not
exceed `capacity`. -/
def AmongLast (capacity : JsNumber) (ids : List String) (id : String) : Prop :=
  ∃ k, ids.reverse[k]? = some id ∧ JsNumber.lt capacity (.ofNat (k + 1)) = false

theorem amongLast_ofNat (n : Nat) (ids : List String) (id : String) :
    AmongLast (.ofNat n) ids id ↔ id ∈ ids.drop (ids.length - n) := by
  have hrev : ids.drop (ids.length - n) = (ids.reverse.take n).reverse := by
    rw [List.take_reverse, List.reverse_reverse]
  rw [hrev, List.mem_reverse]
  constructor
  · intro h
    obtain ⟨k, hk, hle⟩ := h
    simp only [JsNumber.ofNat_lt_ofNat, decide_eq_false_iff_not] at hle
    refine List.mem_iff_getElem?.mpr ⟨k, ?_⟩
    rw [List.getElem?_take_of_lt (by omega)]
    exact hk
  · intro h
    obtain ⟨k, hk⟩ := List.mem_iff_getElem?.mp h
    have hlt : k < n := by
      by_contra hge
      rw [List.getElem?_take_eq_none (by omega)] at hk
      cases hk
    rw [List.getElem?_take_of_lt hlt] at hk
    refine ⟨k, hk, ?_⟩
    simp only [JsNumber.ofNat_lt_ofNat, decide_eq_false_iff_not]
    omega

namespace RecentIds

def after (seen : RecentIds) (ids : List String) : RecentIds :=
  ids.foldl (fun s id => (s.add id).2) seen

def admitted : RecentIds → List String → List String
  | _, [] => []
  | seen, id :: ids =>
    if (seen.add id).1 then id :: (seen.add id).2.admitted ids else (seen.add id).2.admitted ids

theorem after_append (seen : RecentIds) (xs ys : List String) :
    seen.after (xs ++ ys) = (seen.after xs).after ys := List.foldl_append

theorem admitted_append (seen : RecentIds) (xs ys : List String) :
    seen.admitted (xs ++ ys) = seen.admitted xs ++ (seen.after xs).admitted ys := by
  induction xs generalizing seen with
  | nil => rfl
  | cons x xs ih =>
    simp only [List.cons_append, admitted, ih]
    split <;> rfl

theorem filterFresh_eq (seen : RecentIds) (events : List RawEvent) :
    (seen.filterFresh events).1.map RawEvent.id = seen.admitted (events.map RawEvent.id) ∧
      (seen.filterFresh events).2 = seen.after (events.map RawEvent.id) := by
  induction events generalizing seen with
  | nil => exact ⟨rfl, rfl⟩
  | cons e es ih =>
    obtain ⟨hfst, hsnd⟩ := ih (seen.add e.id).2
    refine ⟨?_, hsnd⟩
    simp only [filterFresh, List.map_cons, admitted]
    split
    · rw [List.map_cons, hfst]
    · exact hfst

/-- The ids remembered are the end of those admitted, cut off only where the window
was full. -/
structure Window (capacity : JsNumber) (seen : RecentIds) (admitted : List String) : Prop where
  capacity_eq : seen.capacity = capacity
  ending : ∃ gone, admitted = gone ++ seen.ids ∧
    (gone = [] ∨ JsNumber.lt capacity (.ofNat (seen.ids.length + 1)) = true)
  size : JsNumber.lt capacity (.ofNat seen.ids.length) = false
  /-- Two admissions of one id are further apart than the window is wide. -/
  apart : ∀ i j id, i < j → admitted[i]? = some id → admitted[j]? = some id →
    JsNumber.lt capacity (.ofNat (j - i)) = true

theorem Window.mem_iff {capacity : JsNumber} {seen : RecentIds} {admitted : List String}
    (h : Window capacity seen admitted) (id : String) :
    id ∈ seen.ids ↔ AmongLast capacity admitted id := by
  obtain ⟨gone, rfl, hgone⟩ := h.ending
  have hrev : (gone ++ seen.ids).reverse = seen.ids.reverse ++ gone.reverse := List.reverse_append
  constructor
  · intro hmem
    obtain ⟨k, hk⟩ := List.mem_iff_getElem?.mp (List.mem_reverse.mpr hmem)
    have hlt : k < seen.ids.reverse.length := (List.getElem?_eq_some_iff.mp hk).1
    rw [List.length_reverse] at hlt
    refine ⟨k, ?_, ?_⟩
    · rw [hrev, List.getElem?_append_left (by rw [List.length_reverse]; exact hlt)]
      exact hk
    · by_contra hexceeds
      rw [Bool.not_eq_false] at hexceeds
      have hsize := JsNumber.lt_ofNat_of_le hexceeds (by omega : k + 1 ≤ seen.ids.length)
      rw [h.size] at hsize
      cases hsize
  · intro hlast
    obtain ⟨k, hk, hle⟩ := hlast
    by_cases hlt : k < seen.ids.length
    · rw [hrev, List.getElem?_append_left (by rw [List.length_reverse]; exact hlt)] at hk
      exact List.mem_reverse.mp (List.mem_iff_getElem?.mpr ⟨k, hk⟩)
    · rcases hgone with rfl | hfull
      · rw [List.nil_append, List.getElem?_eq_none (by rw [List.length_reverse]; omega)] at hk
        cases hk
      · rw [JsNumber.lt_ofNat_of_le hfull (by omega)] at hle
        cases hle

theorem Window.fresh {capacity : JsNumber} {seen : RecentIds} {admitted : List String}
    (h : Window capacity seen admitted) {id : String} (hid : id ∉ seen.ids) :
    Window capacity (seen.add id).2 (admitted ++ [id]) := by
  have hcap := h.capacity_eq
  obtain ⟨gone, heq, hgone⟩ := h.ending
  have happart : ∀ i j x, i < j → (admitted ++ [id])[i]? = some x →
      (admitted ++ [id])[j]? = some x → JsNumber.lt capacity (.ofNat (j - i)) = true := by
    intro i j x hij hi hj
    have hlen := (List.getElem?_eq_some_iff.mp hj).1
    rw [List.length_append, List.length_singleton] at hlen
    rw [List.getElem?_append_left (by omega)] at hi
    by_cases hlast : j < admitted.length
    · rw [List.getElem?_append_left hlast] at hj
      exact h.apart i j x hij hi hj
    · have hj' : j = admitted.length := by omega
      subst hj'
      have hx : x = id := by simpa using hj.symm
      subst hx
      -- the earlier admission lies `j - i` places from the end, and is forgotten
      by_contra hnear
      rw [Bool.not_eq_true] at hnear
      refine hid ((h.mem_iff x).mpr ⟨admitted.length - 1 - i, ?_, ?_⟩)
      · rw [List.getElem?_reverse (by omega)]
        rwa [show admitted.length - 1 - (admitted.length - 1 - i) = i by omega]
      · rwa [show admitted.length - 1 - i + 1 = admitted.length - i by omega]
  by_cases hfull : JsNumber.lt capacity (.ofNat (seen.ids ++ [id]).length) = true
  · have hadd : (seen.add id).2 = { seen with ids := (seen.ids ++ [id]).drop 1 } := by
      rw [← hcap] at hfull
      simp only [RecentIds.add, hid, if_false, hfull, if_true]
    have hlen : ((seen.ids ++ [id]).drop 1).length = seen.ids.length := by simp
    rw [hadd]
    refine ⟨hcap, ⟨gone ++ (seen.ids ++ [id]).take 1, ?_, .inr ?_⟩, ?_, happart⟩
    · simp only [heq, List.append_assoc, List.take_append_drop]
    · simp only [hlen]
      simpa using hfull
    · simp only [hlen]
      exact h.size
  · rw [Bool.not_eq_true] at hfull
    have hadd : (seen.add id).2 = { seen with ids := seen.ids ++ [id] } := by
      rw [← hcap] at hfull
      simp only [RecentIds.add, hid, if_false, hfull, Bool.false_eq_true]
    have hnone : gone = [] := by
      refine hgone.resolve_right ?_
      rw [List.length_append, List.length_singleton] at hfull
      simp [hfull]
    rw [hadd]
    exact ⟨hcap, ⟨[], by simp [heq, hnone], .inl rfl⟩, hfull, happart⟩

theorem Window.add {capacity : JsNumber} {seen : RecentIds} {admitted : List String}
    (h : Window capacity seen admitted) (id : String) :
    Window capacity (seen.add id).2 (admitted ++ seen.admitted [id]) := by
  by_cases hid : id ∈ seen.ids
  · simp only [RecentIds.admitted, add_of_mem hid, Bool.false_eq_true, if_false, List.append_nil]
    exact h
  · obtain ⟨k, -, hadd⟩ := add_of_not_mem seen hid
    have hwindow := h.fresh hid
    simp only [RecentIds.admitted, hadd, if_true] at hwindow ⊢
    exact hwindow

theorem not_max_one_lt_zero (capacity : JsNumber) :
    JsNumber.lt (JsNumber.max (.ofNat 1) capacity) (.ofNat 0) = false := by
  cases capacity with
  | nan => rfl
  | negInf => decide
  | posInf => rfl
  | fin q =>
    have hone : (0 : ℚ) ≤ max 1 q := le_max_of_le_left zero_le_one
    simp only [JsNumber.ofNat, JsNumber.max_fin, JsNumber.fin_lt_fin, Nat.cast_one, Nat.cast_zero,
      decide_eq_false_iff_not, not_lt]
    exact hone

/-- Whatever was added, the window holds the last ids admitted. -/
theorem window_after (capacity : JsNumber) (ids : List String) :
    Window (JsNumber.max (.ofNat 1) capacity) ((new capacity).after ids)
      ((new capacity).admitted ids) := by
  induction ids using List.reverseRecOn with
  | nil =>
    exact ⟨rfl, ⟨[], rfl, .inl rfl⟩, not_max_one_lt_zero capacity, by simp [admitted]⟩
  | append_singleton ids id ih =>
    rw [after_append, admitted_append]
    exact ih.add id

theorem add_eq_false_iff (seen : RecentIds) (id : String) : (seen.add id).1 = false ↔ id ∈ seen.ids := by
  constructor
  · exact add_fst
  · intro h
    rw [add_of_mem h]

end RecentIds

/-! ### The stream -/

/-- A stream from outside: its loop variables, and every event it yielded so far. -/
structure StreamRun where
  locals : StreamLocals
  yielded : List RawEvent

inductive StreamRun.Step (o : PollerOptions) : StreamRun → StreamRun → Prop where
  | resolve {s : StreamRun} (saved : Option CursorState) (window : RetentionState) :
      Step o s { s with locals := resolveStart o saved window s.locals }
  | restart {s : StreamRun} (oldestLedger : Nat) :
      Step o s { s with locals := restartAt oldestLedger s.locals }
  | page {s : StreamRun} (batch : EventBatch) :
      Step o s
        { locals := advance s.locals batch (turn o s.locals.seen batch)
          yielded := s.yielded ++ (turn o s.locals.seen batch).fresh }

def StreamRun.Initial (o : PollerOptions) (s : StreamRun) : Prop :=
  s.locals = initialLocals o ∧ s.yielded = []

def PollerOptions.recentCapacity (o : PollerOptions) : JsNumber :=
  JsNumber.mul o.pageSizeOrDefault (.ofNat RECENT_ID_WINDOW_PAGES)

def StreamRun.Fed (o : PollerOptions) (s : StreamRun) (ids : List String) : Prop :=
  s.locals.seen = (RecentIds.new o.recentCapacity).after ids ∧
    s.yielded.map RawEvent.id = (RecentIds.new o.recentCapacity).admitted ids

theorem StreamRun.Fed.page {o : PollerOptions} {s : StreamRun} {ids : List String}
    (h : s.Fed o ids) (events : List RawEvent) :
    (s.locals.seen.filterFresh events).2 =
        (RecentIds.new o.recentCapacity).after (ids ++ events.map RawEvent.id) ∧
      (s.yielded ++ (s.locals.seen.filterFresh events).1).map RawEvent.id =
        (RecentIds.new o.recentCapacity).admitted (ids ++ events.map RawEvent.id) := by
  obtain ⟨hseen, hyielded⟩ := h
  obtain ⟨hfst, hsnd⟩ := RecentIds.filterFresh_eq s.locals.seen events
  rw [hsnd, List.map_append, hfst, hyielded, hseen]
  exact ⟨(RecentIds.after_append _ _ _).symm, (RecentIds.admitted_append _ _ _).symm⟩

theorem StreamRun.fed {o : PollerOptions} {s : StreamRun}
    (h : Reachable (StreamRun.Initial o) (StreamRun.Step o) s) : ∃ ids, s.Fed o ids := by
  have hstep : ∀ s t : StreamRun, (∃ ids, s.Fed o ids) → StreamRun.Step o s t →
      ∃ ids, t.Fed o ids := by
    intro s t hs hst
    obtain ⟨ids, hfed⟩ := hs
    cases hst with
    | resolve saved window =>
      refine ⟨ids, ?_, hfed.2⟩
      rw [← hfed.1]
      simp only [resolveStart]
      split <;> rfl
    | restart oldestLedger => exact ⟨ids, hfed⟩
    | page batch => exact ⟨ids ++ batch.events.map RawEvent.id, hfed.page batch.events⟩
  refine h.invariant ?_ hstep
  intro s hs
  exact ⟨[], by rw [hs.1]; rfl, by rw [hs.2]; rfl⟩

/-- `add` refuses an id exactly when it is among the last `max(1, capacity)` it
admitted (for a whole number, the end of the list), and remembers no more than that. So a stream suppresses an event only
when it yielded its id before in this run, and the same id is never yielded twice
within `capacity` newly yielded ids. -/
theorem recentIds_exact :
    (∀ capacity ids id, (((RecentIds.new capacity).after ids).add id).1 = false ↔
      AmongLast (JsNumber.max (.ofNat 1) capacity) ((RecentIds.new capacity).admitted ids) id) ∧
    (∀ n ids id, (((RecentIds.new (.ofNat n)).after ids).add id).1 = false ↔
      id ∈ ((RecentIds.new (.ofNat n)).admitted ids).drop
        (((RecentIds.new (.ofNat n)).admitted ids).length - max 1 n)) ∧
    (∀ capacity ids, JsNumber.lt (JsNumber.max (.ofNat 1) capacity)
      (.ofNat ((RecentIds.new capacity).after ids).ids.length) = false) ∧
    ∀ (o : PollerOptions) (s : StreamRun), Reachable (StreamRun.Initial o) (StreamRun.Step o) s →
      (∀ before (e : RawEvent), ((s.locals.seen.filterFresh before).2.add e.id).1 = false →
        e.id ∈ (s.yielded ++ (s.locals.seen.filterFresh before).1).map RawEvent.id) ∧
      ∀ i j id, i < j → (s.yielded.map RawEvent.id)[i]? = some id →
        (s.yielded.map RawEvent.id)[j]? = some id →
          JsNumber.lt (JsNumber.max (.ofNat 1) o.recentCapacity) (.ofNat (j - i)) = true := by
  refine ⟨?_, ?_, fun capacity ids => (RecentIds.window_after capacity ids).size, ?_⟩
  · intro capacity ids id
    rw [RecentIds.add_eq_false_iff]
    exact (RecentIds.window_after capacity ids).mem_iff id
  · intro n ids id
    have hmax : JsNumber.max (.ofNat 1) (.ofNat n) = .ofNat (max 1 n) := by
      simp [JsNumber.ofNat, JsNumber.max_fin]
    rw [RecentIds.add_eq_false_iff, (RecentIds.window_after (.ofNat n) ids).mem_iff id, hmax,
      amongLast_ofNat]
  · intro o s hs
    obtain ⟨ids, hfed⟩ := StreamRun.fed hs
    constructor
    · intro before e hdropped
      obtain ⟨hseen, hyielded⟩ := hfed.page before
      rw [hseen, RecentIds.add_eq_false_iff] at hdropped
      obtain ⟨gone, heq, -⟩ :=
        (RecentIds.window_after o.recentCapacity (ids ++ before.map RawEvent.id)).ending
      rw [hyielded, heq]
      exact List.mem_append_right _ hdropped
    · rw [hfed.2]
      exact (RecentIds.window_after o.recentCapacity ids).apart

end SorobanLens
