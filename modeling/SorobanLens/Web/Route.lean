import SorobanLens.Lib.PercentCode

/-!
The explorer's view state in its URL: what a link is written as, and what opening
one restores.
-/

set_option autoImplicit false

namespace SorobanLens.Web

open PercentCode

structure FilterState where
  contractId : String
  topic : String
  successfulOnly : Bool
  live : Bool
  fromLedger : String
  toLedger : String
  deriving DecidableEq

structure UrlState where
  filters : FilterState
  network : String
  /-- Event id to show expanded. -/
  expandedEventId : Option String
  deriving DecidableEq

abbrev SearchParams := List (String × String)

namespace SearchParams

/-- The constructor drops one leading question mark. -/
def ofQuery (search : List Char) : SearchParams :=
  let text := if search.head? = some '?' then search.drop 1 else search
  (formParse text).map (fun pair => (String.ofList pair.1, String.ofList pair.2))

def render (params : SearchParams) : List Char :=
  formSerialise (params.map (fun pair => (pair.1.toList, pair.2.toList)))

def get (params : SearchParams) (name : String) : Option String := params.lookup name

/-- The first pair of a name is replaced and the others leave; without one it is
appended. -/
def set : SearchParams → String → String → SearchParams
  | [], name, value => [(name, value)]
  | pair :: params, name, value =>
    if pair.1 = name then (name, value) :: params.filter (fun p => p.1 != name)
    else pair :: set params name value

def setIf (params : SearchParams) (cond : Bool) (name value : String) : SearchParams :=
  if cond then params.set name value else params

theorem lookup_cons (pair : String × String) (params : SearchParams) (other : String) :
    (pair :: params : SearchParams).lookup other =
      if other = pair.1 then some pair.2 else params.lookup other := by
  obtain ⟨name, value⟩ := pair
  by_cases h : other = name
  · simp [h]
  · have hbeq : (other == name) = false := by simp [h]
    simp [List.lookup_cons, h, hbeq]

theorem lookup_filter {name other : String} (h : other ≠ name) (params : SearchParams) :
    (params.filter (fun p => p.1 != name)).lookup other = params.lookup other := by
  induction params with
  | nil => rfl
  | cons pair params ih =>
    by_cases hp : pair.1 = name
    · have hne : other ≠ pair.1 := by
        rw [hp]
        exact h
      simp [hp, lookup_cons, h, ih]
    · simp [hp, lookup_cons, ih]

theorem get_set (params : SearchParams) (name value other : String) :
    (params.set name value).get other = if other = name then some value else params.get other := by
  unfold get
  induction params with
  | nil => simp [set]
  | cons pair params ih =>
    simp only [set]
    split
    · rename_i hp
      by_cases h : other = name
      · simp [h]
      · simp [lookup_cons, h, lookup_filter h, hp]
    · rename_i hp
      rw [lookup_cons, lookup_cons, ih]
      by_cases h : other = name
      · have hne : other ≠ pair.1 := by
          rw [h]
          exact Ne.symm hp
        simp [h, Ne.symm hp]
      · simp [h]

theorem get_setIf (params : SearchParams) (cond : Bool) (name value other : String) :
    (params.setIf cond name value).get other =
      if other = name ∧ cond = true then some value else params.get other := by
  cases cond with
  | false => simp [setIf]
  | true => simp [setIf, get_set]

theorem setIf_eq_nil (params : SearchParams) (cond : Bool) (name value : String) :
    params.setIf cond name value = [] ↔ cond = false ∧ params = [] := by
  cases cond with
  | false => simp [setIf]
  | true =>
    simp only [setIf, if_true, Bool.true_eq_false, false_and, iff_false]
    cases params with
    | nil => simp [set]
    | cons pair params =>
      simp only [set]
      split <;> simp

theorem ofQuery_render (params : SearchParams) :
    ofQuery (if params.render = [] then [] else '?' :: params.render) = params := by
  have hround : (formParse params.render).map
      (fun pair => (String.ofList pair.1, String.ofList pair.2)) = params := by
    rw [render, formParse_formSerialise, List.map_map]
    refine (List.map_congr_left ?_).trans (List.map_id params)
    intro pair _
    simp
  split
  · rename_i h
    rw [h] at hround
    exact hround
  · simpa [ofQuery] using hround

end SearchParams

/-! ### Links -/

/-- `pathname.slice(0, -1)` of a path that ends with a slash and is more than one. -/
def trimmedPath (pathname : String) : List Char :=
  if 1 < pathname.toList.length ∧ pathname.toList.getLast? = some '/' then pathname.toList.dropLast
  else pathname.toList

def isLineTerminator (c : Char) : Bool :=
  c == '\n' || c == '\r' || c == Char.ofNat 0x2028 || c == Char.ofNat 0x2029

/-- The group of `/^\/events\/(.+)$/`. -/
def eventSegment (path : List Char) : Option (List Char) :=
  if path.take 8 = "/events/".toList ∧ path.drop 8 ≠ [] ∧
      (path.drop 8).all (fun c => !isLineTerminator c) = true then
    some (path.drop 8)
  else none

inductive URIError where
  | malformed
  deriving DecidableEq

def stateOf (params : SearchParams) (expandedEventId : Option String) : UrlState where
  filters :=
    { contractId := (params.get "contract").getD ""
      topic := (params.get "topic").getD ""
      successfulOnly := params.get "successfulOnly" == some "true"
      live := params.get "live" != some "false"
      fromLedger := (params.get "fromLedger").getD ""
      toLedger := (params.get "toLedger").getD "" }
  network := (params.get "network").getD ""
  expandedEventId := expandedEventId

/-- `none` is a bare visit. -/
def parseUrl (pathname search : String) : Except URIError (Option UrlState) :=
  let params := SearchParams.ofQuery search.toList
  match eventSegment (trimmedPath pathname) with
  | none => if params = [] then .ok none else .ok (some (stateOf params none))
  | some segment =>
    match decodeURIComponent segment with
    | none => .error .malformed
    | some id => .ok (some (stateOf params (some (String.ofList id))))

def queryParams (state : UrlState) : SearchParams :=
  let f := state.filters
  let params : SearchParams := []
  let params := params.setIf (f.contractId != "") "contract" f.contractId
  let params := params.setIf (f.topic != "") "topic" f.topic
  let params := params.setIf f.successfulOnly "successfulOnly" "true"
  let params := params.setIf (!f.live) "live" "false"
  let params := params.setIf (f.fromLedger != "") "fromLedger" f.fromLedger
  let params := params.setIf (f.toLedger != "") "toLedger" f.toLedger
  params.setIf (state.network != "") "network" state.network

/-- The path of a link; an event id that is not there or empty has none. -/
def linkPath (state : UrlState) : List Char :=
  match state.expandedEventId with
  | none => ['/']
  | some id => if id = "" then ['/'] else "/events/".toList ++ encodeURIComponent id.toList

def stringifyUrl (state : UrlState) : String :=
  let query := (queryParams state).render
  let qs := if query = [] then [] else '?' :: query
  String.ofList (linkPath state ++ qs)

/-- A link as the browser takes it apart: at its first question mark. -/
def openLink (url : String) : Except URIError (Option UrlState) :=
  parseUrl (String.ofList (url.toList.takeWhile (fun c => c != '?')))
    (String.ofList (url.toList.dropWhile (fun c => c != '?')))

def defaultState : UrlState where
  filters := ⟨"", "", false, true, "", ""⟩
  network := ""
  expandedEventId := none

theorem getD_of_ne_empty (text : String) :
    (if (text != "") = true then some text else none).getD "" = text := by
  by_cases h : text = "" <;> simp [h]

theorem stateOf_queryParams (state : UrlState) :
    stateOf (queryParams state) state.expandedEventId = state := by
  obtain ⟨⟨contractId, topic, successfulOnly, live, fromLedger, toLedger⟩, network, event⟩ := state
  have hempty : ∀ name, SearchParams.get [] name = none := fun _ => rfl
  simp only [stateOf, queryParams, SearchParams.get_setIf, hempty, String.reduceEq, false_and,
    true_and, if_false, getD_of_ne_empty]
  cases successfulOnly <;> cases live <;> simp

theorem queryParams_eq_nil (state : UrlState) :
    queryParams state = [] ↔
      state.filters = defaultState.filters ∧ state.network = defaultState.network := by
  obtain ⟨⟨contractId, topic, successfulOnly, live, fromLedger, toLedger⟩, network, event⟩ := state
  simp only [queryParams, SearchParams.setIf_eq_nil, defaultState, FilterState.mk.injEq,
    bne_eq_false_iff_eq, Bool.not_eq_false']
  tauto

/-! ### Paths -/

theorem mem_encodeURIComponent {cs : List Char} {x : Char} (h : x ∈ encodeURIComponent cs) :
    x ≠ '/' ∧ x ≠ '?' ∧ isLineTerminator x = false := by
  have hhex : ∀ d < 16, hexChar d ≠ '/' ∧ hexChar d ≠ '?' ∧
      isLineTerminator (hexChar d) = false := by decide
  have hescaped : ∀ y ∈ ['/', '?', '\n', '\r', Char.ofNat 0x2028, Char.ofNat 0x2029],
      isUnescaped y = false := by simp [isUnescaped]
  simp only [List.forall_mem_cons] at hescaped
  obtain ⟨hslash, hquestion, hnewline, hreturn, hline, hparagraph, -⟩ := hescaped
  obtain ⟨c, -, hx⟩ := List.mem_flatMap.mp h
  rcases mem_encodeWith hx with hkeep | rfl | ⟨d, hd, rfl⟩
  · have hne : ∀ y, isUnescaped y = false → x ≠ y := by
      intro y hy heq
      rw [heq, hy] at hkeep
      cases hkeep
    refine ⟨hne _ hslash, hne _ hquestion, ?_⟩
    simp [isLineTerminator, hne _ hnewline, hne _ hreturn, hne _ hline, hne _ hparagraph]
  · decide
  · exact hhex d hd

theorem encodeURIComponent_ne_nil {cs : List Char} (h : cs ≠ []) : encodeURIComponent cs ≠ [] := by
  cases cs with
  | nil => exact absurd rfl h
  | cons c cs => simp [encodeURIComponent, encodeWith_ne_nil]

theorem linkPath_spec (state : UrlState) (h : state.expandedEventId ≠ some "") :
    (∀ x ∈ linkPath state, x ≠ '?') ∧
      eventSegment (trimmedPath (String.ofList (linkPath state))) =
        state.expandedEventId.map (fun id => encodeURIComponent id.toList) := by
  unfold linkPath
  cases hid : state.expandedEventId with
  | none => exact ⟨by simp, by decide⟩
  | some id =>
    rw [hid] at h
    have hne : id ≠ "" := fun heq => h (congrArg some heq)
    have hnil : encodeURIComponent id.toList ≠ [] := by
      refine encodeURIComponent_ne_nil ?_
      intro heq
      exact hne (String.toList_eq_nil_iff.mp heq)
    simp only [hne, if_false]
    constructor
    · intro x hx
      rcases List.mem_append.mp hx with hx | hx
      · intro heq
        rw [heq] at hx
        exact absurd hx (by decide)
      · exact (mem_encodeURIComponent hx).2.1
    · have htrim : trimmedPath (String.ofList ("/events/".toList ++ encodeURIComponent id.toList)) =
          "/events/".toList ++ encodeURIComponent id.toList := by
        unfold trimmedPath
        rw [String.toList_ofList, if_neg]
        intro hslash
        have hlast := hslash.2
        rw [List.getLast?_append_of_ne_nil _ hnil] at hlast
        exact (mem_encodeURIComponent (List.mem_of_getLast? hlast)).1 rfl
      have htake : ("/events/".toList ++ encodeURIComponent id.toList).take 8 = "/events/".toList :=
        List.take_left' rfl
      have hdrop : ("/events/".toList ++ encodeURIComponent id.toList).drop 8 =
          encodeURIComponent id.toList := List.drop_left' rfl
      have hall : (encodeURIComponent id.toList).all (fun c => !isLineTerminator c) = true := by
        refine List.all_eq_true.mpr ?_
        intro x hx
        rw [(mem_encodeURIComponent hx).2.2]
        rfl
      rw [htrim, eventSegment, htake, hdrop, if_pos ⟨rfl, hnil, hall⟩]
      rfl

/-- What a link was written for is what opening it restores; the bare link is none. -/
theorem openLink_stringifyUrl (state : UrlState) (h : state.expandedEventId ≠ some "") :
    openLink (stringifyUrl state) = .ok (if state = defaultState then none else some state) := by
  obtain ⟨hplain, hsegment⟩ := linkPath_spec state h
  have hpath : ∀ x ∈ linkPath state, (x != '?') = true := by
    intro x hx
    simpa using hplain x hx
  have hsplit : ∀ query : List Char,
      (linkPath state ++ if query = [] then [] else '?' :: query).takeWhile (fun c => c != '?') =
          linkPath state ∧
        (linkPath state ++ if query = [] then [] else '?' :: query).dropWhile (fun c => c != '?') =
          if query = [] then [] else '?' :: query := by
    intro query
    rw [List.takeWhile_append_of_pos hpath, List.dropWhile_append_of_pos hpath]
    by_cases hq : query = [] <;> simp [hq]
  obtain ⟨htake, hdrop⟩ := hsplit (queryParams state).render
  simp only [openLink, stringifyUrl, String.toList_ofList, htake, hdrop, parseUrl, hsegment,
    SearchParams.ofQuery_render]
  cases hid : state.expandedEventId with
  | none =>
    have hstate := stateOf_queryParams state
    rw [hid] at hstate
    have hnil : queryParams state = [] ↔ state = defaultState := by
      rw [queryParams_eq_nil]
      constructor
      · intro hdefault
        obtain ⟨filters, network, event⟩ := state
        obtain ⟨hfilters, hnetwork⟩ := hdefault
        simp only at hfilters hnetwork hid
        rw [hfilters, hnetwork, hid]
        rfl
      · intro heq
        rw [heq]
        exact ⟨rfl, rfl⟩
    simp only [Option.map_none, hstate, hnil]
    split <;> rfl
  | some id =>
    have hstate := stateOf_queryParams state
    rw [hid] at hstate
    have hne : state ≠ defaultState := by
      intro heq
      rw [heq] at hid
      cases hid
    simp only [Option.map_some, decodeURIComponent_encodeURIComponent, String.ofList_toList, hstate,
      hne, if_false]

theorem expandedEventId_of_parseUrl {pathname search : String} {state : UrlState}
    (h : parseUrl pathname search = .ok (some state)) : state.expandedEventId ≠ some "" := by
  unfold parseUrl at h
  simp only at h
  split at h
  · split at h
    · cases h
    · cases h
      simp [stateOf]
  · rename_i segment hsegment
    split at h
    · cases h
    · rename_i id hid
      cases h
      intro heq
      have hnil : id = [] := by
        simpa [stateOf] using heq
      have hempty := (decodeFrom_eq_nil hid hnil).2
      unfold eventSegment at hsegment
      split at hsegment
      · rename_i hmatch
        cases hsegment
        exact hmatch.2.1 hempty
      · cases hsegment

/-- Every view state comes back from its link, the bare one as none. And a path and
query that a visitor opens give a state whose link gives it again, exactly when the
event's part of the path is well escaped; otherwise a `URIError` is thrown. -/
theorem deep_links_round_trip (pathname search : String) :
    (∀ state : UrlState, state.expandedEventId ≠ some "" →
      openLink (stringifyUrl state) = .ok (if state = defaultState then none else some state)) ∧
    ((∃ opened, parseUrl pathname search = .ok opened ∧ ∀ state, opened = some state →
        openLink (stringifyUrl state) = .ok (if state = defaultState then none else some state)) ↔
      ∀ segment, eventSegment (trimmedPath pathname) = some segment → WellEscaped segment) := by
  refine ⟨openLink_stringifyUrl, ?_⟩
  constructor
  · intro h segment hsegment
    obtain ⟨opened, hopened, -⟩ := h
    rw [← decodeURIComponent_isSome_iff]
    cases hd : decodeURIComponent segment with
    | some id => rfl
    | none =>
      simp only [parseUrl, hsegment, hd] at hopened
      cases hopened
  · intro h
    have hok : ∃ opened, parseUrl pathname search = .ok opened := by
      cases hsegment : eventSegment (trimmedPath pathname) with
      | none =>
        simp only [parseUrl, hsegment]
        split <;> exact ⟨_, rfl⟩
      | some segment =>
        have hsome := (decodeURIComponent_isSome_iff segment).mpr (h segment hsegment)
        obtain ⟨id, hid⟩ := Option.isSome_iff_exists.mp hsome
        simp only [parseUrl, hsegment, hid]
        exact ⟨_, rfl⟩
    obtain ⟨opened, hopened⟩ := hok
    refine ⟨opened, hopened, ?_⟩
    intro state hstate
    rw [hstate] at hopened
    exact openLink_stringifyUrl state (expandedEventId_of_parseUrl hopened)

theorem bare_percent_throws : ¬ ∀ pathname search, ∃ opened, parseUrl pathname search = .ok opened := by
  intro h
  obtain ⟨opened, hopened⟩ := h "/events/100%" ""
  have hthrown : parseUrl "/events/100%" "" = .error .malformed := by decide +kernel
  rw [hthrown] at hopened
  cases hopened

end SorobanLens.Web
