import SorobanLens.Store.Snapshot

/-!
The lines of a snapshot: the record of an event reads back as the event, and is
one line unless a string holds a separator that `JSON.stringify` leaves as it is.
-/

set_option autoImplicit false

namespace SorobanLens

/-! ### The record of an event -/

theorem object_record (e : LensEvent) {fs : List (String × JsonValue)}
    (h : eventToJson e = .obj fs) :
    Json.object (Json.normaliseFields fs) = Json.normaliseFields fs := by
  obtain rfl := Json.obj.inj h
  rw [Json.normaliseFields_eq]
  cases e.decodeError with
  | none =>
    refine Json.object_of_names ?_ ?_
    · simp only [Option.toList_none, List.map_nil, List.append_nil, List.cons_append,
        List.nil_append, List.map_cons, List.forall_mem_cons]
      decide +kernel
    · simp only [Option.toList_none, List.map_nil, List.append_nil, List.cons_append,
        List.nil_append, List.map_cons]
      decide +kernel
  | some text =>
    refine Json.object_of_names ?_ ?_
    · simp only [Option.toList_some, List.map_nil, List.cons_append, List.nil_append,
        List.map_cons, List.forall_mem_cons]
      decide +kernel
    · simp only [Option.toList_some, List.map_nil, List.cons_append, List.nil_append, List.map_cons]
      decide +kernel

theorem eventOfJson_record (e : LensEvent) :
    eventOfJson (eventToJson e).normalise = some e.normalise := by
  have htopics : topicsOfJson (topicsToJson e.topics).normalise =
      some (e.topics.map DecodedValue.normalise) := by
    have h := parse_topics e.topics
    simpa only [parseJson, stringify, Json.parse_stringify, Option.bind_some] using h
  have hxdr : stringsOfJson (stringsToJson e.topicsXdr).normalise = some e.topicsXdr := by
    have h := parse_strings e.topicsXdr
    simpa only [parseJson, stringify, Json.parse_stringify, Option.bind_some] using h
  have hvalue := ofJson_normalise_toJson e.value
  have htype := EventType.ofText_text e.type
  have hnames := object_record e rfl
  unfold eventToJson
  rw [Json.normalise, hnames, Json.normaliseFields_eq]
  cases hd : e.decodeError with
  | none =>
    simp [eventOfJson, List.lookup_cons, Json.normalise, stringOfJson, natOfJson, boolOfJson, htopics,
      hxdr, hvalue, htype, LensEvent.normalise, hd]
  | some text =>
    simp [eventOfJson, List.lookup_cons, Json.normalise, stringOfJson, natOfJson, boolOfJson, htopics,
      hxdr, hvalue, htype, LensEvent.normalise, hd]

theorem ofJson_canonical {v : JsonValue} {d : DecodedValue} (hv : Json.Canonical v)
    (h : DecodedValue.ofJson v = some d) : d.normalise = d := by
  unfold DecodedValue.ofJson at h
  split at h
  · rename_i fields
    split at h
    · rename_i hvalue
      cases h
      obtain ⟨before, after, rfl, -⟩ := List.lookup_eq_some_iff.mp hvalue
      have hfield : Json.normalise _ = _ := hv.field (List.mem_append_right before List.mem_cons_self)
      rw [DecodedValue.normalise, hfield]
    · cases h
  · cases h

theorem normalise_rowToEvent {row : EventRow} {e : LensEvent} (h : rowToEvent row = some e) :
    e.normalise = e := by
  simp only [rowToEvent, parseJson, Option.bind_eq_bind, Option.bind_eq_some_iff, Option.pure_def,
    Option.some.injEq] at h
  obtain ⟨topics, ⟨tv, ht, htopics⟩, xdr, -, value, ⟨vv, hv, hvalue⟩, rfl⟩ := h
  have hitems : ∀ d ∈ topics, d.normalise = d := by
    cases tv with
    | arr items =>
      have hcanon : ∀ x ∈ items, Json.Canonical x :=
        fun x hx => (Json.parse_canonical ht).item hx
      have hall := mapM_eq_some.mp (show items.mapM DecodedValue.ofJson = some topics from htopics)
      clear htopics ht
      induction hall with
      | nil => simp
      | @cons x y xs ys hx _ ih =>
        obtain ⟨hfirst, hrest⟩ := List.forall_mem_cons.mp hcanon
        exact List.forall_mem_cons.mpr ⟨ofJson_canonical hfirst hx, ih hrest⟩
    | _ => cases htopics
  have hmap : topics.map DecodedValue.normalise = topics := by
    rw [List.map_congr_left hitems, List.map_id']
  simp only [LensEvent.normalise, hmap, ofJson_canonical (Json.parse_canonical hv) hvalue]

/-! ### One record, one line -/

theorem trimChars_cons {c : Char} (h : JsNumber.isWhite c = false) (cs : List Char) :
    ∃ blank, JsNumber.trimChars (c :: cs) ++ blank = c :: cs ∧
      ∃ ds, JsNumber.trimChars (c :: cs) = c :: ds := by
  have hfront : (c :: cs).dropWhile JsNumber.isWhite = c :: cs := by simp [h]
  have hback : (c :: cs).reverse.dropWhile JsNumber.isWhite =
      cs.reverse.dropWhile JsNumber.isWhite ++ [c] := by
    rw [List.reverse_cons, List.dropWhile_append]
    cases hd : cs.reverse.dropWhile JsNumber.isWhite <;> simp [h]
  have hsplit := List.takeWhile_append_dropWhile (p := JsNumber.isWhite) (l := (c :: cs).reverse)
  refine ⟨((c :: cs).reverse.takeWhile JsNumber.isWhite).reverse, ?_, ?_⟩
  · rw [JsNumber.trimChars, hfront, ← List.reverse_append, hsplit, List.reverse_reverse]
  · rw [JsNumber.trimChars, hfront, hback]
    exact ⟨(cs.reverse.dropWhile JsNumber.isWhite).reverse, by simp⟩

theorem trimChars_ends {c d : Char} (hc : JsNumber.isWhite c = false)
    (hd : JsNumber.isWhite d = false) (cs : List Char) :
    JsNumber.trimChars (c :: (cs ++ [d])) = c :: (cs ++ [d]) := by
  have hfront : (c :: (cs ++ [d])).dropWhile JsNumber.isWhite = c :: (cs ++ [d]) := by simp [hc]
  have hback : (c :: (cs ++ [d])).reverse = d :: (cs.reverse ++ [c]) := by simp
  rw [JsNumber.trimChars, hfront, hback]
  simp [hd]

theorem renderFields_ends (fs : List (String × JsonValue)) :
    ∃ cs, Json.renderFields Json.intFormat fs = cs ++ ['}'] := by
  induction fs with
  | nil => exact ⟨[], by simp [Json.renderFields]⟩
  | cons f fs ih =>
    obtain ⟨cs, hcs⟩ := ih
    refine ⟨',' :: (Json.quote f.1 ++ ':' :: (Json.render Json.intFormat f.2 ++ cs)), ?_⟩
    simp [Json.renderFields, hcs]

theorem renderObject_ends (k : String) (v : JsonValue) (fs : List (String × JsonValue)) :
    ∃ cs, Json.render Json.intFormat (.obj ((k, v) :: fs)) = '{' :: (cs ++ ['}']) := by
  obtain ⟨cs, hcs⟩ := renderFields_ends fs
  refine ⟨Json.quote k ++ ':' :: (Json.render Json.intFormat v ++ cs), ?_⟩
  simp [Json.render, hcs]

theorem recordText_ends (e : LensEvent) : ∃ cs, recordText e = '{' :: (cs ++ ['}']) :=
  renderObject_ends "id" (.str e.id) _

theorem readLine_recordText (e : LensEvent) : readLine (recordText e) = some (some e.normalise) := by
  obtain ⟨cs, hcs⟩ := recordText_ends e
  have htrim : JsNumber.trimChars (recordText e) = recordText e := by
    rw [hcs]
    exact trimChars_ends (by decide) (by decide) cs
  have hne : recordText e ≠ [] := by simp [hcs]
  have hparse : parseJson (String.ofList (recordText e)) = some (eventToJson e).normalise :=
    Json.parse_stringify Json.intFormat (eventToJson e)
  simp only [readLine, htrim, hne, if_false, hparse, Option.bind_some, eventOfJson_record,
    Option.map_some]

theorem readLine_cut {e : LensEvent} {line more : List Char} {c : Char}
    (h : recordText e = line ++ c :: more) (hline : line ≠ []) (hc : Json.isSpace c = false) :
    readLine line = none := by
  obtain ⟨cs, hcs⟩ := recordText_ends e
  obtain ⟨d, rest, rfl⟩ := List.exists_cons_of_ne_nil hline
  have hd : d = '{' := by
    rw [hcs, List.cons_append] at h
    exact (List.cons.inj h).1.symm
  subst hd
  obtain ⟨blank, hblank, ds, hds⟩ := trimChars_cons (show JsNumber.isWhite '{' = false by decide) rest
  have hwhole : Json.parse Json.intFormat
      (String.ofList (JsNumber.trimChars ('{' :: rest) ++ (blank ++ c :: more))) =
        some (eventToJson e).normalise := by
    rw [← List.append_assoc, hblank, ← h]
    exact Json.parse_stringify Json.intFormat (eventToJson e)
  have hmore : Json.skipSpace (blank ++ c :: more) ≠ [] := by
    rw [Json.skipSpace, Ne, List.dropWhile_eq_nil_iff]
    intro hall
    rw [hall c (by simp)] at hc
    cases hc
  have hstart : Json.skipSpace (JsNumber.trimChars ('{' :: rest)) = '{' :: ds := by
    rw [hds]
    exact Json.skipSpace_cons ds (by decide)
  have hnone : parseJson (String.ofList (JsNumber.trimChars ('{' :: rest))) = none :=
    Json.parse_eq_none_of_extend Json.incremental_intFormat hwhole hmore ⟨ds, hstart⟩
  have hne : JsNumber.trimChars ('{' :: rest) ≠ [] := by simp [hds]
  simp [readLine, hne, hnone]

/-- No string of the record holds a line end that `JSON.stringify` leaves raw. -/
def OneLine (e : LensEvent) : Prop :=
  ∀ text ∈ (eventToJson e).texts, '\u2028' ∉ text.toList ∧ '\u2029' ∉ text.toList

instance : DecidablePred OneLine := fun e =>
  inferInstanceAs (Decidable (∀ text ∈ (eventToJson e).texts,
    '\u2028' ∉ text.toList ∧ '\u2029' ∉ text.toList))

theorem mem_renderInt {c : Char} (v : JsonValue) (hc : c ∉ Json.punctuation)
    (hdigit : c.isDigit = false) (hminus : c ≠ '-') :
    c ∈ Json.render Json.intFormat v ↔ ∃ s ∈ v.texts, c ∈ s.toList.flatMap Json.escapeChar := by
  refine Json.mem_render ?_ hc _
  intro n hn
  cases n with
  | ofNat n =>
    rw [Json.isDigit_toDigits hn] at hdigit
    cases hdigit
  | negSucc n =>
    rcases List.mem_cons.mp hn with hn | hn
    · exact hminus hn
    · rw [Json.isDigit_toDigits hn] at hdigit
      cases hdigit

theorem unicode_mem_recordText {c : Char} (e : LensEvent) (hc : c ∉ Json.punctuation)
    (hdigit : c.isDigit = false) (hminus : c ≠ '-') (hcode : 128 ≤ c.toNat) :
    c ∈ recordText e ↔ ∃ s ∈ (eventToJson e).texts, c ∈ s.toList := by
  rw [recordText, mem_renderInt _ hc hdigit hminus]
  refine exists_congr (fun s => and_congr_right (fun _ => ?_))
  rw [List.mem_flatMap]
  constructor
  · intro h
    obtain ⟨d, hd, hcd⟩ := h
    rcases Json.mem_escapeChar hcd with hlow | ⟨rfl, -⟩
    · omega
    · exact hd
  · intro h
    exact ⟨c, h, Json.mem_escapeChar_self hcode⟩

theorem control_not_mem_render {c : Char} (v : JsonValue) (hc : c ∉ Json.punctuation)
    (hdigit : c.isDigit = false) (hminus : c ≠ '-') (hcode : c.toNat < 32) :
    c ∉ Json.render Json.intFormat v := by
  rw [mem_renderInt v hc hdigit hminus]
  intro h
  obtain ⟨s, -, hmem⟩ := h
  obtain ⟨d, -, hcd⟩ := List.mem_flatMap.mp hmem
  rcases Json.mem_escapeChar hcd with hlow | ⟨rfl, hlow⟩ <;> omega

theorem newline_not_mem_recordText (e : LensEvent) : '\n' ∉ recordText e :=
  control_not_mem_render _ (by decide) (by decide) (by decide) (by decide)

theorem return_not_mem_recordText (e : LensEvent) : '\r' ∉ recordText e :=
  control_not_mem_render _ (by decide) (by decide) (by decide) (by decide)

/-- What `JSON.stringify` writes comes back whole from a column. -/
theorem whole_stringify (v : JsonValue) : Whole (stringify v) := by
  unfold Whole stringify Json.stringify
  rw [String.toList_ofList]
  exact control_not_mem_render v (by decide) (by decide) (by decide) (by decide)

theorem oneLine_iff (e : LensEvent) : OneLine e ↔ ∀ c ∈ recordText e, isLineEnd c = false := by
  have hn := newline_not_mem_recordText e
  have hr := return_not_mem_recordText e
  have h1 := unicode_mem_recordText e (show '\u2028' ∉ Json.punctuation by decide) (by decide)
    (by decide) (by decide)
  have h2 := unicode_mem_recordText e (show '\u2029' ∉ Json.punctuation by decide) (by decide)
    (by decide) (by decide)
  constructor
  · intro h c hc
    have hne : c ≠ '\n' ∧ c ≠ '\r' := ⟨fun heq => hn (heq ▸ hc), fun heq => hr (heq ▸ hc)⟩
    have hne1 : c ≠ '\u2028' := by
      intro heq
      obtain ⟨s, hs, hmem⟩ := h1.mp (heq ▸ hc)
      exact (h s hs).1 hmem
    have hne2 : c ≠ '\u2029' := by
      intro heq
      obtain ⟨s, hs, hmem⟩ := h2.mp (heq ▸ hc)
      exact (h s hs).2 hmem
    simp [isLineEnd, hne, hne1, hne2]
  · intro h s hs
    constructor
    · intro hmem
      exact absurd (h _ (h1.mpr ⟨s, hs, hmem⟩)) (by decide)
    · intro hmem
      exact absurd (h _ (h2.mpr ⟨s, hs, hmem⟩)) (by decide)

/-! ### The lines of a snapshot -/

theorem lines_append {line xs : List Char} {c : Char} {cs : List Char}
    (hxs : ∀ x ∈ xs, isLineEnd x = false) (hc : isLineEnd c = true) (hr : c ≠ '\r') :
    lines line (xs ++ c :: cs) = (line ++ xs) :: lines [] cs := by
  induction xs generalizing line with
  | nil =>
    rw [List.nil_append, lines.eq_3 _ _ _ (fun _ h => absurd h hr), if_pos hc, List.append_nil]
  | cons x xs ih =>
    obtain ⟨hx, hrest⟩ := List.forall_mem_cons.mp hxs
    have hxr : x ≠ '\r' := by
      intro heq
      rw [heq] at hx
      cases hx
    rw [List.cons_append, lines.eq_3 _ _ _ (fun _ h => absurd h hxr), hx]
    simp only [Bool.false_eq_true, if_false, ih hrest, List.append_assoc, List.singleton_append]

def fileText (es : List LensEvent) : List Char := es.flatMap (fun e => recordText e ++ ['\n'])

theorem lines_fileText {es : List LensEvent} (h : ∀ e ∈ es, OneLine e) (more : List Char) :
    lines [] (fileText es ++ more) = es.map recordText ++ lines [] more := by
  induction es with
  | nil => rfl
  | cons e es ih =>
    obtain ⟨he, hes⟩ := List.forall_mem_cons.mp h
    have hline : fileText (e :: es) ++ more = recordText e ++ '\n' :: (fileText es ++ more) := by
      simp [fileText]
    rw [hline, lines_append ((oneLine_iff e).mp he) (by decide) (by decide), ih hes]
    rfl

/-- The first record that is not one line is cut at its separator. -/
theorem lines_cut {pre : List LensEvent} {e : LensEvent} {post : List LensEvent}
    (hpre : ∀ x ∈ pre, OneLine x) (he : ¬ OneLine e) :
    ∃ line ∈ lines [] (fileText (pre ++ e :: post)), readLine line = none := by
  have hbreak : ∃ c ∈ recordText e, isLineEnd c = true := by
    rw [oneLine_iff] at he
    push Not at he
    simpa using he
  obtain ⟨c, hfound⟩ := Option.isSome_iff_exists.mp (List.find?_isSome.mpr hbreak)
  obtain ⟨hc, line, more, hrecord, hfirst⟩ := List.find?_eq_some_iff_append.mp hfound
  have hline : ∀ x ∈ line, isLineEnd x = false := fun x hx => by simpa using hfirst x hx
  have hmem : c ∈ recordText e := by simp [hrecord]
  have hn : c ≠ '\n' := fun heq => newline_not_mem_recordText e (heq ▸ hmem)
  have hr : c ≠ '\r' := fun heq => return_not_mem_recordText e (heq ▸ hmem)
  have hspace : Json.isSpace c = false := by
    have hcase : c = '\u2028' ∨ c = '\u2029' := by simpa [isLineEnd, hn, hr] using hc
    rcases hcase with rfl | rfl <;> decide
  have hne : line ≠ [] := by
    intro hnil
    obtain ⟨cs, hcs⟩ := recordText_ends e
    rw [hnil, List.nil_append, hcs] at hrecord
    rw [← (List.cons.inj hrecord).1] at hc
    exact absurd hc (by decide)
  have hfile : fileText (pre ++ e :: post) =
      fileText pre ++ (line ++ c :: (more ++ '\n' :: fileText post)) := by
    simp [fileText, hrecord]
  refine ⟨line, ?_, readLine_cut hrecord hne hspace⟩
  rw [hfile, lines_fileText hpre, lines_append hline hc hr]
  simp

end SorobanLens
