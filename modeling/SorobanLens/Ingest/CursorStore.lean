import SorobanLens.Ingest.CursorFile

/-!
When a file per key is a map: what is read back of a saved state, whose file a
call touches, and the runs over keys that no two files are shared by.
-/

set_option autoImplicit false

namespace SorobanLens

/-! ### Names -/

theorem toList_cursorFileName (key : String) : (cursorFileName key).toList.reverse =
    'n' :: 'o' :: 's' :: 'j' :: '.' :: 'r' :: 'o' :: 's' :: 'r' :: 'u' :: 'c' :: '.' ::
      (sanitiseKey key).toList.reverse := by
  have hend : ".cursor.json".toList.reverse =
      ['n', 'o', 's', 'j', '.', 'r', 'o', 's', 'r', 'u', 'c', '.'] := by decide
  rw [cursorFileName, String.toList_append, List.reverse_append, hend]
  rfl

theorem toList_tempFileName (key : String) (stamp : TempStamp) :
    (tempFileName key stamp).toList.reverse = 'p' :: 'm' :: 't' :: '.' ::
      (stamp.text.reverse ++ '.' :: (cursorFileName key).toList.reverse) := by
  simp [tempFileName]

theorem cursorFileName_ne_tempFileName (key key' : String) (stamp : TempStamp) :
    cursorFileName key ≠ tempFileName key' stamp := by
  intro h
  have hrev := congrArg (fun name : String => name.toList.reverse.head?) h
  simp [toList_cursorFileName, toList_tempFileName] at hrev

theorem orphanPid_cursorFileName (key : String) : orphanPid (cursorFileName key) = none := by
  unfold orphanPid
  rw [toList_cursorFileName]
  rfl

/-- The digits a temp file's name ends in are preceded by a letter or by another
number, never by the mark of an orphan. -/
theorem dropWhile_base36 {random : List Char} (h : ∀ c ∈ random, c.isDigit = true ∨ c.isLower = true)
    (d : Char) (cs : List Char) :
    ∃ c rest, (random ++ '.' :: d :: cs).dropWhile Char.isDigit = c :: rest ∧
      (c = '.' → rest = d :: cs) := by
  induction random with
  | nil => exact ⟨'.', d :: cs, rfl, fun _ => rfl⟩
  | cons c random ih =>
    by_cases hc : c.isDigit = true
    · simp only [List.cons_append, List.dropWhile_cons_of_pos hc]
      exact ih (fun x hx => h x (List.mem_cons_of_mem c hx))
    · refine ⟨c, random ++ '.' :: d :: cs, by simp [hc], ?_⟩
      intro hdot
      have hlower := (h c List.mem_cons_self).resolve_left hc
      rw [hdot] at hlower
      exact absurd hlower (by decide)

theorem orphanPid_tempFileName (key : String) (stamp : TempStamp) :
    orphanPid (tempFileName key stamp) = none := by
  unfold orphanPid
  rw [toList_tempFileName]
  simp only
  have hbase : ∀ c ∈ stamp.random.reverse, c.isDigit = true ∨ c.isLower = true :=
    fun c hc => stamp.base36 c (List.mem_reverse.mp hc)
  cases hnow : (Nat.toDigits 10 stamp.now).reverse with
  | nil =>
    have hne : Nat.toDigits 10 stamp.now ≠ [] := Nat.toDigits_ne_nil
    exact absurd (List.reverse_eq_nil_iff.mp hnow) hne
  | cons d ds =>
    have hd : d.isDigit = true := by
      have hmem : d ∈ (Nat.toDigits 10 stamp.now).reverse := by
        rw [hnow]
        exact List.mem_cons_self
      exact Json.isDigit_toDigits (List.mem_reverse.mp hmem)
    have htext : stamp.text.reverse ++ '.' :: (cursorFileName key).toList.reverse =
        stamp.random.reverse ++ '.' :: d :: (ds ++ '.' ::
          ((Nat.toDigits 10 stamp.pid).reverse ++ '.' :: (cursorFileName key).toList.reverse)) := by
      simp [TempStamp.text, hnow]
    obtain ⟨c, rest, hdrop, hdot⟩ := dropWhile_base36 hbase d (ds ++ '.' ::
      ((Nat.toDigits 10 stamp.pid).reverse ++ '.' :: (cursorFileName key).toList.reverse))
    rw [htext, hdrop]
    split
    · rename_i heq
      obtain ⟨rfl, hrest⟩ := List.cons.inj heq
      rw [hdot rfl] at hrest
      rw [(List.cons.inj hrest).1] at hd
      exact absurd hd (by decide)
    · rfl

/-! ### What is read back -/

/-- A state that `load` gives back as it was saved. -/
def CursorState.Readable (state : CursorState) : Prop :=
  state.cursor ≠ "" ∧
    ∀ r, state.retention = some r → 0 < r.oldestLedger ∧ r.oldestLedger ≤ r.latestLedger

theorem parse_cursorText (state : CursorState) :
    Json.parse Json.intFormat (cursorText state) = some (cursorToJson state) := by
  have hnames : ∀ name ∈ ["cursor", "ledger", "updatedAt", "retention", "latestLedger",
      "oldestLedger"], Json.arrayIndex name = none := by decide +kernel
  simp only [List.forall_mem_cons] at hnames
  obtain ⟨hcursor, hledger, hupdated, hretention, hlatest, holdest, -⟩ := hnames
  rw [cursorText, Json.parse_stringifyIndented]
  congr 1
  unfold cursorToJson
  cases state.retention with
  | none =>
    simp only [Option.map_none, Option.getD_none, List.append_nil, Json.normalise,
      Json.normaliseFields]
    congr 1
    exact Json.object_of_names (by simp [hcursor, hledger, hupdated]) (by simp)
  | some r =>
    have hinner : (retentionToJson r).normalise = retentionToJson r := by
      simp only [retentionToJson, Json.normalise, Json.normaliseFields]
      congr 1
      exact Json.object_of_names (by simp [hlatest, holdest]) (by simp)
    simp only [Option.map_some, Option.getD_some, List.cons_append, List.nil_append, Json.normalise,
      Json.normaliseFields, hinner]
    congr 1
    exact Json.object_of_names (by simp [hcursor, hledger, hupdated, hretention]) (by simp)

theorem parseRetention_retentionToJson (r : RetentionState) :
    parseRetention (some (retentionToJson r)) = some r ↔
      0 < r.oldestLedger ∧ r.oldestLedger ≤ r.latestLedger := by
  have hledger : ∀ n : Nat, isLedger (some (.num n)) = if 0 < n then some n else none := by
    intro n
    simp [isLedger]
  have hlatest : [("latestLedger", (.num r.latestLedger : JsonValue)),
      ("oldestLedger", .num r.oldestLedger)].lookup "latestLedger" = some (.num r.latestLedger) := rfl
  have holdest : [("latestLedger", (.num r.latestLedger : JsonValue)),
      ("oldestLedger", .num r.oldestLedger)].lookup "oldestLedger" = some (.num r.oldestLedger) := rfl
  simp only [parseRetention, retentionToJson, hlatest, holdest, hledger]
  by_cases hl : 0 < r.latestLedger
  · by_cases ho : 0 < r.oldestLedger
    · simp only [hl, ho, if_true, true_and]
      by_cases hlt : r.latestLedger < r.oldestLedger
      · simp only [hlt, if_true, reduceCtorEq, false_iff]
        omega
      · simp only [hlt, if_false, true_iff]
        omega
    · simp [hl, ho]
  · simp only [hl, if_false, reduceCtorEq, false_iff]
    omega

theorem readCursor_cursorText (state : CursorState) :
    readCursor (cursorText state) = .ok (some state.loaded) ↔ state.Readable := by
  have hread : readCursor (cursorText state) = if state.cursor = "" then .ok none else
      .ok (some ⟨state.cursor, state.ledger, .str state.updatedAt,
        parseRetention (state.retention.map retentionToJson)⟩) := by
    simp only [readCursor, parse_cursorText, cursorToJson, cursorOfJson]
    cases state.retention <;> rfl
  rw [hread]
  unfold CursorState.Readable CursorState.loaded
  by_cases hc : state.cursor = ""
  · simp [hc]
  · cases hr : state.retention with
    | none => simp [hc, parseRetention]
    | some r => simp [hc, parseRetention_retentionToJson]

/-! ### Runs -/

/-- No temp file is there whose number `process.kill` refuses. -/
def Directory.Tidy (dir : Directory) : Prop :=
  ∀ f ∈ dir.rows, ∀ pid, orphanPid f.name = some pid →
    pid < 2147483648 ∨ Number.MAX_SAFE_INTEGER < pid

def Directory.Unused (dir : Directory) : Prop := ∀ key, dir.find? (cursorFileName key) = none

/-- Every key in use has a file name that the file system takes. -/
def NamesFit (K : Set String) : Prop := ∀ key ∈ K, nameFits (cursorFileName key) = true

def OwnFile (K : Set String) (key : String) : Prop :=
  ∀ key' ∈ K, cursorFileName key' = cursorFileName key → key' = key

/-- A save that the next `load` of every key in use is right after; one whose temp file
has too long a name fails and changes nothing. -/
def CursorCall.Good (K : Set String) : CursorCall → Prop
  | .save key state stamp =>
    nameFits (tempFileName key stamp) = true → state.Readable ∧ OwnFile K key
  | .load _ | .clear _ | .restart _ | .crash _ _ _ _ => True

/-- Every key in use loads the state last saved under it. -/
def FileCursorStore.IsMap (K : Set String) (s : FileCursorStore) : Prop :=
  ∀ key ∈ K, s.load key = .ok ((s.saved key).map CursorState.loaded)

def FileCursorStore.IsMapThroughout (K : Set String) (s : FileCursorStore)
    (calls : List CursorCall) : Prop :=
  ∀ pre, pre <+: calls → (pre.foldl perform s).IsMap K

/-- Every key in use has its own file, and that file holds what was saved. -/
structure FileCursorStore.Filed (K : Set String) (s : FileCursorStore) : Prop where
  cleaned : s.cleanup = .ok ()
  tidy : s.dir.Tidy
  files : ∀ key ∈ K, s.dir.find? (cursorFileName key) =
    (s.saved key).map (fun state => ⟨cursorFileName key, cursorText state⟩)
  own : ∀ key ∈ K, ∀ state, s.saved key = some state → state.Readable ∧ OwnFile K key

theorem isOrphan_ok_iff (alive : Nat → Bool) {name : String} :
    (∃ b, isOrphan alive name = .ok b) ↔
      ∀ pid, orphanPid name = some pid → pid < 2147483648 ∨ Number.MAX_SAFE_INTEGER < pid := by
  unfold isOrphan
  cases hpid : orphanPid name with
  | none => simp
  | some pid =>
    simp only [Option.some.injEq, forall_eq', isProcessAlive]
    by_cases hlow : pid < 2147483648
    · simp only [hlow, if_true, true_or, iff_true]
      split
      · exact ⟨!alive pid, rfl⟩
      · exact ⟨true, rfl⟩
    · simp only [hlow, if_false, false_or]
      by_cases hsafe : pid ≤ Number.MAX_SAFE_INTEGER
      · have hpos : 0 < pid := by omega
        simp [hsafe, hpos, Except.map]
      · simp only [hsafe, false_and, if_false, Except.ok.injEq, exists_eq', true_iff]
        omega

theorem isOrphan_cursorFileName (alive : Nat → Bool) (key : String) :
    isOrphan alive (cursorFileName key) = .ok false := by
  unfold isOrphan
  rw [orphanPid_cursorFileName]

theorem forM_ok {ε α : Type} {f : α → Except ε Unit} {xs : List α} :
    xs.forM f = .ok () ↔ ∀ x ∈ xs, f x = .ok () := by
  induction xs with
  | nil => simp [List.forM_eq_forM, pure, Except.pure]
  | cons x xs ih =>
    rw [List.forall_mem_cons, ← ih, List.forM_eq_forM, List.forM_cons]
    cases f x with
    | error e => simp [bind, Except.bind]
    | ok u => simp [bind, Except.bind]

theorem removeOrphanedTemps_ok_iff (alive : Nat → Bool) {dir : Directory} :
    (removeOrphanedTemps alive dir).1 = .ok () ↔ dir.Tidy := by
  have hok : ∀ name, (isOrphan alive name).map (fun _ => ()) = .ok () ↔
      ∃ b, isOrphan alive name = .ok b := by
    intro name
    cases isOrphan alive name <;> simp [Except.map]
  rw [removeOrphanedTemps, forM_ok]
  simp only [hok, isOrphan_ok_iff]
  rfl

theorem removeOrphanedTemps_tidy (alive : Nat → Bool) {dir : Directory} (h : dir.Tidy) :
    (removeOrphanedTemps alive dir).1 = .ok () ∧ (removeOrphanedTemps alive dir).2.Tidy ∧
      ∀ key, (removeOrphanedTemps alive dir).2.find? (cursorFileName key) =
        dir.find? (cursorFileName key) := by
  refine ⟨(removeOrphanedTemps_ok_iff alive).mpr h, ?_, ?_⟩
  · intro f hf
    exact h f (KeyedTable.mem_deleteWhere.mp hf).1
  · intro key
    refine KeyedTable.find?_deleteWhere ?_
    intro f _ hname
    rw [hname, isOrphan_cursorFileName]
    rfl

namespace FileCursorStore

variable {K : Set String} {s : FileCursorStore}

theorem Filed.isMap (h : s.Filed K) (hfit : NamesFit K) : s.IsMap K := by
  intro key hkey
  unfold load
  rw [h.cleaned]
  simp only [hfit key hkey, if_true, h.files key hkey]
  cases hsaved : s.saved key with
  | none => rfl
  | some state =>
    exact (readCursor_cursorText state).mpr (h.own key hkey state hsaved).1

theorem Filed.new {dir : Directory} {saved : String → Option CursorState} (alive : Nat → Bool)
    (htidy : dir.Tidy)
    (hfiles : ∀ key ∈ K, dir.find? (cursorFileName key) =
      (saved key).map (fun state => ⟨cursorFileName key, cursorText state⟩))
    (hown : ∀ key ∈ K, ∀ state, saved key = some state → state.Readable ∧ OwnFile K key) :
    (FileCursorStore.new alive dir saved).Filed K := by
  obtain ⟨hok, htidy', hsame⟩ := removeOrphanedTemps_tidy alive htidy
  refine ⟨hok, htidy', ?_, hown⟩
  intro key hkey
  exact (hsame key).trans (hfiles key hkey)

theorem tidy_upsert_temp {dir : Directory} (h : dir.Tidy) (key : String) (stamp : TempStamp)
    (text : String) : Directory.Tidy (dir.upsert ⟨tempFileName key stamp, text⟩) := by
  intro f hf pid hpid
  rcases KeyedTable.mem_upsert.mp hf with rfl | ⟨hold, -⟩
  · rw [orphanPid_tempFileName] at hpid
    cases hpid
  · exact h f hold pid hpid

theorem find?_upsert_temp (dir : Directory) (key key' : String) (stamp : TempStamp) (text : String) :
    (dir.upsert ⟨tempFileName key stamp, text⟩).find? (cursorFileName key') =
      dir.find? (cursorFileName key') :=
  KeyedTable.find?_upsert_of_ne (cursorFileName_ne_tempFileName key' key stamp)

theorem save_of_fits (hclean : s.cleanup = .ok ()) {key : String} (state : CursorState)
    {stamp : TempStamp} (hfits : nameFits (tempFileName key stamp) = true) :
    s.save key state stamp =
      { s with
        dir := ((s.dir.upsert ⟨tempFileName key stamp, cursorText state⟩).deleteWhere
          (fun f => f.name == tempFileName key stamp)).upsert ⟨cursorFileName key, cursorText state⟩
        saved := Function.update s.saved key (some state) } := by
  simp only [FileCursorStore.save, writeTemp, hclean, hfits, if_true]

theorem Filed.save (h : s.Filed K) {key : String} (hkey : key ∈ K) {state : CursorState}
    {stamp : TempStamp} (hfits : nameFits (tempFileName key stamp) = true) (hread : state.Readable)
    (hown : OwnFile K key) : (s.save key state stamp).Filed K := by
  rw [save_of_fits h.cleaned state hfits]
  refine ⟨h.cleaned, ?_, ?_, ?_⟩
  · intro f hf pid hpid
    rcases KeyedTable.mem_upsert.mp hf with rfl | ⟨hold, -⟩
    · rw [orphanPid_cursorFileName] at hpid
      cases hpid
    · exact tidy_upsert_temp h.tidy key stamp _ f (KeyedTable.mem_deleteWhere.mp hold).1 pid hpid
  · intro key' hkey'
    dsimp only
    by_cases hk : key' = key
    · subst hk
      rw [Function.update_self]
      exact KeyedTable.find?_upsert_self _ (⟨cursorFileName key', cursorText state⟩ : CursorFile)
    · have hname : cursorFileName key' ≠ cursorFileName key := fun hn => hk (hown key' hkey' hn)
      rw [Function.update_of_ne hk, ← h.files key' hkey',
        ← find?_upsert_temp s.dir key key' stamp (cursorText state)]
      have hlast := KeyedTable.find?_upsert_of_ne (t := (KeyedTable.upsert s.dir
        ⟨tempFileName key stamp, cursorText state⟩).deleteWhere
          (fun f => f.name == tempFileName key stamp))
        (r := (⟨cursorFileName key, cursorText state⟩ : CursorFile)) hname
      refine hlast.trans (KeyedTable.find?_deleteWhere ?_)
      intro f _ hf
      rw [hf]
      exact beq_false_of_ne (cursorFileName_ne_tempFileName key' key stamp)
  · intro key' hkey' state' hsaved
    dsimp only at hsaved
    by_cases hk : key' = key
    · subst hk
      rw [Function.update_self] at hsaved
      rw [← Option.some.inj hsaved]
      exact ⟨hread, hown⟩
    · rw [Function.update_of_ne hk] at hsaved
      exact h.own key' hkey' state' hsaved

theorem Filed.clear (h : s.Filed K) {key : String} (hkey : key ∈ K) (hfit : NamesFit K) :
    (s.clear key).Filed K := by
  have hclear : s.clear key =
      { s with
        dir := s.dir.deleteWhere (fun f => f.name == cursorFileName key)
        saved := Function.update s.saved key none } := by
    simp only [FileCursorStore.clear, h.cleaned, hfit key hkey, if_true]
  rw [hclear]
  refine ⟨h.cleaned, ?_, ?_, ?_⟩
  · intro f hf
    exact h.tidy f (KeyedTable.mem_deleteWhere.mp hf).1
  · intro key' hkey'
    dsimp only
    by_cases hname : cursorFileName key' = cursorFileName key
    · have hnone : Function.update s.saved key none key' = none := by
        by_cases hk : key' = key
        · rw [hk, Function.update_self]
        · rw [Function.update_of_ne hk]
          cases hsaved : s.saved key' with
          | none => rfl
          | some state =>
            have hsame := (h.own key' hkey' state hsaved).2 key hkey hname.symm
            exact absurd hsame.symm hk
      rw [hnone, hname]
      refine KeyedTable.find?_deleteWhere_eq_none ?_
      intro f _ hf
      rw [hf]
      exact beq_self_eq_true _
    · have hk : key' ≠ key := fun he => hname (by rw [he])
      rw [Function.update_of_ne hk, ← h.files key' hkey']
      refine KeyedTable.find?_deleteWhere ?_
      intro f _ hf
      rw [hf]
      exact beq_false_of_ne hname
  · intro key' hkey' state' hsaved
    dsimp only at hsaved
    by_cases hk : key' = key
    · rw [hk, Function.update_self] at hsaved
      cases hsaved
    · rw [Function.update_of_ne hk] at hsaved
      exact h.own key' hkey' state' hsaved

theorem Filed.perform (h : s.Filed K) (hfit : NamesFit K) {call : CursorCall}
    (hkey : ∀ key, call.key = some key → key ∈ K) (hgood : call.Good K) :
    (s.perform call).Filed K := by
  cases call with
  | load key => exact h
  | save key state stamp =>
    change (s.save key state stamp).Filed K
    by_cases hfits : nameFits (tempFileName key stamp) = true
    · obtain ⟨hread, hown⟩ := hgood hfits
      exact h.save (hkey key rfl) hfits hread hown
    · have hsame : s.save key state stamp = s := by
        simp only [FileCursorStore.save, h.cleaned, if_neg hfits]
      rw [hsame]
      exact h
  | clear key => exact h.clear (hkey key rfl) hfit
  | restart alive => exact .new alive h.tidy h.files h.own
  | crash key stamp written alive =>
    change (FileCursorStore.new alive (s.writeTemp key stamp written) s.saved).Filed K
    by_cases hfits : nameFits (tempFileName key stamp) = true
    · have htemp : s.writeTemp key stamp written =
          s.dir.upsert ⟨tempFileName key stamp, written⟩ := by
        simp only [writeTemp, h.cleaned, hfits, if_true]
      refine .new alive ?_ ?_ h.own
      · rw [htemp]
        exact tidy_upsert_temp h.tidy key stamp written
      · intro key' hkey'
        rw [htemp, find?_upsert_temp]
        exact h.files key' hkey'
    · have htemp : s.writeTemp key stamp written = s.dir := by
        simp only [writeTemp, h.cleaned, if_neg hfits]
      rw [htemp]
      exact .new alive h.tidy h.files h.own

theorem Filed.good (h : s.Filed K) (hfit : NamesFit K) {call : CursorCall}
    (hkey : ∀ key, call.key = some key → key ∈ K) (hmap : (s.perform call).IsMap K) :
    call.Good K := by
  cases call with
  | load key => trivial
  | clear key => trivial
  | restart alive => trivial
  | crash key stamp written alive => trivial
  | save key state stamp =>
    intro hfits
    have hsave := save_of_fits h.cleaned state hfits
    have hload : ∀ key', cursorFileName key' = cursorFileName key →
        (s.save key state stamp).load key' = readCursor (cursorText state) := by
      intro key' hname
      have hfound : (s.save key state stamp).dir.find? (cursorFileName key) =
          some ⟨cursorFileName key, cursorText state⟩ := by
        rw [hsave]
        exact KeyedTable.find?_upsert_self _ (⟨cursorFileName key, cursorText state⟩ : CursorFile)
      have hok : (s.save key state stamp).cleanup = .ok () := by
        rw [hsave]
        exact h.cleaned
      simp only [load, hok, hname, hfit key (hkey key rfl), if_true, hfound]
    have hsaved : (s.save key state stamp).saved = Function.update s.saved key (some state) := by
      rw [hsave]
    have hread : readCursor (cursorText state) = .ok (some state.loaded) := by
      have hself := hmap key (hkey key rfl)
      change (s.save key state stamp).load key =
        Except.ok (((s.save key state stamp).saved key).map CursorState.loaded) at hself
      rw [hload key rfl, hsaved, Function.update_self] at hself
      exact hself
    refine ⟨(readCursor_cursorText state).mp hread, ?_⟩
    intro key' hkey' hname
    by_contra hk
    have hother := hmap key' hkey'
    change (s.save key state stamp).load key' =
      Except.ok (((s.save key state stamp).saved key').map CursorState.loaded) at hother
    rw [hload key' hname, hread, hsaved, Function.update_of_ne hk] at hother
    cases hold : s.saved key' with
    | none =>
      rw [hold] at hother
      cases hother
    | some state' =>
      have hsame := (h.own key' hkey' state' hold).2 key (hkey key rfl) hname.symm
      exact hk hsame.symm

theorem isMap_run_iff (h : s.Filed K) (hfit : NamesFit K) {calls : List CursorCall}
    (hkeys : ∀ call ∈ calls, ∀ key, call.key = some key → key ∈ K) :
    s.IsMapThroughout K calls ↔ ∀ call ∈ calls, call.Good K := by
  unfold IsMapThroughout
  induction calls generalizing s with
  | nil =>
    simp only [List.prefix_nil, forall_eq, List.foldl_nil, List.not_mem_nil, false_implies,
      implies_true, iff_true]
    exact h.isMap hfit
  | cons call calls ih =>
    have hkey := hkeys call List.mem_cons_self
    have hrest := fun c hc => hkeys c (List.mem_cons_of_mem call hc)
    constructor
    · intro hmap
      have hgood := h.good hfit hkey (hmap [call] (by simp))
      have htail := (ih (h.perform hfit hkey hgood) hrest).mp (by
        intro pre hpre
        have hlonger := hmap (call :: pre) (List.cons_prefix_cons.mpr ⟨rfl, hpre⟩)
        exact hlonger)
      exact List.forall_mem_cons.mpr ⟨hgood, htail⟩
    · intro hgood
      obtain ⟨hfirst, htail⟩ := List.forall_mem_cons.mp hgood
      intro pre hpre
      cases pre with
      | nil => exact h.isMap hfit
      | cons c pre =>
        obtain ⟨rfl, hshorter⟩ := List.cons_prefix_cons.mp hpre
        exact (ih (h.perform hfit hkey hfirst) hrest).mpr htail pre hshorter

theorem tidy_and_fit_of_isMap {alive : Nat → Bool} {dir : Directory}
    {saved : String → Option CursorState} (hK : K.Nonempty)
    (h : (FileCursorStore.new alive dir saved).IsMap K) : dir.Tidy ∧ NamesFit K := by
  have hok : (removeOrphanedTemps alive dir).1 = .ok () := by
    obtain ⟨key, hkey⟩ := hK
    have hload := h key hkey
    unfold load at hload
    cases hc : (FileCursorStore.new alive dir saved).cleanup with
    | error e =>
      rw [hc] at hload
      cases hload
    | ok u => exact hc
  refine ⟨(removeOrphanedTemps_ok_iff alive).mp hok, ?_⟩
  intro key hkey
  have hload := h key hkey
  have hcleanup : (FileCursorStore.new alive dir saved).cleanup = .ok () := hok
  simp only [load, hcleanup] at hload
  split at hload
  · assumption
  · cases hload

end FileCursorStore

/-- In a run over some keys the store is a map all along exactly when the clean-up can go
through the directory, the file of every key has a name that fits, and every save that
completes writes a state that reads back to a file no other key in use shares. -/
theorem cursor_store_is_map_iff {K : Set String} (hK : K.Nonempty) (alive : Nat → Bool)
    {dir : Directory} (hdir : dir.Unused) {calls : List CursorCall}
    (hkeys : ∀ call ∈ calls, ∀ key, call.key = some key → key ∈ K) :
    (FileCursorStore.new alive dir (fun _ => none)).IsMapThroughout K calls ↔
      dir.Tidy ∧ NamesFit K ∧ ∀ call ∈ calls, call.Good K := by
  have hfiled : dir.Tidy → (FileCursorStore.new alive dir (fun _ => none)).Filed K := by
    intro htidy
    refine .new alive htidy (fun key _ => hdir key) ?_
    intro key _ state hsaved
    cases hsaved
  constructor
  · intro h
    obtain ⟨htidy, hfit⟩ := FileCursorStore.tidy_and_fit_of_isMap hK (h [] (List.nil_prefix))
    exact ⟨htidy, hfit, (FileCursorStore.isMap_run_iff (hfiled htidy) hfit hkeys).mp h⟩
  · intro h
    obtain ⟨htidy, hfit, hgood⟩ := h
    exact (FileCursorStore.isMap_run_iff (hfiled htidy) hfit hkeys).mpr hgood

theorem tidy_empty : Directory.Tidy .empty := by
  intro f hf
  cases hf

def cursorStamp : TempStamp := ⟨7, 1700000000000, [], by simp⟩

def savedCursor : CursorState := ⟨"0000-1", 5, "2026-10-01T00:00:00Z", some ⟨9, 2⟩⟩

theorem cursor_store_is_map_one :
    (FileCursorStore.new (fun _ => true) .empty (fun _ => none)).IsMapThroughout {"a"}
      [.save "a" savedCursor cursorStamp, .crash "a" cursorStamp "\x7b" (fun _ => false),
        .load "a", .clear "a"] := by
  refine (cursor_store_is_map_iff (Set.singleton_nonempty "a") (fun _ => true) (fun _ => rfl)
    ?_).mpr ⟨tidy_empty, ?_, ?_⟩
  · simp [CursorCall.key]
  · intro key hkey
    obtain rfl := Set.mem_singleton_iff.mp hkey
    decide +kernel
  · simp [CursorCall.Good, CursorState.Readable, savedCursor, OwnFile]

def chunkKeys : Set String := {chunkCursorKey "a" 0 2, "a_chunk-0-of-2"}

/-- The cursor of a chunk is another key's too. -/
theorem chunk_cursor_shared :
    ¬ (FileCursorStore.perform (.new (fun _ => true) .empty (fun _ => none))
      (.save (chunkCursorKey "a" 0 2) savedCursor cursorStamp)).IsMap chunkKeys := by
  intro hmap
  have hsaved : chunkCursorKey "a" 0 2 ∈ chunkKeys := .inl rfl
  have hempty : (FileCursorStore.new (fun _ => true) .empty (fun _ => none)).Filed chunkKeys :=
    .new _ tidy_empty (fun _ _ => rfl) (fun _ _ _ hsaved => by cases hsaved)
  have hfit : NamesFit chunkKeys := by
    intro key hkey
    rcases hkey with rfl | rfl <;> decide +kernel
  have hgood := hempty.good hfit (fun key hkey => by cases hkey; exact hsaved) hmap
  have hsame : cursorFileName "a_chunk-0-of-2" = cursorFileName (chunkCursorKey "a" 0 2) := by
    decide +kernel
  have hkey := (hgood (by decide +kernel)).2 "a_chunk-0-of-2" (.inr rfl) hsame
  exact absurd hkey (by decide)

/-! ### What the clean-up removes -/

/-- A file that no save of any process leaves behind. -/
def CursorFile.Foreign (f : CursorFile) : Prop := ∀ key stamp, f.name ≠ tempFileName key stamp

def CleansUp (alive : Nat → Bool) (dir : Directory) : Prop :=
  ∀ saved, ∀ f ∈ dir.rows,
    (∀ key stamp, f.name = tempFileName key stamp →
      (f ∈ (FileCursorStore.new alive dir saved).dir.rows ↔ alive stamp.pid = true)) ∧
    (f.Foreign → f ∈ (FileCursorStore.new alive dir saved).dir.rows)

theorem mem_new {alive : Nat → Bool} {dir : Directory} {saved : String → Option CursorState}
    {f : CursorFile} : f ∈ (FileCursorStore.new alive dir saved).dir.rows ↔
      f ∈ dir.rows ∧ isOrphan alive f.name ≠ .ok true := by
  rw [FileCursorStore.new, removeOrphanedTemps, KeyedTable.mem_deleteWhere]
  cases isOrphan alive f.name with
  | error e => simp [Except.toOption]
  | ok b => cases b <;> simp [Except.toOption]

/-- No temp file is taken for an orphan: the clean-up reads another format. -/
theorem isOrphan_tempFileName (alive : Nat → Bool) (key : String) (stamp : TempStamp) :
    isOrphan alive (tempFileName key stamp) = .ok false := by
  unfold isOrphan
  rw [orphanPid_tempFileName]

theorem cleans_up_iff (alive : Nat → Bool) (dir : Directory) : CleansUp alive dir ↔
    ∀ f ∈ dir.rows, (∀ key stamp, f.name = tempFileName key stamp → alive stamp.pid = true) ∧
      isOrphan alive f.name ≠ .ok true := by
  constructor
  · intro h f hf
    obtain ⟨htemp, hforeign⟩ := h (fun _ => none) f hf
    have hkept : f ∈ (FileCursorStore.new alive dir (fun _ => none)).dir.rows := by
      by_cases hname : f.Foreign
      · exact hforeign hname
      · simp only [CursorFile.Foreign, not_forall, not_not] at hname
        obtain ⟨key, stamp, hname⟩ := hname
        refine mem_new.mpr ⟨hf, ?_⟩
        rw [hname, isOrphan_tempFileName]
        simp
    exact ⟨fun key stamp hname => (htemp key stamp hname).mp hkept, (mem_new.mp hkept).2⟩
  · intro h saved f hf
    obtain ⟨halive, horphan⟩ := h f hf
    have hkept : f ∈ (FileCursorStore.new alive dir saved).dir.rows := mem_new.mpr ⟨hf, horphan⟩
    exact ⟨fun key stamp hname => ⟨fun _ => halive key stamp hname, fun _ => hkept⟩, fun _ => hkept⟩

def deadStamp : TempStamp := ⟨7, 1700000000000, ['k', '2', 'x'], by simp⟩

/-- A process that died while it wrote leaves its temp file for good. -/
theorem dead_temp_kept : ¬ CleansUp (fun _ => false)
    ((FileCursorStore.new (fun _ => true) .empty (fun _ => none)).writeTemp "k" deadStamp "") := by
  intro h
  have hmem : (⟨tempFileName "k" deadStamp, ""⟩ : CursorFile) ∈
      ((FileCursorStore.new (fun _ => true) .empty (fun _ => none)).writeTemp "k" deadStamp "").rows := by
    have hfits : nameFits (tempFileName "k" deadStamp) = true := by decide +kernel
    have hcleaned := (removeOrphanedTemps_ok_iff (fun _ => true)).mpr tidy_empty
    simp only [FileCursorStore.writeTemp, FileCursorStore.new, hcleaned, hfits, if_true]
    exact KeyedTable.mem_upsert.mpr (.inl rfl)
  have hlive := ((h (fun _ => none) _ hmem).1 "k" deadStamp rfl).mp
  refine absurd (hlive (mem_new.mpr ⟨hmem, ?_⟩)) (by decide)
  rw [isOrphan_tempFileName]
  simp

end SorobanLens
