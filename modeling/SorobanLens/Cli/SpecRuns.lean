import SorobanLens.Cli.Specs

/-!
What a queue of spec lookups keeps to over a run, and the run theorem. Two things
go wrong: an id whose attempt ended well is never queued again by the same
fetcher, and a stop while the store is being read comes too late.
-/

set_option autoImplicit false

namespace SorobanLens

variable {ε : Type}

/-! ### What is promised -/

def FetchState.lookedUp : FetchState → Bool
  | .looking | .saving _ => true
  | .done .lookupFailed | .done .saveFailed | .done (.saved _) => true
  | _ => false

/-- Job `k` is for `id`, and its lookup is still to come, has come, or was kept from it by
the store or by `stop`. -/
def SpecFetcher.Attends (f : SpecFetcher) (k : Nat) (id : String) : Prop :=
  ∃ job, f.jobs[k]? = some job ∧ job.id = id ∧
    (job.state = .waiting ∨ job.state = .reading ∨ job.state.lookedUp = true ∨
      job.state = .done .readFailed ∨ f.stopped = true)

def FetchOptions.expiredNone (o : FetchOptions ε) (f : SpecFetcher) (id : String) : Prop :=
  ∃ record, f.stored id = some record ∧ record.source = .none ∧ o.fresh f.now record = false

def FetchState.work : FetchState → Nat
  | .waiting => 4
  | .reading => 3
  | .looking => 2
  | .saving _ => 1
  | .done _ => 0

def SpecFetcher.work (f : SpecFetcher) : Nat := (f.jobs.map (fun job => job.state.work)).sum

structure SpecFetcher.Disciplined (o : FetchOptions ε) (f₀ : SpecFetcher) (events : List FetchEvent) :
    Prop where
  /-- At most one lookup at a time. -/
  oneAtATime : ∀ before after f, events = before ++ after → f₀.exec o before = some f →
    ∀ (i j : Nat) (a b : FetchJob), f.jobs[i]? = some a → f.jobs[j]? = some b →
      a.state = .looking → b.state = .looking → i = j
  /-- A contract with a stored spec is not looked up. -/
  spared : ∀ before after f, events = before ++ after → f₀.exec o before = some f →
    ∀ job ∈ f.jobs, job.state = .looking → ∀ record, f.stored job.id = some record →
      record.source = .none
  /-- After a lookup that failed the next call that names the contract queues it again. -/
  retried : ∀ before (i : Nat) answers now middle contractIds after f g job,
    events = before ++ .job i (.lookedUp answers now) :: (middle ++ .enqueue contractIds :: after) →
    f₀.exec o before = some f → f.jobs[i]? = some job →
    (∃ message, lookupContractSpec o.rd job.id answers now = .error message) →
    (∀ others, .enqueue others ∈ middle → job.id ∉ others) → job.id ∈ contractIds →
    f₀.exec o events = some g → ∃ k, f.jobs.length ≤ k ∧ g.Attends k job.id
  /-- A "none" that has expired is looked up again by the next call that names it. -/
  rechecked : ∀ before contractIds after f g (id : String),
    events = before ++ .enqueue contractIds :: after → f₀.exec o before = some f →
    f.stopped = false → id ∈ contractIds → o.expiredNone f id → f₀.exec o events = some g →
    ∃ (k : Nat) (job : FetchJob), (f.enqueue contractIds).jobs[k]? = some job ∧ job.id = id ∧
      job.state.isDone = false ∧ g.Attends k id
  /-- No lookup starts after `stop`. -/
  halted : ∀ before (i : Nat) e after f g job, events = before ++ .job i e :: after →
    f₀.exec o before = some f → f.step o (.job i e) = some g → g.jobs[i]? = some job →
    job.state = .looking → f.stopped = false
  /-- While a job is unfinished one can go on, and each that does leaves less to do. -/
  proceeds : ∀ before after f, events = before ++ after → f₀.exec o before = some f →
    ((∃ job ∈ f.jobs, job.state.isDone = false) → ∃ i e g, f.step o (.job i e) = some g) ∧
      ∀ i e g, f.step o (.job i e) = some g → g.work < f.work

/-- The step does not take one of the two wrong turns: no call names a contract whose
"none" has expired and that this fetcher has finished with, and no `stop` has come
between the start of a store read and a lookup that follows from it. -/
def SpecFetcher.KeepsClear (o : FetchOptions ε) (f : SpecFetcher) : FetchEvent → Prop
  | .enqueue contractIds => f.stopped = true ∨ ∀ id ∈ contractIds, o.expiredNone f id →
    id ∈ f.attempted → ∃ job ∈ f.jobs, job.id = id ∧ job.state.isDone = false
  | .job i .read => f.stopped = false ∨
    ∀ job, f.jobs[i]? = some job → o.answers f.now (f.stored job.id) = true
  | _ => True

/-! ### The invariant -/

structure SpecFetcher.Orderly (o : FetchOptions ε) (f : SpecFetcher) : Prop where
  chained : ∀ (i j : Nat) (a b : FetchJob), i < j → f.jobs[i]? = some a → f.jobs[j]? = some b →
    b.state ≠ .waiting → a.state.isDone = true
  claimed : ∀ job ∈ f.jobs, job.state.isDone = false → job.id ∈ f.attempted
  unique : ∀ (i j : Nat) (a b : FetchJob), f.jobs[i]? = some a → f.jobs[j]? = some b → a.state.isDone = false →
    b.state.isDone = false → a.id = b.id → i = j
  unanswered : ∀ job ∈ f.jobs, job.state.lookedUp = true → job.state.isDone = false →
    o.answers f.now (f.stored job.id) = false
  own : ∀ job ∈ f.jobs, ∀ record, job.state = .saving record → record.contractId = job.id

theorem orderly_new (o : FetchOptions ε) (stored : String → Option ContractSpecRecord) (now : Int) :
    (SpecFetcher.new stored now).Orderly o := by
  constructor <;> simp [SpecFetcher.new]

/-! ### Steps -/

inductive SpecFetcher.Moves (o : FetchOptions ε) (f : SpecFetcher) (i : Nat) (id : String) :
    FetchState → FetchStep → FetchState → Prop where
  | dropped (hstart : f.mayStart i = true) (hstop : f.stopped = true) :
    Moves o f i id .waiting .start (.done .dropped)
  | begun (hstart : f.mayStart i = true) (hstop : f.stopped = false) :
    Moves o f i id .waiting .start .reading
  | answered (h : o.answers f.now (f.stored id) = true) :
    Moves o f i id .reading .read (.done .answered)
  | looking (h : o.answers f.now (f.stored id) = false) : Moves o f i id .reading .read .looking
  | readFailed : Moves o f i id .reading .readFailed (.done .readFailed)
  | found {answers : SpecAnswers} {now : String} {record : ContractSpecRecord}
    (h : lookupContractSpec o.rd id answers now = .ok record) :
    Moves o f i id .looking (.lookedUp answers now) (.saving record)
  | lookupFailed {answers : SpecAnswers} {now message : String}
    (h : lookupContractSpec o.rd id answers now = .error message) :
    Moves o f i id .looking (.lookedUp answers now) (.done .lookupFailed)
  | saved {record : ContractSpecRecord} :
    Moves o f i id (.saving record) .saved (.done (.saved record))
  | saveFailed {record : ContractSpecRecord} :
    Moves o f i id (.saving record) .saveFailed (.done .saveFailed)

theorem moves_of_fetchOne {o : FetchOptions ε} {f : SpecFetcher} {i : Nat} {job : FetchJob}
    {e : FetchStep} {state : FetchState} (h : f.fetchOne o i job e = some state) :
    f.Moves o i job.id job.state e state := by
  obtain ⟨id, old⟩ := job
  cases e <;> cases old <;> simp only [SpecFetcher.fetchOne, reduceCtorEq, Option.some.injEq] at h
  case start.waiting =>
    split at h
    · rename_i hstart
      obtain rfl := Option.some.inj h
      cases hstop : f.stopped
      · exact .begun hstart hstop
      · exact .dropped hstart hstop
    · cases h
  case read.reading =>
    subst h
    cases hanswers : o.answers f.now (f.stored id)
    · exact .looking hanswers
    · exact .answered hanswers
  case readFailed.reading =>
    subst h
    exact .readFailed
  case lookedUp.looking answers now =>
    subst h
    cases hlookup : lookupContractSpec o.rd id answers now
    · exact .lookupFailed hlookup
    · exact .found hlookup
  case saved.saving =>
    subst h
    exact .saved
  case saveFailed.saving =>
    subst h
    exact .saveFailed

theorem SpecFetcher.Moves.not_done {o : FetchOptions ε} {f : SpecFetcher} {i : Nat} {id : String}
    {old new : FetchState} {e : FetchStep} (h : f.Moves o i id old e new) : old.isDone = false := by
  cases h <;> rfl

theorem step_job {o : FetchOptions ε} {f g : SpecFetcher} {i : Nat} {e : FetchStep}
    (h : f.step o (.job i e) = some g) :
    ∃ job state, f.jobs[i]? = some job ∧ f.Moves o i job.id job.state e state ∧
      g = f.settle i job.id state := by
  rw [SpecFetcher.step, Option.bind_eq_some_iff] at h
  obtain ⟨job, hjob, hmap⟩ := h
  obtain ⟨state, hstate, rfl⟩ := Option.map_eq_some_iff.mp hmap
  exact ⟨job, state, hjob, moves_of_fetchOne hstate, rfl⟩

theorem getElem_settle {f : SpecFetcher} {i : Nat} {job : FetchJob} (h : f.jobs[i]? = some job)
    (id : String) (state : FetchState) (k : Nat) :
    (f.settle i id state).jobs[k]? = if k = i then some ⟨id, state⟩ else f.jobs[k]? := by
  have hi : i < f.jobs.length := (List.getElem?_eq_some_iff.mp h).1
  rw [SpecFetcher.settle, List.getElem?_set]
  by_cases hk : i = k
  · subst hk
    simp [hi]
  · rw [if_neg hk, if_neg (Ne.symm hk)]

theorem settle_cases {f : SpecFetcher} {i : Nat} {job : FetchJob} (h : f.jobs[i]? = some job)
    {id : String} {state : FetchState} {k : Nat} {a : FetchJob}
    (ha : (f.settle i id state).jobs[k]? = some a) :
    k = i ∧ a = ⟨id, state⟩ ∨ k ≠ i ∧ f.jobs[k]? = some a := by
  rw [getElem_settle h] at ha
  split at ha
  · rename_i hk
    exact .inl ⟨hk, (Option.some.inj ha).symm⟩
  · rename_i hk
    exact .inr ⟨hk, ha⟩

/-! ### Time -/

theorem fresh_mono {o : FetchOptions ε} {now : Int} {record : ContractSpecRecord}
    (h : o.fresh now record = false) (ms : Nat) : o.fresh (now + ms) record = false := by
  unfold FetchOptions.fresh at h ⊢
  cases ht : o.dateParse record.fetchedAt with
  | none => rfl
  | some t =>
    rw [ht] at h
    simp only at h ⊢
    have hlater : ((now - t : Int) : ℚ) ≤ ((now + ms - t : Int) : ℚ) := by
      exact_mod_cast (by omega : now - t ≤ now + ms - t)
    cases hretry : o.retryNoneAfterMs with
    | fin q =>
      rw [hretry] at h
      simp only [JsNumber.lt, decide_eq_false_iff_not, not_lt] at h ⊢
      exact h.trans hlater
    | posInf => simp [hretry, JsNumber.lt] at h
    | nan | negInf => rfl

theorem answers_mono {o : FetchOptions ε} {now : Int} {existing : Option ContractSpecRecord}
    (h : o.answers now existing = false) (ms : Nat) : o.answers (now + ms) existing = false := by
  cases existing with
  | none => rfl
  | some record =>
    simp only [FetchOptions.answers, Bool.or_eq_false_iff] at h ⊢
    exact ⟨h.1, fresh_mono h.2 ms⟩

theorem answers_of_expiredNone {o : FetchOptions ε} {f : SpecFetcher} {id : String}
    (h : o.expiredNone f id) : o.answers f.now (f.stored id) = false := by
  obtain ⟨record, hstored, hsource, hfresh⟩ := h
  simp [hstored, FetchOptions.answers, hsource, hfresh]

/-! ### The invariant is kept -/

theorem append_cases {jobs : List FetchJob} {job a : FetchJob} {k : Nat}
    (h : (jobs ++ [job])[k]? = some a) :
    k < jobs.length ∧ jobs[k]? = some a ∨ k = jobs.length ∧ a = job := by
  simp only [List.getElem?_append] at h
  split at h
  · exact .inl ⟨by assumption, h⟩
  · rw [List.getElem?_singleton] at h
    split at h
    · exact .inr ⟨by omega, (Option.some.inj h).symm⟩
    · cases h

theorem orderly_enqueueOne {o : FetchOptions ε} {f : SpecFetcher} (h : f.Orderly o) (id : String) :
    (f.enqueueOne id).Orderly o := by
  unfold SpecFetcher.enqueueOne
  split
  · exact h
  rename_i hnew
  have hfresh : ∀ (k : Nat) (a : FetchJob), f.jobs[k]? = some a → a.state.isDone = false → a.id ≠ id :=
    fun k a ha hdone heq => hnew (heq ▸ h.claimed a (List.mem_of_getElem? ha) hdone)
  constructor
  case chained =>
    intro i j a b hij ha hb hstate
    obtain ⟨-, hb⟩ | ⟨-, rfl⟩ := append_cases hb
    · obtain ⟨-, ha⟩ | ⟨hi, -⟩ := append_cases ha
      · exact h.chained i j a b hij ha hb hstate
      · have hj := (List.getElem?_eq_some_iff.mp hb).1
        omega
    · exact absurd rfl hstate
  case claimed =>
    intro job hjob hdone
    obtain hjob | hjob := List.mem_append.mp hjob
    · exact Finset.mem_insert_of_mem (h.claimed job hjob hdone)
    · obtain rfl := List.mem_singleton.mp hjob
      exact Finset.mem_insert_self _ _
  case unique =>
    intro i j a b ha hb hdone hdone' heq
    obtain ⟨-, ha⟩ | ⟨hi, rfl⟩ := append_cases ha
    · obtain ⟨-, hb⟩ | ⟨-, rfl⟩ := append_cases hb
      · exact h.unique i j a b ha hb hdone hdone' heq
      · exact absurd heq (hfresh i a ha hdone)
    · obtain ⟨-, hb⟩ | ⟨hj, -⟩ := append_cases hb
      · exact absurd heq.symm (hfresh j b hb hdone')
      · omega
  case unanswered =>
    intro job hjob hlooked hdone
    obtain hjob | hjob := List.mem_append.mp hjob
    · exact h.unanswered job hjob hlooked hdone
    · obtain rfl := List.mem_singleton.mp hjob
      cases hlooked
  case own =>
    intro job hjob record hsaving
    obtain hjob | hjob := List.mem_append.mp hjob
    · exact h.own job hjob record hsaving
    · obtain rfl := List.mem_singleton.mp hjob
      cases hsaving

theorem orderly_enqueue {o : FetchOptions ε} {f : SpecFetcher} (h : f.Orderly o)
    (contractIds : List String) : (f.enqueue contractIds).Orderly o := by
  induction contractIds generalizing f with
  | nil => exact h
  | cons id contractIds ih => exact ih (orderly_enqueueOne h id)

theorem done_before {o : FetchOptions ε} {f : SpecFetcher} (h : f.Orderly o) {i : Nat} {job : FetchJob}
    (hjob : f.jobs[i]? = some job) {e : FetchStep} {state : FetchState}
    (hmoves : f.Moves o i job.id job.state e state) {k : Nat} {a : FetchJob} (hk : k < i)
    (ha : f.jobs[k]? = some a) : a.state.isDone = true := by
  have hstarted : f.mayStart i = true → a.state.isDone = true := by
    intro hstart
    obtain hzero | ⟨b, hb, hdone⟩ : i = 0 ∨ ∃ b, f.jobs[i - 1]? = some b ∧ b.state.isDone = true := by
      simpa [SpecFetcher.mayStart, Option.any_eq_true] using hstart
    · omega
    · by_cases hlast : k = i - 1
      · subst hlast
        obtain rfl := Option.some.inj (ha.symm.trans hb)
        exact hdone
      · have hwaiting : b.state ≠ .waiting := fun heq => by simp [heq, FetchState.isDone] at hdone
        exact h.chained k (i - 1) a b (by omega) ha hb hwaiting
  obtain ⟨id, old⟩ := job
  have hnext : old ≠ .waiting → a.state.isDone = true := h.chained k i a _ hk ha hjob
  cases hmoves with
  | dropped hstart => exact hstarted hstart
  | begun hstart => exact hstarted hstart
  | answered | looking | readFailed | found | lookupFailed | saved | saveFailed =>
    exact hnext (by simp)

theorem stored_settle_of_ne {o : FetchOptions ε} {f : SpecFetcher} (h : f.Orderly o) {i : Nat}
    {job : FetchJob} (hjob : f.jobs[i]? = some job) {e : FetchStep} {state : FetchState}
    (hmoves : f.Moves o i job.id job.state e state) {id : String} (hid : id ≠ job.id) :
    (f.settle i job.id state).stored id = f.stored id := by
  obtain ⟨own, old⟩ := job
  cases hmoves with
  | saved =>
    have hown := h.own _ (List.mem_of_getElem? hjob) _ rfl
    simp only at hown hid
    simp [SpecFetcher.settle, SpecFetcher.save, hown, Function.update_of_ne hid]
  | dropped | begun | answered | looking | readFailed | found | lookupFailed | saveFailed => rfl

theorem orderly_settle {o : FetchOptions ε} {f : SpecFetcher} (h : f.Orderly o) {i : Nat}
    {job : FetchJob} (hjob : f.jobs[i]? = some job) {e : FetchStep} {state : FetchState}
    (hmoves : f.Moves o i job.id job.state e state) : (f.settle i job.id state).Orderly o := by
  have hother : ∀ (k : Nat) (a : FetchJob), k ≠ i → f.jobs[k]? = some a → a.state.isDone = false →
      a.id ≠ job.id :=
    fun k a hk ha hdone heq => hk (h.unique k i a job ha hjob hdone hmoves.not_done heq)
  constructor
  case chained =>
    intro j k a b hjk ha hb hstate
    obtain ⟨rfl, rfl⟩ | ⟨-, hleft⟩ := settle_cases hjob ha
    · obtain ⟨rfl, -⟩ | ⟨-, hright⟩ := settle_cases hjob hb
      · omega
      · have hdone := h.chained j k job b hjk hjob hright hstate
        rw [hmoves.not_done] at hdone
        cases hdone
    · obtain ⟨rfl, rfl⟩ | ⟨-, hright⟩ := settle_cases hjob hb
      · exact done_before h hjob hmoves hjk hleft
      · exact h.chained j k a b hjk hleft hright hstate
  case claimed =>
    intro a ha hdone
    obtain ⟨k, ha⟩ := List.mem_iff_getElem?.mp ha
    obtain ⟨rfl, rfl⟩ | ⟨hk, ha⟩ := settle_cases hjob ha
    · have hfailed : state.failed = false := by
        obtain ⟨id, old⟩ := job
        cases hmoves <;> first | rfl | cases hdone
      simp only [SpecFetcher.settle, hfailed]
      exact h.claimed job (List.mem_of_getElem? hjob) hmoves.not_done
    · have hmem := h.claimed a (List.mem_of_getElem? ha) hdone
      rw [SpecFetcher.settle]
      split
      · exact Finset.mem_erase.mpr ⟨hother k a hk ha hdone, hmem⟩
      · exact hmem
  case unique =>
    intro j k a b ha hb hdone hdone' heq
    obtain ⟨rfl, rfl⟩ | ⟨hj, hleft⟩ := settle_cases hjob ha
    · obtain ⟨rfl, -⟩ | ⟨hk, hright⟩ := settle_cases hjob hb
      · rfl
      · exact absurd heq.symm (hother k b hk hright hdone')
    · obtain ⟨rfl, rfl⟩ | ⟨hk, hright⟩ := settle_cases hjob hb
      · exact absurd heq (hother j a hj hleft hdone)
      · exact h.unique j k a b hleft hright hdone hdone' heq
  case unanswered =>
    intro a ha hlooked hdone
    obtain ⟨k, ha⟩ := List.mem_iff_getElem?.mp ha
    obtain ⟨rfl, rfl⟩ | ⟨hk, ha⟩ := settle_cases hjob ha
    · have hold := h.unanswered job (List.mem_of_getElem? hjob)
      obtain ⟨id, old⟩ := job
      cases hmoves with
      | looking hanswers => exact hanswers
      | found => exact hold rfl rfl
      | begun => cases hlooked
      | dropped | answered | readFailed | lookupFailed | saved | saveFailed => cases hdone
    · rw [stored_settle_of_ne h hjob hmoves (hother k a hk ha hdone)]
      exact h.unanswered a (List.mem_of_getElem? ha) hlooked hdone
  case own =>
    intro a ha record hsaving
    obtain ⟨k, ha⟩ := List.mem_iff_getElem?.mp ha
    obtain ⟨rfl, rfl⟩ | ⟨-, ha⟩ := settle_cases hjob ha
    · obtain ⟨id, old⟩ := job
      cases hmoves with
      | found hlookup =>
        obtain rfl := FetchState.saving.inj hsaving
        exact contractId_lookupContractSpec hlookup
      | dropped | begun | answered | looking | readFailed | lookupFailed | saved | saveFailed =>
        cases hsaving
    · exact h.own a (List.mem_of_getElem? ha) record hsaving

theorem orderly_step {o : FetchOptions ε} {f g : SpecFetcher} (h : f.Orderly o) {e : FetchEvent}
    (hstep : f.step o e = some g) : g.Orderly o := by
  cases e with
  | enqueue contractIds =>
    obtain rfl := Option.some.inj hstep
    exact orderly_enqueue h contractIds
  | job i e =>
    obtain ⟨job, state, hjob, hmoves, rfl⟩ := step_job hstep
    exact orderly_settle h hjob hmoves
  | stop =>
    obtain rfl := Option.some.inj hstep
    exact ⟨h.chained, h.claimed, h.unique, h.unanswered, h.own⟩
  | wait ms =>
    obtain rfl := Option.some.inj hstep
    exact ⟨h.chained, h.claimed, h.unique,
      fun job hjob hlooked hdone => answers_mono (h.unanswered job hjob hlooked hdone) ms, h.own⟩

theorem orderly_exec {o : FetchOptions ε} {f g : SpecFetcher} (h : f.Orderly o)
    {events : List FetchEvent} (hexec : f.exec o events = some g) : g.Orderly o := by
  induction events generalizing f with
  | nil =>
    obtain rfl := Option.some.inj hexec
    exact h
  | cons e events ih =>
    obtain ⟨f', hstep, hrest⟩ := Option.bind_eq_some_iff.mp hexec
    exact ih (orderly_step h hstep) hrest

/-! ### A job on its way to a lookup -/

/-- The store does not answer for job `k`, or it no longer matters. -/
def SpecFetcher.Tracks (o : FetchOptions ε) (f : SpecFetcher) (k : Nat) (id : String) : Prop :=
  ∃ job, f.jobs[k]? = some job ∧ job.id = id ∧
    ((job.state = .waiting ∨ job.state = .reading) ∧ o.answers f.now (f.stored id) = false ∨
      job.state.lookedUp = true ∨ job.state = .done .readFailed ∨ f.stopped = true)

theorem SpecFetcher.Tracks.attends {o : FetchOptions ε} {f : SpecFetcher} {k : Nat} {id : String}
    (h : f.Tracks o k id) : f.Attends k id := by
  obtain ⟨job, hjob, hid, hstate⟩ := h
  refine ⟨job, hjob, hid, ?_⟩
  obtain ⟨hpending, -⟩ | hrest := hstate
  · exact hpending.elim .inl (fun h => .inr (.inl h))
  · exact .inr (.inr hrest)

theorem enqueueOne_keeps (f : SpecFetcher) (id : String) :
    (f.enqueueOne id).stored = f.stored ∧ (f.enqueueOne id).now = f.now ∧
      (f.enqueueOne id).stopped = f.stopped ∧ f.attempted ⊆ (f.enqueueOne id).attempted ∧
      f.jobs <+: (f.enqueueOne id).jobs := by
  unfold SpecFetcher.enqueueOne
  split
  · exact ⟨rfl, rfl, rfl, Finset.Subset.refl _, List.prefix_rfl⟩
  · exact ⟨rfl, rfl, rfl, Finset.subset_insert _ _, List.prefix_append _ _⟩

theorem enqueue_keeps (f : SpecFetcher) (contractIds : List String) :
    (f.enqueue contractIds).stored = f.stored ∧ (f.enqueue contractIds).now = f.now ∧
      (f.enqueue contractIds).stopped = f.stopped ∧ f.attempted ⊆ (f.enqueue contractIds).attempted ∧
      f.jobs <+: (f.enqueue contractIds).jobs := by
  induction contractIds generalizing f with
  | nil => exact ⟨rfl, rfl, rfl, Finset.Subset.refl _, List.prefix_rfl⟩
  | cons id contractIds ih =>
    obtain ⟨hstored, hnow, hstopped, hattempted, hjobs⟩ := enqueueOne_keeps f id
    obtain ⟨hstored', hnow', hstopped', hattempted', hjobs'⟩ := ih (f.enqueueOne id)
    exact ⟨hstored'.trans hstored, hnow'.trans hnow, hstopped'.trans hstopped,
      hattempted.trans hattempted', hjobs.trans hjobs'⟩

theorem getElem_of_prefix_jobs {jobs more : List FetchJob} (h : jobs <+: more) {k : Nat} {job : FetchJob}
    (hjob : jobs[k]? = some job) : more[k]? = some job := by
  obtain ⟨rest, rfl⟩ := h
  rw [List.getElem?_append_left (List.getElem?_eq_some_iff.mp hjob).1]
  exact hjob

theorem tracks_enqueue {o : FetchOptions ε} {f : SpecFetcher} {k : Nat} {id : String}
    (h : f.Tracks o k id) (contractIds : List String) : (f.enqueue contractIds).Tracks o k id := by
  obtain ⟨job, hjob, hid, hstate⟩ := h
  obtain ⟨hstored, hnow, hstopped, -, hjobs⟩ := enqueue_keeps f contractIds
  refine ⟨job, getElem_of_prefix_jobs hjobs hjob, hid, ?_⟩
  rw [hstored, hnow, hstopped]
  exact hstate

theorem tracks_settle {o : FetchOptions ε} {f : SpecFetcher} (horder : f.Orderly o) {k : Nat} {id : String}
    (h : f.Tracks o k id) {i : Nat} {job : FetchJob} (hjob : f.jobs[i]? = some job) {e : FetchStep}
    {state : FetchState} (hmoves : f.Moves o i job.id job.state e state) :
    (f.settle i job.id state).Tracks o k id := by
  obtain ⟨tracked, htracked, hid, hstate⟩ := h
  by_cases hki : k = i
  · subst hki
    obtain rfl := Option.some.inj (hjob.symm.trans htracked)
    refine ⟨⟨job.id, state⟩, by rw [getElem_settle hjob, if_pos rfl], hid, ?_⟩
    obtain ⟨own, old⟩ := job
    obtain rfl : own = id := hid
    cases hmoves with
    | dropped _ hstop => exact .inr (.inr (.inr hstop))
    | begun _ hstop =>
      obtain ⟨-, hanswers⟩ | hlooked | hread | hstopped := hstate
      · exact .inl ⟨.inr rfl, hanswers⟩
      · cases hlooked
      · cases hread
      · exact .inr (.inr (.inr hstopped))
    | answered hanswers =>
      obtain ⟨-, hnot⟩ | hlooked | hread | hstopped := hstate
      · rw [hanswers] at hnot
        cases hnot
      · cases hlooked
      · cases hread
      · exact .inr (.inr (.inr hstopped))
    | readFailed => exact .inr (.inr (.inl rfl))
    | looking | found | lookupFailed | saved | saveFailed => exact .inr (.inl rfl)
  · refine ⟨tracked, by rw [getElem_settle hjob, if_neg hki]; exact htracked, hid, ?_⟩
    obtain ⟨hpending, hanswers⟩ | hrest := hstate
    · have hdone : tracked.state.isDone = false := by
        obtain hw | hr := hpending
        · rw [hw]
          rfl
        · rw [hr]
          rfl
      have hne : id ≠ job.id := fun heq =>
        hki (horder.unique k i tracked job htracked hjob hdone hmoves.not_done (hid.trans heq))
      refine .inl ⟨hpending, ?_⟩
      rw [stored_settle_of_ne horder hjob hmoves hne]
      exact hanswers
    · exact .inr hrest

theorem tracks_step {o : FetchOptions ε} {f g : SpecFetcher} (horder : f.Orderly o) {k : Nat} {id : String}
    (h : f.Tracks o k id) {e : FetchEvent} (hstep : f.step o e = some g) : g.Tracks o k id := by
  cases e with
  | enqueue contractIds =>
    obtain rfl := Option.some.inj hstep
    exact tracks_enqueue h contractIds
  | job i e =>
    obtain ⟨job, state, hjob, hmoves, rfl⟩ := step_job hstep
    exact tracks_settle horder h hjob hmoves
  | stop =>
    obtain rfl := Option.some.inj hstep
    obtain ⟨job, hjob, hid, -⟩ := h
    exact ⟨job, hjob, hid, .inr (.inr (.inr rfl))⟩
  | wait ms =>
    obtain rfl := Option.some.inj hstep
    obtain ⟨job, hjob, hid, hstate⟩ := h
    refine ⟨job, hjob, hid, hstate.imp_left ?_⟩
    intro ⟨hpending, hanswers⟩
    exact ⟨hpending, answers_mono hanswers ms⟩

theorem tracks_exec {o : FetchOptions ε} {f g : SpecFetcher} (horder : f.Orderly o) {k : Nat} {id : String}
    (h : f.Tracks o k id) {events : List FetchEvent} (hexec : f.exec o events = some g) :
    g.Tracks o k id := by
  induction events generalizing f with
  | nil =>
    obtain rfl := Option.some.inj hexec
    exact h
  | cons e events ih =>
    obtain ⟨f', hstep, hrest⟩ := Option.bind_eq_some_iff.mp hexec
    exact ih (orderly_step horder hstep) (tracks_step horder h hstep) hrest

theorem enqueue_new {o : FetchOptions ε} {f : SpecFetcher} {id : String} (hnew : id ∉ f.attempted)
    (hanswers : o.answers f.now (f.stored id) = false) {contractIds : List String}
    (hid : id ∈ contractIds) :
    ∃ k, f.jobs.length ≤ k ∧ (f.enqueue contractIds).jobs[k]? = some ⟨id, .waiting⟩ ∧
      (f.enqueue contractIds).Tracks o k id := by
  induction contractIds generalizing f with
  | nil => cases hid
  | cons first contractIds ih =>
    by_cases hfirst : id = first
    · subst hfirst
      have hjob : (f.enqueueOne id).jobs[f.jobs.length]? = some ⟨id, .waiting⟩ := by
        simp [SpecFetcher.enqueueOne, hnew]
      have hkeeps := enqueueOne_keeps f id
      have htracks : (f.enqueueOne id).Tracks o f.jobs.length id := by
        refine ⟨_, hjob, rfl, .inl ⟨.inl rfl, ?_⟩⟩
        rw [hkeeps.1, hkeeps.2.1]
        exact hanswers
      exact ⟨f.jobs.length, le_rfl,
        getElem_of_prefix_jobs (enqueue_keeps (f.enqueueOne id) contractIds).2.2.2.2 hjob,
        tracks_enqueue htracks contractIds⟩
    · have hkeeps := enqueueOne_keeps f first
      have hnew' : id ∉ (f.enqueueOne first).attempted := by
        unfold SpecFetcher.enqueueOne
        split
        · exact hnew
        · simp [hfirst, hnew]
      have hanswers' : o.answers (f.enqueueOne first).now ((f.enqueueOne first).stored id) = false := by
        rw [hkeeps.1, hkeeps.2.1]
        exact hanswers
      obtain ⟨k, hk, hjob, htracks⟩ := ih hnew' hanswers' ((List.mem_cons.mp hid).resolve_left hfirst)
      exact ⟨k, hkeeps.2.2.2.2.length_le.trans hk, hjob, htracks⟩

/-! ### After a lookup that failed -/

/-- The fetcher has no claim on the contract, and the store no answer. -/
def SpecFetcher.Owes (o : FetchOptions ε) (f : SpecFetcher) (id : String) : Prop :=
  id ∉ f.attempted ∧ o.answers f.now (f.stored id) = false

theorem owes_enqueue {o : FetchOptions ε} {f : SpecFetcher} {id : String} (h : f.Owes o id)
    {contractIds : List String} (hid : id ∉ contractIds) : (f.enqueue contractIds).Owes o id := by
  induction contractIds generalizing f with
  | nil => exact h
  | cons first contractIds ih =>
    obtain ⟨hfirst, hrest⟩ := List.ne_and_not_mem_of_not_mem_cons hid
    refine ih ?_ hrest
    have hkeeps := enqueueOne_keeps f first
    refine ⟨?_, by rw [hkeeps.1, hkeeps.2.1]; exact h.2⟩
    unfold SpecFetcher.enqueueOne
    split
    · exact h.1
    · simp [hfirst, h.1]

theorem owes_step {o : FetchOptions ε} {f g : SpecFetcher} (horder : f.Orderly o) {id : String}
    (h : f.Owes o id) {e : FetchEvent} (hnot : ∀ others, e = .enqueue others → id ∉ others)
    (hstep : f.step o e = some g) : g.Owes o id := by
  cases e with
  | enqueue contractIds =>
    obtain rfl := Option.some.inj hstep
    exact owes_enqueue h (hnot contractIds rfl)
  | job i e =>
    obtain ⟨job, state, hjob, hmoves, rfl⟩ := step_job hstep
    have hclaimed := horder.claimed job (List.mem_of_getElem? hjob) hmoves.not_done
    have hne : id ≠ job.id := fun heq => h.1 (heq ▸ hclaimed)
    refine ⟨?_, ?_⟩
    · rw [SpecFetcher.settle]
      split
      · exact fun hmem => h.1 (Finset.mem_of_mem_erase hmem)
      · exact h.1
    · rw [stored_settle_of_ne horder hjob hmoves hne]
      exact h.2
  | stop =>
    obtain rfl := Option.some.inj hstep
    exact h
  | wait ms =>
    obtain rfl := Option.some.inj hstep
    exact ⟨h.1, answers_mono h.2 ms⟩

theorem owes_exec {o : FetchOptions ε} {f g : SpecFetcher} (horder : f.Orderly o) {id : String}
    (h : f.Owes o id) {events : List FetchEvent}
    (hnot : ∀ others, .enqueue others ∈ events → id ∉ others) (hexec : f.exec o events = some g) :
    g.Owes o id := by
  induction events generalizing f with
  | nil =>
    obtain rfl := Option.some.inj hexec
    exact h
  | cons e events ih =>
    obtain ⟨f', hstep, hrest⟩ := Option.bind_eq_some_iff.mp hexec
    have hhead : f'.Owes o id :=
      owes_step horder h (fun others heq => hnot others (heq ▸ List.mem_cons_self)) hstep
    exact ih (orderly_step horder hstep) hhead (fun others hmem => hnot others (List.mem_cons_of_mem _ hmem))
      hrest

theorem owes_of_lookupFailed {o : FetchOptions ε} {f g : SpecFetcher} (horder : f.Orderly o) {i : Nat}
    {job : FetchJob} (hjob : f.jobs[i]? = some job) {answers : SpecAnswers} {now message : String}
    (hfailed : lookupContractSpec o.rd job.id answers now = .error message)
    (hstep : f.step o (.job i (.lookedUp answers now)) = some g) : g.Owes o job.id := by
  obtain ⟨job', state, hjob', hmoves, rfl⟩ := step_job hstep
  obtain rfl := Option.some.inj (hjob.symm.trans hjob')
  have hold := horder.unanswered job (List.mem_of_getElem? hjob)
  obtain ⟨id, old⟩ := job
  cases hmoves with
  | found hfound => cases hfailed.symm.trans hfound
  | lookupFailed =>
    refine ⟨?_, hold rfl rfl⟩
    simp [SpecFetcher.settle, FetchState.failed]

/-! ### Work -/

theorem work_lt_of_moves {o : FetchOptions ε} {f : SpecFetcher} {i : Nat} {id : String}
    {old new : FetchState} {e : FetchStep} (h : f.Moves o i id old e new) : new.work < old.work := by
  cases h <;> simp [FetchState.work]

theorem sum_set_lt {jobs : List FetchJob} {i : Nat} {job moved : FetchJob} (h : jobs[i]? = some job)
    (hlt : moved.state.work < job.state.work) :
    ((jobs.set i moved).map (fun job => job.state.work)).sum <
      (jobs.map (fun job => job.state.work)).sum := by
  induction jobs generalizing i with
  | nil => cases h
  | cons first jobs ih =>
    cases i with
    | zero =>
      obtain rfl := Option.some.inj h
      simpa using hlt
    | succ i => simpa using ih h

theorem work_lt_of_step {o : FetchOptions ε} {f g : SpecFetcher} {i : Nat} {e : FetchStep}
    (h : f.step o (.job i e) = some g) : g.work < f.work := by
  obtain ⟨job, state, hjob, hmoves, rfl⟩ := step_job h
  exact sum_set_lt hjob (work_lt_of_moves hmoves)

theorem exists_step (o : FetchOptions ε) {f : SpecFetcher} (h : ∃ job ∈ f.jobs, job.state.isDone = false) :
    ∃ i e g, f.step o (.job i e) = some g := by
  obtain ⟨job, hjob, hdone⟩ := h
  have hfound : (f.jobs.findIdx? (fun job => !job.state.isDone)).isSome = true := by
    rw [List.findIdx?_isSome]
    exact List.any_eq_true.mpr ⟨job, hjob, by simp [hdone]⟩
  obtain ⟨i, hi⟩ := Option.isSome_iff_exists.mp hfound
  obtain ⟨hlt, hfirst, hbefore⟩ := List.findIdx?_eq_some_iff_getElem.mp hi
  have hget : f.jobs[i]? = some f.jobs[i] := List.getElem?_eq_getElem hlt
  have hstart : f.mayStart i = true := by
    cases i with
    | zero => rfl
    | succ i =>
      have hprev := hbefore i (Nat.lt_succ_self i)
      have hlt' : i < f.jobs.length := by omega
      simp only [Bool.not_eq_true', Bool.not_eq_false] at hprev
      simp [SpecFetcher.mayStart, List.getElem?_eq_getElem hlt', hprev]
  have hone : ∃ e state, f.fetchOne o i f.jobs[i] e = some state := by
    generalize f.jobs[i] = job at hfirst
    obtain ⟨id, old⟩ := job
    cases old with
    | waiting => exact ⟨.start, _, by rw [SpecFetcher.fetchOne, if_pos hstart]⟩
    | reading => exact ⟨.readFailed, _, rfl⟩
    | looking => exact ⟨.lookedUp ⟨.error ⟨none, ""⟩, .error ⟨none, ""⟩⟩ "", _, rfl⟩
    | saving record => exact ⟨.saveFailed, _, rfl⟩
    | done how => simp [FetchState.isDone] at hfirst
  obtain ⟨e, state, hstate⟩ := hone
  exact ⟨i, e, f.settle i f.jobs[i].id state, by simp [SpecFetcher.step, hget, hstate]⟩

/-! ### Runs -/

theorem exec_append (o : FetchOptions ε) (f : SpecFetcher) (before after : List FetchEvent) :
    f.exec o (before ++ after) = (f.exec o before).bind (fun g => g.exec o after) := by
  induction before generalizing f with
  | nil => rfl
  | cons e before ih =>
    rw [List.cons_append, SpecFetcher.exec, SpecFetcher.exec, Option.bind_assoc]
    exact congrArg (Option.bind _) (funext ih)

theorem length_le_of_step {o : FetchOptions ε} {f g : SpecFetcher} {e : FetchEvent}
    (h : f.step o e = some g) : f.jobs.length ≤ g.jobs.length := by
  cases e with
  | enqueue contractIds =>
    obtain rfl := Option.some.inj h
    exact (enqueue_keeps f contractIds).2.2.2.2.length_le
  | job i e =>
    obtain ⟨job, state, -, -, rfl⟩ := step_job h
    simp [SpecFetcher.settle]
  | stop | wait =>
    obtain rfl := Option.some.inj h
    exact le_rfl

theorem length_le_of_exec {o : FetchOptions ε} {f g : SpecFetcher} {events : List FetchEvent}
    (h : f.exec o events = some g) : f.jobs.length ≤ g.jobs.length := by
  induction events generalizing f with
  | nil =>
    obtain rfl := Option.some.inj h
    exact le_rfl
  | cons e events ih =>
    obtain ⟨f', hstep, hrest⟩ := Option.bind_eq_some_iff.mp h
    exact (length_le_of_step hstep).trans (ih hrest)

theorem looking_unique {o : FetchOptions ε} {f : SpecFetcher} (h : f.Orderly o) {i j : Nat} {a b : FetchJob}
    (ha : f.jobs[i]? = some a) (hb : f.jobs[j]? = some b) (hlooking : a.state = .looking)
    (hlooking' : b.state = .looking) : i = j := by
  have hnot : ∀ (i j : Nat) (a b : FetchJob), f.jobs[i]? = some a → f.jobs[j]? = some b →
      a.state = .looking → b.state = .looking → ¬ i < j := by
    intro i j a b ha hb hlooking hlooking' hlt
    have hdone := h.chained i j a b hlt ha hb (by simp [hlooking'])
    simp [hlooking, FetchState.isDone] at hdone
  have hle := hnot i j a b ha hb hlooking hlooking'
  have hge := hnot j i b a hb ha hlooking' hlooking
  omega

theorem spared_of_orderly {o : FetchOptions ε} {f : SpecFetcher} (h : f.Orderly o) {job : FetchJob}
    (hjob : job ∈ f.jobs) (hlooking : job.state = .looking) {record : ContractSpecRecord}
    (hrecord : f.stored job.id = some record) : record.source = .none := by
  have hanswers := h.unanswered job hjob (by rw [hlooking]; rfl) (by rw [hlooking]; rfl)
  rw [hrecord] at hanswers
  simp only [FetchOptions.answers, Bool.or_eq_false_iff, decide_eq_false_iff_not, not_not] at hanswers
  exact hanswers.1

/-- In every run from a new fetcher whose steps keep clear of the two wrong turns the
lookups are disciplined. -/
theorem spec_lookups_disciplined (o : FetchOptions ε) (stored : String → Option ContractSpecRecord)
    (now : Int) (events : List FetchEvent)
    (hclear : ∀ before e after f, events = before ++ e :: after →
      (SpecFetcher.new stored now).exec o before = some f → f.KeepsClear o e) :
    (SpecFetcher.new stored now).Disciplined o events := by
  have horder : ∀ before f, (SpecFetcher.new stored now).exec o before = some f → f.Orderly o :=
    fun before f hf => orderly_exec (orderly_new o stored now) hf
  constructor
  case oneAtATime =>
    intro before after f _ hf i j a b ha hb hlooking hlooking'
    exact looking_unique (horder before f hf) ha hb hlooking hlooking'
  case spared =>
    intro before after f _ hf job hjob hlooking record hrecord
    exact spared_of_orderly (horder before f hf) hjob hlooking hrecord
  case retried =>
    intro before i answers now' middle contractIds after f g job hevents hf hjob hfailed hmiddle hid hg
    obtain ⟨message, hfailed⟩ := hfailed
    rw [hevents, exec_append, hf, Option.bind_some, SpecFetcher.exec, Option.bind_eq_some_iff] at hg
    obtain ⟨f₁, hstep, hg⟩ := hg
    rw [exec_append, Option.bind_eq_some_iff] at hg
    obtain ⟨f₂, hf₂, hg⟩ := hg
    have horder₁ := orderly_step (horder before f hf) hstep
    have horder₂ := orderly_exec horder₁ hf₂
    have howed := owes_exec horder₁ (owes_of_lookupFailed (horder before f hf) hjob hfailed hstep) hmiddle hf₂
    obtain ⟨k, hk, -, htracks⟩ := enqueue_new howed.1 howed.2 hid
    have hlength := (length_le_of_step hstep).trans (length_le_of_exec hf₂)
    exact ⟨k, hlength.trans hk, (tracks_exec (orderly_enqueue horder₂ contractIds) htracks hg).attends⟩
  case rechecked =>
    intro before contractIds after f g id hevents hf hgoing hid hexpired hg
    have hanswers := answers_of_expiredNone hexpired
    have horder' := orderly_enqueue (horder before f hf) contractIds
    rw [hevents, exec_append, hf, Option.bind_some] at hg
    by_cases hclaimed : id ∈ f.attempted
    · have hlive := (hclear before _ after f hevents hf).resolve_left (by simp [hgoing]) id hid hexpired
        hclaimed
      obtain ⟨job, hjob, hown, hdone⟩ := hlive
      obtain ⟨k, hk⟩ := List.mem_iff_getElem?.mp hjob
      have hget := getElem_of_prefix_jobs (enqueue_keeps f contractIds).2.2.2.2 hk
      have htracks : f.Tracks o k id := by
        refine ⟨job, hk, hown, ?_⟩
        obtain ⟨_, state⟩ := job
        cases state with
        | waiting => exact .inl ⟨.inl rfl, hanswers⟩
        | reading => exact .inl ⟨.inr rfl, hanswers⟩
        | looking | saving => exact .inr (.inl rfl)
        | done => cases hdone
      exact ⟨k, job, hget, hown, hdone, (tracks_exec horder' (tracks_enqueue htracks contractIds) hg).attends⟩
    · obtain ⟨k, -, hget, htracks⟩ := enqueue_new hclaimed hanswers hid
      exact ⟨k, _, hget, rfl, rfl, (tracks_exec horder' htracks hg).attends⟩
  case halted =>
    intro before i e after f g job hevents hf hstep hjob hlooking
    obtain ⟨old, state, hold, hmoves, rfl⟩ := step_job hstep
    rw [getElem_settle hold, if_pos rfl] at hjob
    obtain rfl := Option.some.inj hjob
    have hkeeps := hclear before _ after f hevents hf
    obtain ⟨id, old⟩ := old
    obtain rfl : state = .looking := hlooking
    cases hmoves with
    | looking hanswers =>
      obtain hgoing | hanswered := hkeeps
      · exact hgoing
      · have htrue := hanswered _ hold
        rw [hanswers] at htrue
        cases htrue
  case proceeds =>
    intro before after f _ _
    exact ⟨exists_step o, fun i e g hstep => work_lt_of_step hstep⟩

theorem clear_cons {o : FetchOptions ε} {f g : SpecFetcher} {e : FetchEvent} {events : List FetchEvent}
    (he : f.KeepsClear o e) (hstep : f.step o e = some g)
    (hrest : ∀ before e' after h, events = before ++ e' :: after → g.exec o before = some h →
      h.KeepsClear o e') :
    ∀ before e' after h, e :: events = before ++ e' :: after → f.exec o before = some h →
      h.KeepsClear o e' := by
  intro before e' after h hevents hexec
  cases before with
  | nil =>
    obtain ⟨rfl, -⟩ := List.cons.inj hevents
    obtain rfl := Option.some.inj hexec
    exact he
  | cons first before =>
    obtain ⟨rfl, htail⟩ := List.cons.inj hevents
    rw [SpecFetcher.exec, hstep, Option.bind_some] at hexec
    exact hrest before e' after h htail hexec

def sixHours : FetchOptions SpecEvent where
  rd := ⟨pocketSdk, fun _ => "", fun _ => .error ""⟩
  dateParse := fun text => if text = "1970-01-01T00:00:00.000Z" then some 0 else none
  retryNoneAfterMs := .fin 21600000

def noneRecord : ContractSpecRecord :=
  ⟨"C", .none, none, [], 0, some "contract instance not found: C", "1970-01-01T00:00:00.000Z"⟩

def assetRun : List FetchEvent :=
  [.enqueue ["C"], .job 0 .start, .job 0 .read,
    .job 0 (.lookedUp ⟨.ok "contractExecutableStellarAsset", .ok []⟩ "1970-01-01T00:00:00.000Z"),
    .job 0 .saved, .wait 25200000, .enqueue ["C"]]

def assetRecord : ContractSpecRecord :=
  ⟨"C", .stellarAsset, none, [], 14, none, "1970-01-01T00:00:00.000Z"⟩

theorem spec_lookups_disciplined_asset :
    (SpecFetcher.new (fun _ => none) 0).Disciplined sixHours assetRun := by
  refine spec_lookups_disciplined sixHours (fun _ => none) 0 assetRun ?_
  refine clear_cons (.inr fun id _ h => by obtain ⟨_, h, _⟩ := h; cases h) rfl ?_
  refine clear_cons trivial rfl ?_
  refine clear_cons (.inl rfl) rfl ?_
  refine clear_cons trivial rfl ?_
  refine clear_cons trivial rfl ?_
  refine clear_cons trivial rfl ?_
  refine clear_cons (.inr fun id hid h => ?_) rfl ?_
  · obtain rfl := List.mem_singleton.mp hid
    obtain ⟨record, hstored, hsource, -⟩ := h
    obtain rfl : assetRecord = record := Option.some.inj hstored
    cases hsource
  · intro before e' after h hevents
    simp at hevents

def checkedTwice : List FetchEvent :=
  [.enqueue ["C"], .job 0 .start, .job 0 .read, .wait 25200000, .enqueue ["C"]]

theorem none_not_rechecked :
    ¬ (SpecFetcher.new (fun _ => some noneRecord) 0).Disciplined sixHours checkedTwice := by
  intro h
  have hrun : (SpecFetcher.new (fun _ => some noneRecord) 0).exec sixHours
      [.enqueue ["C"], .job 0 .start, .job 0 .read, .wait 25200000] =
        some ⟨{"C"}, [⟨"C", .done .answered⟩], false, fun _ => some noneRecord, 25200000⟩ := rfl
  obtain ⟨k, job, hjob, -, hdone, -⟩ := h.rechecked _ ["C"] [] _ _ "C" rfl hrun rfl (by simp)
    ⟨noneRecord, rfl, rfl, rfl⟩ rfl
  have hone : ((⟨{"C"}, [⟨"C", .done .answered⟩], false, fun _ => some noneRecord, 25200000⟩ :
      SpecFetcher).enqueue ["C"]).jobs = [⟨"C", .done .answered⟩] := rfl
  rw [hone, List.getElem?_singleton] at hjob
  split at hjob
  · obtain rfl := Option.some.inj hjob
    cases hdone
  · cases hjob

end SorobanLens
