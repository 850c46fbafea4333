import NeighborSearch.Proofs.Device.Launches

/-!
# What hosts learn from a shared stream

In all that may come about, the books of the launches are kept and their number is right,
since a step that concerns the launches keeps both and no other step touches them
(`Reachable.of_launches`). From this follows what a host learns when it synchronizes: the
error of the launch that failed first since somebody was told one, and that all launches
counted before have been run, delivered and retired.
-/

namespace NeighborSearch.SharedStream

open History

variable {α : Type} {config : LaunchConfig} {events later new : List Event}
  {s t u : SharedStream α} {job : Job α}

/-! ## Runs -/

/-- What holds of the launches of a new stream and is kept by their steps always holds. -/
theorem Reachable.of_launches {Inv : List Event → Launches α → Prop}
    (hstart : Inv [] (.start config))
    (hstep : ∀ events new l m, Inv events l → l.Step new m → Inv (events ++ new) m)
    (h : Reachable config events s) : Inv events s.launches := by
  induction h with
  | start => exact hstart
  | @step events new s t _ h ih =>
    rcases h.launches with hlaunches | ⟨rfl, hsame⟩
    · exact hstep events new _ _ ih hlaunches
    · rw [hsame, List.append_nil]
      exact ih

theorem Reachable.ledger (h : Reachable config events s) : s.launches.Ledger config events :=
  h.of_launches (Launches.ledger_start config) fun _ _ _ _ hl hstep => hl.step hstep

theorem Reachable.inFlight (h : Reachable config events s) : s.launches.InFlight events :=
  h.of_launches (Launches.inFlight_start config) fun _ _ _ _ hl hstep => hl.step hstep

/-- Any number of steps, with their events in order. -/
inductive Steps : SharedStream α → List Event → SharedStream α → Prop
  | refl (s : SharedStream α) : Steps s [] s
  | tail {s t u : SharedStream α} {events new : List Event} :
    Steps s events t → Step t new u → Steps s (events ++ new) u

theorem Reachable.steps (h : Reachable config events s) (hsteps : Steps s later t) :
    Reachable config (events ++ later) t := by
  induction hsteps with
  | refl => rwa [List.append_nil]
  | tail _ hstep ih =>
    rw [← List.append_assoc]
    exact .step ih hstep

/-- A launch has been counted: its job has been sent, or a host is about to send it. -/
def Counted (s : SharedStream α) (job : Job α) : Prop :=
  job ∈ s.sent ∨ ∃ h, s.hosts h = .launching job

theorem counted_launches : s.launches.Counted job ↔ s.Counted job := by
  simp only [Launches.Counted, Counted, launches, Host.launching?_eq_some_iff]

theorem Steps.counted (hsteps : Steps s later t) (hjob : s.Counted job) : t.Counted job := by
  induction hsteps with
  | refl => exact hjob
  | tail _ hstep ih =>
    rw [← counted_launches] at ih ⊢
    rcases hstep.launches with hlaunches | ⟨-, hsame⟩
    · exact hlaunches.counted ih
    · rwa [hsame]

/-! ## A run -/

/-- A kernel that breaks off, leaving a text. -/
def breaksOff (text : String) : Kernel Unit := fun _ => .panicked (some text)

/-- Two hosts have counted a launch each. -/
def twoCounted : SharedStream Unit where
  stream := (Stream.create .standard).count.count
  hosts h :=
    if h = 1 then .launching ⟨1, breaksOff "first"⟩
    else if h = 0 then .launching ⟨0, breaksOff "second"⟩
    else .ready
  delivered := []
  sent := []
  pending := []
  nextTicket := 2
  dropped := false

theorem reachable_twoCounted : Reachable .standard [] twoCounted := by
  have hstart : Reachable .standard [] (.start .standard : SharedStream Unit) := .start
  exact (hstart.step (.count (h := 0) (breaksOff "second") rfl rfl)).step
    (.count (h := 1) (breaksOff "first") rfl rfl)

/-- Both launches fail, and a host is told of the first one. -/
def twoFailures : List Event :=
  [.finished (some (.launchFailed "first")), .finished (some (.launchFailed "second")),
    .reported 0 (some (.launchFailed "first"))]

/-- The second host sends its job before the first one, which then synchronizes and sleeps
    until both launches have been retired. -/
theorem run_twoFailures : ∃ t u,
    Steps twoCounted (twoFailures.take 2) t ∧ Step t (twoFailures.drop 2) u := by
  have hsent := ((Steps.refl twoCounted).tail (.send (h := 1) rfl)).tail (.send (h := 0) rfl)
  have hasleep := (hsent.tail (.synchronize (h := 0) rfl rfl)).tail
    (.sleep (h := 0) rfl (by decide))
  have hfirst := ((hasleep.tail (.work nofun rfl)).tail (.work nofun rfl)).tail
    (.retire rfl (by decide))
  have hsecond := ((hfirst.tail (.work nofun rfl)).tail (.work nofun rfl)).tail
    (.retireLast rfl rfl)
  exact ⟨_, _, hsecond, .report (h := 0) rfl rfl⟩

/-! ## The error that is told -/

/-- What is kept is the error of the launch that failed first since the last report. -/
theorem Reachable.error_eq_some_iff (h : Reachable config events s) {e : SelectError} :
    s.stream.error = some e ↔ ∃ i, FirstFailure events events.length i e := by
  rw [← kept_take_eq_some_iff (Nat.le_refl _), List.take_length, ← h.ledger.error_eq]
  rfl

/-- A launch that succeeds changes nothing about the error that is kept. -/
theorem Step.error_eq_of_succeeded (hstep : Step s [.finished none] t) :
    t.stream.error = s.stream.error := by
  cases hstep with
  | retire _ _ | retireLast _ _ => exact Option.or_none

/-- In every run, what hosts are told accounts for all launches that failed. -/
theorem reports_account_for_failures (h : Reachable config events s) :
    -- A host is told the error of the launch that failed first since the last report, and
    -- none exactly if no launch failed since then.
    (∀ j error, ReportedAt events j error →
      (∀ e, error = some e ↔ ∃ i, FirstFailure events j i e) ∧
      (error = none ↔ ∀ i < j, ∀ e, FailedAt events i e → ¬SameInterval events i j)) ∧
    -- A launch that failed is reported once, or another one failed before in the same
    -- interval, or the interval is open and its error is the one that is kept.
    (∀ i e, FailedAt events i e →
      ExactlyOne (∃! j, Reports events i j) (Preceded events i)
        (FirstFailure events events.length i e ∧ s.stream.error = some e)) ∧
    -- No launch is reported twice, and no two launches by one report.
    (∀ i i' j j', Reports events i j → Reports events i' j' → (i = i' ↔ j = j')) ∧
    -- Launches that succeed neither produce nor clear an error.
    (∀ t, Step s [.finished none] t → t.stream.error = s.stream.error) ∧
    -- The launches are retired in the order in which their jobs were sent, each with the
    -- error of its own result, which has been delivered.
    (∀ i error, events[i]? = some (.finished error) → ∃ job,
      s.sent[(finishes (events.take i)).length]? = some job ∧
      s.delivered[(finishes (events.take i)).length]? = some (job.message config) ∧
      error = job.error? config) := by
  have hledger := h.ledger
  refine ⟨fun j error hj => ?_, fun i e hi => ?_, fun i i' j j' hij hij' => ?_,
    fun t hstep => hstep.error_eq_of_succeeded, fun i error hi => ?_⟩
  · have hle := Nat.le_of_lt (lt_length_of_reportedAt hj)
    obtain rfl := hledger.honest j error hj
    exact ⟨fun e => kept_take_eq_some_iff hle, kept_take_eq_none_iff hle⟩
  · have hkept : (FirstFailure events events.length i e ∧ s.stream.error = some e) ↔
        FirstFailure events events.length i e :=
      and_iff_left_of_imp fun hfirst => h.error_eq_some_iff.2 ⟨i, hfirst⟩
    rw [hkept]
    exact hledger.honest.exactlyOne_of_failedAt hi
  · constructor
    · rintro rfl
      exact hij.unique hij'
    · rintro rfl
      obtain ⟨e, hfirst, -⟩ := hij
      obtain ⟨e', hfirst', -⟩ := hij'
      exact (hfirst.unique hfirst').1
  · exact hledger.of_getElem?_finishes (getElem?_finishes hi)

theorem account_twoFailures : ∃ s : SharedStream Unit, Reachable .standard twoFailures s ∧
    (∃ i, FirstFailure twoFailures 2 i (.launchFailed "first")) ∧
    FailedAt twoFailures 1 (.launchFailed "second") ∧
    ExactlyOne (∃! j, Reports twoFailures 1 j) (Preceded twoFailures 1)
      (FirstFailure twoFailures 3 1 (.launchFailed "second") ∧
        s.stream.error = some (.launchFailed "second")) := by
  obtain ⟨t, s, hsteps, hstep⟩ := run_twoFailures
  have hs : Reachable .standard twoFailures s := (reachable_twoCounted.steps hsteps).step hstep
  obtain ⟨htold, hfailed, -⟩ := reports_account_for_failures hs
  exact ⟨s, hs, ((htold 2 _ ⟨0, rfl⟩).1 _).1 rfl, rfl, hfailed 1 _ rfl⟩

/-! ## The launches in flight -/

theorem Step.of_reported {host : ℕ} {error : Option SelectError}
    (hstep : Step s [.reported host error] t) :
    s.stream.inflight = 0 ∧ error = s.stream.error := by
  rcases hstep.launches with hlaunches | ⟨hnone, -⟩
  · exact hlaunches.of_reported
  · cases hnone

/-- When nothing is in flight, every launch that has been counted has come to its end. -/
theorem Reachable.settled (h : Reachable config events s) (hzero : s.stream.inflight = 0)
    (hjob : s.Counted job) : ∃ i : ℕ, s.sent[i]? = some job ∧
      s.delivered[i]? = some (job.message config) ∧
      (finishes events)[i]? = some (job.error? config) := by
  obtain ⟨hunretired, hsent⟩ := h.inFlight.of_zero hzero
  obtain ⟨hdelivered, hfinishes⟩ := h.ledger.of_unretired hunretired
  obtain ⟨i, hi⟩ := List.mem_iff_getElem?.1 (hsent job (counted_launches.2 hjob))
  have hi : s.sent[i]? = some job := hi
  refine ⟨i, hi, ?_, ?_⟩
  · have hith := congrArg (·[i]?) hdelivered
    simpa only [launches, List.getElem?_map, hi, Option.map_some] using hith
  · have hith := congrArg (·[i]?) hfinishes
    simpa only [launches, List.getElem?_map, hi, Option.map_some] using hith

/-- In every state, what is in flight are the launches counted and not yet retired; and when a
    host has synchronized, all launches counted before have come to their end. -/
theorem inflight_exact_and_barrier (h : Reachable config events s) :
    -- They are with the hosts that have not yet sent them, in the queue, or in the hand of
    -- the worker.
    (∃ hosts : Finset ℕ, (∀ h, h ∈ hosts ↔ ∃ job, s.hosts h = .launching job) ∧
      s.stream.inflight = hosts.card + s.stream.queue.length + s.stream.worker.inHand) ∧
    -- With the launches retired they make up all that have been counted, each of which can
    -- be told by its number.
    s.stream.inflight + (finishes events).length = s.nextTicket ∧
    (∀ ticket < s.nextTicket, ∃ job, s.Counted job ∧ job.ticket = ticket) ∧
    -- A launch is only retired while something is in flight.
    (∀ error, s.stream.worker = .retiring error → 0 < s.stream.inflight) ∧
    -- When a host is told an error, the launches counted before have been run and their
    -- results delivered, and they have been retired with their errors; the host is told the
    -- error kept of all of them.
    (∀ later (t u : SharedStream α) host error, Steps s later t →
      Step t [.reported host error] u →
      (∀ job, s.Counted job → ∃ i : ℕ, t.sent[i]? = some job ∧
        t.delivered[i]? = some (job.message config) ∧
        (finishes (events ++ later))[i]? = some (job.error? config)) ∧
      error = kept (events ++ later)) := by
  have hin := h.inFlight
  obtain ⟨hosts, hmem, hinflight⟩ := hin.places
  have hplaces : s.stream.inflight =
      hosts.card + s.stream.queue.length + s.stream.worker.inHand := by
    rw [Nat.add_assoc]
    exact hinflight
  refine ⟨⟨hosts, fun host => ?_, hplaces⟩, hin.number, ?_, fun error hretiring => ?_, ?_⟩
  · exact (hmem host).trans (exists_congr fun job => Host.launching?_eq_some_iff)
  · intro ticket hlt
    obtain ⟨job, hjob, hticket⟩ := hin.tickets ticket hlt
    exact ⟨job, counted_launches.1 hjob, hticket⟩
  · rw [hplaces, hretiring]
    exact Nat.succ_pos _
  · intro later t u host error hsteps hstep
    have hafter := h.steps hsteps
    obtain ⟨hzero, rfl⟩ := hstep.of_reported
    exact ⟨fun job hjob => hafter.settled hzero (hsteps.counted hjob), hafter.ledger.error_eq⟩

theorem barrier_twoFailures :
    Reachable .standard [] twoCounted ∧ twoCounted.stream.inflight = 2 ∧
      ∃ t u, Steps twoCounted (twoFailures.take 2) t ∧ Step t (twoFailures.drop 2) u ∧
        ∃ i : ℕ, t.sent[i]? = some ⟨0, breaksOff "second"⟩ ∧
          t.delivered[i]? = some ⟨0, .error (.launchFailed "second")⟩ ∧
          (finishes (twoFailures.take 2))[i]? = some (some (.launchFailed "second")) := by
  obtain ⟨t, u, hsteps, hstep⟩ := run_twoFailures
  obtain ⟨-, -, -, -, hbarrier⟩ := inflight_exact_and_barrier reachable_twoCounted
  obtain ⟨hended, -⟩ := hbarrier _ t u 0 _ hsteps hstep
  exact ⟨reachable_twoCounted, rfl, t, u, hsteps, hstep, hended _ (.inr ⟨0, rfl⟩)⟩

end NeighborSearch.SharedStream
