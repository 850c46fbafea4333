import Mathlib.Data.Finset.Card
import Mathlib.Logic.Function.Basic
import NeighborSearch.Proofs.Device.History
import NeighborSearch.Proofs.Device.Stream

/-!
# The launches of a shared stream

Of what the hosts of a stream do, only counting and sending concern its launches. Here a
shared stream is reduced to them (`Launches`): those that hosts have counted and not yet sent,
those that have been sent, and what has been delivered. Every step of a shared stream leaves
them as they are or is one of six steps of theirs (`SharedStream.Step.launches`).

* `Ledger`: what has been delivered and what is owed are the results of the jobs sent, in
  this order, and so are the errors of the launches retired and of those to be retired; and
  the history of the stream accounts for the error that is kept.
* `InFlight`: what is in flight are the launches counted and not yet retired, each of them
  with a host, in the queue, or in the hand of the worker.

Both hold of a new stream and are kept by every step.
-/

namespace NeighborSearch

variable {α : Type}

/-- The error that a launch ends with, if it fails. -/
def Job.error? (config : LaunchConfig) (job : Job α) : Option SelectError :=
  errorOf? (job.kernel config).result

/-- The errors of the launches that the worker has yet to retire. -/
def Worker.toRetire (config : LaunchConfig) : Worker α → List (Option SelectError)
  | .idle => []
  | .executing job => [job.error? config]
  | .retiring error => [error]

/-- The errors of the launches that have been sent and not yet been retired, in the order in
    which they were sent. -/
def Stream.toRetire (s : Stream α) : List (Option SelectError) :=
  s.worker.toRetire s.config ++ s.queue.map (·.error? s.config)

theorem Stream.length_toRetire (s : Stream α) : s.toRetire.length = s.unretired := by
  rw [toRetire, unretired, List.length_append, List.length_map, Nat.add_comm]
  cases s.worker <;> rfl

/-- A launch whose result is owed is yet to be retired. -/
theorem Stream.length_owed_le (s : Stream α) : s.owed.length ≤ s.unretired := by
  rw [owed, unretired, List.length_append, List.length_map, Nat.add_comm]
  cases s.worker <;> simp [Worker.owed, Worker.inHand]

/-- The launch that a host has counted and not yet sent. -/
def Host.launching? : Host α → Option (Job α)
  | .launching job => some job
  | .ready | .checking | .asleep | .waiting _ | .dropping => none

theorem Host.launching?_eq_some_iff {host : Host α} {job : Job α} :
    host.launching? = some job ↔ host = .launching job := by
  cases host <;> simp [launching?]

/-- The launches of a stream. -/
structure Launches (α : Type) where
  /-- The stream. -/
  stream : Stream α
  /-- The launches that hosts have counted and not yet sent. -/
  launching : ℕ → Option (Job α)
  /-- The jobs sent so far. -/
  sent : List (Job α)
  /-- The results delivered so far. -/
  delivered : List (Message α)
  /-- The number of launches counted so far. -/
  counted : ℕ

namespace Launches

/-- No launch has been made on a new stream. -/
def start (config : LaunchConfig) : Launches α where
  stream := .create config
  launching _ := none
  sent := []
  delivered := []
  counted := 0

/-- The steps of launches, with their events. -/
inductive Step : Launches α → List Event → Launches α → Prop
  /-- A host counts a launch. -/
  | count {l : Launches α} {h : ℕ} (kernel : Kernel α) :
    l.launching h = none →
    Step l [] { l with
      stream := l.stream.count
      launching := Function.update l.launching h (some ⟨l.counted, kernel⟩)
      counted := l.counted + 1 }
  /-- It sends the job. -/
  | send {l : Launches α} {h : ℕ} {job : Job α} :
    l.launching h = some job →
    Step l [] { l with
      stream := l.stream.send job
      launching := Function.update l.launching h none
      sent := l.sent ++ [job] }
  /-- The worker takes a job. -/
  | take {l : Launches α} {job : Job α} {queue : List (Job α)} :
    l.stream.worker = .idle → l.stream.queue = job :: queue →
    Step l [] { l with stream := { l.stream with queue, worker := .executing job } }
  /-- It runs the job, and delivers its result. -/
  | execute {l : Launches α} {job : Job α} :
    l.stream.worker = .executing job →
    Step l [] { l with
      stream := { l.stream with worker := .retiring (job.error? l.stream.config) }
      delivered := l.delivered ++ [job.message l.stream.config] }
  /-- It retires the launch. -/
  | retire {l : Launches α} {error : Option SelectError} :
    l.stream.worker = .retiring error →
    Step l [.finished error] { l with stream := l.stream.retire error }
  /-- A host is told the error, since nothing is in flight. -/
  | report {l : Launches α} {host : ℕ} :
    l.stream.inflight = 0 →
    Step l [.reported host l.stream.error] { l with stream := { l.stream with error := none } }

variable {config : LaunchConfig} {events new : List Event} {l m : Launches α} {job : Job α}

/-- A host is told the error that is kept, and only when nothing is in flight. -/
theorem Step.of_reported {host : ℕ} {error : Option SelectError}
    (h : l.Step [.reported host error] m) : l.stream.inflight = 0 ∧ error = l.stream.error := by
  cases h with
  | report hzero => exact ⟨hzero, rfl⟩

/-! ## The order of the launches -/

/-- The jobs sent, the results delivered and the history of a stream agree. -/
structure Ledger (config : LaunchConfig) (events : List Event) (l : Launches α) : Prop where
  config_eq : l.stream.config = config
  error_eq : l.stream.error = History.kept events
  honest : History.Honest events
  delivered : l.delivered ++ l.stream.owed = l.sent.map (·.message config)
  retired : History.finishes events ++ l.stream.toRetire = l.sent.map (·.error? config)

theorem ledger_start (config : LaunchConfig) : (start config : Launches α).Ledger config [] :=
  ⟨rfl, rfl, History.honest_nil, rfl, rfl⟩

/-- Every step keeps the books. -/
theorem Ledger.step (hl : l.Ledger config events) (h : l.Step new m) :
    m.Ledger config (events ++ new) := by
  obtain ⟨hconfig, herror, hhonest, hdelivered, hretired⟩ := hl
  cases h with
  | count kernel _ =>
    rw [List.append_nil]
    exact ⟨hconfig, herror, hhonest, hdelivered, hretired⟩
  | @send h job _ =>
    rw [List.append_nil]
    refine ⟨hconfig, herror, hhonest, ?_, ?_⟩
    · rw [List.map_append, ← hdelivered, ← hconfig]
      simp only [Stream.owed, Stream.send, List.map_append, List.map_singleton, List.append_assoc]
    · rw [List.map_append, ← hretired, ← hconfig]
      simp only [Stream.toRetire, Stream.send, List.map_append, List.map_singleton,
        List.append_assoc]
  | @take job queue hidle hqueue =>
    rw [List.append_nil]
    refine ⟨hconfig, herror, hhonest, ?_, ?_⟩
    · rw [← hdelivered]
      simp only [Stream.owed, Worker.owed, hidle, hqueue, List.map_cons, List.nil_append,
        List.singleton_append]
    · rw [← hretired]
      simp only [Stream.toRetire, Worker.toRetire, hidle, hqueue, List.map_cons, List.nil_append,
        List.singleton_append]
  | @execute job hexecuting =>
    rw [List.append_nil]
    refine ⟨hconfig, herror, hhonest, ?_, ?_⟩
    · rw [← hdelivered]
      simp only [Stream.owed, Worker.owed, hexecuting, List.nil_append, List.append_assoc]
    · rw [← hretired]
      simp only [Stream.toRetire, Worker.toRetire, hexecuting]
  | @retire error hretiring =>
    refine ⟨hconfig, ?_, hhonest.append_singleton (by rintro host error ⟨⟩), ?_, ?_⟩
    · rw [History.kept_append_singleton, ← herror]
      rfl
    · rw [← hdelivered]
      simp only [Stream.owed, Worker.owed, Stream.retire, hretiring]
    · rw [← hretired, History.finishes_append, History.finishes_finished]
      simp only [Stream.toRetire, Worker.toRetire, Stream.retire, hretiring, List.nil_append,
        List.append_assoc]
  | @report host _ =>
    refine ⟨hconfig, ?_, hhonest.append_singleton ?_, hdelivered, ?_⟩
    · rw [History.kept_append_singleton]
      rfl
    · rintro _ _ ⟨⟩
      exact herror
    · rw [History.finishes_append, History.finishes_reported, List.append_nil]
      exact hretired

/-- No launch is retired before its result has been delivered. -/
theorem Ledger.length_finishes_le (hl : l.Ledger config events) :
    (History.finishes events).length ≤ l.delivered.length := by
  have hdelivered := congrArg List.length hl.delivered
  have hretired := congrArg List.length hl.retired
  rw [List.length_append, List.length_map] at hdelivered hretired
  have howed := l.stream.length_owed_le
  rw [l.stream.length_toRetire] at hretired
  omega

/-- The launches are retired in the order in which they were sent, each with the error of its
    own result and after the result has been delivered. -/
theorem Ledger.of_getElem?_finishes (hl : l.Ledger config events) {n : ℕ}
    {error : Option SelectError} (h : (History.finishes events)[n]? = some error) :
    ∃ job, l.sent[n]? = some job ∧ l.delivered[n]? = some (job.message config) ∧
      error = job.error? config := by
  have hn : n < (History.finishes events).length := (List.getElem?_eq_some_iff.1 h).1
  have hretired : (l.sent.map (·.error? config))[n]? = some error := by
    rw [← hl.retired, List.getElem?_append_left hn, h]
  rw [List.getElem?_map, Option.map_eq_some_iff] at hretired
  obtain ⟨job, hjob, herror⟩ := hretired
  have hresult : (l.delivered ++ l.stream.owed)[n]? = some (job.message config) := by
    rw [hl.delivered, List.getElem?_map, hjob, Option.map_some]
  rw [List.getElem?_append_left (Nat.lt_of_lt_of_le hn hl.length_finishes_le)] at hresult
  exact ⟨job, hjob, hresult, herror.symm⟩

/-- When all jobs sent have been retired, their results have been delivered. -/
theorem Ledger.of_unretired (hl : l.Ledger config events) (h : l.stream.unretired = 0) :
    l.delivered = l.sent.map (·.message config) ∧
      History.finishes events = l.sent.map (·.error? config) := by
  have hretire : l.stream.toRetire = [] :=
    List.eq_nil_of_length_eq_zero (l.stream.length_toRetire.trans h)
  constructor
  · rw [← hl.delivered, Stream.owed_of_unretired h, List.append_nil]
  · rw [← hl.retired, hretire, List.append_nil]

/-! ## The number of the launches -/

/-- A launch has been counted: its job has been sent, or a host is about to send it. -/
def Counted (l : Launches α) (job : Job α) : Prop :=
  job ∈ l.sent ∨ ∃ h, l.launching h = some job

/-- A launch that has been counted stays so. -/
theorem Step.counted (h : l.Step new m) (hjob : l.Counted job) : m.Counted job := by
  cases h with
  | @count host kernel hnone =>
    refine hjob.imp_right ?_
    rintro ⟨other, hother⟩
    have hne : other ≠ host := by
      rintro rfl
      exact absurd (hnone.symm.trans hother) (by simp)
    exact ⟨other, (Function.update_of_ne hne _ _).trans hother⟩
  | @send host job' hsome =>
    rcases hjob with hsent | ⟨other, hother⟩
    · exact .inl (List.mem_append_left _ hsent)
    · by_cases heq : other = host
      · subst heq
        obtain rfl := Option.some.inj (hother.symm.trans hsome)
        exact .inl (List.mem_append_right _ (List.mem_singleton_self _))
      · exact .inr ⟨other, (Function.update_of_ne heq _ _).trans hother⟩
  | take _ _ | execute _ | retire _ | report _ => exact hjob

/-- The launches in flight are the ones that have been counted and not yet been retired. -/
structure InFlight (events : List Event) (l : Launches α) : Prop where
  /-- They are with the hosts that have not yet sent them, in the queue, or in the hand of the
      worker. -/
  places : ∃ hosts : Finset ℕ, (∀ h, h ∈ hosts ↔ ∃ job, l.launching h = some job) ∧
    l.stream.inflight = hosts.card + l.stream.unretired
  number : l.stream.inflight + (History.finishes events).length = l.counted
  tickets : ∀ ticket < l.counted, ∃ job, l.Counted job ∧ job.ticket = ticket

theorem inFlight_start (config : LaunchConfig) : (start config : Launches α).InFlight [] := by
  refine ⟨⟨∅, fun h => ?_, rfl⟩, rfl, fun ticket hlt => absurd hlt (Nat.not_lt_zero ticket)⟩
  simp [start]

/-- Every step keeps count. -/
theorem InFlight.step (hl : l.InFlight events) (h : l.Step new m) :
    m.InFlight (events ++ new) := by
  obtain ⟨⟨hosts, hmem, hinflight⟩, hnumber, htickets⟩ := hl
  have hkept : ∀ ticket < l.counted, ∃ job, m.Counted job ∧ job.ticket = ticket := by
    intro ticket hlt
    obtain ⟨job, hjob, hticket⟩ := htickets ticket hlt
    exact ⟨job, h.counted hjob, hticket⟩
  cases h with
  | @count host kernel hnone =>
    have hfresh : host ∉ hosts := by
      rw [hmem, hnone]
      simp
    rw [List.append_nil]
    refine ⟨⟨insert host hosts, fun other => ?_, ?_⟩, ?_, fun ticket hlt => ?_⟩
    · by_cases heq : other = host
      · simp [heq]
      · simp [heq, hmem]
    · rw [Finset.card_insert_of_notMem hfresh]
      simp only [Stream.count, Stream.unretired] at hinflight ⊢
      omega
    · simp only [Stream.count]
      omega
    · rcases Nat.lt_succ_iff_lt_or_eq.1 hlt with hlt | rfl
      · exact hkept ticket hlt
      · exact ⟨⟨l.counted, kernel⟩, .inr ⟨host, Function.update_self ..⟩, rfl⟩
  | @send host job hsome =>
    have hmember : host ∈ hosts := (hmem host).2 ⟨job, hsome⟩
    rw [List.append_nil]
    refine ⟨⟨hosts.erase host, fun other => ?_, ?_⟩, hnumber, hkept⟩
    · by_cases heq : other = host
      · simp [heq]
      · simp [heq, hmem]
    · have hcard := Finset.card_erase_add_one hmember
      simp only [Stream.send, Stream.unretired, List.length_append, List.length_singleton]
        at hinflight ⊢
      omega
  | @take job queue hidle hqueue =>
    rw [List.append_nil]
    refine ⟨⟨hosts, hmem, ?_⟩, hnumber, hkept⟩
    simp only [Stream.unretired, Worker.inHand, hidle, hqueue, List.length_cons] at hinflight ⊢
    omega
  | @execute job hexecuting =>
    rw [List.append_nil]
    refine ⟨⟨hosts, hmem, ?_⟩, hnumber, hkept⟩
    simpa only [Stream.unretired, Worker.inHand, hexecuting] using hinflight
  | @retire error hretiring =>
    simp only [Stream.unretired, Worker.inHand, hretiring] at hinflight
    refine ⟨⟨hosts, hmem, ?_⟩, ?_, hkept⟩
    · simp only [Stream.unretired, Worker.inHand, Stream.retire]
      omega
    · -- The launch that is retired was in flight, and so the number does go down.
      rw [History.finishes_append, History.finishes_finished, List.length_append,
        List.length_singleton]
      simp only [Stream.retire]
      omega
  | @report host hzero =>
    refine ⟨⟨hosts, hmem, hinflight⟩, ?_, hkept⟩
    rw [History.finishes_append, History.finishes_reported, List.append_nil]
    exact hnumber

/-- When nothing is in flight, every launch that has been counted has been sent, and all jobs
    sent have been retired. -/
theorem InFlight.of_zero (hl : l.InFlight events) (h : l.stream.inflight = 0) :
    l.stream.unretired = 0 ∧ ∀ job, l.Counted job → job ∈ l.sent := by
  obtain ⟨hosts, hmem, hinflight⟩ := hl.places
  have hempty : hosts = ∅ := Finset.card_eq_zero.1 (by omega)
  refine ⟨by omega, fun job hjob => ?_⟩
  rcases hjob with hsent | ⟨host, hhost⟩
  · exact hsent
  · have hmember := (hmem host).2 ⟨job, hhost⟩
    rw [hempty] at hmember
    exact absurd hmember (Finset.notMem_empty host)

end Launches

namespace SharedStream

variable {s t : SharedStream α} {new : List Event}

/-- The launches of a shared stream. -/
def launches (s : SharedStream α) : Launches α where
  stream := s.stream
  launching h := (s.hosts h).launching?
  sent := s.sent
  delivered := s.delivered
  counted := s.nextTicket

theorem launches_setHost (s : SharedStream α) (h : ℕ) (activity : Host α) :
    (s.setHost h activity).launches = { s.launches with
      launching := Function.update s.launches.launching h activity.launching? } := by
  simp only [launches, setHost, Launches.mk.injEq, and_true, true_and]
  funext other
  by_cases hother : other = h
  · subst hother
    rw [if_pos rfl, Function.update_self]
  · rw [if_neg hother, Function.update_of_ne hother]

/-- A host that neither begins nor ends to launch leaves the launches as they are. -/
theorem launches_setHost_of_eq (s : SharedStream α) {h : ℕ} {before activity : Host α}
    (hbefore : s.hosts h = before) (hsame : before.launching? = activity.launching?) :
    (s.setHost h activity).launches = s.launches := by
  rw [launches_setHost, ← hsame, ← hbefore]
  exact congrArg (fun launching => { s.launches with launching })
    (Function.update_eq_self h s.launches.launching)

theorem launches_wakeAll (s : SharedStream α) : s.wakeAll.launches = s.launches := by
  simp only [launches, wakeAll, Launches.mk.injEq, and_true, true_and]
  funext h
  cases s.hosts h <;> rfl

/-- What a step does to the launches. -/
theorem Step.launches (h : Step s new t) :
    s.launches.Step new t.launches ∨ new = [] ∧ t.launches = s.launches := by
  cases h with
  | @count host kernel hready _ =>
    left
    rw [launches_setHost]
    exact .count kernel (congrArg Host.launching? hready)
  | @send host job hlaunching =>
    left
    rw [launches_setHost]
    exact .send (congrArg Host.launching? hlaunching)
  | await hready _ | synchronize hready _ | drop hready _ _ =>
    right
    exact ⟨rfl, launches_setHost_of_eq _ hready rfl⟩
  | forget _ _ => exact .inr ⟨rfl, rfl⟩
  | receive hhost _ | sleep hhost _ | wake hhost | gone hhost _ =>
    right
    exact ⟨rfl, launches_setHost_of_eq _ hhost rfl⟩
  | @report host error stream hchecking hreport =>
    left
    rw [Stream.report?] at hreport
    split at hreport
    case isTrue hzero =>
      obtain ⟨rfl, rfl⟩ := Prod.mk.inj (Option.some.inj hreport)
      have hready : (SharedStream.setHost { s with stream := { s.stream with error := none } }
          host .ready).launches =
          { s.launches with stream := { s.launches.stream with error := none } } :=
        launches_setHost_of_eq _ hchecking rfl
      rw [hready]
      exact .report hzero
    case isFalse => cases hreport
  | @work stream message hretiring hwork =>
    left
    rw [Stream.work?] at hwork
    split at hwork
    case h_1 hidle =>
      split at hwork
      case h_1 => cases hwork
      case h_2 job queue hqueue =>
        obtain ⟨rfl, rfl⟩ := Prod.mk.inj (Option.some.inj hwork)
        rw [Option.toList_none, List.append_nil]
        exact .take hidle hqueue
    case h_2 job hexecuting =>
      obtain ⟨rfl, rfl⟩ := Prod.mk.inj (Option.some.inj hwork)
      exact .execute hexecuting
    case h_3 error herror => exact absurd herror (hretiring error)
  | retire hretiring _ => exact .inl (.retire hretiring)
  | retireLast hretiring _ =>
    left
    rw [launches_wakeAll]
    exact .retire hretiring

end SharedStream

end NeighborSearch
