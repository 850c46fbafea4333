import Mathlib.Data.Nat.Notation
import NeighborSearch.Device.Stream

/-!
# What a stream will come to

The results that a stream has yet to deliver are settled by what has been sent to it,
and so is the error that it will have kept when all of them are delivered. Neither is
changed by a step of the worker, but that the step may deliver the first of the results
(`work?_owed`, `work?_settledError`). When nothing is in flight, nothing is owed, and the
error that is kept is the one that was settled.
-/

namespace NeighborSearch

variable {α : Type}

/-- The result of a job, with its number. -/
def Job.message (config : LaunchConfig) (job : Job α) : Message α :=
  ⟨job.ticket, (job.kernel config).result⟩

/-- The first error of some results. -/
def firstError (messages : List (Message α)) : Option SelectError :=
  messages.findSome? fun m => errorOf? m.result

theorem firstError_append (ms ms' : List (Message α)) :
    firstError (ms ++ ms') = (firstError ms).or (firstError ms') :=
  List.findSome?_append

theorem firstError_cons (m : Message α) (ms : List (Message α)) :
    firstError (m :: ms) = (errorOf? m.result).or (firstError ms) := by
  rw [firstError, List.findSome?_cons]
  cases errorOf? m.result <;> rfl

namespace Worker

/-- The results that the worker has yet to deliver. -/
def owed (config : LaunchConfig) : Worker α → List (Message α)
  | .executing job => [job.message config]
  | .idle | .retiring _ => []

/-- The error of the launch that the worker has yet to retire. -/
def error? : Worker α → Option SelectError
  | .retiring error => error
  | .idle | .executing _ => none

/-- The number of launches that the worker has in hand. -/
def inHand : Worker α → ℕ
  | .idle => 0
  | .executing _ | .retiring _ => 1

end Worker

namespace Stream

variable {s t : Stream α} {m : Option (Message α)}

/-- The results that the stream has yet to deliver, in the order of their delivery. -/
def owed (s : Stream α) : List (Message α) :=
  s.worker.owed s.config ++ s.queue.map (·.message s.config)

/-- The error that the stream will have kept when nothing is left to do. -/
def settledError (s : Stream α) : Option SelectError :=
  (s.error.or s.worker.error?).or (firstError s.owed)

/-- The number of launches that have been sent and not yet been retired. -/
def unretired (s : Stream α) : ℕ := s.queue.length + s.worker.inHand

/-! ## Steps of the worker -/

theorem work?_config (h : s.work? = some (t, m)) : t.config = s.config := by
  obtain ⟨config, inflight, error, queue, worker⟩ := s
  cases worker with
  | idle =>
    cases queue with
    | nil => exact absurd h (by simp [work?])
    | cons job queue =>
      obtain ⟨rfl, -⟩ := Prod.mk.inj (Option.some.inj h)
      rfl
  | executing job =>
    obtain ⟨rfl, -⟩ := Prod.mk.inj (Option.some.inj h)
    rfl
  | retiring e =>
    obtain ⟨rfl, -⟩ := Prod.mk.inj (Option.some.inj h)
    rfl

/-- What a step delivers was owed, and all else still is. -/
theorem work?_owed (h : s.work? = some (t, m)) : m.toList ++ t.owed = s.owed := by
  obtain ⟨config, inflight, error, queue, worker⟩ := s
  cases worker with
  | idle =>
    cases queue with
    | nil => exact absurd h (by simp [work?])
    | cons job queue =>
      obtain ⟨rfl, rfl⟩ := Prod.mk.inj (Option.some.inj h)
      rfl
  | executing job =>
    obtain ⟨rfl, rfl⟩ := Prod.mk.inj (Option.some.inj h)
    rfl
  | retiring e =>
    obtain ⟨rfl, rfl⟩ := Prod.mk.inj (Option.some.inj h)
    rfl

theorem work?_settledError (h : s.work? = some (t, m)) : t.settledError = s.settledError := by
  obtain ⟨config, inflight, error, queue, worker⟩ := s
  cases worker with
  | idle =>
    cases queue with
    | nil => exact absurd h (by simp [work?])
    | cons job queue =>
      obtain ⟨rfl, -⟩ := Prod.mk.inj (Option.some.inj h)
      rfl
  | executing job =>
    -- The error moves from the results that are owed to the launch to be retired.
    obtain ⟨rfl, -⟩ := Prod.mk.inj (Option.some.inj h)
    simp [settledError, owed, Worker.owed, Worker.error?, firstError_cons, Job.message,
      Option.or_assoc]
  | retiring e =>
    obtain ⟨rfl, -⟩ := Prod.mk.inj (Option.some.inj h)
    simp [settledError, owed, Worker.owed, Worker.error?, retire]

/-- A step retires as many launches as it takes out of flight. -/
theorem work?_inflight (others : ℕ) (h : s.work? = some (t, m))
    (hs : s.inflight = s.unretired + others) : t.inflight = t.unretired + others := by
  obtain ⟨config, inflight, error, queue, worker⟩ := s
  cases worker with
  | idle =>
    cases queue with
    | nil => exact absurd h (by simp [work?])
    | cons job queue =>
      obtain ⟨rfl, -⟩ := Prod.mk.inj (Option.some.inj h)
      simpa [unretired, Worker.inHand] using hs
  | executing job =>
    obtain ⟨rfl, -⟩ := Prod.mk.inj (Option.some.inj h)
    exact hs
  | retiring e =>
    obtain ⟨rfl, -⟩ := Prod.mk.inj (Option.some.inj h)
    simp only [unretired, Worker.inHand, retire] at hs ⊢
    omega

/-- A worker that has something ahead of it can take a step. -/
theorem exists_work?_eq_some (h : s.isQuiet = false) : ∃ t m, s.work? = some (t, m) := by
  obtain ⟨config, inflight, error, queue, worker⟩ := s
  cases worker with
  | idle =>
    cases queue with
    | nil => exact absurd h (by simp [isQuiet, workLeft])
    | cons job queue => exact ⟨_, _, rfl⟩
  | executing job => exact ⟨_, _, rfl⟩
  | retiring e => exact ⟨_, _, rfl⟩

/-! ## Launches -/

theorem owed_launch (s : Stream α) (job : Job α) :
    (s.launch job).owed = s.owed ++ [job.message s.config] := by
  simp [owed, launch, count, send]

theorem settledError_launch (s : Stream α) (job : Job α) :
    (s.launch job).settledError =
      s.settledError.or (errorOf? (job.kernel s.config).result) := by
  have hlast : firstError [job.message s.config] = errorOf? (job.kernel s.config).result := by
    rw [firstError_cons]
    exact Option.or_none
  rw [settledError, owed_launch, firstError_append, hlast, ← Option.or_assoc]
  rfl

/-! ## Nothing left to do -/

theorem isQuiet_iff : s.isQuiet = true ↔ s.unretired = 0 := by
  obtain ⟨config, inflight, error, queue, worker⟩ := s
  rw [isQuiet, decide_eq_true_iff, workLeft, unretired]
  cases worker <;> simp only [Worker.inHand] <;> omega

theorem owed_of_unretired (h : s.unretired = 0) : s.owed = [] := by
  obtain ⟨config, inflight, error, queue, worker⟩ := s
  cases worker <;> simp_all [unretired, Worker.inHand, owed, Worker.owed]

theorem settledError_of_unretired (h : s.unretired = 0) : s.settledError = s.error := by
  rw [settledError, owed_of_unretired h]
  obtain ⟨config, inflight, error, queue, worker⟩ := s
  cases worker <;> simp_all [unretired, Worker.inHand, Worker.error?, firstError]

theorem owes_of_mem_owed {m : Message α} (h : m ∈ s.owed) : s.owes m.ticket = true := by
  obtain ⟨config, inflight, error, queue, worker⟩ := s
  rw [owes, Bool.or_eq_true]
  rcases List.mem_append.1 h with hworker | hqueue
  · cases worker with
    | idle => exact absurd hworker List.not_mem_nil
    | executing job =>
      obtain rfl := List.mem_singleton.1 hworker
      exact .inr (decide_eq_true rfl)
    | retiring e => exact absurd hworker List.not_mem_nil
  · obtain ⟨job, hjob, rfl⟩ := List.mem_map.1 hqueue
    exact .inl (List.any_eq_true.2 ⟨job, hjob, decide_eq_true rfl⟩)

theorem isQuiet_of_mem_owed {m : Message α} (h : m ∈ s.owed) : s.isQuiet = false := by
  rw [Bool.eq_false_iff, ne_eq, isQuiet_iff]
  intro hdone
  exact absurd (owed_of_unretired hdone ▸ h) List.not_mem_nil

/-! ## Streams that are asked for their error -/

/-- A stream with the given geometry, on which all launches in flight have been sent. -/
structure Sound (s : Stream α) (config : LaunchConfig) : Prop where
  config : s.config = config
  inflight : s.inflight = s.unretired

variable {config : LaunchConfig}

theorem sound_create : (Stream.create config : Stream α).Sound config := ⟨rfl, rfl⟩

theorem Sound.work? (hs : s.Sound config) (h : s.work? = some (t, m)) : t.Sound config :=
  ⟨(work?_config h).trans hs.config, work?_inflight 0 h hs.inflight⟩

theorem Sound.launch (hs : s.Sound config) (job : Job α) : (s.launch job).Sound config := by
  refine ⟨hs.config, ?_⟩
  have := hs.inflight
  simp only [Stream.launch, count, send, unretired, List.length_append, List.length_singleton] at *
  omega

/-- The error that a stream tells is the one that was settled, and it is then forgotten. -/
theorem Sound.report? {error : Option SelectError} (hs : s.Sound config)
    (h : s.report? = some (error, t)) :
    error = s.settledError ∧ t.settledError = none ∧ t.owed = s.owed ∧ t.Sound config := by
  rw [Stream.report?] at h
  split at h
  case isTrue hzero =>
    obtain ⟨rfl, rfl⟩ := Prod.mk.inj (Option.some.inj h)
    have hdone : s.unretired = 0 := hs.inflight ▸ hzero
    refine ⟨(settledError_of_unretired hdone).symm, ?_, rfl, ⟨hs.config, hs.inflight⟩⟩
    exact settledError_of_unretired (s := { s with error := none }) hdone
  case isFalse => exact absurd h (by simp)

/-- A stream that does not tell its error yet has something left to do. -/
theorem Sound.isQuiet_of_report? (hs : s.Sound config) (h : s.report? = none) :
    s.isQuiet = false := by
  rw [Stream.report?] at h
  split at h
  case isTrue => exact absurd h (by simp)
  case isFalse hne =>
    rw [Bool.eq_false_iff, ne_eq, isQuiet_iff, ← hs.inflight]
    exact hne

end Stream

end NeighborSearch
