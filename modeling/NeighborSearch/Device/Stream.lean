import NeighborSearch.Selection.Config
import NeighborSearch.Selection.Error

/-!
# Streams of launches

A *stream* takes kernels and runs them one after the other, in the order in which they
were sent, on a worker of its own. Whoever launches a kernel goes on at once; the result
is delivered as a message that bears the number of the launch.

A launch is *counted* when it is made, before the worker knows of it, and stays in
flight until it is *retired*. In between the worker takes it from the queue, runs it and
delivers its result. A stream keeps the error of the first launch that failed since an
error was last asked for; it can be asked for one when nothing is in flight.
-/

namespace NeighborSearch

/-- How a kernel ends. -/
inductive KernelExit (α : Type)
  /-- With a result, which may be an error. -/
  | returned (result : Except SelectError α)
  /-- Broken off, leaving a text or something else. -/
  | panicked (payload : Option String)

/-- The result of a launch: a kernel that breaks off has failed. -/
def KernelExit.result {α : Type} : KernelExit α → Except SelectError α
  | .returned result => result
  | .panicked payload => .error (.ofPanic payload)

/-- What can be launched. -/
abbrev Kernel (α : Type) := LaunchConfig → KernelExit α

/-- A launch: its kernel, and the number that its result will bear. -/
structure Job (α : Type) where
  ticket : Nat
  kernel : Kernel α

/-- The result of a launch, with its number. -/
structure Message (α : Type) where
  ticket : Nat
  result : Except SelectError α

/-- What the worker of a stream is doing. -/
inductive Worker (α : Type)
  /-- It waits for a job. -/
  | idle
  /-- It runs a job. -/
  | executing (job : Job α)
  /-- It has delivered the result of a job, and has yet to retire the launch. -/
  | retiring (error : Option SelectError)

/-- The error of a result. -/
def errorOf? {α : Type} : Except SelectError α → Option SelectError
  | .ok _ => none
  | .error e => some e

/-- A stream of launches. -/
structure Stream (α : Type) where
  /-- The geometry that every kernel is given. -/
  config : LaunchConfig
  /-- The number of launches counted and not yet retired. -/
  inflight : Nat
  /-- The first error since an error was last asked for. -/
  error : Option SelectError
  /-- The jobs that have been sent and not yet taken, the first one in front. -/
  queue : List (Job α)
  /-- What the worker is doing. -/
  worker : Worker α

namespace Stream

variable {α : Type}

/-- A stream to which nothing has been sent. -/
def create (config : LaunchConfig) : Stream α := ⟨config, 0, none, [], .idle⟩

/-- Count a launch. -/
def count (s : Stream α) : Stream α := { s with inflight := s.inflight + 1 }

/-- Send a job to the worker. -/
def send (s : Stream α) (job : Job α) : Stream α := { s with queue := s.queue ++ [job] }

/-- Count a launch and send its job. -/
def launch (s : Stream α) (job : Job α) : Stream α := s.count.send job

/-- Retire a launch. Its error is kept if there is no earlier one. -/
def retire (s : Stream α) (error : Option SelectError) : Stream α :=
  { s with
    error := s.error.or error
    inflight := s.inflight - 1
    worker := .idle }

/-- A step of the worker, with the message that it delivers: take a job, or run it and
    deliver its result, or retire its launch. -/
def work? (s : Stream α) : Option (Stream α × Option (Message α)) :=
  match s.worker with
  | .idle =>
    match s.queue with
    | [] => none
    | job :: queue => some ({ s with queue, worker := .executing job }, none)
  | .executing job =>
    let result := (job.kernel s.config).result
    some ({ s with worker := .retiring (errorOf? result) }, some ⟨job.ticket, result⟩)
  | .retiring error => some (s.retire error, none)

/-- The number of steps that the worker has ahead of it. -/
def workLeft (s : Stream α) : Nat :=
  3 * s.queue.length +
    match s.worker with
    | .idle => 0
    | .executing _ => 2
    | .retiring _ => 1

theorem workLeft_of_work? {s t : Stream α} {m : Option (Message α)} (h : s.work? = some (t, m)) :
    t.workLeft < s.workLeft := by
  obtain ⟨config, inflight, error, queue, worker⟩ := s
  cases worker with
  | idle =>
    cases queue with
    | nil => simp [work?] at h
    | cons job queue =>
      simp only [work?, Option.some.injEq, Prod.mk.injEq] at h
      simp only [← h.1, workLeft, List.length_cons]
      omega
  | executing job =>
    simp only [work?, Option.some.injEq, Prod.mk.injEq] at h
    simp only [← h.1, workLeft]
    omega
  | retiring e =>
    simp only [work?, Option.some.injEq, Prod.mk.injEq] at h
    simp only [← h.1, workLeft, retire]
    omega

/-- Ask for an error when nothing is in flight: the one that was kept, which is then
    forgotten. -/
def report? (s : Stream α) : Option (Option SelectError × Stream α) :=
  if s.inflight = 0 then some (s.error, { s with error := none }) else none

/-- Whether the worker has nothing ahead of it. -/
def isQuiet (s : Stream α) : Bool := s.workLeft = 0

/-- Whether the result of a launch is yet to be delivered. -/
def owes (s : Stream α) (ticket : Nat) : Bool :=
  s.queue.any (·.ticket = ticket) ||
    match s.worker with
    | .executing job => job.ticket = ticket
    | .idle | .retiring _ => false

/-- The stream in words: the number of launches in flight, and the geometry. -/
def describe (s : Stream α) : String :=
  s!"Stream \x7b inflight: {s.inflight}, launch: LaunchConfig \x7b lanes: {s.config.lanes}, " ++
    s!"tile: {s.config.tile}, rows_per_group: {s.config.rowsPerGroup} \x7d \x7d"

end Stream

end NeighborSearch
