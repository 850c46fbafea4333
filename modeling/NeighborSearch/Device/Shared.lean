import NeighborSearch.Device.Stream

/-!
# A stream shared by hosts

Any number of *hosts* use one stream at the same time: they launch kernels, wait for
results and synchronize, and in the end one of them drops the stream. What a host does
under a lock is one step; between its steps the others and the worker take theirs.

* A launch takes two steps: it is counted, and then its job is sent. From then on its
  result is *pending*, until a host waits for it or drops it; the worker delivers it all
  the same.
* A host that synchronizes looks whether anything is in flight. If so it falls asleep,
  until it is woken because the last launch has been retired (or for no reason), and
  looks again. If not, it takes the error that the stream has kept.
* A host that drops the stream waits until the worker has nothing left to do. Nobody
  uses the stream by then.

The finishes of launches and the returns of `synchronize` are the *events* of a step.
-/

namespace NeighborSearch

/-- What a host is doing. -/
inductive Host (α : Type)
  /-- Nothing with the stream. -/
  | ready
  /-- It has counted a launch and not yet sent its job. -/
  | launching (job : Job α)
  /-- It is about to look whether anything is in flight. -/
  | checking
  /-- It sleeps until nothing is in flight. -/
  | asleep
  /-- It waits for the result of a launch. -/
  | waiting (ticket : Nat)
  /-- It has dropped the stream, and waits for the worker. -/
  | dropping

/-- What others can tell of a step. -/
inductive Event
  /-- A launch has been retired, with the error it ended with. -/
  | finished (error : Option SelectError)
  /-- A host has been told the error since the last such event. -/
  | reported (host : Nat) (error : Option SelectError)

/-- A stream, the hosts that use it, and the results that have been delivered. -/
structure SharedStream (α : Type) where
  /-- The stream. -/
  stream : Stream α
  /-- What every host is doing. -/
  hosts : Nat → Host α
  /-- The results delivered so far, in the order of their delivery. -/
  delivered : List (Message α)
  /-- The jobs sent so far, in the order in which they were sent. -/
  sent : List (Job α)
  /-- The numbers of the launches whose results have neither been waited for nor dropped. -/
  pending : List Nat
  /-- The number of the next launch. -/
  nextTicket : Nat
  /-- Whether the stream has been dropped. -/
  dropped : Bool

namespace SharedStream

variable {α : Type}

/-- A new stream, with which no host has done anything. -/
def start (config : LaunchConfig) : SharedStream α where
  stream := .create config
  hosts _ := .ready
  delivered := []
  sent := []
  pending := []
  nextTicket := 0
  dropped := false

variable (s : SharedStream α)

/-- The same with another activity of one host. -/
def setHost (h : Nat) (activity : Host α) : SharedStream α :=
  { s with hosts := fun other => if other = h then activity else s.hosts other }

/-- All hosts that are asleep wake up. -/
def wakeAll : SharedStream α :=
  { s with
    hosts := fun h => match s.hosts h with
      | .asleep => .checking
      | activity => activity }

/-- Whether a host uses the stream in a way that it must not be dropped under. -/
def uses (h : Nat) : Prop :=
  match s.hosts h with
  | .launching _ | .checking | .asleep => True
  | .ready | .waiting _ | .dropping => False

/-- The steps, with their events. -/
inductive Step : SharedStream α → List Event → SharedStream α → Prop
  /-- A host counts a launch. -/
  | count {s : SharedStream α} {h : Nat} (kernel : Kernel α) :
    s.hosts h = .ready → s.dropped = false →
    Step s [] ({ s with
      stream := s.stream.count
      nextTicket := s.nextTicket + 1 }.setHost h (.launching ⟨s.nextTicket, kernel⟩))
  /-- It sends the job. -/
  | send {s : SharedStream α} {h : Nat} {job : Job α} :
    s.hosts h = .launching job →
    Step s [] ({ s with
      stream := s.stream.send job
      sent := s.sent ++ [job]
      pending := job.ticket :: s.pending }.setHost h .ready)
  /-- A host begins to wait for a pending result. -/
  | await {s : SharedStream α} {h ticket : Nat} :
    s.hosts h = .ready → ticket ∈ s.pending →
    Step s [] ({ s with pending := s.pending.erase ticket }.setHost h (.waiting ticket))
  /-- A host drops a pending result. -/
  | forget {s : SharedStream α} {h ticket : Nat} :
    s.hosts h = .ready → ticket ∈ s.pending →
    Step s [] { s with pending := s.pending.erase ticket }
  /-- It receives the result. -/
  | receive {s : SharedStream α} {h : Nat} {m : Message α} :
    s.hosts h = .waiting m.ticket → m ∈ s.delivered → Step s [] (s.setHost h .ready)
  /-- A host begins to synchronize. -/
  | synchronize {s : SharedStream α} {h : Nat} :
    s.hosts h = .ready → s.dropped = false → Step s [] (s.setHost h .checking)
  /-- It falls asleep, since something is in flight. -/
  | sleep {s : SharedStream α} {h : Nat} :
    s.hosts h = .checking → s.stream.inflight ≠ 0 → Step s [] (s.setHost h .asleep)
  /-- It wakes up for no reason. -/
  | wake {s : SharedStream α} {h : Nat} :
    s.hosts h = .asleep → Step s [] (s.setHost h .checking)
  /-- It takes the error, since nothing is in flight. -/
  | report {s : SharedStream α} {h : Nat} {error : Option SelectError} {stream : Stream α} :
    s.hosts h = .checking → s.stream.report? = some (error, stream) →
    Step s [.reported h error] ({ s with stream }.setHost h .ready)
  /-- The worker takes a job, or runs it and delivers its result. -/
  | work {s : SharedStream α} {stream : Stream α} {message : Option (Message α)} :
    (∀ error, s.stream.worker ≠ .retiring error) →
    s.stream.work? = some (stream, message) →
    Step s [] { s with stream, delivered := s.delivered ++ message.toList }
  /-- The worker retires a launch while others are in flight. -/
  | retire {s : SharedStream α} {error : Option SelectError} :
    s.stream.worker = .retiring error → (s.stream.retire error).inflight ≠ 0 →
    Step s [.finished error] { s with stream := s.stream.retire error }
  /-- The worker retires the last launch in flight, and all hosts are woken. -/
  | retireLast {s : SharedStream α} {error : Option SelectError} :
    s.stream.worker = .retiring error → (s.stream.retire error).inflight = 0 →
    Step s [.finished error] ({ s with stream := s.stream.retire error }.wakeAll)
  /-- A host drops the stream. -/
  | drop {s : SharedStream α} {h : Nat} :
    s.hosts h = .ready → s.dropped = false → (∀ other, ¬s.uses other) →
    Step s [] ({ s with dropped := true }.setHost h .dropping)
  /-- The worker has nothing left to do, and the stream is gone. -/
  | gone {s : SharedStream α} {h : Nat} :
    s.hosts h = .dropping → s.stream.isQuiet = true → Step s [] (s.setHost h .ready)

/-- What may have come about, with the events so far in their order. -/
inductive Reachable (config : LaunchConfig) : List Event → SharedStream α → Prop
  | start : Reachable config [] (start config)
  | step {events new : List Event} {s t : SharedStream α} :
    Reachable config events s → Step s new t → Reachable config (events ++ new) t

end SharedStream

end NeighborSearch
