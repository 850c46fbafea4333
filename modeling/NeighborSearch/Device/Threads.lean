import NeighborSearch.Device.Shared

/-!
# The threads of a stream

Underneath, a shared stream is a number of threads: the worker, and the hosts. What they
share is the record of the launches in flight, which they lock, and channels.

* Hosts send their jobs to the worker on one channel. The worker takes them in their order,
  until the channel is empty and its other end has been dropped with the stream. It then
  ends, and whoever sent a job now would be refused.
* The result of each launch has a channel of its own, its *mailbox*. The job holds the one
  end of it, and puts the result in; the handle of the launch is the other end. There is
  room for one result, and whoever wants to put in another one has to wait. Whoever wants to
  take one out waits for it, unless the mailbox is empty and the job is gone.

What a thread does under the lock is one step, and so is what it does with a channel. A
result is put in before the launch is retired, and the job is gone only after that. What a
step does with a launch, and what it tells a host, are its *occurrences*.
-/

namespace NeighborSearch

/-- The channel on which the result of a launch is delivered. -/
structure Mailbox (α : Type) where
  /-- The results that have been put in and not been taken out. -/
  results : List (Except SelectError α)
  /-- Whether the job is there, which puts results in. -/
  hasSender : Bool
  /-- Whether the handle is there, with which they are taken out. -/
  hasReceiver : Bool

namespace Mailbox

variable {α : Type}

/-- A channel that has just been made. -/
def create : Mailbox α := ⟨[], true, true⟩

/-- No channel. -/
def absent : Mailbox α := ⟨[], false, false⟩

/-- The number of results that there is room for. -/
def capacity : Nat := 1

variable (m : Mailbox α)

/-- Put a result in, if there is room. Without a handle it is thrown away. -/
def put? (result : Except SelectError α) : Option (Mailbox α) :=
  if m.hasReceiver then
    if m.results.length < capacity then some { m with results := m.results ++ [result] } else none
  else some m

/-- The job is gone. -/
def dropSender : Mailbox α := { m with hasSender := false }

/-- The handle is gone, and with it whatever has not been taken out. -/
def dropReceiver : Mailbox α := { m with results := [], hasReceiver := false }

end Mailbox

/-- What the thread of the worker is doing. -/
inductive WorkerThread (α : Type)
  /-- It waits for a job. -/
  | listening
  /-- It is in the kernel of a job. -/
  | calling (job : Job α)
  /-- The kernel has come to its end, and the result is to be put into the mailbox. -/
  | sending (job : Job α) (result : Except SelectError α)
  /-- The launch is to be retired. -/
  | finishing (job : Job α) (error : Option SelectError)
  /-- It has come to its end. -/
  | ended

namespace Host

variable {α : Type}

/-- What becomes of a host when all that are asleep are woken. -/
def wake : Host α → Host α
  | .asleep => .checking
  | activity => activity

/-- Whether the host uses the stream in a way that it must not be dropped under. -/
def Uses : Host α → Prop
  | .launching _ | .checking | .asleep => True
  | .ready | .waiting _ | .dropping => False

end Host

/-- What a step does with a launch, or tells a host. -/
inductive Occurrence (α : Type)
  /-- A host has sent a job. -/
  | sent (job : Job α)
  /-- The kernel of a job has been called. -/
  | called (job : Job α)
  /-- It has come to its end. -/
  | returned (job : Job α)
  /-- Its result has been put into the mailbox of the launch. -/
  | delivered (message : Message α)
  /-- The launch has been retired, with the error it ended with. -/
  | retired (job : Job α) (error : Option SelectError)
  /-- A host that synchronized has been told the error since the last time one was. -/
  | reported (host : Nat) (error : Option SelectError)
  /-- A host that waited for the result of a launch has been given it. -/
  | answered (host ticket : Nat) (result : Except SelectError α)
  /-- A host that launched or waited has been told that the stream is closed. -/
  | closed (host : Nat)

/-- The threads of a stream. -/
structure Threads (α : Type) where
  /-- The geometry that every kernel is given. -/
  config : LaunchConfig
  /-- The number of launches counted and not yet retired. -/
  inflight : Nat
  /-- The first error since an error was last asked for. -/
  error : Option SelectError
  /-- The jobs that have been sent and not yet taken, the first one in front. -/
  jobs : List (Job α)
  /-- What the worker is doing. -/
  worker : WorkerThread α
  /-- The mailboxes of the launches, by their numbers. -/
  mailboxes : Nat → Mailbox α
  /-- What every host is doing. -/
  hosts : Nat → Host α
  /-- The handles that no host waits on, by the numbers of their launches. -/
  pending : List Nat
  /-- The number of the next launch. -/
  nextTicket : Nat
  /-- Whether the stream has been dropped. -/
  dropped : Bool

namespace Threads

variable {α : Type}

/-- A new stream, with which no host has done anything. -/
def start (config : LaunchConfig) : Threads α where
  config
  inflight := 0
  error := none
  jobs := []
  worker := .listening
  mailboxes _ := .absent
  hosts _ := .ready
  pending := []
  nextTicket := 0
  dropped := false

variable (s : Threads α)

/-- The same with another activity of one host. -/
def setHost (h : Nat) (activity : Host α) : Threads α :=
  { s with hosts := fun other => if other = h then activity else s.hosts other }

/-- The same with something done to one mailbox. -/
def setMailbox (ticket : Nat) (mailbox : Mailbox α) : Threads α :=
  { s with mailboxes := fun other => if other = ticket then mailbox else s.mailboxes other }

/-- Retire a launch: its error is kept if there is no earlier one, and all hosts that are
    asleep are woken if it was the last one in flight. -/
def finish (error : Option SelectError) : Threads α :=
  { s with
    error := s.error.or error
    inflight := s.inflight - 1
    hosts := if s.inflight - 1 = 0 then fun h => (s.hosts h).wake else s.hosts }

/-- The steps of the worker, with their occurrences. -/
inductive WorkerStep : Threads α → List (Occurrence α) → Threads α → Prop
  /-- It takes a job, and calls its kernel. -/
  | take {s : Threads α} {job : Job α} {jobs : List (Job α)} :
    s.worker = .listening → s.jobs = job :: jobs →
    WorkerStep s [.called job] { s with jobs, worker := .calling job }
  /-- The kernel comes to its end. -/
  | complete {s : Threads α} {job : Job α} :
    s.worker = .calling job →
    WorkerStep s [.returned job]
      { s with worker := .sending job (job.kernel s.config).result }
  /-- It puts the result into the mailbox. -/
  | deliver {s : Threads α} {job : Job α} {result : Except SelectError α} {m : Mailbox α} :
    s.worker = .sending job result → (s.mailboxes job.ticket).put? result = some m →
    WorkerStep s [.delivered ⟨job.ticket, result⟩]
      ({ s with worker := .finishing job (errorOf? result) }.setMailbox job.ticket m)
  /-- It retires the launch, which has to be in flight, and the job is gone. -/
  | retire {s : Threads α} {job : Job α} {error : Option SelectError} :
    s.worker = .finishing job error → s.inflight ≠ 0 →
    WorkerStep s [.retired job error]
      (({ s with worker := .listening }.finish error).setMailbox job.ticket
        (s.mailboxes job.ticket).dropSender)
  /-- No job is left, and none will come. -/
  | leave {s : Threads α} :
    s.worker = .listening → s.jobs = [] → s.dropped = true →
    WorkerStep s [] { s with worker := .ended }

/-- The steps of a host, with their occurrences. -/
inductive HostStep (h : Nat) : Threads α → List (Occurrence α) → Threads α → Prop
  /-- It makes a mailbox, and counts a launch. -/
  | count {s : Threads α} (kernel : Kernel α) :
    s.hosts h = .ready → s.dropped = false →
    HostStep h s [] (({ s with
      inflight := s.inflight + 1
      nextTicket := s.nextTicket + 1 }.setMailbox s.nextTicket .create).setHost h
        (.launching ⟨s.nextTicket, kernel⟩))
  /-- It sends the job, and is given the handle. -/
  | send {s : Threads α} {job : Job α} :
    s.hosts h = .launching job → s.worker ≠ .ended →
    HostStep h s [.sent job] ({ s with
      jobs := s.jobs ++ [job]
      pending := job.ticket :: s.pending }.setHost h .ready)
  /-- It cannot send the job, since the worker has ended. The launch is retired again. -/
  | refuse {s : Threads α} {job : Job α} :
    s.hosts h = .launching job → s.worker = .ended → s.inflight ≠ 0 →
    HostStep h s [.closed h]
      (((s.finish none).setMailbox job.ticket .absent).setHost h .ready)
  /-- It begins to wait for a result. -/
  | await {s : Threads α} {ticket : Nat} :
    s.hosts h = .ready → ticket ∈ s.pending →
    HostStep h s [] ({ s with pending := s.pending.erase ticket }.setHost h (.waiting ticket))
  /-- It drops a handle. -/
  | forget {s : Threads α} {ticket : Nat} :
    s.hosts h = .ready → ticket ∈ s.pending →
    HostStep h s [] ({ s with pending := s.pending.erase ticket }.setMailbox ticket
      (s.mailboxes ticket).dropReceiver)
  /-- It takes the result out. -/
  | receive {s : Threads α} {ticket : Nat} {result : Except SelectError α}
    {results : List (Except SelectError α)} :
    s.hosts h = .waiting ticket → (s.mailboxes ticket).results = result :: results →
    HostStep h s [.answered h ticket result]
      ((s.setMailbox ticket (s.mailboxes ticket).dropReceiver).setHost h .ready)
  /-- The mailbox is empty, and the job is gone. -/
  | disconnect {s : Threads α} {ticket : Nat} :
    s.hosts h = .waiting ticket → (s.mailboxes ticket).results = [] →
    (s.mailboxes ticket).hasSender = false →
    HostStep h s [.closed h]
      ((s.setMailbox ticket (s.mailboxes ticket).dropReceiver).setHost h .ready)
  /-- It begins to synchronize. -/
  | synchronize {s : Threads α} :
    s.hosts h = .ready → s.dropped = false → HostStep h s [] (s.setHost h .checking)
  /-- It falls asleep, since something is in flight. -/
  | sleep {s : Threads α} :
    s.hosts h = .checking → s.inflight ≠ 0 → HostStep h s [] (s.setHost h .asleep)
  /-- It wakes up for no reason. -/
  | wake {s : Threads α} :
    s.hosts h = .asleep → HostStep h s [] (s.setHost h .checking)
  /-- It takes the error, since nothing is in flight. -/
  | report {s : Threads α} :
    s.hosts h = .checking → s.inflight = 0 →
    HostStep h s [.reported h s.error] ({ s with error := none }.setHost h .ready)
  /-- It drops the stream, and waits for the worker. -/
  | drop {s : Threads α} :
    s.hosts h = .ready → s.dropped = false → (∀ other, ¬(s.hosts other).Uses) →
    HostStep h s [] ({ s with dropped := true }.setHost h .dropping)
  /-- The worker has ended, and the stream is gone. -/
  | join {s : Threads α} :
    s.hosts h = .dropping → s.worker = .ended → HostStep h s [] (s.setHost h .ready)

/-- The steps of all threads. -/
inductive Step : Threads α → List (Occurrence α) → Threads α → Prop
  | worker {s t : Threads α} {new : List (Occurrence α)} : WorkerStep s new t → Step s new t
  | host {s t : Threads α} {new : List (Occurrence α)} (h : Nat) : HostStep h s new t → Step s new t

/-- What may have come about, with the occurrences so far in their order. -/
inductive Reachable (config : LaunchConfig) : List (Occurrence α) → Threads α → Prop
  | start : Reachable config [] (start config)
  | step {history new : List (Occurrence α)} {s t : Threads α} :
    Reachable config history s → Step s new t → Reachable config (history ++ new) t

end Threads

end NeighborSearch
