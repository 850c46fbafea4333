import NeighborSearch.Device.Command

/-!
# Sessions with a device

A *session* is a device at work: its streams with what is queued on them, the results
that have been delivered, and the names of the results that are pending. A command is
carried out as far as it does not have to wait for a worker; one that has to is not
carried out yet (`perform?`). The workers take their steps between commands, each on
its own (`work?`).

`Runs` relates a session to the answers that a list of commands may get, whatever steps
the workers take in between. `run` is one way: workers step only when a command has to
wait.
-/

namespace NeighborSearch

/-- A device at work. -/
structure Session where
  /-- The configuration of the device. -/
  device : DeviceConfig
  /-- The stored values. -/
  store : Store
  /-- The streams, by their names. -/
  streams : Bindings (Stream Outcome)
  /-- The numbers of the launches whose results are pending, by the names of these. -/
  pending : Bindings Nat
  /-- The results delivered so far, the last one in front. -/
  delivered : List (Message Outcome)
  /-- The number of the next launch. -/
  nextTicket : Nat

namespace Session

/-- A device that has just been started. -/
def start (device : DeviceConfig) : Session := ⟨device, .empty, [], [], [], 0⟩

/-! ## Workers -/

/-- A step of the worker of a stream. -/
def work? (s : Session) (stream : String) : Option Session := do
  let before ← s.streams.get? stream
  let (after, message) ← before.work?
  return { s with
    streams := s.streams.put stream after
    delivered := message.toList ++ s.delivered }

/-- The number of steps that the workers of some streams have ahead of them. -/
def workLeft : Bindings (Stream Outcome) → Nat
  | [] => 0
  | (_, stream) :: streams => stream.workLeft + workLeft streams

theorem workLeft_erase (streams : Bindings (Stream Outcome)) {name : String}
    {t : Stream Outcome} (h : streams.get? name = some t) :
    workLeft (streams.erase name) + t.workLeft ≤ workLeft streams := by
  induction streams with
  | nil => simp [Bindings.get?] at h
  | cons p streams ih =>
    obtain ⟨other, u⟩ := p
    simp only [Bindings.get?, List.lookup_cons] at h
    by_cases hn : name = other
    · subst hn
      simp only [beq_self_eq_true, Option.some.injEq] at h
      subst h
      have : ∀ l : Bindings (Stream Outcome), workLeft (l.erase name) ≤ workLeft l := by
        intro l
        induction l with
        | nil => exact Nat.le_refl _
        | cons q l ih =>
          simp only [Bindings.erase, List.filter_cons] at ih ⊢
          split <;> simp only [workLeft] <;> omega
      have := this streams
      simp only [Bindings.erase, workLeft, List.filter_cons, bne_self_eq_false,
        Bool.false_eq_true, if_false] at this ⊢
      omega
    · have hb : (name == other) = false := by simpa using hn
      rw [hb] at h
      have := ih h
      have hne : (other != name) = true := by simpa using fun e => hn e.symm
      simp only [Bindings.erase, workLeft, List.filter_cons, hne, if_true] at this ⊢
      omega

/-- A step of a worker leaves less to do. -/
theorem workLeft_of_work? {s t : Session} {stream : String} (h : s.work? stream = some t) :
    workLeft t.streams < workLeft s.streams := by
  simp only [work?, Option.bind_eq_bind, Option.bind_eq_some_iff] at h
  obtain ⟨before, hb, ⟨after, message⟩, ha, ht⟩ := h
  have hlt := Stream.workLeft_of_work? ha
  have hle := workLeft_erase s.streams hb
  simp only [pure, Option.some.injEq] at ht
  simp only [← ht, Bindings.put, workLeft]
  omega

/-- A step of the first worker that can take one. -/
def workAny? (s : Session) : Option Session :=
  s.streams.findSome? fun p => s.work? p.1

theorem workLeft_of_workAny? {s t : Session} (h : s.workAny? = some t) :
    workLeft t.streams < workLeft s.streams := by
  obtain ⟨_, _, _, _, hw, _⟩ := List.findSome?_eq_some_iff.1 h
  exact workLeft_of_work? hw

/-! ## Commands -/

/-- Launch a kernel on a stream, and keep its pending result. -/
def launch (s : Session) (name : String) (stream : Stream Outcome) (kernel : Kernel Outcome)
    (pending : String) : Session :=
  { s with
    streams := s.streams.put name (stream.launch ⟨s.nextTicket, kernel⟩)
    pending := s.pending.put pending s.nextTicket
    nextTicket := s.nextTicket + 1 }

/-- The result that has been delivered for a launch. -/
def result? (s : Session) (ticket : Nat) : Option (Except SelectError Outcome) :=
  (s.delivered.find? (·.ticket = ticket)).map (·.result)

/-- Carry out a command that concerns stored values. -/
def performStore (s : Session) (c : StoreCommand) : Session × Answer :=
  let (store, answer) := s.store.perform s.device.launch c
  ({ s with store }, answer)

/-- Carry out a command, unless it has to wait for a worker. -/
def perform? (s : Session) : Command → Option (Session × Answer)
  | .store c => some (s.performStore c)
  | .openStream name =>
    match s.streams.get? name with
    | some old =>
      if old.isQuiet then
        some ({ s with streams := s.streams.put name (.create s.device.launch) }, .done)
      else none
    | none => some ({ s with streams := s.streams.put name (.create s.device.launch) }, .done)
  | .closeStream name =>
    match s.streams.get? name with
    | some old =>
      if old.isQuiet then some ({ s with streams := s.streams.erase name }, .done) else none
    | none => some (s, .unknown name)
  | .launch name request pending =>
    match s.streams.get? name with
    | none => some (s, .unknown name)
    | some stream =>
      match s.store.kernel request with
      | .error answer => some (s, answer)
      | .ok kernel => some (s.launch name stream kernel pending, .done)
  | .wait name =>
    match s.pending.get? name with
    | none => some (s, .unknown name)
    | some ticket =>
      match s.result? ticket with
      | some result => some ({ s with pending := s.pending.erase name }, .ofResult result)
      | none =>
        -- A stream is dropped only when it is quiet, so some stream still owes the result.
        if s.streams.any (fun p => p.2.owes ticket) then none
        else some ({ s with pending := s.pending.erase name }, .failed .streamClosed)
  | .forget name =>
    match s.pending.get? name with
    | none => some (s, .unknown name)
    | some _ => some ({ s with pending := s.pending.erase name }, .done)
  | .synchronize name =>
    match s.streams.get? name with
    | none => some (s, .unknown name)
    | some stream => do
      let (error, stream) ← stream.report?
      let answer := match error with
        | some e => .failed e
        | none => .done
      return ({ s with streams := s.streams.put name stream }, answer)
  | .describe name =>
    match s.streams.get? name with
    | none => some (s, .unknown name)
    | some stream => some (s, .description stream.describe)

/-- The answers that the commands may get, and the session after them: at any time a
    worker may take a step, and a command is carried out when it does not have to wait. -/
inductive Runs : Session → List Command → List Answer → Session → Prop
  | done {s : Session} : Runs s [] [] s
  | work {s s' t : Session} {stream : String} {cs : List Command} {as : List Answer} :
    s.work? stream = some s' → Runs s' cs as t → Runs s cs as t
  | command {s s' t : Session} {c : Command} {a : Answer} {cs : List Command}
    {as : List Answer} :
    s.perform? c = some (s', a) → Runs s' cs as t → Runs s (c :: cs) (a :: as) t

/-- Carry out a command. While it has to wait, workers take steps; without a step left to
    take, it would wait for ever. -/
def perform (s : Session) (c : Command) : Option (Session × Answer) :=
  match s.perform? c with
  | some r => some r
  | none =>
    match _h : s.workAny? with
    | some s' => s'.perform c
    | none => none
termination_by workLeft s.streams
decreasing_by exact workLeft_of_workAny? _h

/-- Carry out the commands one after the other, as far as none waits for ever. -/
def run (s : Session) : List Command → List Answer
  | [] => []
  | c :: cs =>
    match s.perform c with
    | some (s, a) => a :: s.run cs
    | none => []

end Session

end NeighborSearch
