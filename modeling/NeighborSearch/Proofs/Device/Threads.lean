import NeighborSearch.Proofs.Device.Hosts

/-!
# The threads of a stream as a shared stream

What the threads of a stream do is what a shared stream may do: the mailboxes take the place
of the list of all that has been delivered, and the worker takes more steps on its way from
one job to the next (`HostStep.shared`, `WorkerStep.shared`).

For that, the threads must not do what a shared stream cannot, and find what they look for.
This is so when they are sound (`Sound`).

* `Mailboxes`: a mailbox holds what has been put into it, as long as its handle is there;
  and the job is there until something has been put in.
* `Answers`: nobody has been told that the stream is closed, and a host that waited has been
  given what was put into the mailbox.
* `Course`: what the worker has done and what it has ahead of it are the courses of the jobs
  sent, in this order.
-/

namespace NeighborSearch

variable {α : Type}

/-! ## Histories -/

namespace Occurrence

/-- The event of a shared stream that an occurrence is. -/
def event? : Occurrence α → Option Event
  | .retired _ error => some (.finished error)
  | .reported host error => some (.reported host error)
  | .sent _ | .called _ | .returned _ | .delivered _ | .answered _ _ _ | .closed _ => none

/-- The job that has been sent. -/
def sent? : Occurrence α → Option (Job α)
  | .sent job => some job
  | .called _ | .returned _ | .delivered _ | .retired _ _ | .reported _ _ | .answered _ _ _
  | .closed _ => none

/-- The result that has been delivered. -/
def delivered? : Occurrence α → Option (Message α)
  | .delivered message => some message
  | .sent _ | .called _ | .returned _ | .retired _ _ | .reported _ _ | .answered _ _ _
  | .closed _ => none

/-- The number of the launch that has been retired. -/
def retired? : Occurrence α → Option ℕ
  | .retired job _ => some job.ticket
  | .sent _ | .called _ | .returned _ | .delivered _ | .reported _ _ | .answered _ _ _
  | .closed _ => none

/-- The result that a host has been given. -/
def answered? : Occurrence α → Option (Message α)
  | .answered _ ticket result => some ⟨ticket, result⟩
  | .sent _ | .called _ | .returned _ | .delivered _ | .retired _ _ | .reported _ _
  | .closed _ => none

/-- The host that has been told that the stream is closed. -/
def closed? : Occurrence α → Option ℕ
  | .closed host => some host
  | .sent _ | .called _ | .returned _ | .delivered _ | .retired _ _ | .reported _ _
  | .answered _ _ _ => none

/-- Whether the worker does something with a job. -/
def isWork : Occurrence α → Bool
  | .called _ | .returned _ | .delivered _ | .retired _ _ => true
  | .sent _ | .reported _ _ | .answered _ _ _ | .closed _ => false

end Occurrence

/-- What the worker does with a job, from taking it to retiring the launch. -/
def Job.course (config : LaunchConfig) (job : Job α) : List (Occurrence α) :=
  [.called job, .returned job, .delivered (job.message config), .retired job (job.error? config)]

/-- What the worker has yet to do with the job that it has in hand. -/
def WorkerThread.ahead (config : LaunchConfig) : WorkerThread α → List (Occurrence α)
  | .listening | .ended => []
  | .calling job =>
    [.returned job, .delivered (job.message config), .retired job (job.error? config)]
  | .sending job result => [.delivered ⟨job.ticket, result⟩, .retired job (errorOf? result)]
  | .finishing job error => [.retired job error]

/-- What the worker of a shared stream is doing meanwhile. -/
def WorkerThread.shared : WorkerThread α → Worker α
  | .listening | .ended => .idle
  | .calling job | .sending job _ => .executing job
  | .finishing _ error => .retiring error

namespace Threads

variable {config : LaunchConfig} {history new : List (Occurrence α)} {s t : Threads α}
  {host ticket : ℕ} {place : Option ℕ} {activity : Host α}

/-- The events of a history. -/
def events (history : List (Occurrence α)) : List Event := history.filterMap Occurrence.event?

/-- The jobs that have been sent, in their order. -/
def submissions (history : List (Occurrence α)) : List (Job α) :=
  history.filterMap Occurrence.sent?

/-- The results that have been delivered, in their order. -/
def deliveries (history : List (Occurrence α)) : List (Message α) :=
  history.filterMap Occurrence.delivered?

/-- The numbers of the launches that have been retired, in their order. -/
def retirements (history : List (Occurrence α)) : List ℕ := history.filterMap Occurrence.retired?

/-- The results that hosts have been given. -/
def answers (history : List (Occurrence α)) : List (Message α) :=
  history.filterMap Occurrence.answered?

/-- The hosts that have been told that the stream is closed. -/
def refusals (history : List (Occurrence α)) : List ℕ := history.filterMap Occurrence.closed?

/-- What the worker has done with jobs. -/
def worked (history : List (Occurrence α)) : List (Occurrence α) :=
  history.filter Occurrence.isWork

/-- The results that have been put into one mailbox. -/
def putInto (history : List (Occurrence α)) (ticket : ℕ) : List (Except SelectError α) :=
  ((deliveries history).filter (·.ticket = ticket)).map (·.result)

/-- What the worker has yet to do with the jobs that have been sent. -/
def ahead (s : Threads α) : List (Occurrence α) :=
  s.worker.ahead s.config ++ s.jobs.flatMap (Job.course s.config)

theorem mem_putInto {result : Except SelectError α} :
    result ∈ putInto history ticket ↔ ⟨ticket, result⟩ ∈ deliveries history := by
  rw [putInto, List.mem_map]
  constructor
  · rintro ⟨message, hmessage, rfl⟩
    obtain ⟨hmem, hticket⟩ := List.mem_filter.1 hmessage
    obtain rfl := of_decide_eq_true hticket
    exact hmem
  · intro hmem
    exact ⟨⟨ticket, result⟩, List.mem_filter.2 ⟨hmem, decide_eq_true rfl⟩, rfl⟩

theorem putInto_append (history new : List (Occurrence α)) (ticket : ℕ) :
    putInto (history ++ new) ticket = putInto history ticket ++ putInto new ticket := by
  simp only [putInto, deliveries, List.filterMap_append, List.filter_append, List.map_append]

theorem putInto_delivered_self (ticket : ℕ) (result : Except SelectError α) :
    putInto [.delivered ⟨ticket, result⟩] ticket = [result] := by
  simp [putInto, deliveries, Occurrence.delivered?]

theorem putInto_delivered_of_ne {other : ℕ} (hne : other ≠ ticket)
    (result : Except SelectError α) : putInto [.delivered ⟨ticket, result⟩] other = [] := by
  simp [putInto, deliveries, Occurrence.delivered?, hne.symm]

/-! ## The shared stream -/

/-- The shared stream that the threads of a stream make up. -/
def shared (history : List (Occurrence α)) (s : Threads α) : SharedStream α where
  stream := ⟨s.config, s.inflight, s.error, s.jobs, s.worker.shared⟩
  hosts := s.hosts
  delivered := deliveries history
  sent := submissions history
  pending := s.pending
  nextTicket := s.nextTicket
  dropped := s.dropped

theorem shared_append (history new : List (Occurrence α)) (s : Threads α) :
    s.shared (history ++ new) = { s.shared history with
      delivered := deliveries history ++ deliveries new
      sent := submissions history ++ submissions new } := by
  simp only [shared, deliveries, submissions, List.filterMap_append]

/-- What neither sends nor delivers anything. -/
theorem shared_append_of_eq_nil (hdeliveries : deliveries new = [])
    (hsubmissions : submissions new = []) (s : Threads α) :
    s.shared (history ++ new) = s.shared history := by
  rw [shared_append, hdeliveries, hsubmissions, List.append_nil, List.append_nil]
  rfl

/-- Who has the handle of a launch: a host, or nobody in particular. -/
def HeldBy (s : Threads α) (place : Option ℕ) (ticket : ℕ) : Prop :=
  (s.shared []).HeldBy place ticket

theorem heldBy_shared : (s.shared history).HeldBy place ticket ↔ s.HeldBy place ticket := by
  cases place <;> exact Iff.rfl

theorem heldBy_setHost : (s.setHost host activity).HeldBy place ticket ↔
    place = some host ∧ activity.holds? = some ticket ∨
      place ≠ some host ∧ s.HeldBy place ticket :=
  SharedStream.heldBy_setHost (s := s.shared [])

end Threads

/-! ## Mailboxes -/

namespace Mailbox

variable {m m' : Mailbox α} {put : List (Except SelectError α)} {result : Except SelectError α}

/-- A mailbox into which some results have been put. -/
structure Sound (m : Mailbox α) (put : List (Except SelectError α)) : Prop where
  results : m.results = if m.hasReceiver then put else []
  sender : m.hasSender = false → put ≠ []

theorem sound_create : (create : Mailbox α).Sound [] := ⟨rfl, nofun⟩

theorem Sound.dropReceiver (hm : m.Sound put) : m.dropReceiver.Sound put := ⟨rfl, hm.sender⟩

theorem Sound.dropSender (hm : m.Sound put) (hput : put ≠ []) : m.dropSender.Sound put :=
  ⟨hm.results, fun _ => hput⟩

theorem hasReceiver_of_put? (h : m.put? result = some m') : m'.hasReceiver = m.hasReceiver := by
  rw [put?] at h
  split at h
  · split at h
    · obtain rfl := Option.some.inj h
      rfl
    · cases h
  · obtain rfl := Option.some.inj h
    rfl

theorem Sound.put? (hm : m.Sound put) (h : m.put? result = some m') :
    m'.Sound (put ++ [result]) := by
  have hne : put ++ [result] ≠ [] := List.append_ne_nil_of_right_ne_nil _ (List.cons_ne_nil _ _)
  rw [Mailbox.put?] at h
  split at h
  case isTrue hreceiver =>
    split at h
    case isTrue =>
      obtain rfl := Option.some.inj h
      refine ⟨?_, fun _ => hne⟩
      rw [hm.results, if_pos hreceiver, if_pos hreceiver]
    case isFalse => cases h
  case isFalse hreceiver =>
    obtain rfl := Option.some.inj h
    refine ⟨?_, fun _ => hne⟩
    rw [hm.results, if_neg hreceiver, if_neg hreceiver]

/-- There is room for the first result. -/
theorem Sound.exists_put? (hm : m.Sound []) (result : Except SelectError α) :
    ∃ m', m.put? result = some m' := by
  have hempty : m.results = [] := by rw [hm.results, ite_self]
  rw [Mailbox.put?, hempty]
  split
  · exact ⟨_, rfl⟩
  · exact ⟨_, rfl⟩

end Mailbox

namespace Threads

variable {config : LaunchConfig} {history new : List (Occurrence α)} {s t : Threads α}
  {host ticket : ℕ} {place : Option ℕ} {activity : Host α}

theorem mailboxes_setMailbox (s : Threads α) (ticket other : ℕ) (m : Mailbox α) :
    (s.setMailbox ticket m).mailboxes other = if other = ticket then m else s.mailboxes other :=
  rfl

/-- The mailboxes of the launches. -/
structure Mailboxes (history : List (Occurrence α)) (s : Threads α) : Prop where
  sound : ∀ ticket < s.nextTicket, (s.mailboxes ticket).Sound (putInto history ticket)
  held : ∀ place ticket, s.HeldBy place ticket → (s.mailboxes ticket).hasReceiver = true
  finishing : ∀ job error, s.worker = .finishing job error → putInto history job.ticket ≠ []

/-- What hosts have been given, and what they have not been told. -/
structure Answers (history : List (Occurrence α)) (s : Threads α) : Prop where
  given : ∀ message ∈ answers history, message ∈ deliveries history
  taken : ∀ message ∈ answers history, (s.mailboxes message.ticket).hasReceiver = false
  once : ((answers history).map (·.ticket)).Nodup
  refusals : refusals history = []

/-- What the worker has done, and what it has ahead of it. -/
structure Course (config : LaunchConfig) (history : List (Occurrence α)) (s : Threads α) :
    Prop where
  config_eq : s.config = config
  result : ∀ job result, s.worker = .sending job result → result = (job.kernel config).result
  course : worked history ++ s.ahead = (submissions history).flatMap (Job.course config)
  ended : s.worker = .ended → s.jobs = [] ∧ s.dropped = true

/-- The threads do what a shared stream may do. -/
structure Sound (config : LaunchConfig) (history : List (Occurrence α)) (s : Threads α) :
    Prop where
  shared : SharedStream.Reachable config (events history) (s.shared history)
  mailboxes : s.Mailboxes history
  answers : s.Answers history
  course : s.Course config history

theorem sound_start (config : LaunchConfig) : (start config : Threads α).Sound config [] := by
  refine ⟨.start, ⟨nofun, ?_, nofun⟩, ⟨nofun, nofun, List.nodup_nil, rfl⟩,
    ⟨rfl, nofun, rfl, nofun⟩⟩
  rintro (_ | h) ticket hheld
  · exact absurd hheld List.not_mem_nil
  · cases hheld

/-! ## What a step finds -/

/-- What has been delivered and what is owed are the results of the jobs that were sent. -/
theorem Sound.deliveries_append_owed (hs : s.Sound config history) :
    deliveries history ++ (s.shared history).stream.owed =
      (submissions history).map (·.message config) := hs.shared.ledger.delivered

theorem Sound.exists_of_mem (hs : s.Sound config history) {message : Message α}
    (hmem : message ∈ deliveries history ++ (s.shared history).stream.owed) :
    ∃ job ∈ submissions history, message = job.message config := by
  rw [hs.deliveries_append_owed] at hmem
  obtain ⟨job, hjob, hmessage⟩ := List.mem_map.1 hmem
  exact ⟨job, hjob, hmessage.symm⟩

theorem Sound.ticket_lt (hs : s.Sound config history) {message : Message α}
    (hmem : message ∈ deliveries history ++ (s.shared history).stream.owed) :
    message.ticket < s.nextTicket := by
  obtain ⟨job, hjob, rfl⟩ := hs.exists_of_mem hmem
  exact hs.shared.handles.sent_lt job hjob

theorem Sound.lt_of_putInto (hs : s.Sound config history) (hput : putInto history ticket ≠ []) :
    ticket < s.nextTicket := by
  obtain ⟨result, hresult⟩ := List.exists_mem_of_ne_nil _ hput
  exact hs.ticket_lt (List.mem_append_left _ (mem_putInto.1 hresult))

/-- The result that the worker is about to deliver is owed. -/
theorem Sound.owed_of_sending (hs : s.Sound config history) {job : Job α}
    {result : Except SelectError α} (hsending : s.worker = .sending job result) :
    ⟨job.ticket, result⟩ ∈ (s.shared history).stream.owed := by
  have hexecuting : (s.shared history).stream.worker = .executing job :=
    congrArg WorkerThread.shared hsending
  obtain rfl := hs.course.result job result hsending
  obtain rfl := hs.course.config_eq
  rw [Stream.owed, hexecuting]
  exact List.mem_append_left _ (List.mem_singleton_self _)

/-- Nothing has been put into the mailbox of the next launch. -/
theorem Sound.putInto_nextTicket (hs : s.Sound config history) :
    putInto history s.nextTicket = [] := by
  by_contra hput
  exact Nat.lt_irrefl _ (hs.lt_of_putInto hput)

theorem Sound.lt_of_heldBy (hs : s.Sound config history) (hheld : s.HeldBy place ticket) :
    ticket < s.nextTicket :=
  hs.shared.handles.lt place ticket (heldBy_shared.2 hheld)

theorem Sound.heldBy_unique (hs : s.Sound config history) {place' : Option ℕ}
    (hheld : s.HeldBy place ticket) (hheld' : s.HeldBy place' ticket) : place = place' :=
  hs.shared.handles.unique place place' ticket (heldBy_shared.2 hheld) (heldBy_shared.2 hheld')

/-- A handle whose mailbox is read holds what has been put in. -/
theorem Sound.results_of_heldBy (hs : s.Sound config history) (hheld : s.HeldBy place ticket) :
    (s.mailboxes ticket).results = putInto history ticket := by
  rw [(hs.mailboxes.sound ticket (hs.lt_of_heldBy hheld)).results,
    if_pos (hs.mailboxes.held place ticket hheld)]

/-- The worker has not ended while a host launches. -/
theorem Sound.ne_ended (hs : s.Sound config history) {job : Job α}
    (hlaunching : s.hosts host = .launching job) : s.worker ≠ .ended := by
  intro hended
  have hopen := hs.shared.closing.of_uses (h := host) hlaunching trivial
  exact absurd ((hs.course.ended hended).2.symm.trans hopen) nofun

/-- A host that waits finds something in the mailbox, or the job is there. -/
theorem Sound.not_disconnected (hs : s.Sound config history)
    (hwaiting : s.hosts host = .waiting ticket) (hresults : (s.mailboxes ticket).results = []) :
    (s.mailboxes ticket).hasSender ≠ false := by
  have hheld : s.HeldBy (some host) ticket := congrArg Host.holds? hwaiting
  intro hsender
  apply (hs.mailboxes.sound ticket (hs.lt_of_heldBy hheld)).sender hsender
  rw [← hs.results_of_heldBy hheld]
  exact hresults

/-! ## Steps as steps of the shared stream -/

theorem shared_append_sent (s : Threads α) (job : Job α) :
    s.shared (history ++ [.sent job]) =
      { s.shared history with sent := submissions history ++ [job] } := by
  rw [shared_append]
  simp only [deliveries, submissions, List.filterMap_cons, Occurrence.sent?,
    Occurrence.delivered?, List.filterMap_nil, List.append_nil]
  rfl

theorem shared_append_delivered (s : Threads α) (message : Message α) :
    s.shared (history ++ [.delivered message]) =
      { s.shared history with delivered := deliveries history ++ [message] } := by
  rw [shared_append]
  simp only [deliveries, submissions, List.filterMap_cons, Occurrence.sent?,
    Occurrence.delivered?, List.filterMap_nil, List.append_nil]
  rfl

theorem HostStep.shared (hs : s.Sound config history) (h : HostStep host s new t) :
    (s.shared history).Step (events new) (t.shared (history ++ new)) := by
  cases h with
  | count kernel hready hopen =>
    rw [shared_append_of_eq_nil rfl rfl]
    exact .count kernel hready hopen
  | send hlaunching _ =>
    rw [shared_append_sent]
    exact .send hlaunching
  | refuse hlaunching hended _ => exact absurd hended (hs.ne_ended hlaunching)
  | await hready hpending =>
    rw [shared_append_of_eq_nil rfl rfl]
    exact .await hready hpending
  | forget hready hpending =>
    rw [shared_append_of_eq_nil rfl rfl]
    exact .forget (h := host) hready hpending
  | @receive ticket result results hwaiting hresults =>
    rw [shared_append_of_eq_nil rfl rfl]
    have hheld : s.HeldBy (some host) ticket := congrArg Host.holds? hwaiting
    have hput : result ∈ putInto history ticket := by
      rw [← hs.results_of_heldBy hheld, hresults]
      exact List.mem_cons_self
    exact .receive (m := ⟨ticket, result⟩) hwaiting (mem_putInto.1 hput)
  | disconnect hwaiting hresults hsender =>
    exact absurd hsender (hs.not_disconnected hwaiting hresults)
  | synchronize hready hopen =>
    rw [shared_append_of_eq_nil rfl rfl]
    exact .synchronize hready hopen
  | sleep hchecking hinflight =>
    rw [shared_append_of_eq_nil rfl rfl]
    exact .sleep hchecking hinflight
  | wake hasleep =>
    rw [shared_append_of_eq_nil rfl rfl]
    exact .wake hasleep
  | report hchecking hzero =>
    rw [shared_append_of_eq_nil rfl rfl]
    exact .report hchecking (if_pos hzero)
  | drop hready hopen hunused =>
    rw [shared_append_of_eq_nil rfl rfl]
    exact .drop hready hopen hunused
  | join hdropping hended =>
    rw [shared_append_of_eq_nil rfl rfl]
    refine .gone hdropping (Stream.isQuiet_iff.2 ?_)
    have hworker : (s.shared history).stream.worker = .idle := congrArg WorkerThread.shared hended
    have hjobs : (s.shared history).stream.queue = [] := (hs.course.ended hended).1
    rw [Stream.unretired, hworker, hjobs]
    rfl

/-- The worker takes steps that cannot be told in the shared stream. -/
theorem WorkerStep.shared (hs : s.Sound config history) (h : WorkerStep s new t) :
    (s.shared history).Step (events new) (t.shared (history ++ new)) ∨
      events new = [] ∧ t.shared (history ++ new) = s.shared history := by
  cases h with
  | @take job jobs hlistening hjobs =>
    left
    rw [shared_append_of_eq_nil rfl rfl]
    exact .take (congrArg WorkerThread.shared hlistening) hjobs
  | @complete job hcalling =>
    refine .inr ⟨rfl, ?_⟩
    rw [shared_append_of_eq_nil rfl rfl]
    simp only [Threads.shared, hcalling, WorkerThread.shared]
  | @deliver job result m hsending _ =>
    left
    obtain rfl := hs.course.result job result hsending
    obtain rfl := hs.course.config_eq
    rw [shared_append_delivered]
    exact .execute (congrArg WorkerThread.shared hsending)
  | @retire job error hfinishing hinflight =>
    left
    rw [shared_append_of_eq_nil rfl rfl]
    have hretiring : (s.shared history).stream.worker = .retiring error :=
      congrArg WorkerThread.shared hfinishing
    by_cases hlast : s.inflight - 1 = 0
    · have hwoken : (({ s with worker := .listening }.finish error).setMailbox job.ticket
          (s.mailboxes job.ticket).dropSender).shared history =
          SharedStream.wakeAll { s.shared history with
            stream := (s.shared history).stream.retire error } := by
        simp only [Threads.shared, finish, setMailbox, if_pos hlast]
        rfl
      rw [hwoken]
      exact .retireLast hretiring hlast
    · have hasleep : (({ s with worker := .listening }.finish error).setMailbox job.ticket
          (s.mailboxes job.ticket).dropSender).shared history =
          { s.shared history with stream := (s.shared history).stream.retire error } := by
        simp only [Threads.shared, finish, setMailbox, if_neg hlast]
        rfl
      rw [hasleep]
      exact .retire hretiring hlast
  | leave hlistening _ _ =>
    refine .inr ⟨(rfl : events (α := α) [] = []), ?_⟩
    rw [shared_append_of_eq_nil rfl rfl]
    simp only [Threads.shared, hlistening, WorkerThread.shared]

end Threads

end NeighborSearch
