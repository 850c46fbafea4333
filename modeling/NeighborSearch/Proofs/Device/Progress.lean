import NeighborSearch.Proofs.Device.Delivery

/-!
# Delivery once, and no host that is stuck

What hosts can rely on when they use a stream at the same time. Every job is run once, in
its turn, and the result of its kernel is the one that its mailbox is given; nobody is told
that the stream is closed (`DeliveredOnce`). And no host waits in vain (`NeverStuck`): as long
as what it waits for has not come about (`Met`), the worker can take a step by itself
(`Sound.exists_workerStep`), which leaves less for it to do (`WorkerStep.workLeft_lt`).

A host that synchronizes waits until nothing is in flight. So it may sleep on for a launch that
another host has counted and is about to send: then there is nothing that the worker could do
(`asleep_before_send`), but that host can send the job.
-/

namespace NeighborSearch

/-- Whether a host synchronizes, be it awake or asleep. -/
def Host.Synchronizes {α : Type} : Host α → Prop
  | .checking | .asleep => True
  | .ready | .launching _ | .waiting _ | .dropping => False

/-- Waking hosts makes none of them launch. -/
theorem Host.wake_eq_launching_iff {α : Type} {activity : Host α} {job : Job α} :
    activity.wake = .launching job ↔ activity = .launching job := by
  cases activity with
  | asleep => exact ⟨nofun, nofun⟩
  | ready | launching _ | waiting _ | checking | dropping => exact Iff.rfl

namespace Threads

variable {α : Type} {config : LaunchConfig} {history later new : List (Occurrence α)}
  {s t u : Threads α} {host ticket : ℕ} {job : Job α} {message : Message α}

/-! ## What the worker has ahead of it -/

theorem retirements_flatMap (config : LaunchConfig) (jobs : List (Job α)) :
    retirements (jobs.flatMap (Job.course config)) = jobs.map (·.ticket) := by
  rw [List.map_eq_flatMap, retirements, List.filterMap_flatMap]
  rfl

theorem retirements_ahead (s : Threads α) :
    retirements s.ahead = retirements (s.worker.ahead s.config) ++ s.jobs.map (·.ticket) := by
  rw [← retirements_flatMap s.config, ahead]
  exact List.filterMap_append

theorem length_retirements_ahead (history : List (Occurrence α)) (s : Threads α) :
    (retirements s.ahead).length = (s.shared history).stream.unretired := by
  rw [retirements_ahead, List.length_append, List.length_map, Nat.add_comm]
  cases hworker : s.worker <;> simp only [shared, hworker] <;> rfl

/-- A launch whose result is owed is yet to be retired. -/
theorem mem_retirements_ahead (howed : message ∈ (s.shared history).stream.owed) :
    message.ticket ∈ retirements s.ahead := by
  rw [retirements_ahead, List.mem_append]
  rcases List.mem_append.1 howed with hworker | hjobs
  · left
    have hworker : message ∈ s.worker.shared.owed s.config := hworker
    cases hs : s.worker with
    | calling job | sending job _ =>
      rw [hs] at hworker
      obtain rfl := List.mem_singleton.1 hworker
      exact List.mem_singleton_self _
    | listening | finishing _ _ | ended =>
      rw [hs] at hworker
      exact absurd hworker List.not_mem_nil
  · right
    obtain ⟨job, hjob, rfl⟩ := List.mem_map.1 hjobs
    exact List.mem_map.2 ⟨job, hjob, rfl⟩

/-- The launches retired and those that are yet to be are those whose jobs were sent. -/
theorem Sound.retirements_append (hs : s.Sound config history) :
    retirements history ++ retirements s.ahead = (submissions history).map (·.ticket) := by
  have hworked : retirements (worked history) = retirements history := by
    rw [retirements, worked, List.filterMap_filter]
    refine List.filterMap_congr fun occurrence _ => ?_
    cases occurrence <;> rfl
  rw [← hworked, ← retirements_flatMap config, ← hs.course.course]
  exact List.filterMap_append.symm

/-! ## Results -/

/-- Of some launches with different numbers, one has a given number. -/
theorem filter_messages {jobs : List (Job α)} (hjobs : (jobs.map (·.ticket)).Nodup)
    (hjob : job ∈ jobs) :
    (jobs.map (·.message config)).filter (·.ticket = job.ticket) = [job.message config] := by
  induction jobs with
  | nil => exact absurd hjob List.not_mem_nil
  | cons first jobs ih =>
    obtain ⟨hfirst, hrest⟩ := List.nodup_cons.1 hjobs
    rw [List.map_cons, List.filter_cons]
    rcases List.mem_cons.1 hjob with rfl | hmem
    · have hnone : (jobs.map (·.message config)).filter (·.ticket = job.ticket) = [] := by
        refine List.filter_eq_nil_iff.2 fun message hmessage => ?_
        obtain ⟨other, hother, rfl⟩ := List.mem_map.1 hmessage
        intro hticket
        exact hfirst (List.mem_map.2 ⟨other, hother, of_decide_eq_true hticket⟩)
      rw [hnone]
      exact if_pos (decide_eq_true rfl)
    · have hne : ¬decide ((first.message config).ticket = job.ticket) = true := by
        intro hticket
        exact hfirst (List.mem_map.2 ⟨job, hmem, (of_decide_eq_true hticket).symm⟩)
      rw [if_neg hne]
      exact ih hrest hmem

theorem Sound.sent_nodup (hs : s.Sound config history) :
    ((submissions history).map (·.ticket)).Nodup := hs.shared.handles.sent

/-- What has been put into the mailbox of a launch and what is owed to it make up one result,
    that of its own kernel. -/
theorem Sound.putInto_append_owed (hs : s.Sound config history)
    (hjob : job ∈ submissions history) :
    putInto history job.ticket ++
      ((s.shared history).stream.owed.filter (·.ticket = job.ticket)).map (·.result) =
      [(job.kernel config).result] := by
  rw [putInto, ← List.map_append, ← List.filter_append, hs.deliveries_append_owed,
    filter_messages hs.sent_nodup hjob]
  rfl

/-- The result of a launch is owed until something has been put into its mailbox. -/
theorem Sound.mem_owed (hs : s.Sound config history) (hjob : job ∈ submissions history)
    (hput : putInto history job.ticket = []) :
    job.message config ∈ (s.shared history).stream.owed := by
  have hmem : job.message config ∈ deliveries history ++ (s.shared history).stream.owed := by
    rw [hs.deliveries_append_owed]
    exact List.mem_map.2 ⟨job, hjob, rfl⟩
  rcases List.mem_append.1 hmem with hdelivered | howed
  · have hresult : (job.message config).result ∈ putInto history job.ticket :=
      mem_putInto.2 hdelivered
    exact absurd (hput ▸ hresult) List.not_mem_nil
  · exact howed

/-- Nothing has been put into the mailbox of a launch whose result is owed. -/
theorem Sound.putInto_of_owed (hs : s.Sound config history)
    (howed : message ∈ (s.shared history).stream.owed) : putInto history message.ticket = [] := by
  obtain ⟨job, hjob, rfl⟩ := hs.exists_of_mem (List.mem_append_right _ howed)
  rcases List.append_eq_singleton_iff.1 (hs.putInto_append_owed hjob) with ⟨hput, -⟩ | ⟨-, hnone⟩
  · exact hput
  · rw [List.map_eq_nil_iff, List.filter_eq_nil_iff] at hnone
    exact absurd (decide_eq_true rfl) (hnone _ howed)

/-- The mailbox of a launch is given one result, before the launch is retired. -/
theorem Sound.putInto_cases (hs : s.Sound config history) (hjob : job ∈ submissions history) :
    putInto history job.ticket = [] ∧ job.ticket ∉ retirements history ∨
      putInto history job.ticket = [(job.kernel config).result] := by
  rcases List.append_eq_singleton_iff.1 (hs.putInto_append_owed hjob) with ⟨hput, -⟩ | ⟨hput, -⟩
  · -- Its result is owed, so it is yet to be retired, and no launch is retired twice.
    refine .inl ⟨hput, fun hretired => ?_⟩
    have hahead : job.ticket ∈ retirements s.ahead :=
      mem_retirements_ahead (hs.mem_owed hjob hput)
    have hdisjoint := List.nodup_append.1 (hs.retirements_append ▸ hs.sent_nodup)
    exact hdisjoint.2.2 job.ticket hretired job.ticket hahead rfl
  · exact .inr hput

/-! ## Steps of the worker -/

/-- The number of steps that the worker has ahead of it, if the stream is dropped. -/
def workLeft (s : Threads α) : ℕ :=
  4 * s.jobs.length +
    match s.worker with
    | .ended => 0
    | .listening => 1
    | .finishing _ _ => 2
    | .sending _ _ => 3
    | .calling _ => 4

theorem WorkerStep.workLeft_lt (h : WorkerStep s new t) : t.workLeft < s.workLeft := by
  cases h with
  | take hlistening hjobs =>
    simp only [workLeft, hlistening, hjobs, List.length_cons]
    omega
  | complete hcalling => simp only [workLeft, hcalling, Nat.add_lt_add_iff_left, Nat.reduceLT]
  | deliver hsending _ =>
    simp only [workLeft, setMailbox, hsending, Nat.add_lt_add_iff_left, Nat.reduceLT]
  | retire hfinishing _ =>
    simp only [workLeft, setMailbox, finish, hfinishing, Nat.add_lt_add_iff_left, Nat.reduceLT]
  | leave hlistening _ _ =>
    simp only [workLeft, hlistening, Nat.add_lt_add_iff_left, Nat.reduceLT]

/-- The worker never waits for room in a mailbox. -/
theorem Sound.exists_deliver (hs : s.Sound config history) {result : Except SelectError α}
    (hsending : s.worker = .sending job result) :
    ∃ t, WorkerStep s [.delivered ⟨job.ticket, result⟩] t := by
  have hlt := hs.ticket_lt (List.mem_append_right _ (hs.owed_of_sending hsending))
  have hsound := hs.mailboxes.sound job.ticket hlt
  rw [hs.putInto_of_owed (hs.owed_of_sending hsending)] at hsound
  obtain ⟨m, hput⟩ := hsound.exists_put? result
  exact ⟨_, .deliver hsending hput⟩

/-- The worker never retires more launches than are in flight. -/
theorem Sound.exists_retire (hs : s.Sound config history) {error : Option SelectError}
    (hfinishing : s.worker = .finishing job error) :
    ∃ t, WorkerStep s [.retired job error] t := by
  obtain ⟨hosts, -, hinflight⟩ := hs.shared.inFlight.places
  have hinflight : s.inflight = hosts.card + (s.jobs.length + s.worker.shared.inHand) := hinflight
  rw [hfinishing] at hinflight
  refine ⟨_, .retire hfinishing ?_⟩
  simp only [WorkerThread.shared, Worker.inHand] at hinflight
  omega

/-- As long as jobs are left, or the stream has been dropped, the worker can go on. -/
theorem Sound.exists_workerStep (hs : s.Sound config history)
    (h : s.ahead ≠ [] ∨ s.dropped = true ∧ s.worker ≠ .ended) :
    ∃ new t, WorkerStep s new t := by
  cases hworker : s.worker with
  | listening =>
    cases hjobs : s.jobs with
    | nil =>
      rcases h with hahead | ⟨hdropped, -⟩
      · refine absurd ?_ hahead
        rw [ahead, hworker, hjobs]
        rfl
      · exact ⟨_, _, .leave hworker hjobs hdropped⟩
    | cons job jobs => exact ⟨_, _, .take hworker hjobs⟩
  | calling job => exact ⟨_, _, .complete hworker⟩
  | sending job result => exact ⟨_, hs.exists_deliver hworker⟩
  | finishing job error => exact ⟨_, hs.exists_retire hworker⟩
  | ended =>
    rcases h with hahead | ⟨-, hlive⟩
    · refine absurd ?_ hahead
      rw [ahead, hworker, (hs.course.ended hworker).1]
      rfl
    · exact absurd hworker hlive

/-! ## Hosts -/

/-- Whether what a host waits for has come about. One that synchronizes waits until nothing is in
    flight. -/
def Met (s : Threads α) (host : ℕ) : Prop :=
  match s.hosts host with
  | .waiting ticket => (s.mailboxes ticket).results ≠ []
  | .checking | .asleep => s.inflight = 0
  | .dropping => s.worker = .ended
  | .ready | .launching _ => True

/-- How a host goes on when what it waits for has come about. By then it is awake. -/
def GoesOn (s : Threads α) (host : ℕ) : Prop :=
  match s.hosts host with
  | .ready => True
  | .launching job => ∃ t, HostStep host s [.sent job] t
  | .waiting ticket => ∃ result t, HostStep host s [.answered host ticket result] t
  | .checking => ∃ t, HostStep host s [.reported host s.error] t
  | .asleep => False
  | .dropping => ∃ t, HostStep host s [] t

/-- A host has counted a launch and not yet sent its job, which it can do. -/
def Sends (s : Threads α) : Prop :=
  ∃ other job t, s.hosts other = .launching job ∧ HostStep other s [.sent job] t

/-- Every launch that has been counted has been sent. -/
def AllSent (s : Threads α) : Prop := ∀ host job, s.hosts host ≠ .launching job

/-- The job of a launch has been sent when the host that launched has let go of the handle. -/
theorem Sound.exists_of_heldBy (hs : s.Sound config history) {place : Option ℕ}
    (hheld : s.HeldBy place ticket) : (∃ job ∈ submissions history, job.ticket = ticket) ∨
      ∃ host job, place = some host ∧ s.hosts host = .launching job := by
  obtain ⟨job, hcounted, rfl⟩ := hs.shared.inFlight.tickets ticket (hs.lt_of_heldBy hheld)
  rcases hcounted with hsent | ⟨host, hhost⟩
  · exact .inl ⟨job, hsent, rfl⟩
  · have hlaunching : s.hosts host = .launching job := Host.launching?_eq_some_iff.1 hhost
    have hholds : s.HeldBy (some host) job.ticket := congrArg Host.holds? hlaunching
    exact .inr ⟨host, job, hs.heldBy_unique hheld hholds, hlaunching⟩

theorem Sound.exists_of_pending (hs : s.Sound config history)
    (h : ticket ∈ s.pending ∨ ∃ host, s.hosts host = .waiting ticket) :
    ∃ job ∈ submissions history, job.ticket = ticket ∧
      (s.mailboxes ticket).results = putInto history ticket := by
  rcases h with hpending | ⟨host, hwaiting⟩
  · have hheld : s.HeldBy none ticket := hpending
    rcases hs.exists_of_heldBy hheld with ⟨job, hjob, hticket⟩ | ⟨host, job, hplace, -⟩
    · exact ⟨job, hjob, hticket, hs.results_of_heldBy hheld⟩
    · cases hplace
  · have hheld : s.HeldBy (some host) ticket := congrArg Host.holds? hwaiting
    rcases hs.exists_of_heldBy hheld with ⟨job, hjob, hticket⟩ | ⟨other, job, hplace, hother⟩
    · exact ⟨job, hjob, hticket, hs.results_of_heldBy hheld⟩
    · cases hplace
      exact absurd (hwaiting.symm.trans hother) nofun

/-- As long as a launch whose job has been sent has not been retired, the worker can go on. -/
theorem Sound.exists_workerStep_of_unretired (hs : s.Sound config history)
    (h : retirements history ≠ (submissions history).map (·.ticket)) :
    ∃ new t, WorkerStep s new t := by
  refine hs.exists_workerStep (.inl fun hnone => h ?_)
  rw [← hs.retirements_append, hnone]
  exact (List.append_nil _).symm

/-- As long as something is in flight, the worker can go on, or a host that has counted a launch
    and not yet sent its job. -/
theorem Sound.exists_step_of_inflight (hs : s.Sound config history) (hinflight : s.inflight ≠ 0) :
    (∃ new t, WorkerStep s new t) ∨ s.Sends := by
  by_cases hahead : s.ahead = []
  · -- The worker has nothing to do, so what is in flight has been counted by hosts that are about
    -- to send.
    right
    have hunretired := length_retirements_ahead history s
    rw [hahead] at hunretired
    obtain ⟨hosts, hmem, hplaces⟩ := hs.shared.inFlight.places
    have hplaces : s.inflight = hosts.card + (s.shared history).stream.unretired := hplaces
    have hcard : 0 < hosts.card := by
      rw [← hunretired] at hplaces
      exact Nat.pos_of_ne_zero fun hzero => hinflight (hplaces.trans (by rw [hzero]; rfl))
    obtain ⟨other, hother⟩ := Finset.card_pos.1 hcard
    obtain ⟨job, hjob⟩ := (hmem other).1 hother
    have hlaunching : s.hosts other = .launching job := Host.launching?_eq_some_iff.1 hjob
    exact ⟨other, job, _, hlaunching, .send hlaunching (hs.ne_ended hlaunching)⟩
  · exact .inl (hs.exists_workerStep (.inl hahead))

/-- As long as what a host waits for has not come about, the worker can go on; only one that
    synchronizes may have to wait for another host to send a job. -/
theorem Sound.exists_step_of_not_met (hs : s.Sound config history) (h : ¬s.Met host) :
    (∃ new t, WorkerStep s new t) ∨ (s.hosts host).Synchronizes ∧ s.Sends := by
  cases hhost : s.hosts host with
  | waiting ticket =>
    simp only [Met, hhost, ne_eq, not_not] at h
    obtain ⟨job, hjob, rfl, hresults⟩ := hs.exists_of_pending (.inr ⟨host, hhost⟩)
    have hahead := mem_retirements_ahead (hs.mem_owed hjob (hresults ▸ h))
    refine .inl (hs.exists_workerStep (.inl fun hnone => ?_))
    rw [hnone] at hahead
    exact absurd hahead List.not_mem_nil
  | checking | asleep =>
    simp only [Met, hhost] at h
    exact (hs.exists_step_of_inflight h).imp_right fun hsends => ⟨trivial, hsends⟩
  | dropping =>
    simp only [Met, hhost] at h
    exact .inl (hs.exists_workerStep (.inr ⟨hs.shared.closing.dropping host hhost, h⟩))
  | ready | launching job =>
    simp only [Met, hhost, not_true_eq_false] at h

/-- When it has come about, the host can go on. -/
theorem Sound.goesOn_of_met (hs : s.Sound config history) (h : s.Met host) : s.GoesOn host := by
  cases hhost : s.hosts host with
  | ready => simp only [GoesOn, hhost]
  | launching job =>
    simp only [GoesOn, hhost]
    exact ⟨_, .send hhost (hs.ne_ended hhost)⟩
  | waiting ticket =>
    simp only [GoesOn, Met, hhost] at h ⊢
    cases hresults : (s.mailboxes ticket).results with
    | nil => exact absurd hresults h
    | cons result results => exact ⟨result, _, .receive hhost hresults⟩
  | checking =>
    simp only [GoesOn, Met, hhost] at h ⊢
    exact ⟨_, .report hhost h⟩
  | asleep =>
    -- Whoever was asleep when the last launch was retired has been woken.
    simp only [Met, hhost] at h
    exact absurd h (hs.shared.sleepers host hhost)
  | dropping =>
    simp only [GoesOn, Met, hhost] at h ⊢
    exact ⟨_, .join hhost h⟩

/-- All that the worker does to hosts is to wake them. -/
theorem WorkerStep.hosts_eq (h : WorkerStep s new t) (host : ℕ) :
    t.hosts host = s.hosts host ∨ t.hosts host = (s.hosts host).wake := by
  cases h with
  | take | complete | deliver | leave => exact .inl rfl
  | retire =>
    simp only [setMailbox, finish]
    split
    · exact .inr rfl
    · exact .inl rfl

theorem WorkerStep.synchronizes_iff (h : WorkerStep s new t) (host : ℕ) :
    (t.hosts host).Synchronizes ↔ (s.hosts host).Synchronizes := by
  rcases h.hosts_eq host with heq | heq <;> rw [heq]
  cases s.hosts host <;> rfl

theorem WorkerStep.allSent (h : WorkerStep s new t) (hsent : s.AllSent) : t.AllSent := by
  intro host job hlaunching
  refine hsent host job ?_
  rcases h.hosts_eq host with heq | heq <;> rw [heq] at hlaunching
  · exact hlaunching
  · exact Host.wake_eq_launching_iff.1 hlaunching

/-- Any number of steps of the worker, with their occurrences in order. -/
inductive WorkerRun : Threads α → List (Occurrence α) → Threads α → Prop
  | refl (s : Threads α) : WorkerRun s [] s
  | head {s t u : Threads α} {new later : List (Occurrence α)} :
    WorkerStep s new t → WorkerRun t later u → WorkerRun s (new ++ later) u

/-- The worker alone brings about what a host waits for, if all jobs have been sent or the host
    does not synchronize. -/
theorem Sound.exists_workerRun (hs : s.Sound config history) (host : ℕ)
    (hsent : (s.hosts host).Synchronizes → s.AllSent) :
    ∃ later t, WorkerRun s later t ∧ t.Met host := by
  -- Every step of the worker leaves it less to do, so it comes to an end with the condition met.
  induction hleft : s.workLeft using Nat.strongRecOn generalizing s history with
  | ind n ih =>
    by_cases hmet : s.Met host
    · exact ⟨[], s, .refl s, hmet⟩
    · rcases hs.exists_step_of_not_met hmet with ⟨new, t, hstep⟩ | ⟨hsync, other, job, -, hother, -⟩
      · obtain ⟨later, u, hrun, hmet'⟩ := ih t.workLeft (hleft ▸ hstep.workLeft_lt)
          (hs.step (.worker hstep))
          (fun hsync => hstep.allSent (hsent ((hstep.synchronizes_iff host).1 hsync))) rfl
        exact ⟨new ++ later, u, .head hstep hrun, hmet'⟩
      · exact absurd hother (hsent hsync other job)

/-! ## All that may come about -/

/-- Every job is run once and in its turn, and every result is delivered once. -/
structure DeliveredOnce (config : LaunchConfig) (history : List (Occurrence α)) (s : Threads α) :
    Prop where
  /-- The worker goes through the jobs one at a time, in the order in which they were sent: it
      calls the kernel, which comes to its end, delivers the result, and retires the launch. -/
  in_order : worked history <+: (submissions history).flatMap (Job.course config)
  /-- It does not end before it has retired all launches. -/
  drained : s.worker = .ended → retirements history = (submissions history).map (·.ticket)
  /-- No two launches have the same number. -/
  tickets : ((submissions history).map (·.ticket)).Nodup
  /-- The mailbox of each launch is given one result, that of its own kernel, before the launch
      is retired. -/
  once : ∀ job ∈ submissions history,
    putInto history job.ticket = [] ∧ job.ticket ∉ retirements history ∨
      putInto history job.ticket = [(job.kernel config).result]
  /-- Whoever has the handle of a launch finds there what has been put in. -/
  kept : ∀ ticket, (ticket ∈ s.pending ∨ ∃ host, s.hosts host = .waiting ticket) →
    ∃ job ∈ submissions history, job.ticket = ticket ∧
      (s.mailboxes ticket).results = putInto history ticket
  /-- A host that waited has been given the result of the kernel. -/
  own : ∀ message ∈ answers history, ∃ job ∈ submissions history, message = job.message config
  /-- It has been given it once. -/
  answered : ((answers history).map (·.ticket)).Nodup
  /-- No host that launched or waited has been told that the stream is closed. -/
  not_closed : refusals history = []

/-- What is waited for comes about, and whoever waits for it goes on then. -/
structure NeverStuck (history : List (Occurrence α)) (s : Threads α) : Prop where
  /-- The worker does not wait for room in a mailbox. -/
  deliver : ∀ job result, s.worker = .sending job result →
    ∃ t, WorkerStep s [.delivered ⟨job.ticket, result⟩] t
  /-- Hosts only sleep while something is in flight. -/
  asleep : ∀ host, s.hosts host = .asleep → 0 < s.inflight
  /-- As long as a launch whose job has been sent has not been retired, the worker can take a
      step. -/
  retire : retirements history ≠ (submissions history).map (·.ticket) →
    ∃ new t, WorkerStep s new t
  /-- As long as what a host waits for has not come about, the worker can take a step; or the host
      synchronizes, and another host can send the job of a launch that it has counted. -/
  step : ∀ host, ¬s.Met host →
    (∃ new t, WorkerStep s new t) ∨ (s.hosts host).Synchronizes ∧ s.Sends
  /-- It comes about by steps of the worker alone, if all jobs have been sent or the host does not
      synchronize. -/
  run : ∀ host, ((s.hosts host).Synchronizes → s.AllSent) →
    ∃ later t, WorkerRun s later t ∧ t.Met host
  /-- When it has come about, the host can go on. -/
  goes_on : ∀ host, s.Met host → s.GoesOn host

/-- In every run of the threads of a stream, every result is delivered once, and nobody is
    stuck. -/
theorem delivered_once_and_never_stuck (h : Reachable config history s) :
    s.DeliveredOnce config history ∧ s.NeverStuck history := by
  have hs := h.sound
  constructor
  · exact {
      in_order := ⟨s.ahead, hs.course.course⟩
      drained := by
        intro hended
        have hahead : s.ahead = [] := by
          rw [ahead, hended, (hs.course.ended hended).1]
          rfl
        rw [← hs.retirements_append, hahead]
        exact (List.append_nil _).symm
      tickets := hs.sent_nodup
      once := fun job hjob => hs.putInto_cases hjob
      kept := fun ticket hticket => hs.exists_of_pending hticket
      own := fun message hmem =>
        hs.exists_of_mem (List.mem_append_left _ (hs.answers.given message hmem))
      answered := hs.answers.once
      not_closed := hs.answers.refusals }
  · exact {
      deliver := fun job result hsending => hs.exists_deliver hsending
      asleep := fun host hasleep => Nat.pos_of_ne_zero (hs.shared.sleepers host hasleep)
      retire := hs.exists_workerStep_of_unretired
      step := fun host hnot => hs.exists_step_of_not_met hnot
      run := fun host hsent => hs.exists_workerRun host hsent
      goes_on := fun host hmet => hs.goesOn_of_met hmet }

/-- A launch whose kernel breaks off. -/
def faulty : Job Unit := ⟨0, SharedStream.breaksOff "lane fault"⟩

/-- A launch that succeeds. -/
def sane : Job Unit := ⟨1, fun _ => .returned (.ok ())⟩

/-- Both launches are run after they have been sent, and a host is given the result of one. -/
def drained : List (Occurrence Unit) :=
  [.sent faulty, .sent sane] ++ faulty.course .standard ++ sane.course .standard ++
    [.answered 1 0 (.error (.launchFailed "lane fault"))]

/-- A host launches twice, drops one of the handles, and drops the stream before the worker has
    taken a job; another one waits for the result of the first launch, and takes it when the
    stream is gone. -/
theorem reachable_drained :
    ∃ s : Threads Unit, Reachable .standard drained s ∧ s.worker = .ended := by
  have hstart : Reachable .standard [] (start .standard : Threads Unit) := .start
  have hfaulty := (hstart.step (.host 0 (.count faulty.kernel rfl rfl))).step
    (.host 0 (.send rfl nofun))
  have hsane := (hfaulty.step (.host 0 (.count sane.kernel rfl rfl))).step
    (.host 0 (.send rfl nofun))
  have hforgotten := hsane.step (.host 0 (.forget rfl (List.mem_cons_self : 1 ∈ [1, 0])))
  have hdropped := hforgotten.step (.host 0 (.drop rfl rfl fun other => by
    simp only [setHost, setMailbox]
    split <;> exact id))
  have hwaiting := hdropped.step (.host 1 (.await rfl (List.mem_cons_self : 0 ∈ [0])))
  have hfirst := (((hwaiting.step (.worker (.take rfl rfl))).step
    (.worker (.complete rfl))).step (.worker (.deliver rfl rfl))).step
    (.worker (.retire rfl (by decide)))
  have hsecond := (((hfirst.step (.worker (.take rfl rfl))).step
    (.worker (.complete rfl))).step (.worker (.deliver rfl rfl))).step
    (.worker (.retire rfl (by decide)))
  have hended := (hsecond.step (.worker (.leave rfl rfl rfl))).step (.host 0 (.join rfl rfl))
  exact ⟨_, hended.step (.host 1 (.receive rfl rfl)), rfl⟩

theorem delivered_drained : ∃ s : Threads Unit, Reachable .standard drained s ∧
    retirements drained = [0, 1] ∧
    putInto drained 0 = [.error (.launchFailed "lane fault")] ∧ putInto drained 1 = [.ok ()] ∧
    refusals drained = [] := by
  obtain ⟨s, hs, hended⟩ := reachable_drained
  obtain ⟨hdelivered, -⟩ := delivered_once_and_never_stuck hs
  refine ⟨s, hs, hdelivered.drained hended, ?_, ?_, hdelivered.not_closed⟩
  · exact (hdelivered.once faulty (.head _)).resolve_left nofun
  · exact (hdelivered.once sane (.tail _ (.head _))).resolve_left nofun

/-- A host synchronizes and falls asleep after another one has counted a launch, and before that
    has sent the job: what it waits for has not come about, and the worker cannot take a step. -/
theorem asleep_before_send : ∃ s : Threads Unit, Reachable .standard [] s ∧
    s.hosts 0 = .asleep ∧ s.inflight = 1 ∧ ¬s.Met 0 ∧
    s.hosts 1 = .launching ⟨0, sane.kernel⟩ ∧ ¬∃ new t, WorkerStep s new t := by
  have hstart : Reachable .standard [] (start .standard : Threads Unit) := .start
  have hcounted := hstart.step (.host 1 (.count sane.kernel rfl rfl))
  have hasleep := (hcounted.step (.host 0 (.synchronize rfl rfl))).step
    (.host 0 (.sleep rfl Nat.one_ne_zero))
  refine ⟨_, hasleep, rfl, rfl, Nat.one_ne_zero, rfl, ?_⟩
  rintro ⟨new, t, hstep⟩
  cases hstep with
  | take _ hjobs => cases hjobs
  | complete hcalling => cases hcalling
  | deliver hsending _ => cases hsending
  | retire hfinishing _ => cases hfinishing
  | leave _ _ hdropped => cases hdropped

end Threads

end NeighborSearch
