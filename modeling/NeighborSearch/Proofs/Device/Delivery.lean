import NeighborSearch.Proofs.Device.Threads

/-!
# Delivery

The threads of a stream stay sound (`Sound.step`): every step of a host and every step of
the worker keeps the mailboxes right, the answers, and the course of the worker. So what the
threads bring about is what a shared stream may bring about (`Reachable.shared`), and all
that is known of shared streams is known of the threads, too.
-/

namespace NeighborSearch.Threads

variable {α : Type} {config : LaunchConfig} {history new : List (Occurrence α)}
  {s t : Threads α} {host ticket : ℕ} {place : Option ℕ} {activity : Host α}

/-! ## Mailboxes -/

theorem putInto_append_of_eq_nil (hnew : deliveries new = []) (ticket : ℕ) :
    putInto (history ++ new) ticket = putInto history ticket := by
  have hnone : putInto new ticket = [] := by rw [putInto, hnew, List.filter_nil, List.map_nil]
  rw [putInto_append, hnone, List.append_nil]

theorem heldBy_of_setHost (hnone : activity.holds? = none)
    (hheld : (s.setHost host activity).HeldBy place ticket) : s.HeldBy place ticket := by
  rcases heldBy_setHost.1 hheld with ⟨-, hsome⟩ | ⟨-, hold⟩
  · exact absurd (hnone.symm.trans hsome) nofun
  · exact hold

theorem holds?_finish (error : Option SelectError) (h : ℕ) :
    ((s.finish error).hosts h).holds? = (s.hosts h).holds? := by
  simp only [finish]
  split
  · simp only [Host.wake]
    split
    case h_1 hasleep => rw [hasleep]; rfl
    case h_2 => rfl
  · rfl

theorem heldBy_of_finish {error : Option SelectError}
    (hheld : (s.finish error).HeldBy place ticket) : s.HeldBy place ticket := by
  cases place with
  | none => exact hheld
  | some h => exact (holds?_finish error h).symm.trans hheld

/-- The mailboxes are left as they are. -/
theorem Mailboxes.mono (hs : s.Mailboxes history) (hmailboxes : t.mailboxes = s.mailboxes)
    (hnext : t.nextTicket = s.nextTicket) (hnew : deliveries new = [])
    (hheld : ∀ place ticket, t.HeldBy place ticket → ∃ place', s.HeldBy place' ticket)
    (hworker : ∀ job error, t.worker = .finishing job error → s.worker = .finishing job error) :
    t.Mailboxes (history ++ new) := by
  refine ⟨fun ticket hlt => ?_, fun place ticket h => ?_, fun job error h => ?_⟩
  · rw [hmailboxes, putInto_append_of_eq_nil hnew]
    exact hs.sound ticket (hnext ▸ hlt)
  · obtain ⟨place', hplace'⟩ := hheld place ticket h
    rw [hmailboxes]
    exact hs.held place' ticket hplace'
  · rw [putInto_append_of_eq_nil hnew]
    exact hs.finishing job error (hworker job error h)

/-- Something is done to one of the mailboxes. -/
theorem Mailboxes.set (hs : s.Mailboxes history) (ticket : ℕ) (m : Mailbox α)
    (hmailboxes : t.mailboxes = (s.setMailbox ticket m).mailboxes)
    (hm : m.Sound (putInto (history ++ new) ticket))
    (hothers : ∀ other < t.nextTicket, other ≠ ticket →
      other < s.nextTicket ∧ putInto (history ++ new) other = putInto history other)
    (hheld : ∀ place other, t.HeldBy place other →
      other = ticket ∧ m.hasReceiver = true ∨ other ≠ ticket ∧ s.HeldBy place other)
    (hworker : ∀ job error, t.worker = .finishing job error →
      putInto (history ++ new) job.ticket ≠ []) : t.Mailboxes (history ++ new) := by
  refine ⟨fun other hlt => ?_, fun place other h => ?_, hworker⟩
  · rw [hmailboxes, mailboxes_setMailbox]
    by_cases hother : other = ticket
    · subst hother
      rw [if_pos rfl]
      exact hm
    · obtain ⟨hlt', hsame⟩ := hothers other hlt hother
      rw [if_neg hother, hsame]
      exact hs.sound other hlt'
  · rw [hmailboxes, mailboxes_setMailbox]
    rcases hheld place other h with ⟨rfl, hreceiver⟩ | ⟨hother, hold⟩
    · rw [if_pos rfl]
      exact hreceiver
    · rw [if_neg hother]
      exact hs.held place other hold

/-- A handle is dropped. -/
theorem Mailboxes.dropReceiver (hs : s.Mailboxes history) (hlt : ticket < s.nextTicket)
    (hmailboxes : t.mailboxes =
      (s.setMailbox ticket (s.mailboxes ticket).dropReceiver).mailboxes)
    (hnext : t.nextTicket = s.nextTicket) (hworker : t.worker = s.worker)
    (hnew : deliveries new = [])
    (hheld : ∀ place other, t.HeldBy place other → s.HeldBy place other ∧ other ≠ ticket) :
    t.Mailboxes (history ++ new) := by
  refine hs.set ticket _ hmailboxes ?_ ?_ ?_ fun job error hfinishing => ?_
  · rw [putInto_append_of_eq_nil hnew]
    exact (hs.sound ticket hlt).dropReceiver
  · intro other hother _
    exact ⟨hnext ▸ hother, putInto_append_of_eq_nil hnew other⟩
  · intro place other h
    exact .inr (hheld place other h).symm
  · rw [putInto_append_of_eq_nil hnew]
    exact hs.finishing job error (hworker ▸ hfinishing)

theorem HostStep.mailboxes (hs : s.Sound config history) (h : HostStep host s new t) :
    t.Mailboxes (history ++ new) := by
  have hm := hs.mailboxes
  cases h with
  | count kernel _ _ =>
    refine hm.set s.nextTicket .create rfl ?_ ?_ ?_ fun job error hfinishing => ?_
    · rw [List.append_nil, hs.putInto_nextTicket]
      exact Mailbox.sound_create
    · intro other hlt hne
      exact ⟨Nat.lt_of_le_of_ne (Nat.le_of_lt_succ hlt) hne, by rw [List.append_nil]⟩
    · intro place other hheld
      rcases heldBy_setHost.1 hheld with ⟨-, hnew⟩ | ⟨-, hold⟩
      · exact .inl ⟨(Option.some.inj hnew).symm, rfl⟩
      · exact .inr ⟨Nat.ne_of_lt (hs.lt_of_heldBy hold), hold⟩
    · rw [List.append_nil]
      exact hm.finishing job error hfinishing
  | @send job hlaunching _ =>
    refine hm.mono rfl rfl rfl ?_ fun _ _ hfinishing => hfinishing
    rintro (_ | other) ticket hheld
    · rcases List.mem_cons.1 hheld with rfl | hmem
      · exact ⟨some host, congrArg Host.holds? hlaunching⟩
      · exact ⟨none, hmem⟩
    · exact ⟨some other, heldBy_of_setHost rfl hheld⟩
  | refuse hlaunching hended _ => exact absurd hended (hs.ne_ended hlaunching)
  | @await ticket hready hpending =>
    refine hm.mono rfl rfl rfl ?_ fun _ _ hfinishing => hfinishing
    rintro (_ | other) ticket' hheld
    · exact ⟨none, List.mem_of_mem_erase hheld⟩
    · rcases heldBy_setHost.1 hheld with ⟨-, hsome⟩ | ⟨-, hold⟩
      · exact ⟨none, Option.some.inj hsome ▸ hpending⟩
      · exact ⟨some other, hold⟩
  | @forget ticket _ hpending =>
    have hpool : s.HeldBy none ticket := hpending
    refine hm.dropReceiver (hs.lt_of_heldBy hpool) rfl rfl rfl rfl ?_
    rintro (_ | other) ticket' hheld
    · exact (hs.shared.handles.pending.mem_erase_iff.1 hheld).symm
    · have hold : s.HeldBy (some other) ticket' := hheld
      refine ⟨hold, ?_⟩
      rintro rfl
      cases hs.heldBy_unique hpool hold
  | @receive ticket result results hwaiting _ =>
    have hwaits : s.HeldBy (some host) ticket := congrArg Host.holds? hwaiting
    refine hm.dropReceiver (hs.lt_of_heldBy hwaits) rfl rfl rfl rfl fun place other hheld => ?_
    rcases heldBy_setHost.1 hheld with ⟨-, hnone⟩ | ⟨hne, hold⟩
    · cases hnone
    · refine ⟨hold, ?_⟩
      rintro rfl
      exact hne (hs.heldBy_unique hold hwaits)
  | disconnect hwaiting hresults hsender =>
    exact absurd hsender (hs.not_disconnected hwaiting hresults)
  | synchronize _ _ | sleep _ _ | wake _ | report _ _ | drop _ _ _ | join _ _ =>
    exact hm.mono rfl rfl rfl (fun place ticket hheld => ⟨place, heldBy_of_setHost rfl hheld⟩)
      fun _ _ hfinishing => hfinishing

theorem WorkerStep.mailboxes (hs : s.Sound config history) (h : WorkerStep s new t) :
    t.Mailboxes (history ++ new) := by
  have hm := hs.mailboxes
  cases h with
  | take _ _ | complete _ | leave _ _ _ =>
    exact hm.mono rfl rfl rfl (fun place ticket hheld => ⟨place, hheld⟩) nofun
  | @deliver job result m hsending hput =>
    have hnew : putInto (history ++ [.delivered ⟨job.ticket, result⟩]) job.ticket =
        putInto history job.ticket ++ [result] := by
      rw [putInto_append, putInto_delivered_self]
    have hlt := hs.ticket_lt (List.mem_append_right _ (hs.owed_of_sending hsending))
    refine hm.set job.ticket m rfl ?_ ?_ ?_ ?_
    · rw [hnew]
      exact (hm.sound job.ticket hlt).put? hput
    · intro other hother hne
      refine ⟨hother, ?_⟩
      rw [putInto_append, putInto_delivered_of_ne hne, List.append_nil]
    · intro place other hheld
      by_cases hother : other = job.ticket
      · subst hother
        exact .inl ⟨rfl, (Mailbox.hasReceiver_of_put? hput).trans (hm.held place _ hheld)⟩
      · exact .inr ⟨hother, hheld⟩
    · intro job' error hfinishing
      obtain ⟨rfl, -⟩ := WorkerThread.finishing.inj hfinishing
      rw [hnew]
      exact List.append_ne_nil_of_right_ne_nil _ (List.cons_ne_nil _ _)
  | @retire job error hfinishing _ =>
    have hput := hm.finishing job error hfinishing
    refine hm.set job.ticket _ rfl ?_ ?_ ?_ nofun
    · rw [putInto_append_of_eq_nil rfl]
      exact (hm.sound job.ticket (hs.lt_of_putInto hput)).dropSender hput
    · intro other hother _
      exact ⟨hother, putInto_append_of_eq_nil rfl other⟩
    · intro place other hheld
      have hold : s.HeldBy place other :=
        heldBy_of_finish (s := { s with worker := .listening }) hheld
      by_cases hother : other = job.ticket
      · subst hother
        exact .inl ⟨rfl, hm.held place _ hold⟩
      · exact .inr ⟨hother, hold⟩

/-! ## Answers -/

/-- No host is told anything. -/
theorem Answers.mono (hs : s.Answers history) (hanswers : answers new = [])
    (hrefusals : Threads.refusals new = [])
    (htaken : ∀ message ∈ answers history,
      (t.mailboxes message.ticket).hasReceiver = false) : t.Answers (history ++ new) := by
  have hsame : answers (history ++ new) = answers history := by
    rw [answers, List.filterMap_append, ← answers, ← answers, hanswers, List.append_nil]
  refine ⟨fun message hmem => ?_, fun message hmem => ?_, ?_, ?_⟩
  · rw [hsame] at hmem
    rw [deliveries, List.filterMap_append]
    exact List.mem_append_left _ (hs.given message hmem)
  · rw [hsame] at hmem
    exact htaken message hmem
  · rw [hsame]
    exact hs.once
  · rw [Threads.refusals, List.filterMap_append, ← Threads.refusals, ← Threads.refusals,
      hs.refusals, hrefusals, List.append_nil]

theorem hasReceiver_setMailbox {m : Mailbox α} {other : ℕ} (hm : m.hasReceiver = false)
    (hother : (s.mailboxes other).hasReceiver = false) :
    ((s.setMailbox ticket m).mailboxes other).hasReceiver = false := by
  rw [mailboxes_setMailbox]
  split
  · exact hm
  · exact hother

theorem hasReceiver_setMailbox_of_eq {m : Mailbox α}
    (hm : m.hasReceiver = (s.mailboxes ticket).hasReceiver) (other : ℕ) :
    ((s.setMailbox ticket m).mailboxes other).hasReceiver = (s.mailboxes other).hasReceiver := by
  rw [mailboxes_setMailbox]
  split
  case isTrue heq => rw [heq, hm]
  case isFalse => rfl

theorem HostStep.answers (hs : s.Sound config history) (h : HostStep host s new t) :
    t.Answers (history ++ new) := by
  have ha := hs.answers
  cases h with
  | count kernel _ _ =>
    refine ha.mono rfl rfl fun message hmem => ?_
    have hlt := hs.ticket_lt (List.mem_append_left _ (ha.given message hmem))
    exact (congrArg Mailbox.hasReceiver (if_neg (Nat.ne_of_lt hlt))).trans
      (ha.taken message hmem)
  | send _ _ | await _ _ | synchronize _ _ | sleep _ _ | wake _ | report _ _ | drop _ _ _
  | join _ _ => exact ha.mono rfl rfl ha.taken
  | refuse hlaunching hended _ => exact absurd hended (hs.ne_ended hlaunching)
  | forget _ _ =>
    exact ha.mono rfl rfl fun message hmem => hasReceiver_setMailbox rfl (ha.taken message hmem)
  | @receive ticket result results hwaiting hresults =>
    have hwaits : s.HeldBy (some host) ticket := congrArg Host.holds? hwaiting
    have hreceiver := hs.mailboxes.held (some host) ticket hwaits
    have hgiven : ⟨ticket, result⟩ ∈ deliveries history := by
      rw [← mem_putInto, ← hs.results_of_heldBy hwaits, hresults]
      exact List.mem_cons_self
    have hanswers : answers (history ++ [.answered host ticket result]) =
        answers history ++ [⟨ticket, result⟩] := by
      rw [answers, List.filterMap_append]
      rfl
    refine ⟨fun message hmem => ?_, fun message hmem => ?_, ?_, ?_⟩
    · rw [deliveries, List.filterMap_append]
      apply List.mem_append_left
      rw [hanswers] at hmem
      rcases List.mem_append.1 hmem with hold | hlast
      · exact ha.given message hold
      · exact List.mem_singleton.1 hlast ▸ hgiven
    · rw [hanswers] at hmem
      rcases List.mem_append.1 hmem with hold | hlast
      · exact hasReceiver_setMailbox rfl (ha.taken message hold)
      · obtain rfl := List.mem_singleton.1 hlast
        exact congrArg Mailbox.hasReceiver (if_pos rfl)
    · -- Nobody has been given the result before, or else the handle would be gone.
      rw [hanswers, List.map_append, List.nodup_append]
      refine ⟨ha.once, List.nodup_singleton _, ?_⟩
      rintro other hold ticket' hlast rfl
      obtain ⟨message, hmem, rfl⟩ := List.mem_map.1 hold
      obtain rfl := List.mem_singleton.1 hlast
      cases hreceiver.symm.trans (ha.taken message hmem)
    · rw [Threads.refusals, List.filterMap_append, ← Threads.refusals, ha.refusals]
      rfl
  | disconnect hwaiting hresults hsender =>
    exact absurd hsender (hs.not_disconnected hwaiting hresults)

theorem WorkerStep.answers (hs : s.Sound config history) (h : WorkerStep s new t) :
    t.Answers (history ++ new) := by
  have ha := hs.answers
  cases h with
  | take _ _ | complete _ | leave _ _ _ => exact ha.mono rfl rfl ha.taken
  | deliver _ hput =>
    exact ha.mono rfl rfl fun message hmem =>
      (hasReceiver_setMailbox_of_eq (Mailbox.hasReceiver_of_put? hput) message.ticket).trans
        (ha.taken message hmem)
  | retire _ _ =>
    refine ha.mono rfl rfl fun message hmem => ?_
    refine (hasReceiver_setMailbox_of_eq ?_ message.ticket).trans (ha.taken message hmem)
    rfl

/-! ## The course of the worker -/

/-- The worker goes on with what it has ahead of it, or does nothing. -/
theorem Course.advance (hs : s.Course config history) (hconfig : t.config = s.config)
    (hsubmissions : submissions new = []) (hahead : worked new ++ t.ahead = s.ahead)
    (hresult : ∀ job result, t.worker = .sending job result →
      result = (job.kernel config).result)
    (hended : t.worker = .ended → t.jobs = [] ∧ t.dropped = true) :
    t.Course config (history ++ new) := by
  refine ⟨hconfig.trans hs.config_eq, hresult, ?_, hended⟩
  have hsame : submissions (history ++ new) = submissions history := by
    rw [submissions, List.filterMap_append, ← submissions, ← submissions, hsubmissions,
      List.append_nil]
  rw [hsame, ← hs.course, ← hahead, worked, List.filter_append, List.append_assoc]
  rfl

theorem HostStep.course (hs : s.Sound config history) (h : HostStep host s new t) :
    t.Course config (history ++ new) := by
  have hc := hs.course
  cases h with
  | @send job _ hlive =>
    refine ⟨hc.config_eq, hc.result, ?_, fun hended => absurd hended hlive⟩
    have hnew : submissions (history ++ [.sent job]) = submissions history ++ [job] := by
      rw [submissions, List.filterMap_append]
      rfl
    have hworked : worked (history ++ [.sent job]) = worked history := by
      rw [worked, List.filter_append]
      exact List.append_nil _
    obtain rfl := hc.config_eq
    rw [hnew, hworked, List.flatMap_append, ← hc.course, List.append_assoc]
    simp only [ahead, setHost, List.flatMap_append, List.append_assoc]
  | drop _ _ _ =>
    exact hc.advance rfl rfl rfl hc.result fun hended => ⟨(hc.ended hended).1, rfl⟩
  | count _ _ _ | refuse _ _ _ | await _ _ | forget _ _ | receive _ _ | disconnect _ _ _
  | synchronize _ _ | sleep _ _ | wake _ | report _ _ | join _ _ =>
    exact hc.advance rfl rfl rfl hc.result hc.ended

theorem WorkerStep.course (hs : s.Sound config history) (h : WorkerStep s new t) :
    t.Course config (history ++ new) := by
  have hc := hs.course
  cases h with
  | @take job jobs hlistening hjobs =>
    refine hc.advance rfl rfl ?_ (fun _ _ h => by cases h) fun h => by cases h
    simp only [ahead, hlistening, hjobs, WorkerThread.ahead, List.flatMap_cons, Job.course]
    rfl
  | @complete job hcalling =>
    refine hc.advance rfl rfl ?_ ?_ fun h => by cases h
    · simp only [ahead, hcalling, WorkerThread.ahead]
      rfl
    · rintro job' result hsending
      obtain ⟨rfl, rfl⟩ := WorkerThread.sending.inj hsending
      rw [hc.config_eq]
  | @deliver job result m hsending _ =>
    refine hc.advance rfl rfl ?_ (fun _ _ h => by cases h) fun h => by cases h
    simp only [ahead, setMailbox, hsending, WorkerThread.ahead]
    rfl
  | @retire job error hfinishing _ =>
    refine hc.advance rfl rfl ?_ (fun _ _ h => by cases h) fun h => by cases h
    simp only [ahead, setMailbox, finish, hfinishing, WorkerThread.ahead]
    rfl
  | leave hlistening hjobs hdropped =>
    refine hc.advance rfl rfl ?_ (fun _ _ h => by cases h) fun _ => ⟨hjobs, hdropped⟩
    simp only [ahead, hlistening, WorkerThread.ahead]
    rfl

/-! ## Runs -/

theorem Sound.step (hs : s.Sound config history) (h : Step s new t) :
    t.Sound config (history ++ new) := by
  have hevents : events (history ++ new) = events history ++ events new := List.filterMap_append
  cases h with
  | worker h =>
    refine ⟨?_, h.mailboxes hs, h.answers hs, h.course hs⟩
    rcases h.shared hs with hstep | ⟨hnone, hsame⟩
    · rw [hevents]
      exact .step hs.shared hstep
    · rw [hevents, hnone, List.append_nil, hsame]
      exact hs.shared
  | host host h =>
    refine ⟨?_, h.mailboxes hs, h.answers hs, h.course hs⟩
    rw [hevents]
    exact .step hs.shared (h.shared hs)

theorem Reachable.sound (h : Reachable config history s) : s.Sound config history := by
  induction h with
  | start => exact sound_start config
  | step _ hstep ih => exact ih.step hstep

/-- What the threads of a stream may bring about, a shared stream may, too. -/
theorem Reachable.shared (h : Reachable config history s) :
    SharedStream.Reachable config (events history) (s.shared history) :=
  h.sound.shared

end NeighborSearch.Threads
