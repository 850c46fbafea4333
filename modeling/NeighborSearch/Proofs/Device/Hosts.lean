import NeighborSearch.Device.Threads
import NeighborSearch.Proofs.Device.Shared

/-!
# The hosts of a shared stream

What can be said of the hosts alone, in all that may come about.

* `Handles`: every launch has a number of its own, and one handle, which is with the host
  that launches it or waits for its result, or with nobody in particular.
* `Closing`: nobody uses a stream that has been dropped.
* `Sleepers`: a host only sleeps while something is in flight.

Each holds of a new stream and is kept by every step.
-/

namespace NeighborSearch

variable {α : Type}

/-- The number of the launch whose handle a host has. -/
def Host.holds? : Host α → Option ℕ
  | .launching job => some job.ticket
  | .waiting ticket => some ticket
  | .ready | .checking | .asleep | .dropping => none

/-- The worker changes the number in flight only when it retires a launch. -/
theorem Stream.work?_inflight_eq {s t : Stream α} {message : Option (Message α)}
    (hretiring : ∀ error, s.worker ≠ .retiring error) (h : s.work? = some (t, message)) :
    t.inflight = s.inflight := by
  rw [work?] at h
  split at h
  case h_1 =>
    split at h
    case h_1 => cases h
    case h_2 =>
      obtain ⟨rfl, -⟩ := Prod.mk.inj (Option.some.inj h)
      rfl
  case h_2 =>
    obtain ⟨rfl, -⟩ := Prod.mk.inj (Option.some.inj h)
    rfl
  case h_3 error herror => exact absurd herror (hretiring error)

namespace SharedStream

variable {config : LaunchConfig} {events new : List Event} {s t : SharedStream α}

theorem hosts_setHost (s : SharedStream α) (h other : ℕ) (activity : Host α) :
    (s.setHost h activity).hosts other = if other = h then activity else s.hosts other := rfl

/-- A host that does something is the one that was set to do it, or did it before. -/
theorem setHost_cases {h other : ℕ} {activity a : Host α}
    (hother : (s.setHost h activity).hosts other = a) : activity = a ∨ s.hosts other = a := by
  rw [hosts_setHost] at hother
  split at hother
  · exact .inl hother
  · exact .inr hother

/-- A host that does something when all are woken did so before, or was asleep. -/
theorem wakeAll_cases {h : ℕ} {a : Host α} (hhost : s.wakeAll.hosts h = a) :
    s.hosts h = .asleep ∧ a = .checking ∨ s.hosts h = a ∧ a ≠ .asleep := by
  subst hhost
  cases hh : s.hosts h with
  | asleep => exact .inl ⟨rfl, by simp only [wakeAll, hh]⟩
  | ready | launching _ | checking | waiting _ | dropping =>
    exact .inr (by simp [wakeAll, hh])

/-! ## Steps of the worker -/

/-- The worker takes a job. -/
theorem Step.take {job : Job α} {queue : List (Job α)} (hidle : s.stream.worker = .idle)
    (hqueue : s.stream.queue = job :: queue) :
    Step s [] { s with stream := { s.stream with queue, worker := .executing job } } := by
  have hwork : s.stream.work? =
      some ({ s.stream with queue, worker := .executing job }, none) := by
    simp only [Stream.work?, hidle, hqueue]
  have hstep := Step.work (fun _ herror => by cases hidle.symm.trans herror) hwork
  rw [Option.toList_none, List.append_nil] at hstep
  exact hstep

/-- The worker runs its job, and delivers the result. -/
theorem Step.execute {job : Job α} (hexecuting : s.stream.worker = .executing job) :
    Step s [] { s with
      stream := { s.stream with worker := .retiring (job.error? s.stream.config) }
      delivered := s.delivered ++ [job.message s.stream.config] } := by
  have hwork : s.stream.work? =
      some ({ s.stream with worker := .retiring (job.error? s.stream.config) },
        some (job.message s.stream.config)) := by
    simp only [Stream.work?, hexecuting]
    rfl
  exact .work (fun _ herror => by cases hexecuting.symm.trans herror) hwork

/-! ## Handles -/

/-- Who has the handle of a launch: a host, or nobody in particular. -/
def HeldBy (s : SharedStream α) : Option ℕ → ℕ → Prop
  | none, ticket => ticket ∈ s.pending
  | some h, ticket => (s.hosts h).holds? = some ticket

/-- Every launch has a number of its own, and one handle at most. -/
structure Handles (s : SharedStream α) : Prop where
  lt : ∀ place ticket, s.HeldBy place ticket → ticket < s.nextTicket
  unique : ∀ place place' ticket,
    s.HeldBy place ticket → s.HeldBy place' ticket → place = place'
  pending : s.pending.Nodup
  sent_lt : ∀ job ∈ s.sent, job.ticket < s.nextTicket
  sent : (s.sent.map (·.ticket)).Nodup
  unsent : ∀ h job, s.hosts h = .launching job → ∀ job' ∈ s.sent, job'.ticket ≠ job.ticket

theorem handles_start (config : LaunchConfig) : (start config : SharedStream α).Handles := by
  refine ⟨?_, ?_, List.nodup_nil, nofun, List.nodup_nil, nofun⟩
  · rintro (_ | h) ticket hheld
    · exact absurd hheld List.not_mem_nil
    · cases hheld
  · rintro (_ | h) place' ticket hheld
    · exact absurd hheld List.not_mem_nil
    · cases hheld

theorem heldBy_setHost {h ticket : ℕ} {activity : Host α} {place : Option ℕ} :
    (s.setHost h activity).HeldBy place ticket ↔
      place = some h ∧ activity.holds? = some ticket ∨
        place ≠ some h ∧ s.HeldBy place ticket := by
  cases place with
  | none => simp [HeldBy, setHost]
  | some other =>
    by_cases hother : other = h
    · simp [HeldBy, setHost, hother]
    · simp [HeldBy, setHost, hother]

/-- Handles may be dropped. -/
theorem Handles.mono (hs : s.Handles) (hpending : t.pending.Sublist s.pending)
    (hhosts : ∀ h, t.hosts h = s.hosts h ∨ (t.hosts h).holds? = none) (hsent : t.sent = s.sent)
    (hnext : t.nextTicket = s.nextTicket) : t.Handles := by
  have hheld : ∀ place ticket, t.HeldBy place ticket → s.HeldBy place ticket := by
    rintro (_ | h) ticket hheld
    · exact hpending.subset hheld
    · rcases hhosts h with heq | hnone
      · exact (congrArg Host.holds? heq).symm.trans hheld
      · exact absurd (hnone.symm.trans hheld) (by simp)
  refine ⟨fun place ticket h => ?_, fun place place' ticket h h' => ?_,
    hs.pending.sublist hpending, ?_, ?_, fun h job hlaunching => ?_⟩
  · rw [hnext]
    exact hs.lt place ticket (hheld place ticket h)
  · exact hs.unique place place' ticket (hheld place ticket h) (hheld place' ticket h')
  · rw [hsent, hnext]
    exact hs.sent_lt
  · rw [hsent]
    exact hs.sent
  · rw [hsent]
    rcases hhosts h with heq | hnone
    · exact hs.unsent h job (heq ▸ hlaunching)
    · rw [hlaunching] at hnone
      cases hnone

theorem released_setHost {h : ℕ} {activity : Host α} (hnone : activity.holds? = none)
    (other : ℕ) : (s.setHost h activity).hosts other = s.hosts other ∨
      ((s.setHost h activity).hosts other).holds? = none := by
  rw [hosts_setHost]
  split
  · exact .inr hnone
  · exact .inl rfl

theorem released_wakeAll (s : SharedStream α) (h : ℕ) :
    s.wakeAll.hosts h = s.hosts h ∨ (s.wakeAll.hosts h).holds? = none := by
  rcases wakeAll_cases (s := s) (h := h) rfl with ⟨-, hchecking⟩ | ⟨hsame, -⟩
  · exact .inr (by rw [hchecking]; rfl)
  · exact .inl hsame.symm

/-- The launch that a host counts has a new number. -/
theorem Handles.count (hs : s.Handles) (h : ℕ) (kernel : Kernel α) :
    ({ s with stream := s.stream.count, nextTicket := s.nextTicket + 1 }.setHost h
      (.launching ⟨s.nextTicket, kernel⟩)).Handles := by
  refine ⟨fun place ticket hheld => ?_, fun place place' ticket hheld hheld' => ?_,
    hs.pending, fun job hjob => Nat.lt_succ_of_lt (hs.sent_lt job hjob), hs.sent, ?_⟩
  · rcases heldBy_setHost.1 hheld with ⟨-, hnew⟩ | ⟨-, hold⟩
    · exact Option.some.inj hnew ▸ Nat.lt_succ_self _
    · exact Nat.lt_succ_of_lt (hs.lt place ticket hold)
  · rcases heldBy_setHost.1 hheld with ⟨hplace, hnew⟩ | ⟨-, hold⟩ <;>
      rcases heldBy_setHost.1 hheld' with ⟨hplace', hnew'⟩ | ⟨-, hold'⟩
    · rw [hplace, hplace']
    · exact absurd (hs.lt place' ticket hold') (Option.some.inj hnew ▸ Nat.lt_irrefl _)
    · exact absurd (hs.lt place ticket hold) (Option.some.inj hnew' ▸ Nat.lt_irrefl _)
    · exact hs.unique place place' ticket hold hold'
  · intro other job hlaunching job' hjob'
    rcases setHost_cases hlaunching with hnew | hold
    · obtain rfl := Host.launching.inj hnew
      exact Nat.ne_of_lt (hs.sent_lt job' hjob')
    · exact hs.unsent other job hold job' hjob'

/-- A handle is handed on from one place to another one. -/
theorem Handles.of_moved (hs : s.Handles) {source target : Option ℕ} {moved : ℕ}
    (hsource : s.HeldBy source moved)
    (hmoved : ∀ place ticket, t.HeldBy place ticket →
      place = target ∧ ticket = moved ∨ s.HeldBy place ticket ∧ ticket ≠ moved) :
    (∀ place ticket, t.HeldBy place ticket → ticket < s.nextTicket) ∧
      ∀ place place' ticket, t.HeldBy place ticket → t.HeldBy place' ticket → place = place' := by
  refine ⟨fun place ticket hheld => ?_, fun place place' ticket hheld hheld' => ?_⟩
  · rcases hmoved place ticket hheld with ⟨-, rfl⟩ | ⟨hold, -⟩
    · exact hs.lt source ticket hsource
    · exact hs.lt place ticket hold
  · rcases hmoved place ticket hheld with ⟨rfl, heq⟩ | ⟨hold, hne⟩ <;>
      rcases hmoved place' ticket hheld' with ⟨rfl, heq'⟩ | ⟨hold', hne'⟩
    · rfl
    · exact absurd heq hne'
    · exact absurd heq' hne
    · exact hs.unique place place' ticket hold hold'

/-- What is held elsewhere is another handle. -/
theorem Handles.ne_of_heldBy (hs : s.Handles) {place place' : Option ℕ} {ticket ticket' : ℕ}
    (hheld : s.HeldBy place ticket) (hheld' : s.HeldBy place' ticket') (hne : place ≠ place') :
    ticket ≠ ticket' := by
  rintro rfl
  exact hne (hs.unique place place' ticket hheld hheld')

/-- A host that sends a job lets go of the handle. -/
theorem Handles.send (hs : s.Handles) {h : ℕ} {job : Job α}
    (hlaunching : s.hosts h = .launching job) :
    ({ s with
      stream := s.stream.send job
      sent := s.sent ++ [job]
      pending := job.ticket :: s.pending }.setHost h .ready).Handles := by
  have hholds : s.HeldBy (some h) job.ticket := congrArg Host.holds? hlaunching
  have hmoved : ∀ place ticket, ({ s with
      stream := s.stream.send job
      sent := s.sent ++ [job]
      pending := job.ticket :: s.pending }.setHost h .ready).HeldBy place ticket →
      place = none ∧ ticket = job.ticket ∨ s.HeldBy place ticket ∧ ticket ≠ job.ticket := by
    rintro (_ | other) ticket hheld
    · rcases List.mem_cons.1 hheld with rfl | hmem
      · exact .inl ⟨rfl, rfl⟩
      · have hold : s.HeldBy none ticket := hmem
        exact .inr ⟨hold, hs.ne_of_heldBy hold hholds nofun⟩
    · rcases heldBy_setHost.1 hheld with ⟨-, hnone⟩ | ⟨hne, hold⟩
      · cases hnone
      · have hold : s.HeldBy (some other) ticket := hold
        exact .inr ⟨hold, hs.ne_of_heldBy hold hholds hne⟩
  obtain ⟨hlt, hunique⟩ := hs.of_moved hholds hmoved
  have hfresh : job.ticket ∉ s.pending := by
    intro hmem
    cases hs.unique none (some h) job.ticket hmem hholds
  refine ⟨hlt, hunique, List.nodup_cons.2 ⟨hfresh, hs.pending⟩, fun job' hjob' => ?_, ?_, ?_⟩
  · rcases List.mem_append.1 hjob' with hold | hnew
    · exact hs.sent_lt job' hold
    · obtain rfl := List.mem_singleton.1 hnew
      exact hs.lt (some h) job'.ticket hholds
  · refine (List.map_append ▸ List.nodup_append.2 ⟨hs.sent, List.nodup_singleton _, ?_⟩ :
      ((s.sent ++ [job]).map (·.ticket)).Nodup)
    rintro ticket hold ticket' hnew rfl
    obtain ⟨job', hjob', rfl⟩ := List.mem_map.1 hold
    exact hs.unsent h job hlaunching job' hjob' (List.mem_singleton.1 hnew)
  · intro other job' hother job'' hjob''
    rcases setHost_cases hother with hready | hold
    · cases hready
    · rcases List.mem_append.1 hjob'' with hmem | hnew
      · exact hs.unsent other job' hold job'' hmem
      · -- Another host launches another job; this one does not launch any more.
        obtain rfl := List.mem_singleton.1 hnew
        have hother' : other ≠ h := by
          rintro rfl
          rw [hosts_setHost, if_pos rfl] at hother
          cases hother
        have hholds' : s.HeldBy (some other) job'.ticket := congrArg Host.holds? hold
        exact (hs.ne_of_heldBy hholds' hholds fun heq => hother' (Option.some.inj heq)).symm

/-- A host that begins to wait takes the handle. -/
theorem Handles.await (hs : s.Handles) {h ticket : ℕ} (hpending : ticket ∈ s.pending) :
    ({ s with pending := s.pending.erase ticket }.setHost h (.waiting ticket)).Handles := by
  have hpool : s.HeldBy none ticket := hpending
  have hmoved : ∀ place ticket',
      ({ s with pending := s.pending.erase ticket }.setHost h (.waiting ticket)).HeldBy
        place ticket' →
      place = some h ∧ ticket' = ticket ∨ s.HeldBy place ticket' ∧ ticket' ≠ ticket := by
    rintro (_ | other) ticket' hheld
    · exact .inr (hs.pending.mem_erase_iff.1 hheld).symm
    · rcases heldBy_setHost.1 hheld with ⟨hplace, hsome⟩ | ⟨-, hold⟩
      · exact .inl ⟨hplace, (Option.some.inj hsome).symm⟩
      · have hold : s.HeldBy (some other) ticket' := hold
        exact .inr ⟨hold, hs.ne_of_heldBy hold hpool nofun⟩
  obtain ⟨hlt, hunique⟩ := hs.of_moved hpool hmoved
  refine ⟨hlt, hunique, hs.pending.erase ticket, hs.sent_lt, hs.sent, ?_⟩
  intro other job hother
  rcases setHost_cases hother with hwaiting | hold
  · cases hwaiting
  · exact hs.unsent other job hold

/-- Every step hands on what is held. -/
theorem Handles.step (hs : s.Handles) (h : Step s new t) : t.Handles := by
  cases h with
  | @count host kernel _ _ => exact hs.count host kernel
  | send hlaunching => exact hs.send hlaunching
  | await _ hpending => exact hs.await hpending
  | forget _ _ => exact hs.mono List.erase_sublist (fun _ => .inl rfl) rfl rfl
  | receive _ _ | synchronize _ _ | sleep _ _ | wake _ | report _ _ | drop _ _ _ | gone _ _ =>
    exact hs.mono (List.Sublist.refl _) (released_setHost rfl) rfl rfl
  | work _ _ | retire _ _ => exact hs.mono (List.Sublist.refl _) (fun _ => .inl rfl) rfl rfl
  | retireLast _ _ => exact hs.mono (List.Sublist.refl _) (released_wakeAll _) rfl rfl

theorem Reachable.handles (h : Reachable config events s) : s.Handles := by
  induction h with
  | start => exact handles_start config
  | step _ hstep ih => exact ih.step hstep

/-! ## Closing -/

/-- Nobody uses a stream that has been dropped. -/
structure Closing (s : SharedStream α) : Prop where
  unused : s.dropped = true → ∀ h, ¬(s.hosts h).Uses
  dropping : ∀ h, s.hosts h = .dropping → s.dropped = true

theorem closing_start (config : LaunchConfig) : (start config : SharedStream α).Closing :=
  ⟨nofun, nofun⟩

/-- A stream that a host uses has not been dropped. -/
theorem Closing.of_uses (hs : s.Closing) {h : ℕ} {activity : Host α}
    (hhost : s.hosts h = activity) (huses : activity.Uses) : s.dropped = false := by
  subst hhost
  exact Bool.eq_false_iff.2 fun hdropped => hs.unused hdropped h huses

theorem Closing.congr (hs : s.Closing) (hdropped : t.dropped = s.dropped)
    (hhosts : t.hosts = s.hosts) : t.Closing := by
  refine ⟨fun hdropped' host => ?_, fun host hdropping => ?_⟩
  · rw [hhosts]
    exact hs.unused (hdropped ▸ hdropped') host
  · rw [hdropped]
    exact hs.dropping host (hhosts ▸ hdropping)

/-- A host may do anything, but use a stream that has been dropped. -/
theorem Closing.setHost (hs : s.Closing) {h : ℕ} {activity : Host α}
    (huses : activity.Uses → s.dropped = false) (hdropping : activity ≠ .dropping) :
    (s.setHost h activity).Closing := by
  refine ⟨fun hdropped other huse => ?_, fun other hother => ?_⟩
  · generalize hother : (s.setHost h activity).hosts other = a at huse
    rcases setHost_cases hother with rfl | rfl
    · exact absurd ((huses huse).symm.trans hdropped) nofun
    · exact hs.unused hdropped other huse
  · rcases setHost_cases hother with hnew | hold
    · exact absurd hnew hdropping
    · exact hs.dropping other hold

theorem Closing.wakeAll (hs : s.Closing) : s.wakeAll.Closing := by
  refine ⟨fun hdropped h huse => ?_, fun h hdropping => ?_⟩
  · rcases wakeAll_cases (s := s) (h := h) rfl with ⟨hasleep, -⟩ | ⟨hsame, -⟩
    · exact hs.unused hdropped h (hasleep ▸ trivial)
    · exact hs.unused hdropped h (hsame ▸ huse)
  · rcases wakeAll_cases hdropping with ⟨-, hchecking⟩ | ⟨hsame, -⟩
    · cases hchecking
    · exact hs.dropping h hsame

theorem Closing.step (hs : s.Closing) (h : Step s new t) : t.Closing := by
  cases h with
  | count _ _ hopen | synchronize _ hopen =>
    refine Closing.setHost ?_ (fun _ => hopen) ?_
    · exact hs.congr rfl rfl
    · nofun
  | send _ | await _ _ | receive _ _ | report _ _ | gone _ _ =>
    refine Closing.setHost ?_ (fun huse => absurd huse id) ?_
    · exact hs.congr rfl rfl
    · nofun
  | sleep hhost _ | wake hhost => exact hs.setHost (fun _ => hs.of_uses hhost trivial) nofun
  | forget _ _ | work _ _ | retire _ _ => exact hs.congr rfl rfl
  | retireLast _ _ => exact .wakeAll (hs.congr rfl rfl)
  | drop _ _ hunused =>
    refine ⟨fun _ other huse => ?_, fun _ _ => rfl⟩
    generalize hother : SharedStream.hosts _ other = a at huse
    rcases setHost_cases hother with rfl | rfl
    · exact huse
    · exact hunused other huse

theorem Reachable.closing (h : Reachable config events s) : s.Closing := by
  induction h with
  | start => exact closing_start config
  | step _ hstep ih => exact ih.step hstep

/-! ## Sleepers -/

/-- A host only sleeps while something is in flight. -/
def Sleepers (s : SharedStream α) : Prop := ∀ h, s.hosts h = .asleep → s.stream.inflight ≠ 0

/-- Only a host that is not put to sleep is set to do something else. -/
theorem Sleepers.setHost (hs : s.Sleepers) {h : ℕ} {activity : Host α}
    (hactivity : activity ≠ .asleep) : (s.setHost h activity).Sleepers := by
  intro other hother
  rcases setHost_cases hother with hnew | hold
  · exact absurd hnew hactivity
  · exact hs other hold

theorem Sleepers.step (hs : s.Sleepers) (h : Step s new t) : t.Sleepers := by
  cases h with
  | count _ _ _ => exact fun _ _ => Nat.succ_ne_zero _
  | send _ | await _ _ | receive _ _ | synchronize _ _ | wake _ | drop _ _ _ | gone _ _ =>
    exact Sleepers.setHost hs nofun
  | forget _ _ => exact hs
  | sleep _ hinflight => exact fun _ _ => hinflight
  | report _ hreport =>
    rw [Stream.report?] at hreport
    split at hreport
    case isTrue hzero =>
      obtain ⟨rfl, rfl⟩ := Prod.mk.inj (Option.some.inj hreport)
      exact Sleepers.setHost hs nofun
    case isFalse => cases hreport
  | work hretiring hwork =>
    intro h hasleep
    rw [Stream.work?_inflight_eq hretiring hwork]
    exact hs h hasleep
  | retire _ hinflight => exact fun _ _ => hinflight
  | retireLast _ _ =>
    intro h hasleep
    rcases wakeAll_cases hasleep with ⟨-, hchecking⟩ | ⟨-, hne⟩
    · cases hchecking
    · exact absurd rfl hne

theorem Reachable.sleepers (h : Reachable config events s) : s.Sleepers := by
  induction h with
  | start => exact nofun
  | step _ hstep ih => exact ih.step hstep

end SharedStream

end NeighborSearch
