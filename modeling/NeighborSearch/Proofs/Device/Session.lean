import NeighborSearch.Proofs.Device.Refinement

/-!
# Sessions answer as eager sessions do

Whatever steps the workers take between the commands, a session gives the answers of the
eager session (`Refines.runs`), and no command waits for ever: as long as one has to wait,
some worker has a step to take, and each leaves less to do.

What a command does is said once (`performed_of_perform?`), and so is what it has to wait for
(`Refines.perform?_eq_none`).
-/

namespace NeighborSearch.Session

variable {s t : Session} {e : EagerSession} {name : String}

/-! ## What commands do -/

/-- What a command that is carried out does to the session. -/
inductive Performed (s : Session) : Command → Answer → Session → Prop
  /-- It has to do with stored values. -/
  | stored (c : StoreCommand) :
    Performed s (.store c) (s.performStore c).2 (s.performStore c).1
  /-- A stream is made. -/
  | opened (name : String) : Performed s (.openStream name) .done
      { s with streams := s.streams.put name (.create s.device.launch) }
  /-- A stream is dropped. -/
  | closed (name : String) : Performed s (.closeStream name) .done
      { s with streams := s.streams.erase name }
  /-- A kernel is launched. -/
  | launched {name : String} {request : Request} {pending : String} {stream : Stream Outcome}
    {kernel : Kernel Outcome} : s.streams.get? name = some stream →
    s.store.kernel request = .ok kernel →
    Performed s (.launch name request pending) .done (s.launch name stream kernel pending)
  /-- A result is waited for or dropped. -/
  | redeemed {c : Command} {name : String} {a : Answer} : c = .wait name ∨ c = .forget name →
    Performed s c a { s with pending := s.pending.erase name }
  /-- A stream is asked for its error. -/
  | synchronized {name : String} {before after : Stream Outcome} {error : Option SelectError}
    {a : Answer} : s.streams.get? name = some before → before.report? = some (error, after) →
    Performed s (.synchronize name) a { s with streams := s.streams.put name after }
  /-- It is refused, or describes a stream. -/
  | unchanged {c : Command} {a : Answer} :
    (∀ name, c.Resets name → s.streams.get? name = none) → Performed s c a s

theorem performed_of_perform? {c : Command} {a : Answer} (hperform : s.perform? c = some (t, a)) :
    s.Performed c a t := by
  cases c with
  | store c =>
    obtain ⟨rfl, rfl⟩ := Prod.mk.inj (Option.some.inj hperform)
    exact .stored c
  | openStream name =>
    rw [Session.perform?] at hperform
    split at hperform
    case h_1 =>
      split at hperform
      case isTrue =>
        obtain ⟨rfl, rfl⟩ := Prod.mk.inj (Option.some.inj hperform)
        exact .opened name
      case isFalse => exact absurd hperform (by simp)
    case h_2 =>
      obtain ⟨rfl, rfl⟩ := Prod.mk.inj (Option.some.inj hperform)
      exact .opened name
  | closeStream name =>
    rw [Session.perform?] at hperform
    split at hperform
    case h_1 =>
      split at hperform
      case isTrue =>
        obtain ⟨rfl, rfl⟩ := Prod.mk.inj (Option.some.inj hperform)
        exact .closed name
      case isFalse => exact absurd hperform (by simp)
    case h_2 hunknown =>
      obtain ⟨rfl, rfl⟩ := Prod.mk.inj (Option.some.inj hperform)
      exact .unchanged fun other hother => hother ▸ hunknown
  | launch name request pending =>
    rw [Session.perform?] at hperform
    split at hperform
    case h_1 =>
      obtain ⟨rfl, rfl⟩ := Prod.mk.inj (Option.some.inj hperform)
      exact .unchanged fun _ => False.elim
    case h_2 stream hstream =>
      split at hperform
      case h_1 =>
        obtain ⟨rfl, rfl⟩ := Prod.mk.inj (Option.some.inj hperform)
        exact .unchanged fun _ => False.elim
      case h_2 kernel hkernel =>
        obtain ⟨rfl, rfl⟩ := Prod.mk.inj (Option.some.inj hperform)
        exact .launched hstream hkernel
  | wait name =>
    rw [Session.perform?] at hperform
    split at hperform
    case h_1 =>
      obtain ⟨rfl, rfl⟩ := Prod.mk.inj (Option.some.inj hperform)
      exact .unchanged fun _ => False.elim
    case h_2 =>
      split at hperform
      case h_1 =>
        obtain ⟨rfl, rfl⟩ := Prod.mk.inj (Option.some.inj hperform)
        exact .redeemed (.inl rfl)
      case h_2 =>
        split at hperform
        case isTrue => exact absurd hperform (by simp)
        case isFalse =>
          obtain ⟨rfl, rfl⟩ := Prod.mk.inj (Option.some.inj hperform)
          exact .redeemed (.inl rfl)
  | forget name =>
    rw [Session.perform?] at hperform
    split at hperform
    case h_1 =>
      obtain ⟨rfl, rfl⟩ := Prod.mk.inj (Option.some.inj hperform)
      exact .unchanged fun _ => False.elim
    case h_2 =>
      obtain ⟨rfl, rfl⟩ := Prod.mk.inj (Option.some.inj hperform)
      exact .redeemed (.inr rfl)
  | synchronize name =>
    rw [Session.perform?] at hperform
    split at hperform
    case h_1 hunknown =>
      obtain ⟨rfl, rfl⟩ := Prod.mk.inj (Option.some.inj hperform)
      exact .unchanged fun other hother => hother ▸ hunknown
    case h_2 stream hstream =>
      obtain ⟨⟨error, after⟩, hreport, hafter⟩ := Option.bind_eq_some_iff.1 hperform
      obtain ⟨rfl, rfl⟩ := Prod.mk.inj (Option.some.inj hafter)
      exact .synchronized hstream hreport
  | describe name =>
    rw [Session.perform?] at hperform
    split at hperform <;>
      · obtain ⟨rfl, rfl⟩ := Prod.mk.inj (Option.some.inj hperform)
        exact .unchanged fun _ => False.elim

/-! ## Waiting comes to an end -/

theorem exists_work?_of_isQuiet {stream : Stream Outcome}
    (hstream : s.streams.get? name = some stream) (hquiet : stream.isQuiet = false) :
    ∃ t, s.work? name = some t := by
  obtain ⟨after, message, hwork⟩ := Stream.exists_work?_eq_some hquiet
  refine ⟨{ s with
    streams := s.streams.put name after
    delivered := message.toList ++ s.delivered }, ?_⟩
  simp only [work?, hstream, hwork, Option.bind_eq_bind, Option.bind_some]
  rfl

/-- A command has to wait for a stream to become quiet, or for a result to be delivered. -/
theorem Refines.perform?_eq_none (h : s.Refines e) {c : Command} (hblocked : s.perform? c = none) :
    (∃ name stream, c.Resets name ∧ s.streams.get? name = some stream ∧ stream.isQuiet = false) ∨
      ∃ name ticket, c = .wait name ∧ s.pending.get? name = some ticket ∧
        s.result? ticket = none := by
  cases c with
  | store c => exact absurd hblocked (by simp [Session.perform?])
  | openStream name | closeStream name =>
    rw [Session.perform?] at hblocked
    split at hblocked
    case h_1 old hold =>
      split at hblocked
      case isTrue => exact absurd hblocked (by simp)
      case isFalse hbusy => exact .inl ⟨name, old, rfl, hold, Bool.eq_false_iff.2 hbusy⟩
    case h_2 => exact absurd hblocked (by simp)
  | launch name request pending =>
    rw [Session.perform?] at hblocked
    split at hblocked
    · exact absurd hblocked (by simp)
    · split at hblocked <;> exact absurd hblocked (by simp)
  | wait name =>
    rw [Session.perform?] at hblocked
    split at hblocked
    case h_1 => exact absurd hblocked (by simp)
    case h_2 ticket hticket =>
      split at hblocked
      case h_1 => exact absurd hblocked (by simp)
      case h_2 hmissing => exact .inr ⟨name, ticket, rfl, hticket, hmissing⟩
  | forget name | describe name =>
    rw [Session.perform?] at hblocked
    split at hblocked <;> exact absurd hblocked (by simp)
  | synchronize name =>
    rw [Session.perform?] at hblocked
    split at hblocked
    case h_1 => exact absurd hblocked (by simp)
    case h_2 stream hstream =>
      have hreport : stream.report? = none := by
        cases hreport : stream.report? with
        | none => rfl
        | some r => exact absurd hblocked (by simp [hreport])
      exact .inl ⟨name, stream, rfl, hstream,
        (h.sound name stream hstream).isQuiet_of_report? hreport⟩

/-- A command that has to wait waits for a worker that can take a step. -/
theorem Refines.exists_work? (h : s.Refines e) {c : Command} (hblocked : s.perform? c = none) :
    ∃ name t, s.work? name = some t := by
  rcases h.perform?_eq_none hblocked with
    ⟨name, stream, -, hstream, hbusy⟩ | ⟨name, ticket, rfl, hticket, hmissing⟩
  · exact ⟨name, exists_work?_of_isQuiet hstream hbusy⟩
  · obtain ⟨result, -, hpromise⟩ := h.named name ticket hticket
    obtain ⟨other, stream, hstream, hm⟩ := exists_stream_of_result?_eq_none hpromise hmissing
    exact ⟨other, exists_work?_of_isQuiet hstream (Stream.isQuiet_of_mem_owed hm)⟩

theorem exists_work?_of_workAny? (h : s.workAny? = some t) : ∃ name, s.work? name = some t := by
  obtain ⟨p, -, hp⟩ := List.exists_of_findSome?_eq_some h
  exact ⟨p.1, hp⟩

theorem workAny?_ne_none (h : s.work? name = some t) : s.workAny? ≠ none := by
  obtain ⟨before, after, message, hbefore, -, -⟩ := work?_eq_some h
  intro hnone
  have hall := List.findSome?_eq_none_iff.1 hnone _ (Bindings.mem_of_get?_eq_some hbefore)
  exact absurd (hall.symm.trans h) (by simp)

/-- Every command is carried out in the end. -/
theorem Refines.exists_perform (h : s.Refines e) (c : Command) :
    ∃ t a, s.perform c = some (t, a) ∧ t.Refines (e.perform c).1 ∧
      ∀ cs as u, Runs t cs as u → Runs s (c :: cs) (a :: as) u := by
  fun_induction perform s c with
  | case1 s r hperform =>
    obtain ⟨t, a⟩ := r
    exact ⟨t, a, rfl, (h.perform? hperform).1, fun cs as u hruns => .command hperform hruns⟩
  | case2 s hblocked s' hany ih =>
    obtain ⟨name, hwork⟩ := exists_work?_of_workAny? hany
    obtain ⟨t, a, ht, hrefines, hruns⟩ := ih (h.work? hwork)
    exact ⟨t, a, ht, hrefines, fun cs as u hrest => .work hwork (hruns cs as u hrest)⟩
  | case3 s hblocked hstuck =>
    obtain ⟨name, t, hwork⟩ := h.exists_work? hblocked
    exact absurd hstuck (workAny?_ne_none hwork)

/-- Whatever has happened so far, any commands can be carried out next. -/
theorem Refines.exists_runs (h : s.Refines e) (cs : List Command) :
    ∃ u, Runs s cs (s.run cs) u := by
  induction cs generalizing s e with
  | nil => exact ⟨s, .done⟩
  | cons c cs ih =>
    obtain ⟨t, a, hperform, hrefines, hruns⟩ := h.exists_perform c
    obtain ⟨u, hu⟩ := ih hrefines
    refine ⟨u, ?_⟩
    rw [run, hperform]
    exact hruns cs _ u hu

/-! ## Answers -/

/-- In every run, all answers but descriptions are those of the eager session. -/
theorem Refines.runs (h : s.Refines e) {cs : List Command} {as : List Answer}
    (hruns : Runs s cs as t) :
    t.Refines (e.after cs) ∧ as.length = cs.length ∧
      ∀ (i : ℕ) (c : Command), cs[i]? = some c → (∀ name, c ≠ .describe name) →
        as[i]? = (e.run cs)[i]? := by
  induction hruns generalizing e with
  | done => exact ⟨h, rfl, fun _ _ _ _ => rfl⟩
  | work hwork _ ih => exact ih (h.work? hwork)
  | command hperform _ ih =>
    obtain ⟨hrefines, hanswer⟩ := h.perform? hperform
    obtain ⟨hlast, hlength, hrest⟩ := ih hrefines
    refine ⟨hlast, congrArg (· + 1) hlength, ?_⟩
    intro i d hd hne
    cases i with
    | zero =>
      obtain rfl := Option.some.inj hd
      exact congrArg some (hanswer hne)
    | succ i => exact hrest i d hd hne

/-- The answer to one of the commands. -/
theorem Refines.answer (h : s.Refines e) {pre post : List Command} {c : Command}
    {as : List Answer} (hruns : Runs s (pre ++ c :: post) as t) (hc : ∀ name, c ≠ .describe name) :
    as[pre.length]? = some ((e.after pre).perform c).2 := by
  obtain ⟨-, -, hanswers⟩ := h.runs hruns
  rw [hanswers pre.length c (by simp) hc, EagerSession.getElem?_run]

/-- A launch that is accepted runs its kernel on what is stored at that time, and whoever
    waits for the result gets what the kernel came to. -/
theorem Refines.answer_wait (h : s.Refines e) {pre mid post : List Command} {request : Request}
    {stream pending : String} {as : List Answer}
    (hruns : Runs s (pre ++ .launch stream request pending :: (mid ++ .wait pending :: post)) as t)
    (haccepted : as[pre.length]? = some .done) (hmid : ∀ c ∈ mid, ¬c.Touches pending) :
    ∃ kernel, (e.after pre).store.kernel request = .ok kernel ∧
      as[pre.length + 1 + mid.length]? = some (.ofResult (kernel e.device.launch).result) := by
  rw [h.answer hruns (by simp)] at haccepted
  rcases (e.after pre).perform_launch stream pending request with
    ⟨error, kernel, -, hkernel, heq⟩ | ⟨-, a, hne, heq⟩
  · refine ⟨kernel, hkernel, ?_⟩
    have hpending :
        (e.after (pre ++ .launch stream request pending :: mid)).pending.get? pending =
          some (kernel e.device.launch).result := by
      rw [EagerSession.after_append, EagerSession.after, EagerSession.pending_after hmid, heq,
        Bindings.get?_put_self, EagerSession.device_after]
    have hsplit : pre ++ .launch stream request pending :: (mid ++ .wait pending :: post) =
        (pre ++ .launch stream request pending :: mid) ++ .wait pending :: post := by simp
    rw [hsplit] at hruns
    have hanswer := h.answer hruns (by simp)
    have hlength : (pre ++ .launch stream request pending :: mid).length =
        pre.length + 1 + mid.length := by
      simp only [List.length_append, List.length_cons]
      omega
    rw [hlength] at hanswer
    rw [hanswer]
    simp only [EagerSession.perform, hpending]
  · rw [heq] at haccepted
    exact absurd (Option.some.inj haccepted) hne

/-- A stream tells the first error, in the order of the launches, since it was made or
    last told one. -/
theorem Refines.answer_synchronize (h : s.Refines e) {pre mid post : List Command}
    {reset : Command} {stream : String} {as : List Answer}
    (hruns : Runs s (pre ++ reset :: (mid ++ .synchronize stream :: post)) as t)
    (hreset : reset = .openStream stream ∨
      reset = .synchronize stream ∧ as[pre.length]? ≠ some (.unknown stream))
    (hmid : ∀ c ∈ mid, ¬c.Resets stream) :
    as[pre.length + 1 + mid.length]? =
      some (.ofError ((e.after (pre ++ [reset])).failuresOf stream mid).head?) := by
  -- After the reset there is a stream, and it keeps no error.
  have hclear : (e.after (pre ++ [reset])).errors.get? stream = some none := by
    rw [EagerSession.after_append]
    rcases hreset with rfl | ⟨rfl, hknown⟩
    · exact Bindings.get?_put_self _ _ _
    · rw [h.answer hruns (by simp)] at hknown
      cases herror : (e.after pre).errors.get? stream with
      | none => exact absurd (by simp only [EagerSession.perform, herror]) hknown
      | some error => exact (EagerSession.synchronize_eq herror).2
  have herror := EagerSession.errors_after hmid hclear
  rw [Option.none_or, ← EagerSession.after_append, List.append_assoc] at herror
  have hsplit : pre ++ reset :: (mid ++ .synchronize stream :: post) =
      (pre ++ ([reset] ++ mid)) ++ .synchronize stream :: post := by simp
  rw [hsplit] at hruns
  have hanswer := h.answer hruns (by simp)
  have hlength : (pre ++ ([reset] ++ mid)).length = pre.length + 1 + mid.length := by
    simp only [List.length_append, List.length_singleton]
    omega
  rw [hlength] at hanswer
  rw [hanswer, (EagerSession.synchronize_eq herror).1]

theorem filter_zip_congr {p : Command → Bool} {cs : List Command} {as bs : List Answer}
    (has : as.length = cs.length) (hbs : bs.length = cs.length)
    (h : ∀ (i : ℕ) (c : Command), cs[i]? = some c → p c = true → as[i]? = bs[i]?) :
    (cs.zip as).filter (fun q => p q.1) = (cs.zip bs).filter fun q => p q.1 := by
  induction cs generalizing as bs with
  | nil => rfl
  | cons c cs ih =>
    obtain ⟨a, as, rfl⟩ := List.exists_cons_of_length_eq_add_one has
    obtain ⟨b, bs, rfl⟩ := List.exists_cons_of_length_eq_add_one hbs
    have hrest := ih (Nat.succ.inj has) (Nat.succ.inj hbs) fun i d hd hp => h (i + 1) d hd hp
    rw [List.zip_cons_cons, List.zip_cons_cons, List.filter_cons, List.filter_cons, hrest]
    cases hc : p c with
    | false => rfl
    | true =>
      obtain rfl := Option.some.inj (h 0 c rfl hc)
      rfl

/-- What streams tell does not depend on who waits for results or drops them. -/
theorem Refines.answers_synchronize (h : s.Refines e) {cs ds : List Command}
    {as bs : List Answer} {u : Session} (hruns : Runs s cs as t) (hruns' : Runs s ds bs u)
    (hsame : (cs.filter fun c => !c.redeems) = ds.filter fun c => !c.redeems) :
    (cs.zip as).filter (·.1.synchronizes) = (ds.zip bs).filter (·.1.synchronizes) := by
  -- Either run tells what the eager session tells without the commands that redeem.
  have heager : ∀ {cs : List Command} {as : List Answer} {t : Session}, Runs s cs as t →
      (cs.zip as).filter (·.1.synchronizes) =
        ((cs.filter fun c => !c.redeems).zip (e.run (cs.filter fun c => !c.redeems))).filter
          (·.1.synchronizes) := by
    intro cs as t hruns
    obtain ⟨-, hlength, hanswers⟩ := h.runs hruns
    have hagrees : e.Agrees e := ⟨rfl, rfl, rfl⟩
    rw [← hagrees.run_filter_redeems, List.filter_filter,
      filter_zip_congr hlength (e.length_run cs) fun i c hc hp => hanswers i c hc ?_]
    · refine List.filter_congr fun q _ => ?_
      cases hc : q.1 <;> rfl
    · rintro name rfl
      exact absurd hp (by simp [Command.synchronizes])
  rw [heager hruns, heager hruns', hsame]

/-- A selection with wrong arguments is refused at once, and leaves no trace. -/
theorem perform?_select_of_error {stream : String} {matrix bias : String} {k : ℕ}
    {pending : String} {m : Matrix Single} {b : Array Single} {error : SelectError}
    (hstream : s.streams.get? stream ≠ none) (hoperands : s.store.operands matrix bias = .ok (m, b))
    (herror : Selection.checkArguments m.ncols b.size k = .error error) :
    s.perform? (.launch stream (.select matrix bias k) pending) = some (s, .failed error) := by
  obtain ⟨u, hu⟩ := Option.ne_none_iff_exists'.1 hstream
  have hkernel : s.store.kernel (.select matrix bias k) = .error (.failed error) := by
    simp only [Store.kernel, hoperands, bind, Except.bind, herror]
    rfl
  simp only [perform?, hu, hkernel]

/-- The answers to the commands are those of the eager session. -/
structure AnswersEager (device : DeviceConfig) (cs : List Command) (as : List Answer) : Prop where
  /-- Every command is answered. -/
  length_eq : as.length = cs.length
  /-- The answers are the same, but for the descriptions of streams. -/
  same : ∀ (i : ℕ) (c : Command), cs[i]? = some c → (∀ name, c ≠ .describe name) →
    as[i]? = ((EagerSession.start device).run cs)[i]?
  /-- Whoever waits for a launch gets what its kernel comes to with what was stored when it was
      launched, whatever became of the stream. -/
  wait : ∀ pre mid post stream request pending,
    cs = pre ++ .launch stream request pending :: (mid ++ .wait pending :: post) →
    as[pre.length]? = some .done → (∀ c ∈ mid, ¬c.Touches pending) →
    ∃ kernel, ((EagerSession.start device).after pre).store.kernel request = .ok kernel ∧
      as[pre.length + 1 + mid.length]? = some (.ofResult (kernel device.launch).result)
  /-- What a stream tells that is asked for its error does not depend on who waits for results or
      drops them. -/
  unawaited : ∀ ds bs u, Runs (start device) ds bs u →
    ((cs.filter fun c => !c.redeems) = ds.filter fun c => !c.redeems) →
    (cs.zip as).filter (·.1.synchronizes) = (ds.zip bs).filter (·.1.synchronizes)
  /-- It is the first error since it was made or last asked. -/
  synchronize : ∀ pre reset mid post stream,
    cs = pre ++ reset :: (mid ++ .synchronize stream :: post) →
    (reset = .openStream stream ∨
      reset = .synchronize stream ∧ as[pre.length]? ≠ some (.unknown stream)) →
    (∀ c ∈ mid, ¬c.Resets stream) →
    as[pre.length + 1 + mid.length]? = some (.ofError
      (((EagerSession.start device).after (pre ++ [reset])).failuresOf stream mid).head?)

/-- No command waits for ever. -/
structure GoesOn (t : Session) : Prop where
  /-- When one has to wait, a worker can take a step. -/
  exists_work : ∀ c, t.perform? c = none → ∃ name u, t.work? name = some u
  /-- Every step of a worker leaves less to do. -/
  work_lt : ∀ name u, t.work? name = some u → workLeft u.streams < workLeft t.streams
  /-- All further commands can be answered. -/
  exists_runs : ∀ ds, ∃ bs u, Runs t ds bs u

/-- Wrong arguments of a selection are told at once, and kept nowhere. -/
def RefusesAtOnce (t : Session) : Prop :=
  ∀ stream matrix bias k pending m b error, t.streams.get? stream ≠ none →
    t.store.operands matrix bias = .ok (m, b) →
    Selection.checkArguments m.ncols b.size k = .error error →
    t.perform? (.launch stream (.select matrix bias k) pending) = some (t, .failed error)

/-- Streams with workers answer as if every launch ran to its end at once: whatever steps
    the workers take between the commands, all answers but the descriptions of streams are
    those of the eager session, and no command waits for ever. -/
theorem answers_eq_eager {device : DeviceConfig} {cs : List Command} {as : List Answer}
    (h : Runs (start device) cs as t) :
    AnswersEager device cs as ∧ t.GoesOn ∧ t.RefusesAtOnce := by
  have hstart := refines_start device
  obtain ⟨hrefines, hlength, hanswers⟩ := hstart.runs h
  refine ⟨⟨hlength, hanswers, ?_, ?_, ?_⟩,
    ⟨fun c => hrefines.exists_work?, fun _ _ => workLeft_of_work?, ?_⟩, ?_⟩
  · rintro pre mid post stream request pending rfl haccepted hmid
    exact hstart.answer_wait h haccepted hmid
  · intro ds bs u hruns hsame
    exact hstart.answers_synchronize h hruns hsame
  · rintro pre reset mid post stream rfl hreset hmid
    exact hstart.answer_synchronize h hreset hmid
  · intro ds
    obtain ⟨u, hu⟩ := hrefines.exists_runs ds
    exact ⟨_, u, hu⟩
  · intro stream matrix bias k pending m b error hstream hoperands herror
    exact perform?_select_of_error hstream hoperands herror

/-- The commands of a host that makes a stream, launches a kernel that fails and one that
    does not, waits for the latter and asks the stream for its error. -/
def twoLaunches : List Command :=
  [.openStream "s",
    .launch "s" (.kernel fun _ => .panicked (some "broken")) "p",
    .launch "s" (.kernel fun config => .returned (.ok (.lanes config.lanes.toNat))) "q",
    .wait "q", .synchronize "s", .synchronize "s"]

/-- The worker takes the first job while the second one is launched, and retires the
    second launch only when the error is asked for. -/
theorem runs_twoLaunches : ∃ t, Runs (start .standard) twoLaunches
    [.done, .done, .done, .outcome (.lanes 32), .failed (.launchFailed "broken"), .done] t :=
  ⟨_, .command rfl <| .command rfl <| .work (rfl : work? _ "s" = some _) <| .command rfl <|
    .work (rfl : work? _ "s" = some _) <| .work (rfl : work? _ "s" = some _) <|
    .work (rfl : work? _ "s" = some _) <| .work (rfl : work? _ "s" = some _) <|
    .command rfl <| .work (rfl : work? _ "s" = some _) <| .command rfl <| .command rfl .done⟩

theorem eager_twoLaunches : ∃ as t, Runs (start .standard) twoLaunches as t ∧
    as[3]? = some (.outcome (.lanes 32)) ∧
      as[3]? = ((EagerSession.start .standard).run twoLaunches)[3]? := by
  obtain ⟨t, h⟩ := runs_twoLaunches
  exact ⟨_, t, h, rfl, (answers_eq_eager h).1.same 3 _ rfl (by simp)⟩

end NeighborSearch.Session
