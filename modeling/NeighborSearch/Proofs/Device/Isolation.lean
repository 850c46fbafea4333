import Mathlib.Logic.Function.Basic
import NeighborSearch.Proofs.Device.Concern
import NeighborSearch.Proofs.Outcome

/-!
# Streams do not disturb each other

Take out of a session all commands that concern one stream. The session that is left *mirrors*
the whole one (`Mirrors`): its launches bear other numbers, but all other streams are in the same
state. Either session follows the other step by step: a step of another worker or a command that
is left is carried out by both (`Mirrors.work?`, `Mirrors.perform?`), and what concerns the
stream is not seen by the other session (`Mirrors.work_stream`, `Mirrors.perform_stream`). So the
commands that are left may get the same answers with the stream as without it, however much is
in flight on either (`answers_without_stream`). Two runs may differ in how far the worker of
another stream has got, though, which its description shows
(`describe_before_and_after_retiring`).
-/

namespace NeighborSearch

/-! ## Launches with other numbers -/

section Renumber

variable {α : Type}

/-- The job with another number. -/
def Job.renumber (r : ℕ → ℕ) (job : Job α) : Job α := { job with ticket := r job.ticket }

/-- The result with another number. -/
def Message.renumber (r : ℕ → ℕ) (m : Message α) : Message α := { m with ticket := r m.ticket }

/-- The worker with another number for its job. -/
def Worker.renumber (r : ℕ → ℕ) : Worker α → Worker α
  | .idle => .idle
  | .executing job => .executing (job.renumber r)
  | .retiring error => .retiring error

namespace Stream

variable {s : Stream α} {r r' : ℕ → ℕ}

/-- The stream with other numbers for its launches. -/
def renumber (r : ℕ → ℕ) (s : Stream α) : Stream α :=
  { s with queue := s.queue.map (Job.renumber r), worker := s.worker.renumber r }

theorem renumber_create (r : ℕ → ℕ) (config : LaunchConfig) :
    (create config : Stream α).renumber r = create config := rfl

theorem renumber_launch (r : ℕ → ℕ) (s : Stream α) (job : Job α) :
    (s.renumber r).launch (job.renumber r) = (s.launch job).renumber r := by
  simp only [renumber, launch, count, send, List.map_append, List.map_singleton]

/-- The worker does not look at numbers. -/
theorem work?_renumber (r : ℕ → ℕ) (s : Stream α) :
    (s.renumber r).work? = s.work?.map fun p => (p.1.renumber r, p.2.map (Message.renumber r)) := by
  obtain ⟨config, inflight, error, queue, worker⟩ := s
  cases worker with
  | idle => cases queue <;> rfl
  | executing job => rfl
  | retiring error => rfl

theorem isQuiet_renumber (r : ℕ → ℕ) (s : Stream α) : (s.renumber r).isQuiet = s.isQuiet := by
  have hleft : (s.renumber r).workLeft = s.workLeft := by
    obtain ⟨config, inflight, error, queue, worker⟩ := s
    cases worker <;> simp only [workLeft, renumber, Worker.renumber, List.length_map]
  rw [isQuiet, isQuiet, hleft]

theorem report?_renumber (r : ℕ → ℕ) (s : Stream α) :
    (s.renumber r).report? = s.report?.map fun p => (p.1, p.2.renumber r) := by
  rw [report?, report?]
  by_cases hzero : s.inflight = 0
  · rw [if_pos hzero]
    exact if_pos hzero
  · rw [if_neg hzero]
    exact if_neg hzero

theorem describe_renumber (r : ℕ → ℕ) (s : Stream α) : (s.renumber r).describe = s.describe :=
  describe_congr rfl rfl

theorem owed_renumber (r : ℕ → ℕ) (s : Stream α) :
    (s.renumber r).owed = s.owed.map (Message.renumber r) := by
  obtain ⟨config, inflight, error, queue, worker⟩ := s
  have hqueue : (queue.map (Job.renumber r)).map (·.message config) =
      (queue.map (·.message config)).map (Message.renumber r) := by
    rw [List.map_map, List.map_map]
    rfl
  cases worker <;> simp only [owed, renumber, Worker.renumber, Worker.owed, hqueue] <;> rfl

/-- Only the numbers of results that are owed matter. -/
theorem renumber_congr (h : ∀ m ∈ s.owed, r m.ticket = r' m.ticket) :
    s.renumber r = s.renumber r' := by
  obtain ⟨config, inflight, error, queue, worker⟩ := s
  have hjob : ∀ job : Job α,
      job.message config ∈ (Stream.mk config inflight error queue worker).owed →
      job.renumber r = job.renumber r' := fun job hm =>
    congrArg (fun n => Job.mk n job.kernel) (h _ hm)
  have hqueue : queue.map (Job.renumber r) = queue.map (Job.renumber r') :=
    List.map_congr_left fun job hm =>
      hjob job (List.mem_append_right _ (List.mem_map_of_mem hm))
  have hworker : worker.renumber r = worker.renumber r' := by
    cases worker with
    | executing job =>
      exact congrArg _ (hjob job (List.mem_append_left _ (List.mem_singleton_self _)))
    | idle | retiring error => rfl
  rw [renumber, renumber, hqueue, hworker]

end Stream

end Renumber

/-! ## Mirrored sessions -/

namespace Session

variable {s s' t t' : Session} {e f : EagerSession} {stream name : String} {results : List String}
  {r : ℕ → ℕ}

/-- The session `t` is in the state of `s`, but for a stream that it does not have and results
    of some names. Its launch `n` is the launch `r n` of `s`, and not one on that stream. -/
structure Mirrors (stream : String) (results : List String) (r : ℕ → ℕ) (s t : Session) :
    Prop where
  device : s.device = t.device
  store : s.store = t.store
  streams : ∀ name, name ≠ stream →
    s.streams.get? name = (t.streams.get? name).map (Stream.renumber r)
  gone : t.streams.get? stream = none
  pending : ∀ name, name ∉ results → s.pending.get? name = (t.pending.get? name).map r
  delivered : ∀ n < t.nextTicket, s.result? (r n) = t.result? n
  issued : ∀ n < t.nextTicket, r n < s.nextTicket
  injective : ∀ m < t.nextTicket, ∀ n < t.nextTicket, r m = r n → m = n
  apart : ∀ m ∈ s.owedOn stream, ∀ n < t.nextTicket, r n ≠ m.ticket
  foreign : ∀ name ∈ results, ∀ ticket, s.pending.get? name = some ticket →
    ∀ n < t.nextTicket, r n ≠ ticket

theorem mirrors_start (stream : String) (results : List String) (device : DeviceConfig) :
    Mirrors stream results id (start device) (start device) where
  device := rfl
  store := rfl
  streams _ _ := rfl
  gone := rfl
  pending _ _ := rfl
  delivered _ _ := rfl
  issued _ h := h
  injective _ _ _ _ h := h
  apart _ h := absurd h List.not_mem_nil
  foreign _ _ _ h := absurd h (by simp [start, Bindings.get?])

/-- Nothing has been delivered for a launch that is yet to be made. -/
theorem Refines.result?_nextTicket (h : s.Refines e) : s.result? s.nextTicket = none := by
  rw [Session.result?, Option.map_eq_none_iff, List.find?_eq_none]
  intro m hm hticket
  exact absurd (of_decide_eq_true hticket) (Nat.ne_of_lt (h.fresh m (.inl hm)))

/-- The result of a launch after a step of a worker, which may have delivered it. -/
theorem result?_deliver (s : Session) (streams : Bindings (Stream Outcome))
    (message : Option (Message Outcome)) (ticket : ℕ) :
    { s with streams, delivered := message.toList ++ s.delivered }.result? ticket =
      ((message.filter (·.ticket = ticket)).map (·.result)).or (s.result? ticket) := by
  cases message with
  | none => rfl
  | some m =>
    rw [result?, Option.toList_some, List.singleton_append, List.find?_cons, Option.filter_some]
    split
    case h_1 heq => rw [heq]; rfl
    case h_2 heq => rw [heq]; rfl

namespace Mirrors

/-! ### Workers -/

/-- A worker of another stream takes the same step in both sessions. -/
theorem work? (h : Mirrors stream results r s t) (ht : t.Refines f) (hname : name ≠ stream) :
    Option.Rel (Mirrors stream results r) (s.work? name) (t.work? name) := by
  have hstream := h.streams name hname
  rw [Session.work?, Session.work?, hstream]
  cases hbefore : t.streams.get? name with
  | none => exact .none
  | some before =>
    rw [Option.map_some]
    simp only [Option.bind_eq_bind, Option.bind_some, Stream.work?_renumber]
    cases hstep : before.work? with
    | none => exact .none
    | some p =>
      obtain ⟨after, message⟩ := p
      -- What the worker delivers bears a number that has been given out.
      have hfresh : ∀ m ∈ message, m.ticket < t.nextTicket := by
        rintro m rfl
        refine ht.fresh m (.inr ⟨name, ?_⟩)
        rw [owedOn, hbefore, Option.map_some, Option.getD_some, ← Stream.work?_owed hstep]
        exact List.mem_append_left _ (List.mem_singleton_self m)
      refine .some ⟨h.device, h.store, fun other hother => ?_, ?_, h.pending, fun n hn => ?_,
        h.issued, h.injective, fun m hm => h.apart m ?_, h.foreign⟩
      · rw [Bindings.get?_put, Bindings.get?_put]
        split
        · rfl
        · exact h.streams other hother
      · exact (Bindings.get?_put_of_ne hname.symm _ _).trans h.gone
      · refine (result?_deliver _ _ _ _).trans ((result?_deliver _ _ _ _).trans ?_).symm
        rw [h.delivered n hn]
        cases message with
        | none => rfl
        | some m =>
          have hiff : (m.renumber r).ticket = r n ↔ m.ticket = n :=
            ⟨h.injective _ (hfresh m rfl) n hn, congrArg r⟩
          simp only [Option.map_some, Option.filter_some, hiff]
          split <;> rfl
      · rw [owedOn, Bindings.get?_put_of_ne hname.symm] at hm
        exact hm

/-- What the worker of the stream does is not seen. -/
theorem work_stream (h : Mirrors stream results r s t) (hwork : s.work? stream = some s') :
    Mirrors stream results r s' t := by
  obtain ⟨before, after, message, hbefore, hstep, rfl⟩ := work?_eq_some hwork
  have howed := Stream.work?_owed hstep
  have hon : s.owedOn stream = before.owed := by rw [owedOn, hbefore]; rfl
  refine ⟨h.device, h.store, fun other hother => ?_, h.gone, h.pending, fun n hn => ?_, h.issued,
    h.injective, fun m hm => h.apart m ?_, h.foreign⟩
  · exact (Bindings.get?_put_of_ne hother _ _).trans (h.streams other hother)
  · rw [result?_deliver, ← h.delivered n hn]
    cases message with
    | none => rfl
    | some m =>
      have hm : m ∈ s.owedOn stream :=
        hon ▸ howed ▸ List.mem_append_left _ (List.mem_singleton_self m)
      have hne : m.ticket ≠ r n := (h.apart m hm n hn).symm
      simp [Option.filter_some, hne]
  · rw [owedOn, Bindings.get?_put_self] at hm
    exact hon ▸ howed ▸ List.mem_append_right _ hm

/-! ### Commands -/

/-- In both sessions a stream is replaced by the same one. -/
theorem put (h : Mirrors stream results r s t) (hname : name ≠ stream) (after : Stream Outcome) :
    Mirrors stream results r { s with streams := s.streams.put name (after.renumber r) }
      { t with streams := t.streams.put name after } := by
  refine ⟨h.device, h.store, fun other hother => ?_, ?_, h.pending, h.delivered, h.issued,
    h.injective, fun m hm => h.apart m ?_, h.foreign⟩
  · rw [Bindings.get?_put, Bindings.get?_put]
    split
    · rfl
    · exact h.streams other hother
  · exact (Bindings.get?_put_of_ne hname.symm _ _).trans h.gone
  · rw [owedOn, Bindings.get?_put_of_ne hname.symm] at hm
    exact hm

theorem erase (h : Mirrors stream results r s t) (hname : name ≠ stream) :
    Mirrors stream results r { s with streams := s.streams.erase name }
      { t with streams := t.streams.erase name } := by
  refine ⟨h.device, h.store, fun other hother => ?_, ?_, h.pending, h.delivered, h.issued,
    h.injective, fun m hm => h.apart m ?_, h.foreign⟩
  · rw [Bindings.get?_erase, Bindings.get?_erase]
    split
    · rfl
    · exact h.streams other hother
  · exact (Bindings.get?_erase_of_ne hname.symm _).trans h.gone
  · rw [owedOn, Bindings.get?_erase_of_ne hname.symm] at hm
    exact hm

theorem erasePending (h : Mirrors stream results r s t) (name : String) :
    Mirrors stream results r { s with pending := s.pending.erase name }
      { t with pending := t.pending.erase name } := by
  refine ⟨h.device, h.store, h.streams, h.gone, fun other hother => ?_, h.delivered, h.issued,
    h.injective, h.apart, fun other hother ticket hticket =>
      h.foreign other hother ticket (Bindings.get?_erase_eq_some_iff.1 hticket).2⟩
  rw [Bindings.get?_erase, Bindings.get?_erase]
  split
  · rfl
  · exact h.pending other hother

/-- The next launches of both sessions bear numbers of each other. -/
theorem launch (h : Mirrors stream results r s t) (hs : s.Refines e) (ht : t.Refines f)
    (hname : name ≠ stream) {before : Stream Outcome} (hbefore : t.streams.get? name = some before)
    (kernel : Kernel Outcome) {pending : String} (hpending : pending ∉ results) :
    Mirrors stream results (Function.update r t.nextTicket s.nextTicket)
      (s.launch name (before.renumber r) kernel pending) (t.launch name before kernel pending) := by
  have hself : Function.update r t.nextTicket s.nextTicket t.nextTicket = s.nextTicket :=
    Function.update_self _ _ _
  have hold : ∀ n < t.nextTicket, Function.update r t.nextTicket s.nextTicket n = r n :=
    fun n hn => Function.update_of_ne (Nat.ne_of_lt hn) _ _
  have hstreams : ∀ other before, t.streams.get? other = some before →
      before.renumber r = before.renumber (Function.update r t.nextTicket s.nextTicket) := by
    intro other before hbefore
    refine Stream.renumber_congr fun m hm => (hold _ (ht.fresh m (.inr ⟨other, ?_⟩))).symm
    rw [owedOn, hbefore]
    exact hm
  -- Numbers below the last one have been given out before.
  have hcases : ∀ {n}, n < t.nextTicket + 1 → n < t.nextTicket ∨ n = t.nextTicket := fun hn =>
    Nat.lt_succ_iff_lt_or_eq.1 hn
  refine ⟨h.device, h.store, fun other hother => ?_, ?_, fun other hother => ?_, fun n hn => ?_,
    fun n hn => ?_, fun m hm n hn hmn => ?_, fun m hm n hn => ?_,
    fun other hother ticket hticket n hn => ?_⟩
  · rw [Session.launch, Session.launch, Bindings.get?_put, Bindings.get?_put]
    split
    · rw [Option.map_some, hstreams name before hbefore, ← Stream.renumber_launch, Job.renumber,
        hself]
    · rw [h.streams other hother]
      cases hfound : t.streams.get? other with
      | none => rfl
      | some found => rw [Option.map_some, Option.map_some, hstreams other found hfound]
  · exact (Bindings.get?_put_of_ne hname.symm _ _).trans h.gone
  · rw [Session.launch, Session.launch, Bindings.get?_put, Bindings.get?_put]
    split
    · rw [Option.map_some, hself]
    · rw [h.pending other hother]
      cases hfound : t.pending.get? other with
      | none => rfl
      | some ticket =>
        obtain ⟨result, -, hpromise⟩ := ht.named other ticket hfound
        rw [Option.map_some, Option.map_some, hold ticket (ht.fresh _ hpromise)]
  · rcases hcases hn with hn | rfl
    · rw [hold n hn]
      exact h.delivered n hn
    · rw [hself]
      exact hs.result?_nextTicket.trans ht.result?_nextTicket.symm
  · rcases hcases hn with hn | rfl
    · rw [hold n hn]
      exact Nat.lt_succ_of_lt (h.issued n hn)
    · rw [hself]
      exact Nat.lt_succ_self _
  · rcases hcases hm with hm | rfl <;> rcases hcases hn with hn | rfl
    · rw [hold m hm, hold n hn] at hmn
      exact h.injective m hm n hn hmn
    · rw [hold m hm, hself] at hmn
      exact absurd hmn (Nat.ne_of_lt (h.issued m hm))
    · rw [hold n hn, hself] at hmn
      exact absurd hmn (Nat.ne_of_gt (h.issued n hn))
    · rfl
  · rw [owedOn, Session.launch, Bindings.get?_put_of_ne hname.symm] at hm
    rcases hcases hn with hn | rfl
    · rw [hold n hn]
      exact h.apart m hm n hn
    · rw [hself]
      exact (Nat.ne_of_lt (hs.fresh m (.inr ⟨stream, hm⟩))).symm
  · rw [Session.launch, Bindings.get?_put] at hticket
    split at hticket
    case isTrue heq => exact absurd (heq ▸ hother) hpending
    case isFalse =>
      rcases hcases hn with hn | rfl
      · rw [hold n hn]
        exact h.foreign other hother ticket hticket n hn
      · obtain ⟨result, -, hpromise⟩ := hs.named other ticket hticket
        rw [hself]
        exact (Nat.ne_of_lt (hs.fresh _ hpromise)).symm

/-- A command that does not concern the stream is carried out alike in both sessions, or has to
    wait in both. -/
theorem perform? (h : Mirrors stream results r s t) (hs : s.Refines e) (ht : t.Refines f)
    {c : Command} (hc : c.concerns stream results = false)
    (hspares : c.Spares stream results) :
    Option.Rel (fun p q => (∃ r', Mirrors stream results r' p.1 q.1) ∧ p.2 = q.2)
      (s.perform? c) (t.perform? c) := by
  -- Any stream that the command addresses is another one.
  have hother : ∀ {name}, c.addresses stream = false → c.addresses name = true → name ≠ stream := by
    rintro name hfalse htrue rfl
    exact absurd (htrue.symm.trans hfalse) (by simp)
  cases c with
  | store c =>
    refine .some ⟨⟨r, h.device, ?_, h.streams, h.gone, h.pending, h.delivered, h.issued,
      h.injective, h.apart, h.foreign⟩, ?_⟩
    · simp only [performStore, h.store, h.device]
    · simp only [performStore, h.store, h.device]
  | openStream name =>
    have hname : name ≠ stream := hother hc (beq_self_eq_true name)
    have hstream := h.streams name hname
    have hput := h.put hname (.create t.device.launch)
    rw [Stream.renumber_create, ← h.device] at hput
    simp only [Session.perform?, hstream]
    cases hold : t.streams.get? name with
    | none => exact .some ⟨⟨r, h.device ▸ hput⟩, rfl⟩
    | some old =>
      simp only [Option.map_some, Stream.isQuiet_renumber]
      split
      · exact .some ⟨⟨r, h.device ▸ hput⟩, rfl⟩
      · exact .none
  | closeStream name =>
    have hname : name ≠ stream := hother hc (beq_self_eq_true name)
    simp only [Session.perform?, h.streams name hname]
    cases hold : t.streams.get? name with
    | none => exact .some ⟨⟨r, h⟩, rfl⟩
    | some old =>
      simp only [Option.map_some, Stream.isQuiet_renumber]
      split
      · exact .some ⟨⟨r, h.erase hname⟩, rfl⟩
      · exact .none
  | launch name request pending =>
    have hname : name ≠ stream := hother hc (beq_self_eq_true name)
    simp only [Session.perform?, h.streams name hname, h.store]
    cases hbefore : t.streams.get? name with
    | none => exact .some ⟨⟨r, h⟩, rfl⟩
    | some before =>
      simp only [Option.map_some]
      split
      · exact .some ⟨⟨r, h⟩, rfl⟩
      · exact .some ⟨⟨_, h.launch hs ht hname hbefore _ (hspares hname)⟩, rfl⟩
  | wait name =>
    have hname : name ∉ results := by simpa [Command.concerns] using hc
    have hpending := h.pending name hname
    cases hticket : t.pending.get? name with
    | none =>
      rw [hticket, Option.map_none] at hpending
      simp only [Session.perform?, hpending, hticket]
      exact .some ⟨⟨r, h⟩, rfl⟩
    | some n =>
      rw [hticket, Option.map_some] at hpending
      obtain ⟨result, -, hpromise⟩ := ht.named name n hticket
      have hresult := h.delivered n (ht.fresh _ hpromise)
      simp only [Session.perform?, hpending, hticket, hresult]
      cases hdelivered : t.result? n with
      | none =>
        -- Both sessions wait until the result is delivered.
        simp only [hs.owes_of_result?_eq_none hpending (hresult.trans hdelivered),
          ht.owes_of_result?_eq_none hticket hdelivered, if_true]
        exact .none
      | some result => exact .some ⟨⟨r, h.erasePending name⟩, rfl⟩
  | forget name =>
    have hname : name ∉ results := by simpa [Command.concerns] using hc
    simp only [Session.perform?, h.pending name hname]
    cases t.pending.get? name with
    | none => exact .some ⟨⟨r, h⟩, rfl⟩
    | some n => exact .some ⟨⟨r, h.erasePending name⟩, rfl⟩
  | synchronize name =>
    have hname : name ≠ stream := hother hc (beq_self_eq_true name)
    simp only [Session.perform?, h.streams name hname]
    cases hbefore : t.streams.get? name with
    | none => exact .some ⟨⟨r, h⟩, rfl⟩
    | some before =>
      simp only [Option.map_some, Stream.report?_renumber]
      cases before.report? with
      | none => exact .none
      | some p => exact .some ⟨⟨r, h.put hname p.2⟩, rfl⟩
  | describe name =>
    have hname : name ≠ stream := hother hc (beq_self_eq_true name)
    simp only [Session.perform?, h.streams name hname]
    cases t.streams.get? name with
    | none => exact .some ⟨⟨r, h⟩, rfl⟩
    | some before => exact .some ⟨⟨r, h⟩, by rw [Stream.describe_renumber]⟩

/-- The stream itself is not seen. -/
theorem put_stream (h : Mirrors stream results r s t) {after : Stream Outcome}
    (howed : ∀ m ∈ after.owed, m ∈ s.owedOn stream) :
    Mirrors stream results r { s with streams := s.streams.put stream after } t := by
  refine ⟨h.device, h.store, fun other hother => ?_, h.gone, h.pending, h.delivered, h.issued,
    h.injective, fun m hm => h.apart m ?_, h.foreign⟩
  · exact (Bindings.get?_put_of_ne hother _ _).trans (h.streams other hother)
  · rw [owedOn, Bindings.get?_put_self] at hm
    exact howed m hm

theorem erase_stream (h : Mirrors stream results r s t) :
    Mirrors stream results r { s with streams := s.streams.erase stream } t := by
  refine ⟨h.device, h.store, fun other hother => ?_, h.gone, h.pending, h.delivered, h.issued,
    h.injective, fun m hm => absurd hm ?_, h.foreign⟩
  · exact (Bindings.get?_erase_of_ne hother _).trans (h.streams other hother)
  · rw [owedOn, Bindings.get?_erase_self]
    exact List.not_mem_nil

/-- Nor are its results. -/
theorem erase_result (h : Mirrors stream results r s t) (hname : name ∈ results) :
    Mirrors stream results r { s with pending := s.pending.erase name } t := by
  refine ⟨h.device, h.store, h.streams, h.gone, fun other hother => ?_, h.delivered, h.issued,
    h.injective, h.apart, fun other hother ticket hticket =>
      h.foreign other hother ticket (Bindings.get?_erase_eq_some_iff.1 hticket).2⟩
  exact (Bindings.get?_erase_of_ne (ne_of_mem_of_not_mem hname hother).symm _).trans
    (h.pending other hother)

/-- A launch on the stream bears a number that no launch of the other session has. -/
theorem launch_stream (h : Mirrors stream results r s t) {before : Stream Outcome}
    (hbefore : s.streams.get? stream = some before) (kernel : Kernel Outcome) {pending : String}
    (hpending : pending ∈ results) :
    Mirrors stream results r (s.launch stream before kernel pending) t := by
  refine ⟨h.device, h.store, fun other hother => ?_, h.gone, fun other hother => ?_, h.delivered,
    fun n hn => Nat.lt_succ_of_lt (h.issued n hn), h.injective, fun m hm n hn => ?_,
    fun other hother ticket hticket n hn => ?_⟩
  · exact (Bindings.get?_put_of_ne hother _ _).trans (h.streams other hother)
  · exact (Bindings.get?_put_of_ne (ne_of_mem_of_not_mem hpending hother).symm _ _).trans
      (h.pending other hother)
  · rw [owedOn, Session.launch, Bindings.get?_put_self, Option.map_some, Option.getD_some,
      Stream.owed_launch, List.mem_append, List.mem_singleton] at hm
    rcases hm with hm | rfl
    · refine h.apart m ?_ n hn
      rw [owedOn, hbefore]
      exact hm
    · exact Nat.ne_of_lt (h.issued n hn)
  · rw [Session.launch, Bindings.get?_put] at hticket
    split at hticket
    case isTrue =>
      obtain rfl := Option.some.inj hticket
      exact Nat.ne_of_lt (h.issued n hn)
    case isFalse => exact h.foreign other hother ticket hticket n hn

/-- A command that concerns the stream is not seen by the other session. -/
theorem perform_stream (h : Mirrors stream results r s t) (hs : s.Refines e) {c : Command}
    (hc : c.concerns stream results = true) {a : Answer} (hperform : s.perform? c = some (s', a))
    (hresult : ∀ name ∈ resultName? stream (c, a), name ∈ results) :
    Mirrors stream results r s' t := by
  cases performed_of_perform? hperform with
  | stored c => exact absurd hc (by simp [Command.concerns, Command.addresses])
  | opened name =>
    obtain rfl : name = stream := eq_of_beq hc
    exact h.put_stream fun m hm => absurd hm List.not_mem_nil
  | closed name =>
    obtain rfl : name = stream := eq_of_beq hc
    exact h.erase_stream
  | @launched name request pending before kernel hbefore =>
    obtain rfl : name = stream := eq_of_beq hc
    exact h.launch_stream hbefore kernel (hresult pending (by simp [resultName?]))
  | redeemed hredeems =>
    refine h.erase_result ?_
    rcases hredeems with rfl | rfl <;> simpa [Command.concerns] using hc
  | @synchronized name before after error a hbefore hreport =>
    obtain rfl : name = stream := eq_of_beq hc
    obtain ⟨-, -, howed, -⟩ := (hs.sound name before hbefore).report? hreport
    refine h.put_stream fun m hm => ?_
    rw [howed] at hm
    rw [owedOn, hbefore]
    exact hm
  | unchanged => exact h

/-! ### Runs -/

/-- Whatever answers the whole session gives, the session without the stream may give as well. -/
theorem exists_runs_without (h : Mirrors stream results r s t) (hs : s.Refines e)
    (ht : t.Refines f) {cs : List Command} {as : List Answer}
    (hnames : ∀ name ∈ resultNames stream cs (e.run cs), name ∈ results)
    (hspares : ∀ c ∈ cs, c.Spares stream results)
    (hruns : Runs s cs as s') :
    ∃ t', Runs t (withoutStream stream results cs) (answersWithout stream results cs as) t' := by
  induction hruns generalizing t e f r with
  | done => exact ⟨t, .done⟩
  | @work s s₁ s' name cs as hwork _ ih =>
    by_cases hname : name = stream
    · subst hname
      exact ih (h.work_stream hwork) (hs.work? hwork) ht hnames hspares
    · obtain ⟨t₁, hwork', hmirrors⟩ := exists_of_rel_left (h.work? ht hname) hwork
      obtain ⟨t', hruns'⟩ := ih hmirrors (hs.work? hwork) (ht.work? hwork') hnames hspares
      exact ⟨t', .work hwork' hruns'⟩
  | @command s s₁ s' c a cs as hperform _ ih =>
    obtain ⟨hs₁, hanswer⟩ := hs.perform? hperform
    rw [EagerSession.run, resultNames_cons, ← resultName?_congr hanswer] at hnames
    have hnames' : ∀ name ∈ resultNames stream cs ((e.perform c).1.run cs), name ∈ results :=
      fun name hname => hnames name (List.mem_append_right _ hname)
    have hspares' : ∀ c ∈ cs, c.Spares stream results := fun c hmem =>
      hspares c (List.mem_cons_of_mem _ hmem)
    cases hc : c.concerns stream results with
    | true =>
      rw [withoutStream_cons_of_concerns hc, answersWithout_cons_of_concerns hc]
      refine ih (h.perform_stream hs hc hperform fun name hname => hnames name ?_) hs₁ ht hnames'
        hspares'
      exact List.mem_append_left _ (Option.mem_toList.2 hname)
    | false =>
      rw [withoutStream_cons hc, answersWithout_cons hc]
      obtain ⟨⟨t₁, a'⟩, hperform', ⟨r', hmirrors⟩, rfl⟩ :=
        exists_of_rel_left (h.perform? hs ht hc (hspares c List.mem_cons_self)) hperform
      obtain ⟨t', hruns'⟩ := ih hmirrors hs₁ (ht.perform? hperform').1 hnames' hspares'
      exact ⟨t', .command hperform' hruns'⟩

/-- Where the whole session has to wait for the stream, the worker of the stream has a step to
    take. -/
theorem exists_work_stream (h : Mirrors stream results r s t) (hs : s.Refines e)
    (ht : t.Refines f) {c : Command} (hc : c.concerns stream results = true)
    (hblocked : s.perform? c = none) : ∃ s', s.work? stream = some s' := by
  rcases hs.perform?_eq_none hblocked with
    ⟨name, busy, hresets, hbusy, hquiet⟩ | ⟨name, ticket, rfl, hticket, hmissing⟩
  · obtain rfl := c.eq_of_resets hc hresets
    exact exists_work?_of_isQuiet hbusy hquiet
  · have hname : name ∈ results := by simpa [Command.concerns] using hc
    obtain ⟨result, -, hpromise⟩ := hs.named name ticket hticket
    obtain ⟨other, owing, howing, hm⟩ := exists_stream_of_result?_eq_none hpromise hmissing
    by_cases hother : other = stream
    · subst hother
      exact exists_work?_of_isQuiet howing (Stream.isQuiet_of_mem_owed hm)
    · -- What another stream owes bears a number of the other session.
      rw [h.streams other hother] at howing
      obtain ⟨before, hbefore, rfl⟩ := Option.map_eq_some_iff.1 howing
      rw [Stream.owed_renumber] at hm
      obtain ⟨m, hm, heq⟩ := List.mem_map.1 hm
      have hfresh := ht.fresh m (.inr ⟨other, by rw [owedOn, hbefore]; exact hm⟩)
      exact absurd (congrArg Message.ticket heq) (h.foreign name hname ticket hticket _ hfresh)

/-- What concerns the stream can be carried out in the end without a step of another worker. -/
theorem exists_perform_stream (h : Mirrors stream results r s t) (hs : s.Refines e)
    (ht : t.Refines f) {c : Command} (hc : c.concerns stream results = true)
    (hresult : ∀ name ∈ resultName? stream (c, (e.perform c).2), name ∈ results) :
    ∃ s' a, Mirrors stream results r s' t ∧ s'.Refines (e.perform c).1 ∧
      ∀ cs as u, Runs s' cs as u → Runs s (c :: cs) (a :: as) u := by
  induction hleft : workLeft s.streams using Nat.strongRecOn generalizing s with
  | ind n ih =>
    cases hperform : s.perform? c with
    | some p =>
      obtain ⟨s', a⟩ := p
      obtain ⟨hs', hanswer⟩ := hs.perform? hperform
      rw [← resultName?_congr hanswer] at hresult
      exact ⟨s', a, h.perform_stream hs hc hperform hresult, hs', fun cs as u => .command hperform⟩
    | none =>
      obtain ⟨s₁, hwork⟩ := h.exists_work_stream hs ht hc hperform
      obtain ⟨s', a, hmirrors, hs', hruns⟩ := ih _ (hleft ▸ workLeft_of_work? hwork)
        (h.work_stream hwork) (hs.work? hwork) rfl
      exact ⟨s', a, hmirrors, hs', fun cs as u hu => .work hwork (hruns cs as u hu)⟩

/-- A command that does not concern the stream is carried out by the whole session, after the
    same steps of the workers, with the same answer. -/
theorem exists_perform (h : Mirrors stream results r s t) (hs : s.Refines e) (ht : t.Refines f)
    {c : Command} {ds : List Command} {bs : List Answer}
    (hc : c.concerns stream results = false)
    (hspares : c.Spares stream results)
    (hruns : Runs t (c :: ds) bs t') :
    ∃ r' s₁ t₁ a bs', bs = a :: bs' ∧ Mirrors stream results r' s₁ t₁ ∧
      s₁.Refines (e.perform c).1 ∧ t₁.Refines (f.perform c).1 ∧ Runs t₁ ds bs' t' ∧
      ∀ cs as u, Runs s₁ cs as u → Runs s (c :: cs) (a :: as) u := by
  generalize hcs : c :: ds = cs at hruns
  induction hruns generalizing s r with
  | done => exact absurd hcs (by simp)
  | @work t t₁ t' name cs as hwork _ ih =>
    have hname : name ≠ stream := by
      rintro rfl
      obtain ⟨before, -, -, hbefore, -⟩ := work?_eq_some hwork
      exact absurd (hbefore.symm.trans h.gone) (by simp)
    obtain ⟨s₁, hwork', hmirrors⟩ := exists_of_rel_right (h.work? ht hname) hwork
    obtain ⟨r', s₂, t₂, a, bs', heq, hmirrors, hs₂, ht₂, hrest, hruns⟩ :=
      ih hmirrors (hs.work? hwork') (ht.work? hwork) hcs
    exact ⟨r', s₂, t₂, a, bs', heq, hmirrors, hs₂, ht₂, hrest,
      fun cs as u hu => .work hwork' (hruns cs as u hu)⟩
  | @command t t₁ t' c' a cs as hperform hrest _ =>
    obtain ⟨rfl, rfl⟩ := List.cons.inj hcs
    obtain ⟨⟨s₁, a'⟩, hperform', ⟨r', hmirrors⟩, rfl⟩ :=
      exists_of_rel_right (h.perform? hs ht hc hspares) hperform
    exact ⟨r', s₁, t₁, a', as, rfl, hmirrors, (hs.perform? hperform').1, (ht.perform? hperform).1,
      hrest, fun cs as u => .command hperform'⟩

/-- Whatever answers the session without the stream gives, the whole session may give as well. -/
theorem exists_runs_with (h : Mirrors stream results r s t) (hs : s.Refines e) (ht : t.Refines f)
    {cs : List Command} {bs : List Answer}
    (hnames : ∀ name ∈ resultNames stream cs (e.run cs), name ∈ results)
    (hspares : ∀ c ∈ cs, c.Spares stream results)
    (hruns : Runs t (withoutStream stream results cs) bs t') :
    ∃ as s', Runs s cs as s' ∧ answersWithout stream results cs as = bs := by
  induction cs generalizing s t e f r bs with
  | nil =>
    obtain ⟨-, hlength, -⟩ := ht.runs hruns
    exact ⟨[], s, .done, (List.length_eq_zero_iff.1 hlength).symm⟩
  | cons c cs ih =>
    rw [EagerSession.run, resultNames_cons] at hnames
    have hnames' : ∀ name ∈ resultNames stream cs ((e.perform c).1.run cs), name ∈ results :=
      fun name hname => hnames name (List.mem_append_right _ hname)
    have hspares' : ∀ c ∈ cs, c.Spares stream results := fun c hmem =>
      hspares c (List.mem_cons_of_mem _ hmem)
    cases hc : c.concerns stream results with
    | true =>
      rw [withoutStream_cons_of_concerns hc] at hruns
      obtain ⟨s₁, a, hmirrors, hs₁, hfirst⟩ := h.exists_perform_stream hs ht hc fun name hname =>
        hnames name (List.mem_append_left _ (Option.mem_toList.2 hname))
      obtain ⟨as, s', hruns', rfl⟩ := ih hmirrors hs₁ ht hnames' hspares' hruns
      exact ⟨a :: as, s', hfirst cs as s' hruns', answersWithout_cons_of_concerns hc⟩
    | false =>
      rw [withoutStream_cons hc] at hruns
      obtain ⟨r', s₁, t₁, a, bs', rfl, hmirrors, hs₁, ht₁, hrest, hfirst⟩ :=
        h.exists_perform hs ht hc (hspares c List.mem_cons_self) hruns
      obtain ⟨as, s', hruns', rfl⟩ := ih hmirrors hs₁ ht₁ hnames' hspares' hrest
      exact ⟨a :: as, s', hfirst cs as s' hruns', answersWithout_cons hc⟩

end Mirrors

/-! ## Sessions without a stream -/

/-- Take out of a session all commands that concern one stream: those that address it, and those
    that wait for results of its launches or drop them. Whatever steps the workers take in either
    session, the commands that are left get the answers that they got before, but for
    descriptions of streams with launches that may still be in flight.

    Those tell how far a worker has got, so they may differ from one run to the next. If the
    names of the results are used on no other stream, then they do not depend on the stream
    either: the answers that the commands may get are the same with the stream and without
    it. -/
theorem answers_without_stream {device : DeviceConfig} {cs : List Command} {as : List Answer}
    (h : Runs (start device) cs as t) (stream : String) :
    (∀ bs u, Runs (start device) (withoutStream stream (resultNames stream cs as) cs) bs u →
      bs.length = (withoutStream stream (resultNames stream cs as) cs).length ∧
      (answersWithout stream (resultNames stream cs as) cs as).length = bs.length ∧
      ∀ (i : ℕ) (c : Command),
        (withoutStream stream (resultNames stream cs as) cs)[i]? = some c →
        (c.Settled fun name => Command.restsAfter name
          ((withoutStream stream (resultNames stream cs as) cs).take i)) →
        (answersWithout stream (resultNames stream cs as) cs as)[i]? = bs[i]?) ∧
    ((∀ c ∈ cs, c.Spares stream (resultNames stream cs as)) →
      ∀ bs, (∃ u, Runs (start device) (withoutStream stream (resultNames stream cs as) cs) bs u) ↔
        ∃ as' u, Runs (start device) cs as' u ∧
          answersWithout stream (resultNames stream cs as) cs as' = bs) := by
  have hrefines := refines_start device
  refine ⟨fun bs u hwithout => ?_, fun hspares bs => ⟨?_, ?_⟩⟩
  · have hsame := sameAtRest_withoutStream h stream hwithout
    refine ⟨hsame.symm.length_eq, hsame.length_eq.trans hsame.symm.length_eq.symm, ?_⟩
    exact fun i c hc hsettled => hsame.getElem?_eq hc hsettled
  all_goals
    -- Which launches are accepted does not depend on the steps of the workers.
    have hnames : ∀ name ∈ resultNames stream cs ((EagerSession.start device).run cs),
        name ∈ resultNames stream cs as := by
      rw [(hrefines.sameAtRest (restsWhere_start device fun _ => true) h).resultNames_eq stream]
      exact fun name hname => hname
    have hmirrors := mirrors_start stream (resultNames stream cs as) device
  · rintro ⟨u, hwithout⟩
    exact hmirrors.exists_runs_with hrefines hrefines hnames hspares hwithout
  · rintro ⟨as', u, hruns, rfl⟩
    exact hmirrors.exists_runs_without hrefines hrefines hnames hspares hruns

/-- The commands of a host with a stream whose only launch breaks off, and another one. -/
def twoStreams : List Command :=
  [.openStream "s", .openStream "q",
    .launch "s" (.kernel fun _ => .panicked (some "broken")) "p",
    .launch "q" (.kernel fun config => .returned (.ok (.lanes config.lanes.toNat))) "r",
    .wait "p", .synchronize "s", .wait "r", .synchronize "q"]

theorem runs_twoStreams : ∃ t, Runs (start .standard) twoStreams
    [.done, .done, .done, .done, .failed (.launchFailed "broken"), .failed (.launchFailed "broken"),
      .outcome (.lanes 32), .done] t :=
  ⟨_, .command rfl <| .command rfl <| .command rfl <| .work (rfl : work? _ "s" = some _) <|
    .command rfl <| .work (rfl : work? _ "q" = some _) <| .work (rfl : work? _ "s" = some _) <|
    .command rfl <| .work (rfl : work? _ "s" = some _) <| .command rfl <|
    .work (rfl : work? _ "q" = some _) <| .command rfl <| .work (rfl : work? _ "q" = some _) <|
    .command rfl .done⟩

/-- Without the failing stream the other one answers the same. -/
theorem twoStreams_without_failing : ∃ as t, Runs (start .standard) twoStreams as t ∧
    resultNames "s" twoStreams as = ["p"] ∧
    withoutStream "s" ["p"] twoStreams = [.openStream "q",
      .launch "q" (.kernel fun config => .returned (.ok (.lanes config.lanes.toNat))) "r",
      .wait "r", .synchronize "q"] ∧
    ∀ bs u, Runs (start .standard) (withoutStream "s" ["p"] twoStreams) bs u →
      bs[2]? = some (.outcome (.lanes 32)) := by
  obtain ⟨t, h⟩ := runs_twoStreams
  refine ⟨_, t, h, rfl, rfl, fun bs u hwithout => ?_⟩
  obtain ⟨-, -, hanswers⟩ := (answers_without_stream h "s").1 bs u hwithout
  exact (hanswers 2 (.wait "r") rfl trivial).symm

/-- The commands of a host that makes two streams, and describes one of them after a launch. -/
def describedInFlight : List Command :=
  [.openStream "s", .openStream "q",
    .launch "q" (.kernel fun config => .returned (.ok (.lanes config.lanes.toNat))) "r",
    .describe "q"]

/-- What the host is told of a stream, by the number of launches in flight. -/
def toldOfStream (inflight : String) : Answer :=
  .description ("Stream \x7b inflight: " ++ inflight ++
    ", launch: LaunchConfig \x7b lanes: 32, tile: 2048, rows_per_group: 1 \x7d \x7d")

/-- The description of one stream is not the same in a session with another stream and in one
    without it, if the worker has retired the launch in one of them only. -/
theorem describe_before_and_after_retiring : ∃ t u,
    Runs (start .standard) describedInFlight [.done, .done, .done, toldOfStream "1"] t ∧
    resultNames "s" describedInFlight [.done, .done, .done, toldOfStream "1"] = [] ∧
    (∀ c ∈ describedInFlight, c.Spares "s" []) ∧
    Runs (start .standard) (withoutStream "s" [] describedInFlight)
      [.done, .done, toldOfStream "0"] u ∧
    answersWithout "s" [] describedInFlight [.done, .done, .done, toldOfStream "1"] ≠
      [.done, .done, toldOfStream "0"] := by
  have hbefore := (Runs.command rfl <| .command rfl <| .command rfl <| .command rfl .done :
    Runs (start .standard) describedInFlight [.done, .done, .done, toldOfStream "1"] _)
  have hafter := (Runs.command rfl <| .command rfl <| .work (rfl : work? _ "q" = some _) <|
    .work (rfl : work? _ "q" = some _) <| .work (rfl : work? _ "q" = some _) <|
    .command rfl .done :
    Runs (start .standard) (withoutStream "s" [] describedInFlight)
      [.done, .done, toldOfStream "0"] _)
  refine ⟨_, _, hbefore, rfl, ?_, hafter, ?_⟩
  · simp [describedInFlight, Command.Spares]
  · intro heq
    have htold : toldOfStream "1" = toldOfStream "0" := (List.cons.inj (List.cons.inj
      (List.cons.inj heq).2).2).1
    exact absurd (Answer.description.inj htold) (by decide)

end Session

end NeighborSearch
