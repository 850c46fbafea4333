import NeighborSearch.Device.Session
import NeighborSearch.Proofs.Bindings
import NeighborSearch.Proofs.Device.Eager
import NeighborSearch.Proofs.Device.Stream

/-!
# Sessions refine eager sessions

A session *refines* an eager session when every stream will have kept the error that the
eager session already knows, and every pending result is *promised*: it has been
delivered, or some stream owes it. Workers do not change what is promised
(`Refines.work?`), a command gets the answer of the eager session whenever it is carried
out (`Refines.perform?`), and one that has to wait waits for a worker that can take a
step (`Refines.exists_work?`).
-/

namespace NeighborSearch

namespace Session

variable {s t : Session} {e e' : EagerSession} {name : String}

/-- The results that the stream of some name owes, none if there is no such stream. -/
def owedOn (s : Session) (name : String) : List (Message Outcome) :=
  ((s.streams.get? name).map Stream.owed).getD []

/-- The result has been delivered, or some stream owes it. -/
def Promises (s : Session) (m : Message Outcome) : Prop :=
  m ∈ s.delivered ∨ ∃ name, m ∈ s.owedOn name

/-- The eager session knows what the session will come to. -/
structure Refines (s : Session) (e : EagerSession) : Prop where
  device : s.device = e.device
  store : s.store = e.store
  sound : ∀ name stream, s.streams.get? name = some stream → stream.Sound s.device.launch
  errors : ∀ name, e.errors.get? name = (s.streams.get? name).map Stream.settledError
  unnamed : ∀ name, s.pending.get? name = none → e.pending.get? name = none
  named : ∀ name ticket, s.pending.get? name = some ticket →
    ∃ result, e.pending.get? name = some result ∧ s.Promises ⟨ticket, result⟩
  fresh : ∀ m, s.Promises m → m.ticket < s.nextTicket
  unique : ∀ m m', s.Promises m → s.Promises m' → m.ticket = m'.ticket → m = m'

theorem refines_start (device : DeviceConfig) : (start device).Refines (.start device) := by
  have hnone : ∀ m, ¬(start device).Promises m := by
    rintro m (h | ⟨name, h⟩)
    · exact absurd h List.not_mem_nil
    · exact absurd h List.not_mem_nil
  exact {
    device := rfl
    store := rfl
    sound := fun _ _ h => absurd h (by simp [start, Bindings.get?])
    errors := fun _ => rfl
    unnamed := fun _ _ => rfl
    named := fun _ _ h => absurd h (by simp [start, Bindings.get?])
    fresh := fun m h => absurd h (hnone m)
    unique := fun m _ h _ => absurd h (hnone m) }

/-- What is known of pending results is kept as long as the same results are promised. -/
theorem Refines.of_promises (h : s.Refines e) (hpromises : ∀ m, t.Promises m ↔ s.Promises m)
    (hpending : t.pending = s.pending) (heager : e'.pending = e.pending)
    (hticket : t.nextTicket = s.nextTicket) (hdevice : t.device = e'.device)
    (hstore : t.store = e'.store)
    (hsound : ∀ name stream, t.streams.get? name = some stream → stream.Sound t.device.launch)
    (herrors : ∀ name, e'.errors.get? name = (t.streams.get? name).map Stream.settledError) :
    t.Refines e' where
  device := hdevice
  store := hstore
  sound := hsound
  errors := herrors
  unnamed name hname := by
    rw [heager]
    exact h.unnamed name (hpending ▸ hname)
  named name ticket hname := by
    obtain ⟨result, hresult, hpromise⟩ := h.named name ticket (hpending ▸ hname)
    exact ⟨result, heager ▸ hresult, (hpromises _).2 hpromise⟩
  fresh m hm := hticket ▸ h.fresh m ((hpromises m).1 hm)
  unique m m' hm hm' := h.unique m m' ((hpromises m).1 hm) ((hpromises m').1 hm')

/-! ## Workers -/

theorem work?_eq_some (h : s.work? name = some t) :
    ∃ before after message, s.streams.get? name = some before ∧
      before.work? = some (after, message) ∧
      t = { s with
        streams := s.streams.put name after
        delivered := message.toList ++ s.delivered } := by
  simp only [work?, Option.bind_eq_bind, Option.bind_eq_some_iff] at h
  obtain ⟨before, hbefore, ⟨after, message⟩, hwork, ht⟩ := h
  exact ⟨before, after, message, hbefore, hwork, (Option.some.inj ht).symm⟩

/-- A worker delivers what has been promised, and nothing else. -/
theorem promises_work? (h : s.work? name = some t) (m : Message Outcome) :
    t.Promises m ↔ s.Promises m := by
  obtain ⟨before, after, message, hbefore, hwork, rfl⟩ := work?_eq_some h
  have howed := Stream.work?_owed hwork
  have hon : s.owedOn name = before.owed := by rw [owedOn, hbefore]; rfl
  constructor
  · -- What the worker has delivered just now was owed by its stream before.
    rintro (hm | ⟨other, hm⟩)
    · rcases List.mem_append.1 hm with hm | hm
      · exact .inr ⟨name, hon ▸ howed ▸ List.mem_append_left _ hm⟩
      · exact .inl hm
    · rw [owedOn, Bindings.get?_put] at hm
      split at hm
      case isTrue => exact .inr ⟨name, hon ▸ howed ▸ List.mem_append_right _ hm⟩
      case isFalse => exact .inr ⟨other, hm⟩
  · rintro (hm | ⟨other, hm⟩)
    · exact .inl (List.mem_append_right _ hm)
    · by_cases hother : other = name
      · subst hother
        rw [hon, ← howed] at hm
        rcases List.mem_append.1 hm with hm | hm
        · exact .inl (List.mem_append_left _ hm)
        · refine .inr ⟨other, ?_⟩
          rw [owedOn, Bindings.get?_put_self]
          exact hm
      · refine .inr ⟨other, ?_⟩
        rw [owedOn, Bindings.get?_put_of_ne hother]
        exact hm

theorem Refines.work? (h : s.Refines e) (hwork : s.work? name = some t) : t.Refines e := by
  have hpromises := promises_work? hwork
  obtain ⟨before, after, message, hbefore, hstep, rfl⟩ := work?_eq_some hwork
  refine h.of_promises hpromises rfl rfl rfl h.device h.store ?_ ?_
  · exact Bindings.forall_get?_put h.sound ((h.sound name before hbefore).work? hstep)
  · intro other
    rw [h.errors, Bindings.get?_put]
    split
    case isTrue hother =>
      rw [hother, hbefore, Option.map_some, Option.map_some, Stream.work?_settledError hstep]
    case isFalse => rfl

/-! ## Commands -/

theorem owedOn_of_isQuiet {stream : Stream Outcome} (hstream : s.streams.get? name = some stream)
    (hquiet : stream.isQuiet = true) : s.owedOn name = [] := by
  rw [owedOn, hstream, Option.map_some, Option.getD_some,
    Stream.owed_of_unretired (Stream.isQuiet_iff.1 hquiet)]

theorem owedOn_of_get?_eq_none (hstream : s.streams.get? name = none) : s.owedOn name = [] := by
  rw [owedOn, hstream]
  rfl

/-- A stream may be replaced by one that owes the same. -/
theorem Refines.put (h : s.Refines e) {stream : Stream Outcome}
    (howed : stream.owed = s.owedOn name) (hsound : stream.Sound s.device.launch)
    (heager : e'.pending = e.pending) (hdevice : e'.device = e.device) (hstore : e'.store = e.store)
    (herrors : ∀ other, e'.errors.get? other =
      if other = name then some stream.settledError else e.errors.get? other) :
    { s with streams := s.streams.put name stream }.Refines e' := by
  have hon : ∀ other, { s with streams := s.streams.put name stream }.owedOn other =
      s.owedOn other := by
    intro other
    rw [owedOn, Bindings.get?_put]
    split
    case isTrue hother => rw [hother, Option.map_some, Option.getD_some, howed]
    case isFalse => rfl
  refine h.of_promises ?_ rfl heager rfl (h.device.trans hdevice.symm)
    (h.store.trans hstore.symm) ?_ ?_
  · intro m
    simp only [Promises, hon]
  · exact Bindings.forall_get?_put h.sound hsound
  · intro other
    rw [herrors, Bindings.get?_put]
    split
    case isTrue => rfl
    case isFalse => exact h.errors other

/-- A stream that owes nothing may be dropped. -/
theorem Refines.erase (h : s.Refines e) (howed : s.owedOn name = []) :
    { s with streams := s.streams.erase name }.Refines
      { e with errors := e.errors.erase name } := by
  have hon : ∀ other, { s with streams := s.streams.erase name }.owedOn other =
      s.owedOn other := by
    intro other
    rw [owedOn, Bindings.get?_erase]
    split
    case isTrue hother =>
      rw [hother, howed]
      rfl
    case isFalse => rfl
  refine h.of_promises ?_ rfl rfl rfl h.device h.store ?_ ?_
  · intro m
    simp only [Promises, hon]
  · intro other stream hstream
    rw [Bindings.get?_erase] at hstream
    split at hstream
    case isTrue => exact absurd hstream (by simp)
    case isFalse => exact h.sound other stream hstream
  · intro other
    rw [Bindings.get?_erase, Bindings.get?_erase]
    split
    case isTrue => rfl
    case isFalse => exact h.errors other

/-- A pending result may be dropped. -/
theorem Refines.erasePending (h : s.Refines e) (name : String) :
    { s with pending := s.pending.erase name }.Refines
      { e with pending := e.pending.erase name } where
  device := h.device
  store := h.store
  sound := h.sound
  errors := h.errors
  unnamed other hother := by
    rw [Bindings.get?_erase] at hother ⊢
    split at hother
    case isTrue heq => rw [if_pos heq]
    case isFalse hne =>
      rw [if_neg hne]
      exact h.unnamed other hother
  named other ticket hother := by
    rw [Bindings.get?_erase] at hother ⊢
    split at hother
    case isTrue => exact absurd hother (by simp)
    case isFalse hne =>
      rw [if_neg hne]
      exact h.named other ticket hother
  fresh := h.fresh
  unique := h.unique

/-- A launch promises one more result, under a number that no other has. -/
theorem promises_launch {stream : Stream Outcome} (hstream : s.streams.get? name = some stream)
    (kernel : Kernel Outcome) (pending : String) (m : Message Outcome) :
    (s.launch name stream kernel pending).Promises m ↔
      s.Promises m ∨ m = (⟨s.nextTicket, kernel⟩ : Job Outcome).message stream.config := by
  have hon : s.owedOn name = stream.owed := by rw [owedOn, hstream]; rfl
  have howed : (s.launch name stream kernel pending).owedOn name =
      stream.owed ++ [(⟨s.nextTicket, kernel⟩ : Job Outcome).message stream.config] := by
    rw [owedOn, launch, Bindings.get?_put_self, Option.map_some, Option.getD_some,
      Stream.owed_launch]
  have hother : ∀ other, other ≠ name →
      (s.launch name stream kernel pending).owedOn other = s.owedOn other := by
    intro other hne
    rw [owedOn, launch, Bindings.get?_put_of_ne hne]
    rfl
  -- Only the stream of the launch owes anything new.
  constructor
  · rintro (hm | ⟨other, hm⟩)
    · exact .inl (.inl hm)
    · by_cases heq : other = name
      · rw [heq, howed, ← hon] at hm
        rcases List.mem_append.1 hm with hm | hm
        · exact .inl (.inr ⟨name, hm⟩)
        · exact .inr (List.mem_singleton.1 hm)
      · exact .inl (.inr ⟨other, hother other heq ▸ hm⟩)
  · rintro ((hm | ⟨other, hm⟩) | rfl)
    · exact .inl hm
    · by_cases heq : other = name
      · refine .inr ⟨name, ?_⟩
        rw [howed, ← hon, ← heq]
        exact List.mem_append_left _ hm
      · exact .inr ⟨other, (hother other heq).symm ▸ hm⟩
    · refine .inr ⟨name, ?_⟩
      rw [howed]
      exact List.mem_append_right _ (List.mem_singleton_self _)

theorem Refines.launch (h : s.Refines e) {stream : Stream Outcome}
    (hstream : s.streams.get? name = some stream) (kernel : Kernel Outcome) (pending : String) :
    (s.launch name stream kernel pending).Refines { e with
      errors := e.errors.put name
        (stream.settledError.or (errorOf? (kernel e.device.launch).result))
      pending := e.pending.put pending (kernel e.device.launch).result } := by
  have hsound := h.sound name stream hstream
  have hconfig : stream.config = e.device.launch := hsound.config.trans (h.device ▸ rfl)
  have hpromises := promises_launch hstream kernel pending
  exact {
    device := h.device
    store := h.store
    sound := Bindings.forall_get?_put h.sound (hsound.launch _)
    errors := by
      intro other
      rw [Session.launch, Bindings.get?_put, Bindings.get?_put]
      split
      case isTrue => rw [Option.map_some, Stream.settledError_launch, hconfig]
      case isFalse => exact h.errors other
    unnamed := by
      intro other hother
      rw [Session.launch, Bindings.get?_put] at hother
      rw [Bindings.get?_put]
      split at hother
      case isTrue => exact absurd hother (by simp)
      case isFalse hne =>
        rw [if_neg hne]
        exact h.unnamed other hother
    named := by
      intro other ticket hother
      rw [Session.launch, Bindings.get?_put] at hother
      rw [Bindings.get?_put]
      split at hother
      case isTrue heq =>
        obtain rfl := Option.some.inj hother
        rw [if_pos heq]
        exact ⟨_, rfl, (hpromises _).2 (.inr (by rw [Job.message, hconfig]))⟩
      case isFalse hne =>
        rw [if_neg hne]
        obtain ⟨result, hresult, hpromise⟩ := h.named other ticket hother
        exact ⟨result, hresult, (hpromises _).2 (.inl hpromise)⟩
    fresh := by
      intro m hm
      rcases (hpromises m).1 hm with hm | rfl
      · exact Nat.lt_succ_of_lt (h.fresh m hm)
      · exact Nat.lt_succ_self _
    unique := by
      -- The number of the launch is larger than all that have been given out.
      intro m m' hm hm' hticket
      rcases (hpromises m).1 hm with hm | rfl <;> rcases (hpromises m').1 hm' with hm' | rfl
      · exact h.unique m m' hm hm' hticket
      · exact absurd hticket (Nat.ne_of_lt (h.fresh m hm))
      · exact absurd hticket (Nat.ne_of_gt (h.fresh m' hm'))
      · rfl }

/-- The result of a launch, once it has been delivered. -/
theorem Refines.result? (h : s.Refines e) {ticket : ℕ} {result : Except SelectError Outcome}
    (hpromise : s.Promises ⟨ticket, result⟩) {delivered : Except SelectError Outcome}
    (hdelivered : s.result? ticket = some delivered) : delivered = result := by
  obtain ⟨m, hm, rfl⟩ := Option.map_eq_some_iff.1 hdelivered
  have hticket : m.ticket = ticket := by simpa using List.find?_some hm
  have heq := h.unique m ⟨ticket, result⟩ (.inl (List.mem_of_find?_eq_some hm)) hpromise hticket
  rw [heq]

/-- A result that has not been delivered is still owed. -/
theorem exists_stream_of_result?_eq_none {m : Message Outcome} (hpromise : s.Promises m)
    (hresult : s.result? m.ticket = none) :
    ∃ name stream, s.streams.get? name = some stream ∧ m ∈ stream.owed := by
  rcases hpromise with hm | ⟨name, hm⟩
  · have hall := List.find?_eq_none.1 (Option.map_eq_none_iff.1 hresult) m hm
    exact absurd (decide_eq_true rfl) hall
  · rw [owedOn] at hm
    cases hstream : s.streams.get? name with
    | none =>
      rw [hstream] at hm
      exact absurd hm List.not_mem_nil
    | some stream =>
      rw [hstream] at hm
      exact ⟨name, stream, hstream, hm⟩

/-- Whoever waits for a result that has not been delivered waits for a stream. -/
theorem Refines.owes_of_result?_eq_none (h : s.Refines e) {ticket : ℕ}
    (hticket : s.pending.get? name = some ticket) (hmissing : s.result? ticket = none) :
    s.streams.any (fun p => p.2.owes ticket) = true := by
  obtain ⟨result, -, hpromise⟩ := h.named name ticket hticket
  obtain ⟨other, stream, hstream, hm⟩ := exists_stream_of_result?_eq_none hpromise hmissing
  exact List.any_eq_true.2 ⟨_, Bindings.mem_of_get?_eq_some hstream, Stream.owes_of_mem_owed hm⟩

theorem Refines.performStore (h : s.Refines e) (c : StoreCommand) :
    (s.performStore c).1.Refines (e.perform (.store c)).1 ∧
      (s.performStore c).2 = (e.perform (.store c)).2 := by
  have hsame : s.store.perform s.device.launch c = e.store.perform e.device.launch c := by
    rw [h.store, h.device]
  refine ⟨h.of_promises (fun _ => Iff.rfl) rfl rfl rfl h.device ?_ h.sound h.errors, ?_⟩
  · exact congrArg Prod.fst hsame
  · exact congrArg Prod.snd hsame

/-- A new stream may take the place of one that owes nothing. -/
theorem Refines.openStream (h : s.Refines e) (howed : s.owedOn name = []) :
    { s with streams := s.streams.put name (.create s.device.launch) }.Refines
      (e.perform (.openStream name)).1 :=
  h.put howed.symm Stream.sound_create rfl rfl rfl fun _ => Bindings.get?_put _ _ _ _

/-- A stream is told to forget the error that it reports. -/
theorem Refines.synchronize (h : s.Refines e) {stream after : Stream Outcome}
    {error : Option SelectError} (hstream : s.streams.get? name = some stream)
    (hreport : stream.report? = some (error, after)) :
    { s with streams := s.streams.put name after }.Refines (e.perform (.synchronize name)).1 ∧
      (e.perform (.synchronize name)).2 = .ofError error := by
  obtain ⟨hsettled, hforgotten, howed, hsound⟩ := (h.sound name stream hstream).report? hreport
  have hknown : e.errors.get? name = some error := by
    rw [h.errors, hstream, Option.map_some, hsettled]
  have hon : after.owed = s.owedOn name := by rw [howed, owedOn, hstream]; rfl
  cases error with
  | none =>
    have heager : e.perform (.synchronize name) = (e, .done) := by
      simp only [EagerSession.perform, hknown]
    rw [heager]
    refine ⟨h.put hon hsound rfl rfl rfl fun other => ?_, rfl⟩
    split
    case isTrue hother => rw [hother, hknown, hforgotten]
    case isFalse => rfl
  | some error =>
    have heager : e.perform (.synchronize name) =
        ({ e with errors := e.errors.put name none }, .failed error) := by
      simp only [EagerSession.perform, hknown]
    rw [heager]
    refine ⟨h.put hon hsound rfl rfl rfl fun other => ?_, rfl⟩
    rw [Bindings.get?_put, hforgotten]

/-! ## One command -/

/-- After the command `c`, which got the answer `a`, the session still refines the eager one,
    which answers the same. -/
structure RefinesAfter (t : Session) (a : Answer) (e : EagerSession) (c : Command) : Prop where
  refines : t.Refines (e.perform c).1
  answer : a = (e.perform c).2

theorem Refines.after {s' : Session} {e' : EagerSession} {c : Command} {a a' : Answer}
    (h : s'.Refines e') (heager : e.perform c = (e', a')) (hperform : some (s', a') = some (t, a)) :
    t.RefinesAfter a e c := by
  obtain ⟨rfl, rfl⟩ := Prod.mk.inj (Option.some.inj hperform)
  refine ⟨?_, ?_⟩
  · rw [heager]
    exact h
  · rw [heager]

theorem Refines.perform?_openStream (h : s.Refines e) {a : Answer}
    (hperform : s.perform? (.openStream name) = some (t, a)) :
    t.RefinesAfter a e (.openStream name) := by
  rw [Session.perform?] at hperform
  split at hperform
  case h_1 old hold =>
    split at hperform
    case isTrue hquiet => exact (h.openStream (owedOn_of_isQuiet hold hquiet)).after rfl hperform
    case isFalse => exact absurd hperform (by simp)
  case h_2 hnone => exact (h.openStream (owedOn_of_get?_eq_none hnone)).after rfl hperform

theorem Refines.perform?_closeStream (h : s.Refines e) {a : Answer}
    (hperform : s.perform? (.closeStream name) = some (t, a)) :
    t.RefinesAfter a e (.closeStream name) := by
  have hknown := h.errors name
  rw [Session.perform?] at hperform
  split at hperform
  case h_1 old hold =>
    split at hperform
    case isTrue hquiet =>
      refine (h.erase (owedOn_of_isQuiet hold hquiet)).after ?_ hperform
      simp only [EagerSession.perform, hknown, hold, Option.map_some]
    case isFalse => exact absurd hperform (by simp)
  case h_2 hnone =>
    refine h.after ?_ hperform
    simp only [EagerSession.perform, hknown, hnone, Option.map_none]

theorem Refines.perform?_launch (h : s.Refines e) {request : Request} {pending : String}
    {a : Answer} (hperform : s.perform? (.launch name request pending) = some (t, a)) :
    t.RefinesAfter a e (.launch name request pending) := by
  have hknown := h.errors name
  rw [Session.perform?] at hperform
  split at hperform
  case h_1 hnone =>
    refine h.after ?_ hperform
    simp only [EagerSession.perform, hknown, hnone, Option.map_none]
  case h_2 stream hstream =>
    rw [h.store] at hperform
    split at hperform
    case h_1 answer hrefused =>
      refine h.after ?_ hperform
      simp only [EagerSession.perform, hknown, hstream, Option.map_some, hrefused]
    case h_2 kernel hkernel =>
      refine (h.launch hstream kernel pending).after ?_ hperform
      simp only [EagerSession.perform, hknown, hstream, Option.map_some, hkernel]

/-- A command that waits for a result is carried out when the result is there. -/
theorem Refines.perform?_wait (h : s.Refines e) {a : Answer}
    (hperform : s.perform? (.wait name) = some (t, a)) : t.RefinesAfter a e (.wait name) := by
  rw [Session.perform?] at hperform
  split at hperform
  case h_1 hnone =>
    refine h.after ?_ hperform
    simp only [EagerSession.perform, h.unnamed name hnone]
  case h_2 ticket hticket =>
    obtain ⟨result, hresult, hpromise⟩ := h.named name ticket hticket
    split at hperform
    case h_1 delivered hdelivered =>
      rw [h.result? hpromise hdelivered] at hperform
      refine (h.erasePending name).after ?_ hperform
      simp only [EagerSession.perform, hresult]
    case h_2 hmissing =>
      -- The result is still owed, so the command would have had to wait.
      rw [if_pos (h.owes_of_result?_eq_none hticket hmissing)] at hperform
      exact absurd hperform (by simp)

theorem Refines.perform?_forget (h : s.Refines e) {a : Answer}
    (hperform : s.perform? (.forget name) = some (t, a)) : t.RefinesAfter a e (.forget name) := by
  rw [Session.perform?] at hperform
  split at hperform
  case h_1 hnone =>
    refine h.after ?_ hperform
    simp only [EagerSession.perform, h.unnamed name hnone]
  case h_2 ticket hticket =>
    obtain ⟨result, hresult, -⟩ := h.named name ticket hticket
    refine (h.erasePending name).after ?_ hperform
    simp only [EagerSession.perform, hresult]

theorem Refines.perform?_synchronize (h : s.Refines e) {a : Answer}
    (hperform : s.perform? (.synchronize name) = some (t, a)) :
    t.RefinesAfter a e (.synchronize name) := by
  rw [Session.perform?] at hperform
  split at hperform
  case h_1 hnone =>
    refine h.after ?_ hperform
    simp only [EagerSession.perform, h.errors, hnone, Option.map_none]
  case h_2 stream hstream =>
    obtain ⟨⟨error, after⟩, hreport, hrest⟩ := Option.bind_eq_some_iff.1 hperform
    obtain ⟨hrefines, hanswer⟩ := h.synchronize hstream hreport
    obtain ⟨rfl, rfl⟩ := Prod.mk.inj (Option.some.inj hrest)
    exact ⟨hrefines, hanswer.symm⟩

/-- To describe a stream changes nothing. -/
theorem Refines.perform?_describe (h : s.Refines e) {a : Answer}
    (hperform : s.perform? (.describe name) = some (t, a)) :
    t.Refines (e.perform (.describe name)).1 := by
  have hsame : (e.perform (.describe name)).1 = e := by
    simp only [EagerSession.perform]
    split <;> rfl
  rw [hsame]
  rw [Session.perform?] at hperform
  split at hperform
  case h_1 hnone =>
    obtain ⟨rfl, -⟩ := Prod.mk.inj (Option.some.inj hperform)
    exact h
  case h_2 stream hstream =>
    obtain ⟨rfl, -⟩ := Prod.mk.inj (Option.some.inj hperform)
    exact h

/-- A command that is carried out gets the answer of the eager session. Only what is in
    flight on a stream is described differently. -/
theorem Refines.perform? (h : s.Refines e) {c : Command} {a : Answer}
    (hperform : s.perform? c = some (t, a)) :
    t.Refines (e.perform c).1 ∧ ((∀ name, c ≠ .describe name) → a = (e.perform c).2) := by
  have hboth : t.RefinesAfter a e c →
      t.Refines (e.perform c).1 ∧ ((∀ name, c ≠ .describe name) → a = (e.perform c).2) :=
    fun hafter => ⟨hafter.refines, fun _ => hafter.answer⟩
  cases c with
  | store c =>
    obtain ⟨rfl, rfl⟩ := Prod.mk.inj (Option.some.inj hperform)
    exact hboth ⟨(h.performStore c).1, (h.performStore c).2⟩
  | openStream name => exact hboth (h.perform?_openStream hperform)
  | closeStream name => exact hboth (h.perform?_closeStream hperform)
  | launch name request pending => exact hboth (h.perform?_launch hperform)
  | wait name => exact hboth (h.perform?_wait hperform)
  | forget name => exact hboth (h.perform?_forget hperform)
  | synchronize name => exact hboth (h.perform?_synchronize hperform)
  | describe name => exact ⟨h.perform?_describe hperform, fun hne => absurd rfl (hne name)⟩

end Session

end NeighborSearch
