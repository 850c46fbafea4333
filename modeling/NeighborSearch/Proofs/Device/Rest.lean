import NeighborSearch.Proofs.Device.Session

/-!
# Streams at rest

The description of a stream tells how many launches are in flight, which depends on the steps
that its worker has taken. A stream is *at rest* when nothing has been launched on it since it
was made or last asked for its error. Then nothing is in flight (`RestsWhere`), and its
description is that of the eager session as all other answers are (`Refines.sameAtRest`).
-/

namespace NeighborSearch

namespace Command

/-- Whether a stream is at rest after the command, given whether it was before. -/
def leavesAtRest (stream : String) (rested : Bool) : Command → Bool
  | .openStream name | .closeStream name | .synchronize name => rested || name == stream
  | .launch name _ _ => rested && name != stream
  | .store _ | .wait _ | .forget _ | .describe _ => rested

/-- Whether a stream is at rest after some commands, the first ones of a session. -/
def restsAfter (stream : String) (cs : List Command) : Bool :=
  cs.foldl (leavesAtRest stream) true

/-- If the command describes a stream, it is one of those at rest. -/
def Settled (rested : String → Bool) : Command → Prop
  | .describe name => rested name = true
  | .store _ | .openStream _ | .closeStream _ | .launch _ _ _ | .wait _ | .forget _
  | .synchronize _ => True

theorem settled_of_ne (c : Command) (h : ∀ name, c ≠ .describe name) (rested : String → Bool) :
    c.Settled rested := by
  cases c with
  | describe name => exact absurd rfl (h name)
  | store c | openStream name | closeStream name | launch name request pending | wait name
  | forget name | synchronize name => trivial

/-- A stream is at rest after a command if it was before, or was made, dropped or asked. -/
theorem rested_or_resets (c : Command) {name : String} {rested : Bool}
    (h : c.leavesAtRest name rested = true) : rested = true ∨ c.Resets name := by
  cases c with
  | openStream other | closeStream other | synchronize other =>
    exact (Bool.or_eq_true_iff.1 h).imp_right eq_of_beq
  | launch other request pending => exact .inl (Bool.and_eq_true_iff.1 h).1
  | store c | wait other | forget other | describe other => exact .inl h

end Command

/-- Both lists answer the commands, and differ in descriptions of streams that are not at
    rest only. -/
inductive SameAtRest : (rested : String → Bool) → List Command → List Answer → List Answer → Prop
  | nil {rested : String → Bool} : SameAtRest rested [] [] []
  | cons {rested : String → Bool} {c : Command} {a b : Answer} {cs : List Command}
    {as bs : List Answer} :
    (c.Settled rested → a = b) →
    SameAtRest (fun name => c.leavesAtRest name (rested name)) cs as bs →
    SameAtRest rested (c :: cs) (a :: as) (b :: bs)

namespace SameAtRest

variable {rested : String → Bool} {cs : List Command} {as bs as' : List Answer}

theorem symm (h : SameAtRest rested cs as bs) : SameAtRest rested cs bs as := by
  induction h with
  | nil => exact .nil
  | cons hsame _ ih => exact .cons (fun hc => (hsame hc).symm) ih

theorem trans (h : SameAtRest rested cs as bs) (h' : SameAtRest rested cs bs as') :
    SameAtRest rested cs as as' := by
  induction h generalizing as' with
  | nil => exact h'
  | cons hsame _ ih =>
    obtain _ | ⟨hsame', hrest'⟩ := h'
    exact .cons (fun hc => (hsame hc).trans (hsame' hc)) (ih hrest')

theorem length_eq (h : SameAtRest rested cs as bs) : as.length = cs.length := by
  induction h with
  | nil => rfl
  | cons _ _ ih => exact congrArg (· + 1) ih

/-- The answer to one of the commands. -/
theorem getElem?_eq (h : SameAtRest rested cs as bs) {i : ℕ} {c : Command} (hc : cs[i]? = some c)
    (hsettled : c.Settled fun name => (cs.take i).foldl (Command.leavesAtRest name) (rested name)) :
    as[i]? = bs[i]? := by
  induction h generalizing i with
  | nil => rfl
  | cons hsame _ ih =>
    cases i with
    | zero =>
      obtain rfl := Option.some.inj hc
      exact congrArg some (hsame hsettled)
    | succ i => exact ih hc hsettled

end SameAtRest

namespace Stream

variable {α : Type} {s t : Stream α}

/-- A stream with nothing in flight has a worker that takes no step. -/
theorem Sound.work?_eq_none {config : LaunchConfig} (hs : s.Sound config) (h : s.inflight = 0) :
    s.work? = none := by
  have hquiet : s.isQuiet = true := isQuiet_iff.2 (hs.inflight.symm.trans h)
  cases hwork : s.work? with
  | none => rfl
  | some r =>
    have hless := workLeft_of_work? hwork
    rw [isQuiet, decide_eq_true_iff] at hquiet
    omega

/-- A description shows what is in flight and the geometry, and no more. -/
theorem describe_congr (hinflight : s.inflight = t.inflight)
    (hconfig : s.config = t.config) : s.describe = t.describe := by
  unfold describe
  rw [hinflight, hconfig]

theorem inflight_of_report? {error : Option SelectError} (h : s.report? = some (error, t)) :
    t.inflight = 0 := by
  rw [report?] at h
  split at h
  case isTrue hzero =>
    obtain ⟨-, rfl⟩ := Prod.mk.inj (Option.some.inj h)
    exact hzero
  case isFalse => exact absurd h (by simp)

end Stream

namespace Session

variable {s t : Session} {e : EagerSession} {rested : String → Bool}

/-- Nothing is in flight on the streams at rest. -/
def RestsWhere (s : Session) (rested : String → Bool) : Prop :=
  ∀ name stream, rested name = true → s.streams.get? name = some stream → stream.inflight = 0

theorem restsWhere_start (device : DeviceConfig) (rested : String → Bool) :
    (start device).RestsWhere rested :=
  fun _ _ _ h => absurd h (by simp [start, Bindings.get?])

/-- A worker has a step to take on a stream only that is not at rest. -/
theorem RestsWhere.work? (hrest : s.RestsWhere rested) (h : s.Refines e) {name : String}
    (hwork : s.work? name = some t) : t.RestsWhere rested := by
  obtain ⟨before, after, message, hbefore, hstep, rfl⟩ := work?_eq_some hwork
  intro other stream hother hstream
  rw [Bindings.get?_put] at hstream
  split at hstream
  case isTrue heq =>
    have hzero := hrest name before (heq ▸ hother) hbefore
    rw [(h.sound name before hbefore).work?_eq_none hzero] at hstep
    exact absurd hstep (by simp)
  case isFalse => exact hrest other stream hother hstream

/-- A stream with nothing in flight is put in the place of one that was made or asked. -/
theorem RestsWhere.put (hrest : s.RestsWhere rested) {name : String} {stream : Stream Outcome}
    (hzero : stream.inflight = 0) :
    { s with streams := s.streams.put name stream }.RestsWhere
      fun other => rested other || name == other := by
  intro other found hother hfound
  rw [Bindings.get?_put] at hfound
  split at hfound
  case isTrue => exact Option.some.inj hfound ▸ hzero
  case isFalse hne =>
    rcases Bool.or_eq_true_iff.1 hother with hother | hother
    · exact hrest other found hother hfound
    · exact absurd (eq_of_beq hother).symm hne

theorem RestsWhere.perform? (hrest : s.RestsWhere rested) {c : Command} {a : Answer}
    (hperform : s.perform? c = some (t, a)) :
    t.RestsWhere fun name => c.leavesAtRest name (rested name) := by
  cases performed_of_perform? hperform with
  | stored c => exact hrest
  | opened name => exact hrest.put rfl
  | closed name =>
    intro other stream hother hstream
    obtain ⟨hne, hstream⟩ := Bindings.get?_erase_eq_some_iff.1 hstream
    rcases Bool.or_eq_true_iff.1 hother with hother | hother
    · exact hrest other stream hother hstream
    · exact absurd (eq_of_beq hother).symm hne
  | @launched name request pending =>
    -- Nothing is said of the stream of the launch any more.
    intro other stream hother hstream
    obtain ⟨hrested, hne⟩ := Bool.and_eq_true_iff.1 hother
    rw [Session.launch, Bindings.get?_put_of_ne (bne_iff_ne.1 hne).symm] at hstream
    exact hrest other stream hrested hstream
  | redeemed hredeems => rcases hredeems with rfl | rfl <;> exact hrest
  | synchronized hbefore hreport => exact hrest.put (Stream.inflight_of_report? hreport)
  | unchanged hnone =>
    intro other stream hother hstream
    rcases c.rested_or_resets hother with hrested | hresets
    · exact hrest other stream hrested hstream
    · exact absurd (hstream.symm.trans (hnone other hresets)) (by simp)

/-- A stream at rest is described as the eager session does. -/
theorem Refines.answer_describe (h : s.Refines e) (hrest : s.RestsWhere rested) {name : String}
    {a : Answer} (hrested : rested name = true)
    (hperform : s.perform? (.describe name) = some (t, a)) :
    a = (e.perform (.describe name)).2 := by
  have herrors := h.errors name
  rw [Session.perform?] at hperform
  rw [EagerSession.perform]
  split at hperform
  case h_1 hnone =>
    obtain ⟨-, rfl⟩ := Prod.mk.inj (Option.some.inj hperform)
    rw [hnone, Option.map_none] at herrors
    rw [herrors]
  case h_2 stream hstream =>
    obtain ⟨-, rfl⟩ := Prod.mk.inj (Option.some.inj hperform)
    have hconfig : stream.config = e.device.launch :=
      (h.sound name stream hstream).config.trans (congrArg _ h.device)
    have hdescribe : stream.describe = (Stream.create e.device.launch : Stream Outcome).describe :=
      Stream.describe_congr (hrest name stream hrested hstream) hconfig
    rw [hstream, Option.map_some] at herrors
    rw [herrors, hdescribe]

/-- Whatever steps the workers take, the answers are those of the eager session, but for
    descriptions of streams that are not at rest. -/
theorem Refines.sameAtRest (h : s.Refines e) (hrest : s.RestsWhere rested) {cs : List Command}
    {as : List Answer} (hruns : Runs s cs as t) : SameAtRest rested cs as (e.run cs) := by
  induction hruns generalizing e rested with
  | done => exact .nil
  | work hwork _ ih => exact ih (h.work? hwork) (hrest.work? h hwork)
  | @command s s' t c a cs as hperform _ ih =>
    obtain ⟨hrefines, hanswer⟩ := h.perform? hperform
    refine .cons (fun hsettled => ?_) (ih hrefines (hrest.perform? hperform))
    cases c with
    | describe name => exact h.answer_describe hrest hsettled hperform
    | store c | openStream name | closeStream name | launch name request pending | wait name
    | forget name | synchronize name => exact hanswer fun _ => Command.noConfusion

end Session

end NeighborSearch
