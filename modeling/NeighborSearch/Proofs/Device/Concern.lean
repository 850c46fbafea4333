import NeighborSearch.Proofs.Device.Rest

/-!
# Commands that concern a stream

A command *concerns* a stream if it addresses the stream, or waits for one of its results or
drops it. It changes nothing but the stream and its results, so in an eager session all other
commands are answered alike when those that concern one stream are taken out
(`run_withoutStream`). The same holds of sessions with workers, as far as their answers do not
depend on the steps of the workers (`sameAtRest_withoutStream`).
-/

namespace NeighborSearch

namespace Command

/-- The command makes, drops, uses, asks or describes the stream of this name. -/
def addresses (stream : String) : Command → Bool
  | .openStream name | .closeStream name | .launch name _ _ | .synchronize name
  | .describe name => name == stream
  | .store _ | .wait _ | .forget _ => false

/-- The command addresses the stream, or waits for a result of one of these names or drops
    it. -/
def concerns (stream : String) (results : List String) : Command → Bool
  | .wait name | .forget name => results.contains name
  | c => c.addresses stream

/-- If the command launches on another stream, it does not leave the result under one of these
    names. -/
def Spares (stream : String) (results : List String) : Command → Prop
  | .launch name _ pending => name ≠ stream → pending ∉ results
  | .store _ | .openStream _ | .closeStream _ | .wait _ | .forget _ | .synchronize _
  | .describe _ => True

variable {stream : String} {results : List String}

theorem leavesAtRest_of_concerns (c : Command) (h : c.concerns stream results = true)
    {name : String} (hname : name ≠ stream) (rested : Bool) :
    c.leavesAtRest name rested = rested := by
  cases c with
  | openStream other | closeStream other | synchronize other =>
    obtain rfl : other = stream := eq_of_beq h
    rw [leavesAtRest, beq_eq_false_iff_ne.2 hname.symm, Bool.or_false]
  | launch other request pending =>
    obtain rfl : other = stream := eq_of_beq h
    rw [leavesAtRest, bne_iff_ne.2 hname.symm, Bool.and_true]
  | store c | wait other | forget other | describe other => rfl

theorem eq_of_resets (c : Command) (h : c.concerns stream results = true) {name : String}
    (hresets : c.Resets name) : name = stream := by
  cases c with
  | openStream other | closeStream other | synchronize other =>
    exact hresets.symm.trans (eq_of_beq h)
  | store c | launch other request pending | wait other | forget other | describe other =>
    exact hresets.elim

theorem settled_of_not_concerns (c : Command) (h : c.concerns stream results = false)
    {rested rested' : String → Bool}
    (hrested : ∀ name, name ≠ stream → rested' name = rested name) (hc : c.Settled rested') :
    c.Settled rested := by
  cases c with
  | describe name =>
    have hne : name ≠ stream := by simpa [concerns, addresses] using h
    exact (hrested name hne).symm.trans hc
  | store c | openStream name | closeStream name | launch name request pending | wait name
  | forget name | synchronize name => trivial

end Command

/-- The name under which a launch on the stream has left its result, if it was accepted. -/
def resultName? (stream : String) : Command × Answer → Option String
  | (.launch name _ pending, .done) => if name = stream then some pending else none
  | _ => none

/-- A description has left no result, so it does not matter what it says. -/
theorem resultName?_congr {stream : String} {c : Command} {a b : Answer}
    (h : (∀ name, c ≠ .describe name) → a = b) :
    resultName? stream (c, a) = resultName? stream (c, b) := by
  cases c with
  | describe name => rfl
  | store c | openStream name | closeStream name | launch name request pending | wait name
  | forget name | synchronize name => rw [h fun _ => Command.noConfusion]

/-- The names of the results of a stream, which the accepted launches on it have left. -/
def resultNames (stream : String) (cs : List Command) (as : List Answer) : List String :=
  (cs.zip as).filterMap (resultName? stream)

/-- The commands that do not concern the stream. -/
def withoutStream (stream : String) (results : List String) (cs : List Command) : List Command :=
  cs.filter fun c => !c.concerns stream results

/-- The answers to the commands that do not concern the stream. -/
def answersWithout (stream : String) (results : List String) (cs : List Command)
    (as : List Answer) : List Answer :=
  ((cs.zip as).filter fun p => !p.1.concerns stream results).map Prod.snd

section Cons

variable {stream : String} {results : List String} {c : Command} {a : Answer} {cs : List Command}
  {as : List Answer}

theorem resultNames_cons : resultNames stream (c :: cs) (a :: as) =
    (resultName? stream (c, a)).toList ++ resultNames stream cs as := by
  rw [resultNames, List.zip_cons_cons, List.filterMap_cons]
  cases resultName? stream (c, a) <;> rfl

theorem withoutStream_cons_of_concerns (hc : c.concerns stream results = true) :
    withoutStream stream results (c :: cs) = withoutStream stream results cs := by
  rw [withoutStream, List.filter_cons, hc]
  rfl

theorem answersWithout_cons_of_concerns (hc : c.concerns stream results = true) :
    answersWithout stream results (c :: cs) (a :: as) = answersWithout stream results cs as := by
  rw [answersWithout, List.zip_cons_cons, List.filter_cons, hc]
  rfl

theorem withoutStream_cons (hc : c.concerns stream results = false) :
    withoutStream stream results (c :: cs) = c :: withoutStream stream results cs := by
  rw [withoutStream, List.filter_cons, hc]
  rfl

theorem answersWithout_cons (hc : c.concerns stream results = false) :
    answersWithout stream results (c :: cs) (a :: as) =
      a :: answersWithout stream results cs as := by
  rw [answersWithout, List.zip_cons_cons, List.filter_cons, hc]
  rfl

end Cons

namespace SameAtRest

variable {rested : String → Bool} {cs : List Command} {as bs : List Answer} {stream : String}
  {results : List String}

/-- All launches that one list shows to be accepted are accepted by the other. -/
theorem resultNames_eq (h : SameAtRest rested cs as bs) (stream : String) :
    resultNames stream cs as = resultNames stream cs bs := by
  induction h with
  | nil => rfl
  | @cons rested c a b cs as bs hsame _ ih =>
    have hname : resultName? stream (c, a) = resultName? stream (c, b) :=
      resultName?_congr fun hne => hsame (c.settled_of_ne hne rested)
    rw [resultNames_cons, resultNames_cons, hname, ih]

/-- Whether other streams are at rest does not hang on the commands that concern one. -/
theorem withoutStream {rested' : String → Bool}
    (hrested : ∀ name, name ≠ stream → rested' name = rested name)
    (h : SameAtRest rested cs as bs) :
    SameAtRest rested' (withoutStream stream results cs) (answersWithout stream results cs as)
      (answersWithout stream results cs bs) := by
  induction h generalizing rested' with
  | nil => exact .nil
  | @cons rested c a b cs as bs hsame _ ih =>
    cases hc : c.concerns stream results with
    | true =>
      rw [withoutStream_cons_of_concerns hc, answersWithout_cons_of_concerns hc,
        answersWithout_cons_of_concerns hc]
      refine ih fun name hname => (hrested name hname).trans ?_
      exact (c.leavesAtRest_of_concerns hc hname _).symm
    | false =>
      rw [withoutStream_cons hc, answersWithout_cons hc, answersWithout_cons hc]
      refine .cons (fun hsettled => hsame ?_) (ih fun name hname => ?_)
      · exact c.settled_of_not_concerns hc hrested hsettled
      · rw [hrested name hname]

end SameAtRest

/-! ## Eager sessions without a stream -/

namespace EagerSession

variable {e f : EagerSession} {stream : String} {results : List String}

/-- The sessions differ in one stream and in results of some names only. -/
structure AgreesOff (stream : String) (results : List String) (e f : EagerSession) : Prop where
  device : e.device = f.device
  store : e.store = f.store
  errors : ∀ name, name ≠ stream → e.errors.get? name = f.errors.get? name
  pending : ∀ name, name ∉ results → e.pending.get? name = f.pending.get? name

namespace AgreesOff

theorem refl (stream : String) (results : List String) (e : EagerSession) :
    e.AgreesOff stream results e := ⟨rfl, rfl, fun _ _ => rfl, fun _ _ => rfl⟩

/-- A command that does not concern the stream is carried out alike. -/
theorem perform (h : e.AgreesOff stream results f) {c : Command}
    (hc : c.concerns stream results = false) :
    (e.perform c).1.AgreesOff stream results (f.perform c).1 ∧
      (e.perform c).2 = (f.perform c).2 := by
  obtain ⟨device, store, errors, pending⟩ := e
  obtain ⟨_, _, errors', pending'⟩ := f
  obtain ⟨rfl, rfl, herrors, hpending⟩ := h
  simp only at herrors hpending
  cases c with
  | store c => exact ⟨⟨rfl, rfl, herrors, hpending⟩, rfl⟩
  | openStream name => exact ⟨⟨rfl, rfl, Bindings.get?_put_congr herrors _ _, hpending⟩, rfl⟩
  | closeStream name =>
    have hne : name ≠ stream := by simpa [Command.concerns, Command.addresses] using hc
    simp only [EagerSession.perform, herrors name hne]
    split
    · exact ⟨⟨rfl, rfl, Bindings.get?_erase_congr herrors _, hpending⟩, rfl⟩
    · exact ⟨⟨rfl, rfl, herrors, hpending⟩, rfl⟩
  | launch name request result =>
    have hne : name ≠ stream := by simpa [Command.concerns, Command.addresses] using hc
    simp only [EagerSession.perform, herrors name hne]
    split
    · exact ⟨⟨rfl, rfl, herrors, hpending⟩, rfl⟩
    · split
      · exact ⟨⟨rfl, rfl, herrors, hpending⟩, rfl⟩
      · exact ⟨⟨rfl, rfl, Bindings.get?_put_congr herrors _ _,
          Bindings.get?_put_congr hpending _ _⟩, rfl⟩
  | wait name | forget name =>
    have hne : name ∉ results := by simpa [Command.concerns] using hc
    simp only [EagerSession.perform, hpending name hne]
    split
    · exact ⟨⟨rfl, rfl, herrors, hpending⟩, rfl⟩
    · exact ⟨⟨rfl, rfl, herrors, Bindings.get?_erase_congr hpending _⟩, rfl⟩
  | synchronize name =>
    have hne : name ≠ stream := by simpa [Command.concerns, Command.addresses] using hc
    simp only [EagerSession.perform, herrors name hne]
    split
    · exact ⟨⟨rfl, rfl, herrors, hpending⟩, rfl⟩
    · exact ⟨⟨rfl, rfl, Bindings.get?_put_congr herrors _ _, hpending⟩, rfl⟩
    · exact ⟨⟨rfl, rfl, herrors, hpending⟩, rfl⟩
  | describe name =>
    have hne : name ≠ stream := by simpa [Command.concerns, Command.addresses] using hc
    simp only [EagerSession.perform, herrors name hne]
    split <;> exact ⟨⟨rfl, rfl, herrors, hpending⟩, rfl⟩

/-- A command that concerns the stream has no effect elsewhere. -/
theorem perform_left (h : e.AgreesOff stream results f) {c : Command}
    (hc : c.concerns stream results = true)
    (hname : ∀ name ∈ resultName? stream (c, (e.perform c).2), name ∈ results) :
    (e.perform c).1.AgreesOff stream results f := by
  -- Changes to the stream itself and to its results are not looked at.
  have hput : ∀ error name, name ≠ stream →
      (e.errors.put stream error).get? name = f.errors.get? name := fun error name hne =>
    (Bindings.get?_put_of_ne hne _ _).trans (h.errors name hne)
  obtain ⟨e', a, heq, hperformed⟩ := e.exists_performed c
  rw [heq] at hname ⊢
  cases hperformed with
  | stored store => exact absurd hc (by simp [Command.concerns, Command.addresses])
  | @cleared c name a hclears =>
    obtain rfl : name = stream := by
      rcases hclears with rfl | rfl <;> exact eq_of_beq hc
    exact ⟨h.device, h.store, hput _, h.pending⟩
  | @closed name =>
    obtain rfl : name = stream := eq_of_beq hc
    exact ⟨h.device, h.store, fun other hne =>
      (Bindings.get?_erase_of_ne hne _).trans (h.errors other hne), h.pending⟩
  | @launched name request pending =>
    obtain rfl : name = stream := eq_of_beq hc
    have hresult : pending ∈ results := hname pending (by simp [resultName?])
    exact ⟨h.device, h.store, hput _, fun other hother =>
      (Bindings.get?_put_of_ne (ne_of_mem_of_not_mem hresult hother).symm _ _).trans
        (h.pending other hother)⟩
  | @redeemed c name a hredeems =>
    have hmem : name ∈ results := by
      rcases hredeems with rfl | rfl <;> simpa [Command.concerns] using hc
    exact ⟨h.device, h.store, h.errors, fun other hother =>
      (Bindings.get?_erase_of_ne (ne_of_mem_of_not_mem hmem hother).symm _).trans
        (h.pending other hother)⟩
  | unchanged => exact h

/-- What is left of the commands is answered alike. -/
theorem run_withoutStream (h : e.AgreesOff stream results f) {cs : List Command}
    (hnames : ∀ name ∈ resultNames stream cs (e.run cs), name ∈ results) :
    answersWithout stream results cs (e.run cs) = f.run (withoutStream stream results cs) := by
  induction cs generalizing e f with
  | nil => rfl
  | cons c cs ih =>
    rw [run, resultNames_cons] at hnames
    rw [run]
    have hrest : ∀ name ∈ resultNames stream cs ((e.perform c).1.run cs), name ∈ results :=
      fun name hname => hnames name (List.mem_append_right _ hname)
    cases hc : c.concerns stream results with
    | true =>
      rw [answersWithout_cons_of_concerns hc, withoutStream_cons_of_concerns hc]
      refine ih (h.perform_left hc fun name hname => hnames name ?_) hrest
      exact List.mem_append_left _ (Option.mem_toList.2 hname)
    | false =>
      obtain ⟨hagrees, hanswer⟩ := h.perform hc
      rw [answersWithout_cons hc, withoutStream_cons hc, run, hanswer, ih hagrees hrest]

end AgreesOff

end EagerSession

/-! ## Sessions without a stream -/

namespace Session

variable {device : DeviceConfig} {cs : List Command} {as : List Answer} {t : Session}

/-- The commands of a session that do not concern a stream are answered alike when all others
    are taken out, whatever steps the workers take in either session. -/
theorem sameAtRest_withoutStream (h : Runs (start device) cs as t) (stream : String)
    {bs : List Answer} {u : Session}
    (hwithout : Runs (start device) (withoutStream stream (resultNames stream cs as) cs) bs u) :
    SameAtRest (fun _ => true) (withoutStream stream (resultNames stream cs as) cs)
      (answersWithout stream (resultNames stream cs as) cs as) bs := by
  have hrefines := refines_start device
  have hrest := restsWhere_start device fun _ => true
  have heager := hrefines.sameAtRest hrest h
  have hnames := heager.resultNames_eq stream
  have hleft := (EagerSession.AgreesOff.refl stream (resultNames stream cs as)
    (.start device)).run_withoutStream fun name hname => hnames ▸ hname
  have hsame : SameAtRest (fun _ => true)
      (withoutStream stream (resultNames stream cs as) cs)
      (answersWithout stream (resultNames stream cs as) cs as)
      (answersWithout stream (resultNames stream cs as) cs ((EagerSession.start device).run cs)) :=
    heager.withoutStream fun _ _ => rfl
  rw [hleft] at hsame
  exact hsame.trans (hrefines.sameAtRest hrest hwithout).symm

end Session

end NeighborSearch
