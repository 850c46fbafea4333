import Mathlib.Data.Nat.Notation
import NeighborSearch.Proofs.Bindings
import NeighborSearch.Device.Eager

/-!
# What an eager session answers

The state of an eager session is settled by the commands so far (`EagerSession.after`).
A pending result stays what it is until it is waited for, dropped or replaced
(`pending_after`). A stream tells the first error of the launches since it was last
asked (`errors_after`), and waiting for results or dropping them changes no other answer
(`run_filter_redeems`).
-/

namespace NeighborSearch

/-- The answer that tells the error of a stream. -/
def Answer.ofError : Option SelectError → Answer
  | some e => .failed e
  | none => .done

namespace Command

/-- The command concerns the pending result of this name. -/
def Touches (pending : String) : Command → Prop
  | .launch _ _ name | .wait name | .forget name => name = pending
  | .store _ | .openStream _ | .closeStream _ | .synchronize _ | .describe _ => False

/-- The command makes, drops or asks the stream of this name. -/
def Resets (stream : String) : Command → Prop
  | .openStream name | .closeStream name | .synchronize name => name = stream
  | .store _ | .launch _ _ _ | .wait _ | .forget _ | .describe _ => False

/-- The command waits for a pending result or drops it. -/
def redeems : Command → Bool
  | .wait _ | .forget _ => true
  | .store _ | .openStream _ | .closeStream _ | .launch _ _ _ | .synchronize _ | .describe _ =>
    false

/-- The command asks a stream for its error. -/
def synchronizes : Command → Bool
  | .synchronize _ => true
  | .store _ | .openStream _ | .closeStream _ | .launch _ _ _ | .wait _ | .forget _
  | .describe _ => false

end Command

namespace EagerSession

variable {s t : EagerSession} {c : Command} {cs ds : List Command} {stream pending : String}

/-- The session after some commands. -/
def after (s : EagerSession) : List Command → EagerSession
  | [] => s
  | c :: cs => (s.perform c).1.after cs

theorem after_append (s : EagerSession) (cs ds : List Command) :
    s.after (cs ++ ds) = (s.after cs).after ds := by
  induction cs generalizing s with
  | nil => rfl
  | cons c cs ih => exact ih _

@[simp] theorem length_run (s : EagerSession) (cs : List Command) :
    (s.run cs).length = cs.length := by
  induction cs generalizing s with
  | nil => rfl
  | cons c cs ih => exact congrArg (· + 1) (ih _)

/-- The answer to a command is the one of the session after the commands before it. -/
theorem getElem?_run (s : EagerSession) (cs : List Command) (c : Command) (ds : List Command) :
    (s.run (cs ++ c :: ds))[cs.length]? = some ((s.after cs).perform c).2 := by
  induction cs generalizing s with
  | nil => rfl
  | cons d cs ih => exact ih _

/-! ## Launches -/

theorem operands_ne_done {store : Store} {matrix bias : String} {a : Answer}
    (h : store.operands matrix bias = .error a) : a ≠ .done := by
  rw [Store.operands] at h
  cases hmatrix : store.matrices.get? matrix with
  | none =>
    rw [hmatrix] at h
    obtain rfl := Except.error.inj h
    exact Answer.noConfusion
  | some m =>
    cases hbias : store.vectors.get? bias with
    | none =>
      rw [hmatrix, hbias] at h
      obtain rfl := Except.error.inj h
      exact Answer.noConfusion
    | some b =>
      rw [hmatrix, hbias] at h
      exact absurd h (by simp [pure, Except.pure])

theorem kernel_ne_done {store : Store} {request : Request} {a : Answer}
    (h : store.kernel request = .error a) : a ≠ .done := by
  cases request with
  | kernel kernel => exact absurd h (by simp [Store.kernel])
  | select matrix bias k =>
    rw [Store.kernel] at h
    cases hoperands : store.operands matrix bias with
    | error b =>
      rw [hoperands] at h
      obtain rfl := Except.error.inj h
      exact operands_ne_done hoperands
    | ok operands =>
      obtain ⟨m, b⟩ := operands
      rw [hoperands] at h
      cases hcheck : Selection.checkArguments m.ncols b.size k with
      | error e =>
        simp only [bind, Except.bind, hcheck] at h
        obtain rfl := Except.error.inj h
        exact Answer.noConfusion
      | ok u =>
        simp only [bind, Except.bind, hcheck] at h
        exact absurd h (by simp [pure, Except.pure])

/-- A launch is refused without a trace, or else the result of its kernel is pending, and
    its error kept if there is none yet. -/
theorem perform_launch (s : EagerSession) (stream pending : String) (request : Request) :
    (∃ error kernel, s.errors.get? stream = some error ∧ s.store.kernel request = .ok kernel ∧
      s.perform (.launch stream request pending) = ({ s with
        errors := s.errors.put stream (error.or (errorOf? (kernel s.device.launch).result))
        pending := s.pending.put pending (kernel s.device.launch).result }, .done)) ∨
    ((s.errors.get? stream = none ∨ ∃ a, s.store.kernel request = .error a) ∧
      ∃ a, a ≠ .done ∧ s.perform (.launch stream request pending) = (s, a)) := by
  cases herror : s.errors.get? stream with
  | none => exact .inr ⟨.inl rfl, .unknown stream, by simp, by simp only [perform, herror]⟩
  | some error =>
    cases hkernel : s.store.kernel request with
    | error a =>
      exact .inr ⟨.inr ⟨a, rfl⟩, a, kernel_ne_done hkernel, by simp only [perform, herror, hkernel]⟩
    | ok kernel => exact .inl ⟨error, kernel, rfl, rfl, by simp only [perform, herror, hkernel]⟩

/-- What a command does to the session. -/
inductive Performed (s : EagerSession) : Command → Answer → EagerSession → Prop
  /-- It has to do with stored values. -/
  | stored {c : StoreCommand} {a : Answer} (store : Store) :
    Performed s (.store c) a { s with store }
  /-- A stream is made, or has told its error. -/
  | cleared {c : Command} {name : String} {a : Answer} :
    c = .openStream name ∨ c = .synchronize name →
    Performed s c a { s with errors := s.errors.put name none }
  /-- A stream is dropped. -/
  | closed {name : String} :
    Performed s (.closeStream name) .done { s with errors := s.errors.erase name }
  /-- A kernel is launched. -/
  | launched {name : String} {request : Request} {pending : String} {error : Option SelectError}
    {kernel : Kernel Outcome} : s.errors.get? name = some error →
    s.store.kernel request = .ok kernel →
    Performed s (.launch name request pending) .done { s with
      errors := s.errors.put name (error.or (errorOf? (kernel s.device.launch).result))
      pending := s.pending.put pending (kernel s.device.launch).result }
  /-- A result is waited for or dropped. -/
  | redeemed {c : Command} {name : String} {a : Answer} : c = .wait name ∨ c = .forget name →
    Performed s c a { s with pending := s.pending.erase name }
  /-- It is refused, or asks for no more than what there is. -/
  | unchanged {c : Command} {a : Answer} : Performed s c a s

theorem exists_performed (s : EagerSession) (c : Command) :
    ∃ t a, s.perform c = (t, a) ∧ s.Performed c a t := by
  refine ⟨(s.perform c).1, (s.perform c).2, rfl, ?_⟩
  cases c with
  | store c => exact .stored _
  | openStream name => exact .cleared (.inl rfl)
  | closeStream name =>
    simp only [perform]
    split
    · exact .closed
    · exact .unchanged
  | launch name request pending =>
    rcases s.perform_launch name pending request with
      ⟨error, kernel, herror, hkernel, heq⟩ | ⟨-, a, -, heq⟩
    · rw [heq]
      exact .launched herror hkernel
    · rw [heq]
      exact .unchanged
  | wait name =>
    simp only [perform]
    split
    · exact .unchanged
    · exact .redeemed (.inl rfl)
  | forget name =>
    simp only [perform]
    split
    · exact .unchanged
    · exact .redeemed (.inr rfl)
  | synchronize name =>
    simp only [perform]
    split
    · exact .unchanged
    · exact .cleared (.inr rfl)
    · exact .unchanged
  | describe name =>
    simp only [perform]
    split <;> exact .unchanged

@[simp] theorem device_perform (s : EagerSession) (c : Command) :
    (s.perform c).1.device = s.device := by
  cases c <;> simp only [perform] <;> (repeat' split) <;> rfl

@[simp] theorem device_after (s : EagerSession) (cs : List Command) :
    (s.after cs).device = s.device := by
  induction cs generalizing s with
  | nil => rfl
  | cons c cs ih => exact (ih _).trans (device_perform s c)

/-! ## Pending results -/

theorem pending_perform (h : ¬c.Touches pending) :
    (s.perform c).1.pending.get? pending = s.pending.get? pending := by
  cases c with
  | store c => rfl
  | openStream name => rfl
  | closeStream name | synchronize name | describe name =>
    simp only [perform]
    split <;> rfl
  | launch name request other =>
    rcases s.perform_launch name other request with ⟨error, kernel, -, -, heq⟩ | ⟨-, a, -, heq⟩
    · rw [heq]
      exact Bindings.get?_put_of_ne (Ne.symm h) _ _
    · rw [heq]
  | wait name | forget name =>
    simp only [perform]
    split
    · rfl
    · exact Bindings.get?_erase_of_ne (Ne.symm h) _

/-- A pending result stays what it is until a command concerns it. -/
theorem pending_after (h : ∀ c ∈ cs, ¬c.Touches pending) :
    (s.after cs).pending.get? pending = s.pending.get? pending := by
  induction cs generalizing s with
  | nil => rfl
  | cons c cs ih =>
    rw [after, ih fun d hd => h d (List.mem_cons_of_mem _ hd),
      pending_perform (h c List.mem_cons_self)]

/-! ## Errors -/

/-- The errors of the launches that a command makes on a stream. -/
def failures (s : EagerSession) (stream : String) : Command → List SelectError
  | .launch name request _ =>
    if name = stream then
      match s.store.kernel request with
      | .ok kernel => (errorOf? (kernel s.device.launch).result).toList
      | .error _ => []
    else
      []
  | .store _ | .openStream _ | .closeStream _ | .wait _ | .forget _ | .synchronize _
  | .describe _ => []

/-- The errors of the launches that some commands make on a stream, in their order. -/
def failuresOf (s : EagerSession) (stream : String) : List Command → List SelectError
  | [] => []
  | c :: cs => s.failures stream c ++ (s.perform c).1.failuresOf stream cs

theorem errors_perform (h : ¬c.Resets stream) {error : Option SelectError}
    (herror : s.errors.get? stream = some error) :
    (s.perform c).1.errors.get? stream = some (error.or (s.failures stream c).head?) := by
  -- What most commands come to: no launch, and no change.
  have hsame : some error = some (error.or ([] : List SelectError).head?) := by
    rw [List.head?_nil, Option.or_none]
  cases c with
  | store c => exact herror.trans hsame
  | openStream name =>
    exact ((Bindings.get?_put_of_ne (Ne.symm h) _ _).trans herror).trans hsame
  | closeStream name =>
    simp only [perform]
    split
    · exact ((Bindings.get?_erase_of_ne (Ne.symm h) _).trans herror).trans hsame
    · exact herror.trans hsame
  | synchronize name =>
    simp only [perform]
    split
    · exact herror.trans hsame
    · exact ((Bindings.get?_put_of_ne (Ne.symm h) _ _).trans herror).trans hsame
    · exact herror.trans hsame
  | wait name | forget name | describe name =>
    simp only [perform]
    split <;> exact herror.trans hsame
  | launch name request pending =>
    rw [failures]
    by_cases hname : name = stream
    · subst hname
      rw [if_pos rfl]
      rcases s.perform_launch name pending request with
        ⟨error', kernel, herror', hkernel, heq⟩ | ⟨hnone | ⟨a, hrefused⟩, b, -, heq⟩
      · obtain rfl := Option.some.inj (herror.symm.trans herror')
        rw [heq, hkernel, Bindings.get?_put_self]
        simp only [Option.head?_toList]
      · exact absurd (herror.symm.trans hnone) (by simp)
      · rw [heq, hrefused]
        exact herror.trans hsame
    · rw [if_neg hname, ← hsame]
      rcases s.perform_launch name pending request with ⟨_, kernel, -, -, heq⟩ | ⟨-, a, -, heq⟩
      · rw [heq]
        exact (Bindings.get?_put_of_ne (Ne.symm hname) _ _).trans herror
      · rw [heq]
        exact herror

/-- A stream keeps the first error since it was last asked. -/
theorem errors_after (h : ∀ c ∈ cs, ¬c.Resets stream) {error : Option SelectError}
    (herror : s.errors.get? stream = some error) :
    (s.after cs).errors.get? stream = some (error.or (s.failuresOf stream cs).head?) := by
  induction cs generalizing s error with
  | nil => rw [after, failuresOf, List.head?_nil, Option.or_none, herror]
  | cons c cs ih =>
    rw [after, ih (fun d hd => h d (List.mem_cons_of_mem _ hd))
      (errors_perform (h c List.mem_cons_self) herror), failuresOf, List.head?_append,
      Option.or_assoc]

theorem synchronize_eq {error : Option SelectError} (herror : s.errors.get? stream = some error) :
    (s.perform (.synchronize stream)).2 = .ofError error ∧
      (s.perform (.synchronize stream)).1.errors.get? stream = some none := by
  cases error with
  | none => simp only [perform, herror, Answer.ofError, and_self]
  | some e => simp only [perform, herror, Answer.ofError, Bindings.get?_put_self, and_self]

/-! ## Waiting changes no other answer -/

/-- The sessions differ in pending results only. -/
structure Agrees (s t : EagerSession) : Prop where
  device : s.device = t.device
  store : s.store = t.store
  errors : s.errors = t.errors

theorem Agrees.perform (h : s.Agrees t) (c : Command) (hc : c.redeems = false) :
    (s.perform c).1.Agrees (t.perform c).1 ∧ (s.perform c).2 = (t.perform c).2 := by
  obtain ⟨device, store, errors, pending⟩ := s
  obtain ⟨_, _, _, pending'⟩ := t
  obtain ⟨rfl, rfl, rfl⟩ := h
  cases c with
  | store c => exact ⟨⟨rfl, rfl, rfl⟩, rfl⟩
  | openStream name => exact ⟨⟨rfl, rfl, rfl⟩, rfl⟩
  | closeStream name | synchronize name | describe name =>
    simp only [EagerSession.perform]
    split <;> exact ⟨⟨rfl, rfl, rfl⟩, rfl⟩
  | launch name request pending =>
    simp only [EagerSession.perform]
    split
    · exact ⟨⟨rfl, rfl, rfl⟩, rfl⟩
    · split <;> exact ⟨⟨rfl, rfl, rfl⟩, rfl⟩
  | wait name | forget name => exact absurd hc (by simp [Command.redeems])

theorem Agrees.perform_redeems (h : s.Agrees t) (c : Command) (hc : c.redeems = true) :
    (s.perform c).1.Agrees t := by
  cases c with
  | wait name | forget name =>
    simp only [EagerSession.perform]
    split <;> exact ⟨h.device, h.store, h.errors⟩
  | store c | openStream name | closeStream name | launch name request pending
  | synchronize name | describe name => exact absurd hc (by simp [Command.redeems])

/-- Without waiting for results and dropping them, all other answers are the same. -/
theorem Agrees.run_filter_redeems (h : s.Agrees t) (cs : List Command) :
    (cs.zip (s.run cs)).filter (fun p => !p.1.redeems) =
      (cs.filter fun c => !c.redeems).zip (t.run (cs.filter fun c => !c.redeems)) := by
  induction cs generalizing s t with
  | nil => rfl
  | cons c cs ih =>
    cases hc : c.redeems with
    | true =>
      simp only [run, List.zip_cons_cons, List.filter_cons, hc, Bool.not_true, Bool.false_eq_true,
        if_false]
      exact ih (h.perform_redeems c hc)
    | false =>
      obtain ⟨hagrees, hanswer⟩ := h.perform c hc
      simp only [run, List.zip_cons_cons, List.filter_cons, hc, Bool.not_false, if_true, hanswer]
      rw [ih hagrees]

end EagerSession

end NeighborSearch
