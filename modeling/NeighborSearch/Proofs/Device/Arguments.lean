import NeighborSearch.Proofs.Device.Session
import NeighborSearch.Proofs.Selection.TopK

/-!
# Argument errors stay out of streams

A selection with wrong arguments is refused before anything is launched. One that is launched
checks its arguments again while it runs, and then finds nothing wrong with them: it can fail
only because it does not get its memory (`fusedTopKGranted_of_accepted`). So streams and pending
results tell of errors only that arose while a launch was running, whatever memory selections get
and in whatever order they do their work (`RunsGranted`).
-/

namespace NeighborSearch

/-! ## Selections that do not get their memory -/

namespace Selection

/-- All that can be wrong is wrong with the arguments. -/
theorem invalidArgument_of_checkArguments {ncols entries k : ℕ} {error : SelectError}
    (h : checkArguments ncols entries k = .error error) :
    ∃ cause, error = .invalidArgument cause := by
  simp only [checkArguments] at h
  repeat' split at h
  all_goals first
    | exact ⟨_, (Except.error.inj h).symm⟩
    | exact absurd h (by simp)

/-- The first computation comes to the same as the second one, or does not get its memory. -/
def OrShort {α : Type} (x y : Except SelectError α) : Prop :=
  x = y ∨ ∃ bytes, x = .error (.outOfMemory bytes)

namespace OrShort

variable {α β : Type} {x y : Except SelectError α} {f g : α → Except SelectError β}

theorem refl (x : Except SelectError α) : OrShort x x := .inl rfl

theorem bind (hxy : OrShort x y) (hfg : ∀ a, OrShort (f a) (g a)) :
    OrShort (x >>= f) (y >>= g) := by
  rcases hxy with rfl | ⟨bytes, rfl⟩
  · cases x with
    | error e => exact .inl rfl
    | ok a => exact hfg a
  · exact .inr ⟨bytes, rfl⟩

end OrShort

variable {granted : Grants} {m : Matrix Single} {bias : Array Single} {k : ℕ}

theorem reserve_bind {α : Type} {x y : Except SelectError α} (granted : Grants) (r : Reservation)
    (count width : ℕ) (h : OrShort x y) :
    OrShort (reserve granted r count width >>= fun _ => x) y := by
  rw [reserve]
  split
  · exact h
  · exact .inr ⟨_, rfl⟩

/-- Rows are selected from in memory that has been reserved. -/
theorem selectRows_granting (granted : Grants) (schedule : Schedule) (g : Geometry) (k : ℕ)
    (bias : Array Single) (q : ℕ) (rows : List (List Single)) (s : Scratch) :
    (Platform.granting granted).selectRows schedule g k bias q rows s =
      selectRows schedule g k bias q rows s := by
  induction rows generalizing q s with
  | nil => rfl
  | cons row rows ih =>
    rw [selectRows_cons, Platform.selectRows]
    simp only [ih]
    rfl

theorem runGroup_orShort (granted : Grants) (schedule : Schedule) (g : Geometry)
    (m : Matrix Single) (k : ℕ) (bias : Array Single) (rowsPerGroup i : ℕ) (out : Output) :
    OrShort ((Platform.granting granted).runGroup schedule g m k bias rowsPerGroup i out)
      (runGroup schedule g m k bias rowsPerGroup i out) := by
  obtain ⟨distances, indices⟩ := out
  simp only [runGroup_def, Platform.runGroup, reserveScratch, bind_assoc, selectRows_granting]
  iterate 5 refine reserve_bind granted _ _ _ ?_
  exact .refl _

theorem foldlM_orShort {σ : Type} {task task' : σ → ℕ → Except SelectError σ}
    (h : ∀ s i, OrShort (task s i) (task' s i)) (l : List ℕ) (s : σ) :
    OrShort (l.foldlM task s) (l.foldlM task' s) := by
  induction l generalizing s with
  | nil => exact .refl _
  | cons i l ih =>
    rw [List.foldlM_cons, List.foldlM_cons]
    exact (h s i).bind ih

/-- Whatever memory a selection gets, it has its result or has not got some of its memory. -/
theorem fusedTopKGranted_orShort (granted : Grants) (schedule : Schedule) (m : Matrix Single)
    (bias : Array Single) (k : ℕ) (config : LaunchConfig) :
    OrShort (fusedTopKGranted granted schedule m bias k config)
      (fusedTopKUnder schedule m bias k config) := by
  rw [fusedTopKUnder_def, fusedTopKGranted, Platform.fusedTopK]
  refine (OrShort.refl _).bind fun _ => ?_
  dsimp only
  cases Size.mul? m.nrows k with
  | none => exact .refl _
  | some size =>
    refine reserve_bind granted _ _ _ (reserve_bind granted _ _ _ ?_)
    refine (foldlM_orShort (fun out i => ?_) _ _).bind fun _ => .refl _
    exact runGroup_orShort granted schedule _ m k bias _ i out

/-- With arguments that are accepted, a selection can fail only because it does not get its
    memory. -/
theorem fusedTopKGranted_of_accepted (granted : Grants) (schedule : Schedule)
    (config : LaunchConfig) (h : checkArguments m.ncols bias.size k = .ok ()) :
    OrShort (fusedTopKGranted granted schedule m bias k config) (.ok (referenceTopK m bias k)) := by
  obtain ⟨hk, hkn, hbias, hcols⟩ := checkArguments_eq_ok_iff.1 h
  rw [← fusedTopKUnder_eq_reference schedule config hk hkn hcols hbias]
  exact fusedTopKGranted_orShort granted schedule m bias k config

/-- All memory can be had. -/
def Ample (granted : Grants) : Prop := ∀ r, granted r = true

/-- In any order of its work a selection comes to the same, also with wrong arguments. -/
theorem fusedTopKUnder_eq_fusedTopK (schedule : Schedule) (m : Matrix Single)
    (bias : Array Single) (k : ℕ) (config : LaunchConfig) :
    fusedTopKUnder schedule m bias k config = fusedTopK m bias k config := by
  cases hcheck : checkArguments m.ncols bias.size k with
  | error e => rw [fusedTopK, fusedTopKUnder_def, fusedTopKUnder_def, hcheck]; rfl
  | ok u =>
    obtain ⟨hk, hkn, hbias, hcols⟩ := checkArguments_eq_ok_iff.1 hcheck
    rw [fusedTopK, fusedTopKUnder_eq_reference schedule config hk hkn hcols hbias,
      fusedTopKUnder_eq_reference .inOrder config hk hkn hcols hbias]

/-- A selection that gets all its memory is one that reserves none. -/
theorem Ample.fusedTopKGranted_eq (h : Ample granted) (schedule : Schedule)
    (m : Matrix Single) (bias : Array Single) (k : ℕ) (config : LaunchConfig) :
    fusedTopKGranted granted schedule m bias k config = fusedTopK m bias k config := by
  obtain rfl : granted = fun _ => true := funext h
  exact fusedTopKUnder_eq_fusedTopK schedule m bias k config

/-- The kernel of a selection, with the memory that it gets and the order of its work. -/
def kernelGranted (granted : Grants) (schedule : Schedule) (m : Matrix Single)
    (bias : Array Single) (k : ℕ) : Kernel Outcome :=
  fun config => .returned (.topK <$> fusedTopKGranted granted schedule m bias k config)

theorem result_kernelGranted (granted : Grants) (schedule : Schedule) (config : LaunchConfig)
    (h : checkArguments m.ncols bias.size k = .ok ()) :
    OrShort (kernelGranted granted schedule m bias k config).result
      (.ok (.topK (referenceTopK m bias k))) :=
  (fusedTopKGranted_of_accepted granted schedule config h).bind fun _ => .refl _

theorem Ample.result_kernelGranted (hample : Ample granted) (schedule : Schedule)
    (config : LaunchConfig) (h : checkArguments m.ncols bias.size k = .ok ()) :
    (kernelGranted granted schedule m bias k config).result =
      .ok (.topK (referenceTopK m bias k)) := by
  obtain ⟨hk, hkn, hbias, hcols⟩ := checkArguments_eq_ok_iff.1 h
  rw [kernelGranted, KernelExit.result, hample.fusedTopKGranted_eq, fusedTopK,
    fusedTopKUnder_eq_reference .inOrder config hk hkn hcols hbias]
  rfl

end Selection

/-! ## Sessions in which selections may not get their memory -/

namespace Command

/-- If the command launches a kernel, then it has a result, breaks off, or fails with an error
    that arises while a launch is running. -/
def FailsInExecution : Command → Prop
  | .launch _ (.kernel kernel) _ =>
    ∀ config error, kernel config = .returned (.error error) → error.isExecutionError = true
  | .launch _ (.select _ _ _) _ | .store _ | .openStream _ | .closeStream _ | .wait _ | .forget _
  | .synchronize _ | .describe _ => True

/-- If the command launches on the stream, it is a selection. -/
def SelectsOn (stream : String) : Command → Prop
  | .launch name (.kernel _) _ => name ≠ stream
  | .launch _ (.select _ _ _) _ | .store _ | .openStream _ | .closeStream _ | .wait _ | .forget _
  | .synchronize _ | .describe _ => True

end Command

namespace Session

/-- As `Runs`, but selections, at once or on a stream, do their work in any order and with what
    memory they happen to get; `memory` tells what that may be. -/
inductive RunsGranted (memory : Selection.Grants → Prop) :
    Session → List Command → List Answer → Session → Prop
  | done {s : Session} : RunsGranted memory s [] [] s
  | work {s s' t : Session} {stream : String} {cs : List Command} {as : List Answer} :
    s.work? stream = some s' → RunsGranted memory s' cs as t → RunsGranted memory s cs as t
  | command {s s' t : Session} {c : Command} {a : Answer} {cs : List Command}
    {as : List Answer} :
    s.perform? c = some (s', a) → RunsGranted memory s' cs as t →
    RunsGranted memory s (c :: cs) (a :: as) t
  | selectAtOnce {s t : Session} {matrix bias : String} {k : ℕ} {m : Matrix Single}
    {b : Array Single} {cs : List Command} {as : List Answer} (granted : Selection.Grants)
    (schedule : Schedule) :
    s.store.operands matrix bias = .ok (m, b) → memory granted → RunsGranted memory s cs as t →
    RunsGranted memory s (.store (.select matrix bias k) :: cs)
      (.ofResult (.topK <$> Selection.fusedTopKGranted granted schedule m b k s.device.launch) ::
        as) t
  | select {s t : Session} {name : String} {stream : Stream Outcome} {matrix bias : String}
    {k : ℕ} {pending : String} {m : Matrix Single} {b : Array Single} {cs : List Command}
    {as : List Answer} (granted : Selection.Grants) (schedule : Schedule) :
    s.streams.get? name = some stream → s.store.operands matrix bias = .ok (m, b) →
    Selection.checkArguments m.ncols b.size k = .ok () → memory granted →
    RunsGranted memory
      (s.launch name stream (Selection.kernelGranted granted schedule m b k) pending) cs as t →
    RunsGranted memory s (.launch name (.select matrix bias k) pending :: cs) (.done :: as) t

theorem Runs.runsGranted {s t : Session} {cs : List Command} {as : List Answer}
    (h : Runs s cs as t) (memory : Selection.Grants → Prop) : RunsGranted memory s cs as t := by
  induction h with
  | done => exact .done
  | work hwork _ ih => exact .work hwork ih
  | command hperform _ ih => exact .command hperform ih

end Session

/-! ## Errors of eager sessions -/

/-- If there is no result, then because of an error that arose while a launch was running. -/
def FailsInExecution (result : Except SelectError Outcome) : Prop :=
  ∀ error, result = .error error → error.isExecutionError = true

theorem Selection.OrShort.failsInExecution {x : Except SelectError Outcome} {o : Outcome}
    (h : OrShort x (.ok o)) : FailsInExecution x := by
  rintro error rfl
  rcases h with h | ⟨bytes, h⟩
  · exact absurd h (by simp)
  · obtain rfl := Except.error.inj h
    rfl

/-- A selection is launched with the values that are stored, if its arguments are accepted. -/
theorem Store.kernel_select_eq_ok_iff {store : Store} {matrix bias : String} {k : ℕ}
    {kernel : Kernel Outcome} :
    store.kernel (.select matrix bias k) = .ok kernel ↔
      ∃ m b, store.operands matrix bias = .ok (m, b) ∧
        Selection.checkArguments m.ncols b.size k = .ok () ∧
        kernel = fun config => .returned (.topK <$> Selection.fusedTopK m b k config) := by
  rw [Store.kernel]
  cases store.operands matrix bias with
  | error a => simp [bind, Except.bind]
  | ok operands =>
    obtain ⟨m, b⟩ := operands
    simp only [ok_bind, Except.ok.injEq, Prod.mk.injEq, and_assoc, exists_and_left, exists_eq_left']
    cases hcheck : Selection.checkArguments m.ncols b.size k with
    | error e => simp [throw, throwThe, MonadExceptOf.throw]
    | ok u => simp [pure, Except.pure, eq_comm]

/-- A selection that is launched finds nothing wrong with its arguments while it runs. -/
theorem Store.result_of_kernel_select {store : Store} {matrix bias : String} {k : ℕ}
    {kernel : Kernel Outcome} (h : store.kernel (.select matrix bias k) = .ok kernel) :
    ∃ m b, store.operands matrix bias = .ok (m, b) ∧ ∀ config,
      (kernel config).result = .ok (.topK (Selection.referenceTopK m b k)) := by
  obtain ⟨m, b, hoperands, hcheck, rfl⟩ := Store.kernel_select_eq_ok_iff.1 h
  obtain ⟨hk, hkn, hbias, hcols⟩ := Selection.checkArguments_eq_ok_iff.1 hcheck
  refine ⟨m, b, hoperands, fun config => ?_⟩
  rw [KernelExit.result, Selection.fusedTopK,
    Selection.fusedTopKUnder_eq_reference .inOrder config hk hkn hcols hbias]
  rfl

/-- What the kernel of a command comes to. -/
theorem failsInExecution_of_kernel {store : Store} {stream : String} {request : Request}
    {pending : String} {kernel : Kernel Outcome}
    (hc : (Command.launch stream request pending).FailsInExecution)
    (hkernel : store.kernel request = .ok kernel) (config : LaunchConfig) :
    FailsInExecution (kernel config).result := by
  cases request with
  | select matrix bias k =>
    obtain ⟨m, b, -, hresult⟩ := Store.result_of_kernel_select hkernel
    rw [hresult config]
    exact fun error h => absurd h (by simp)
  | kernel asked =>
    obtain rfl := Except.ok.inj hkernel
    intro error herror
    cases hexit : asked config with
    | returned result =>
      rw [hexit] at herror
      exact hc config error (hexit.trans (congrArg _ herror))
    | panicked payload =>
      rw [hexit] at herror
      obtain rfl := Except.error.inj herror
      rfl

namespace EagerSession

variable {e : EagerSession} {c : Command}

/-- All errors that are kept arose while a launch was running. -/
structure InExecution (e : EagerSession) : Prop where
  errors : ∀ name error, e.errors.get? name = some (some error) → error.isExecutionError = true
  pending : ∀ name result, e.pending.get? name = some result → FailsInExecution result

namespace InExecution

theorem start (device : DeviceConfig) : (start device).InExecution where
  errors _ _ h := absurd h (by simp [EagerSession.start, Bindings.get?])
  pending _ _ h := absurd h (by simp [EagerSession.start, Bindings.get?])

/-- A launch adds no other error. -/
theorem launch (h : e.InExecution) {name : String} {error : Option SelectError}
    (herror : e.errors.get? name = some error) (pending : String)
    {result : Except SelectError Outcome} (hresult : FailsInExecution result) :
    { e with
      errors := e.errors.put name (error.or (errorOf? result))
      pending := e.pending.put pending result }.InExecution where
  errors other kept hkept := by
    rw [Bindings.get?_put] at hkept
    split at hkept
    case isTrue =>
      rcases Option.or_eq_some_iff.1 (Option.some.inj hkept) with hold | ⟨-, hnew⟩
      · exact h.errors name kept (herror.trans (congrArg some hold))
      · cases result with
        | ok o => exact absurd hnew (by simp [errorOf?])
        | error new => exact hresult kept (congrArg _ (Option.some.inj hnew))
    case isFalse => exact h.errors other kept hkept
  pending := Bindings.forall_get?_put h.pending hresult

theorem put (h : e.InExecution) (name : String) :
    { e with errors := e.errors.put name none }.InExecution where
  errors other kept hkept := by
    rw [Bindings.get?_put] at hkept
    split at hkept
    case isTrue => exact absurd hkept (by simp)
    case isFalse => exact h.errors other kept hkept
  pending := h.pending

theorem perform (h : e.InExecution) (hc : c.FailsInExecution) : (e.perform c).1.InExecution := by
  obtain ⟨f, a, heq, hperformed⟩ := e.exists_performed c
  rw [heq]
  cases hperformed with
  | stored store => exact ⟨h.errors, h.pending⟩
  | @cleared c name => exact h.put name
  | closed =>
    exact ⟨fun other error herror =>
      h.errors other error (Bindings.get?_erase_eq_some_iff.1 herror).2, h.pending⟩
  | @launched name request pending error kernel herror hkernel =>
    exact h.launch herror pending (failsInExecution_of_kernel hc hkernel _)
  | redeemed =>
    exact ⟨h.errors, fun other result hresult =>
      h.pending other result (Bindings.get?_erase_eq_some_iff.1 hresult).2⟩
  | unchanged => exact h

/-- What a stream tells, and what a launch came to. -/
theorem answer (h : e.InExecution) {name : String} (hc : c = .synchronize name ∨ c = .wait name)
    {error : SelectError} (herror : (e.perform c).2 = .failed error) :
    error.isExecutionError = true := by
  rcases hc with rfl | rfl
  · simp only [EagerSession.perform] at herror
    split at herror
    · exact absurd herror (by simp)
    · obtain rfl := Answer.failed.inj herror
      exact h.errors name _ ‹_›
    · exact absurd herror (by simp)
  · simp only [EagerSession.perform] at herror
    split at herror
    case h_1 => exact absurd herror (by simp)
    case h_2 result hresult =>
      cases result with
      | ok o => exact absurd herror (by simp [Answer.ofResult])
      | error e =>
        obtain rfl := Answer.failed.inj herror
        exact h.pending name _ hresult _ rfl

end InExecution

/-- A selection that is accepted leaves its result to be waited for, and no error. -/
theorem perform_select {name matrix bias : String} {k : ℕ} {error : Option SelectError}
    {m : Matrix Single} {b : Array Single} (herror : e.errors.get? name = some error)
    (hoperands : e.store.operands matrix bias = .ok (m, b))
    (hcheck : Selection.checkArguments m.ncols b.size k = .ok ()) (pending : String) :
    e.perform (.launch name (.select matrix bias k) pending) = ({ e with
      errors := e.errors.put name error
      pending := e.pending.put pending (.ok (.topK (Selection.referenceTopK m b k))) }, .done) := by
  have hkernel : e.store.kernel (.select matrix bias k) = .ok _ :=
    Store.kernel_select_eq_ok_iff.2 ⟨m, b, hoperands, hcheck, rfl⟩
  obtain ⟨m', b', hoperands', hresult⟩ := Store.result_of_kernel_select hkernel
  obtain ⟨rfl, rfl⟩ := Prod.mk.inj (Except.ok.inj (hoperands.symm.trans hoperands'))
  simp only [perform, herror, hkernel, hresult, errorOf?, Option.or_none]

/-- If there is a stream of this name, then it keeps no error. -/
def Clear (e : EagerSession) (stream : String) : Prop :=
  ∀ error, e.errors.get? stream = some error → error = none

namespace Clear

variable {stream : String}

theorem perform (h : e.Clear stream) (hc : c.SelectsOn stream) : (e.perform c).1.Clear stream := by
  obtain ⟨f, a, heq, hperformed⟩ := e.exists_performed c
  rw [heq]
  intro error herror
  cases hperformed with
  | stored store => exact h error herror
  | cleared =>
    rw [Bindings.get?_put] at herror
    split at herror
    case isTrue => exact (Option.some.inj herror).symm
    case isFalse => exact h error herror
  | closed => exact h error (Bindings.get?_erase_eq_some_iff.1 herror).2
  | @launched name request pending old kernel hold hkernel =>
    rw [Bindings.get?_put] at herror
    split at herror
    case isTrue hname =>
      subst hname
      cases request with
      | kernel kernel => exact absurd rfl hc
      | select matrix bias k =>
        -- The stream had kept no error, and a selection adds none.
        obtain ⟨m, b, -, hresult⟩ := Store.result_of_kernel_select hkernel
        rw [hresult, h old hold] at herror
        exact (Option.some.inj herror).symm
    case isFalse => exact h error herror
  | redeemed => exact h error herror
  | unchanged => exact h error herror

theorem after {cs : List Command} (h : e.Clear stream) (hcs : ∀ c ∈ cs, c.SelectsOn stream) :
    (e.after cs).Clear stream := by
  induction cs generalizing e with
  | nil => exact h
  | cons c cs ih =>
    exact ih (h.perform (hcs c List.mem_cons_self)) fun d hd => hcs d (List.mem_cons_of_mem _ hd)

end Clear

end EagerSession

/-! ## Errors of sessions with workers -/

namespace Session

variable {s t : Session} {e : EagerSession} {memory : Selection.Grants → Prop}
  {cs : List Command} {as : List Answer}

/-- The eager session knows the error that a stream will have kept. -/
theorem Refines.get?_errors (h : s.Refines e) {name : String} {stream : Stream Outcome}
    (hstream : s.streams.get? name = some stream) :
    e.errors.get? name = some stream.settledError := by
  rw [h.errors, hstream, Option.map_some]

theorem RunsGranted.isExecutionError (hruns : RunsGranted memory s cs as t) (h : s.Refines e)
    (he : e.InExecution) (hcs : ∀ c ∈ cs, c.FailsInExecution) {i : ℕ} {c : Command}
    {name : String} {error : SelectError} (hc : cs[i]? = some c)
    (hname : c = .synchronize name ∨ c = .wait name) (ha : as[i]? = some (.failed error)) :
    error.isExecutionError = true := by
  induction hruns generalizing e i with
  | done => exact absurd hc (by simp)
  | work hwork _ ih => exact ih (h.work? hwork) he hcs hc ha
  | @command s s' t d a cs as hperform _ ih =>
    obtain ⟨hrefines, hanswer⟩ := h.perform? hperform
    cases i with
    | zero =>
      obtain rfl := Option.some.inj hc
      obtain rfl := Option.some.inj ha
      have hne : ∀ name, d ≠ .describe name := by
        rcases hname with rfl | rfl <;> exact fun _ => Command.noConfusion
      exact he.answer hname (hanswer hne).symm
    | succ i =>
      exact ih hrefines (he.perform (hcs d List.mem_cons_self))
        (fun c hmem => hcs c (List.mem_cons_of_mem _ hmem)) hc ha
  | selectAtOnce granted schedule hoperands hmemory _ ih =>
    cases i with
    | zero =>
      obtain rfl := Option.some.inj hc
      rcases hname with hname | hname <;> exact absurd hname (by simp)
    | succ i => exact ih h he (fun c hmem => hcs c (List.mem_cons_of_mem _ hmem)) hc ha
  | select granted schedule hstream hoperands hcheck hmemory _ ih =>
    cases i with
    | zero =>
      obtain rfl := Option.some.inj hc
      rcases hname with hname | hname <;> exact absurd hname (by simp)
    | succ i =>
      refine ih (h.launch hstream _ _) ?_ (fun c hmem => hcs c (List.mem_cons_of_mem _ hmem)) hc ha
      exact he.launch (h.get?_errors hstream) _
        (Selection.result_kernelGranted _ schedule _ hcheck).failsInExecution

/-- Whatever memory selections get, the session goes on as some eager session would. -/
theorem RunsGranted.exists_refines (hruns : RunsGranted memory s cs as t) (h : s.Refines e) :
    ∃ f, t.Refines f := by
  induction hruns generalizing e with
  | done => exact ⟨e, h⟩
  | work hwork _ ih => exact ih (h.work? hwork)
  | command hperform _ ih => exact ih (h.perform? hperform).1
  | selectAtOnce _ _ _ _ _ ih => exact ih h
  | select granted schedule hstream _ _ _ _ ih => exact ih (h.launch hstream _ _)

/-- As long as selections get their memory, all answers but descriptions are those of the eager
    session, in whatever order they do their work. -/
theorem RunsGranted.refines (hruns : RunsGranted Selection.Ample s cs as t) (h : s.Refines e) :
    t.Refines (e.after cs) ∧ ∀ (i : ℕ) (c : Command), cs[i]? = some c →
      (∀ name, c ≠ .describe name) → as[i]? = (e.run cs)[i]? := by
  induction hruns generalizing e with
  | done => exact ⟨h, fun _ _ _ _ => rfl⟩
  | work hwork _ ih => exact ih (h.work? hwork)
  | command hperform _ ih =>
    obtain ⟨hrefines, hanswer⟩ := h.perform? hperform
    obtain ⟨hlast, hrest⟩ := ih hrefines
    refine ⟨hlast, fun i d hd hne => ?_⟩
    cases i with
    | zero =>
      obtain rfl := Option.some.inj hd
      exact congrArg some (hanswer hne)
    | succ i => exact hrest i d hd hne
  | @selectAtOnce s t matrix bias k m b cs as granted schedule hoperands hample _ ih =>
    have hperform : e.perform (.store (.select matrix bias k)) =
        (e, .ofResult (.topK <$> Selection.fusedTopK m b k s.device.launch)) := by
      rw [h.store] at hoperands
      simp only [EagerSession.perform, Store.perform, hoperands, h.device]
    obtain ⟨hlast, hrest⟩ := ih h
    rw [EagerSession.after, EagerSession.run, hperform, hample.fusedTopKGranted_eq]
    refine ⟨hlast, fun i d hd hne => ?_⟩
    cases i with
    | zero => rfl
    | succ i => exact hrest i d hd hne
  | @select s t name stream matrix bias k pending m b cs as granted schedule hstream hoperands
      hcheck hample _ ih =>
    -- In any order of its work the selection comes to the same.
    have hrefines := h.launch hstream (Selection.kernelGranted granted schedule m b k) pending
    rw [hample.result_kernelGranted schedule _ hcheck, errorOf?, Option.or_none] at hrefines
    obtain ⟨hlast, hrest⟩ := ih hrefines
    rw [EagerSession.after, EagerSession.run,
      EagerSession.perform_select (h.get?_errors hstream) (h.store ▸ hoperands) hcheck]
    refine ⟨hlast, fun i d hd hne => ?_⟩
    cases i with
    | zero => rfl
    | succ i => exact hrest i d hd hne

/-- The answer to one of the commands. -/
theorem RunsGranted.answer (pre : List Command) {post : List Command} {c : Command}
    (hruns : RunsGranted Selection.Ample s (pre ++ c :: post) as t) (h : s.Refines e)
    (hc : ∀ name, c ≠ .describe name) : as[pre.length]? = some ((e.after pre).perform c).2 := by
  rw [(hruns.refines h).2 pre.length c (by simp) hc, EagerSession.getElem?_run]

/-- A selection that is accepted selects from what was stored when it was launched. -/
theorem RunsGranted.answer_select {name matrix bias pending : String} {k : ℕ} {m : Matrix Single}
    {b : Array Single} {mid post : List Command}
    (hruns : RunsGranted Selection.Ample s
      (.launch name (.select matrix bias k) pending :: (mid ++ .wait pending :: post)) as t)
    (h : s.Refines e) (hstream : s.streams.get? name ≠ none)
    (hoperands : s.store.operands matrix bias = .ok (m, b))
    (hcheck : Selection.checkArguments m.ncols b.size k = .ok ())
    (hmid : ∀ c ∈ mid, ¬c.Touches pending) :
    as[0]? = some .done ∧
      as[1 + mid.length]? = some (.outcome (.topK (Selection.referenceTopK m b k))) := by
  obtain ⟨u, hu⟩ := Option.ne_none_iff_exists'.1 hstream
  have hperform :=
    EagerSession.perform_select (h.get?_errors hu) (h.store ▸ hoperands) hcheck pending
  constructor
  · have hanswer := hruns.answer [] h fun _ => Command.noConfusion
    rw [EagerSession.after, hperform] at hanswer
    exact hanswer
  · -- Nothing touches the result until it is waited for.
    have hpending : (e.after (.launch name (.select matrix bias k) pending :: mid)).pending.get?
        pending = some (.ok (.topK (Selection.referenceTopK m b k))) := by
      rw [EagerSession.after, EagerSession.pending_after hmid, hperform, Bindings.get?_put_self]
    have hanswer := hruns.answer (.launch name (.select matrix bias k) pending :: mid) h
      fun _ => Command.noConfusion
    rw [List.length_cons, Nat.add_comm] at hanswer
    rw [hanswer]
    simp only [EagerSession.perform, hpending]
    rfl

/-- Argument errors stay out of the streams and the pending results of a device. -/
structure ArgumentErrorsStayOut (device : DeviceConfig) : Prop where
  /-- A selection with wrong arguments is refused at once, and leaves the session as it is: every
      stream with its queue, its launches in flight and its error, all stored values and all
      pending results. -/
  refused : ∀ (s : Session) name matrix bias k pending m b, s.streams.get? name ≠ none →
    s.store.operands matrix bias = .ok (m, b) →
    ¬(0 < k ∧ k ≤ m.ncols ∧ b.size = m.ncols ∧ m.ncols ≤ 2 ^ 32) →
    ∃ cause, s.perform? (.launch name (.select matrix bias k) pending) =
      some (s, .failed (.invalidArgument cause))
  /-- If the kernels that are launched fail, if at all, in execution, then so does all that is
      told of streams and of results, whatever memory selections get. -/
  execution : ∀ memory cs as t, RunsGranted memory (start device) cs as t →
    (∀ c ∈ cs, c.FailsInExecution) →
    ∀ (i : ℕ) c name error, cs[i]? = some c → (c = .synchronize name ∨ c = .wait name) →
      as[i]? = some (.failed error) → error.isExecutionError = true
  /-- All further commands can be answered. -/
  exists_runs : ∀ memory cs as s, RunsGranted memory (start device) cs as s → ∀ ds,
    ∃ bs t, RunsGranted memory s ds bs t
  /-- If selections get the memory they ask for, then a stream on which nothing but selections has
      been launched never tells an error. -/
  synchronize : ∀ pre mid post as bs s t name,
    RunsGranted Selection.Ample (start device) (pre ++ .openStream name :: mid) as s →
    (∀ c ∈ mid, c.SelectsOn name) → s.streams.get? name ≠ none →
    RunsGranted Selection.Ample s (.synchronize name :: post) bs t → bs[0]? = some .done
  /-- Whoever waits for a selection then gets the smallest sums of what was stored when it was
      launched. -/
  wait : ∀ pre mid post as bs s t name matrix bias k pending m b,
    RunsGranted Selection.Ample (start device) pre as s → s.streams.get? name ≠ none →
    s.store.operands matrix bias = .ok (m, b) →
    Selection.checkArguments m.ncols b.size k = .ok () → (∀ c ∈ mid, ¬c.Touches pending) →
    RunsGranted Selection.Ample s
      (.launch name (.select matrix bias k) pending :: (mid ++ .wait pending :: post)) bs t →
    bs[0]? = some .done ∧
      bs[1 + mid.length]? = some (.outcome (.topK (Selection.referenceTopK m b k)))

/-- Argument errors stay out of streams, in every session and whatever steps the workers take. -/
theorem argument_errors_stay_out (device : DeviceConfig) : ArgumentErrorsStayOut device where
  refused s name matrix bias k pending m b hstream hoperands hinvalid := by
    cases hcheck : Selection.checkArguments m.ncols b.size k with
    | ok u => exact absurd (Selection.checkArguments_eq_ok_iff.1 hcheck) hinvalid
    | error error =>
      obtain ⟨cause, rfl⟩ := Selection.invalidArgument_of_checkArguments hcheck
      exact ⟨cause, perform?_select_of_error hstream hoperands hcheck⟩
  execution memory cs as t hruns hcs i c name error hc hname ha :=
    hruns.isExecutionError (refines_start device) (.start device) hcs hc hname ha
  exists_runs memory cs as s hruns ds := by
    obtain ⟨f, hf⟩ := hruns.exists_refines (refines_start device)
    obtain ⟨t, ht⟩ := hf.exists_runs ds
    exact ⟨_, t, ht.runsGranted memory⟩
  synchronize pre mid post as bs s t name hruns hmid hstream hnext := by
    obtain ⟨hrefines, -⟩ := hruns.refines (refines_start device)
    obtain ⟨u, hu⟩ := Option.ne_none_iff_exists'.1 hstream
    have hknown := hrefines.get?_errors hu
    -- The stream keeps no error when it is made.
    have hclear : (((EagerSession.start device).after pre).perform (.openStream name)).1.Clear
        name := by
      intro error herror
      rw [EagerSession.perform, Bindings.get?_put_self] at herror
      exact (Option.some.inj herror).symm
    have hnone : u.settledError = none := by
      refine (hclear.after hmid) _ ?_
      rw [EagerSession.after_append] at hknown
      exact hknown
    rw [hnone] at hknown
    have hanswer := hnext.answer [] hrefines fun _ => Command.noConfusion
    rw [EagerSession.after, (EagerSession.synchronize_eq hknown).1] at hanswer
    exact hanswer
  wait pre mid post as bs s t name matrix bias k pending m b hruns hstream hoperands hcheck hmid
      hnext :=
    hnext.answer_select (hruns.refines (refines_start device)).1 hstream hoperands hcheck hmid

/-- The commands of a host that stores one row of one column and makes a stream, and selects from
    the row on it, first with wrong arguments. -/
def oneSelection : List Command :=
  [.store (.matrix "m" #[.zero] 1 1), .store (.vector "b" #[.zero]), .openStream "s",
    .launch "s" (.select "m" "b" 2) "p", .launch "s" (.select "m" "b" 1) "p"]

/-- The selection does not get the memory for its result. -/
theorem runsGranted_short : ∃ t, RunsGranted (fun _ => True) (start .standard)
    (oneSelection ++ [.wait "p", .synchronize "s"])
    [.extents 1 1, .length 1, .done, .failed (.invalidArgument (.countExceeds 2 1)), .done,
      .failed (.outOfMemory 4), .failed (.outOfMemory 4)] t :=
  ⟨_, .command rfl <| .command rfl <| .command rfl <| .command rfl <|
    .select (fun _ => false) .inOrder rfl rfl rfl trivial <|
    .work (rfl : work? _ "s" = some _) <| .work (rfl : work? _ "s" = some _) <| .command rfl <|
    .work (rfl : work? _ "s" = some _) <| .command rfl .done⟩

/-- The selection gets its memory, and is taken by the worker. -/
theorem runsGranted_ample : ∃ s, RunsGranted Selection.Ample (start .standard) oneSelection
    [.extents 1 1, .length 1, .done, .failed (.invalidArgument (.countExceeds 2 1)), .done] s ∧
      s.streams.get? "s" ≠ none ∧ ∃ m, Matrix.ofArray? #[.zero] 1 1 = .ok m ∧
        s.store.operands "m" "b" = .ok (m, #[.zero]) :=
  ⟨_, .command rfl <| .command rfl <| .command rfl <| .command rfl <|
    .select (fun _ => true) ⟨.backwards, fun _ => .backwards, fun _ _ => .backwards⟩ rfl rfl rfl
      (fun _ => rfl) <|
    .work (rfl : work? _ "s" = some _) .done, nofun, _, rfl, rfl⟩

/-- Without the memory for its result, the selection fails in execution. With it, the stream tells
    no error, and a later selection is waited for while others are in flight. -/
theorem errors_oneSelection :
    (∃ as t, RunsGranted (fun _ => True) (start .standard)
        (oneSelection ++ [.wait "p", .synchronize "s"]) as t ∧
      as[5]? = some (.failed (.outOfMemory 4)) ∧
      (SelectError.outOfMemory 4).isExecutionError = true) ∧
    ∃ as s, RunsGranted Selection.Ample (start .standard) oneSelection as s ∧
      (∃ bs t, RunsGranted Selection.Ample s [.synchronize "s"] bs t ∧ bs[0]? = some .done) ∧
      ∃ bs t, RunsGranted Selection.Ample s
          [.launch "s" (.select "m" "b" 1) "q", .wait "p", .wait "q"] bs t ∧
        ∃ m, Matrix.ofArray? #[.zero] 1 1 = .ok m ∧
          bs[2]? = some (.outcome (.topK (Selection.referenceTopK m #[.zero] 1))) := by
  have hstay := argument_errors_stay_out .standard
  constructor
  · obtain ⟨t, h⟩ := runsGranted_short
    have hcs : ∀ c ∈ oneSelection ++ [.wait "p", .synchronize "s"], c.FailsInExecution := by
      simp [oneSelection, Command.FailsInExecution]
    exact ⟨_, t, h, rfl, hstay.execution _ _ _ _ h hcs 5 _ "p" _ rfl (.inr rfl) rfl⟩
  · obtain ⟨s, h, hstream, m, hm, hoperands⟩ := runsGranted_ample
    refine ⟨_, s, h, ?_, ?_⟩
    · obtain ⟨bs, t, hnext⟩ := hstay.exists_runs _ _ _ s h [.synchronize "s"]
      have hselects : ∀ c ∈ [Command.launch "s" (.select "m" "b" 2) "p",
          .launch "s" (.select "m" "b" 1) "p"], c.SelectsOn "s" := by
        simp [Command.SelectsOn]
      exact ⟨bs, t, hnext, hstay.synchronize (oneSelection.take 2) _ [] _ bs s t "s" h hselects
        hstream hnext⟩
    · obtain ⟨bs, t, hnext⟩ := hstay.exists_runs _ _ _ s h
        [.launch "s" (.select "m" "b" 1) "q", .wait "p", .wait "q"]
      have hmid : ∀ c ∈ [Command.wait "p"], ¬c.Touches "q" := by
        simp [Command.Touches]
      have hcheck : Selection.checkArguments m.ncols #[Single.zero].size 1 = .ok () := by
        obtain rfl := Except.ok.inj hm
        rfl
      obtain ⟨-, hanswer⟩ := hstay.wait _ [.wait "p"] [] _ bs s t "s" "m" "b" 1 "q" m _ h hstream
        hoperands hcheck hmid hnext
      exact ⟨bs, t, hnext, m, hm, hanswer⟩

end Session

end NeighborSearch
