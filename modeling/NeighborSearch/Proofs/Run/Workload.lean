import NeighborSearch.Proofs.Device.Arguments
import NeighborSearch.Proofs.Scan.Nearest
import NeighborSearch.Run.Workload

/-!
# What is measured

The data of a run is a query with codes, or a matrix with a bias (`RunData`), and has the sizes
that the run asks for (`RunData.Suits`). A workload that does the run on that data
(`Workload.Does`) goes one of two ways, and the check of the run tells which: it has a result, which
depends on the data only, and does the same run on the same data afterwards (`perform_eq_ok`),
or it is refused, for the reason that the check gives (`perform_of_rejected`). Only rows of more
columns than can be numbered are refused by the selection alone. The order in which codes come to
be scored makes no difference to any workload (`perform_order`).
-/

namespace NeighborSearch

/-! ## Devices that hold the data of a selection -/

namespace Session

variable {s t : Session} {e : EagerSession} {m : Matrix Single} {b : Array Single} {k : ℕ}

/-- The device has a stream without an error, and holds the operands of a selection. -/
def HoldsData (s : Session) (m : Matrix Single) (b : Array Single) : Prop :=
  ∃ e, s.Refines e ∧ e.store.operands "distances" "bias" = .ok (m, b) ∧
    e.errors.get? "stream" = some none

/-- Every command is carried out in the end, as in the eager session. -/
theorem Refines.perform_eq_some (h : s.Refines e) {c : Command}
    (hc : ∀ name, c ≠ .describe name) :
    ∃ t, s.perform c = some (t, (e.perform c).2) ∧ t.Refines (e.perform c).1 := by
  obtain ⟨t, a, hperform, hrefines, hruns⟩ := h.exists_perform c
  obtain ⟨-, -, hanswers⟩ := h.runs (hruns [] [] t .done)
  have ha : a = (e.perform c).2 := Option.some.inj (hanswers 0 c rfl hc)
  exact ⟨t, ha ▸ hperform, hrefines⟩

theorem Refines.expect_eq_ok (h : s.Refines e) {f : EagerSession} {c : Command} {a : Answer}
    (heager : e.perform c = (f, a)) (hc : ∀ name, c ≠ .describe name)
    (hfailed : ∀ error, a ≠ .failed error) (hshape : ∀ error, a ≠ .misshapen error) :
    ∃ t, s.expect c = .ok (t, a) ∧ t.Refines f := by
  obtain ⟨t, hperform, hrefines⟩ := h.perform_eq_some hc
  rw [heager] at hperform hrefines
  refine ⟨t, ?_, hrefines⟩
  rw [expect, hperform]
  cases a with
  | failed error => exact absurd rfl (hfailed error)
  | misshapen error => exact absurd rfl (hshape error)
  | done | extents _ _ | length _ | outcome _ | row _ | description _ | unknown _ => rfl

theorem Refines.expect_eq_error (h : s.Refines e) {c : Command} {error : SelectError}
    (hc : ∀ name, c ≠ .describe name) (ha : (e.perform c).2 = .failed error) :
    s.expect c = .error (.select error) := by
  obtain ⟨t, hperform, -⟩ := h.perform_eq_some hc
  rw [expect, hperform, ha]

/-- A selection with arguments that are accepted answers, and leaves the data as it was. -/
theorem HoldsData.selectOnce_eq_ok (h : s.HoldsData m b)
    (hcheck : Selection.checkArguments m.ncols b.size k = .ok ()) :
    ∃ t, s.selectOnce k = .ok (Selection.referenceTopK m b k, t) ∧ t.HoldsData m b := by
  obtain ⟨e, hs, hoperands, herror⟩ := h
  have hselect := EagerSession.perform_select herror hoperands hcheck "result"
  obtain ⟨t₁, ht₁, hs₁⟩ := hs.expect_eq_ok hselect (fun _ => Command.noConfusion)
    (fun _ => Answer.noConfusion) fun _ => Answer.noConfusion
  -- The stream keeps no error, so the result is asked for.
  obtain ⟨t₂, ht₂, hs₂⟩ := hs₁.expect_eq_ok (c := .synchronize "stream") (a := .done)
    (by simp only [EagerSession.perform, Bindings.get?_put_self]; rfl)
    (fun _ => Command.noConfusion) (fun _ => Answer.noConfusion) fun _ => Answer.noConfusion
  obtain ⟨t₃, ht₃, hs₃⟩ := hs₂.expect_eq_ok (c := .wait "result")
    (by simp only [EagerSession.perform, Bindings.get?_put_self]; rfl)
    (fun _ => Command.noConfusion) (fun _ => Answer.noConfusion) fun _ => Answer.noConfusion
  refine ⟨t₃, ?_, _, hs₃, hoperands, Bindings.get?_put_self _ _ _⟩
  simp only [selectOnce, ht₁, ht₂, ht₃, ok_bind]
  rfl

/-- With other arguments nothing is launched. -/
theorem HoldsData.selectOnce_eq_error (h : s.HoldsData m b) {error : SelectError}
    (hcheck : Selection.checkArguments m.ncols b.size k = .error error) :
    s.selectOnce k = .error (.select error) := by
  obtain ⟨e, hs, hoperands, herror⟩ := h
  have hkernel : e.store.kernel (.select "distances" "bias" k) = .error (.failed error) := by
    simp only [Store.kernel, hoperands, ok_bind, hcheck]
    rfl
  have hrefused : (e.perform (.launch "stream" (.select "distances" "bias" k) "result")).2 =
      .failed error := by
    simp only [EagerSession.perform, herror, hkernel]
  rw [selectOnce, hs.expect_eq_error (fun _ => Command.noConfusion) hrefused]
  rfl

/-- A device that is given the data of a selection holds it. -/
theorem exists_ofData_eq_ok (device : DeviceConfig) {entries : Array Single} {rows cols : ℕ}
    (hentries : Size.mul? rows cols = some entries.size) (bias : Array Single) :
    ∃ s, ofData device entries bias rows cols = .ok s ∧
      s.HoldsData ⟨entries, rows, cols, hentries⟩ bias := by
  have hs := refines_start device
  obtain ⟨t₁, ht₁, hs₁⟩ := hs.expect_eq_ok
    (c := .store (.matrix "distances" entries rows cols)) (a := .extents rows cols)
    (by simp only [EagerSession.perform, Store.perform, Matrix.ofArray?, dif_pos hentries]; rfl)
    (fun _ => Command.noConfusion) (fun _ => Answer.noConfusion) fun _ => Answer.noConfusion
  obtain ⟨t₂, ht₂, hs₂⟩ := hs₁.expect_eq_ok (c := .store (.vector "bias" bias))
    (a := .length bias.size) rfl
    (fun _ => Command.noConfusion) (fun _ => Answer.noConfusion) fun _ => Answer.noConfusion
  obtain ⟨t₃, ht₃, hs₃⟩ := hs₂.expect_eq_ok (c := .openStream "stream") (a := .done) rfl
    (fun _ => Command.noConfusion) (fun _ => Answer.noConfusion) fun _ => Answer.noConfusion
  refine ⟨t₃, ?_, _, hs₃, ?_, Bindings.get?_put_self _ _ _⟩
  · simp only [ofData, ht₁, ht₂, ht₃, ok_bind]
    rfl
  · rfl

end Session

/-! ## The data of a run -/

/-- What a run works on. -/
inductive RunData
  /-- A query, and the codes that are compared with it. -/
  | codes (query codes : Code)
  /-- A matrix, and the bias of its columns. -/
  | operands (m : Matrix Single) (b : Array Single)

/-- The data has the sizes that the run asks for. -/
inductive RunData.Suits : RunData → Run → Prop
  | codes {run : HammingRun} {query codes : Code} : query.length = run.codeSize.toNat →
    codes.length = run.numCodes.toNat * run.codeSize.toNat →
    Suits (.codes query codes) (.hamming run)
  | operands {run : SelectRun} {m : Matrix Single} {b : Array Single} :
    m.nrows = run.rows.toNat → m.ncols = run.cols.toNat → b.size = run.cols.toNat →
    Suits (.operands m b) (.select run)

theorem RunData.Suits.query_codes {run : HammingRun} {query codes : Code}
    (h : (RunData.codes query codes).Suits (.hamming run)) :
    query.length = run.codeSize.toNat ∧ Scan.Consists query codes run.numCodes.toNat := by
  obtain ⟨hquery, hcodes⟩ := h
  exact ⟨hquery, hquery ▸ run.codeSize.toNat_pos, hquery.symm ▸ hcodes⟩

/-- The workload does the run on the data, be the codes scored one after the other or at once, and
    whatever its output holds. -/
inductive Workload.Does : Workload → Run → RunData → Prop
  | distances {run : HammingRun} {query codes : Code} {out : Array UInt32}
    (parallelism : Parallelism) : run.k = none → out.size = run.numCodes.toNat →
    Does (.distances run.distance query codes parallelism out) (.hamming run) (.codes query codes)
  | nearest {run : HammingRun} {k : PosSize} {query codes : Code} (parallelism : Parallelism) :
    run.k = some k →
    Does (.nearest run.distance query codes k.toNat parallelism) (.hamming run)
      (.codes query codes)
  | select {run : SelectRun} {s : Session} {m : Matrix Single} {b : Array Single} :
    s.HoldsData m b → Does (.select s run.k.toNat) (.select run) (.operands m b)

namespace Run

/-- The checksum of what a run that succeeds comes to. -/
def checksumOn : Run → RunData → UInt64
  | .hamming run, .codes query codes =>
    match run.k with
    | none => checksum ((Scan.scores run.distance query codes run.numCodes.toNat).toList.map
        (·.toNat))
    | some k => checksum (((Neighbor.sort ((List.range run.numCodes.toNat).map
        (Scan.neighborAt query codes))).take k.toNat).map fun n => n.distance.toNat + n.id)
  | .select run, .operands m b =>
    checksum ((Selection.referenceTopK m b run.k.toNat).indices.toList.map (·.toNat))
  | _, _ => 0

/-- Codes are not too long for their distance to be counted in 32 bits. -/
def ShortCodes : Run → Prop
  | .hamming run => 8 * run.codeSize.toNat < 2 ^ 32
  | .select _ => True

/-- The columns of a selection can be numbered in 32 bits. -/
def NumberedColumns : Run → Prop
  | .hamming _ => True
  | .select run => run.cols.toNat ≤ 2 ^ 32

end Run

/-- What the call says that a rejected run describes. -/
def RunRejection.callError : RunRejection → RunError
  | .nearestNeedsBitwise => .rejected .nearestNeedsBitwise
  | .moreThanCodes k numCodes => .scan (.notEnoughCodes k.toNat numCodes.toNat)
  | .raggedCodeSize codeSize => .scan (.codeSize (.notMultiple 8 codeSize.toNat))
  | .moreThanColumns k cols =>
    .select (.invalidArgument (.countExceeds k.toNat cols.toNat))

namespace HammingRun

variable {run : HammingRun} {k : PosSize}

theorem eq_bitwise (h : run.distance ≠ .generalized) : run.distance = .bitwise := by
  cases hdistance : run.distance with
  | bitwise => rfl
  | generalized => exact absurd hdistance h

theorem check_of_all (hk : run.k = none) :
    run.check = if run.distance = .generalized ∧ run.codeSize.toNat % 8 ≠ 0 then
      .error (.raggedCodeSize run.codeSize) else .ok () := by
  rw [check, checkNearest, hk]
  rfl

theorem check_of_nearest (hk : run.k = some k) :
    run.check = if run.distance = .generalized then .error .nearestNeedsBitwise
      else if run.numCodes.toNat < k.toNat then .error (.moreThanCodes k run.numCodes)
      else .ok () := by
  rw [check, checkNearest, hk]
  by_cases hdistance : run.distance = .generalized
  · simp only [hdistance, if_true]
    rfl
  · simp only [hdistance, if_false, false_and]
    split <;> rfl

/-- Bytes are compared in codes of whole words only. -/
theorem whole_words_of_check (hcheck : run.check = .ok ())
    (hdistance : run.distance = .generalized) :
    run.codeSize.toNat % 8 = 0 := by
  cases hk : run.k with
  | none =>
    rw [check_of_all hk] at hcheck
    split at hcheck
    case isTrue => cases hcheck
    case isFalse hwords => exact not_not.1 fun hragged => hwords ⟨hdistance, hragged⟩
  | some k =>
    rw [check_of_nearest hk, if_pos hdistance] at hcheck
    cases hcheck

/-- Nearest codes are found by bitwise distance, and only as many as there are. -/
theorem nearest_of_check (hcheck : run.check = .ok ()) (hk : run.k = some k) :
    run.distance = .bitwise ∧ k.toNat ≤ run.numCodes.toNat := by
  rw [check_of_nearest hk] at hcheck
  split at hcheck
  case isTrue => cases hcheck
  case isFalse hdistance =>
    split at hcheck
    case isTrue => cases hcheck
    case isFalse hfew => exact ⟨eq_bitwise hdistance, not_lt.1 hfew⟩

end HammingRun

theorem SelectRun.check_eq_ok_iff {run : SelectRun} :
    run.check = .ok () ↔ run.k.toNat ≤ run.cols.toNat := by
  rw [check]
  split
  case isTrue hmany => exact ⟨fun h => absurd h (by simp), fun hfew => absurd hmany (not_lt.2 hfew)⟩
  case isFalse hfew => exact ⟨fun _ => not_lt.1 hfew, fun _ => rfl⟩

namespace Workload

variable {w : Workload} {run : Run} {data : RunData}

/-- In whatever order the codes come to be scored, a workload comes to the same. -/
theorem perform_order (w : Workload) (order order' : TaskOrder) :
    w.perform order = w.perform order' := by
  cases w with
  | distances measured query codes parallelism out =>
    rw [perform, perform, Scan.run_distances_order _ _ _ _ (parallelism.order order')]
  | nearest measured query codes k parallelism =>
    cases measured with
    | generalized => rfl
    | bitwise =>
      rw [perform, perform, Scan.nearest, Scan.nearest,
        Scan.nearestBy_order _ _ _ _ (parallelism.order order')]
  | select device k => rfl

/-- A run that its check accepts has a result, and can be done again. -/
theorem perform_eq_ok (h : w.Does run data) (hdata : data.Suits run) (hcheck : run.check = .ok ())
    (hshort : run.ShortCodes) (hcolumns : run.NumberedColumns) (order : TaskOrder) :
    ∃ w', w.perform order = .ok (run.checksumOn data, w') ∧ w'.Does run data := by
  cases h with
  | @distances run query codes out parallelism hk hout =>
    obtain ⟨hquery, hconsists⟩ := hdata.query_codes
    have hfits : Scan.Fits run.distance query codes run.numCodes.toNat :=
      ⟨hconsists, hquery.symm ▸ HammingRun.whole_words_of_check hcheck⟩
    have hsize : (Scan.scores run.distance query codes run.numCodes.toNat).size =
        run.numCodes.toNat := by simp [Scan.scores]
    refine ⟨_, ?_, .distances parallelism hk hsize⟩
    rw [perform, Scan.run_distances_of_fits hfits (hquery ▸ hshort) _ hout, Run.checksumOn, hk]
  | @nearest run k query codes parallelism hk =>
    obtain ⟨hquery, hconsists⟩ := hdata.query_codes
    obtain ⟨hbitwise, hfew⟩ := HammingRun.nearest_of_check hcheck hk
    refine ⟨_, ?_, .nearest parallelism hk⟩
    rw [hbitwise, perform, Scan.nearest, Scan.nearestBy_eq_ok Neighbor.isPartition_partAt
      Neighbor.isSort_sort hconsists hfew (hquery ▸ hshort), Run.checksumOn, hk]
  | @select run s m b hs =>
    cases hdata with
    | operands _ hcols hbias =>
      have hfew := SelectRun.check_eq_ok_iff.1 hcheck
      have harguments : Selection.checkArguments m.ncols b.size run.k.toNat = .ok () :=
        Selection.checkArguments_eq_ok run.k.toNat_pos (hcols ▸ hfew) (hcols ▸ hcolumns)
          (hbias.trans hcols.symm)
      obtain ⟨t, hselect, ht⟩ := hs.selectOnce_eq_ok harguments
      refine ⟨_, ?_, .select ht⟩
      rw [perform, hselect, Run.checksumOn]

/-- A run that its check rejects is refused, whatever its data. -/
theorem perform_of_rejected (h : w.Does run data) (hdata : data.Suits run) {why : RunRejection}
    (hcheck : run.check = .error why) (order : TaskOrder) :
    w.perform order = .error why.callError := by
  cases h with
  | @distances run query codes out parallelism hk hout =>
    obtain ⟨hquery, hconsists⟩ := hdata.query_codes
    rw [Run.check, HammingRun.check_of_all hk] at hcheck
    split at hcheck
    case isTrue hragged =>
      obtain rfl := Except.error.inj hcheck
      have hrefused := Scan.Refused.codeSize (hout ▸ hconsists) hragged.1 (hquery.symm ▸ hragged.2)
      rw [perform, Scan.run_distances_of_refused hrefused, RunRejection.callError, hquery]
    case isFalse => exact absurd hcheck (by simp)
  | @nearest run k query codes parallelism hk =>
    obtain ⟨hquery, hconsists⟩ := hdata.query_codes
    rw [Run.check, HammingRun.check_of_nearest hk] at hcheck
    split at hcheck
    case isTrue hdistance =>
      obtain rfl := Except.error.inj hcheck
      rw [hdistance]
      rfl
    case isFalse hdistance =>
      split at hcheck
      case isTrue hmany =>
        obtain rfl := Except.error.inj hcheck
        rw [HammingRun.eq_bitwise hdistance, perform, Scan.nearest,
          Scan.nearestBy_of_refused (.notEnoughCodes hconsists hmany)]
        rfl
      case isFalse => exact absurd hcheck (by simp)
  | @select run s m b hs =>
    cases hdata with
    | operands _ hcols hbias =>
      rw [Run.check, SelectRun.check] at hcheck
      split at hcheck
      case isTrue hmany =>
        obtain rfl := Except.error.inj hcheck
        have harguments : Selection.checkArguments m.ncols b.size run.k.toNat =
            .error (.invalidArgument (.countExceeds run.k.toNat run.cols.toNat)) := by
          rw [Selection.checkArguments, if_neg run.k.toNat_pos.ne', hcols, if_pos hmany]
        rw [perform, hs.selectOnce_eq_error harguments]
        rfl
      case isFalse => exact absurd hcheck (by simp)

/-- Columns that cannot be numbered are refused by the selection. -/
theorem perform_of_unnumbered (h : w.Does run data) (hdata : data.Suits run)
    (hcheck : run.check = .ok ()) (hcolumns : ¬run.NumberedColumns) (order : TaskOrder) :
    ∃ n, w.perform order = .error (.select (.invalidArgument (.tooManyCandidates n))) := by
  cases h with
  | distances | nearest => exact absurd trivial hcolumns
  | @select run s m b hs =>
    cases hdata with
    | operands _ hcols hbias =>
      have hfew := SelectRun.check_eq_ok_iff.1 hcheck
      rw [Run.NumberedColumns] at hcolumns
      have harguments : Selection.checkArguments m.ncols b.size run.k.toNat =
          .error (.invalidArgument (.tooManyCandidates run.cols.toNat)) := by
        rw [Selection.checkArguments, if_neg run.k.toNat_pos.ne', hcols, if_neg (not_lt.2 hfew),
          if_neg (not_not_intro hbias), if_pos (by omega)]
      exact ⟨_, by rw [perform, hs.selectOnce_eq_error harguments]⟩

end Workload

/-! ## Runs that are prepared -/

section

variable {σ : Type} [RandomSource σ]

/-- The number of bytes in the codes of a run, or of entries in its matrix. -/
def Run.extent : Run → ℕ
  | .hamming run => run.codeSize.toNat * run.numCodes.toNat
  | .select run => run.rows.toNat * run.cols.toNat

/-- The query and the codes that are drawn from a source. -/
def HammingRun.dataFrom (codeSize numCodes : ℕ) (source : σ) : RunData :=
  let (query, source) := RandomSource.bytes codeSize source
  .codes query (RandomSource.bytes (codeSize * numCodes) source).1

theorem HammingRun.suits_dataFrom (run : HammingRun) (source : σ) :
    (dataFrom run.codeSize.toNat run.numCodes.toNat source).Suits (.hamming run) := by
  refine .codes (RandomSource.length_bytes _ _) ?_
  rw [RandomSource.length_bytes, Nat.mul_comm]

/-- A scan is prepared on the data that is drawn. -/
theorem HammingRun.exists_prepare {run : HammingRun}
    (hsize : Run.extent (.hamming run) < Size.limit) (hfits : run.DataFits) (source : σ) :
    ∃ w source', run.prepare source = (.ok w, source') ∧
      w.Does (.hamming run) (dataFrom run.codeSize.toNat run.numCodes.toNat source) := by
  have hlength := Size.mul?_eq_some_iff.2 ⟨hsize, rfl⟩
  rw [prepare, hlength]
  simp only [if_pos hfits]
  refine ⟨_, _, rfl, ?_⟩
  cases hk : run.k with
  | none => exact .distances _ hk Array.size_replicate
  | some k => exact .nearest _ hk

/-- A selection is prepared on a device that holds the data. -/
theorem SelectRun.exists_prepare {run : SelectRun} (hsize : Run.extent (.select run) < Size.limit)
    (hfits : run.DataFits) (source : σ) :
    ∃ w data source', run.prepare source = (.ok w, source') ∧ data.Suits (.select run) ∧
      w.Does (.select run) data := by
  have hlength := Size.mul?_eq_some_iff.2 ⟨hsize, rfl⟩
  rw [prepare, hlength]
  simp only [if_pos hfits]
  generalize hentries : RandomSource.singles RandomSource.normal
    (run.rows.toNat * run.cols.toNat) source = drawn
  generalize hbias : RandomSource.singles RandomSource.halfNormal run.cols.toNat drawn.2 = drawn'
  have hshape : Size.mul? run.rows.toNat run.cols.toNat = some drawn.1.size := by
    rw [← hentries, RandomSource.size_singles, hlength]
  have hcols : drawn'.1.size = run.cols.toNat := by rw [← hbias, RandomSource.size_singles]
  obtain ⟨s, hs, hholds⟩ := Session.exists_ofData_eq_ok run.device hshape drawn'.1
  rw [hs]
  exact ⟨_, _, _, rfl, .operands rfl rfl hcols, .select hholds⟩

/-- Whatever is drawn, a run whose data can be counted and kept is prepared. -/
theorem Run.exists_prepare {run : Run} (hsize : run.extent < Size.limit) (hfits : run.DataFits)
    (source : σ) :
    ∃ w data source', run.prepare source = (.ok w, source') ∧ data.Suits run ∧ w.Does run data := by
  cases run with
  | hamming run =>
    obtain ⟨w, source', hprepare, hdoes⟩ := HammingRun.exists_prepare hsize hfits source
    exact ⟨w, _, source', hprepare, run.suits_dataFrom source, hdoes⟩
  | select run => exact SelectRun.exists_prepare hsize hfits source

/-- There is data for every run whose data can be counted, and a workload that does the run. -/
theorem Run.exists_does {run : Run} (hsize : run.extent < Size.limit) :
    ∃ w data, data.Suits run ∧ Workload.Does w run data := by
  cases run with
  | hamming run =>
    have hdata : (RunData.codes (List.replicate run.codeSize.toNat 0)
        (List.replicate (run.numCodes.toNat * run.codeSize.toNat) 0)).Suits (.hamming run) :=
      .codes List.length_replicate List.length_replicate
    cases hk : run.k with
    | none =>
      have hout : (Array.replicate run.numCodes.toNat (0 : UInt32)).size = run.numCodes.toNat :=
        Array.size_replicate
      exact ⟨_, _, hdata, .distances run.parallelism hk hout⟩
    | some k => exact ⟨_, _, hdata, .nearest run.parallelism hk⟩
  | select run =>
    have hshape : Size.mul? run.rows.toNat run.cols.toNat =
        some (Array.replicate (run.rows.toNat * run.cols.toNat) Single.zero).size :=
      Size.mul?_eq_some_iff.2 ⟨hsize, Array.size_replicate.symm⟩
    obtain ⟨s, -, hholds⟩ := Session.exists_ofData_eq_ok run.device hshape
      (Array.replicate run.cols.toNat .zero)
    exact ⟨_, _, .operands rfl rfl Array.size_replicate, .select hholds⟩

/-- Data that cannot be counted is not drawn. -/
theorem Run.prepare_of_overflow {run : Run} (hsize : ¬run.extent < Size.limit) (source : σ) :
    ∃ error, run.prepare source = (.error error, source) := by
  cases run with
  | hamming run =>
    have hnone : Size.mul? run.codeSize.toNat run.numCodes.toNat = none := if_neg hsize
    exact ⟨_, by rw [Run.prepare, HammingRun.prepare, hnone]⟩
  | select run =>
    have hnone : Size.mul? run.rows.toNat run.cols.toNat = none := if_neg hsize
    exact ⟨_, by rw [Run.prepare, SelectRun.prepare, hnone]⟩

end

end NeighborSearch
