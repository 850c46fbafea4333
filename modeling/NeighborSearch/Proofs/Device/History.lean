import Mathlib.Data.Nat.Notation
import Mathlib.Logic.ExistsUnique
import NeighborSearch.Device.Shared

/-!
# Histories of a stream

A *history* are the events of a stream in their order: launches are retired, each with the
error that it ended with or without one, and hosts are told errors. The reports cut a history
into intervals. In every interval the launch that fails first counts (`FirstFailure`); the
others that fail in it do not.

A history is *honest* (`Honest`) if every host was told the error that was kept by then. In
an honest history every report tells of the first failure of its interval, and every failure
is told of by one report, or comes after another one in its interval, or lies in the interval
that is still open (`Honest.exactlyOne_of_failedAt`).
-/

namespace NeighborSearch.History

variable {events : List Event} {i j k m : ℕ} {e : SelectError} {error : Option SelectError}

/-! ## Failures and reports by their places -/

/-- A launch that failed was retired at this place. -/
def FailedAt (events : List Event) (i : ℕ) (e : SelectError) : Prop :=
  events[i]? = some (.finished (some e))

/-- A host was told an error at this place, or that there is none. -/
def ReportedAt (events : List Event) (j : ℕ) (error : Option SelectError) : Prop :=
  ∃ host, events[j]? = some (.reported host error)

/-- No host was told anything from one place up to the other one. -/
def SameInterval (events : List Event) (i j : ℕ) : Prop :=
  ∀ m, i ≤ m → m < j → ∀ error, ¬ReportedAt events m error

/-- Of the launches that were retired since the last report before the place `j`, the one
    retired at the place `i` was the first to fail. -/
structure FirstFailure (events : List Event) (j i : ℕ) (e : SelectError) : Prop where
  lt : i < j
  failed : FailedAt events i e
  sameInterval : SameInterval events i j
  first : ∀ m < i, ∀ e', FailedAt events m e' → ¬SameInterval events m i

/-- What a host was told at the place `j` is the error of the launch retired at the
    place `i`. -/
def Reports (events : List Event) (i j : ℕ) : Prop :=
  ∃ e, FirstFailure events j i e ∧ ReportedAt events j (some e)

/-- Another launch had failed in the same interval. -/
def Preceded (events : List Event) (i : ℕ) : Prop :=
  ∃ m < i, ∃ e, FailedAt events m e ∧ SameInterval events m i

/-- Where a launch was retired, no host was told anything. -/
theorem not_reportedAt_of_finished (h : events[j]? = some (.finished error))
    (error' : Option SelectError) : ¬ReportedAt events j error' := by
  rintro ⟨host, hhost⟩
  exact absurd (h.symm.trans hhost) (by simp)

theorem SameInterval.mono_right (h : SameInterval events i k) (hjk : j ≤ k) :
    SameInterval events i j :=
  fun m him hmj => h m him (Nat.lt_of_lt_of_le hmj hjk)

theorem SameInterval.trans (hij : SameInterval events i j) (hjk : SameInterval events j k) :
    SameInterval events i k := by
  intro m him hmk
  rcases Nat.lt_or_ge m j with hmj | hjm
  · exact hij m him hmj
  · exact hjk m hjm hmk

theorem sameInterval_succ_iff (hij : i ≤ j) :
    SameInterval events i (j + 1) ↔
      SameInterval events i j ∧ ∀ error, ¬ReportedAt events j error := by
  constructor
  · intro h
    exact ⟨h.mono_right (Nat.le_succ j), h j hij (Nat.lt_succ_self j)⟩
  · rintro ⟨h, hj⟩ m him hmj
    rcases Nat.lt_succ_iff_lt_or_eq.1 hmj with hlt | rfl
    · exact h m him hlt
    · exact hj

/-- Where some launch failed, one failed first. -/
theorem exists_firstFailure (hij : i < j) (hfailed : FailedAt events i e)
    (hsame : SameInterval events i j) : ∃ m e', FirstFailure events j m e' := by
  induction i using Nat.strongRecOn generalizing e with
  | ind i ih =>
    by_cases hprec : Preceded events i
    · obtain ⟨m, hmi, e', hfailed', hsame'⟩ := hprec
      exact ih m hmi (Nat.lt_trans hmi hij) hfailed' (hsame'.trans hsame)
    · refine ⟨i, e, hij, hfailed, hsame, fun m hmi e' hfailed' hsame' => ?_⟩
      exact hprec ⟨m, hmi, e', hfailed', hsame'⟩

theorem FirstFailure.le {i' : ℕ} {e' : SelectError} (h : FirstFailure events j i e)
    (h' : FirstFailure events j i' e') : i ≤ i' := by
  apply Nat.le_of_not_lt
  intro hlt
  exact h.first i' hlt e' h'.failed (h'.sameInterval.mono_right (Nat.le_of_lt h.lt))

/-- One launch only was the first to fail. -/
theorem FirstFailure.unique {i' : ℕ} {e' : SelectError} (h : FirstFailure events j i e)
    (h' : FirstFailure events j i' e') : i = i' ∧ e = e' := by
  have hplace := Nat.le_antisymm (h.le h') (h'.le h)
  subst hplace
  have heq := h.failed.symm.trans h'.failed
  simp only [Option.some.injEq, Event.finished.injEq] at heq
  exact ⟨rfl, heq⟩

theorem preceded_iff : Preceded events j ↔ ∃ i e, FirstFailure events j i e := by
  constructor
  · rintro ⟨i, hij, e, hfailed, hsame⟩
    exact exists_firstFailure hij hfailed hsame
  · rintro ⟨i, e, h⟩
    exact ⟨i, h.lt, e, h.failed, h.sameInterval⟩

/-! ## One event more -/

theorem not_firstFailure_succ_of_reportedAt (hj : ReportedAt events j error) :
    ¬FirstFailure events (j + 1) i e := by
  intro h
  exact h.sameInterval j (Nat.le_of_lt_succ h.lt) (Nat.lt_succ_self j) error hj

theorem firstFailure_succ_of_failedAt {e' : SelectError} (hj : FailedAt events j e') :
    FirstFailure events (j + 1) i e ↔
      FirstFailure events j i e ∨ ¬Preceded events j ∧ i = j ∧ e = e' := by
  have hquiet := not_reportedAt_of_finished hj
  constructor
  · rintro ⟨hlt, hfailed, hsame, hfirst⟩
    rcases Nat.lt_succ_iff_lt_or_eq.1 hlt with hlt | rfl
    · exact .inl ⟨hlt, hfailed, hsame.mono_right (Nat.le_succ j), hfirst⟩
    · have heq := hfailed.symm.trans hj
      simp only [Option.some.injEq, Event.finished.injEq] at heq
      refine .inr ⟨?_, rfl, heq⟩
      rintro ⟨m, hm, e'', hfailed', hsame'⟩
      exact hfirst m hm e'' hfailed' hsame'
  · rintro (⟨hlt, hfailed, hsame, hfirst⟩ | ⟨hprec, rfl, rfl⟩)
    · exact ⟨Nat.lt_succ_of_lt hlt, hfailed,
        (sameInterval_succ_iff (Nat.le_of_lt hlt)).2 ⟨hsame, hquiet⟩, hfirst⟩
    · have hsame : SameInterval events i i := fun m him hmi => absurd him (Nat.not_le_of_lt hmi)
      refine ⟨Nat.lt_succ_self i, hj, (sameInterval_succ_iff (Nat.le_refl i)).2 ⟨hsame, hquiet⟩, ?_⟩
      intro m hm e'' hfailed' hsame'
      exact hprec ⟨m, hm, e'', hfailed', hsame'⟩

theorem firstFailure_succ_of_succeeded (hj : events[j]? = some (.finished none)) :
    FirstFailure events (j + 1) i e ↔ FirstFailure events j i e := by
  have hquiet := not_reportedAt_of_finished hj
  constructor
  · rintro ⟨hlt, hfailed, hsame, hfirst⟩
    rcases Nat.lt_succ_iff_lt_or_eq.1 hlt with hlt | rfl
    · exact ⟨hlt, hfailed, hsame.mono_right (Nat.le_succ j), hfirst⟩
    · exact absurd (hfailed.symm.trans hj) (by simp)
  · rintro ⟨hlt, hfailed, hsame, hfirst⟩
    exact ⟨Nat.lt_succ_of_lt hlt, hfailed,
      (sameInterval_succ_iff (Nat.le_of_lt hlt)).2 ⟨hsame, hquiet⟩, hfirst⟩

/-! ## The error that is kept -/

/-- The error that is kept after an event: the first one since the last report. -/
def keep (kept : Option SelectError) : Event → Option SelectError
  | .finished error => kept.or error
  | .reported _ _ => none

/-- The error that is kept after some events. -/
def kept (events : List Event) : Option SelectError := events.foldl keep none

@[simp] theorem kept_append_singleton (events : List Event) (event : Event) :
    kept (events ++ [event]) = keep (kept events) event := by
  rw [kept, List.foldl_append]
  rfl

/-- The error that is kept at a place is the one of the first failure. -/
theorem kept_take_eq_some_iff (hj : j ≤ events.length) :
    kept (events.take j) = some e ↔ ∃ i, FirstFailure events j i e := by
  induction j generalizing e with
  | zero =>
    constructor
    · intro h
      cases h
    · rintro ⟨i, hi⟩
      exact absurd hi.lt (Nat.not_lt_zero i)
  | succ j ih =>
    have hlt : j < events.length := hj
    have hjth : events[j]? = some events[j] := List.getElem?_eq_getElem hlt
    have hnone : kept (events.take j) = none ↔ ¬Preceded events j := by
      rw [preceded_iff, Option.eq_none_iff_forall_ne_some]
      simp only [ne_eq, ih (Nat.le_of_lt hlt), not_exists]
      exact forall_comm
    rw [← List.take_append_getElem hlt, kept_append_singleton]
    cases hevent : events[j] with
    | reported host error =>
      rw [hevent] at hjth
      constructor
      · intro h
        cases h
      · rintro ⟨i, hi⟩
        exact absurd hi (not_firstFailure_succ_of_reportedAt ⟨host, hjth⟩)
    | finished error =>
      rw [hevent] at hjth
      cases error with
      | none =>
        rw [keep, Option.or_none, ih (Nat.le_of_lt hlt)]
        simp only [firstFailure_succ_of_succeeded hjth]
      | some e' =>
        rw [keep, Option.or_eq_some_iff, ih (Nat.le_of_lt hlt), hnone]
        simp only [firstFailure_succ_of_failedAt hjth, exists_or, exists_and_left,
          exists_eq_left, Option.some.injEq, eq_comm (a := e')]

theorem kept_take_eq_none_iff (hj : j ≤ events.length) :
    kept (events.take j) = none ↔
      ∀ i < j, ∀ e, FailedAt events i e → ¬SameInterval events i j := by
  rw [Option.eq_none_iff_forall_ne_some]
  simp only [ne_eq, kept_take_eq_some_iff hj, not_exists]
  constructor
  · intro h i hij e hfailed hsame
    obtain ⟨m, e', hfirst⟩ := exists_firstFailure hij hfailed hsame
    exact h e' m hfirst
  · intro h e i hfirst
    exact h i hfirst.lt e hfirst.failed hfirst.sameInterval

/-! ## Honest histories -/

/-- Every host was told the error that was kept. -/
def Honest (events : List Event) : Prop :=
  ∀ j error, ReportedAt events j error → error = kept (events.take j)

/-- A host is told what is kept, or a launch is retired. -/
theorem Honest.append_singleton (h : Honest events) {event : Event}
    (hevent : ∀ host error, event = .reported host error → error = kept events) :
    Honest (events ++ [event]) := by
  rintro j error ⟨host, hj⟩
  rcases Nat.lt_or_ge j events.length with hlt | hge
  · rw [List.getElem?_append_left hlt] at hj
    rw [List.take_append_of_le_length (Nat.le_of_lt hlt)]
    exact h j error ⟨host, hj⟩
  · have hlast : j = events.length := by
      have := (List.getElem?_eq_some_iff.1 hj).1
      rw [List.length_append, List.length_singleton] at this
      omega
    subst hlast
    rw [List.getElem?_append_right hge, Nat.sub_self] at hj
    rw [List.take_left]
    exact hevent host error (Option.some.inj hj)

theorem honest_nil : Honest [] := by
  rintro j error ⟨host, hj⟩
  cases hj

/-- One of three, and neither of the others. -/
def ExactlyOne (p q r : Prop) : Prop := p ∧ ¬q ∧ ¬r ∨ ¬p ∧ q ∧ ¬r ∨ ¬p ∧ ¬q ∧ r

theorem lt_length_of_reportedAt (h : ReportedAt events j error) : j < events.length := by
  obtain ⟨host, hhost⟩ := h
  exact (List.getElem?_eq_some_iff.1 hhost).1

/-- A launch is reported once at most. -/
theorem Reports.unique (h : Reports events i j) (h' : Reports events i k) : j = k := by
  obtain ⟨e, hfirst, hj⟩ := h
  obtain ⟨e', hfirst', hk⟩ := h'
  rcases Nat.lt_trichotomy j k with hlt | heq | hlt
  · exact absurd hj (hfirst'.sameInterval j (Nat.le_of_lt hfirst.lt) hlt _)
  · exact heq
  · exact absurd hk (hfirst.sameInterval k (Nat.le_of_lt hfirst'.lt) hlt _)

/-- The first report after a place. -/
theorem exists_first_reportedAt (hij : i ≤ j) (hj : ReportedAt events j error) :
    ∃ k error', i ≤ k ∧ ReportedAt events k error' ∧ SameInterval events i k := by
  induction j using Nat.strongRecOn generalizing error with
  | ind j ih =>
    by_cases hearlier : ∃ m error', i ≤ m ∧ m < j ∧ ReportedAt events m error'
    · obtain ⟨m, error', him, hmj, hm⟩ := hearlier
      exact ih m hmj him hm
    · refine ⟨j, error, hij, hj, fun m him hmj error' hm => ?_⟩
      exact hearlier ⟨m, error', him, hmj, hm⟩

theorem FirstFailure.not_preceded (h : FirstFailure events j i e) : ¬Preceded events i := by
  rintro ⟨m, hmi, e', hfailed, hsame⟩
  exact h.first m hmi e' hfailed hsame

/-- A failure that no other one precedes is the first one up to every later place in its
    interval. -/
theorem firstFailure_of_not_preceded (hi : FailedAt events i e) (hprec : ¬Preceded events i)
    (hij : i < j) (hsame : SameInterval events i j) : FirstFailure events j i e :=
  ⟨hij, hi, hsame, fun m hmi e' hfailed hsame' => hprec ⟨m, hmi, e', hfailed, hsame'⟩⟩

/-- A failure is reported once, or another launch had failed before in its interval, or its
    interval is still open and it was the first to fail in it. -/
theorem Honest.exactlyOne_of_failedAt (h : Honest events) (hi : FailedAt events i e) :
    ExactlyOne (∃! j, Reports events i j) (Preceded events i)
      (FirstFailure events events.length i e) := by
  by_cases hprec : Preceded events i
  · refine .inr (.inl ⟨?_, hprec, fun hopen => hopen.not_preceded hprec⟩)
    rintro ⟨j, ⟨e', hfirst, -⟩, -⟩
    exact hfirst.not_preceded hprec
  · by_cases hreported : ∃ j error, i ≤ j ∧ ReportedAt events j error
    · obtain ⟨j, error, hij, hj⟩ := hreported
      obtain ⟨k, error', hik, hk, hsame⟩ := exists_first_reportedAt hij hj
      have hlt : i < k := by
        rcases Nat.eq_or_lt_of_le hik with rfl | hlt
        · exact absurd hk (not_reportedAt_of_finished hi error')
        · exact hlt
      have hfirst := firstFailure_of_not_preceded hi hprec hlt hsame
      have herror : error' = some e := by
        rw [h k error' hk, kept_take_eq_some_iff (Nat.le_of_lt (lt_length_of_reportedAt hk))]
        exact ⟨i, hfirst⟩
      have hreports : Reports events i k := ⟨e, hfirst, herror ▸ hk⟩
      refine .inl ⟨⟨k, hreports, fun k' hk' => hk'.unique hreports⟩, hprec, ?_⟩
      intro hopen
      exact hopen.sameInterval k hik (lt_length_of_reportedAt hk) error' hk
    · refine .inr (.inr ⟨?_, hprec, ?_⟩)
      · rintro ⟨j, ⟨e', hfirst, hj⟩, -⟩
        exact hreported ⟨j, _, Nat.le_of_lt hfirst.lt, hj⟩
      · refine firstFailure_of_not_preceded hi hprec (List.getElem?_eq_some_iff.1 hi).1 ?_
        intro m him _ error hm
        exact hreported ⟨m, error, him, hm⟩

/-! ## Launches by the order of their retirement -/

/-- The error of a retired launch. -/
def finish? : Event → Option (Option SelectError)
  | .finished error => some error
  | .reported _ _ => none

/-- The errors with which launches were retired, in the order of their retirement. -/
def finishes (events : List Event) : List (Option SelectError) := events.filterMap finish?

@[simp] theorem finishes_append (events new : List Event) :
    finishes (events ++ new) = finishes events ++ finishes new :=
  List.filterMap_append

theorem finishes_finished (error : Option SelectError) : finishes [.finished error] = [error] := rfl

theorem finishes_reported (host : ℕ) (error : Option SelectError) :
    finishes [.reported host error] = [] := rfl

/-- A launch is numbered by the launches retired before it. -/
theorem getElem?_finishes (h : events[i]? = some (.finished error)) :
    (finishes events)[(finishes (events.take i)).length]? = some error := by
  obtain ⟨hi, hevent⟩ := List.getElem?_eq_some_iff.1 h
  have hsplit : events.take i ++ .finished error :: events.drop (i + 1) = events := by
    rw [← hevent, ← List.drop_eq_getElem_cons hi, List.take_append_drop]
  have hall : finishes events =
      finishes (events.take i) ++ finishes (.finished error :: events.drop (i + 1)) := by
    rw [← finishes_append, hsplit]
  rw [hall, List.getElem?_append_right (Nat.le_refl _), Nat.sub_self]
  rfl

end NeighborSearch.History
