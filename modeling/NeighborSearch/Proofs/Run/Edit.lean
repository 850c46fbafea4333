import Mathlib.Logic.Relation
import NeighborSearch.CommandLine.Program
import NeighborSearch.Proofs.Run.File
import NeighborSearch.Proofs.Run.Tolerance

/-!
# Run files may be edited

What a run file denotes does not depend on the order of members, on unknown members of its runs,
and on whether defaults are written. An `Edit` changes one of these at any place in the
file, and may be followed by others; in between, the same values may be spelled in any other
way (`Rewrite`). Unknown members elsewhere are refused, wherever they stand (`Spoil`). Both are
changes of a `Spelling`, and every accepted text has one, so all of this is about texts. A
spelling has a depth, so that a value that is put into a file is one that is not nested too
deeply for the place where it is put.
-/

namespace NeighborSearch

open Json

namespace Json.Spelling

variable {depth : ℕ}

/-- An object of spelled values. -/
def object (before inside : Blanks) (members : List (Label × Spelling depth)) (after : Blanks) :
    Spelling (depth + 1) :=
  Node.object before inside members after

/-- An array of spelled values. -/
def array (before inside : Blanks) (items : List (Spelling depth)) (after : Blanks) :
    Spelling (depth + 1) :=
  Node.array before inside items after

@[simp] theorem value_object (before inside : Blanks) (members : List (Label × Spelling depth))
    (after : Blanks) :
    (object before inside members after).value =
      .ofMembers (members.map fun m => (m.1.name, m.2.value)) := rfl

@[simp] theorem value_array (before inside : Blanks) (items : List (Spelling depth))
    (after : Blanks) :
    (array before inside items after).value = .ofItems (items.map value) := rfl

theorem fault?_of_mem_inner (s : Spelling depth) : ∀ v ∈ s.value.inner, v.fault? = none :=
  fun _ hv => (IsSpelled.inner ⟨depth, s, rfl⟩ hv).fault?_eq_none

end Json.Spelling

/-! ## Edits -/

/-- A change of a spelled value that does not matter in its role. -/
inductive Edit : {depth : ℕ} → Role → Spelling depth → Spelling depth → Prop
  /-- The members of an object stand in another order. -/
  | permute {depth : ℕ} {role : Role} {before inside after : Blanks}
      {members members' : List (Label × Spelling depth)} (h : members.Perm members') :
      Edit role (.object before inside members after) (.object before inside members' after)
  /-- There is one more member, which is passed over. -/
  | add {depth : ℕ} {role : Role} {before inside after : Blanks}
      {l r : List (Label × Spelling depth)} {m : Label × Spelling depth}
      (h : role.Ignores m.1.name) :
      Edit role (.object before inside (l ++ r) after) (.object before inside (l ++ m :: r) after)
  /-- A member that is its default is left out. -/
  | leaveOut {depth : ℕ} {role : Role} {before inside after : Blanks}
      {l r : List (Label × Spelling depth)} {m : Label × Spelling depth}
      (h : role.Default m.1.name m.2.value) :
      Edit role (.object before inside (l ++ m :: r) after) (.object before inside (l ++ r) after)
  /-- A member that is missing is filled in with its default. -/
  | fillIn {depth : ℕ} {role : Role} {before inside after : Blanks}
      {l r : List (Label × Spelling depth)} {m : Label × Spelling depth}
      (h : role.Default m.1.name m.2.value) (habsent : ∀ n ∈ l ++ r, n.1.name ≠ m.1.name) :
      Edit role (.object before inside (l ++ r) after) (.object before inside (l ++ m :: r) after)
  /-- The edit is inside of a member. -/
  | member {depth : ℕ} {role : Role} {before inside after : Blanks}
      {l r : List (Label × Spelling depth)} {label : Label} {s s' : Spelling depth}
      (h : Edit (role.member label.name) s s') :
      Edit role (.object before inside (l ++ (label, s) :: r) after)
        (.object before inside (l ++ (label, s') :: r) after)
  /-- The edit is inside of an item. -/
  | item {depth : ℕ} {role : Role} {before inside after : Blanks} {l r : List (Spelling depth)}
      {s s' : Spelling depth} (h : Edit (role.item l.length s.value) s s') :
      Edit role (.array before inside (l ++ s :: r) after)
        (.array before inside (l ++ s' :: r) after)

/-- A value denotes the same after an edit. -/
theorem Edit.keeps {depth : ℕ} {role : Role} {s s' : Spelling depth} (h : Edit role s s') :
    role.Keeps s.value s'.value := by
  have hkeeps {depth : ℕ} {role : Role} {s s' : Spelling depth}
      (hchange : role.Change s.value s'.value) : role.Keeps s.value s'.value :=
    hchange.keeps s.fault?_of_mem_inner s'.fault?_of_mem_inner
  induction h with
  | permute h => exact hkeeps (.permute (h.map _))
  | add h =>
    refine hkeeps ?_
    simp only [Spelling.value_object, List.map_append, List.map_cons]
    exact .add h
  | leaveOut h =>
    refine hkeeps ?_
    simp only [Spelling.value_object, List.map_append, List.map_cons]
    exact .leaveOut h
  | @fillIn _ _ _ _ _ l r m h habsent =>
    refine hkeeps ?_
    simp only [Spelling.value_object, List.map_append, List.map_cons]
    refine .fillIn h (named_eq_nil_iff.2 ?_)
    rw [← List.map_append]
    exact List.forall_mem_map.2 habsent
  | member _ ih =>
    refine hkeeps ?_
    simp only [Spelling.value_object, List.map_append, List.map_cons]
    exact .member ih
  | item _ ih =>
    refine hkeeps ?_
    simp only [Spelling.value_array, List.map_append, List.map_cons]
    exact .item (by rwa [List.length_map])

/-- Any number of edits of a run file, between which its values may be spelled in another way. -/
def Rewrite {depth : ℕ} : Spelling depth → Spelling depth → Prop :=
  Relation.ReflTransGen fun s s' => Edit .file s s' ∨ s.value = s'.value

/-- A run file denotes the same after it is rewritten. -/
theorem Rewrite.ofJson_value {depth : ℕ} {s s' : Spelling depth} (h : Rewrite s s')
    {file : RunFile} (hfile : RunFile.ofJson s.value = .ok file) :
    RunFile.ofJson s'.value = .ok file := by
  induction h with
  | refl => exact hfile
  | tail _ hstep ih =>
    rcases hstep with hedit | hvalue
    · exact hedit.keeps.2 file ih
    · rwa [← hvalue]

/-! ## Unknown members -/

/-- That members of the name are refused. -/
def Role.Refuses (role : Role) (name : String) : Prop :=
  role.isRecord = true ∧ role.lenient = false ∧ name ∉ role.names

/-- An unknown member is added where it is refused. -/
inductive Spoil : {depth : ℕ} → Role → Spelling depth → Spelling depth → Prop
  /-- There is one more member, which is refused. -/
  | add {depth : ℕ} {role : Role} {before inside after : Blanks}
      {l r : List (Label × Spelling depth)} {m : Label × Spelling depth}
      (h : role.Refuses m.1.name) :
      Spoil role (.object before inside (l ++ r) after)
        (.object before inside (l ++ m :: r) after)
  /-- It is inside of a member. -/
  | member {depth : ℕ} {role : Role} {before inside after : Blanks}
      {l r : List (Label × Spelling depth)} {label : Label} {s s' : Spelling depth}
      (h : Spoil (role.member label.name) s s') :
      Spoil role (.object before inside (l ++ (label, s) :: r) after)
        (.object before inside (l ++ (label, s') :: r) after)
  /-- It is inside of an item. -/
  | item {depth : ℕ} {role : Role} {before inside after : Blanks} {l r : List (Spelling depth)}
      {s s' : Spelling depth} (h : Spoil (role.item l.length s.value) s s') :
      Spoil role (.array before inside (l ++ s :: r) after)
        (.array before inside (l ++ s' :: r) after)

namespace Role

/-- Whether a value is accepted in its role. In the place of a run there may be one of the other
    kind. -/
def Accepts : Role → Json → Prop
  | .hamming, v | .select, v => ∃ run, Run.ofJson v = .ok run
  | role, v => ∃ a, role.Denotes v a

variable {role inner : Role} {p : Json.Place} {v v' w w' : Json}

theorem accepts_of_denotes {a : role.Value} (h : role.Denotes v a) : role.Accepts v := by
  cases role <;> exact ⟨_, h⟩

theorem exists_denotes_ofRun {run : Run} (h : Run.ofJson w = .ok run) :
    ∃ b, (ofRun w).Denotes w b := by
  cases run with
  | hamming run =>
    rw [ofRun_hamming h]
    exact ⟨run, h⟩
  | select run =>
    rw [ofRun_select h]
    exact ⟨run, h⟩

theorem accepts_ofRun_iff {run : Run} (h : Run.ofJson w = .ok run) :
    (ofRun w).Accepts w' ↔ ∃ run', Run.ofJson w' = .ok run' := by
  cases run with
  | hamming run =>
    rw [ofRun_hamming h]
    rfl
  | select run =>
    rw [ofRun_select h]
    rfl

theorem isRecord_of_child (h : role.child = some (p, inner)) : role.isRecord = true := by
  cases role <;> first | rfl | cases h

/-- What is inside of a record in a role of its own denotes something. -/
theorem denotes_of_replaces (hchild : role.child = some (p, inner)) (h : Replaces p w w' v v')
    (hinner : ∀ x ∈ v.inner, x.fault? = none) {a : role.Value} (ha : role.Denotes v a) :
    ∃ b, inner.Denotes w b := by
  obtain ⟨slot, hslot, rfl, f, hread⟩ := exists_slot hchild
  have hslots := (denotes_iff (isRecord_of_child hchild) h.fault?_eq_none hinner a).1 ha
  obtain ⟨b, hb, -⟩ := (hread w _).1 (h.read_of_holds (hslots.2 slot hslot))
  exact ⟨b, hb⟩

/-- A run stays one of its kind if something else in it is replaced. -/
theorem kind_eq_of_replaces (h : Replaces p w w' v v') (hname : p.name ≠ Run.kindField)
    (hindex : p.index ≠ 0) {run run' : Run} (hrun : Run.ofJson v = .ok run)
    (hrun' : Run.ofJson v' = .ok run') : run'.kind = run.kind := by
  have hkind := ((Run.ofJson_eq_ok_iff h.fault?_eq_none).1 hrun).kind
  have hkind' := ((Run.ofJson_eq_ok_iff h.symm.fault?_eq_none).1 hrun').kind
  exact hkind'.unique (h.holds_of_ne hname hindex hkind)

/-- A record is refused if what is inside of it in a role of its own is. -/
theorem not_accepts_of_replaces (hchild : role.child = some (p, inner))
    (h : Replaces p w w' v v') (hinner : ∀ x ∈ v'.inner, x.fault? = none) {a : role.Value}
    (ha : role.Denotes v a) (hrefused : ¬inner.Accepts w') : ¬role.Accepts v' := by
  intro haccepts
  have hdenotes : ∃ b, role.Denotes v' b := by
    cases role with
    | hamming =>
      cases hchild
      obtain ⟨run' | run', hrun'⟩ := haccepts
      · exact ⟨run', hrun'⟩
      · cases kind_eq_of_replaces h (by decide) (by decide) ha hrun'
    | select =>
      cases hchild
      obtain ⟨run' | run', hrun'⟩ := haccepts
      · cases kind_eq_of_replaces h (by decide) (by decide) ha hrun'
      · exact ⟨run', hrun'⟩
    | _ => exact haccepts
  obtain ⟨b, hb⟩ := hdenotes
  obtain ⟨c, hc⟩ := denotes_of_replaces hchild h.symm hinner hb
  exact hrefused (accepts_of_denotes hc)

/-- A record is refused if it has a member that is. -/
theorem not_accepts_of_refuses {l r : List (String × Json)} {name : String}
    (h : role.Refuses name) (hinner : ∀ x ∈ (Json.ofMembers (l ++ (name, w) :: r)).inner,
      x.fault? = none) : ¬role.Accepts (.ofMembers (l ++ (name, w) :: r)) := by
  obtain ⟨hrecord, hstrict, hname⟩ := h
  intro haccepts
  have hdenotes : ∃ a, role.Denotes (.ofMembers (l ++ (name, w) :: r)) a := by
    cases role <;> first | exact haccepts | cases hstrict
  obtain ⟨a, ha⟩ := hdenotes
  have hfits := ((denotes_iff hrecord rfl hinner a).1 ha).1
  obtain hlenient | hnames := hfits
  · cases hstrict.symm.trans hlenient
  · exact hname (hnames _ (List.mem_append_right l List.mem_cons_self))

end Role

/-- Nothing is refused inside of values that are passed over. -/
theorem Spoil.ne_other {depth : ℕ} {role : Role} {s s' : Spelling depth} (h : Spoil role s s') :
    role ≠ .other := by
  rintro rfl
  generalize hrole : Role.other = role at h
  induction h with
  | add h =>
    subst hrole
    cases h.1
  | member _ ih | item _ ih =>
    subst hrole
    exact ih rfl

/-- A value with a member that is refused in it is refused. -/
theorem Spoil.refused {depth : ℕ} {role : Role} {s s' : Spelling depth} (h : Spoil role s s')
    {a : role.Value} (ha : role.Denotes s.value a) : ¬role.Accepts s'.value := by
  induction h with
  | @add _ role before inside after l r m h =>
    have hwhole := (Spelling.object before inside (l ++ m :: r) after).fault?_of_mem_inner
    simp only [Spelling.value_object, List.map_append, List.map_cons] at hwhole ⊢
    exact Role.not_accepts_of_refuses h hwhole
  | @member _ role before inside after l r label s s' h ih =>
    obtain ⟨p, hchild, hname⟩ := Role.exists_child_of_member h.ne_other
    have hreplaces : Replaces p s.value s'.value
        (Spelling.object before inside (l ++ (label, s) :: r) after).value
        (Spelling.object before inside (l ++ (label, s') :: r) after).value := by
      simp only [Spelling.value_object, List.map_append, List.map_cons]
      exact .member hname.symm
    obtain ⟨b, hb⟩ := Role.denotes_of_replaces hchild hreplaces
      (Spelling.fault?_of_mem_inner _) ha
    exact Role.not_accepts_of_replaces hchild hreplaces (Spelling.fault?_of_mem_inner _) ha (ih hb)
  | @item _ role before inside after l r s s' h ih =>
    by_cases hruns : role = .runs
    · subst hruns
      simp only [Spelling.value_array, List.map_append, List.map_cons] at ha ⊢
      obtain ⟨run, hrun⟩ := exists_of_list ha
      obtain ⟨b, hb⟩ := Role.exists_denotes_ofRun hrun
      rintro ⟨contents, hcontents⟩
      exact ih hb ((Role.accepts_ofRun_iff hrun).2 (exists_of_list hcontents))
    · obtain ⟨p, hchild, hindex⟩ := Role.exists_child_of_item hruns h.ne_other
      have hreplaces : Replaces p s.value s'.value
          (Spelling.array before inside (l ++ s :: r) after).value
          (Spelling.array before inside (l ++ s' :: r) after).value := by
        simp only [Spelling.value_array, List.map_append, List.map_cons]
        exact .item (by rw [hindex, List.length_map])
      obtain ⟨b, hb⟩ := Role.denotes_of_replaces hchild hreplaces
        (Spelling.fault?_of_mem_inner _) ha
      exact Role.not_accepts_of_replaces hchild hreplaces (Spelling.fault?_of_mem_inner _) ha
        (ih hb)

/-! ## Texts -/

namespace RunFile

/-- What is accepted is accepted after any number of edits, and denotes the same: members stand
    in any order, unknown members of runs are added, and defaults are left out or filled in.
    It is refused if an unknown member is added anywhere else. And what is decoded is refused for
    the first of its runs that cannot succeed, which is told with its position. -/
theorem parse_edited :
    (∀ text file, parse text = .ok file →
      (∃ s : Spelling maxDepth, s.text = text) ∧
      ∀ s : Spelling maxDepth, s.text = text →
        (∀ s', Rewrite s s' → parse s'.text = .ok file) ∧
        ∀ s', Spoil .file s s' → ∃ e, parse s'.text = .error (.undecodable e)) ∧
    ∀ text file, Json.decodeText ofJson text = .ok file →
      (∃ run ∈ file.runs, run.check ≠ .ok ()) →
      ∃ (i : ℕ) (hi : i < file.runs.length) (why : RunRejection),
        file.runs[i].check = .error why ∧
        (∀ run ∈ file.runs.take i, run.check = .ok ()) ∧
        parse text = .error (.rejected i why) ∧
        (RunFileError.rejected i why).message = s!"run {i}: {why.message}" := by
  refine ⟨fun text file h => ?_, fun text file hdecode hruns => ?_⟩
  · obtain ⟨hdecode, hcheck⟩ := parse_eq_ok_iff.1 h
    obtain ⟨s, htext, -⟩ := decodeText_eq_ok_iff.1 hdecode
    refine ⟨⟨s, htext⟩, ?_⟩
    rintro s rfl
    rw [Spelling.decodeText_text] at hdecode
    constructor
    · intro s' hrewrite
      rw [parse_eq_ok_iff, Spelling.decodeText_text]
      exact ⟨hrewrite.ofJson_value hdecode, hcheck⟩
    · intro s' hspoil
      cases hread : ofJson s'.value with
      | error e => exact ⟨e, by rw [parse, Spelling.decodeText_text, hread]⟩
      | ok file' => exact absurd ⟨file', hread⟩ (hspoil.refused (a := file) hdecode)
  · obtain ⟨i, hi, why, hwhy, hbefore, hrejected⟩ := exists_checkFrom_eq_rejected hruns
    refine ⟨i, hi, why, hwhy, hbefore, ?_, rfl⟩
    rw [parse, hdecode]
    dsimp only
    rw [hrejected, Nat.zero_add]
    rfl

/-- A member that is a word, a number or a string, without blanks. -/
def spelledMember {depth : ℕ} (name : String) {v : Json} (h : ReadAs (v.chars .oneLine) v)
    (hscalar : v.IsScalar) : Label × Spelling (depth + 1) :=
  (.ofName .none name, Node.leaf ⟨.none, v.chars .oneLine, .none, v, hscalar, h⟩)

/-- The sizes of a selection. -/
def spelledSizes (rows cols k : ℕ) (h : rows < 256 ∧ cols < 256 ∧ k < 256) :
    List (Label × Spelling 124) := [
  spelledMember "rows" (readAs_int (n := rows) (by omega) (by omega)) trivial,
  spelledMember "cols" (readAs_int (n := cols) (by omega) (by omega)) trivial,
  spelledMember "k" (readAs_int (n := k) (by omega) (by omega)) trivial]

/-- A member with a kind. -/
def spelledKind (name : String) : Label × Spelling 124 :=
  spelledMember Run.kindField (readAs_string name) trivial

/-- A member that is no part of any record. -/
def spelledNote {depth : ℕ} : Label × Spelling (depth + 1) :=
  spelledMember "note" readAs_null trivial

/-- A file with one run, whose members are given, and with other members before the runs. -/
def spelledRun (others : List (Label × Spelling 126)) (members : List (Label × Spelling 124)) :
    Spelling maxDepth :=
  .object .none .none (others ++ [(.ofName .none "runs",
    .array .none .none [.object .none .none members .none] .none)]) .none

/-- A selection of all columns but one. -/
def allButOne : Run :=
  .select {
    rows := ⟨17, by decide⟩, cols := ⟨19, by decide⟩, k := ⟨18, by decide⟩, device := .standard
    numMeasurements := defaultMeasurements }

/-- The text of a file with that selection, with its kind in front. -/
def allButOneText : Spelling maxDepth :=
  spelledRun [] (spelledKind "select" :: spelledSizes 17 19 18 (by decide))

example : allButOneText.text =
    "\x7b\"runs\":[\x7b\"kind\":\"select\",\"rows\":17,\"cols\":19,\"k\":18\x7d]\x7d" := by rfl

/-- The kind of the selection may come last, and a note may be put in front of its members, but
    not in front of the runs. More than all columns are refused. -/
theorem parse_edited_allButOne :
    parse allButOneText.text = .ok ⟨[allButOne]⟩ ∧
    parse (spelledRun [] (spelledNote :: (spelledSizes 17 19 18 (by decide) ++
      [spelledKind "select"]))).text = .ok ⟨[allButOne]⟩ ∧
    (∃ e, parse (spelledRun [spelledNote] (spelledKind "select" ::
      spelledSizes 17 19 18 (by decide))).text = .error (.undecodable e)) ∧
    ∃ i why, parse (spelledRun [] (spelledKind "select" ::
      spelledSizes 17 19 20 (by decide))).text = .error (.rejected i why) := by
  have hdecode : Json.decodeText ofJson allButOneText.text = .ok ⟨[allButOne]⟩ :=
    (allButOneText.decodeText_text ofJson).trans rfl
  have hparse := parse_eq_ok_iff.2 ⟨hdecode, by decide⟩
  obtain ⟨-, hedits⟩ := parse_edited.1 _ _ hparse
  obtain ⟨hrewrite, hspoil⟩ := hedits allButOneText rfl
  have hlast : Edit .file allButOneText
      (spelledRun [] (spelledSizes 17 19 18 (by decide) ++ [spelledKind "select"])) :=
    .member (l := []) (.item (l := []) (.permute (List.perm_append_singleton _ _).symm))
  have hnote : Edit .file
      (spelledRun [] (spelledSizes 17 19 18 (by decide) ++ [spelledKind "select"]))
      (spelledRun [] (spelledNote :: (spelledSizes 17 19 18 (by decide) ++
        [spelledKind "select"]))) := by
    refine .member (l := []) (.item (l := []) (.add (l := []) ?_))
    change Role.Ignores .select "note"
    exact ⟨rfl, by decide⟩
  have hrefused : Role.Refuses .file "note" := ⟨rfl, rfl, by decide⟩
  have hmany : ∃ run, Json.decodeText ofJson (spelledRun [] (spelledKind "select" ::
      spelledSizes 17 19 20 (by decide))).text = .ok ⟨[run]⟩ ∧ run.check ≠ .ok () :=
    ⟨_, (Spelling.decodeText_text ofJson _).trans rfl, by decide⟩
  obtain ⟨run, hrun, hcheck⟩ := hmany
  obtain ⟨i, -, why, -, -, hrejected, -⟩ :=
    parse_edited.2 _ ⟨[run]⟩ hrun ⟨run, List.mem_singleton_self run, hcheck⟩
  exact ⟨hparse, hrewrite _ (.tail (.single (.inl hlast)) (.inl hnote)),
    hspoil (spelledRun [spelledNote] _) (.add (l := []) hrefused), i, why, hrejected⟩

end RunFile

end NeighborSearch
