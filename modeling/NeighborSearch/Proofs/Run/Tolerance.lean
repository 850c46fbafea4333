import NeighborSearch.Proofs.Run.Role

/-!
# Changes that a value survives

A change of a value does not matter in the role that the value has in a run file, if it only moves
members, adds one that is passed over, or leaves out or fills in a default (`Role.Change`). Nor
does it matter that what is inside of the value is replaced by something that denotes the same in
its own role (`Role.Keeps`). One such change is shown to keep what the value denotes
(`Role.Change.keeps`), in records slot by slot (`Role.Change.holds`).
-/

namespace NeighborSearch

open Json

/-! ## Lists -/

/-- What stands in a list that is read is read. -/
theorem exists_of_list {α : Type} {read : Json → Decoded α} {l r : List Json} {v : Json}
    {as : List α} (h : Json.list read (.ofItems (l ++ v :: r)) = .ok as) :
    ∃ a, read v = .ok a := by
  obtain ⟨_, h, -⟩ := bind_eq_ok_iff.1 h
  exact mapM_eq_ok_of_mem h (List.mem_append_right l List.mem_cons_self)

/-- A list is read as if something else stood in it that is read as the same. -/
theorem list_congr {α : Type} {read : Json → Decoded α} {l r : List Json} {v v' : Json}
    (h : read v = read v') :
    Json.list read (.ofItems (l ++ v :: r)) = Json.list read (.ofItems (l ++ v' :: r)) := by
  simp only [Json.list, ofItems, List.mapM_append, List.mapM_cons, h]

/-- An object is a distance if it has its name, with nothing. -/
theorem Distance.ofJson_ofMembers_singleton {name : String} {v : Json} {metric : Distance} :
    ofJson (.ofMembers [(name, v)]) = .ok metric ↔
      ofName name = .ok metric ∧ (v = .null ∨ ∃ stop, v = .object [] stop) := by
  simp only [ofJson, ofMembers, bind_eq_ok_iff]
  constructor
  · rintro ⟨metric', hname, h⟩
    split at h
    · obtain rfl := Except.ok.inj h
      exact ⟨hname, .inl rfl⟩
    · obtain rfl := Except.ok.inj h
      exact ⟨hname, .inr ⟨_, rfl⟩⟩
    · cases h
  · rintro ⟨hname, rfl | ⟨stop, rfl⟩⟩
    · exact ⟨metric, hname, rfl⟩
    · exact ⟨metric, hname, rfl⟩

namespace Role

/-- That a value that is an array or an object may be replaced. -/
def Keeps (role : Role) (v v' : Json) : Prop :=
  v.IsContainer ∧ ∀ a, role.Denotes v a → role.Denotes v' a

/-- The member with a role of its own may be replaced by what is kept in that role. -/
theorem Keeps.read {role inner : Role} {slot : Slot role.Value} (hslot : slot ∈ role.slots)
    {v v' : Json} (h : inner.Keeps v v')
    (hchild : ∀ inner', role.child = some (slot.place, inner') → inner' = inner) {a : slot.α}
    (ha : slot.read v = .ok a) : slot.read v' = .ok a := by
  obtain hscalar | ⟨inner', hinner', f, hread⟩ := slot_cases hslot
  · exact absurd ha (hscalar v h.1 a)
  · obtain rfl := hchild inner' hinner'
    obtain ⟨b, hb, rfl⟩ := (hread v a).1 ha
    exact (hread v' _).2 ⟨b, h.2 b hb, rfl⟩

/-- That members of the name are passed over. -/
def Ignores (role : Role) (name : String) : Prop :=
  role.lenient = true ∧ name ∉ role.names

/-- That the name is that of a member with a default, which the value is. -/
def Default (role : Role) (name : String) (v : Json) : Prop :=
  name ∈ role.names ∧ ∀ slot ∈ role.slots, slot.place.name = name →
    ∃ a, slot.default = some a ∧ slot.read v = .ok a

/-- A change of a value that does not matter in its role. -/
inductive Change (role : Role) : Json → Json → Prop
  /-- The members stand in another order. -/
  | permute {members members' : List (String × Json)} (h : members.Perm members') :
      Change role (.ofMembers members) (.ofMembers members')
  /-- There is one more member, which is passed over. -/
  | add {l r : List (String × Json)} {name : String} {v : Json} (h : role.Ignores name) :
      Change role (.ofMembers (l ++ r)) (.ofMembers (l ++ (name, v) :: r))
  /-- A member that is its default is left out. -/
  | leaveOut {l r : List (String × Json)} {name : String} {v : Json} (h : role.Default name v) :
      Change role (.ofMembers (l ++ (name, v) :: r)) (.ofMembers (l ++ r))
  /-- A member that is missing is filled in with its default. -/
  | fillIn {l r : List (String × Json)} {name : String} {v : Json} (h : role.Default name v)
      (habsent : named name (l ++ r) = []) :
      Change role (.ofMembers (l ++ r)) (.ofMembers (l ++ (name, v) :: r))
  /-- The value of a member is replaced. -/
  | member {l r : List (String × Json)} {name : String} {v v' : Json}
      (h : (role.member name).Keeps v v') :
      Change role (.ofMembers (l ++ (name, v) :: r)) (.ofMembers (l ++ (name, v') :: r))
  /-- An item is replaced. -/
  | item {l r : List Json} {v v' : Json} (h : (role.item l.length v).Keeps v v') :
      Change role (.ofItems (l ++ v :: r)) (.ofItems (l ++ v' :: r))

namespace Change

variable {role : Role} {v v' : Json}

theorem isContainer (h : Change role v v') : v.IsContainer := by
  cases h <;> trivial

/-- What a record has is not changed. -/
theorem holds (h : Change role v v') {slot : Slot role.Value} (hslot : slot ∈ role.slots)
    {a : role.Value} (ha : slot.Holds v a) : slot.Holds v' a := by
  have hname : slot.place.name ∈ role.names := List.mem_map_of_mem hslot
  cases h with
  | permute hperm => exact ha.perm hperm
  | @add l r name v hignored =>
    have hne : name ≠ slot.place.name := fun heq => hignored.2 (heq ▸ hname)
    exact (Place.holds_insert_of_ne hne).2 ha
  | @leaveOut l r name v hdefault =>
    by_cases heq : name = slot.place.name
    · obtain ⟨habsent, hread⟩ := (Place.holds_insert_self heq).1 ha
      obtain ⟨d, hd, hread'⟩ := hdefault.2 slot hslot heq.symm
      obtain rfl := Except.ok.inj (hread.symm.trans hread')
      exact .inr ⟨heq ▸ habsent, hd⟩
    · exact (Place.holds_insert_of_ne heq).1 ha
  | @fillIn l r name v hdefault habsent =>
    by_cases heq : name = slot.place.name
    · obtain ⟨d, hd, hread⟩ := hdefault.2 slot hslot heq.symm
      subst heq
      obtain ⟨w, hw, -⟩ | ⟨-, hd'⟩ := ha
      · cases habsent.symm.trans hw
      · obtain rfl := Option.some.inj (hd.symm.trans hd')
        exact (Place.holds_insert_self rfl).2 ⟨habsent, hread⟩
    · exact (Place.holds_insert_of_ne heq).2 ha
  | @member l r name v v' hkeeps =>
    by_cases heq : name = slot.place.name
    · obtain ⟨habsent, hread⟩ := (Place.holds_insert_self heq).1 ha
      exact (Place.holds_insert_self heq).2
        ⟨habsent, hkeeps.read hslot (fun inner hinner => (heq ▸ member_of_child hinner).symm) hread⟩
    · exact (Place.holds_insert_of_ne heq).2 ((Place.holds_insert_of_ne heq).1 ha)
  | @item l r v v' hkeeps =>
    by_cases heq : slot.place.index = l.length
    · exact (Place.holds_item_self heq).2
        (hkeeps.read hslot (fun inner hinner => (heq ▸ item_of_child hinner v).symm)
          ((Place.holds_item_self heq).1 ha))
    · exact (Place.holds_item_of_ne heq).1 ha

theorem fits (h : Change role v v') (hfits : role.Fits v) : role.Fits v' := by
  cases h with
  | permute hperm => exact hfits.imp_right fun h m hm => h m (hperm.mem_iff.2 hm)
  | add hignored => exact .inl hignored.1
  | leaveOut hdefault =>
    refine hfits.imp_right fun h => ?_
    rw [List.forall_mem_append, List.forall_mem_cons] at h
    exact List.forall_mem_append.2 ⟨h.1, h.2.2⟩
  | fillIn hdefault habsent =>
    refine hfits.imp_right fun h => ?_
    rw [List.forall_mem_append] at h
    exact List.forall_mem_append.2 ⟨h.1, List.forall_mem_cons.2 ⟨hdefault.1, h.2⟩⟩
  | member hkeeps =>
    refine hfits.imp_right fun h => ?_
    rw [List.forall_mem_append, List.forall_mem_cons] at h
    exact List.forall_mem_append.2 ⟨h.1, List.forall_mem_cons.2 h.2⟩
  | @item l r v v' hkeeps =>
    have hlength : (l ++ v' :: r).length = (l ++ v :: r).length := by simp
    exact hlength.trans_le hfits

/-- A record denotes the same after a change. -/
theorem denotes_record (h : Change role v v') (hrecord : role.isRecord = true)
    (hinner : ∀ w ∈ v.inner, w.fault? = none) (hinner' : ∀ w ∈ v'.inner, w.fault? = none)
    {a : role.Value} (ha : role.Denotes v a) : role.Denotes v' a := by
  have hwhole : v.fault? = none ∧ v'.fault? = none := by cases h <;> exact ⟨rfl, rfl⟩
  obtain ⟨hfits, hslots⟩ := (denotes_iff hrecord hwhole.1 hinner a).1 ha
  exact (denotes_iff hrecord hwhole.2 hinner' a).2
    ⟨h.fits hfits, fun slot hslot => h.holds hslot (hslots slot hslot)⟩

theorem slots_of_default {name : String} (h : role.Default name v) : role.slots ≠ [] := by
  rintro hslots
  have hname := h.1
  rw [names, hslots] at hname
  cases hname

/-- A list of runs is the same if a run in it is changed in its own role. -/
theorem denotes_runs (h : Change .runs v v') {contents : List Run}
    (ha : Json.list Run.ofJson v = .ok contents) : Json.list Run.ofJson v' = .ok contents := by
  cases h with
  | @item l r v v' hkeeps =>
    obtain ⟨run, hrun⟩ := exists_of_list ha
    have hrun' : Run.ofJson v' = .ok run := by
      cases run with
      | hamming run =>
        rw [Role.item, ofRun_hamming hrun] at hkeeps
        exact hkeeps.2 run hrun
      | select run =>
        rw [Role.item, ofRun_select hrun] at hkeeps
        exact hkeeps.2 run hrun
    rw [← ha, list_congr (hrun.trans hrun'.symm)]
  | _ => cases ha

/-- A distance is the same if its name stands at something else that is nothing. -/
theorem denotes_distance (h : Change .distance v v') {metric : Distance}
    (ha : Distance.ofJson v = .ok metric) : Distance.ofJson v' = .ok metric := by
  cases h with
  | @permute members members' hperm =>
    rcases members with _ | ⟨m, _ | ⟨n, members⟩⟩
    · cases ha
    · rwa [← hperm.symm.eq_singleton.symm]
    · cases ha
  | add hignored => cases hignored.1
  | leaveOut hdefault | fillIn hdefault => exact absurd rfl (slots_of_default hdefault)
  | @member l r name v v' hkeeps =>
    obtain ⟨rfl, rfl⟩ : l = [] ∧ r = [] := by
      rcases l with _ | ⟨m, _ | ⟨n, l⟩⟩ <;> rcases r with _ | ⟨n, r⟩ <;> first | cases ha | trivial
    rw [List.nil_append, Distance.ofJson_ofMembers_singleton] at ha ⊢
    exact ⟨ha.1, hkeeps.2 () ha.2⟩
  | item => cases ha

/-- What is nothing has nothing to be changed in it. -/
theorem denotes_other (h : Change .other v v') (ha : v = .null ∨ ∃ stop, v = .object [] stop) :
    v' = .null ∨ ∃ stop, v' = .object [] stop := by
  cases h with
  | permute hperm =>
    obtain hnull | ⟨stop, hempty⟩ := ha
    · cases hnull
    · obtain ⟨rfl, -⟩ := Json.object.inj hempty
      rw [hperm.symm.eq_nil]
      exact .inr ⟨none, rfl⟩
  | add hignored => cases hignored.1
  | leaveOut hdefault | fillIn hdefault => exact absurd rfl (slots_of_default hdefault)
  | member hkeeps => simp [ofMembers] at ha
  | item => simp [ofItems] at ha

/-- A value denotes the same after a change in its role. -/
theorem keeps (h : Change role v v') (hinner : ∀ w ∈ v.inner, w.fault? = none)
    (hinner' : ∀ w ∈ v'.inner, w.fault? = none) : role.Keeps v v' := by
  refine ⟨h.isContainer, fun a ha => ?_⟩
  cases role with
  | runs => exact h.denotes_runs ha
  | distance => exact h.denotes_distance ha
  | other => exact h.denotes_other ha
  | _ => exact h.denotes_record rfl hinner hinner' ha

end Change

end Role

end NeighborSearch
