import Mathlib.Data.List.Basic
import NeighborSearch.Json.Decode
import NeighborSearch.Proofs.Outcome

/-!
# Records place by place

A record has a *place* for each of its members: in an object this is a name, in an array a
position. What a value holds at a place is read from the one member of that name, or from the
item at that position, and is the default if there is none (`Place.Holds`). A record is decoded
by going through all of its members or items, but this comes to the same as to look at its
places one by one: through objects by `collect`, through arrays by `run_itemOr_eq_ok_iff` and
`run_itemOf_eq_ok_iff`.
-/

namespace NeighborSearch.Json

variable {α β : Type} {read : Json → Decoded α} {name : String} {members : List (String × Json)}

/-! ## Objects -/

/-- The members of a name. -/
def named (name : String) (members : List (String × Json)) : List (String × Json) :=
  members.filter (·.1 = name)

@[simp] theorem named_nil : named name [] = [] := rfl

@[simp] theorem named_cons_self (v : Json) :
    named name ((name, v) :: members) = (name, v) :: named name members :=
  List.filter_cons_of_pos (decide_eq_true rfl)

@[simp] theorem named_cons_of_ne {m : String × Json} (h : m.1 ≠ name) :
    named name (m :: members) = named name members :=
  List.filter_cons_of_neg (by simpa using h)

@[simp] theorem named_append (members members' : List (String × Json)) :
    named name (members ++ members') = named name members ++ named name members' :=
  List.filter_append ..

theorem named_eq_nil_iff : named name members = [] ↔ ∀ m ∈ members, m.1 ≠ name := by
  simp [named, List.filter_eq_nil_iff]

/-- What is found under a name when members are gone through: it is read the first time, and
    refused the second time. -/
def collect (name : String) (read : Json → Decoded α) (before : Option α)
    (members : List (String × Json)) : Decoded (Option α) :=
  (named name members).foldlM (fun before m => once name before (read m.2)) before

@[simp] theorem collect_nil (before : Option α) : collect name read before [] = .ok before := rfl

theorem collect_cons_self (before : Option α) (v : Json) :
    collect name read before ((name, v) :: members) =
      once name before (read v) >>= fun found => collect name read found members := by
  rw [collect, named_cons_self, List.foldlM_cons]
  rfl

theorem collect_cons_of_ne {other : String} (h : other ≠ name) (before : Option α) (v : Json) :
    collect name read before ((other, v) :: members) = collect name read before members := by
  rw [collect, collect, named_cons_of_ne h]

/-- Nothing is found if there is no member of the name, and otherwise the only one is read. -/
theorem collect_eq_ok_iff {found : Option α} :
    collect name read none members = .ok found ↔
      (named name members = [] ∧ found = none) ∨
      ∃ v a, named name members = [(name, v)] ∧ read v = .ok a ∧ found = some a := by
  have hname : ∀ m ∈ named name members, m.1 = name := fun m hm => by
    simpa using (List.mem_filter.1 hm).2
  rw [collect]
  revert hname
  rcases named name members with _ | ⟨⟨n, v⟩, _ | ⟨m, others⟩⟩ <;> intro hname
  · simp [pure, Except.pure, eq_comm]
  · obtain rfl : n = name := hname (n, v) List.mem_cons_self
    simp only [List.foldlM_cons, List.foldlM_nil, once, bind_pure]
    cases hread : read v <;> simp [Functor.map, Except.map, hread, eq_comm]
  · simp only [List.foldlM_cons, once]
    cases read v <;> simp [Functor.map, Except.map, bind, Except.bind]

/-! ## Places -/

/-- Where a record has one of its members. -/
structure Place where
  /-- The name of the member in an object. -/
  name : String
  /-- The position of the item in an array. -/
  index : ℕ

/-- What is read from the item at a position, or the default if there is none. -/
def ItemHolds (index : ℕ) (read : Json → Decoded α) (default : Option α) (values : List Json)
    (a : α) : Prop :=
  match values[index]? with
  | some v => read v = .ok a
  | none => default = some a

/-- What a value holds at a place: what is read from it there, or the default if there is
    nothing. -/
def Place.Holds (p : Place) (read : Json → Decoded α) (default : Option α) (v : Json) (a : α) :
    Prop :=
  match v with
  | .object members _ =>
    (∃ w, named p.name members = [(p.name, w)] ∧ read w = .ok a) ∨
      (named p.name members = [] ∧ default = some a)
  | .array items _ => ItemHolds p.index read default items a
  | _ => False

variable {p : Place} {default : Option α} {a : α}

theorem Place.holds_ofMembers_iff :
    p.Holds read default (.ofMembers members) a ↔
      ∃ found, collect p.name read none members = .ok found ∧ found.or default = some a := by
  simp only [collect_eq_ok_iff]
  constructor
  · rintro (⟨w, hw, ha⟩ | ⟨hnone, hdefault⟩)
    · exact ⟨some a, .inr ⟨w, a, hw, ha, rfl⟩, rfl⟩
    · exact ⟨none, .inl ⟨hnone, rfl⟩, hdefault⟩
  · rintro ⟨found, ⟨hnone, rfl⟩ | ⟨w, a', hw, ha, rfl⟩, hor⟩
    · exact .inr ⟨hnone, hor⟩
    · obtain rfl := Option.some.inj hor
      exact .inl ⟨w, hw, ha⟩

/-- A member with a default. -/
theorem Place.holds_some_iff {d : α} :
    p.Holds read (some d) (.ofMembers members) a ↔
      ∃ found, collect p.name read none members = .ok found ∧ found.getD d = a := by
  rw [holds_ofMembers_iff]
  exact exists_congr fun found => and_congr_right fun _ => by cases found <;> simp

/-- A member that has to be there. -/
theorem Place.holds_none_iff :
    p.Holds read none (.ofMembers members) a ↔
      ∃ found, collect p.name read none members = .ok found ∧ required p.name found = .ok a := by
  rw [holds_ofMembers_iff]
  exact exists_congr fun found => and_congr_right fun _ => by cases found <;> simp [required]

/-- What is read may be changed afterwards, together with the default. -/
theorem Place.holds_map_iff {f : α → β} {d : α} {v : Json} {b : β} :
    p.Holds (fun v => f <$> read v) (some (f d)) v b ↔
      ∃ a, p.Holds read (some d) v a ∧ f a = b := by
  have hread : ∀ w, f <$> read w = .ok b ↔ ∃ a, read w = .ok a ∧ f a = b :=
    fun w => functor_map_eq_ok_iff
  cases v with
  | object members stop =>
    simp only [Holds, hread, Option.some.injEq]
    constructor
    · rintro (⟨w, hw, a, ha, hb⟩ | ⟨hnone, hb⟩)
      · exact ⟨a, .inl ⟨w, hw, ha⟩, hb⟩
      · exact ⟨d, .inr ⟨hnone, rfl⟩, hb⟩
    · rintro ⟨a, ⟨w, hw, ha⟩ | ⟨hnone, rfl⟩, hb⟩
      · exact .inl ⟨w, hw, a, ha, hb⟩
      · exact .inr ⟨hnone, hb⟩
  | array values stop =>
    simp only [Holds, ItemHolds]
    cases values[p.index]? with
    | some w => exact hread w
    | none => simp
  | _ => simp [Holds]

/-! ### Changes -/

variable {members' l r : List (String × Json)} {n : String} {v v' : Json}

/-- The order of members does not matter. -/
theorem Place.Holds.perm (hperm : members.Perm members')
    (h : p.Holds read default (.ofMembers members) a) :
    p.Holds read default (.ofMembers members') a := by
  have hnamed : (named p.name members).Perm (named p.name members') := hperm.filter _
  rcases h with ⟨w, hw, ha⟩ | ⟨hnone, hdefault⟩
  · rw [hw] at hnamed
    exact .inl ⟨w, (List.perm_singleton.1 hnamed.symm), ha⟩
  · rw [hnone] at hnamed
    exact .inr ⟨hnamed.symm.eq_nil, hdefault⟩

/-- Members of other names do not matter. -/
theorem Place.holds_insert_of_ne (hne : n ≠ p.name) :
    p.Holds read default (.ofMembers (l ++ (n, v) :: r)) a ↔
      p.Holds read default (.ofMembers (l ++ r)) a := by
  have hnamed : named p.name (l ++ (n, v) :: r) = named p.name (l ++ r) := by
    rw [named_append, named_append, named_cons_of_ne hne]
  simp only [Holds, ofMembers, hnamed]

/-- A member of the name has to be the only one, and is read. -/
theorem Place.holds_insert_self (hname : n = p.name) :
    p.Holds read default (.ofMembers (l ++ (n, v) :: r)) a ↔
      named n (l ++ r) = [] ∧ read v = .ok a := by
  subst hname
  simp only [Holds, ofMembers, named_append, named_cons_self, List.append_eq_nil_iff]
  constructor
  · rintro (⟨w, hw, ha⟩ | ⟨⟨-, hnone⟩, -⟩)
    · obtain ⟨hl, hsingle⟩ | ⟨-, hnone⟩ := List.append_eq_singleton_iff.1 hw
      · obtain ⟨hv, hr⟩ := List.cons.inj hsingle
        obtain rfl := (Prod.mk.inj hv).2
        exact ⟨⟨hl, hr⟩, ha⟩
      · cases hnone
    · cases hnone
  · rintro ⟨⟨hl, hr⟩, ha⟩
    exact .inl ⟨v, by rw [hl, hr]; rfl, ha⟩

theorem join_eq_getD (found : Option (Option α)) : found.join = found.getD none := by
  cases found <;> rfl

/-! ## Arrays -/

theorem run_bind_eq_ok_iff {x : FromItems α} {f : α → FromItems β} {items : Items}
    {r : β × Items} :
    (x >>= f).run items = .ok r ↔ ∃ a items', x.run items = .ok (a, items') ∧
      (f a).run items' = .ok r := by
  rw [StateT.run_bind, bind_eq_ok_iff]
  exact ⟨fun ⟨⟨a, items'⟩, h⟩ => ⟨a, items', h⟩, fun ⟨a, items', h⟩ => ⟨(a, items'), h⟩⟩

variable {values : List Json} {index taken : ℕ} {items : Items}

theorem Place.holds_ofItems_iff :
    p.Holds read default (.ofItems values) a ↔ ItemHolds p.index read default values a :=
  Iff.rfl

/-- The item at the position is read. -/
theorem Place.holds_item_self {front back : List Json} (hindex : p.index = front.length) :
    p.Holds read default (.ofItems (front ++ v :: back)) a ↔ read v = .ok a := by
  rw [holds_ofItems_iff, ItemHolds, hindex, List.getElem?_append_right (Nat.le_refl _),
    Nat.sub_self]
  rfl

/-- Items at other positions do not matter. -/
theorem Place.holds_item_of_ne {front back : List Json} (hindex : p.index ≠ front.length) :
    p.Holds read default (.ofItems (front ++ v :: back)) a ↔
      p.Holds read default (.ofItems (front ++ v' :: back)) a := by
  have hset : front ++ v' :: back = (front ++ v :: back).set front.length v' := by simp
  rw [holds_ofItems_iff, holds_ofItems_iff, ItemHolds, ItemHolds, hset,
    List.getElem?_set_ne hindex.symm]

theorem itemHolds_tail_iff :
    ItemHolds index read default values.tail a ↔ ItemHolds (index + 1) read default values a := by
  rw [ItemHolds, ItemHolds, List.getElem?_tail]

/-- The item in front is read, or there is a default. -/
theorem run_itemOr_eq_ok_iff {d : α} :
    (itemOr d read).run ⟨values, none, taken⟩ = .ok (a, items) ↔
      ItemHolds 0 read (some d) values a ∧
        items = ⟨values.tail, none, taken + (values.take 1).length⟩ := by
  cases values with
  | nil =>
    change Except.ok (d, (⟨[], none, taken⟩ : Items)) = _ ↔ _
    simp [ItemHolds, eq_comm]
  | cons v values =>
    change (read v >>= fun a => Except.ok (a, (⟨values, none, taken + 1⟩ : Items))) = _ ↔ _
    rw [bind_eq_ok_iff]
    simp [ItemHolds, eq_comm (a := items)]

/-- The item in front is read, and there has to be one. -/
theorem run_itemOf_eq_ok_iff {expected : String} :
    (itemOf expected read).run ⟨values, none, taken⟩ = .ok (a, items) ↔
      ItemHolds 0 read none values a ∧
        items = ⟨values.tail, none, taken + (values.take 1).length⟩ := by
  cases values with
  | nil =>
    change Except.error _ = _ ↔ _
    simp [ItemHolds]
  | cons v values =>
    change (read v >>= fun a => Except.ok (a, (⟨values, none, taken + 1⟩ : Items))) = _ ↔ _
    rw [bind_eq_ok_iff]
    simp [ItemHolds, eq_comm (a := items)]

theorem run_pure_eq_ok_iff {b : β} {items : Items} {r : β × Items} :
    (pure b : FromItems β).run items = .ok r ↔ r = (b, items) := by
  rw [StateT.run_pure, eq_comm (a := r)]
  exact ⟨Except.ok.inj, congrArg Except.ok⟩

theorem run_noMoreItems_eq_ok_iff {setting : Setting} {r : Unit × Items} :
    (noMoreItems setting).run ⟨values, none, taken⟩ = .ok r ↔
      values.length = 0 ∧ r = ((), ⟨values, none, taken⟩) := by
  cases values with
  | nil =>
    change Except.ok ((), (⟨[], none, taken⟩ : Items)) = _ ↔ _
    simp [eq_comm]
  | cons v values =>
    have hfail : ∃ e, (noMoreItems setting).run ⟨v :: values, none, taken⟩ = .error e := by
      cases setting <;> exact ⟨_, rfl⟩
    obtain ⟨e, he⟩ := hfail
    simp [he]

/-- All items of an array have to be taken. -/
theorem Shape.ofItems_eq_ok_iff {σ : Type} {shape : Shape σ α} {setting : Setting} :
    shape.ofItems setting values none = .ok a ↔
      ∃ items, shape.items.run ⟨values, none, 0⟩ = .ok (a, items) ∧
        ∃ r, (noMoreItems setting).run items = .ok r := by
  simp only [ofItems, bind_eq_ok_iff]
  constructor
  · rintro ⟨⟨b, items⟩, hitems, r, hmore, hb⟩
    obtain rfl := Except.ok.inj hb
    exact ⟨items, hitems, r, hmore⟩
  · rintro ⟨items, hitems, r, hmore⟩
    exact ⟨⟨a, items⟩, hitems, r, hmore, rfl⟩

/-! ## Values -/

/-- What a value holds at a place is only one thing. -/
theorem Place.Holds.unique {b : α} (ha : p.Holds read default v a)
    (hb : p.Holds read default v b) : a = b := by
  cases v with
  | object members stop =>
    rcases ha with ⟨w, hw, ha⟩ | ⟨hnone, ha⟩ <;> rcases hb with ⟨w', hw', hb⟩ | ⟨hnone', hb⟩
    · obtain rfl := (Prod.mk.inj (List.cons.inj (hw.symm.trans hw')).1).2
      exact Except.ok.inj (ha.symm.trans hb)
    · cases hw.symm.trans hnone'
    · cases hnone.symm.trans hw'
    · exact Option.some.inj (ha.symm.trans hb)
  | array values stop =>
    simp only [Holds, ItemHolds] at ha hb
    cases hv : values[p.index]? with
    | none =>
      rw [hv] at ha hb
      exact Option.some.inj (ha.symm.trans hb)
    | some w =>
      rw [hv] at ha hb
      exact Except.ok.inj (ha.symm.trans hb)
  | _ => exact ha.elim

/-- One value comes for another at a place: under its name in an object, or at its position in
    an array. -/
inductive Replaces (p : Place) (w w' : Json) : Json → Json → Prop
  | member {l r : List (String × Json)} {name : String} (h : name = p.name) :
      Replaces p w w' (.ofMembers (l ++ (name, w) :: r)) (.ofMembers (l ++ (name, w') :: r))
  | item {l r : List Json} (h : p.index = l.length) :
      Replaces p w w' (.ofItems (l ++ w :: r)) (.ofItems (l ++ w' :: r))

namespace Replaces

variable {w w' : Json}

theorem symm (h : Replaces p w w' v v') : Replaces p w' w v' v := by
  cases h with
  | member h => exact .member h
  | item h => exact .item h

theorem fault?_eq_none (h : Replaces p w w' v v') : v.fault? = none := by
  cases h <;> rfl

/-- What stands at the place is read. -/
theorem read_of_holds (h : Replaces p w w' v v') (ha : p.Holds read default v a) :
    read w = .ok a := by
  cases h with
  | member h => exact ((Place.holds_insert_self h).1 ha).2
  | item h => exact (Place.holds_item_self h).1 ha

/-- Whatever else a value holds is still there. -/
theorem holds_of_ne {q : Place} (h : Replaces p w w' v v') (hname : p.name ≠ q.name)
    (hindex : p.index ≠ q.index) (ha : q.Holds read default v a) :
    q.Holds read default v' a := by
  cases h with
  | member h =>
    subst h
    exact (Place.holds_insert_of_ne hname).2 ((Place.holds_insert_of_ne hname).1 ha)
  | item h => exact (Place.holds_item_of_ne (h ▸ hindex.symm)).1 ha

end Replaces

/-- That an object has no members but those of the given names, and an array no more items. -/
def Within (names : List String) : Json → Prop
  | .object members _ => ∀ m ∈ members, m.1 ∈ names
  | .array items _ => items.length ≤ names.length
  | _ => False

/-- That an array has at most so many items. -/
def AtMost (count : ℕ) : Json → Prop
  | .object .. => True
  | .array items _ => items.length ≤ count
  | _ => False

theorem Shape.ofMembers_eq_ok_iff {σ : Type} {shape : Shape σ α} :
    shape.ofMembers members none = .ok a ↔
      ∃ found, members.foldlM (fun found m => shape.member found m.1 m.2) shape.start = .ok found ∧
        shape.finish found = .ok a := by
  simp only [ofMembers, bind_eq_ok_iff]
  exact exists_congr fun found => and_congr_right fun _ =>
    ⟨fun ⟨_, _, h⟩ => h, fun h => ⟨(), rfl, h⟩⟩

/-- Whether the value is an array or an object. -/
def IsContainer : Json → Prop
  | .array .. | .object .. => True
  | _ => False

theorem Within.isContainer {names : List String} {v : Json} (h : v.Within names) :
    v.IsContainer := by
  cases v <;> trivial

theorem AtMost.isContainer {count : ℕ} {v : Json} (h : v.AtMost count) : v.IsContainer := by
  cases v <;> trivial

/-- What makes a record of objects and of arrays makes one of a value. -/
theorem Shape.decode_eq_ok_iff {σ : Type} {shape : Shape σ α} {setting : Setting} {v : Json}
    {P : Json → Prop}
    (hobject : ∀ members, shape.ofMembers members none = .ok a ↔ P (.ofMembers members))
    (harray : ∀ values, shape.ofItems setting values none = .ok a ↔ P (.ofItems values))
    (hcontainer : P v → v.IsContainer) (hwhole : v.fault? = none) :
    shape.decode setting v = .ok a ↔ P v := by
  cases v with
  | object members stop =>
    obtain rfl : stop = none := hwhole
    exact hobject members
  | array values stop =>
    obtain rfl : stop = none := hwhole
    exact harray values
  | _ => exact ⟨(by rintro ⟨⟩), fun h => (hcontainer h).elim⟩

end NeighborSearch.Json
