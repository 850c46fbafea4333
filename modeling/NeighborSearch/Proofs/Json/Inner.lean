import NeighborSearch.Proofs.Json.Record
import NeighborSearch.Proofs.Json.Recovery

/-!
# Values inside of values

What a record is decoded from stands inside of the value that it is decoded from
(`Place.Holds.exists_inner`), and inside of a spelled value all values are spelled
(`IsSpelled.inner`), so that they are whole.
-/

namespace NeighborSearch.Json

/-- The values of the members or items of a value. -/
def inner : Json → List Json
  | .object members _ => members.map (·.2)
  | .array items _ => items
  | _ => []

variable {α : Type} {read : Json → Decoded α} {default : Option α} {p : Place} {v w : Json} {a : α}

/-- What is held at a place is read from a value inside, or is the default. -/
theorem Place.Holds.exists_inner (h : p.Holds read default v a) :
    (∃ w ∈ v.inner, read w = .ok a) ∨ default = some a := by
  cases v with
  | object members stop =>
    rcases h with ⟨w, hw, ha⟩ | ⟨-, hdefault⟩
    · have hmem : (p.name, w) ∈ named p.name members := hw ▸ List.mem_singleton_self _
      exact .inl ⟨w, List.mem_map_of_mem (List.mem_of_mem_filter hmem), ha⟩
    · exact .inr hdefault
  | array items stop =>
    simp only [Place.Holds, ItemHolds] at h
    split at h
    case h_1 w hw => exact .inl ⟨w, List.mem_of_getElem? hw, h⟩
    case h_2 => exact .inr h
  | _ => exact h.elim

theorem mapM_of_list {as : List α} (h : list read v = .ok as) :
    ∃ stop, v = .array v.inner stop ∧ v.inner.mapM read = .ok as := by
  cases v with
  | array items stop =>
    obtain ⟨values, hvalues, h⟩ := bind_eq_ok_iff.1 h
    obtain ⟨-, -, h⟩ := bind_eq_ok_iff.1 h
    obtain rfl := Except.ok.inj h
    exact ⟨stop, rfl, hvalues⟩
  | _ => cases h

/-- That a value is spelled somehow. -/
def IsSpelled (v : Json) : Prop := ∃ (depth : ℕ) (s : Spelling depth), s.value = v

theorem IsSpelled.fault?_eq_none (h : v.IsSpelled) : v.fault? = none := by
  obtain ⟨depth, s, rfl⟩ := h
  exact s.fault?_value

theorem IsScalar.not_mem_inner (h : v.IsScalar) : w ∉ v.inner := by
  cases v <;> first | exact List.not_mem_nil | exact h.elim

/-- Inside of a spelled value all values are spelled. -/
theorem IsSpelled.inner (h : v.IsSpelled) (hw : w ∈ v.inner) : w.IsSpelled := by
  obtain ⟨depth, s, rfl⟩ := h
  cases depth with
  | zero => exact absurd hw (Leaf.scalar s).not_mem_inner
  | succ depth =>
    obtain l | ⟨_, _, items, _⟩ | ⟨_, _, members, _⟩ := (s : Node (Spelling depth))
    · exact absurd hw l.scalar.not_mem_inner
    · obtain ⟨x, -, rfl⟩ := List.mem_map.1 hw
      exact ⟨depth, x, rfl⟩
    · obtain ⟨n, hn, rfl⟩ := List.mem_map.1 hw
      obtain ⟨m, -, rfl⟩ := List.mem_map.1 hn
      exact ⟨depth, m.2, rfl⟩

end NeighborSearch.Json
