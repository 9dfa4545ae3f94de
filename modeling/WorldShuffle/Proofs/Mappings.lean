import WorldShuffle.Placement.Mapping
import WorldShuffle.Placement.Replay
import WorldShuffle.Proofs.Tables

namespace WorldShuffle

namespace Mapping

variable {m m' : Mapping} {l : Nat} {r : Replacement}

def locations (m : Mapping) : List Nat := m.toList.map Prod.fst

def Distinct (m : Mapping) : Prop := m.locations.Nodup

instance (m : Mapping) : Decidable m.Distinct := inferInstanceAs (Decidable m.locations.Nodup)

theorem has_iff : m.has l = true ↔ l ∈ m.locations := Table.has_iff

theorem insert_eq_ok (h : m.insert l r = .ok m') :
    l ∉ m.locations ∧ m'.toList = m.toList ++ [(l, r)] := by
  rw [insert] at h
  split at h
  · simp at h
  · rename_i hm
    have hl : l ∉ m.locations := fun hl => hm (has_iff.2 hl)
    obtain rfl := Except.ok.inj h
    exact ⟨hl, Table.putEntry_new r hl⟩

theorem Distinct.insert (hm : m.Distinct) (h : m.insert l r = .ok m') : m'.Distinct := by
  obtain ⟨hl, he⟩ := insert_eq_ok h
  rw [Distinct, locations, he, List.map_append]
  exact List.nodup_append_comm.2 (List.nodup_cons.2 ⟨hl, hm⟩)

theorem get?_eq_some (hm : m.Distinct) (h : (l, r) ∈ m.toList) : m.get? l = some r :=
  Table.lookup_eq_some hm h

theorem get?_eq_none (h : l ∉ m.locations) : m.get? l = none := Table.lookup_eq_none h

theorem mem_of_get? (h : m.get? l = some r) : (l, r) ∈ m.toList := Table.mem_of_lookup h

theorem mem_placedItems {i : Nat} (h : m.get? l = some (.check i)) : i ∈ m.placedItems :=
  List.mem_filterMap.2 ⟨_, mem_of_get? h, rfl⟩

theorem nodup_itemLocations (hm : m.Distinct) : m.itemLocations.Nodup := by
  have hsub : m.itemLocations.Sublist m.locations := by
    rw [itemLocations, locations]
    induction m.toList with
    | nil => exact List.Sublist.refl _
    | cons e es ih =>
      rcases e with ⟨l, _ | _ | _⟩
      · exact ih.cons_cons l
      · exact ih.cons l
      · exact ih.cons l
  exact hm.sublist hsub

end Mapping

end WorldShuffle
