namespace WorldShuffle

abbrev Marks := Array Bool

def Marks.none (n : Nat) : Marks := Array.replicate n false

def Marks.isOpen (m : Marks) (i : Nat) : Bool := m[i]? == some false

def Marks.isSet (m : Marks) (i : Nat) : Bool := m[i]? == some true

def Marks.mark (m : Marks) (i : Nat) : Marks := m.setIfInBounds i true

def Marks.left (m : Marks) : Nat := m.count false

def Marks.setIndexes (m : Marks) : List Nat := (List.range m.size).filter m.isSet

theorem Marks.left_mark {m : Marks} {i : Nat} (h : m.isOpen i) : (m.mark i).left + 1 = m.left := by
  have hi : ∃ hi : i < m.size, m[i] = false := by
    simpa [Marks.isOpen, Array.getElem?_eq_some_iff] using h
  obtain ⟨hi, hm⟩ := hi
  have hpos : 0 < m.count false := Array.count_pos_iff.2 (hm ▸ Array.getElem_mem hi)
  simp only [Marks.mark, Marks.left, Array.setIfInBounds, hi, dif_pos, Array.count_set, hm]
  simp
  omega

end WorldShuffle
