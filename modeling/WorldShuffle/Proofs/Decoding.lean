import WorldShuffle.Json.Decoder
import WorldShuffle.Proofs.Except

namespace WorldShuffle

variable {α σ : Type} {a : α}

theorem under_eq_ok {x : Except JsonError α} {place : Segment} (h : under place x = .ok a) :
    x = .ok a := by
  match x, h with
  | .ok _, h => exact h
  | .error (.fault _), h => cases h
  | .error (.data _ _), h => cases h

theorem unexpected_ne_ok {wanted : String} {j : Json} : unexpected wanted j ≠ .ok a := by
  intro h
  rw [unexpected.eq_def] at h
  split at h
  · cases h
  · split at h <;> cases h

section Members

variable {fields : List (Field σ)} {f : Field σ} {P : σ → Prop} {r r' : σ} {j : Json}
  {name : String} {seen seen' : List String} {ms : List (Option String × Json)}

def Field.Keeps (f : Field σ) (P : σ → Prop) : Prop := ∀ ⦃r j r'⦄, P r → f.put r j = .ok r' → P r'

structure Takes (fields : List (Field σ)) (seen : List String) (name : String) (j : Json)
    (f : Field σ) (r r' : σ) : Prop where
  found : fields.find? (·.name = name) = some f
  first : name ∉ seen
  put : f.put r j = .ok r'

theorem Takes.name_eq (h : Takes fields seen name j f r r') : f.name = name := by
  simpa using List.find?_some h.found

theorem Takes.mem (h : Takes fields seen name j f r r') : f ∈ fields :=
  List.mem_of_find?_eq_some h.found

theorem decodeMembers_cons_eq_ok {m : Option String × Json}
    (h : decodeMembers fields seen r (m :: ms) = .ok (seen', r')) :
    ∃ name, m.1 = some name ∧
      (fields.find? (·.name = name) = none ∧ decodeMembers fields seen r ms = .ok (seen', r') ∨
        ∃ f r₁, Takes fields seen name m.2 f r r₁ ∧
          decodeMembers fields (name :: seen) r₁ ms = .ok (seen', r')) := by
  obtain ⟨_ | name, j⟩ := m
  · cases h
  refine ⟨name, rfl, ?_⟩
  rw [decodeMembers] at h
  split at h
  · rename_i hnone
    split at h
    · cases h
    · exact .inl ⟨hnone, h⟩
  · rename_i f hfound
    split at h
    · cases h
    · rename_i hnew
      obtain ⟨r₁, hput, h⟩ := bind_eq_ok h
      exact .inr ⟨f, r₁, ⟨hfound, by simpa using hnew, under_eq_ok hput⟩, h⟩

theorem decodeMembers_keeps (hkeep : ∀ f ∈ fields, f.name ∉ seen → f.Keeps P) (hr : P r)
    (h : decodeMembers fields seen r ms = .ok (seen', r')) : P r' := by
  induction ms generalizing seen r with
  | nil =>
    cases h
    exact hr
  | cons m ms ih =>
    obtain ⟨name, -, ⟨-, h⟩ | ⟨f, r₁, htakes, h⟩⟩ := decodeMembers_cons_eq_ok h
    · exact ih hkeep hr h
    · have hnew : f.name ∉ seen := htakes.name_eq ▸ htakes.first
      refine ih (fun g hg hseen => hkeep g hg fun h => hseen (List.mem_cons_of_mem name h)) ?_ h
      exact hkeep f htakes.mem hnew hr htakes.put

/-- What a field makes of the first member of its name, and the other fields keep, is true in the end:
another member of the name is refused. -/
theorem decodeMembers_makes (hf : fields.find? (·.name = f.name) = some f)
    (hj : ms.find? (·.1 = some f.name) = some (some f.name, j))
    (hput : ∀ r r₁, f.put r j = .ok r₁ → P r₁)
    (hkeep : ∀ g ∈ fields, g.name ≠ f.name → g.Keeps P)
    (h : decodeMembers fields seen r ms = .ok (seen', r')) : P r' := by
  induction ms generalizing seen r with
  | nil => cases hj
  | cons m ms ih =>
    obtain ⟨name, hname, hcase⟩ := decodeMembers_cons_eq_ok h
    by_cases he : name = f.name
    · subst he
      rw [List.find?_cons_of_pos (by simpa using hname)] at hj
      obtain rfl := Option.some.inj hj
      rcases hcase with ⟨hnone, -⟩ | ⟨g, r₁, htakes, h⟩
      · cases hnone.symm.trans hf
      · obtain rfl := Option.some.inj (htakes.found.symm.trans hf)
        refine decodeMembers_keeps (fun g hg hseen => hkeep g hg ?_) (hput _ _ htakes.put) h
        exact List.ne_of_not_mem_cons hseen
    · rw [List.find?_cons_of_neg (by simpa [hname] using he)] at hj
      rcases hcase with ⟨-, h⟩ | ⟨g, r₁, -, h⟩
      · exact ih hj h
      · exact ih hj h

theorem decodeFields_keeps {n : Nat} {left : List (Field σ)} {js more : List Json}
    (hkeep : ∀ f ∈ fields, f.Keeps P) (hr : P r)
    (h : decodeFields n r fields js = .ok (r', left, more)) : P r' := by
  induction fields generalizing n r js with
  | nil =>
    cases h
    exact hr
  | cons f fields ih =>
    cases js with
    | nil =>
      cases h
      exact hr
    | cons j js =>
      obtain ⟨r₁, hput, h⟩ := bind_eq_ok h
      exact ih (fun g hg => hkeep g (List.mem_cons_of_mem f hg))
        (hkeep f List.mem_cons_self hr (under_eq_ok hput)) h

theorem decodeRecord_obj_eq_ok {stop : Option Break}
    (h : decodeRecord name fields r (.obj ms stop) = .ok r') :
    ∃ seen, decodeMembers fields [] r ms = .ok (seen, r') := by
  obtain ⟨⟨seen, r₁⟩, hmembers, h⟩ := bind_eq_ok h
  obtain ⟨-, -, h⟩ := bind_eq_ok h
  split at h
  · cases h
  · cases h
    exact ⟨seen, hmembers⟩

theorem decodeRecord_arr_eq_ok {items : List Json} {stop : Option Break}
    (h : decodeRecord name fields r (.arr items stop) = .ok r') :
    ∃ left more, decodeFields 0 r fields items = .ok (r', left, more) := by
  obtain ⟨⟨r₁, left, more⟩, hfields, h⟩ := bind_eq_ok h
  suffices r₁ = r' from this ▸ ⟨left, more, hfields⟩
  dsimp only at h
  split at h
  · obtain ⟨-, -, h⟩ := bind_eq_ok h
    exact Except.ok.inj h
  · obtain ⟨-, -, h⟩ := bind_eq_ok h
    split at h
    · cases h
    · exact Except.ok.inj h

/-- What is true of the blank record, and kept by every field, is true of what is read. -/
theorem decodeRecord_keeps (hkeep : ∀ f ∈ fields, f.Keeps P) (hr : P r)
    (h : decodeRecord name fields r j = .ok r') : P r' := by
  cases j with
  | obj ms stop =>
    obtain ⟨seen, hmembers⟩ := decodeRecord_obj_eq_ok h
    exact decodeMembers_keeps (fun f hf _ => hkeep f hf) hr hmembers
  | arr items stop =>
    obtain ⟨left, more, hfields⟩ := decodeRecord_arr_eq_ok h
    exact decodeFields_keeps hkeep hr hfields
  | null | bool | num | str | broken =>
    rw [decodeRecord] at h
    exact absurd h unexpected_ne_ok
    all_goals nofun

end Members

theorem decodeInteger_eq_ok {wanted : String} {least greatest k : Int} {j : Json}
    (h : decodeInteger wanted least greatest j = .ok k) : least ≤ k ∧ k ≤ greatest := by
  obtain ⟨x, -, h⟩ := bind_eq_ok h
  split at h
  · split at h
    · exact Except.ok.inj h ▸ ‹_›
    · cases h
  · cases h

theorem decodeSize_lt {j : Json} {n : Nat} (h : decodeSize j = .ok n) : n < UInt64.size := by
  obtain ⟨k, hk, rfl⟩ := map_eq_ok h
  have hsize : (UInt64.size : Int) = 0x10000000000000000 := rfl
  have hbounds := decodeInteger_eq_ok hk
  omega

end WorldShuffle
