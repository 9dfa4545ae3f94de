import WorldShuffle.Proofs.Except
import WorldShuffle.Proofs.Spellings

namespace WorldShuffle

variable {α β σ : Type} {encode : α → Json} {decode : Decoder α} {encode' : β → Json}
  {decode' : Decoder β} {a : α} {b : β}

structure Stores (encode : α → Json) (decode : Decoder α) (a : α) : Prop where
  written : (encode a).Written
  decoded : decode (encode a) = .ok a

theorem Stores.decodeText (h : Stores encode decode a) :
    decodeText decode (encode a).text = .ok a :=
  (h.written.decodeText decode).trans h.decoded

theorem stores_string (s : String) : Stores .string decodeString s := ⟨Json.written_string s, rfl⟩

theorem stores_bool (b : Bool) : Stores .bool decodeBool b := ⟨Json.written_bool b, rfl⟩

theorem stores_size {n : Nat} (h : n < UInt64.size) : Stores .nat decodeSize n where
  written := Json.written_nat n
  decoded := by
    rw [decodeSize, Json.nat_eq_int, decodeInteger_int (by omega) (by omega) (by omega) (by omega)]
    rfl

theorem stores_optional_string (o : Option String) :
    Stores (Json.optional .string) (decodeOption decodeString) o where
  written := Json.written_optional fun s _ => Json.written_string s
  decoded := by cases o <;> rfl

theorem decodeItems_map (as : List α) (n : Nat) (h : ∀ a ∈ as, decode (encode a) = .ok a) :
    decodeItems decode n (as.map encode) = .ok as := by
  induction as generalizing n with
  | nil => rfl
  | cons a as ih =>
    have hrest := ih (n + 1) fun a h' => h a (List.mem_cons_of_mem _ h')
    rw [List.map_cons, decodeItems, h a List.mem_cons_self, hrest]
    rfl

def listJson (encode : α → Json) (as : List α) : Json := .list (as.map encode)

theorem stores_list {as : List α} (h : ∀ a ∈ as, Stores encode decode a) :
    Stores (listJson encode) (decodeList decode) as where
  written := Json.written_list (List.forall_mem_map.2 fun a ha => (h a ha).written)
  decoded := by
    rw [listJson, Json.list, decodeList, decodeItems_map as 0 fun a ha => (h a ha).decoded]
    rfl

def pairJson (encode : α → Json) (encode' : β → Json) (p : α × β) : Json :=
  .list [encode p.1, encode' p.2]

theorem stores_pair (ha : Stores encode decode a) (hb : Stores encode' decode' b) :
    Stores (pairJson encode encode') (decodePair decode decode') (a, b) where
  written := Json.written_list <| by
    simp only [List.forall_mem_cons, List.not_mem_nil, false_implies, implies_true, and_true]
    exact ⟨ha.written, hb.written⟩
  decoded := by
    rw [pairJson, Json.list, decodePair, ha.decoded, hb.decoded]
    rfl

inductive Puts : σ → List (Field σ × Json) → σ → Prop
  | nil (r : σ) : Puts r [] r
  | cons {r r₁ r' : σ} {f : Field σ} {j : Json} {ps : List (Field σ × Json)} :
      j.Written → f.put r j = .ok r₁ → Puts r₁ ps r' → Puts r ((f, j) :: ps) r'

theorem Puts.field {f : Field σ} {r r' : σ} {put : α → σ} {ps : List (Field σ × Json)}
    (h : Stores encode decode a)
    (hf : f.put r (encode a) = decode (encode a) >>= fun a => pure (put a))
    (hrest : Puts (put a) ps r') : Puts r ((f, encode a) :: ps) r' := by
  refine .cons h.written ?_ hrest
  rw [hf, h.decoded]
  rfl

theorem Puts.written {r r' : σ} {ps : List (Field σ × Json)} (h : Puts r ps r') :
    ∀ p ∈ ps, p.2.Written := by
  induction h with
  | nil => nofun
  | cons hj _ _ ih => exact List.forall_mem_cons.2 ⟨hj, ih⟩

theorem find?_field {fields : List (Field σ)} (hnodup : (fields.map Field.name).Nodup) {f : Field σ}
    (hf : f ∈ fields) : fields.find? (·.name = f.name) = some f := by
  induction fields with
  | nil => cases hf
  | cons g fields ih =>
    rw [List.map_cons, List.nodup_cons] at hnodup
    rcases List.mem_cons.1 hf with rfl | hf
    · simp
    · have hne : g.name ≠ f.name := fun he => hnodup.1 (he ▸ List.mem_map_of_mem hf)
      rw [List.find?_cons_of_neg (by simpa using hne)]
      exact ih hnodup.2 hf

theorem decodeMembers_puts {fields : List (Field σ)} (hnodup : (fields.map Field.name).Nodup)
    {ps : List (Field σ × Json)} {seen : List String} {r r' : σ} (hps : ∀ p ∈ ps, p.1 ∈ fields)
    (hnew : (ps.map (·.1.name)).Nodup) (hseen : ∀ p ∈ ps, p.1.name ∉ seen) (h : Puts r ps r') :
    decodeMembers fields seen r (ps.map fun p => (some p.1.name, p.2)) =
      .ok ((ps.map (·.1.name)).reverse ++ seen, r') := by
  induction h generalizing seen with
  | nil => rfl
  | @cons r r₁ r' f j ps hj hput h ih =>
    rw [List.map_cons, List.nodup_cons] at hnew
    have hfound := find?_field hnodup (hps (f, j) List.mem_cons_self)
    have hfirst : seen.contains f.name = false := by
      simpa using hseen (f, j) List.mem_cons_self
    have hlater : ∀ q ∈ ps, q.1.name ∉ f.name :: seen := by
      intro q hq
      rw [List.mem_cons, not_or]
      exact ⟨fun he => hnew.1 (he ▸ List.mem_map_of_mem hq), hseen q (List.mem_cons_of_mem _ hq)⟩
    have htail := ih (fun q hq => hps q (List.mem_cons_of_mem _ hq)) hnew.2 hlater
    rw [List.map_cons, decodeMembers, hfound]
    dsimp only
    rw [hfirst, hput]
    change decodeMembers fields (f.name :: seen) r₁ _ = _
    rw [htail, List.map_cons, List.reverse_cons, List.append_assoc]
    rfl

/-- An object with all fields of a record, in whatever order, is read as the record that their values
make in that order. -/
theorem Puts.decodeRecord {name : String} {fields : List (Field σ)} {ps : List (Field σ × Json)}
    {r r' : σ} (h : Puts r ps r') (hnodup : (fields.map Field.name).Nodup)
    (hfields : ∀ p ∈ ps, p.1 ∈ fields)
    (hnames : (ps.map (·.1.name)).Perm (fields.map Field.name)) :
    decodeRecord name fields r (.object (ps.map fun p => (p.1.name, p.2))) = .ok r' := by
  have hmembers := decodeMembers_puts hnodup hfields (hnames.nodup_iff.2 hnodup)
    (fun _ _ => List.not_mem_nil) h
  have hmissing : missingField? fields ((ps.map (·.1.name)).reverse ++ []) = none := by
    rw [missingField?, Option.map_eq_none_iff, List.find?_eq_none]
    intro f hf
    have hmem : f.name ∈ ps.map (·.1.name) := hnames.mem_iff.2 (List.mem_map_of_mem hf)
    have hseen := List.contains_iff_mem.2 (List.mem_append_left [] (List.mem_reverse.2 hmem))
    rw [hseen, Bool.not_true, Bool.and_false]
    exact Bool.false_ne_true
  rw [Json.object, WorldShuffle.decodeRecord, List.map_map]
  change (decodeMembers fields [] r (ps.map fun p => (some p.1.name, p.2)) >>= _) = _
  simp only [hmembers, bind, Except.bind, checkStop, hmissing, pure, Except.pure]

/-- A record is stored as an object of the values of its fields, in whatever order. -/
theorem Puts.stores_of_perm {name : String} {fields : List (Field σ)} {ps : List (Field σ × Json)}
    {encode : σ → Json} {r r' : σ} (h : Puts r ps r') (hnodup : (fields.map Field.name).Nodup)
    (hfields : ∀ p ∈ ps, p.1 ∈ fields)
    (hnames : (ps.map (·.1.name)).Perm (fields.map Field.name))
    (hencode : encode r' = .object (ps.map fun p => (p.1.name, p.2))) :
    Stores encode (WorldShuffle.decodeRecord name fields r) r' where
  written := by
    rw [hencode]
    exact Json.written_object (List.forall_mem_map.2 h.written)
  decoded := by
    rw [hencode]
    exact h.decodeRecord hnodup hfields hnames

theorem Puts.stores {name : String} {fields : List (Field σ)} {ps : List (Field σ × Json)}
    {encode : σ → Json} {r r' : σ} (h : Puts r ps r') (hnodup : (fields.map Field.name).Nodup)
    (hfields : ps.map Prod.fst = fields)
    (hencode : encode r' = .object (ps.map fun p => (p.1.name, p.2))) :
    Stores encode (WorldShuffle.decodeRecord name fields r) r' := by
  subst hfields
  refine h.stores_of_perm hnodup (fun p => List.mem_map_of_mem) ?_ hencode
  rw [List.map_map]
  rfl

end WorldShuffle
