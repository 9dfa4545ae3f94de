namespace WorldShuffle

structure Table (κ α : Type) where
  entries : List (κ × α) := []

variable {κ α : Type} [DecidableEq κ]

def putEntry (k : κ) (a : α) : List (κ × α) → List (κ × α)
  | [] => [(k, a)]
  | (k', a') :: rest => if k' = k then (k, a) :: rest else (k', a') :: putEntry k a rest

def Table.empty : Table κ α := {}

def Table.get? (t : Table κ α) (k : κ) : Option α := t.entries.lookup k

def Table.set (t : Table κ α) (k : κ) (a : α) : Table κ α := ⟨putEntry k a t.entries⟩

def Table.has (t : Table κ α) (k : κ) : Bool := (t.get? k).isSome

def Table.keys (t : Table κ α) : List κ := t.entries.map Prod.fst

def Table.size (t : Table κ α) : Nat := t.entries.length

theorem lookup_putEntry (k q : κ) (a : α) (es : List (κ × α)) :
    (putEntry k a es).lookup q = if q = k then some a else es.lookup q := by
  induction es with
  | nil =>
    by_cases h : q = k
    · simp [putEntry, h]
    · have : (q == k) = false := by simpa using h
      simp [putEntry, h, List.lookup_cons, this]
  | cons e es ih =>
    obtain ⟨k', a'⟩ := e
    by_cases hk : k' = k
    · by_cases h : q = k
      · simp [putEntry, hk, h]
      · have : (q == k) = false := by simpa using h
        simp [putEntry, hk, h, List.lookup_cons, this]
    · by_cases h : q = k'
      · subst h; simp [putEntry, hk]
      · have : (q == k') = false := by simpa using h
        simp [putEntry, hk, List.lookup_cons, this, ih]

@[simp]
theorem Table.get?_set (t : Table κ α) (k q : κ) (a : α) :
    (t.set k a).get? q = if q = k then some a else t.get? q :=
  lookup_putEntry k q a t.entries

end WorldShuffle
