import Mathlib.Data.List.Perm.Basic
import Mathlib.Logic.Function.Basic

namespace WorldShuffle

abbrev Leads := Nat → Option Nat

namespace Leads

variable {far : Leads} {n fx fy : Nat} {p q r m : Nat × Nat} {ms ms' ps qs : List (Nat × Nat)}

/-- The doors that lead elsewhere once two have traded their far sides, and where they lead then. The
old far sides follow if they led back. -/
def moves (far : Leads) (p : Nat × Nat) : List (Nat × Nat) :=
  match far p.1, far p.2 with
  | some fx, some fy =>
    [(p.1, fy), (p.2, fx)] ++ (if far fx = some p.1 then [(fx, p.2)] else []) ++
      if far fy = some p.2 then [(fy, p.1)] else []
  | _, _ => []

def redirect (far : Leads) (ms : List (Nat × Nat)) : Leads :=
  ms.foldl (fun far m => Function.update far m.1 (some m.2)) far

def trade (far : Leads) (p : Nat × Nat) : Leads := far.redirect (far.moves p)

def trades (far : Leads) (ps : List (Nat × Nat)) : Leads := ps.foldl trade far

theorem redirect_of_not_mem (far : Leads) (h : n ∉ ms.map Prod.fst) :
    far.redirect ms n = far n := by
  induction ms generalizing far with
  | nil => rfl
  | cons m ms ih =>
    rw [List.map_cons, List.mem_cons, not_or] at h
    exact (ih (Function.update far m.1 (some m.2)) h.2).trans (Function.update_of_ne h.1 _ _)

theorem redirect_of_mem (h : n ∈ ms.map Prod.fst) :
    ∃ target, (n, target) ∈ ms ∧ ∀ far : Leads, far.redirect ms n = some target := by
  induction ms with
  | nil => cases h
  | cons m ms ih =>
    by_cases hms : n ∈ ms.map Prod.fst
    · obtain ⟨target, hmem, hall⟩ := ih hms
      exact ⟨target, List.mem_cons_of_mem m hmem, fun far => hall _⟩
    · obtain rfl : n = m.1 := (List.mem_cons.1 h).resolve_right hms
      refine ⟨m.2, List.mem_cons_self, fun far => ?_⟩
      exact (redirect_of_not_mem _ hms).trans (Function.update_self _ _ _)

theorem redirect_comm (far : Leads) (h : ∀ n ∈ ms.map Prod.fst, n ∉ ms'.map Prod.fst) :
    (far.redirect ms).redirect ms' = (far.redirect ms').redirect ms := by
  funext n
  by_cases hn : n ∈ ms.map Prod.fst
  · obtain ⟨target, -, hall⟩ := redirect_of_mem hn
    rw [redirect_of_not_mem _ (h n hn), hall, hall]
  · rw [redirect_of_not_mem (far.redirect ms') hn]
    by_cases hn' : n ∈ ms'.map Prod.fst
    · obtain ⟨target, -, hall⟩ := redirect_of_mem hn'
      rw [hall, hall]
    · rw [redirect_of_not_mem _ hn', redirect_of_not_mem _ hn', redirect_of_not_mem _ hn]

theorem moves_eq (hx : far p.1 = some fx) (hy : far p.2 = some fy) :
    far.moves p = [(p.1, fy), (p.2, fx)] ++ (if far fx = some p.1 then [(fx, p.2)] else []) ++
      if far fy = some p.2 then [(fy, p.1)] else [] := by
  rw [moves, hx, hy]

theorem mem_moves : m ∈ far.moves p ↔ ∃ fx fy, far p.1 = some fx ∧ far p.2 = some fy ∧
    (m = (p.1, fy) ∨ m = (p.2, fx) ∨ (m = (fx, p.2) ∧ far fx = some p.1) ∨
      (m = (fy, p.1) ∧ far fy = some p.2)) := by
  constructor
  · intro h
    rw [moves] at h
    split at h
    · rename_i fx fy hx hy
      refine ⟨fx, fy, hx, hy, ?_⟩
      rcases List.mem_append.1 h with h | h
      · rcases List.mem_append.1 h with h | h
        · rcases List.mem_cons.1 h with h | h
          · exact Or.inl h
          · exact Or.inr (Or.inl (List.mem_singleton.1 h))
        · split at h
          · exact Or.inr (Or.inr (Or.inl ⟨List.mem_singleton.1 h, ‹_›⟩))
          · cases h
      · split at h
        · exact Or.inr (Or.inr (Or.inr ⟨List.mem_singleton.1 h, ‹_›⟩))
        · cases h
    · cases h
  · rintro ⟨fx, fy, hx, hy, rfl | rfl | ⟨rfl, hback⟩ | ⟨rfl, hback⟩⟩
    · simp [moves_eq hx hy]
    · simp [moves_eq hx hy]
    · simp [moves_eq hx hy, hback]
    · simp [moves_eq hx hy, hback]

theorem isSome_of_mem_moves (h : m ∈ far.moves p) : (far m.1).isSome = true := by
  obtain ⟨fx, fy, hx, hy, rfl | rfl | ⟨rfl, hback⟩ | ⟨rfl, hback⟩⟩ := mem_moves.1 h
  · exact Option.isSome_of_eq_some hx
  · exact Option.isSome_of_eq_some hy
  · exact Option.isSome_of_eq_some hback
  · exact Option.isSome_of_eq_some hback

theorem isSome_trade (far : Leads) (p : Nat × Nat) (n : Nat) :
    (far.trade p n).isSome = (far n).isSome := by
  by_cases hn : n ∈ (far.moves p).map Prod.fst
  · obtain ⟨target, hmem, hall⟩ := redirect_of_mem hn
    rw [trade, hall, isSome_of_mem_moves hmem]
    rfl
  · rw [trade, redirect_of_not_mem far hn]

theorem trade_eq (hx : far p.1 = some fx) (hy : far p.2 = some fy) (n : Nat) :
    far.trade p n =
      if n = fy ∧ far fy = some p.2 then some p.1 else if n = fx ∧ far fx = some p.1 then some p.2 else
        if n = p.2 then some fx else if n = p.1 then some fy else far n := by
  rw [trade, moves_eq hx hy]
  simp only [redirect, List.cons_append, List.nil_append, List.foldl_append, List.foldl_cons]
  by_cases hbx : far fx = some p.1 <;> by_cases hby : far fy = some p.2 <;>
    simp only [hbx, hby, if_true, if_false, and_true, and_false, List.foldl_cons, List.foldl_nil,
      Function.update_apply]

def touched (far : Leads) (p : Nat × Nat) : List Nat :=
  p.1 :: p.2 :: (far.moves p).map Prod.fst

theorem mem_touched_of_mem_moves (h : m ∈ far.moves p) : m.1 ∈ far.touched p :=
  List.mem_cons_of_mem _ (List.mem_cons_of_mem _ (List.mem_map_of_mem h))

theorem trade_of_not_touched (h : n ∉ far.touched p) : far.trade p n = far n := by
  refine redirect_of_not_mem far fun hn => h ?_
  exact List.mem_cons_of_mem _ (List.mem_cons_of_mem _ hn)

theorem trade_doors (hx : far p.1 = some fx) (hy : far p.2 = some fy) (hne : p.1 ≠ p.2)
    (hxfy : p.1 ≠ fy) (hyfx : p.2 ≠ fx) (hfx : fx ≠ p.1) (hfy : fy ≠ p.2) :
    far.trade p p.1 = some fy ∧ far.trade p p.2 = some fx := by
  rw [trade_eq hx hy, trade_eq hx hy]
  simp only [hne, hxfy, hyfx, hfx.symm, hfy.symm, false_and, if_false, if_true, and_self]

theorem trade_self (hx : far p.1 = some fx) (hy : far p.2 = some fy) (hxfy : p.1 ≠ fy)
    (hself : fx = p.1 ∨ fy = p.2) : far.trade p p.1 = some p.2 ∨ far.trade p p.2 = some p.1 := by
  rcases hself with rfl | rfl
  · left
    rw [trade_eq hx hy, if_neg fun h => hxfy h.1, if_pos ⟨rfl, hx⟩]
  · right
    rw [trade_eq hx hy, if_pos ⟨rfl, hy⟩]

/-- A door that has a part in a trade leads where one of its moves says. -/
theorem trade_of_touched (hx : far p.1 = some fx) (hy : far p.2 = some fy)
    (hn : n ∈ far.touched p) :
    ∃ target, (n, target) ∈ far.moves p ∧ far.trade p n = some target := by
  have hmoved : n ∈ (far.moves p).map Prod.fst := by
    rcases List.mem_cons.1 hn with rfl | hn
    · exact List.mem_map.2 ⟨(p.1, fy), mem_moves.2 ⟨fx, fy, hx, hy, Or.inl rfl⟩, rfl⟩
    · rcases List.mem_cons.1 hn with rfl | hn
      · exact List.mem_map.2 ⟨(p.2, fx), mem_moves.2 ⟨fx, fy, hx, hy, Or.inr (Or.inl rfl)⟩, rfl⟩
      · exact hn
  obtain ⟨target, hmem, hall⟩ := redirect_of_mem hmoved
  exact ⟨target, hmem, hall far⟩

def sides (far : Leads) (p : Nat × Nat) : List Nat :=
  p.1 :: p.2 :: ((far p.1).toList ++ (far p.2).toList)

theorem mem_sides : n ∈ far.sides p ↔
    n = p.1 ∨ n = p.2 ∨ far p.1 = some n ∨ far p.2 = some n := by
  simp [sides]

theorem mem_touched (h : n ∈ far.touched p) : n = p.1 ∨ n = p.2 ∨
    (far p.1 = some n ∧ far n = some p.1) ∨ (far p.2 = some n ∧ far n = some p.2) := by
  rcases List.mem_cons.1 h with h | h
  · exact Or.inl h
  · rcases List.mem_cons.1 h with h | h
    · exact Or.inr (Or.inl h)
    · obtain ⟨m, hm, rfl⟩ := List.mem_map.1 h
      obtain ⟨fx, fy, hx, hy, rfl | rfl | ⟨rfl, hback⟩ | ⟨rfl, hback⟩⟩ := mem_moves.1 hm
      · exact Or.inl rfl
      · exact Or.inr (Or.inl rfl)
      · exact Or.inr (Or.inr (Or.inl ⟨hx, hback⟩))
      · exact Or.inr (Or.inr (Or.inr ⟨hy, hback⟩))

theorem touched_subset_sides (h : n ∈ far.touched p) : n ∈ far.sides p := by
  rw [mem_sides]
  rcases mem_touched h with h | h | ⟨h, -⟩ | ⟨h, -⟩
  · exact Or.inl h
  · exact Or.inr (Or.inl h)
  · exact Or.inr (Or.inr (Or.inl h))
  · exact Or.inr (Or.inr (Or.inr h))

def Returns (far : Leads) (p m : Nat × Nat) : Prop :=
  far p.1 = some m.1 ∧ m.2 = p.1 ∨ far p.2 = some m.1 ∧ m.2 = p.2

/-- Two trades that do not meet: neither touches the doors of the other, nor makes a far side of the
other lead back. -/
structure Apart (far : Leads) (p q : Nat × Nat) : Prop where
  disjoint : ∀ n ∈ far.touched p, n ∉ far.touched q
  left : ∀ m ∈ far.moves p, ¬far.Returns q m
  right : ∀ m ∈ far.moves q, ¬far.Returns p m

theorem Apart.symm (h : far.Apart p q) : far.Apart q p where
  disjoint n hq hp := h.disjoint n hp hq
  left := h.right
  right := h.left

theorem Apart.trade_ends (h : far.Apart p q) :
    far.trade p q.1 = far q.1 ∧ far.trade p q.2 = far q.2 :=
  ⟨trade_of_not_touched fun hp => h.disjoint _ hp List.mem_cons_self,
    trade_of_not_touched fun hp => h.disjoint _ hp (List.mem_cons_of_mem _ List.mem_cons_self)⟩

theorem Apart.moves_trade (h : far.Apart p q) : (far.trade p).moves q = far.moves q := by
  have hback {d a : Nat} (hd : far.Returns q (d, a))
      (htouched : far d = some a → d ∈ far.touched q) :
      far.trade p d = some a ↔ far d = some a := by
    by_cases hmoved : d ∈ (far.moves p).map Prod.fst
    · obtain ⟨target, hmem, hall⟩ := redirect_of_mem hmoved
      rw [trade, hall]
      constructor
      · intro hta
        obtain rfl := Option.some.inj hta
        exact absurd hd (h.left _ hmem)
      · intro hda
        exact absurd (htouched hda) (h.disjoint d (mem_touched_of_mem_moves hmem))
    · rw [trade, redirect_of_not_mem far hmoved]
  obtain ⟨h₁, h₂⟩ := h.trade_ends
  cases hx : far q.1 with
  | none => rw [moves, moves, h₁, hx]
  | some fx =>
    cases hy : far q.2 with
    | none => rw [moves, moves, h₁, h₂, hx, hy]
    | some fy =>
      have hfx := hback (d := fx) (a := q.1) (Or.inl ⟨hx, rfl⟩) fun hb =>
        mem_touched_of_mem_moves
          (mem_moves.2 ⟨fx, fy, hx, hy, Or.inr (Or.inr (Or.inl ⟨rfl, hb⟩))⟩)
      have hfy := hback (d := fy) (a := q.2) (Or.inr ⟨hy, rfl⟩) fun hb =>
        mem_touched_of_mem_moves
          (mem_moves.2 ⟨fx, fy, hx, hy, Or.inr (Or.inr (Or.inr ⟨rfl, hb⟩))⟩)
      rw [moves_eq hx hy, moves_eq (h₁.trans hx) (h₂.trans hy)]
      simp only [hfx, hfy]

theorem Apart.touched_trade (h : far.Apart p q) : (far.trade p).touched q = far.touched q := by
  rw [touched, h.moves_trade, touched]

theorem Apart.trade_comm (h : far.Apart p q) :
    (far.trade p).trade q = (far.trade q).trade p := by
  rw [trade, h.moves_trade, trade, trade, h.symm.moves_trade, trade]
  apply redirect_comm
  intro n hp hq
  exact h.disjoint n (List.mem_cons_of_mem _ (List.mem_cons_of_mem _ hp))
    (List.mem_cons_of_mem _ (List.mem_cons_of_mem _ hq))

theorem Apart.trade (h : far.Apart p q) (hp : far.Apart r p) (hq : far.Apart r q) :
    (far.trade r).Apart p q := by
  have returns {p m : Nat × Nat} (hp : far.Apart r p) (h : (far.trade r).Returns p m) :
      far.Returns p m := by
    rwa [Returns, hp.trade_ends.1, hp.trade_ends.2] at h
  constructor
  · rw [hp.touched_trade, hq.touched_trade]
    exact h.disjoint
  · rw [hp.moves_trade]
    exact fun m hm hr => h.left m hm (returns hq hr)
  · rw [hq.moves_trade]
    exact fun m hm hr => h.right m hm (returns hp hr)

theorem pairwise_trade (hr : ∀ p ∈ ps, far.Apart r p) (h : ps.Pairwise far.Apart) :
    ps.Pairwise (far.trade r).Apart := by
  refine h.imp_of_mem fun hp hq hpq => ?_
  exact hpq.trade (hr _ hp) (hr _ hq)

theorem trades_perm (hperm : ps.Perm qs) (h : ps.Pairwise far.Apart) :
    far.trades ps = far.trades qs := by
  induction hperm generalizing far with
  | nil => rfl
  | cons r hperm ih =>
    obtain ⟨hr, h⟩ := List.pairwise_cons.1 h
    exact ih (pairwise_trade hr h)
  | swap p q ps =>
    have hpq := (List.pairwise_cons.1 h).1 p List.mem_cons_self
    exact congrArg (List.foldl Leads.trade · ps) hpq.trade_comm
  | trans h₁ h₂ ih₁ ih₂ => exact (ih₁ h).trans (ih₂ (h.perm h₁ Apart.symm))

theorem trades_of_not_touched (h : ps.Pairwise far.Apart) (hn : ∀ p ∈ ps, n ∉ far.touched p) :
    far.trades ps n = far n := by
  induction ps generalizing far with
  | nil => rfl
  | cons r ps ih =>
    obtain ⟨hr, h⟩ := List.pairwise_cons.1 h
    obtain ⟨hnr, hn⟩ := List.forall_mem_cons.1 hn
    have hrest : (far.trade r).trades ps n = far.trade r n :=
      ih (pairwise_trade hr h) fun p hp => (hr p hp).touched_trade ▸ hn p hp
    exact hrest.trans (trade_of_not_touched hnr)

def changes (n : Nat) : Leads → List (Nat × Nat) → Nat
  | _, [] => 0
  | far, p :: ps => (if far.trade p n = far n then 0 else 1) + changes n (far.trade p) ps

theorem changes_eq_zero (h : ps.Pairwise far.Apart) (hn : ∀ p ∈ ps, n ∉ far.touched p) :
    changes n far ps = 0 := by
  induction ps generalizing far with
  | nil => rfl
  | cons r ps ih =>
    obtain ⟨hr, h⟩ := List.pairwise_cons.1 h
    obtain ⟨hnr, hn⟩ := List.forall_mem_cons.1 hn
    rw [changes, if_pos (trade_of_not_touched hnr), Nat.zero_add]
    exact ih (pairwise_trade hr h) fun p hp => (hr p hp).touched_trade ▸ hn p hp

/-- Of trades that do not meet, at most one leads a given door elsewhere. -/
theorem changes_le_one (h : ps.Pairwise far.Apart) (n : Nat) : changes n far ps ≤ 1 := by
  induction ps generalizing far with
  | nil => exact Nat.zero_le 1
  | cons r ps ih =>
    obtain ⟨hr, h⟩ := List.pairwise_cons.1 h
    rw [changes]
    by_cases hn : n ∈ far.touched r
    · have hrest : changes n (far.trade r) ps = 0 :=
        changes_eq_zero (pairwise_trade hr h) fun p hp =>
          (hr p hp).touched_trade ▸ (hr p hp).disjoint n hn
      split <;> omega
    · rw [if_pos (trade_of_not_touched hn), Nat.zero_add]
      exact ih (pairwise_trade hr h)

theorem far_of_touched {k : Nat} (hn : n ∈ far.touched p) (hk : far n = some k) :
    k ∈ far.sides p := by
  rw [mem_sides]
  rcases mem_touched hn with rfl | rfl | ⟨-, hback⟩ | ⟨-, hback⟩
  · exact Or.inr (Or.inr (Or.inl hk))
  · exact Or.inr (Or.inr (Or.inr hk))
  · exact Or.inl (Option.some.inj (hk.symm.trans hback))
  · exact Or.inr (Or.inl (Option.some.inj (hk.symm.trans hback)))

theorem target_mem_sides (hm : m ∈ far.moves p) : m.2 ∈ far.sides p := by
  rw [mem_sides]
  obtain ⟨fx, fy, hx, hy, rfl | rfl | ⟨rfl, -⟩ | ⟨rfl, -⟩⟩ := mem_moves.1 hm
  · exact Or.inr (Or.inr (Or.inr hy))
  · exact Or.inr (Or.inr (Or.inl hx))
  · exact Or.inr (Or.inl rfl)
  · exact Or.inl rfl

theorem Returns.mem_sides (h : far.Returns p m) : m.1 ∈ far.sides p ∧ m.2 ∈ far.sides p := by
  rw [Leads.mem_sides, Leads.mem_sides]
  rcases h with ⟨hfar, h⟩ | ⟨hfar, h⟩
  · exact ⟨Or.inr (Or.inr (Or.inl hfar)), Or.inl h⟩
  · exact ⟨Or.inr (Or.inr (Or.inr hfar)), Or.inr (Or.inl h)⟩

/-- A trade of two doors that are no sides of another one does not meet it. -/
theorem apart_of_not_mem (h₁ : q.1 ∉ far.sides p) (h₂ : q.2 ∉ far.sides p) : far.Apart p q := by
  constructor
  case disjoint =>
    intro n hp hq
    rcases mem_touched hq with rfl | rfl | ⟨-, hback⟩ | ⟨-, hback⟩
    · exact h₁ (touched_subset_sides hp)
    · exact h₂ (touched_subset_sides hp)
    · exact h₁ (far_of_touched hp hback)
    · exact h₂ (far_of_touched hp hback)
  case left =>
    rintro m hm (⟨-, hm₂⟩ | ⟨-, hm₂⟩)
    · exact h₁ (hm₂ ▸ target_mem_sides hm)
    · exact h₂ (hm₂ ▸ target_mem_sides hm)
  case right =>
    intro m hm hr
    -- of its two ends one is a door of the second trade
    obtain ⟨hdoor, htarget⟩ := hr.mem_sides
    obtain ⟨fu, fv, hu, hv, rfl | rfl | ⟨rfl, -⟩ | ⟨rfl, -⟩⟩ := mem_moves.1 hm
    · exact h₁ hdoor
    · exact h₂ hdoor
    · exact h₂ htarget
    · exact h₁ htarget

def TwoWay (far : Leads) : Prop := ∀ n m, far n = some m → far m = some n

theorem TwoWay.trade_eq (h : far.TwoWay) (hx : far p.1 = some fx) (hy : far p.2 = some fy)
    (n : Nat) : far.trade p n =
      if n = fy then some p.1 else if n = fx then some p.2 else
        if n = p.2 then some fx else if n = p.1 then some fy else far n := by
  simp only [Leads.trade_eq hx hy, h _ _ hx, h _ _ hy, and_true]

/-- Doors that lead to each other in pairs still do after a trade between two of these pairs. -/
theorem TwoWay.trade (h : far.TwoWay) (hx : far p.1 = some fx) (hy : far p.2 = some fy)
    (hne : p.2 ≠ p.1) (hfx : p.2 ≠ fx) (hxx : fx ≠ p.1) (hyy : fy ≠ p.2) :
    (far.trade p).TwoWay := by
  have hbx := h _ _ hx
  have hby := h _ _ hy
  have hfy : p.1 ≠ fy := by
    rintro he
    rw [← he] at hby
    exact hfx (Option.some.inj (hby.symm.trans hx))
  have hff : fx ≠ fy := by
    rintro rfl
    exact hne (Option.some.inj (hby.symm.trans hbx))
  have value := h.trade_eq hx hy
  have at_x : far.trade p p.1 = some fy := by
    rw [value, if_neg hfy, if_neg hxx.symm, if_neg hne.symm, if_pos rfl]
  have at_y : far.trade p p.2 = some fx := by
    rw [value, if_neg hyy.symm, if_neg hfx, if_pos rfl]
  have at_fx : far.trade p fx = some p.2 := by rw [value, if_neg hff, if_pos rfl]
  have at_fy : far.trade p fy = some p.1 := by rw [value, if_pos rfl]
  intro n m hm
  by_cases h₁ : n = p.1
  · subst h₁
    rw [at_x] at hm
    exact Option.some.inj hm ▸ at_fy
  by_cases h₂ : n = p.2
  · subst h₂
    rw [at_y] at hm
    exact Option.some.inj hm ▸ at_fx
  by_cases h₃ : n = fx
  · subst h₃
    rw [at_fx] at hm
    exact Option.some.inj hm ▸ at_y
  by_cases h₄ : n = fy
  · subst h₄
    rw [at_fy] at hm
    exact Option.some.inj hm ▸ at_x
  -- a door apart from the four leads to one apart from them
  rw [value, if_neg h₄, if_neg h₃, if_neg h₂, if_neg h₁] at hm
  have hmn := h n m hm
  have apart {k l : Nat} (hk : far k = some l) (hl : n ≠ l) : m ≠ k := by
    rintro rfl
    exact hl (Option.some.inj (hmn.symm.trans hk))
  rw [value, if_neg (apart hby h₂), if_neg (apart hbx h₁), if_neg (apart hy h₄),
    if_neg (apart hx h₃)]
  exact hmn

/-- Doors lead to another side than their own still after trades that do not end on their own. -/
theorem apart_trade {α : Type} {side : Nat → α} (h : ∀ n m, far n = some m → side n ≠ side m)
    (hmoves : ∀ m ∈ far.moves p, side m.1 ≠ side m.2) {n k : Nat} (hn : far.trade p n = some k) :
    side n ≠ side k := by
  by_cases hmoved : n ∈ (far.moves p).map Prod.fst
  · obtain ⟨target, hmem, hall⟩ := redirect_of_mem hmoved
    rw [trade, hall] at hn
    exact Option.some.inj hn ▸ hmoves _ hmem
  · rw [trade, redirect_of_not_mem far hmoved] at hn
    exact h n k hn

theorem isSome_trades (far : Leads) (ps : List (Nat × Nat)) (n : Nat) :
    (far.trades ps n).isSome = (far n).isSome := by
  induction ps generalizing far with
  | nil => rfl
  | cons p ps ih => exact (ih (far.trade p)).trans (far.isSome_trade p n)

section sides

variable {α : Type} {side : Nat → α}

def Fair (far : Leads) (side : Nat → α) (p : Nat × Nat) : Prop :=
  ∃ fx fy, far p.1 = some fx ∧ far p.2 = some fy ∧ p.2 ≠ p.1 ∧ side fy ≠ side p.1 ∧
    side fx ≠ side p.2

theorem Fair.of_mem_moves (h : far.Fair side p) (hm : m ∈ far.moves p) : side m.1 ≠ side m.2 := by
  obtain ⟨fx, fy, hx, hy, -, hyx, hxy⟩ := h
  obtain ⟨fx', fy', hx', hy', hcase⟩ := mem_moves.1 hm
  obtain rfl := Option.some.inj (hx.symm.trans hx')
  obtain rfl := Option.some.inj (hy.symm.trans hy')
  rcases hcase with rfl | rfl | ⟨rfl, -⟩ | ⟨rfl, -⟩
  · exact hyx.symm
  · exact hxy.symm
  · exact hxy
  · exact hyx

theorem Fair.trade (h : far.Fair side p) (hr : far.Apart r p) : (far.trade r).Fair side p := by
  rwa [Fair, hr.trade_ends.1, hr.trade_ends.2]

/-- Doors that lead to each other in pairs, and from side to side, still do after fair trades that do
not meet. -/
theorem TwoWay.trades (h : far.TwoWay) (hside : ∀ n m, far n = some m → side n ≠ side m)
    (hps : ps.Pairwise far.Apart) (hfair : ∀ p ∈ ps, far.Fair side p) :
    (far.trades ps).TwoWay ∧ ∀ n m, far.trades ps n = some m → side n ≠ side m := by
  induction ps generalizing far with
  | nil => exact ⟨h, hside⟩
  | cons r ps ih =>
    obtain ⟨hr, hps⟩ := List.pairwise_cons.1 hps
    obtain ⟨hfairr, hfair⟩ := List.forall_mem_cons.1 hfair
    apply ih
    · obtain ⟨fx, fy, hx, hy, hne, -, hxy⟩ := hfairr
      apply h.trade hx hy hne
      · rintro he
        exact hxy (congrArg side he.symm)
      · rintro he
        exact hside _ _ hx (congrArg side he.symm)
      · rintro he
        exact hside _ _ hy (congrArg side he.symm)
    · intro n m hn
      exact apart_trade hside (fun m hm => hfairr.of_mem_moves hm) hn
    · exact pairwise_trade hr hps
    · intro p hp
      exact (hfair p hp).trade (hr p hp)

end sides

end Leads

end WorldShuffle
