import Mathlib
import WorldShuffle.Proofs.Lists
import WorldShuffle.Proofs.Statements

namespace WorldShuffle

variable {W : List Char → Pattern → Prop} {cs : List Char} {word group : String} {p q : Pattern}
  {fs us ts : List Token} {a t : Token} {v : Vocabulary} {b : Rulebook}

inductive WordPattern : List Char → Pattern → Prop
  | any : WordPattern ['*'] .any
  | exact {cs : List Char} (h : '*' ∉ cs) : WordPattern cs (.exact (String.ofList cs))
  | leading {cs : List Char} (hne : cs ≠ []) (h : '*' ∉ cs) :
    WordPattern (cs ++ ['*']) (.leading (String.ofList cs))
  | trailing {cs : List Char} (hne : cs ≠ []) (h : '*' ∉ cs) :
    WordPattern ('*' :: cs) (.trailing (String.ofList cs))

/-- Words with a star at one end and another one anywhere, and what they are taken for: names that
begin or end with a star or hold one. A star at the end comes before one at the start. -/
inductive Overstarred : List Char → Pattern → Prop
  | leading {cs : List Char} (h : '*' ∈ cs) : Overstarred (cs ++ ['*']) (.leading (String.ofList cs))
  | trailing {cs : List Char} (h : '*' ∈ cs) (hlast : cs.getLast? ≠ some '*') :
    Overstarred ('*' :: cs) (.trailing (String.ofList cs))

theorem WordPattern.count_le (h : WordPattern cs p) : cs.count '*' ≤ 1 := by
  cases h with
  | any => exact le_rfl
  | exact h => rw [List.count_eq_zero_of_not_mem h]; exact Nat.zero_le _
  | leading _ h => rw [List.count_append, List.count_eq_zero_of_not_mem h]; exact le_rfl
  | trailing _ h => rw [List.count_cons_self, List.count_eq_zero_of_not_mem h]

theorem Overstarred.two_le_count (h : Overstarred cs p) : 2 ≤ cs.count '*' := by
  cases h with
  | leading h =>
    rw [List.count_append]
    exact Nat.succ_le_succ (List.count_pos_iff.2 h)
  | trailing h _ =>
    rw [List.count_cons_self]
    exact Nat.succ_le_succ (List.count_pos_iff.2 h)

theorem Overstarred.not_wordPattern (h : Overstarred cs p) : ¬WordPattern cs q :=
  fun hq => absurd (h.two_le_count.trans hq.count_le) (by decide)

def Passes (cs : List Char) (p : Pattern) : Prop := WordPattern cs p ∨ Overstarred cs p

inductive Notates (W : List Char → Pattern → Prop) : List Token → Pattern → Prop
  | group (name : String) : Notates W [.group name] (.group name)
  | word {word : String} {p : Pattern} (h : W word.toList p) : Notates W [.ident word] p
  | not {ts : List Token} {p : Pattern} (h : Notates W ts p) : Notates W (.bang :: ts) (.not p)

theorem Notates.mono {W' : List Char → Pattern → Prop} (h : Notates W ts p)
    (hW : ∀ word p, .ident word ∈ ts → W word.toList p → W' word.toList p) : Notates W' ts p := by
  induction h with
  | group name => exact .group name
  | word hp => exact .word (hW _ _ (List.mem_singleton_self _) hp)
  | not _ ih => exact .not (ih fun word p hmem => hW word p (List.mem_cons_of_mem _ hmem))

theorem Notates.mem (h : Notates W ts p) (ht : t ∈ ts) :
    t = .bang ∨ (∃ name, t = .group name) ∨ ∃ word, t = .ident word := by
  induction h with
  | group name => exact Or.inr (Or.inl ⟨name, List.mem_singleton.1 ht⟩)
  | word _ => exact Or.inr (Or.inr ⟨_, List.mem_singleton.1 ht⟩)
  | not _ ih =>
    rcases List.mem_cons.1 ht with rfl | ht
    · exact Or.inl rfl
    · exact ih ht

namespace Pattern

theorem ofWord_leading (h : word.toList = cs ++ ['*']) (hne : cs ≠ []) :
    Pattern.ofWord word = .ok (.leading (String.ofList cs)) := by
  have hany : cs ++ ['*'] ≠ ['*'] := fun he => hne (List.append_left_eq_self.1 he)
  rw [ofWord, h, if_neg hany, if_pos List.getLast?_concat, List.dropLast_concat]

theorem ofWord_trailing (h : word.toList = '*' :: cs) (hne : cs ≠ [])
    (hlast : cs.getLast? ≠ some '*') : Pattern.ofWord word = .ok (.trailing (String.ofList cs)) := by
  have hany : '*' :: cs ≠ ['*'] := fun he => hne (List.cons.inj he).2
  have hend : ('*' :: cs).getLast? ≠ some '*' := by
    rwa [← List.singleton_append, List.getLast?_append_of_ne_nil _ hne]
  rw [ofWord, h, if_neg hany, if_neg hend, if_pos List.head?_cons, List.tail_cons]

theorem ofWord_exact (h : '*' ∉ word.toList) : Pattern.ofWord word = .ok (.exact word) := by
  have hany : word.toList ≠ ['*'] := fun he => h (he ▸ List.mem_singleton_self _)
  have hend : word.toList.getLast? ≠ some '*' := fun he => h (List.mem_of_getLast? he)
  have hstart : word.toList.head? ≠ some '*' := fun he => h (List.mem_of_head? he)
  rw [ofWord, if_neg hany, if_neg hend, if_neg hstart, if_neg h]

theorem passes_of_ofWord (h : Pattern.ofWord word = .ok p) : Passes word.toList p := by
  rw [ofWord] at h
  split_ifs at h with hany hlast hfirst hstar <;> obtain rfl := Except.ok.inj h
  · exact Or.inl (hany ▸ .any)
  · obtain ⟨cs, hcs⟩ := List.getLast?_eq_some_iff.1 hlast
    rw [hcs, List.dropLast_concat]
    by_cases hmem : '*' ∈ cs
    · exact Or.inr (.leading hmem)
    · refine Or.inl (.leading ?_ hmem)
      rintro rfl
      exact hany hcs
  · obtain ⟨cs, hcs⟩ := List.head?_eq_some_iff.1 hfirst
    rw [hcs] at hlast ⊢
    by_cases hmem : '*' ∈ cs
    · refine Or.inr (.trailing hmem fun hend => hlast ?_)
      rw [List.getLast?_cons, hend]
      rfl
    · refine Or.inl (.trailing ?_ hmem)
      rintro rfl
      exact hany hcs
  · have hexact := WordPattern.exact hstar
    rw [String.ofList_toList] at hexact
    exact Or.inl hexact

theorem ofWord_of_passes (h : Passes word.toList p) : Pattern.ofWord word = .ok p := by
  generalize hcs : word.toList = cs at h
  obtain (_ | hstar | ⟨hne, hstar⟩ | ⟨hne, hstar⟩) | (hmem | ⟨hmem, hlast⟩) := h
  · rw [ofWord, hcs]
    rfl
  · rw [← hcs] at hstar ⊢
    rw [ofWord_exact hstar, String.ofList_toList]
  · exact ofWord_leading hcs hne
  · exact ofWord_trailing hcs hne fun he => hstar (List.mem_of_getLast? he)
  · exact ofWord_leading hcs (List.ne_nil_of_mem hmem)
  · exact ofWord_trailing hcs (List.ne_nil_of_mem hmem) hlast

theorem ofWord_eq_ok : Pattern.ofWord word = .ok p ↔ Passes word.toList p :=
  ⟨passes_of_ofWord, ofWord_of_passes⟩

theorem ofTokens_eq_ok : Pattern.ofTokens ts = .ok p ↔ Notates Passes ts p := by
  constructor
  · fun_induction Pattern.ofTokens ts generalizing p with
    | case1 ts ih =>
      intro h
      obtain ⟨q, hq, rfl⟩ := map_eq_ok h
      exact .not (ih hq)
    | case2 name =>
      intro h
      obtain rfl := Except.ok.inj h
      exact .group name
    | case3 word => exact fun h => .word (ofWord_eq_ok.1 h)
    | case4 => exact fun h => nomatch h
    | case5 => exact fun h => nomatch h
  · intro h
    induction h with
    | group name => rfl
    | word h => exact ofWord_eq_ok.2 h
    | not _ ih => rw [ofTokens, ih]; rfl

end Pattern

theorem splitAtCommas_eq_splitOn (ts : List Token) : splitAtCommas ts = ts.splitOn .comma := by
  induction ts with
  | nil => rfl
  | cons t ts ih =>
    obtain ⟨item, items, hitems⟩ := List.exists_cons_of_ne_nil (List.splitOn_ne_nil .comma ts)
    rw [splitAtCommas, ih, List.splitOn_cons_eq_if_modifyHead, hitems]
    simp only [List.modifyHead_cons, beq_iff_eq]

inductive Lists : List Token → List (List Token) → Prop
  | group {name : String} {items : List (List Token)} (hitems : ∀ item ∈ items, .comma ∉ item) :
    Lists (.group name :: .openBrace :: ([.comma].intercalate items ++ [.closeBrace]))
      (items.filter (!·.isEmpty))
  | rule {fs us es : List Token} {a : Token} (ha : isArrow a = true)
    (hfs : ∀ t ∈ fs, isArrow t = false ∧ t ≠ .colon) (hus : .colon ∉ us) :
    Lists (fs ++ a :: (us ++ .colon :: es)) [fs, us]

theorem Rule.ofTokens_rule (v : Vocabulary) (es : List Token) (ha : isArrow a = true)
    (hfs : ∀ t ∈ fs, isArrow t = false ∧ t ≠ .colon) (hus : .colon ∉ us) :
    Rule.ofTokens v (fs ++ a :: (us ++ .colon :: es)) = do
      let source ← (Pattern.ofTokens fs).mapError .pattern
      let target ← (Pattern.ofTokens us).mapError .pattern
      if es.isEmpty then throw .noExpression
      let alternatives ← (compileExpression v.macros v.skips es).mapError .expression
      return { source, target, twoWay := a == .twoWay, alternatives } := by
  have harrow : (fs ++ a :: (us ++ .colon :: es)).findIdx? isArrow = some fs.length :=
    List.findIdx?_append_cons _ (fun t ht => (hfs t ht).1) ha
  have hbefore : ∀ t ∈ fs ++ a :: us, (t == .colon) = false := by
    intro t ht
    rw [beq_eq_false_iff_ne]
    rcases List.mem_append.1 ht with ht | ht
    · exact (hfs t ht).2
    · rcases List.mem_cons.1 ht with rfl | ht
      · rintro rfl
        cases ha
      · exact fun h => hus (h ▸ ht)
  have hcolon : (fs ++ a :: (us ++ .colon :: es)).findIdx? (· == .colon) =
      some (fs ++ a :: us).length := by
    rw [← List.cons_append, ← List.append_assoc]
    exact List.findIdx?_append_cons _ hbefore rfl
  have hlate : ¬(fs ++ a :: us).length < fs.length := by
    rw [List.length_append]
    omega
  have hsource : (fs ++ a :: (us ++ .colon :: es)).take fs.length = fs := List.take_left
  have htarget : ((fs ++ a :: (us ++ .colon :: es)).take (fs ++ a :: us).length).drop
      (fs.length + 1) = us := by
    rw [← List.cons_append, ← List.append_assoc, List.take_left, ← List.drop_drop, List.drop_left]
    rfl
  have hbody : (fs ++ a :: (us ++ .colon :: es)).drop ((fs ++ a :: us).length + 1) = es := by
    rw [← List.cons_append, ← List.append_assoc, ← List.drop_drop, List.drop_left]
    rfl
  have hsign : (fs ++ a :: (us ++ .colon :: es))[fs.length]? = some a := by
    rw [List.getElem?_append_right le_rfl, Nat.sub_self]
    rfl
  rw [Rule.ofTokens, harrow, hcolon]
  dsimp only
  rw [if_neg hlate, hsource, htarget, hbody, hsign]
  rfl

theorem Rule.exists_parts {r : Rule} (h : Rule.ofTokens v ts = .ok r) :
    ∃ fs a us es, ts = fs ++ a :: (us ++ .colon :: es) ∧ isArrow a = true ∧
      (∀ t ∈ fs, isArrow t = false ∧ t ≠ .colon) ∧ .colon ∉ us := by
  obtain ⟨arrow, colon, harrow, hcolon, -, htarget, -, -⟩ := Rule.ofTokens_eq_ok h
  obtain ⟨fs, a, rest, rfl, rfl, ha, hfs⟩ := List.append_cons_of_findIdx? harrow
  obtain ⟨before, c, es, hsplit, rfl, hc, hbefore⟩ := List.append_cons_of_findIdx? hcolon
  obtain rfl := beq_iff_eq.1 hc
  -- a colon before the arrow would leave no tokens for the second pattern
  have hlate : fs.length + 1 < before.length := by
    by_contra hle
    rw [List.drop_eq_nil_of_le ((List.length_take_le _ _).trans (Nat.le_of_not_lt hle))] at htarget
    cases htarget
  rcases List.append_eq_append_iff.1 hsplit with ⟨gap, rfl, hrest⟩ | ⟨gap, rfl, -⟩
  · cases gap with
    | nil =>
      rw [List.append_nil] at hlate
      omega
    | cons a' us =>
      obtain ⟨rfl, rfl⟩ := List.cons.inj hrest
      refine ⟨fs, a, us, es, rfl, ha, fun t ht => ⟨hfs t ht, fun h => ?_⟩, fun h => ?_⟩
      · exact beq_eq_false_iff_ne.1 (hbefore t (List.mem_append_left _ ht)) h
      · exact beq_eq_false_iff_ne.1
          (hbefore _ (List.mem_append_right _ (List.mem_cons_of_mem a h))) rfl
  · rw [List.length_append] at hlate
    omega

theorem splitAtCommas_no_comma {item : List Token} (h : item ∈ splitAtCommas ts) : .comma ∉ item := by
  induction ts generalizing item with
  | nil =>
    obtain rfl := List.mem_singleton.1 h
    exact List.not_mem_nil
  | cons t ts ih =>
    rw [splitAtCommas] at h
    split at h
    · rename_i hnil
      rw [splitAtCommas_eq_splitOn] at hnil
      exact absurd hnil (List.splitOn_ne_nil .comma ts)
    · rename_i first items hitems
      rw [hitems] at ih
      split at h
      · rcases List.mem_cons.1 h with rfl | h
        · exact List.not_mem_nil
        · exact ih h
      · rename_i ht
        rcases List.mem_cons.1 h with rfl | h
        · exact List.not_mem_cons_of_ne_of_not_mem (Ne.symm ht) (ih List.mem_cons_self)
        · exact ih (List.mem_cons_of_mem first h)

theorem mem_intercalate {sep t : Token} {items : List (List Token)}
    (h : t ∈ [sep].intercalate items) : t = sep ∨ ∃ item ∈ items, t ∈ item := by
  induction items with
  | nil => cases h
  | cons item items ih =>
    by_cases hnil : items = []
    · subst hnil
      rw [List.intercalate_singleton] at h
      exact Or.inr ⟨item, List.mem_singleton_self item, h⟩
    · rw [List.intercalate_cons_of_ne_nil hnil] at h
      rcases List.mem_append.1 h with h | h
      · rcases List.mem_append.1 h with h | h
        · exact Or.inr ⟨item, List.mem_cons_self, h⟩
        · exact Or.inl (List.mem_singleton.1 h)
      · rcases ih h with hsep | ⟨item', hitem, h⟩
        · exact Or.inl hsep
        · exact Or.inr ⟨item', List.mem_cons_of_mem item hitem, h⟩

theorem groupPatterns_items {items : List (List Token)} (h : ∀ item ∈ items, .comma ∉ item) :
    groupPatterns group ([.comma].intercalate items ++ [.closeBrace]) =
      ((items.filter (!·.isEmpty)).mapM Pattern.ofTokens).mapError .pattern := by
  rw [groupPatterns, if_pos List.getLast?_concat, List.dropLast_concat, splitAtCommas_eq_splitOn]
  by_cases hnil : items = []
  · subst hnil
    rfl
  · rw [List.splitOn_intercalate _ h hnil]

theorem groupPatterns_eq_ok {ps : List Pattern} (h : groupPatterns group ts = .ok ps) :
    ∃ items, ts = [.comma].intercalate items ++ [.closeBrace] ∧ (∀ item ∈ items, .comma ∉ item) ∧
      (items.filter (!·.isEmpty)).mapM Pattern.ofTokens = .ok ps := by
  rw [groupPatterns] at h
  split at h
  · rename_i hlast
    obtain ⟨body, rfl⟩ := List.getLast?_eq_some_iff.1 hlast
    rw [List.dropLast_concat] at h
    refine ⟨splitAtCommas body, ?_, fun item => splitAtCommas_no_comma, mapError_eq_ok h⟩
    rw [splitAtCommas_eq_splitOn, List.intercalate_splitOn]
  · cases h

theorem groupPatterns_no_arrow {ps : List Pattern} (h : groupPatterns group ts = .ok ps)
    (ht : t ∈ ts) : isArrow t = false := by
  obtain ⟨items, rfl, -, hitems⟩ := groupPatterns_eq_ok h
  rcases List.mem_append.1 ht with ht | ht
  · rcases mem_intercalate ht with rfl | ⟨item, hitem, ht⟩
    · rfl
    · have hmem : item ∈ items.filter (!·.isEmpty) :=
        List.mem_filter.2 ⟨hitem, by simpa using List.ne_nil_of_mem ht⟩
      obtain ⟨p, hp⟩ := mapM_exists_ok.1 ⟨_, hitems⟩ item hmem
      rcases (Pattern.ofTokens_eq_ok.1 hp).mem ht with rfl | ⟨name, rfl⟩ | ⟨word, rfl⟩ <;> rfl
  · rw [List.mem_singleton.1 ht]
    rfl

namespace Rulebook

variable {b' : Rulebook} {parts : List (List Token)} {part : List Token}

theorem addStatement_group_fails {rest : List Token}
    (h : ∀ ps, groupPatterns group rest ≠ .ok ps) :
    ∃ e, b.addStatement v (.group group :: .openBrace :: rest) = (b, some e) := by
  cases hgroup : b.defineGroup group rest with
  | ok b' =>
    obtain ⟨scene, ps, -, hps, -⟩ := defineGroup_eq_ok hgroup
    exact absurd hps (h ps)
  | error e => exact ⟨e, by simp only [addStatement, hgroup]⟩

/-- What has an arrow is no header, and a rule unless it starts as the definition of a group. -/
theorem addStatement_arrow (v : Vocabulary) (b : Rulebook) (ha : isArrow a = true) (hmem : a ∈ ts) :
    (∃ name rest, ts = .group name :: .openBrace :: rest ∧ a ∈ rest) ∨
      b.addStatement v ts = b.addRule v ts := by
  unfold addStatement
  split
  · rcases List.mem_pair.1 hmem with rfl | rfl <;> cases ha
  · rename_i name rest
    refine Or.inl ⟨name, rest, rfl, ?_⟩
    rcases List.mem_cons.1 hmem with rfl | hmem
    · cases ha
    · rcases List.mem_cons.1 hmem with rfl | hmem
      · cases ha
      · exact hmem
  · exact Or.inr rfl

theorem addStatement_fails_of_lists (v : Vocabulary) (b : Rulebook) (h : Lists ts parts)
    (hpart : part ∈ parts) (hno : ∀ p, ¬Notates Passes part p) :
    ∃ e, b.addStatement v ts = (b, some e) := by
  cases h with
  | @group name items hitems =>
    refine addStatement_group_fails fun ps hps => ?_
    rw [groupPatterns_items hitems] at hps
    obtain ⟨p, hp⟩ := mapM_exists_ok.1 ⟨ps, mapError_eq_ok hps⟩ part hpart
    exact hno p (Pattern.ofTokens_eq_ok.1 hp)
  | @rule fs us es a ha hfs hus =>
    have hmem : a ∈ fs ++ a :: (us ++ .colon :: es) := List.mem_append_right fs List.mem_cons_self
    rcases addStatement_arrow v b ha hmem with ⟨name, rest, hgroup, hrest⟩ | hrule
    · rw [hgroup]
      exact addStatement_group_fails fun ps hps =>
        absurd ha (by rw [groupPatterns_no_arrow hps hrest]; exact Bool.false_ne_true)
    · rw [hrule, addRule]
      split
      · exact ⟨_, rfl⟩
      · rename_i hok
        obtain ⟨r, -, hr, -, -⟩ := rule_eq_ok hok
        rw [Rule.ofTokens_rule v es ha hfs hus] at hr
        obtain ⟨source, hsource, hr⟩ := bind_eq_ok hr
        obtain ⟨target, htarget, -⟩ := bind_eq_ok hr
        rcases List.mem_pair.1 hpart with rfl | rfl
        · exact absurd (Pattern.ofTokens_eq_ok.1 (mapError_eq_ok hsource)) (hno source)
        · exact absurd (Pattern.ofTokens_eq_ok.1 (mapError_eq_ok htarget)) (hno target)

theorem lists_of_addStatement (h : b.addStatement v ts = (b', none)) :
    (∃ id, ts = [.ident "Scene", .int id]) ∨
      ∃ parts, Lists ts parts ∧ ∀ part ∈ parts, ∃ p, Notates Passes part p := by
  unfold addStatement at h
  split at h
  · exact Or.inl ⟨_, rfl⟩
  · split at h
    · rename_i name rest b'' hgroup
      obtain ⟨scene, ps, -, hps, -⟩ := defineGroup_eq_ok hgroup
      obtain ⟨items, rfl, hitems, hmap⟩ := groupPatterns_eq_ok hps
      refine Or.inr ⟨_, .group hitems, fun item hitem => ?_⟩
      obtain ⟨p, hp⟩ := mapM_exists_ok.1 ⟨_, hmap⟩ item hitem
      exact ⟨p, Pattern.ofTokens_eq_ok.1 hp⟩
    · cases h
  · rw [addRule] at h
    split at h
    · cases h
    · rename_i hrule
      obtain ⟨r, -, hr, -, -⟩ := rule_eq_ok hrule
      obtain ⟨fs, a, us, es, rfl, ha, hfs, hus⟩ := Rule.exists_parts hr
      refine Or.inr ⟨_, .rule ha hfs hus, ?_⟩
      rw [Rule.ofTokens_rule v es ha hfs hus] at hr
      obtain ⟨source, hsource, hr⟩ := bind_eq_ok hr
      obtain ⟨target, htarget, hr⟩ := bind_eq_ok hr
      simp only [List.forall_mem_cons, List.not_mem_nil, false_implies, implies_true, and_true]
      exact ⟨⟨source, Pattern.ofTokens_eq_ok.1 (mapError_eq_ok hsource)⟩,
        ⟨target, Pattern.ofTokens_eq_ok.1 (mapError_eq_ok htarget)⟩⟩

theorem addStatement_group_iff {items : List (List Token)} (h : ∀ item ∈ items, .comma ∉ item) :
    (b.addStatement v (.group group :: .openBrace :: ([.comma].intercalate items ++ [.closeBrace]))).2
        = none ↔
      b.scene ≠ none ∧ ∀ item ∈ items, item ≠ [] → ∃ p, Notates Passes item p := by
  constructor
  · intro hok
    cases hgroup : b.defineGroup group ([.comma].intercalate items ++ [.closeBrace]) with
    | error e => simp [addStatement, hgroup] at hok
    | ok b' =>
      obtain ⟨scene, ps, hscene, hps, -⟩ := defineGroup_eq_ok hgroup
      refine ⟨Option.ne_none_iff_exists'.2 ⟨scene, hscene⟩, fun item hitem hne => ?_⟩
      rw [groupPatterns_items h] at hps
      obtain ⟨p, hp⟩ := mapM_exists_ok.1 ⟨ps, mapError_eq_ok hps⟩ item
        (List.mem_filter.2 ⟨hitem, by simpa using hne⟩)
      exact ⟨p, Pattern.ofTokens_eq_ok.1 hp⟩
  · rintro ⟨hscene, hall⟩
    obtain ⟨scene, hscene⟩ := Option.ne_none_iff_exists'.1 hscene
    obtain ⟨ps, hps⟩ : ∃ ps, (items.filter (!·.isEmpty)).mapM Pattern.ofTokens = .ok ps := by
      refine mapM_exists_ok.2 fun item hitem => ?_
      obtain ⟨hmem, hne⟩ := List.mem_filter.1 hitem
      obtain ⟨p, hp⟩ := hall item hmem (by simpa using hne)
      exact ⟨p, Pattern.ofTokens_eq_ok.2 hp⟩
    have hgroup : b.defineGroup group ([.comma].intercalate items ++ [.closeBrace]) =
        .ok { b with groups := b.groups.set (scene, group) ps } := by
      rw [defineGroup, hscene]
      dsimp only
      rw [groupPatterns_items h, hps]
      rfl
    simp only [addStatement, hgroup]

end Rulebook

theorem Topology.mem_sceneNodesWhere {t : Topology} {scene : SceneId} {f : String → Bool} {n : Nat} :
    n ∈ t.sceneNodesWhere scene f ↔
      n ∈ t.sceneNodes scene ∧ ∃ node, t.node? n = some node ∧ f node.name = true := by
  rw [sceneNodesWhere, List.mem_filter, Option.any_eq_true]

theorem Overstarred.resolve_eq_nil {t : Topology} {scene : SceneId} (h : Overstarred cs p)
    (hplain : ∀ n ∈ t.sceneNodes scene, ∀ node, t.node? n = some node → '*' ∉ node.name.toList)
    (groups : Groups) (levels : Nat) : p.resolve t groups scene (levels + 1) = .ok [] := by
  have hnone (f : String → Bool) (hf : ∀ name, f name = true → '*' ∈ name.toList) :
      t.sceneNodesWhere scene f = [] := by
    refine List.eq_nil_iff_forall_not_mem.2 fun n hn => ?_
    obtain ⟨hscene, node, hnode, hname⟩ := Topology.mem_sceneNodesWhere.1 hn
    exact hplain n hscene node hnode (hf _ hname)
  cases h with
  | @leading cs hmem =>
    refine congrArg Except.ok (hnone _ fun name hname => ?_)
    rw [nameBegins, String.toList_ofList, List.isPrefixOf_iff_prefix] at hname
    exact hname.mem hmem
  | @trailing cs hmem _ =>
    refine congrArg Except.ok (hnone _ fun name hname => ?_)
    rw [nameEnds, String.toList_ofList, List.isSuffixOf_iff_suffix] at hname
    exact hname.mem hmem

/-- A pattern is accepted just when it is of the documented notation or has a word with a star at one
end and another one besides; where no such word is, the notation decides. A definition of a group or a
rule with a pattern that is not accepted is reported, counted as skipped and forgotten, and there is no
other statement but the header of a scene. The overstarred words that are let through describe no node
of a scene in whose names there is no star, so a rule about them is lost. -/
theorem wildcards_exact (v : Vocabulary) (name : String) (b : Rulebook) :
    (∀ ts p, Pattern.ofTokens ts = .ok p ↔ Notates Passes ts p) ∧
    (∀ ts, (∀ word p, .ident word ∈ ts → ¬Overstarred word.toList p) →
      ∀ p, Pattern.ofTokens ts = .ok p ↔ Notates WordPattern ts p) ∧
    (∀ cs p, Overstarred cs p → ∀ q, ¬WordPattern cs q) ∧
    (∀ (st : List Lexeme) parts, Lists (st.map Lexeme.token) parts →
      (∃ part ∈ parts, ∀ p, ¬Notates Passes part p) → ∀ report, ∃ warning : Message,
        compileStatement v name (b, report) st =
          ({ b with log := b.log ++ [warning] },
            { report with statements := report.statements + 1, skipped := report.skipped + 1 })) ∧
    (∀ ts b', b.addStatement v ts = (b', none) →
      (∃ id, ts = [.ident "Scene", .int id]) ∨
        ∃ parts, Lists ts parts ∧ ∀ part ∈ parts, ∃ p, Notates Passes part p) ∧
    (∀ group items, (∀ item ∈ items, .comma ∉ item) →
      ((b.addStatement v
          (.group group :: .openBrace :: ([.comma].intercalate items ++ [.closeBrace]))).2 = none ↔
        b.scene ≠ none ∧ ∀ item ∈ items, item ≠ [] → ∃ p, Notates Passes item p)) ∧
    ∀ cs p, Overstarred cs p → ∀ (t : Topology) (groups : Groups) scene levels,
      (∀ n ∈ t.sceneNodes scene, ∀ node, t.node? n = some node → '*' ∉ node.name.toList) →
      p.resolve t groups scene (levels + 1) = .ok [] := by
  refine ⟨fun ts p => Pattern.ofTokens_eq_ok, fun ts hplain p => ?_, fun cs p h q =>
    h.not_wordPattern, fun st parts hlists hbad report => ?_, fun ts b' =>
    Rulebook.lists_of_addStatement, fun group items => Rulebook.addStatement_group_iff,
    fun cs p h t groups scene levels hplain => h.resolve_eq_nil hplain groups levels⟩
  · rw [Pattern.ofTokens_eq_ok]
    constructor
    · exact fun h => h.mono fun word q hmem hq => hq.resolve_right (hplain word q hmem)
    · exact fun h => h.mono fun word q _ hq => Or.inl hq
  · obtain ⟨part, hpart, hno⟩ := hbad
    obtain ⟨e, he⟩ := Rulebook.addStatement_fails_of_lists v b hlists hpart hno
    dsimp only [compileStatement]
    rw [he]
    exact ⟨_, rfl⟩

def gateRule (source : String) : List Lexeme :=
  [⟨.ident source, 2⟩, ⟨.arrow, 2⟩, ⟨.ident "Gate", 2⟩, ⟨.colon, 2⟩, ⟨.ident "Oil", 2⟩]

theorem lists_gateRule (source : String) :
    Lists ((gateRule source).map Lexeme.token) [[.ident source], [.ident "Gate"]] := by
  have hfs : ∀ t ∈ [Token.ident source], isArrow t = false ∧ t ≠ .colon := by simp [isArrow]
  exact @Lists.rule [.ident source] [.ident "Gate"] [.ident "Oil"] .arrow rfl hfs (by decide)

theorem Notates.word_inv (h : Notates W [.ident word] p) : W word.toList p := by
  cases h with
  | word h => exact h

theorem wildcards_exact_inside :
    let b := (blankRulebook "base").1.enter twoRooms 0
    ∃ warning, compileStatement twoRoomsWords "base" (b, {}) (gateRule "K*y") =
      ({ b with log := b.log ++ [warning] }, { statements := 1, skipped := 1 }) := by
  intro b
  obtain ⟨hpattern, -, -, hskipped, -⟩ := wildcards_exact twoRoomsWords "base" b
  refine hskipped _ _ (lists_gateRule "K*y") ⟨_, List.mem_cons_self, fun p hp => ?_⟩ {}
  have hok : Pattern.ofTokens [.ident "K*y"] = .ok p := (hpattern _ p).2 hp
  have hword : Pattern.ofTokens [.ident "K*y"] = .error (.wildcard "K*y") := by cbv
  rw [hword] at hok
  cases hok

/-- The same word with a star behind it makes a rule without any edges. -/
theorem overstarred_rule_lost :
    let b := (blankRulebook "base").1.enter twoRooms 0
    (∀ p, ¬Notates WordPattern [.ident "K*y*"] p) ∧
      b.rule twoRoomsWords ((gateRule "K*y*").map Lexeme.token) = .ok (0, [], [.single "Oil" 1]) ∧
      b.addStatement twoRoomsWords ((gateRule "K*y*").map Lexeme.token) = (b, none) := by
  refine ⟨fun p hp => ?_, by cbv, by cbv⟩
  have hstar : '*' ∈ ['K', '*', 'y'] := by decide
  have hover : Overstarred "K*y*".toList (.leading "K*y") := .leading hstar
  exact hover.not_wordPattern hp.word_inv

end WorldShuffle
