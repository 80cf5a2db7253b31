import ScopedStyles.Proofs.Selector.Grammar
import ScopedStyles.Proofs.Selector.Trees

namespace ScopedStyles.Selector

def Component.All (P : Label → Prop) : Component → Prop
  | node t => t.All P
  | opening _ => True

/-- The spellings of a component in front of a text. -/
inductive ComponentAt : Component → List Char → List Char → Prop
  | combinator {c : Char} {r : List Char} (hc : isRelation c = true ∨ c = '|') :
    ComponentAt (.node (.leaf .combinator c.toString)) [c] r
  | className {name : String} {r : List Char} (hname : NameBefore name.toList r) :
    ComponentAt (.node (.leaf .className name)) ('.' :: name.toList) r
  | idName {name : String} {r : List Char} (hname : NameBefore name.toList r) :
    ComponentAt (.node (.leaf .idName name)) ('#' :: name.toList) r
  | bracket {t : Tree} {x r : List Char} (ht : AttributeAt t x r) :
    ComponentAt (.node t) ('[' :: x) r
  | pseudo {name : String} {x r : List Char} (hname : PseudoNameAt name x r)
    (hr : r.head? ≠ some '(') : ComponentAt (.node (.leaf (.pseudo false) name)) (':' :: x) r
  | emptyFunctional {name : String} {x ts r : List Char} (hts : Trivia ts)
    (hname : PseudoNameAt name x ('(' :: (ts ++ ')' :: r))) :
    ComponentAt (.node (.functional name [])) (':' :: (x ++ '(' :: (ts ++ [')']))) r
  | opening {name : String} {x ts r : List Char} (hts : Trivia ts)
    (hname : PseudoNameAt name x ('(' :: (ts ++ r))) (htight : Tight r)
    (hr : r.head? ≠ some ')') : ComponentAt (.opening name) (':' :: (x ++ '(' :: ts)) r
  | nesting {r : List Char} : ComponentAt (.node (.leaf .nesting "&")) ['&'] r
  | string {quote : Char} {inner r : List Char} (hquote : isQuote quote = true)
    (hinner : Quoted quote inner) :
    ComponentAt (.node (.leaf .string (String.ofList (quote :: inner)))) (quote :: inner) r
  | universal {r : List Char} (hbar : afterBar? r = none) :
    ComponentAt (.node (.leaf .universal "*")) ['*'] r
  | anyElement {t : Tree} {x r : List Char} (ht : ElementAt (.named "*") t x r) :
    ComponentAt (.node t) ('*' :: '|' :: x) r
  | tag {name : String} {r : List Char} (hname : NameBefore name.toList r)
    (hbar : afterBar? r = none) : ComponentAt (.node (.leaf .tag name)) name.toList r
  | element {first : String} {t : Tree} {x r : List Char}
    (hfirst : NameBefore first.toList ('|' :: (x ++ r)))
    (ht : ElementAt (.named first) t x r) : ComponentAt (.node t) (first.toList ++ '|' :: x) r

theorem ComponentAt.equals {ns : Option Namespace} {name value : String} {n r : List Char}
    (hname : AttributeNameAt ns name n ('=' :: (value.toList ++ ']' :: r)))
    (htight : Tight (n ++ '=' :: (value.toList ++ ']' :: r)))
    (hvalue : ValueAt value value.toList (']' :: r)) (hbehind : Tight (value.toList ++ ']' :: r)) :
    ComponentAt (.node (.node ⟨.attribute ⟨some "=", some value, none⟩, name, ns⟩ []))
      ('[' :: (n ++ '=' :: (value.toList ++ [']']))) r := by
  have hclosing : Tight (']' :: r) := tight_cons (by decide) (by decide) r
  have hmatch : MatchAt ⟨some "=", some value, none⟩ ('=' :: value.toList) (']' :: r) := by
    have hfull : MatchAt ⟨some "=", some value, none⟩
        ("=".toList ++ ([] ++ (value.toList ++ ([] ++ ([] ++ []))))) (']' :: r) :=
      .full (by decide) trivia_nil hbehind hvalue trivia_nil hclosing
        (.absent (endsName_cons (by decide) r)) trivia_nil hclosing
    simp only [List.append_nil, List.nil_append] at hfull
    exact hfull
  have hattribute : AttributeAt (.node ⟨.attribute ⟨some "=", some value, none⟩, name, ns⟩ [])
      (n ++ '=' :: (value.toList ++ [']'])) r :=
    .intro trivia_nil htight hname trivia_nil (tight_cons (by decide) (by decide) _) hmatch
  exact .bracket hattribute

theorem readLeaf_eq_ok_iff {kind : Kind} {what : Expected} {cs r : List Char} {comp : Component} :
    readLeaf kind what cs = .ok (comp, r) ↔
      ∃ name, comp = .node (.leaf kind name) ∧ cs = name.toList ++ r ∧
        NameBefore name.toList r := by
  constructor
  · intro h
    obtain ⟨⟨name, rest⟩, hread, hok⟩ := bind_eq_ok_iff.1 h
    obtain ⟨hcs, hname⟩ := readName_eq_ok_iff.1 hread
    cases hok
    exact ⟨name, rfl, hcs, hname⟩
  · rintro ⟨name, rfl, rfl, hname⟩
    exact bind_eq_ok_iff.2 ⟨_, readName_eq_ok_iff.2 ⟨rfl, hname⟩, rfl⟩

theorem readPseudo_sound {cs r : List Char} {comp : Component}
    (h : readPseudo cs = .ok (comp, r)) : ∃ x, cs = x ++ r ∧ ComponentAt comp (':' :: x) r := by
  obtain ⟨⟨name, rest⟩, hread, h₁⟩ := bind_eq_ok_iff.1 h
  obtain ⟨x, rfl, hname⟩ := readPseudoName_eq_ok_iff.1 hread
  dsimp only at h₁
  split at h₁
  · obtain ⟨inner, hskip, h₂⟩ := bind_eq_ok_iff.1 h₁
    obtain ⟨ts, rfl, hts, htight⟩ := skipTrivia_eq_ok_iff.1 hskip
    split at h₂
    · cases h₂
      exact ⟨_, by simp, .emptyFunctional hts hname⟩
    · next hparen =>
      cases h₂
      refine ⟨_, by simp, .opening hts hname htight ?_⟩
      intro hhead
      obtain ⟨rest, rfl⟩ := List.head?_eq_some_iff.1 hhead
      exact hparen rest rfl
  · next hparen =>
    cases h₁
    refine ⟨x, rfl, .pseudo hname ?_⟩
    intro hhead
    obtain ⟨rest, rfl⟩ := List.head?_eq_some_iff.1 hhead
    exact hparen rest rfl

theorem readUniversal_sound {cs r : List Char} {t : Tree} (h : readUniversal cs = .ok (t, r)) :
    ∃ x, cs = x ++ r ∧ ComponentAt (.node t) ('*' :: x) r := by
  unfold readUniversal at h
  split at h
  · next rest hbar =>
    obtain ⟨rfl, -⟩ := afterBar?_eq_some_iff.1 hbar
    obtain ⟨x, rfl, ht⟩ := readElement_eq_ok_iff.1 h
    exact ⟨'|' :: x, rfl, .anyElement ht⟩
  · next hbar =>
    cases h
    exact ⟨[], rfl, .universal hbar⟩

theorem readTag_sound {cs r : List Char} {t : Tree} (h : readTag cs = .ok (t, r)) :
    ∃ x, cs = x ++ r ∧ ComponentAt (.node t) x r := by
  obtain ⟨⟨name, rest⟩, hread, h₁⟩ := bind_eq_ok_iff.1 h
  obtain ⟨rfl, hname⟩ := readName_eq_ok_iff.1 hread
  dsimp only at h₁
  split at h₁
  · next rest hbar =>
    obtain ⟨rfl, -⟩ := afterBar?_eq_some_iff.1 hbar
    obtain ⟨x, rfl, ht⟩ := readElement_eq_ok_iff.1 h₁
    exact ⟨_, by simp, .element hname ht⟩
  · next hbar =>
    cases h₁
    exact ⟨_, rfl, .tag hname hbar⟩

theorem readComponent_sound {c : Char} {rest r : List Char} {comp : Component}
    (h : readComponent c rest = .ok (comp, r)) :
    ∃ x, c :: rest = x ++ r ∧ ComponentAt comp x r := by
  unfold readComponent at h
  split at h
  · next hc =>
    cases h
    rw [Bool.or_eq_true, beq_iff_eq] at hc
    exact ⟨[c], rfl, .combinator hc⟩
  split at h
  · next hc =>
    subst hc
    obtain ⟨name, rfl, rfl, hname⟩ := readLeaf_eq_ok_iff.1 h
    exact ⟨_, rfl, .className hname⟩
  split at h
  · next hc =>
    subst hc
    obtain ⟨name, rfl, rfl, hname⟩ := readLeaf_eq_ok_iff.1 h
    exact ⟨_, rfl, .idName hname⟩
  split at h
  · next hc =>
    subst hc
    obtain ⟨⟨t, r'⟩, hread, hok⟩ := map_eq_ok_iff.1 h
    cases hok
    obtain ⟨x, rfl, ht⟩ := readAttribute_eq_ok_iff.1 hread
    exact ⟨_, rfl, .bracket ht⟩
  split at h
  · next hc =>
    subst hc
    obtain ⟨x, rfl, hx⟩ := readPseudo_sound h
    exact ⟨_, rfl, hx⟩
  split at h
  · next hc =>
    subst hc
    cases h
    exact ⟨_, rfl, .nesting⟩
  split at h
  · next hquote =>
    obtain ⟨⟨text, r'⟩, hread, hok⟩ := map_eq_ok_iff.1 h
    cases hok
    obtain ⟨inner, rfl, rfl, hinner⟩ := readString_eq_ok_iff.1 hread
    exact ⟨_, rfl, .string hquote hinner⟩
  split at h
  · next hc =>
    subst hc
    obtain ⟨⟨t, r'⟩, hread, hok⟩ := map_eq_ok_iff.1 h
    cases hok
    obtain ⟨x, rfl, hx⟩ := readUniversal_sound hread
    exact ⟨_, rfl, hx⟩
  split at h
  · obtain ⟨⟨t, r'⟩, hread, hok⟩ := map_eq_ok_iff.1 h
    cases hok
    exact readTag_sound hread
  · cases h

theorem readComponent_name {c : Char} (hc : isNameChar c = true) (rest : List Char) :
    readComponent c rest = (readTag (c :: rest)).map fun r => (.node r.1, r.2) := by
  have hne : ∀ d, isNameChar d = false → c ≠ d := by
    intro d hd heq
    rw [heq, hd] at hc
    cases hc
  have hrelation : (isRelation c || c == '|') = false := by
    simp only [isRelation, Bool.or_eq_false_iff, beq_eq_false_iff_ne]
    exact ⟨⟨⟨hne _ (by decide), hne _ (by decide)⟩, hne _ (by decide)⟩, hne _ (by decide)⟩
  unfold readComponent
  rw [hrelation, isQuote_of_isNameChar hc, hc]
  rw [if_neg Bool.false_ne_true, if_neg (hne _ (by decide)), if_neg (hne _ (by decide)),
    if_neg (hne _ (by decide)), if_neg (hne _ (by decide)), if_neg (hne _ (by decide)),
    if_neg Bool.false_ne_true, if_neg (hne _ (by decide)), if_pos rfl]

/-- The reader of components reads every spelling of a component. -/
theorem ComponentAt.read {comp : Component} {c : Char} {x rest r : List Char}
    (h : ComponentAt comp x r) (hx : c :: rest = x ++ r) : readComponent c rest = .ok (comp, r) := by
  cases h with
  | combinator hc =>
    cases hx
    unfold readComponent
    rw [if_pos]
    · rfl
    · rw [Bool.or_eq_true, beq_iff_eq]
      exact hc
  | className hname =>
    cases hx
    exact readLeaf_eq_ok_iff.2 ⟨_, rfl, rfl, hname⟩
  | idName hname =>
    cases hx
    exact readLeaf_eq_ok_iff.2 ⟨_, rfl, rfl, hname⟩
  | bracket ht =>
    cases hx
    exact map_eq_ok_iff.2 ⟨_, readAttribute_eq_ok_iff.2 ⟨_, rfl, ht⟩, rfl⟩
  | pseudo hname hr =>
    cases hx
    refine bind_eq_ok_iff.2 ⟨_, readPseudoName_eq_ok_iff.2 ⟨_, rfl, hname⟩, ?_⟩
    dsimp only
    split
    · exact (hr rfl).elim
    · rfl
  | @emptyFunctional name x ts _ hts hname =>
    cases hx
    have happend : x ++ '(' :: (ts ++ [')']) ++ r = x ++ '(' :: (ts ++ ')' :: r) := by simp
    change readPseudo (x ++ '(' :: (ts ++ [')']) ++ r) = _
    rw [happend]
    refine bind_eq_ok_iff.2 ⟨_, readPseudoName_eq_ok_iff.2 ⟨_, rfl, hname⟩, ?_⟩
    exact bind_eq_ok_iff.2 ⟨_, (hts _).trans (tight_cons (by decide) (by decide) _), rfl⟩
  | @opening name x ts _ hts hname htight hr =>
    cases hx
    have happend : x ++ '(' :: ts ++ r = x ++ '(' :: (ts ++ r) := by simp
    change readPseudo (x ++ '(' :: ts ++ r) = _
    rw [happend]
    refine bind_eq_ok_iff.2 ⟨_, readPseudoName_eq_ok_iff.2 ⟨_, rfl, hname⟩, ?_⟩
    refine bind_eq_ok_iff.2 ⟨_, (hts _).trans htight, ?_⟩
    split
    · exact (hr rfl).elim
    · rfl
  | nesting =>
    cases hx
    rfl
  | @string quote inner _ hquote hinner =>
    have hread : readString quote (inner ++ r) = .ok (String.ofList (quote :: inner), r) :=
      readString_eq_ok_iff.2 ⟨inner, rfl, rfl, hinner⟩
    simp only [isQuote, Bool.or_eq_true, beq_iff_eq] at hquote
    rcases hquote with rfl | rfl
    · cases hx
      exact map_eq_ok_iff.2 ⟨_, hread, rfl⟩
    · cases hx
      exact map_eq_ok_iff.2 ⟨_, hread, rfl⟩
  | universal hbar =>
    cases hx
    refine map_eq_ok_iff.2 ⟨(.leaf .universal "*", r), ?_, rfl⟩
    change readUniversal r = _
    unfold readUniversal
    rw [hbar]
  | @anyElement t x _ ht =>
    cases hx
    refine map_eq_ok_iff.2 ⟨(t, r), ?_, rfl⟩
    change readUniversal ('|' :: (x ++ r)) = _
    unfold readUniversal
    rw [ht.afterBar]
    exact readElement_eq_ok_iff.2 ⟨x, rfl, ht⟩
  | @tag name _ hname hbar =>
    obtain ⟨c', n, hn, hc⟩ := hname.head
    have hc' : c' = c := by
      rw [hn] at hx
      exact (List.cons.inj hx).1.symm
    rw [readComponent_name (hc' ▸ hc), hx]
    refine map_eq_ok_iff.2 ⟨(.leaf .tag name, r), ?_, rfl⟩
    refine bind_eq_ok_iff.2 ⟨_, readName_eq_ok_iff.2 ⟨rfl, hname⟩, ?_⟩
    dsimp only
    rw [hbar]
  | @element first t x _ hfirst ht =>
    obtain ⟨c', n, hn, hc⟩ := hfirst.head
    have hc' : c' = c := by
      rw [hn] at hx
      exact (List.cons.inj hx).1.symm
    have happend : first.toList ++ '|' :: x ++ r = first.toList ++ '|' :: (x ++ r) := by simp
    rw [readComponent_name (hc' ▸ hc), hx, happend]
    refine map_eq_ok_iff.2 ⟨(t, r), ?_, rfl⟩
    refine bind_eq_ok_iff.2 ⟨_, readName_eq_ok_iff.2 ⟨rfl, hfirst⟩, ?_⟩
    dsimp only
    rw [ht.afterBar]
    exact readElement_eq_ok_iff.2 ⟨x, rfl, ht⟩

end ScopedStyles.Selector
