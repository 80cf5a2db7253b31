import ScopedStyles.Proofs.Selector.Reading

namespace ScopedStyles.Selector

theorem bind_eq_ok_iff {α β : Type} {x : Except Failure α} {f : α → Except Failure β} {b : β} :
    (x >>= f) = .ok b ↔ ∃ a, x = .ok a ∧ f a = .ok b := by
  constructor
  · intro h
    cases x with
    | error e => cases h
    | ok a => exact ⟨a, rfl, h⟩
  · rintro ⟨a, rfl, h⟩
    exact h

theorem map_eq_ok_iff {α β : Type} {x : Except Failure α} {f : α → β} {b : β} :
    x.map f = .ok b ↔ ∃ a, x = .ok a ∧ f a = b := by
  constructor
  · intro h
    cases x with
    | error e => cases h
    | ok a => exact ⟨a, rfl, Except.ok.inj h⟩
  · rintro ⟨a, rfl, rfl⟩
    rfl

theorem afterBar?_eq_some_iff {cs k : List Char} :
    afterBar? cs = some k ↔ cs = '|' :: k ∧ k.head? ≠ some '=' ∧ k.head? ≠ some '|' := by
  constructor
  · intro h
    unfold afterBar? at h
    split at h
    · cases h
    · cases h
    · next rest heq hbar =>
      cases h
      refine ⟨rfl, ?_, ?_⟩
      · intro hk
        obtain ⟨rest, rfl⟩ := List.head?_eq_some_iff.1 hk
        exact heq rest rfl
      · intro hk
        obtain ⟨rest, rfl⟩ := List.head?_eq_some_iff.1 hk
        exact hbar rest rfl
    · cases h
  · rintro ⟨rfl, heq, hbar⟩
    unfold afterBar?
    split
    · next h =>
      cases h
      exact (heq rfl).elim
    · next h =>
      cases h
      exact (hbar rfl).elim
    · next h =>
      cases h
      rfl
    · next h => exact (h k rfl).elim

theorem afterBar?_of_head {k : List Char} (h : k.head? ≠ some '|') : afterBar? k = none := by
  cases hk : afterBar? k with
  | none => rfl
  | some rest =>
    obtain ⟨rfl, -⟩ := afterBar?_eq_some_iff.1 hk
    exact (h rfl).elim

theorem afterBar?_bar_eq_none_iff {k : List Char} :
    afterBar? ('|' :: k) = none ↔ k.head? = some '=' ∨ k.head? = some '|' := by
  constructor
  · intro h
    apply Decidable.byContradiction
    intro hne
    obtain ⟨heq, hbar⟩ := not_or.1 hne
    rw [afterBar?_eq_some_iff.2 ⟨rfl, heq, hbar⟩] at h
    cases h
  · intro h
    cases hk : afterBar? ('|' :: k) with
    | none => rfl
    | some rest =>
      obtain ⟨hrest, heq, hbar⟩ := afterBar?_eq_some_iff.1 hk
      cases hrest
      exact (h.elim heq hbar).elim

/-- Behind a bar a name is no part of an operator. -/
theorem afterBar?_name {n r : List Char} (h : NameBefore n r) :
    afterBar? ('|' :: (n ++ r)) = some (n ++ r) := by
  obtain ⟨c, rest, rfl, hc⟩ := h.head
  refine afterBar?_eq_some_iff.2 ⟨rfl, ?_, ?_⟩
  · intro heq
    cases heq
    exact absurd hc (by decide)
  · intro heq
    cases heq
    exact absurd hc (by decide)

inductive ElementAt (ns : Namespace) : Tree → List Char → List Char → Prop
  | universal (r : List Char) : ElementAt ns (.node ⟨.universal, "*", some ns⟩ []) ['*'] r
  | tag {name : String} {r : List Char} (hname : NameBefore name.toList r) :
    ElementAt ns (.node ⟨.tag, name, some ns⟩ []) name.toList r

theorem NameBefore.head_ne {n r : List Char} {c : Char} (h : NameBefore n r)
    (hc : isNameChar c = false) (rest : List Char) : n ++ r ≠ c :: rest := by
  obtain ⟨d, n', rfl, hd⟩ := h.head
  intro heq
  cases heq
  rw [hc] at hd
  cases hd

theorem readElement_eq_ok_iff {ns : Namespace} {cs r : List Char} {t : Tree} :
    readElement ns cs = .ok (t, r) ↔ ∃ x, cs = x ++ r ∧ ElementAt ns t x r := by
  constructor
  · intro h
    unfold readElement at h
    split at h
    · cases h
      exact ⟨['*'], rfl, .universal r⟩
    · obtain ⟨⟨name, rest⟩, hread, hok⟩ := bind_eq_ok_iff.1 h
      obtain ⟨hcs, hname⟩ := readName_eq_ok_iff.1 hread
      cases hok
      exact ⟨name.toList, hcs, .tag hname⟩
  · rintro ⟨x, rfl, h⟩
    cases h with
    | universal => rfl
    | @tag name _ hname =>
      unfold readElement
      split
      · next heq => exact (hname.head_ne (by decide) _ heq).elim
      · rw [readName_eq_ok_iff.2 ⟨rfl, hname⟩]
        rfl

/-- An element begins with a star or a name character, so the bar before it is one of a prefix. -/
theorem ElementAt.afterBar {ns : Namespace} {t : Tree} {x r : List Char} (h : ElementAt ns t x r) :
    afterBar? ('|' :: (x ++ r)) = some (x ++ r) := by
  cases h with
  | universal => exact afterBar?_eq_some_iff.2 ⟨rfl, by simp, by simp⟩
  | tag hname => exact afterBar?_name hname

/-- The spellings of an attribute name. The second one gives up its bar when it is printed. -/
inductive AttributeNameAt : Option Namespace → String → List Char → List Char → Prop
  | any {name : String} {r : List Char} (hname : NameBefore name.toList r) :
    AttributeNameAt (some (.named "*")) name ('*' :: '|' :: name.toList) r
  | barred {name : String} {r : List Char} (hname : NameBefore name.toList r) :
    AttributeNameAt none name ('|' :: name.toList) r
  | prefixed {first name : String} {r : List Char}
    (hfirst : NameBefore first.toList ('|' :: (name.toList ++ r)))
    (hname : NameBefore name.toList r) :
    AttributeNameAt (some (.named first)) name (first.toList ++ '|' :: name.toList) r
  | plain {name : String} {r : List Char} (hname : NameBefore name.toList r)
    (hbar : afterBar? r = none) : AttributeNameAt none name name.toList r

theorem readAttributeName_sound {cs r : List Char} {ns : Option Namespace} {name : String}
    (h : readAttributeName cs = .ok ((ns, name), r)) :
    ∃ x, cs = x ++ r ∧ AttributeNameAt ns name x r := by
  unfold readAttributeName at h
  split at h
  · obtain ⟨⟨name', rest⟩, hread, hok⟩ := bind_eq_ok_iff.1 h
    obtain ⟨rfl, hname⟩ := readName_eq_ok_iff.1 hread
    cases hok
    exact ⟨_, rfl, .any hname⟩
  · cases h
  · obtain ⟨⟨name', rest⟩, hread, hok⟩ := bind_eq_ok_iff.1 h
    obtain ⟨rfl, hname⟩ := readName_eq_ok_iff.1 hread
    cases hok
    exact ⟨_, rfl, .barred hname⟩
  · obtain ⟨⟨first, rest⟩, hread, hok⟩ := bind_eq_ok_iff.1 h
    obtain ⟨rfl, hfirst⟩ := readName_eq_ok_iff.1 hread
    dsimp only at hok
    split at hok
    · next behind hbehind =>
      obtain ⟨⟨name', rest'⟩, hread', hok'⟩ := bind_eq_ok_iff.1 hok
      obtain ⟨rfl, hname⟩ := readName_eq_ok_iff.1 hread'
      obtain ⟨rfl, -⟩ := afterBar?_eq_some_iff.1 hbehind
      cases hok'
      exact ⟨_, by simp, .prefixed hfirst hname⟩
    · next hnone =>
      cases hok
      exact ⟨_, rfl, .plain hfirst hnone⟩

/-- A name in front decides by the bar behind it. -/
theorem readAttributeName_of_name {first : String} {k : List Char}
    (h : NameBefore first.toList k) :
    readAttributeName (first.toList ++ k) =
      match afterBar? k with
      | some rest => do
        let (name, rest) ← readName .attributeName rest
        .ok ((some (.named first), name), rest)
      | none => .ok ((none, first), k) := by
  unfold readAttributeName
  split
  · next heq => exact (h.head_ne (by decide) _ heq).elim
  · next heq => exact (h.head_ne (by decide) _ heq).elim
  · next heq => exact (h.head_ne (by decide) _ heq).elim
  · rw [readName_eq_ok_iff.2 ⟨rfl, h⟩]
    rfl

theorem AttributeNameAt.read {x r : List Char} {ns : Option Namespace} {name : String}
    (h : AttributeNameAt ns name x r) : readAttributeName (x ++ r) = .ok ((ns, name), r) := by
  cases h with
  | any hname =>
    change readName .attributeName (name.toList ++ r) >>= _ = _
    rw [readName_eq_ok_iff.2 ⟨rfl, hname⟩]
    rfl
  | barred hname =>
    unfold readAttributeName
    split
    · next heq => cases heq
    · next heq => exact (hname.head_ne (by decide) _ (List.cons.inj heq).2).elim
    · next heq =>
      have hrest := (List.cons.inj heq).2.symm
      exact bind_eq_ok_iff.2 ⟨_, readName_eq_ok_iff.2 ⟨hrest, hname⟩, rfl⟩
    · next hbar => exact (hbar _ rfl).elim
  | @prefixed first _ _ hfirst hname =>
    have happend : first.toList ++ '|' :: name.toList ++ r
        = first.toList ++ ('|' :: (name.toList ++ r)) := by simp
    rw [happend, readAttributeName_of_name hfirst, afterBar?_name hname]
    dsimp only
    rw [readName_eq_ok_iff.2 ⟨rfl, hname⟩]
    rfl
  | plain hname hbar => rw [readAttributeName_of_name hname, hbar]

theorem readAttributeName_eq_ok_iff {cs r : List Char} {ns : Option Namespace} {name : String} :
    readAttributeName cs = .ok ((ns, name), r) ↔
      ∃ x, cs = x ++ r ∧ AttributeNameAt ns name x r := by
  constructor
  · intro h
    exact readAttributeName_sound h
  · rintro ⟨x, rfl, h⟩
    exact h.read

theorem takeOperator?_eq_some_iff {cs r : List Char} {operator : String} :
    takeOperator? cs = some (operator, r) ↔
      cs = operator.toList ++ r ∧ operator ∈ ["=", "~=", "|=", "^=", "$=", "*="] := by
  constructor
  · intro h
    unfold takeOperator? at h
    split at h <;> cases h <;> exact ⟨rfl, by decide⟩
  · rintro ⟨rfl, h⟩
    simp only [List.mem_cons, List.not_mem_nil, or_false] at h
    rcases h with rfl | rfl | rfl | rfl | rfl | rfl <;> rfl

inductive ValueAt : String → List Char → List Char → Prop
  | quoted {quote : Char} {inner r : List Char} (hquote : isQuote quote = true)
    (hinner : Quoted quote inner) : ValueAt (String.ofList (quote :: inner)) (quote :: inner) r
  | name {value : String} {r : List Char} (hname : NameBefore value.toList r) :
    ValueAt value value.toList r

theorem ValueAt.toList {value : String} {x r : List Char} (h : ValueAt value x r) :
    value.toList = x := by
  cases h with
  | quoted => exact String.toList_ofList
  | name => rfl

theorem isQuote_of_isNameChar {c : Char} (hc : isNameChar c = true) : isQuote c = false := by
  cases hq : isQuote c with
  | false => rfl
  | true =>
    simp only [isQuote, Bool.or_eq_true, beq_iff_eq] at hq
    rcases hq with rfl | rfl
    · exact absurd hc (by decide)
    · exact absurd hc (by decide)

theorem readAttributeValue_eq_ok_iff {cs r : List Char} {value : String} :
    readAttributeValue cs = .ok (value, r) ↔ ∃ x, cs = x ++ r ∧ ValueAt value x r := by
  constructor
  · intro h
    unfold readAttributeValue at h
    split at h
    · next c rest =>
      split at h
      · next hquote =>
        obtain ⟨inner, rfl, rfl, hinner⟩ := readString_eq_ok_iff.1 h
        exact ⟨c :: inner, rfl, .quoted hquote hinner⟩
      · obtain ⟨hcs, hname⟩ := readName_eq_ok_iff.1 h
        exact ⟨value.toList, hcs, .name hname⟩
    · cases h
  · rintro ⟨x, rfl, h⟩
    cases h with
    | @quoted quote inner _ hquote hinner =>
      change (if isQuote quote = true then readString quote (inner ++ r) else _) = _
      rw [if_pos hquote]
      exact readString_eq_ok_iff.2 ⟨inner, rfl, rfl, hinner⟩
    | name hname =>
      obtain ⟨c, n, hn, hc⟩ := hname.head
      have hread : readName .attributeValue (value.toList ++ r) = .ok (value, r) :=
        readName_eq_ok_iff.2 ⟨rfl, hname⟩
      rw [hn] at hread ⊢
      change (if isQuote c = true then _ else readName .attributeValue (c :: (n ++ r))) = _
      rw [isQuote_of_isNameChar hc, if_neg Bool.false_ne_true]
      exact hread

inductive FlagAt : Option String → List Char → List Char → Prop
  | absent {r : List Char} (hends : EndsName r) : FlagAt none [] r
  | present {flag : String} {r : List Char} (hname : NameBefore flag.toList r) :
    FlagAt (some flag) flag.toList r

theorem takeFlag_eq_iff {cs r : List Char} {flag : Option String} :
    takeFlag cs = (flag, r) ↔ ∃ x, cs = x ++ r ∧ FlagAt flag x r := by
  constructor
  · intro h
    have happend := takeName_append cs
    have hends := takeName_ends cs
    unfold takeFlag at h
    cases htake : takeName cs with
    | mk n rest =>
      rw [htake] at h happend hends
      cases n with
      | nil =>
        cases h
        exact ⟨[], happend.symm, .absent hends⟩
      | cons c n =>
        cases h
        refine ⟨c :: n, happend.symm, ?_⟩
        have hname : NameBefore (String.ofList (c :: n)).toList r := by
          rw [String.toList_ofList]
          exact ⟨List.cons_ne_nil _ _, happend.symm ▸ htake⟩
        have := FlagAt.present hname
        rwa [String.toList_ofList] at this
  · rintro ⟨x, rfl, h⟩
    cases h with
    | absent hends =>
      unfold takeFlag
      rw [List.nil_append, takeName_of_ends hends]
    | @present flag _ hname =>
      obtain ⟨c, n, hn, -⟩ := hname.head
      unfold takeFlag
      rw [hname.2, hn]
      change (some (String.ofList (c :: n)), r) = _
      rw [← hn, String.ofList_toList]

inductive MatchAt : Match → List Char → List Char → Prop
  | presence {r : List Char} (hnone : takeOperator? r = none) : MatchAt .presence [] r
  | full {operator value : String} {flag : Option String} {v f ts₁ ts₂ ts₃ r : List Char}
    (hoperator : operator ∈ ["=", "~=", "|=", "^=", "$=", "*="])
    (hts₁ : Trivia ts₁) (htight₁ : Tight (v ++ (ts₂ ++ (f ++ (ts₃ ++ r)))))
    (hvalue : ValueAt value v (ts₂ ++ (f ++ (ts₃ ++ r))))
    (hts₂ : Trivia ts₂) (htight₂ : Tight (f ++ (ts₃ ++ r)))
    (hflag : FlagAt flag f (ts₃ ++ r)) (hts₃ : Trivia ts₃) (htight₃ : Tight r) :
    MatchAt ⟨some operator, some value, flag⟩
      (operator.toList ++ (ts₁ ++ (v ++ (ts₂ ++ (f ++ ts₃))))) r

theorem readMatch_eq_ok_iff {cs r : List Char} {m : Match} :
    readMatch cs = .ok (m, r) ↔ ∃ x, cs = x ++ r ∧ MatchAt m x r := by
  constructor
  · intro h
    unfold readMatch at h
    split at h
    · next hnone =>
      cases h
      exact ⟨[], rfl, .presence hnone⟩
    · next operator rest hsome =>
      obtain ⟨rfl, hoperator⟩ := takeOperator?_eq_some_iff.1 hsome
      obtain ⟨rest₁, hskip₁, h₁⟩ := bind_eq_ok_iff.1 h
      obtain ⟨⟨value, rest₂⟩, hvalue, h₂⟩ := bind_eq_ok_iff.1 h₁
      obtain ⟨rest₃, hskip₃, h₃⟩ := bind_eq_ok_iff.1 h₂
      cases hread : takeFlag rest₃ with
      | mk flag rest₄ =>
        dsimp only at h₃
        rw [hread] at h₃
        obtain ⟨rest₅, hskip₄, hok⟩ := bind_eq_ok_iff.1 h₃
        obtain ⟨ts₁, rfl, hts₁, htight₁⟩ := skipTrivia_eq_ok_iff.1 hskip₁
        obtain ⟨v, rfl, hv⟩ := readAttributeValue_eq_ok_iff.1 hvalue
        obtain ⟨ts₂, rfl, hts₂, htight₂⟩ := skipTrivia_eq_ok_iff.1 hskip₃
        obtain ⟨f, rfl, hflag⟩ := takeFlag_eq_iff.1 hread
        obtain ⟨ts₃, rfl, hts₃, htight₃⟩ := skipTrivia_eq_ok_iff.1 hskip₄
        cases hok
        exact ⟨_, by simp, .full hoperator hts₁ htight₁ hv hts₂ htight₂ hflag hts₃ htight₃⟩
  · rintro ⟨x, rfl, h⟩
    cases h with
    | presence hnone =>
      unfold readMatch
      rw [List.nil_append, hnone]
    | @full operator value flag v f ts₁ ts₂ ts₃ _ hoperator hts₁ htight₁ hv hts₂ htight₂ hflag hts₃
        htight₃ =>
      have happend : operator.toList ++ (ts₁ ++ (v ++ (ts₂ ++ (f ++ ts₃)))) ++ r
          = operator.toList ++ (ts₁ ++ (v ++ (ts₂ ++ (f ++ (ts₃ ++ r))))) := by simp
      unfold readMatch
      rw [happend, takeOperator?_eq_some_iff.2 ⟨rfl, hoperator⟩]
      dsimp only
      refine bind_eq_ok_iff.2 ⟨_, (hts₁ _).trans htight₁, ?_⟩
      refine bind_eq_ok_iff.2 ⟨_, readAttributeValue_eq_ok_iff.2 ⟨v, rfl, hv⟩, ?_⟩
      refine bind_eq_ok_iff.2 ⟨_, (hts₂ _).trans htight₂, ?_⟩
      dsimp only
      rw [takeFlag_eq_iff.2 ⟨f, rfl, hflag⟩]
      exact bind_eq_ok_iff.2 ⟨r, (hts₃ _).trans htight₃, rfl⟩

inductive AttributeAt : Tree → List Char → List Char → Prop
  | intro {ns : Option Namespace} {name : String} {m : Match} {n o ts₁ ts₂ r : List Char}
    (hts₁ : Trivia ts₁) (htight₁ : Tight (n ++ (ts₂ ++ (o ++ ']' :: r))))
    (hname : AttributeNameAt ns name n (ts₂ ++ (o ++ ']' :: r)))
    (hts₂ : Trivia ts₂) (htight₂ : Tight (o ++ ']' :: r))
    (hmatch : MatchAt m o (']' :: r)) :
    AttributeAt (.node ⟨.attribute m, name, ns⟩ []) (ts₁ ++ (n ++ (ts₂ ++ (o ++ [']'])))) r

theorem readAttribute_eq_ok_iff {cs r : List Char} {t : Tree} :
    readAttribute cs = .ok (t, r) ↔ ∃ x, cs = x ++ r ∧ AttributeAt t x r := by
  constructor
  · intro h
    unfold readAttribute at h
    obtain ⟨rest₁, hskip₁, h₁⟩ := bind_eq_ok_iff.1 h
    obtain ⟨⟨⟨ns, name⟩, rest₂⟩, hname, h₂⟩ := bind_eq_ok_iff.1 h₁
    obtain ⟨rest₃, hskip₂, h₃⟩ := bind_eq_ok_iff.1 h₂
    obtain ⟨⟨m, rest₄⟩, hmatch, hend⟩ := bind_eq_ok_iff.1 h₃
    dsimp only at hend
    split at hend
    · cases hend
      obtain ⟨ts₁, rfl, hts₁, htight₁⟩ := skipTrivia_eq_ok_iff.1 hskip₁
      obtain ⟨n, rfl, hn⟩ := readAttributeName_eq_ok_iff.1 hname
      obtain ⟨ts₂, rfl, hts₂, htight₂⟩ := skipTrivia_eq_ok_iff.1 hskip₂
      obtain ⟨o, rfl, ho⟩ := readMatch_eq_ok_iff.1 hmatch
      exact ⟨_, by simp, .intro hts₁ htight₁ hn hts₂ htight₂ ho⟩
    · cases hend
    · cases hend
  · rintro ⟨x, rfl, h⟩
    cases h with
    | @intro ns name m n o ts₁ ts₂ _ hts₁ htight₁ hn hts₂ htight₂ ho =>
      have happend : ts₁ ++ (n ++ (ts₂ ++ (o ++ [']']))) ++ r
          = ts₁ ++ (n ++ (ts₂ ++ (o ++ ']' :: r))) := by simp
      unfold readAttribute
      rw [happend]
      refine bind_eq_ok_iff.2 ⟨_, (hts₁ _).trans htight₁, ?_⟩
      refine bind_eq_ok_iff.2 ⟨_, readAttributeName_eq_ok_iff.2 ⟨n, rfl, hn⟩, ?_⟩
      refine bind_eq_ok_iff.2 ⟨_, (hts₂ _).trans htight₂, ?_⟩
      exact bind_eq_ok_iff.2 ⟨_, readMatch_eq_ok_iff.2 ⟨o, rfl, ho⟩, rfl⟩

/-- The name of a pseudo behind its first colon. The colons belong to the name. -/
inductive PseudoNameAt : String → List Char → List Char → Prop
  | single {name : String} {r : List Char} (hname : NameBefore name.toList r) :
    PseudoNameAt (":" ++ name) name.toList r
  | double {name : String} {r : List Char} (hname : NameBefore name.toList r) :
    PseudoNameAt ("::" ++ name) (':' :: name.toList) r

theorem PseudoNameAt.toList {name : String} {x r : List Char} (h : PseudoNameAt name x r) :
    name.toList = ':' :: x := by
  cases h with
  | single => exact String.toList_append
  | double => exact String.toList_append

theorem readPseudoName_eq_ok_iff {cs r : List Char} {name : String} :
    readPseudoName cs = .ok (name, r) ↔ ∃ x, cs = x ++ r ∧ PseudoNameAt name x r := by
  constructor
  · intro h
    unfold readPseudoName at h
    split at h
    · obtain ⟨⟨name', rest⟩, hread, hok⟩ := bind_eq_ok_iff.1 h
      obtain ⟨rfl, hname⟩ := readName_eq_ok_iff.1 hread
      cases hok
      exact ⟨_, rfl, .double hname⟩
    · obtain ⟨⟨name', rest⟩, hread, hok⟩ := bind_eq_ok_iff.1 h
      obtain ⟨rfl, hname⟩ := readName_eq_ok_iff.1 hread
      cases hok
      exact ⟨_, rfl, .single hname⟩
  · rintro ⟨x, rfl, h⟩
    cases h with
    | single hname =>
      unfold readPseudoName
      split
      · next heq => exact (hname.head_ne (by decide) _ heq).elim
      · exact bind_eq_ok_iff.2 ⟨_, readName_eq_ok_iff.2 ⟨rfl, hname⟩, rfl⟩
    | double hname =>
      exact bind_eq_ok_iff.2 ⟨_, readName_eq_ok_iff.2 ⟨rfl, hname⟩, rfl⟩

end ScopedStyles.Selector
