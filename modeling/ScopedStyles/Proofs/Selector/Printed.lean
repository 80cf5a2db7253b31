import ScopedStyles.Proofs.Selector.Component

namespace ScopedStyles.Selector

/-- An attribute without prefix whose name begins with a blank, where white space is skipped. -/
def Label.exposed (l : Label) : Bool :=
  l.isAttribute && l.ns.isNone && l.value.toList.head?.any isBlank

def Label.Sheltered (l : Label) : Prop :=
  l.exposed = false

namespace Component

def chars : Component → List Char
  | node t => t.chars
  | opening name => name.toList ++ ['(']

def isCombinator : Component → Bool
  | node t => t.label.isCombinator
  | opening _ => false

end Component

/-- Behind a component that is no combinator, `k` can stand in for `r`. -/
structure Follows (r k : List Char) : Prop where
  nil : r = [] → k = []
  ends : EndsName r → EndsName k
  bar : afterBar? r = none → afterBar? k = none
  parenthesis : r.head? ≠ some '(' → k.head? ≠ some '('
  tight : Tight r → Tight k
  closing : Tight r → r.head? ≠ some ')' → k.head? ≠ some ')'

theorem NameBefore.follows {n r k : List Char} (h : NameBefore n r) (hk : Follows r k) :
    NameBefore n k :=
  h.again (hk.ends h.ends) fun hnil => .inl (hk.nil hnil)

theorem NameBefore.again_cons {n r k : List Char} {c : Char} (h : NameBefore n r) (hr : r ≠ [])
    (hc : isNameChar c = false) : NameBefore n (c :: k) := by
  refine h.again ?_ fun hnil => (hr hnil).elim
  intro d hd
  cases hd
  exact hc

/-- Whether trivia stands at the front is decided by the first character, but for a slash. -/
theorem Tight.swap {c : Char} {a b : List Char} (h : Tight (c :: a)) (hc : c ≠ '/') :
    Tight (c :: b) :=
  tight_cons h.head_not_blank hc b

theorem NameBefore.tight {n r k : List Char} (h : NameBefore n r) (ht : Tight (n ++ r)) :
    Tight (n ++ k) := by
  obtain ⟨c, rest, rfl, hc⟩ := h.head
  apply Tight.swap ht
  intro heq
  subst heq
  exact absurd hc (by decide)

theorem ValueAt.tight {value : String} {v r k : List Char} (h : ValueAt value v r)
    (ht : Tight (v ++ r)) : Tight (v ++ k) := by
  cases h with
  | quoted hquote =>
    apply Tight.swap ht
    intro heq
    subst heq
    exact absurd hquote (by decide)
  | name hname => exact hname.tight ht

theorem ValueAt.again_cons {value : String} {v r k : List Char} {c : Char} (h : ValueAt value v r)
    (hr : r ≠ []) (hc : isNameChar c = false) : ValueAt value v (c :: k) := by
  cases h with
  | quoted hquote hinner => exact .quoted hquote hinner
  | name hname => exact .name (hname.again_cons hr hc)

theorem ElementAt.again {ns : Namespace} {t : Tree} {x r k : List Char} (h : ElementAt ns t x r)
    (hk : Follows r k) : ElementAt ns t x k := by
  cases h with
  | universal => exact .universal k
  | tag hname => exact .tag (hname.follows hk)

theorem PseudoNameAt.again_cons {name : String} {x r k : List Char} {c : Char}
    (h : PseudoNameAt name x r) (hr : r ≠ []) (hc : isNameChar c = false) :
    PseudoNameAt name x (c :: k) := by
  cases h with
  | single hname => exact .single (hname.again_cons hr hc)
  | double hname => exact .double (hname.again_cons hr hc)

theorem PseudoNameAt.again {name : String} {x r k : List Char} (h : PseudoNameAt name x r)
    (hk : Follows r k) : PseudoNameAt name x k := by
  cases h with
  | single hname => exact .single (hname.follows hk)
  | double hname => exact .double (hname.follows hk)

theorem trivia_space : Trivia [' '] :=
  fun k => skipTrivia_blank (by decide) k

theorem MatchAt.printed_front {m : Match} {o r : List Char} (h : MatchAt m o r) (k : List Char) :
    ∃ c rest, m.chars ++ ']' :: k = c :: rest ∧ isNameChar c = false ∧ Tight (c :: rest) ∧
      afterBar? (c :: rest) = none := by
  cases h with
  | presence => exact ⟨']', k, rfl, by decide, tight_cons (by decide) (by decide) _, rfl⟩
  | full hoperator =>
    simp only [List.mem_cons, List.not_mem_nil, or_false] at hoperator
    rcases hoperator with rfl | rfl | rfl | rfl | rfl | rfl
    all_goals exact ⟨_, _, rfl, by decide, tight_cons (by decide) (by decide) _, rfl⟩

theorem MatchAt.again {m : Match} {o r : List Char} (h : MatchAt m o (']' :: r)) (k : List Char) :
    MatchAt m m.chars (']' :: k) := by
  have hclose : Tight (']' :: k) := tight_cons (by decide) (by decide) k
  cases h with
  | presence => exact .presence rfl
  | @full operator value flag v f ts₁ ts₂ ts₃ _ hoperator hts₁ htight₁ hvalue hts₂ htight₂ hflag hts₃
      htight₃ =>
    have hr : ts₂ ++ (f ++ (ts₃ ++ ']' :: r)) ≠ [] := by simp
    cases hflag with
    | absent =>
      have hprinted : (Match.mk (some operator) (some value) none).chars
          = operator.toList ++ ([] ++ (v ++ ([] ++ ([] ++ [])))) := by
        simp [Match.chars, hvalue.toList]
      rw [hprinted]
      exact .full hoperator trivia_nil (hvalue.tight htight₁) (hvalue.again_cons hr (by decide))
        trivia_nil hclose (.absent (endsName_cons (by decide) k)) trivia_nil hclose
    | @present flag _ hname =>
      have hprinted : (Match.mk (some operator) (some value) (some flag)).chars
          = operator.toList ++ ([] ++ (v ++ ([' '] ++ (flag.toList ++ [])))) := by
        simp [Match.chars, hvalue.toList]
      rw [hprinted]
      exact .full hoperator trivia_nil (hvalue.tight htight₁) (hvalue.again_cons hr (by decide))
        trivia_space (hname.tight htight₂) (.present (hname.again_cons (by simp) (by decide)))
        trivia_nil hclose

theorem AttributeNameAt.again_cons {ns : Option Namespace} {name : String} {n r k : List Char}
    {c : Char} (h : AttributeNameAt ns name n r) (hr : r ≠ []) (hc : isNameChar c = false)
    (hbar : afterBar? (c :: k) = none) :
    AttributeNameAt ns name (prefixChars ns ++ name.toList) (c :: k) := by
  cases h with
  | any hname => exact .any (hname.again_cons hr hc)
  | barred hname => exact .plain (hname.again_cons hr hc) hbar
  | @prefixed first _ _ hfirst hname =>
    have hprinted : prefixChars (some (.named first)) ++ name.toList
        = first.toList ++ '|' :: name.toList := by
      simp [prefixChars, Namespace.chars]
    rw [hprinted]
    exact .prefixed (hfirst.again_cons (List.cons_ne_nil _ _) (by decide)) (hname.again_cons hr hc)
  | plain hname => exact .plain (hname.again_cons hr hc) hbar

theorem AttributeNameAt.tight {ns : Option Namespace} {name : String} {m : Match} {n r k : List Char}
    (h : AttributeNameAt ns name n r) (ht : Tight (n ++ r))
    (hsheltered : Label.Sheltered ⟨.attribute m, name, ns⟩) :
    Tight (prefixChars ns ++ name.toList ++ k) := by
  cases h with
  | any hname => exact tight_cons (by decide) (by decide) _
  | barred hname =>
    obtain ⟨c, rest, hn, hc⟩ := hname.head
    have hblank : isBlank c = false := by
      simpa [Label.Sheltered, Label.exposed, Label.isAttribute, hn] using hsheltered
    change Tight (name.toList ++ k)
    rw [hn]
    refine tight_cons hblank ?_ _
    intro heq
    subst heq
    exact absurd hc (by decide)
  | @prefixed first _ _ hfirst hname =>
    have hprinted : prefixChars (some (.named first)) ++ name.toList ++ k
        = first.toList ++ ('|' :: (name.toList ++ k)) := by
      simp [prefixChars, Namespace.chars]
    rw [hprinted]
    apply hfirst.tight
    simpa using ht
  | plain hname => exact hname.tight ht

theorem attribute_chars (ns : Option Namespace) (name : String) (m : Match) :
    (Tree.node ⟨.attribute m, name, ns⟩ []).chars
      = '[' :: ((prefixChars ns ++ name.toList) ++ (m.chars ++ [']'])) := by
  simp [Tree.chars, Label.chars]

theorem AttributeAt.again {t : Tree} {x r : List Char} (h : AttributeAt t x r)
    (hsheltered : t.All Label.Sheltered) (k : List Char) :
    ∃ y, t.chars = '[' :: y ∧ AttributeAt t y k := by
  cases h with
  | @intro ns name m n o ts₁ ts₂ _ hts₁ htight₁ hname hts₂ htight₂ hmatch =>
    obtain ⟨c, rest, hfront, hc, htight, hbar⟩ := hmatch.printed_front k
    refine ⟨_, attribute_chars ns name m, ?_⟩
    have hn : Tight (prefixChars ns ++ name.toList ++ ([] ++ (m.chars ++ ']' :: k))) :=
      hname.tight htight₁ hsheltered.label
    have ho : Tight (m.chars ++ ']' :: k) := hfront ▸ htight
    have hname' : AttributeNameAt ns name (prefixChars ns ++ name.toList)
        ([] ++ (m.chars ++ ']' :: k)) := by
      rw [List.nil_append, hfront]
      exact hname.again_cons (by simp) hc hbar
    exact .intro trivia_nil hn hname' trivia_nil ho (hmatch.again k)

theorem ElementAt.not_combinator {ns : Namespace} {t : Tree} {x r : List Char}
    (h : ElementAt ns t x r) : t.label.isCombinator = false := by
  cases h with
  | universal => rfl
  | tag => rfl

theorem ElementAt.chars {ns : Namespace} {t : Tree} {x r : List Char} (h : ElementAt ns t x r) :
    t.chars = ns.chars ++ x := by
  cases h with
  | universal => rfl
  | tag hname => rfl

theorem pseudo_chars (name : String) : (Tree.leaf (.pseudo false) name).chars = name.toList := by
  rfl

/-- The printed form of a component is a spelling of it in front of every text that follows on. -/
theorem ComponentAt.again {comp : Component} {x r k : List Char} (h : ComponentAt comp x r)
    (hsheltered : comp.All Label.Sheltered) (hk : comp.isCombinator = false → Follows r k) :
    ComponentAt comp comp.chars k := by
  cases h with
  | @combinator c _ hc =>
    have hprinted : (Component.node (.leaf .combinator c.toString)).chars = [c] := by
      change c.toString.toList = [c]
      exact String.toList_singleton c
    rw [hprinted]
    exact .combinator hc
  | className hname => exact .className (hname.follows (hk rfl))
  | idName hname => exact .idName (hname.follows (hk rfl))
  | bracket ht =>
    obtain ⟨y, hy, hagain⟩ := ht.again hsheltered k
    change ComponentAt _ (Tree.chars _) k
    rw [hy]
    exact .bracket hagain
  | pseudo hname hr =>
    have hfollows := hk rfl
    change ComponentAt _ (Tree.chars _) k
    rw [pseudo_chars, hname.toList]
    exact .pseudo (hname.again hfollows) (hfollows.parenthesis hr)
  | @emptyFunctional name x ts _ hts hname =>
    have hprinted : (Component.node (.functional name [])).chars
        = ':' :: (x ++ '(' :: ([] ++ [')'])) := by
      change name.toList ++ ['('] ++ [')'] = _
      rw [hname.toList, List.append_assoc]
      rfl
    rw [hprinted]
    exact .emptyFunctional trivia_nil (hname.again_cons (List.cons_ne_nil _ _) (by decide))
  | @opening name x ts _ hts hname htight hr =>
    have hfollows := hk rfl
    have hprinted : (Component.opening name).chars = ':' :: (x ++ '(' :: []) := by
      change name.toList ++ ['('] = _
      rw [hname.toList]
      rfl
    rw [hprinted]
    exact .opening trivia_nil (hname.again_cons (List.cons_ne_nil _ _) (by decide))
      (hfollows.tight htight) (hfollows.closing htight hr)
  | nesting => exact .nesting
  | @string quote inner _ hquote hinner =>
    have hprinted : (Component.node (.leaf .string (String.ofList (quote :: inner)))).chars
        = quote :: inner := by
      change (String.ofList (quote :: inner)).toList = _
      exact String.toList_ofList
    rw [hprinted]
    exact .string hquote hinner
  | universal hbar => exact .universal ((hk rfl).bar hbar)
  | @anyElement t x _ ht =>
    change ComponentAt _ (Tree.chars _) k
    rw [ht.chars]
    exact .anyElement (ht.again (hk ht.not_combinator))
  | tag hname hbar => exact .tag (hname.follows (hk rfl)) ((hk rfl).bar hbar)
  | @element first t x _ hfirst ht =>
    have hprinted : (Component.node t).chars = first.toList ++ '|' :: x := by
      change t.chars = _
      rw [ht.chars]
      simp [Namespace.chars]
    rw [hprinted]
    exact .element (hfirst.again_cons (List.cons_ne_nil _ _) (by decide))
      (ht.again (hk ht.not_combinator))

def bars (cs : List Char) : Nat :=
  cs.count '|'

@[simp] theorem bars_append (a b : List Char) : bars (a ++ b) = bars a + bars b :=
  List.count_append

@[simp] theorem bars_nil : bars [] = 0 :=
  rfl

theorem bars_bar (cs : List Char) : bars ('|' :: cs) = bars cs + 1 :=
  List.count_cons_self

theorem bars_other {c : Char} (hc : c ≠ '|') (cs : List Char) : bars (c :: cs) = bars cs :=
  List.count_cons_of_ne hc

/-- A printed attribute name has fewer bars than it was spelled with, or begins as it did. -/
theorem AttributeNameAt.bars_printed {ns : Option Namespace} {name : String} {m : Match} {n r : List Char}
    (h : AttributeNameAt ns name n r) (ht : Tight (n ++ r)) :
    bars (prefixChars ns ++ name.toList) < bars n ∨
      bars (prefixChars ns ++ name.toList) = bars n ∧
        Label.Sheltered ⟨.attribute m, name, ns⟩ := by
  cases h with
  | any hname => exact .inr ⟨rfl, rfl⟩
  | barred hname =>
    refine .inl ?_
    change bars name.toList < bars ('|' :: name.toList)
    rw [bars_bar]
    exact Nat.lt_succ_self _
  | prefixed =>
    refine .inr ⟨?_, rfl⟩
    simp [prefixChars, Namespace.chars]
  | plain hname =>
    refine .inr ⟨rfl, ?_⟩
    obtain ⟨c, rest, hn, hc⟩ := hname.head
    rw [hn] at ht
    simpa [Label.Sheltered, Label.exposed, Label.isAttribute, hn] using ht.head_not_blank

theorem MatchAt.bars_printed {m : Match} {o r : List Char} (h : MatchAt m o r) : bars m.chars ≤ bars o := by
  cases h with
  | presence => exact Nat.le_refl 0
  | full hoperator hts₁ htight₁ hvalue hts₂ htight₂ hflag =>
    cases hflag with
    | absent =>
      simp only [Match.chars, bars_append, hvalue.toList, bars_nil]
      omega
    | present hname =>
      simp only [Match.chars, bars_append, hvalue.toList,
        bars_other (show ' ' ≠ '|' by decide)]
      omega

theorem AttributeAt.bars_printed {t : Tree} {x r : List Char} (h : AttributeAt t x r) :
    bars t.chars < bars ('[' :: x) ∨ bars t.chars ≤ bars ('[' :: x) ∧ t.All Label.Sheltered := by
  cases h with
  | @intro ns name m n o ts₁ ts₂ _ hts₁ htight₁ hname hts₂ htight₂ hmatch =>
    have ho := hmatch.bars_printed
    rw [attribute_chars]
    simp only [bars_other (show '[' ≠ '|' by decide), bars_append (prefixChars ns ++ name.toList),
      bars_append m.chars, bars_append ts₁, bars_append n, bars_append ts₂, bars_append o]
    rcases hname.bars_printed (m := m) htight₁ with hlt | ⟨heq, hsheltered⟩
    · exact .inl (by omega)
    · exact .inr ⟨by omega, .childless hsheltered⟩

theorem ElementAt.sheltered {ns : Namespace} {t : Tree} {x r : List Char} (h : ElementAt ns t x r) :
    t.All Label.Sheltered := by
  cases h with
  | universal => exact .childless rfl
  | tag => exact .childless rfl

/-- Printing adds no bar, and drops one where a name loses the bar it stood behind. -/
theorem ComponentAt.bars_printed {comp : Component} {x r : List Char} (h : ComponentAt comp x r) :
    bars comp.chars < bars x ∨ bars comp.chars ≤ bars x ∧ comp.All Label.Sheltered := by
  cases h with
  | @combinator c _ hc =>
    refine .inr ⟨Nat.le_of_eq (congrArg bars ?_), .childless rfl⟩
    exact String.toList_singleton c
  | className hname => exact .inr ⟨Nat.le_refl _, .childless rfl⟩
  | idName hname => exact .inr ⟨Nat.le_refl _, .childless rfl⟩
  | bracket ht => exact ht.bars_printed
  | pseudo hname hr =>
    exact .inr ⟨Nat.le_of_eq (congrArg bars hname.toList), .childless rfl⟩
  | @emptyFunctional name x ts _ hts hname =>
    refine .inr ⟨?_, .childless rfl⟩
    change bars (name.toList ++ ['('] ++ [')']) ≤ _
    rw [hname.toList]
    simp [bars_other]
  | @opening name x ts _ hts hname htight hr =>
    refine .inr ⟨?_, trivial⟩
    change bars (name.toList ++ ['(']) ≤ _
    rw [hname.toList]
    simp [bars_other]
  | nesting => exact .inr ⟨Nat.le_refl _, .childless rfl⟩
  | string hquote hinner =>
    exact .inr ⟨Nat.le_of_eq (congrArg bars String.toList_ofList), .childless rfl⟩
  | universal hbar => exact .inr ⟨Nat.le_refl _, .childless rfl⟩
  | anyElement ht =>
    exact .inr ⟨Nat.le_of_eq (congrArg bars ht.chars), ht.sheltered⟩
  | tag hname hbar => exact .inr ⟨Nat.le_refl _, .childless rfl⟩
  | @element first t x _ hfirst ht =>
    refine .inr ⟨Nat.le_of_eq (congrArg bars ?_), ht.sheltered⟩
    change t.chars = _
    rw [ht.chars]
    simp [Namespace.chars]

end ScopedStyles.Selector
