import ScopedStyles.Proofs.Selector.Canonical

namespace ScopedStyles.Selector

inductive NameText : Option Namespace → String → List Char → Prop where
  | printed (ns : Option Namespace) (name : String) :
      NameText ns name (prefixChars ns ++ name.toList)
  | barred (name : String) : NameText none name ('|' :: name.toList)

/-- Filler stands on both sides of a value. Behind a name it may not go on with the name. -/
inductive MatchText : Match → List Char → Prop where
  | presence : MatchText .presence []
  | unflagged {operator value : String} {g₁ g₂ : List Char} (hg₁ : Filler g₁) (hg₂ : Filler g₂)
      (hapart : IsString value.toList ∨ EndsName g₂) :
      MatchText ⟨some operator, some value, none⟩ (operator.toList ++ (g₁ ++ (value.toList ++ g₂)))
  | flagged {operator value flag : String} {g₁ g₂ g₃ : List Char} (hg₁ : Filler g₁) (hg₂ : Filler g₂)
      (hapart : IsString value.toList ∨ g₂ ≠ [] ∧ EndsName g₂) (hg₃ : Filler g₃)
      (hends : EndsName g₃) :
      MatchText ⟨some operator, some value, some flag⟩
        (operator.toList ++ (g₁ ++ (value.toList ++ (g₂ ++ (flag.toList ++ g₃)))))

def Tree.isFixed (t : Tree) : Bool :=
  match t.label.kind with
  | .tag | .universal | .className | .idName | .pseudo false | .nesting | .string => true
  | .combinator => t.label.value != " "
  | _ => false

inductive NodeText : Tree → List Char → Prop where
  | printed {t : Tree} (ht : t.isFixed = true) : NodeText t t.chars
  | bracket {m : Match} {name : String} {ns : Option Namespace} {g₁ n g₂ o : List Char}
      (hg₁ : Filler g₁) (hn : NameText ns name n) (hg₂ : Filler g₂) (hends : EndsName g₂)
      (ho : MatchText m o) :
      NodeText (.node ⟨.attribute m, name, ns⟩ []) ('[' :: (g₁ ++ (n ++ (g₂ ++ (o ++ [']'])))))
  | emptyFunctional {name : String} {g : List Char} (hg : Filler g) :
      NodeText (.functional name []) (name.toList ++ '(' :: (g ++ [')']))

/-- Filler in front of `t` makes no combinator: `t` stands at the front, or a combinator stands on one
of its sides. Two bars behind a plain tag or universal stay together. -/
inductive Free : List Tree → Tree → Prop where
  | front (t : Tree) : Free [] t
  | relation (front : List Tree) {t : Tree} (ht : t.isRelation = true) : Free front t
  | combinator {last t : Tree} {before : List Tree} (hlast : last.label.isCombinator = true)
      (hbars : ¬ (last = bar ∧ t = bar ∧ before.head?.any Tree.isPlain = true)) :
      Free (last :: before) t

/-- Behind `front`, newest first, the filler `g` in front of `t` stands for the nodes `pre`. -/
inductive Gap (front : List Tree) (t : Tree) : List Tree → List Char → Prop where
  | tight : Gap front t [] []
  | free {g : List Char} (h : Free front t) : Gap front t [] g
  | spaced {g : List Char} (h : g ≠ []) : Gap front t [space] g

def Apart (front : List Tree) (g : List Char) : Prop :=
  ∀ last ∈ front.head?, last.endsInName = true → EndsName g

/-- Behind `front`, newest first, the text spells the nodes that are left of a selector and the
selectors `later`. -/
inductive Spells : List Tree → List Tree → List (List Tree) → List Char → Prop where
  | done {front : List Tree} {g : List Char} (hg : Filler g) (hapart : Apart front g) :
      Spells front [] [] g
  | comma {front nodes : List Tree} {later : List (List Tree)} {g k : List Char} (hg : Filler g)
      (hapart : Apart front g) (h : Spells [] nodes later k) :
      Spells front [] (nodes :: later) (g ++ ',' :: k)
  | node {front pre nodes : List Tree} {t : Tree} {later : List (List Tree)} {g x k : List Char}
      (hg : Filler g) (hapart : Apart front g) (hgap : Gap front t pre g) (hx : NodeText t x)
      (h : Spells (t :: (pre ++ front)) nodes later k) :
      Spells front (pre ++ t :: nodes) later (g ++ (x ++ k))
  | functional {front pre nodes first : List Tree} {name : String} {args later : List (List Tree)}
      {g y k : List Char} (hg : Filler g) (hapart : Apart front g)
      (hgap : Gap front (.functional name ((first :: args).map .selector)) pre g)
      (hy : Spells [] first args y)
      (h : Spells (.functional name ((first :: args).map .selector) :: (pre ++ front)) nodes later k) :
      Spells front (pre ++ .functional name ((first :: args).map .selector) :: nodes) later
        (g ++ (name.toList ++ '(' :: (y ++ ')' :: k)))

inductive Spelled : Tree → String → Prop where
  | root {first : List Tree} {later : List (List Tree)} {text : String}
      (h : Spells [] first later text.toList) :
      Spelled (.root ((first :: later).map .selector)) text

section Heads

variable {t : Tree} {c : Char} {g k n r x : List Char}

theorem endsName_append (hg : EndsName g) (hk : EndsName k) : EndsName (g ++ k) := by
  cases g with
  | nil => exact hk
  | cons c g => exact hg

theorem prefixChars_named (first : String) (x : List Char) :
    prefixChars (some (.named first)) ++ x = first.toList ++ '|' :: x :=
  List.append_assoc _ _ _

theorem Filler.afterBar (h : Filler g) (hk : afterBar? k = none) : afterBar? (g ++ k) = none := by
  cases g with
  | nil => exact hk
  | cons c g => exact afterBar?_of_head (h.head_ne rfl (by decide))

structure Starts (t : Tree) (c : Char) : Prop where
  notBlank : isBlank c = false
  notMark : c ≠ '/' ∧ c ≠ ',' ∧ c ≠ '(' ∧ c ≠ ')'
  name : isNameChar c = true → t.beginsWithName = true
  barred : c = '|' → t = bar
  relation : isRelation c = t.isRelation

theorem starts_of_name (hc : isNameChar c = true) (hblank : isBlank c = false)
    (hbegins : t.beginsWithName = true) (hrelation : t.isRelation = false) : Starts t c := by
  have hne : ∀ {d}, isNameChar d = false → c ≠ d := by
    intro d hd heq
    rw [heq, hd] at hc
    cases hc
  refine ⟨hblank, ⟨hne rfl, hne rfl, hne rfl, hne rfl⟩, fun _ => hbegins,
    fun hbar => (hne rfl hbar).elim, ?_⟩
  rw [hrelation]
  simp only [isRelation, Bool.or_eq_false_iff, beq_eq_false_iff_ne]
  exact ⟨⟨hne rfl, hne rfl⟩, hne rfl⟩

theorem starts_of_mark (hc : c ∈ ['.', '#', '[', ':', '&', '*', '"', '\''])
    (hrelation : t.isRelation = false) : Starts t c := by
  have hmarks : ∀ d ∈ ['.', '#', '[', ':', '&', '*', '"', '\''], isBlank d = false ∧
      (d ≠ '/' ∧ d ≠ ',' ∧ d ≠ '(' ∧ d ≠ ')') ∧ isNameChar d = false ∧ d ≠ '|' ∧
      isRelation d = false := by
    rw [← List.forall_iff_forall_mem]
    decide
  obtain ⟨hblank, hmark, hname, hbar, hrelation'⟩ := hmarks c hc
  refine ⟨hblank, hmark, ?_, fun h => (hbar h).elim, hrelation'.trans hrelation.symm⟩
  intro h
  rw [hname] at h
  cases h

theorem isQuote_mem (hc : isQuote c = true) : c ∈ ['.', '#', '[', ':', '&', '*', '"', '\''] := by
  simp only [isQuote, Bool.or_eq_true, beq_iff_eq] at hc
  rcases hc with rfl | rfl
  · decide
  · decide

theorem IsPseudoName.colon {name : String} (h : IsPseudoName name) :
    ∃ y, name.toList = ':' :: y := by
  cases h with
  | @single name _ => exact ⟨name.toList, String.toList_append⟩
  | @double name _ => exact ⟨':' :: name.toList, String.toList_append⟩

theorem prefix_starts {ns : Option Namespace} {kind : Kind} {value : String}
    (hkind : kind = .tag ∨ kind = .universal) (hns : Prefixed ns)
    (hx : ns = none → ∃ c y, x = c :: y ∧ Starts (.node ⟨kind, value, ns⟩ []) c) :
    ∃ c y, prefixChars ns ++ x = c :: y ∧ Starts (.node ⟨kind, value, ns⟩ []) c := by
  cases hns with
  | none => exact hx rfl
  | any =>
    refine ⟨'*', '|' :: x, rfl, starts_of_mark (by decide) ?_⟩
    rcases hkind with rfl | rfl
    · rfl
    · rfl
  | @named first hfirst =>
    obtain ⟨c, y, hy, hc, hblank⟩ := hfirst.starts
    have hany : first ≠ "*" := by
      intro heq
      subst heq
      cases hy
      exact absurd hc (by decide)
    refine ⟨c, y ++ ['|'] ++ x, ?_, starts_of_name hc hblank ?_ ?_⟩
    · change first.toList ++ ['|'] ++ x = _
      rw [hy]
      rfl
    · rcases hkind with rfl | rfl
      · simpa [Tree.beginsWithName, Tree.label] using hany
      · simpa [Tree.beginsWithName, Tree.label] using hany
    · rcases hkind with rfl | rfl
      · rfl
      · rfl

theorem NodeText.parentheses {name : String} {args : List Tree}
    (h : NodeText (.functional name args) x) :
    args = [] ∧ ∃ g, Filler g ∧ x = name.toList ++ '(' :: (g ++ [')']) := by
  generalize htree : Tree.functional name args = t at h
  cases h with
  | printed hfixed =>
    subst htree
    cases hfixed
  | bracket => cases htree
  | @emptyFunctional name g hg =>
    cases htree
    exact ⟨rfl, g, hg, rfl⟩

theorem NodeText.starts (ht : CanonicalNode t) (hx : NodeText t x) :
    ∃ c y, x = c :: y ∧ Starts t c := by
  cases ht with
  | @tag ns name hns hname =>
    cases hx with
    | printed =>
      apply prefix_starts (.inl rfl) hns
      rintro rfl
      obtain ⟨c, y, hy, hc, hblank⟩ := hname.starts
      exact ⟨c, y, hy, starts_of_name hc hblank rfl rfl⟩
  | @universal ns hns =>
    cases hx with
    | printed =>
      apply prefix_starts (.inr rfl) hns
      rintro rfl
      exact ⟨'*', [], rfl, starts_of_mark (by decide) rfl⟩
  | className =>
    cases hx with
    | printed => exact ⟨'.', _, rfl, starts_of_mark (by decide) rfl⟩
  | idName =>
    cases hx with
    | printed => exact ⟨'#', _, rfl, starts_of_mark (by decide) rfl⟩
  | bracket =>
    cases hx with
    | printed hfixed => cases hfixed
    | bracket => exact ⟨'[', _, rfl, starts_of_mark (by decide) rfl⟩
  | pseudo hname =>
    obtain ⟨y, hy⟩ := hname.colon
    cases hx with
    | printed => exact ⟨':', y, hy, starts_of_mark (by decide) rfl⟩
  | functional hname =>
    obtain ⟨y, hy⟩ := hname.colon
    obtain ⟨-, g, -, rfl⟩ := hx.parentheses
    rw [hy]
    exact ⟨':', _, rfl, starts_of_mark (by decide) rfl⟩
  | nesting =>
    cases hx with
    | printed => exact ⟨'&', [], rfl, starts_of_mark (by decide) rfl⟩
  | string htext =>
    obtain ⟨quote, inner, rfl, hquote, -⟩ := htext.quotes
    cases hx with
    | printed =>
      exact ⟨quote, inner, String.toList_ofList, starts_of_mark (isQuote_mem hquote) rfl⟩
  | @combinator c hc =>
    cases hx with
    | printed hfixed =>
      have hbar : c = '|' → Tree.leaf .combinator c.toString = bar := by
        rintro rfl
        rfl
      have hrelation : ∀ d ∈ [' ', '>', '+', '~', '|'],
          (Tree.leaf .combinator d.toString).isFixed = true → isBlank d = false ∧
          (d ≠ '/' ∧ d ≠ ',' ∧ d ≠ '(' ∧ d ≠ ')') ∧ isNameChar d = false ∧
          isRelation d = (Tree.leaf .combinator d.toString).isRelation := by
        rw [← List.forall_iff_forall_mem]
        decide
      obtain ⟨hblank, hmark, hname, hrelation'⟩ := hrelation c hc hfixed
      refine ⟨c, [], String.toList_singleton c, hblank, hmark, ?_, hbar, hrelation'⟩
      intro h
      rw [hname] at h
      cases h

/-- What may stand behind a node. -/
structure Behind (t : Tree) (r : List Char) : Prop where
  name : t.endsInName = true → EndsName r
  bar : t.isPlain = true → afterBar? r = none
  parenthesis : r.head? ≠ some '('

theorem IsString.tight (h : IsString x) (k : List Char) : Tight (x ++ k) := by
  cases h with
  | quoted hquote =>
    simp only [isQuote, Bool.or_eq_true, beq_iff_eq] at hquote
    rcases hquote with rfl | rfl
    · exact tight_cons (by decide) (by decide) _
    · exact tight_cons (by decide) (by decide) _

theorem tight_bracket (r : List Char) : Tight (']' :: r) :=
  tight_cons (by decide) (by decide) r

theorem endsName_bracket (r : List Char) : EndsName (']' :: r) :=
  endsName_cons (by decide) r

theorem valueAt {value : String} (h : IsName value.toList ∨ IsString value.toList)
    (hr : IsString value.toList ∨ EndsName r) : ValueAt value value.toList r := by
  have hstring : IsString value.toList → ValueAt value value.toList r := by
    intro hstring
    obtain ⟨quote, inner, rfl, hquote, hinner⟩ := hstring.quotes
    rw [String.toList_ofList]
    exact .quoted hquote (hinner.quoted hquote)
  rcases hr with hvalue | hends
  · exact hstring hvalue
  · rcases h with hname | hvalue
    · exact .name (hname.before hends)
    · exact hstring hvalue

theorem MatchText.at {m : Match} {o : List Char} (hm : CanonicalMatch m) (ho : MatchText m o) :
    MatchAt m o (']' :: r) := by
  cases ho with
  | presence => exact .presence rfl
  | @unflagged operator value g₁ g₂ hg₁ hg₂ hapart =>
    cases hm with
    | full hoperator hvalue _ =>
      have hends : IsString value.toList ∨ EndsName (g₂ ++ ']' :: r) :=
        hapart.imp_right fun h => endsName_append h (endsName_bracket r)
      have htight : Tight (value.toList ++ (g₂ ++ ']' :: r)) :=
        hvalue.elim (fun h => h.tight _) fun h => h.tight _
      have hmatch : MatchAt ⟨some operator, some value, none⟩
          (operator.toList ++ (g₁ ++ (value.toList ++ (g₂ ++ ([] ++ []))))) (']' :: r) :=
        .full hoperator hg₁.trivia htight (valueAt hvalue hends) hg₂.trivia (tight_bracket r)
          (.absent (endsName_bracket r)) trivia_nil (tight_bracket r)
      rwa [List.append_nil, List.append_nil] at hmatch
  | @flagged operator value flag g₁ g₂ g₃ hg₁ hg₂ hapart hg₃ hends =>
    cases hm with
    | full hoperator hvalue hflag =>
      have hname := hflag flag rfl
      have hends' : IsString value.toList ∨ EndsName (g₂ ++ (flag.toList ++ (g₃ ++ ']' :: r))) := by
        refine hapart.imp_right ?_
        rintro ⟨hne, h⟩
        cases g₂ with
        | nil => exact (hne rfl).elim
        | cons c g₂ => exact h
      have htight : Tight (value.toList ++ (g₂ ++ (flag.toList ++ (g₃ ++ ']' :: r)))) :=
        hvalue.elim (fun h => h.tight _) fun h => h.tight _
      exact .full hoperator hg₁.trivia htight (valueAt hvalue hends') hg₂.trivia (hname.tight _)
        (.present (hname.before (endsName_append hends (endsName_bracket r)))) hg₃.trivia
        (tight_bracket r)

theorem MatchText.front {m : Match} {o : List Char} (hm : CanonicalMatch m) (ho : MatchText m o)
    (r : List Char) : EndsName (o ++ ']' :: r) ∧ afterBar? (o ++ ']' :: r) = none ∧
      Tight (o ++ ']' :: r) := by
  have hoperators : ∀ operator ∈ ["=", "~=", "|=", "^=", "$=", "*="], ∀ k,
      EndsName (operator.toList ++ k) ∧ afterBar? (operator.toList ++ k) = none ∧
        Tight (operator.toList ++ k) := by
    intro operator hoperator k
    simp only [List.mem_cons, List.not_mem_nil, or_false] at hoperator
    rcases hoperator with rfl | rfl | rfl | rfl | rfl | rfl
    all_goals
      exact ⟨endsName_cons (by decide) _, rfl, tight_cons (by decide) (by decide) _⟩
  cases ho with
  | presence => exact ⟨endsName_bracket r, rfl, tight_bracket r⟩
  | unflagged =>
    cases hm with
    | full hoperator =>
      rw [List.append_assoc]
      exact hoperators _ hoperator _
  | flagged =>
    cases hm with
    | full hoperator =>
      rw [List.append_assoc]
      exact hoperators _ hoperator _

theorem NameText.at {ns : Option Namespace} {name : String} (hns : Prefixed ns)
    (hname : IsName name.toList) (hx : NameText ns name x) (hr : EndsName r)
    (hbar : afterBar? r = none) : AttributeNameAt ns name x r ∧ Tight (x ++ r) := by
  have hbefore := hname.before hr
  cases hx with
  | barred => exact ⟨.barred hbefore, tight_cons (by decide) (by decide) _⟩
  | printed =>
    cases hns with
    | none => exact ⟨.plain hbefore hbar, hname.tight r⟩
    | any => exact ⟨.any hbefore, tight_cons (by decide) (by decide) _⟩
    | @named first hfirst =>
      have hends := endsName_cons (c := '|') (by decide) (name.toList ++ r)
      rw [prefixChars_named]
      refine ⟨.prefixed (hfirst.before hends) hbefore, ?_⟩
      rw [List.append_assoc]
      exact hfirst.tight _

theorem prefixed_at {ns : Option Namespace} (hns : Prefixed ns)
    (hplain : ns = none → ComponentAt (.node t) x r)
    (ht : ∀ p, ns = some (.named p) → ElementAt (.named p) t x r) :
    ComponentAt (.node t) (prefixChars ns ++ x) r := by
  cases hns with
  | none => exact hplain rfl
  | any => exact .anyElement (ht "*" rfl)
  | @named first hfirst =>
    have hends := endsName_cons (c := '|') (by decide) (x ++ r)
    rw [prefixChars_named]
    exact .element (hfirst.before hends) (ht first rfl)

theorem CanonicalNode.functional_name {name : String} {args : List Tree}
    (h : CanonicalNode (.functional name args)) : IsPseudoName name := by
  generalize htree : Tree.functional name args = t at h
  cases h with
  | functional hname =>
    obtain ⟨heq, -⟩ := Tree.node.inj htree
    cases heq
    exact hname
  | _ => cases htree

theorem IsPseudoName.at {name : String} (h : IsPseudoName name) (hr : EndsName r) :
    ∃ y, name.toList = ':' :: y ∧ PseudoNameAt name y r := by
  cases h with
  | @single name hname => exact ⟨name.toList, String.toList_append, .single (hname.before hr)⟩
  | @double name hname =>
    exact ⟨':' :: name.toList, String.toList_append, .double (hname.before hr)⟩

theorem NodeText.at (ht : CanonicalNode t) (hx : NodeText t x) (hr : Behind t r) :
    ComponentAt (.node t) x r := by
  cases ht with
  | @tag ns name hns hname =>
    have hbefore := hname.before (hr.name rfl)
    cases hx with
    | printed =>
      apply prefixed_at hns
      · rintro rfl
        exact .tag hbefore (hr.bar rfl)
      · rintro p rfl
        exact .tag hbefore
  | @universal ns hns =>
    cases hx with
    | printed =>
      apply prefixed_at hns
      · rintro rfl
        exact .universal (hr.bar rfl)
      · rintro p rfl
        exact .universal r
  | className hname =>
    cases hx with
    | printed => exact .className (hname.before (hr.name rfl))
  | idName hname =>
    cases hx with
    | printed => exact .idName (hname.before (hr.name rfl))
  | bracket hns hname hm =>
    cases hx with
    | printed hfixed => cases hfixed
    | @bracket m name ns g₁ n g₂ o hg₁ hn hg₂ hends ho =>
      obtain ⟨hends', hbar, htight⟩ := ho.front hm r
      obtain ⟨hn', htight'⟩ :=
        hn.at hns hname (endsName_append hends hends') (hg₂.afterBar hbar)
      exact .bracket (.intro hg₁.trivia htight' hn' hg₂.trivia htight (ho.at hm))
  | @pseudo name hname =>
    obtain ⟨y, hy, hname'⟩ := hname.at (hr.name rfl)
    cases hx with
    | printed =>
      have hchars : (Tree.leaf (.pseudo false) name).chars = ':' :: y := hy
      rw [hchars]
      exact .pseudo hname' hr.parenthesis
  | functional hname =>
    obtain ⟨hargs, g, hg, rfl⟩ := hx.parentheses
    rw [hargs]
    obtain ⟨y, hy, hname'⟩ := hname.at (endsName_cons (c := '(') (by decide) (g ++ ')' :: r))
    rw [hy]
    exact .emptyFunctional hg.trivia hname'
  | nesting =>
    cases hx with
    | printed => exact .nesting
  | string htext =>
    obtain ⟨quote, inner, rfl, hquote, hinner⟩ := htext.quotes
    cases hx with
    | printed =>
      have hchars : (Tree.leaf .string (String.ofList (quote :: inner))).chars = quote :: inner :=
        String.toList_ofList
      rw [hchars]
      exact .string hquote (hinner.quoted hquote)
  | @combinator c hc =>
    cases hx with
    | printed hfixed =>
      have hcases : ∀ d ∈ [' ', '>', '+', '~', '|'],
          (Tree.leaf .combinator d.toString).isFixed = true → isRelation d = true ∨ d = '|' := by
        rw [← List.forall_iff_forall_mem]
        decide
      have hchars : (Tree.leaf .combinator c.toString).chars = [c] := String.toList_singleton c
      rw [hchars]
      exact .combinator (hcases c hc hfixed)

/-- Filler may stand behind a node if it does not go on with its name. -/
theorem Behind.gap (hg : Filler g) (hapart : t.endsInName = true → EndsName g)
    (hr : g = [] → Behind t r) : Behind t (g ++ r) := by
  cases g with
  | nil => exact hr rfl
  | cons c g =>
    exact ⟨hapart, fun _ => afterBar?_of_head (hg.head_ne rfl (by decide)),
      hg.head_ne rfl (by decide)⟩

theorem behind_of_mark (hc : isNameChar c = false ∧ c ≠ '|' ∧ c ≠ '(') (k : List Char) :
    Behind t (c :: k) :=
  ⟨fun _ => endsName_cons hc.1 k, fun _ => afterBar?_of_head fun h => hc.2.1 (Option.some.inj h),
    fun h => hc.2.2 (Option.some.inj h)⟩

end Heads

end ScopedStyles.Selector
