import ScopedStyles.Proofs.Selector.Spelling.Exact

namespace ScopedStyles.Selector

variable {front nodes : List Tree} {later : List (List Tree)} {t : Tree} {k : List Char}

/-- The printed form of the node can stand in a spelling. -/
def Puts (t : Tree) : Prop :=
  ∀ ⦃front pre nodes later g k⦄, Filler g → Apart front g → Gap front t pre g →
    Spells (t :: (pre ++ front)) nodes later k →
    Spells front (pre ++ t :: nodes) later (g ++ (t.chars ++ k))

theorem puts_of_text (h : NodeText t t.chars) : Puts t :=
  fun _ _ _ _ _ _ hg hapart hgap hrest => .node hg hapart hgap h hrest

theorem apart_nil (front : List Tree) : Apart front [] :=
  fun _ _ _ => nofun

theorem filler_blank : Filler [' '] :=
  .blank (by decide) .nil

theorem endsName_blank : EndsName [' '] :=
  endsName_cons (by decide) []

theorem spells_nodes (hrest : ∀ front, Spells front [] later k)
    (hputs : ∀ t ∈ nodes, t ≠ space → Puts t) (hordered : Ordered (front.reverse ++ nodes)) :
    Spells front nodes later (compoundChars nodes ++ k) := by
  induction hn : nodes.length using Nat.strong_induction_on generalizing front nodes with
  | _ n ih =>
    subst hn
    cases nodes with
    | nil => exact hrest front
    | cons t nodes =>
      by_cases ht : t = space
      · subst ht
        -- the space is printed with the node behind it
        cases nodes with
        | nil => exact (hordered.last (by simp)).elim
        | cons u nodes =>
          have hu : u ≠ space := by
            cases front with
            | nil => exact (hordered.first rfl).elim
            | cons last before =>
              have hsplit : (last :: before).reverse ++ space :: u :: nodes =
                  before.reverse ++ last :: space :: u :: nodes := by simp
              exact (hordered.afterSpace hsplit).2.1
          have hwhole : front.reverse ++ space :: u :: nodes =
              (u :: ([space] ++ front)).reverse ++ nodes := by simp
          rw [hwhole] at hordered
          have hmem := List.mem_cons_of_mem space (List.mem_cons_self (a := u) (l := nodes))
          have hnext := ih nodes.length (by simp only [List.length_cons]; omega)
            (fun v hv => hputs v (List.mem_cons_of_mem _ (List.mem_cons_of_mem _ hv))) hordered rfl
          have hchars : compoundChars (space :: u :: nodes) ++ k =
              [' '] ++ (u.chars ++ (compoundChars nodes ++ k)) := by
            rw [← List.append_assoc u.chars]
            rfl
          rw [hchars]
          exact hputs u hmem hu filler_blank (fun _ _ _ => endsName_blank)
            (.spaced (List.cons_ne_nil _ _)) hnext
      · have hwhole : front.reverse ++ t :: nodes = (t :: ([] ++ front)).reverse ++ nodes := by simp
        rw [hwhole] at hordered
        have hnext := ih nodes.length (by simp)
          (fun u hu => hputs u (List.mem_cons_of_mem _ hu)) hordered rfl
        have hchars : compoundChars (t :: nodes) ++ k =
            [] ++ (t.chars ++ (compoundChars nodes ++ k)) := List.append_assoc _ _ _
        rw [hchars]
        exact hputs t List.mem_cons_self ht .nil (apart_nil front) .tight hnext

theorem spells_selectors (hputs : ∀ ns ∈ nodes :: later, ∀ t ∈ ns, t ≠ space → Puts t)
    (hordered : ∀ ns ∈ nodes :: later, Ordered ns) :
    Spells [] nodes later (listChars ((nodes :: later).map .selector)) := by
  induction later generalizing nodes with
  | nil =>
    have hrest : ∀ front, Spells front [] [] [] := fun front => .done .nil (apart_nil front)
    exact spells_nodes hrest (hputs nodes List.mem_cons_self) (hordered nodes List.mem_cons_self)
  | cons next later ih =>
    have hnext := ih (fun ns hns => hputs ns (List.mem_cons_of_mem _ hns))
      fun ns hns => hordered ns (List.mem_cons_of_mem _ hns)
    exact spells_nodes (fun front => .comma .nil (apart_nil front) hnext)
      (hputs nodes List.mem_cons_self) (hordered nodes List.mem_cons_self)

theorem CanonicalMatch.text {m : Match} (h : CanonicalMatch m) : MatchText m m.chars := by
  cases h with
  | presence => exact .presence
  | @full operator value flag _ _ _ =>
    cases flag with
    | none =>
      have hchars : Match.chars ⟨some operator, some value, none⟩ =
          operator.toList ++ ([] ++ (value.toList ++ [])) := by simp [Match.chars]
      rw [hchars]
      exact .unflagged .nil .nil (.inr endsName_nil)
    | some flag =>
      have hchars : Match.chars ⟨some operator, some value, some flag⟩ =
          operator.toList ++ ([] ++ (value.toList ++ ([' '] ++ (flag.toList ++ [])))) := by
        simp [Match.chars]
      rw [hchars]
      exact .flagged .nil filler_blank (.inr ⟨List.cons_ne_nil _ _, endsName_blank⟩) .nil endsName_nil

theorem CanonicalNode.puts (h : CanonicalNode t) (ht : t ≠ space) : Puts t := by
  induction h with
  | tag => exact puts_of_text (.printed rfl)
  | universal => exact puts_of_text (.printed rfl)
  | className => exact puts_of_text (.printed rfl)
  | idName => exact puts_of_text (.printed rfl)
  | @bracket m name ns _ _ hm =>
    apply puts_of_text
    have hchars : (Tree.node ⟨.attribute m, name, ns⟩ []).chars =
        '[' :: ([] ++ ((prefixChars ns ++ name.toList) ++ ([] ++ (m.chars ++ [']'])))) := by
      simp [Tree.chars, Label.chars]
    rw [hchars]
    exact .bracket .nil (.printed ns name) .nil endsName_nil hm.text
  | pseudo => exact puts_of_text (.printed rfl)
  | @functional name args _ hargs _ ih =>
    cases args with
    | nil =>
      apply puts_of_text
      have hchars : (Tree.functional name []).chars = name.toList ++ '(' :: ([] ++ [')']) :=
        List.append_assoc _ _ _
      exact hchars ▸ .emptyFunctional .nil
    | cons first args =>
      intro front pre nodes later g k hg hapart hgap hrest
      have hinner := spells_selectors ih fun ns hns => (hargs ns hns).2
      have hchars : (Tree.functional name ((first :: args).map .selector)).chars ++ k =
          name.toList ++ '(' :: (listChars ((first :: args).map .selector) ++ ')' :: k) := by
        simp [Tree.functional, Tree.chars, Label.chars]
      rw [hchars]
      exact .functional hg hapart hgap hinner hrest
  | nesting => exact puts_of_text (.printed rfl)
  | string => exact puts_of_text (.printed rfl)
  | @combinator c hc =>
    have hfixed : ∀ d ∈ ['>', '+', '~', '|'],
        (Tree.leaf .combinator d.toString).isFixed = true := by
      rw [← List.forall_iff_forall_mem]
      decide
    rcases List.mem_cons.1 hc with rfl | hc
    · exact (ht rfl).elim
    · exact puts_of_text (.printed (hfixed c hc))

theorem Canonical.printed (h : Canonical t) : Spelled t t.render := by
  cases h with
  | @root selectors hsome hselectors =>
    cases selectors with
    | nil => exact (hsome rfl).elim
    | cons first later =>
      have hspells := spells_selectors
        (fun ns hns t ht hne => ((hselectors ns hns).nodes t ht).puts hne)
        fun ns hns => (hselectors ns hns).ordered
      apply Spelled.root
      have hchars : (Tree.root ((first :: later).map .selector)).render.toList =
          listChars ((first :: later).map .selector) := String.toList_ofList
      rw [hchars]
      exact hspells

/-- The texts that are read as a canonical list of selectors are its spellings: its printed form, and
what is left of that when filler is put in where it says nothing, takes the place of the space that
stands for a combinator, or is left out where it says nothing. -/
theorem canonical_spellings (ht : Canonical t) :
    (∀ text, parse text = .ok t ↔ Spelled t text) ∧ Spelled t t.render :=
  ⟨fun _ => ⟨spelled_of_parse, fun h => h.parse ht⟩, ht.printed⟩

def descendant : List Tree :=
  [.leaf .tag "a", space, .leaf .tag "b"]

theorem canonical_descendant : Canonical (.root ([descendant].map .selector)) := by
  have hname : ∀ {c : Char}, isNameChar c = true → c ≠ '\\' → isBlank c = false → IsName [c] := by
    intro c hc hslash hblank
    refine ⟨List.cons_ne_nil _ _, .char hc hslash .nil, ?_⟩
    intro d hd
    cases hd
    exact hblank
  have hordered : Ordered descendant := by
    have hlength : ∀ {front later : List Tree}, descendant = front ++ later →
        front.length + later.length = 3 := by
      intro front later hsplit
      rw [← List.length_append, ← hsplit]
      rfl
    refine ⟨nofun, nofun, ?_, ?_, ?_⟩
    · intro front later t u hsplit
      rcases front with _ | ⟨v, front⟩
      · cases hsplit
        exact ⟨rfl, nofun, rfl⟩
      · have hthree := hlength hsplit
        simp only [List.length_cons] at hthree
        omega
    · intro front later t u hsplit hends
      rcases front with _ | ⟨v, _ | ⟨w, front⟩⟩
      · cases hsplit
        rfl
      · cases hsplit
        cases hends
      · have hthree := hlength hsplit
        simp only [List.length_cons] at hthree
        omega
    · intro front later t hsplit
      rcases front with _ | ⟨v, _ | ⟨w, front⟩⟩
      · have hspace := (List.cons.inj (List.cons.inj hsplit).2).1
        exact (bar_ne_space hspace.symm).elim
      · cases hsplit
      · have hthree := hlength hsplit
        simp only [List.length_cons] at hthree
        omega
  apply Canonical.root (List.cons_ne_nil _ _)
  intro nodes hnodes
  rw [List.mem_singleton] at hnodes
  subst hnodes
  refine ⟨List.cons_ne_nil _ _, hordered, ?_⟩
  intro t ht
  simp only [descendant, List.mem_cons, List.not_mem_nil, or_false] at ht
  rcases ht with rfl | rfl | rfl
  · exact .tag .none (hname rfl (by decide) rfl)
  · exact .combinator (c := ' ') (by decide)
  · exact .tag .none (hname rfl (by decide) rfl)

theorem canonical_spellings_descendant :
    Canonical (.root ([descendant].map .selector)) ∧
      Spelled (.root ([descendant].map .selector)) "a/**/ b\n" ∧
      parse "a/**/ b\n" = .ok (.root ([descendant].map .selector)) := by
  have hspelled : Spelled (.root ([descendant].map .selector)) "a/**/ b\n" := by
    have hend : Spells [.leaf .tag "b", space, .leaf .tag "a"] [] [] ['\n'] :=
      .done (.blank (by decide) .nil) fun _ _ _ c hc => by cases hc; rfl
    have hbody : ¬ ['*', '/'] <:+: ([] : List Char) := by decide
    have hgap : Filler ['/', '*', '*', '/', ' '] := .comment hbody filler_blank
    have hb : Spells [.leaf .tag "a"] ([space] ++ [.leaf .tag "b"]) []
        (['/', '*', '*', '/', ' '] ++ (['b'] ++ ['\n'])) :=
      .node hgap (fun _ _ _ c hc => by cases hc; rfl) (.spaced (List.cons_ne_nil _ _))
        (.printed rfl) hend
    exact .root (.node .nil (apart_nil []) .tight (.printed rfl) hb)
  exact ⟨canonical_descendant, hspelled,
    ((canonical_spellings canonical_descendant).1 _).2 hspelled⟩

end ScopedStyles.Selector
