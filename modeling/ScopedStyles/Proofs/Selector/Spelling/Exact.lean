import ScopedStyles.Proofs.Selector.Rereading
import ScopedStyles.Proofs.Selector.Spelling.Reading

namespace ScopedStyles.Selector

section Parts

variable {t : Tree} {c : Char} {g k n r x : List Char}

theorem endsName_of_append (h : EndsName (g ++ k)) : EndsName g := by
  cases g with
  | nil => exact nofun
  | cons c g => exact h

theorem Trivia.append (hg : Trivia g) (hk : Trivia k) : Trivia (g ++ k) := by
  intro rest
  rw [List.append_assoc]
  exact (hg _).trans (hk rest)

theorem ValueAt.apart {value : String} (h : ValueAt value x r) :
    value.toList = x ∧ (IsString value.toList ∨ EndsName r) := by
  refine ⟨h.toList, ?_⟩
  cases h with
  | quoted hquote hinner =>
    rw [String.toList_ofList]
    exact .inl (.quoted hquote hinner.body)
  | name hname => exact .inr hname.ends

theorem MatchAt.text {m : Match} (h : MatchAt m x r) : MatchText m x := by
  cases h with
  | presence => exact .presence
  | full _ hts₁ _ hvalue hts₂ _ hflag hts₃ _ =>
    obtain ⟨rfl, hapart⟩ := hvalue.apart
    cases hflag with
    | absent =>
      rw [List.nil_append, ← List.append_assoc] at hapart
      exact .unflagged hts₁.filler (hts₂.append hts₃).filler (hapart.imp_right endsName_of_append)
    | present hname =>
      refine .flagged hts₁.filler hts₂.filler (hapart.imp_right fun hends => ⟨?_, ?_⟩) hts₃.filler
        (endsName_of_append hname.ends)
      · rintro rfl
        obtain ⟨c, f, hf, hc⟩ := hname.head
        rw [hf] at hends
        have hc' := hends c rfl
        rw [hc] at hc'
        cases hc'
      · exact endsName_of_append hends

theorem AttributeNameAt.text {ns : Option Namespace} {name : String}
    (h : AttributeNameAt ns name x r) : NameText ns name x ∧ EndsName r := by
  cases h with
  | any hname => exact ⟨.printed _ _, hname.ends⟩
  | barred hname => exact ⟨.barred _, hname.ends⟩
  | @prefixed first name _ hfirst hname =>
    refine ⟨?_, hname.ends⟩
    rw [← prefixChars_named]
    exact .printed _ _
  | plain hname => exact ⟨.printed _ _, hname.ends⟩

theorem NodeText.of_chars (ht : t.isFixed = true) (hx : t.chars = x) : NodeText t x :=
  hx ▸ .printed ht

theorem ComponentAt.text (h : ComponentAt (.node t) x r) : NodeText t x := by
  cases h with
  | @combinator c _ hc =>
    refine .of_chars ?_ (String.toList_singleton c)
    simp only [isRelation, Bool.or_eq_true, beq_iff_eq] at hc
    rcases hc with ((rfl | rfl) | rfl) | rfl
    all_goals decide
  | className => exact .of_chars rfl rfl
  | idName => exact .of_chars rfl rfl
  | bracket ht =>
    cases ht with
    | intro hts₁ _ hname hts₂ _ hmatch =>
      obtain ⟨hn, hends⟩ := hname.text
      exact .bracket hts₁.filler hn hts₂.filler (endsName_of_append hends) hmatch.text
  | pseudo hname => exact .of_chars rfl hname.toList
  | @emptyFunctional name x ts _ hts hname =>
    have htext : ':' :: (x ++ '(' :: (ts ++ [')'])) = name.toList ++ '(' :: (ts ++ [')']) := by
      rw [hname.toList]
      rfl
    rw [htext]
    exact .emptyFunctional hts.filler
  | nesting => exact .of_chars rfl rfl
  | string => exact .of_chars rfl String.toList_ofList
  | universal => exact .of_chars rfl rfl
  | anyElement ht =>
    cases ht with
    | universal => exact .of_chars rfl rfl
    | tag => exact .of_chars rfl rfl
  | tag => exact .of_chars rfl rfl
  | @element first _ x _ hfirst ht =>
    cases ht with
    | universal => exact .of_chars rfl (prefixChars_named first ['*'])
    | @tag name => exact .of_chars rfl (prefixChars_named first name.toList)

theorem ComponentAt.ends (h : ComponentAt (.node t) x r) :
    (t.endsInName = true → EndsName r) ∧ (t.isPlain = true → afterBar? r = none) := by
  have helement : ∀ {p y}, ElementAt (.named p) t y r →
      (t.endsInName = true → EndsName r) ∧ (t.isPlain = true → afterBar? r = none) := by
    intro p y ht
    cases ht with
    | universal => exact ⟨nofun, nofun⟩
    | tag hname => exact ⟨fun _ => hname.ends, nofun⟩
  cases h with
  | combinator => exact ⟨nofun, nofun⟩
  | className hname => exact ⟨fun _ => hname.ends, nofun⟩
  | idName hname => exact ⟨fun _ => hname.ends, nofun⟩
  | bracket ht =>
    cases ht with
    | intro => exact ⟨nofun, nofun⟩
  | pseudo hname =>
    cases hname with
    | single hname => exact ⟨fun _ => hname.ends, nofun⟩
    | double hname => exact ⟨fun _ => hname.ends, nofun⟩
  | emptyFunctional => exact ⟨nofun, nofun⟩
  | nesting => exact ⟨nofun, nofun⟩
  | string => exact ⟨nofun, nofun⟩
  | universal hbar => exact ⟨nofun, fun _ => hbar⟩
  | anyElement ht => exact helement ht
  | tag hname hbar => exact ⟨fun _ => hname.ends, fun _ => hbar⟩
  | element _ ht => exact helement ht

theorem isRelation_of_isNameChar (hc : isNameChar c = true) : isRelation c = false := by
  cases hrelation : isRelation c with
  | false => rfl
  | true =>
    simp only [isRelation, Bool.or_eq_true, beq_iff_eq] at hrelation
    rcases hrelation with (rfl | rfl) | rfl
    all_goals exact absurd hc (by decide)

/-- A combinator is read from its one character, and nothing else begins with that. -/
theorem ComponentAt.front (h : ComponentAt (.node t) x r) :
    (∀ c ∈ x.head?, isRelation c = t.isRelation) ∧ (t = bar → x = ['|']) := by
  have hmark : ∀ {d : Char} {y : List Char}, isRelation d = t.isRelation →
      ∀ c ∈ (d :: y).head?, isRelation c = t.isRelation := by
    intro d y hd c hc
    cases hc
    exact hd
  have hname : ∀ {m k y : List Char}, NameBefore m k → t.isRelation = false →
      ∀ c ∈ (m ++ y).head?, isRelation c = t.isRelation := by
    intro m k y hm ht
    obtain ⟨d, m, rfl, hd⟩ := hm.head
    exact hmark ((isRelation_of_isNameChar hd).trans ht.symm)
  have hother : t.label.isCombinator = false → t = bar → x = ['|'] := by
    rintro hkind rfl
    cases hkind
  have helement : ∀ {p y}, ElementAt (.named p) t y r →
      t.isRelation = false ∧ t.label.isCombinator = false := by
    intro p y ht
    cases ht with
    | universal => exact ⟨rfl, rfl⟩
    | tag => exact ⟨rfl, rfl⟩
  cases h with
  | @combinator c _ hc =>
    simp only [isRelation, Bool.or_eq_true, beq_iff_eq] at hc
    have hne : ∀ {value : String}, value ≠ "|" → Tree.leaf .combinator value = bar → [c] = ['|'] :=
      fun hvalue heq => (hvalue (congrArg (fun t => t.label.value) heq)).elim
    rcases hc with ((rfl | rfl) | rfl) | rfl
    · exact ⟨hmark rfl, hne (by decide)⟩
    · exact ⟨hmark rfl, hne (by decide)⟩
    · exact ⟨hmark rfl, hne (by decide)⟩
    · exact ⟨hmark rfl, fun _ => rfl⟩
  | className => exact ⟨hmark rfl, hother rfl⟩
  | idName => exact ⟨hmark rfl, hother rfl⟩
  | bracket ht =>
    cases ht with
    | intro => exact ⟨hmark rfl, hother rfl⟩
  | pseudo => exact ⟨hmark rfl, hother rfl⟩
  | emptyFunctional => exact ⟨hmark rfl, hother rfl⟩
  | nesting => exact ⟨hmark rfl, hother rfl⟩
  | string hquote =>
    simp only [isQuote, Bool.or_eq_true, beq_iff_eq] at hquote
    rcases hquote with rfl | rfl
    · exact ⟨hmark rfl, hother rfl⟩
    · exact ⟨hmark rfl, hother rfl⟩
  | universal => exact ⟨hmark rfl, hother rfl⟩
  | anyElement ht =>
    obtain ⟨hrelation, hkind⟩ := helement ht
    exact ⟨hmark hrelation.symm, hother hkind⟩
  | tag hn =>
    refine ⟨?_, hother rfl⟩
    rw [← List.append_nil (String.toList _)]
    exact hname hn rfl
  | element hn ht =>
    obtain ⟨hrelation, hkind⟩ := helement ht
    exact ⟨hname hn hrelation, hother hkind⟩

/-- The text that is left goes on with no name and no prefix of the nodes so far. -/
structure Ready (front : List Tree) (cs : List Char) : Prop where
  name : ∀ last ∈ front.head?, last.endsInName = true → EndsName cs
  plain : ∀ last ∈ front.head?, last.isPlain = true → afterBar? cs = none
  bars : ∀ {e : Tree} {before : List Tree}, front = bar :: e :: before → e.isPlain = true →
    afterBar? ('|' :: cs) = none

theorem ready_nil (cs : List Char) : Ready [] cs :=
  ⟨nofun, nofun, nofun⟩

variable {front pre : List Tree}

theorem Ready.apart (h : Ready front (g ++ k)) : Apart front g :=
  fun last hlast hname => endsName_of_append (h.name last hlast hname)

theorem not_isCombinator_of_isPlain (h : t.isPlain = true) : t.label.isCombinator = false := by
  unfold Tree.isPlain at h
  unfold Label.isCombinator
  split at h
  · next hkind => rw [hkind]; rfl
  · next hkind => rw [hkind]; rfl
  · cases h

theorem Filler.eq_nil (h : Filler g) (hbar : afterBar? ('|' :: (g ++ k)) = none) : g = [] := by
  cases g with
  | nil => rfl
  | cons c g =>
    rcases afterBar?_bar_eq_none_iff.1 hbar with heq | heq
    · exact (h.head_ne rfl (by decide) heq).elim
    · exact (h.head_ne rfl (by decide) heq).elim

theorem gap_of_separate (closed : List Tree) (hready : Ready front (g ++ k)) (hg : Filler g)
    (hrelation : isRelation c = t.isRelation) :
    ∃ pre, Gap front t pre g ∧
      Frame.separate ⟨closed, front⟩ (k.length != (g ++ k).length) c = ⟨closed, pre ++ front⟩ := by
  unfold Frame.separate
  cases front with
  | nil => exact ⟨[], .free (.front t), rfl⟩
  | cons last before =>
    dsimp only
    split
    · next hspaced =>
      refine ⟨[space], .spaced ?_, rfl⟩
      rintro rfl
      simp at hspaced
    · next hspaced =>
      refine ⟨[], ?_, rfl⟩
      by_cases hnil : g = []
      · subst hnil
        exact .tight
      · have hlength : (k.length != (g ++ k).length) = true := by
          rw [bne_iff_ne, List.length_append]
          have hpos := List.length_pos_iff.2 hnil
          omega
        rw [hlength, hrelation] at hspaced
        cases hrel : t.isRelation with
        | true => exact .free (.relation _ hrel)
        | false =>
          have hlast : last.label.isCombinator = true := by
            simpa [hrel] using hspaced
          refine .free (.combinator hlast ?_)
          rintro ⟨rfl, rfl, hplain⟩
          cases before with
          | nil => cases hplain
          | cons e before => exact hnil (hg.eq_nil (hready.bars rfl hplain))

theorem Ready.next (hready : Ready front (g ++ (x ++ r))) (hgap : Gap front t pre g)
    (h : ComponentAt (.node t) x r) : Ready (t :: (pre ++ front)) r := by
  obtain ⟨hname, hplain⟩ := h.ends
  refine ⟨?_, ?_, ?_⟩
  · intro last hlast
    cases hlast
    exact hname
  · intro last hlast
    cases hlast
    exact hplain
  · intro e before hfront he
    obtain ⟨ht, hrest⟩ := List.cons.inj hfront
    have hx := h.front.2 ht
    subst hx
    have hplain' : front = e :: before → g = [] → afterBar? ('|' :: r) = none := by
      rintro rfl rfl
      exact hready.plain e rfl he
    cases hgap with
    | tight => exact hplain' hrest rfl
    | free hfree =>
      have hrest' : front = e :: before := hrest
      subst hrest' ht
      cases hfree with
      | relation _ hrelation => cases hrelation
      | combinator hlast =>
        have hcombinator := not_isCombinator_of_isPlain he
        rw [hlast] at hcombinator
        cases hcombinator
    | spaced =>
      obtain ⟨hspace, -⟩ := List.cons.inj hrest
      subst hspace
      cases he

theorem ready_functional (name : String) (args : List Tree) (front : List Tree) (cs : List Char) :
    Ready (.functional name args :: front) cs := by
  refine ⟨?_, ?_, ?_⟩
  · intro last hlast hends
    cases hlast
    cases hends
  · intro last hlast hplain
    cases hlast
    cases hplain
  · intro e before hfront
    cases hfront

end Parts

variable {front nodes closed result : List Tree} {later : List (List Tree)}
  {outer : List (String × Frame)} {cs g k : List Char}

theorem Spells.lead (hg : Filler g) (h : Spells [] nodes later k) : Spells [] nodes later (g ++ k) := by
  have happend : ∀ {g'}, Filler g' → Filler (g ++ g') :=
    fun hg' => (hg.trivia.append hg'.trivia).filler
  have hgap : ∀ {t pre g'}, Gap [] t pre g' → Gap [] t pre (g ++ g') := by
    intro t pre g' hgap
    cases hgap with
    | tight => exact .free (.front t)
    | free hfree => exact .free hfree
    | spaced hne => exact .spaced fun hnil => hne (List.append_eq_nil_iff.1 hnil).2
  cases h with
  | done hg' => exact .done (happend hg') nofun
  | comma hg' _ hrest =>
    rw [← List.append_assoc]
    exact .comma (happend hg') nofun hrest
  | node hg' _ hgap' hx hrest =>
    rw [← List.append_assoc]
    exact .node (happend hg') nofun (hgap hgap') hx hrest
  | functional hg' _ hgap' hy hrest =>
    rw [← List.append_assoc]
    exact .functional (happend hg') nofun (hgap hgap') hy hrest

/-- What is read up to the end of the list spells the nodes and selectors that are read. -/
structure Reached (closed front : List Tree) (outer : List (String × Frame)) (cs : List Char)
    (result nodes : List Tree) (later : List (List Tree)) (text r : List Char) : Prop where
  split : cs = text ++ r
  spells : Spells front nodes later text
  closes : Closes r
  atEnd : r = [] ↔ outer = []
  reads : Reads ⟨finished closed front nodes later, outer⟩ r result

theorem Reads.behind_arguments {f frame : Frame} {name : String}
    (h : Reads ⟨f, (name, frame) :: outer⟩ (')' :: k) result) :
    Reads ⟨frame.push (.functional name f.close), outer⟩ k result := by
  have htight : skipTrivia (')' :: k) = .ok (')' :: k) := tight_cons (by decide) (by decide) k
  cases h with
  | done htrivia hmove =>
    cases htrivia.symm.trans htight
    cases hmove
  | more htrivia hmove hrest =>
    cases htrivia.symm.trans htight
    cases hmove with
    | close hnodes houter =>
      cases houter
      exact hrest
    | component _ hclose => exact (hclose rfl).elim

theorem Reads.spelled (h : Reads ⟨⟨closed, front⟩, outer⟩ cs result) (hready : Ready front cs) :
    ∃ nodes later text r, Reached closed front outer cs result nodes later text r := by
  induction hn : cs.length using Nat.strong_induction_on generalizing closed front outer cs with
  | _ n ih =>
    subst hn
    cases h with
    | done htrivia hmove =>
      obtain ⟨g, rfl, hg, -⟩ := skipTrivia_eq_ok_iff.1 htrivia
      cases hmove with
      | done hnodes houter =>
        exact ⟨[], [], g, [], rfl, .done hg.filler hready.apart, .nil, ⟨fun _ => houter, fun _ => rfl⟩,
          .done tight_nil (.done hnodes houter)⟩
    | @more _ s' _ tokens rest _ htrivia hmove hrest =>
      obtain ⟨g, rfl, hg, htight⟩ := skipTrivia_eq_ok_iff.1 htrivia
      cases hmove with
      | comma hnodes =>
        obtain ⟨nodes, later, text, r, hsplit, hspells, hcloses, hend, hreads⟩ :=
          ih rest.length (by simp; omega) hrest (ready_nil rest) rfl
        refine ⟨[], nodes :: later, g ++ ',' :: text, r, ?_, .comma hg.filler hready.apart hspells,
          hcloses, hend, ?_⟩
        · rw [hsplit]
          simp
        · unfold finished
          rw [List.append_nil]
          exact hreads
      | close hnodes houter =>
        refine ⟨[], [], g, ')' :: rest, rfl, .done hg.filler hready.apart, .parenthesis rest, ?_, ?_⟩
        · dsimp only at houter
          rw [houter]
          exact iff_of_false (List.cons_ne_nil _ _) (List.cons_ne_nil _ _)
        · exact .more htight (.close hnodes houter) hrest
      | @component c rest' k comp hcomma hclose hread =>
        obtain ⟨x, hx, hcomp⟩ := readComponent_sound hread
        obtain ⟨c', y, -, rfl, -⟩ := hcomp.head
        obtain ⟨rfl, rfl⟩ := List.cons.inj hx
        cases comp with
        | node t =>
          obtain ⟨pre, hgap, hseparate⟩ :=
            gap_of_separate closed hready hg.filler (hcomp.front.1 c rfl)
          rw [hseparate] at hrest
          obtain ⟨nodes, later, text, r, rfl, hspells, hcloses, hend, hreads⟩ :=
            ih rest.length (by simp; omega) hrest (hready.next hgap hcomp) rfl
          refine ⟨pre ++ t :: nodes, later, g ++ (c :: y ++ text), r, by simp,
            .node hg.filler hready.apart hgap hcomp.text hspells, hcloses, hend, ?_⟩
          rw [← finished_node hgap.reverse]
          exact hreads
        | opening name =>
          obtain ⟨nodes, later, text, r, rfl, hspells, hcloses, hend, hreads⟩ :=
            ih rest.length (by simp; omega) hrest (ready_nil _) rfl
          cases hcloses with
          | nil => cases hend.1 rfl
          | parenthesis k =>
            have hrest' := hreads.behind_arguments
            rw [finished_close] at hrest'
            have hrelation : isRelation c =
                (Tree.functional name ((nodes :: later).map .selector)).isRelation := by
              cases hcomp
              rfl
            obtain ⟨pre, hgap, hseparate⟩ := gap_of_separate closed hready hg.filler hrelation
            rw [hseparate] at hrest'
            obtain ⟨nodes', later', text', r', rfl, hspells', hcloses', hend', hreads'⟩ :=
              ih k.length (by simp; omega) hrest' (ready_functional _ _ _ _) rfl
            cases hcomp with
            | @opening _ z ts _ hts hname _ _ =>
              have htext : g ++ (':' :: (z ++ '(' :: ts) ++ (text ++ ')' :: (text' ++ r'))) =
                  g ++ (name.toList ++ '(' :: (ts ++ text ++ ')' :: text')) ++ r' := by
                simp [hname.toList]
              refine ⟨pre ++ .functional name ((nodes :: later).map .selector) :: nodes', later', _, r',
                htext, .functional hg.filler hready.apart hgap (hspells.lead hts.filler) hspells',
                hcloses', hend', ?_⟩
              rw [← finished_node hgap.reverse]
              exact hreads'

theorem Reads.spelled_all (h : Reads ⟨⟨closed, front⟩, []⟩ cs result) (hready : Ready front cs) :
    ∃ nodes later, Spells front nodes later cs ∧
      result = closed.reverse ++ ((front.reverse ++ nodes) :: later).map .selector := by
  obtain ⟨nodes, later, text, r, hsplit, hspells, -, hend, hreads⟩ := h.spelled hready
  have hr := hend.2 rfl
  subst hr
  rw [List.append_nil] at hsplit
  subst hsplit
  refine ⟨nodes, later, hspells, ?_⟩
  cases hreads with
  | done htrivia hmove =>
    cases htrivia.symm.trans tight_nil
    cases hmove with
    | done => exact finished_close
  | more htrivia hmove =>
    cases htrivia.symm.trans tight_nil
    cases hmove

/-- A text that is read is a spelling of what is read. -/
theorem spelled_of_parse {text : String} {t : Tree} (h : parse text = .ok t) : Spelled t text := by
  obtain ⟨selectors, rfl, hreads⟩ := parse_eq_ok_iff.1 h
  obtain ⟨nodes, later, hspells, rfl⟩ := hreads.spelled_all (ready_nil _)
  exact .root hspells

end ScopedStyles.Selector
