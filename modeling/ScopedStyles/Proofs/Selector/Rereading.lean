import ScopedStyles.Proofs.Selector.Pending

namespace ScopedStyles.Selector

/-- Behind the same frame, `k` is the printed form of what is read from `cs`. -/
structure Mirrors (f : Frame) (cs tokens k body : List Char) : Prop where
  trivia : skipTrivia cs = .ok tokens
  gap : k = f.gap (tokens.length != cs.length) tokens ++ body
  tight : Tight body
  head : body.head? = tokens.head?
  bar : afterBar? tokens = none → afterBar? body = none
  parenthesis : tokens.head? ≠ some '('

namespace Mirrors

variable {f : Frame} {cs tokens k body : List Char}

theorem skip (h : Mirrors f cs tokens k body) : skipTrivia k = .ok body := by
  rw [h.gap]
  exact (trivia_gap _ _ _ _).trans h.tight

theorem of_tight (h : Mirrors f cs tokens k body) (ht : Tight cs) : cs = tokens ∧ k = body := by
  have htokens : cs = tokens := Except.ok.inj (ht.symm.trans h.trivia)
  refine ⟨htokens, ?_⟩
  have hgap := h.gap
  rw [htokens, bne_self_eq_false, Frame.gap_false] at hgap
  exact hgap

theorem head_of_tight (h : Mirrors f cs tokens k body) (ht : Tight cs) : k.head? = cs.head? := by
  obtain ⟨rfl, rfl⟩ := h.of_tight ht
  exact h.head

theorem length_gap (h : Mirrors f cs tokens k body) :
    (body.length != k.length) = (f.gap (tokens.length != cs.length) tokens != []) := by
  have hgap := h.gap
  rcases f.gap_cases (tokens.length != cs.length) tokens with hg | hg
  · rw [hg] at hgap ⊢
    rw [hgap]
    simp
  · rw [hg] at hgap ⊢
    rw [hgap]
    exact bne_iff_ne.2 (Nat.ne_of_lt (Nat.lt_succ_self _))

theorem front (h : Mirrors f cs tokens k body) (ht : ¬ Tight cs) {last : Tree} {nodes : List Tree}
    (hnodes : f.nodes = last :: nodes) (hlast : last.label.isCombinator = false) :
    k = [] ∨ ∃ c rest, k = c :: rest ∧ isNameChar c = false ∧ c ≠ '|' ∧ c ≠ '(' := by
  have hspaced : (tokens.length != cs.length) = true := by
    obtain ⟨ts, rfl, hts, htokens⟩ := skipTrivia_eq_ok_iff.1 h.trivia
    cases ts with
    | nil => exact (ht htokens).elim
    | cons c ts =>
      rw [bne_iff_ne, List.cons_append, List.length_cons, List.length_append]
      omega
  have hgap := h.gap
  rw [hspaced] at hgap
  have hhead := h.head
  cases tokens with
  | nil =>
    refine .inl (hgap.trans ?_)
    exact List.head?_eq_none_iff.1 hhead
  | cons c rest =>
    refine .inr ?_
    by_cases hclosing : c = ',' ∨ c = ')'
    · obtain ⟨rest', rfl⟩ := List.head?_eq_some_iff.1 hhead
      refine ⟨c, rest', hgap.trans ?_, ?_⟩
      · rw [Frame.gap, if_pos hclosing]
        rfl
      · rcases hclosing with rfl | rfl <;> decide
    · obtain ⟨hcomma, hclose⟩ := not_or.1 hclosing
      rw [f.gap_cons true hcomma hclose, hnodes] at hgap
      dsimp only at hgap
      rw [hlast] at hgap
      cases hrelation : isRelation c with
      | true =>
        obtain ⟨rest', rfl⟩ := List.head?_eq_some_iff.1 hhead
        rw [hrelation] at hgap
        refine ⟨c, rest', hgap, ?_⟩
        simp only [isRelation, Bool.or_eq_true, beq_iff_eq] at hrelation
        rcases hrelation with (rfl | rfl) | rfl <;> decide
      | false =>
        rw [hrelation] at hgap
        exact ⟨' ', body, hgap, by decide⟩

theorem follows (h : Mirrors f cs tokens k body)
    (hlast : Tight cs ∨ ∃ last nodes, f.nodes = last :: nodes ∧ last.label.isCombinator = false) :
    Follows cs k := by
  by_cases ht : Tight cs
  · obtain ⟨rfl, rfl⟩ := h.of_tight ht
    constructor
    · intro hnil
      exact List.head?_eq_none_iff.1 (h.head.trans (hnil ▸ rfl))
    · intro hends c hc
      exact hends c (h.head ▸ hc)
    · exact h.bar
    · intro hne
      rwa [h.head]
    · exact fun _ => h.tight
    · intro _ hne
      rwa [h.head]
  · obtain hlast | ⟨last, nodes, hnodes, hcombinator⟩ := hlast
    · exact (ht hlast).elim
    have hcs : cs ≠ [] := by
      intro hnil
      exact ht (hnil ▸ tight_nil)
    rcases h.front ht hnodes hcombinator with rfl | ⟨c, rest, rfl, hname, hbar, hparenthesis⟩
    · exact ⟨fun _ => rfl, fun _ => nofun, fun _ => rfl, fun _ => nofun,
        fun htight => (ht htight).elim, fun htight => (ht htight).elim⟩
    · exact ⟨fun hnil => (hcs hnil).elim, fun _ => endsName_cons hname rest,
        fun _ => afterBar?_of_head fun heq => hbar (Option.some.inj heq),
        fun _ heq => hparenthesis (Option.some.inj heq),
        fun htight => (ht htight).elim, fun htight => (ht htight).elim⟩

end Mirrors

theorem ComponentAt.head {comp : Component} {x r : List Char} (h : ComponentAt comp x r) :
    ∃ c y y', x = c :: y ∧ comp.chars = c :: y' ∧ c ≠ '/' ∧ c ≠ '(' := by
  have hname : ∀ {n k : List Char}, NameBefore n k →
      ∃ c y, n = c :: y ∧ c ≠ '/' ∧ c ≠ '(' := by
    intro n k hn
    obtain ⟨c, y, rfl, hc⟩ := hn.head
    refine ⟨c, y, rfl, ?_, ?_⟩
    · intro heq
      subst heq
      exact absurd hc (by decide)
    · intro heq
      subst heq
      exact absurd hc (by decide)
  cases h with
  | @combinator c _ hc =>
    refine ⟨c, [], [], rfl, String.toList_singleton c, ?_⟩
    simp only [isRelation, Bool.or_eq_true, beq_iff_eq] at hc
    rcases hc with ((rfl | rfl) | rfl) | rfl <;> decide
  | className => exact ⟨'.', _, _, rfl, rfl, by decide⟩
  | idName => exact ⟨'#', _, _, rfl, rfl, by decide⟩
  | bracket ht =>
    cases ht with
    | intro => exact ⟨'[', _, _, rfl, attribute_chars _ _ _, by decide⟩
  | pseudo hpseudo => exact ⟨':', _, _, rfl, hpseudo.toList, by decide⟩
  | @emptyFunctional name x ts _ hts hpseudo =>
    refine ⟨':', _, x ++ ['('] ++ [')'], rfl, ?_, by decide⟩
    change name.toList ++ ['('] ++ [')'] = _
    rw [hpseudo.toList]
    rfl
  | @opening name x ts _ hts hpseudo =>
    refine ⟨':', _, x ++ ['('], rfl, ?_, by decide⟩
    change name.toList ++ ['('] = _
    rw [hpseudo.toList]
    rfl
  | nesting => exact ⟨'&', _, _, rfl, rfl, by decide⟩
  | @string quote inner _ hquote hinner =>
    refine ⟨quote, inner, inner, rfl, String.toList_ofList, ?_⟩
    simp only [isQuote, Bool.or_eq_true, beq_iff_eq] at hquote
    rcases hquote with rfl | rfl <;> decide
  | universal => exact ⟨'*', _, _, rfl, rfl, by decide⟩
  | anyElement ht => exact ⟨'*', _, _, rfl, ht.chars, by decide⟩
  | @tag name _ hn =>
    obtain ⟨c, y, heq, hc⟩ := hname hn
    exact ⟨c, y, y, heq, heq, hc⟩
  | @element first t x _ hfirst ht =>
    obtain ⟨c, y, heq, hc⟩ := hname hfirst
    have hprinted : t.chars = first.toList ++ ['|'] ++ x := ht.chars
    rw [heq]
    exact ⟨c, _, _, rfl, hprinted.trans (by rw [heq]; rfl), hc⟩

theorem tight_of_afterBar? {k : List Char} (h : afterBar? ('|' :: k) = none) : Tight k := by
  rcases afterBar?_bar_eq_none_iff.1 h with hk | hk
  · obtain ⟨rest, rfl⟩ := List.head?_eq_some_iff.1 hk
    exact tight_cons (by decide) (by decide) rest
  · obtain ⟨rest, rfl⟩ := List.head?_eq_some_iff.1 hk
    exact tight_cons (by decide) (by decide) rest

theorem framing_sheltered : Framing Label.Sheltered :=
  ⟨rfl, fun _ => rfl, rfl⟩

/-- What has been printed is read through the same stacks as the text it was printed from. -/
theorem Reads.again {s : Stack} {cs : List Char} {selectors : List Tree} (h : Reads s cs selectors)
    (hsheltered : ∀ t ∈ selectors, t.All Label.Sheltered) :
    ∃ tokens k body, listChars selectors = s.chars ++ k ∧ Reads s k selectors ∧
      Mirrors s.frame cs tokens k body := by
  -- Both texts are read through the same stacks, from the end backwards: what is printed of the rest is
  -- known before the move in front of it is made.
  induction h with
  | @done s cs tokens selectors htrivia hmove =>
    cases hmove with
    | done hnodes houter =>
      refine ⟨[], [], [], ?_, ?_, ⟨htrivia, rfl, tight_nil, rfl, fun _ => rfl, nofun⟩⟩
      · unfold Stack.chars
        rw [Frame.close_chars, houter, List.append_nil]
        rfl
      · exact .done tight_nil (.done hnodes houter)
  | @more s s' cs tokens rest selectors htrivia hmove hrest ih =>
    obtain ⟨tokens', k, body, hprinted, hreads, hmirrors⟩ := ih hsheltered
    cases hmove with
    | comma hnodes =>
      refine ⟨_, ',' :: k, ',' :: k, ?_, ?_,
        ⟨htrivia, rfl, tight_cons (by decide) (by decide) k, rfl, fun _ => rfl, nofun⟩⟩
      · rw [hprinted]
        unfold Stack.chars
        rw [Frame.next_chars]
        simp
      · exact .more (tight_cons (by decide) (by decide) k) (.comma hnodes) hreads
    | close hnodes houter =>
      refine ⟨_, ')' :: k, ')' :: k, ?_, ?_,
        ⟨htrivia, rfl, tight_cons (by decide) (by decide) k, rfl, fun _ => rfl, nofun⟩⟩
      · rw [hprinted, Stack.closed_chars houter]
        simp
      · exact .more (tight_cons (by decide) (by decide) k) (.close hnodes houter) hreads
    | @component c source _ comp hcomma hclose hread =>
      obtain ⟨x, hx, hcomp⟩ := readComponent_sound hread
      have hcs : Tight (c :: source) := by
        obtain ⟨ts, -, -, htight⟩ := skipTrivia_eq_ok_iff.1 htrivia
        exact htight
      have hall := framing_sheltered.all_stack hrest hsheltered
      have hk : comp.isCombinator = false → Follows rest k := by
        intro hcombinator
        apply hmirrors.follows
        cases hcomp with
        | opening _ _ htight => exact .inl htight
        | _ => exact .inr ⟨_, _, rfl, hcombinator⟩
      have hagain := hcomp.again (framing_sheltered.all_add.1 hall).2 hk
      obtain ⟨c', y, y', hxc, hchars, hslash, hparenthesis⟩ := hcomp.head
      have hc : c' = c := by
        rw [hxc] at hx
        exact (List.cons.inj hx).1.symm
      subst hc
      have hbar : afterBar? (c' :: source) = none → afterBar? (c' :: (y' ++ k)) = none := by
        intro hnone
        by_cases hc : c' = '|'
        · subst hc
          have hok : Except.ok (.node (.leaf .combinator "|"), source) = Except.ok (comp, rest) := hread
          cases hok
          cases hchars
          have hhead := hmirrors.head_of_tight (tight_of_afterBar? hnone)
          rw [afterBar?_bar_eq_none_iff, List.nil_append, hhead]
          exact afterBar?_bar_eq_none_iff.1 hnone
        · exact afterBar?_of_head fun heq => hc (Option.some.inj heq)
      have hm : Mirrors s.frame cs (c' :: source)
          (s.frame.gap ((c' :: source).length != cs.length) (c' :: source) ++ c' :: (y' ++ k))
          (c' :: (y' ++ k)) :=
        ⟨htrivia, rfl, hcs.swap hslash, rfl, hbar, fun heq => hparenthesis (Option.some.inj heq)⟩
      obtain ⟨hgap, hseparate⟩ := s.frame.separate_gap ((c' :: source).length != cs.length) hcomma
        hclose source
      refine ⟨_, _, _, ?_, ?_, hm⟩
      · rw [hprinted, Stack.add_chars, hgap, hchars]
        simp [Stack.chars]
      · refine .more hm.skip ?_ hreads
        rw [hm.length_gap, ← hseparate]
        exact .component hcomma hclose (hagain.read (by rw [hchars]; rfl))

theorem bars_le_of_trivia {cs tokens : List Char} (h : skipTrivia cs = .ok tokens) :
    bars tokens ≤ bars cs := by
  obtain ⟨ts, rfl, -⟩ := skipTrivia_eq_ok_iff.1 h
  rw [bars_append]
  exact Nat.le_add_left _ _

theorem Frame.bars_separate (f : Frame) (spaced : Bool) (c : Char) :
    bars (f.separate spaced c).chars = bars f.chars := by
  unfold Frame.separate
  split
  · split
    · rw [Frame.push_chars, bars_append]
      rfl
    · rfl
  · rfl

/-- With `n` bars read so far: no more bars are printed than have been read, and as many only of
selectors that are sheltered. -/
theorem Reads.bars_printed {s : Stack} {cs : List Char} {selectors : List Tree} {n : Nat}
    (h : Reads s cs selectors) (hs : bars s.chars < n ∨ bars s.chars ≤ n ∧ s.All Label.Sheltered) :
    bars (listChars selectors) < n + bars cs ∨
      bars (listChars selectors) ≤ n + bars cs ∧ ∀ t ∈ selectors, t.All Label.Sheltered := by
  induction h generalizing n with
  | @done s cs tokens selectors htrivia hmove =>
    cases hmove with
    | done hnodes houter =>
      have hchars : bars (listChars s.frame.close) = bars s.chars := by
        unfold Stack.chars
        rw [Frame.close_chars, houter]
        rfl
      rw [hchars]
      rcases hs with hlt | ⟨hle, hall⟩
      · exact .inl (by omega)
      · exact .inr ⟨by omega, framing_sheltered.all_close.2 hall.1⟩
  | @more s s' cs tokens rest selectors htrivia hmove hrest ih =>
    have htokens := bars_le_of_trivia htrivia
    -- the bars of the token are moved from the text to the ones already read
    have hmoved : ∀ m, m + bars rest ≤ n + bars tokens →
        (bars s'.chars < m ∨ bars s'.chars ≤ m ∧ s'.All Label.Sheltered) →
        bars (listChars selectors) < n + bars cs ∨
          bars (listChars selectors) ≤ n + bars cs ∧ ∀ t ∈ selectors, t.All Label.Sheltered := by
      intro m hm hs'
      rcases ih hs' with hlt | ⟨hle, hall⟩
      · exact .inl (by omega)
      · exact .inr ⟨by omega, hall⟩
    cases hmove with
    | comma =>
      apply hmoved n (Nat.add_le_add_left (Nat.le_of_eq (bars_other (by decide) rest).symm) n)
      have hchars : bars (Stack.chars ⟨s.frame.next, s.outer⟩) = bars s.chars := by
        unfold Stack.chars
        rw [Frame.next_chars, bars_append, bars_append, bars_append]
        rfl
      rw [hchars]
      exact hs.imp_right fun h => ⟨h.1, framing_sheltered.all_next.2 h.2.1, h.2.2⟩
    | close _ houter =>
      apply hmoved n (Nat.add_le_add_left (Nat.le_of_eq (bars_other (by decide) rest).symm) n)
      rw [Stack.closed_chars houter, bars_append]
      exact hs.imp_right fun h => ⟨h.1, (framing_sheltered.all_closed houter).2 h.2⟩
    | @component c source _ comp hcomma hclose hread =>
      obtain ⟨x, hx, hcomp⟩ := readComponent_sound hread
      apply hmoved (n + bars x) (by rw [hx, bars_append]; omega)
      have hchars : ∀ spaced, bars (s.add (s.frame.separate spaced c) comp).chars
          = bars s.chars + bars comp.chars := by
        intro spaced
        rw [Stack.add_chars, bars_append, bars_append, Frame.bars_separate]
        exact congrArg (· + _) (bars_append _ _).symm
      rw [hchars]
      rcases hcomp.bars_printed with hlt' | ⟨hle', hcompAll⟩
      · exact .inl (by omega)
      rcases hs with hlt | ⟨hle, hall⟩
      · exact .inl (by omega)
      · exact .inr ⟨by omega, framing_sheltered.all_add.2 ⟨hall, hcompAll⟩⟩

/-- The printed form of an accepted text is read as the same tree, exactly if no attribute of the
tree without a namespace has a name that begins with a blank. -/
theorem parse_render_iff {text : String} {t : Tree} (h : parse text = .ok t) :
    parse t.render = .ok t ↔ t.All Label.Sheltered := by
  obtain ⟨selectors, rfl, hreads⟩ := parse_eq_ok_iff.1 h
  have hrender : (Tree.root selectors).render.toList = listChars selectors := String.toList_ofList
  have hstart : Stack.start.All Label.Sheltered := ⟨⟨nofun, nofun⟩, nofun⟩
  constructor
  · intro hagain
    obtain ⟨selectors', heq, hreads'⟩ := parse_eq_ok_iff.1 hagain
    cases heq
    rw [hrender] at hreads'
    rcases hreads'.bars_printed (n := 0) (.inr ⟨Nat.le_refl 0, hstart⟩) with hlt | ⟨-, hall⟩
    · omega
    · exact .node rfl hall
  · intro hall
    obtain ⟨tokens, k, body, hprinted, hk, -⟩ := hreads.again hall.children
    refine parse_eq_ok_iff.2 ⟨selectors, rfl, ?_⟩
    rw [hrender, hprinted]
    exact hk

def requiring (name : String) : Tree :=
  .root [.selector [.node ⟨.attribute .presence, name, none⟩ []]]

theorem parse_requiring {text name : String} {x : List Char} (htext : text.toList = '[' :: x)
    (h : AttributeAt (.node ⟨.attribute .presence, name, none⟩ []) x []) :
    parse text = .ok (requiring name) := by
  refine parse_eq_ok_iff.2 ⟨_, rfl, ?_⟩
  rw [htext]
  have hread := (ComponentAt.bracket h).read (congrArg ('[' :: ·) (List.append_nil x).symm)
  exact .more (tight_cons (by decide) (by decide) x) (.component (by decide) (by decide) hread)
    (.done tight_nil (.done rfl rfl))

theorem parse_barred {name : String} (h : NameBefore name.toList [']']) :
    parse ("[|" ++ name ++ "]") = .ok (requiring name) := by
  apply parse_requiring (x := '|' :: name.toList ++ [']']) (by simp)
  exact .intro trivia_nil (tight_cons (by decide) (by decide) _) (.barred h) trivia_nil
    (tight_cons (by decide) (by decide) _) (.presence rfl)

theorem parse_spaced {name : String} (h : NameBefore name.toList [']'])
    (ht : Tight (name.toList ++ [']'])) {c : Char} (hc : isBlank c = true) :
    parse ("[" ++ c.toString ++ name ++ "]") = .ok (requiring name) := by
  have hblank : Trivia [c] := fun k => skipTrivia_blank hc k
  have hattribute : AttributeAt (.node ⟨.attribute .presence, name, none⟩ [])
      ([c] ++ (name.toList ++ ([] ++ ([] ++ [']'])))) [] :=
    .intro hblank ht (.plain h rfl) trivia_nil (tight_cons (by decide) (by decide) _) (.presence rfl)
  exact parse_requiring (by simp) hattribute

/-- The no-break space is a name character and white space at once. -/
theorem parse_render_loses_blank :
    ¬ ∀ text t, parse text = .ok t → parse t.render = .ok t := by
  intro hall
  have hname : NameBefore "\u00a0x".toList [']'] := ⟨by decide, by decide⟩
  have hname' : NameBefore "x".toList [']'] := ⟨by decide, by decide⟩
  have hbarred : parse "[|\u00a0x]" = .ok (requiring "\u00a0x") := parse_barred hname
  have hspaced : parse "[\u00a0x]" = .ok (requiring "x") :=
    parse_spaced hname' (tight_cons (by decide) (by decide) _)
      (show isBlank '\u00a0' = true by decide)
  have hrender : (requiring "\u00a0x").render = "[\u00a0x]" := by decide
  have hagain := hall _ _ hbarred
  rw [hrender] at hagain
  have hne : "x" ≠ "\u00a0x" := by decide
  rw [hspaced] at hagain
  injection hagain with htree
  injection htree with _ hselectors
  injection hselectors with hselector
  injection hselector with _ hnodes
  injection hnodes with hnode
  injection hnode with hlabel
  injection hlabel with _ hvalue
  exact hne hvalue

theorem parse_render_barred :
    parse "[|x]" = .ok (requiring "x") ∧
      (parse (requiring "x").render = .ok (requiring "x") ↔
        (requiring "x").All Label.Sheltered) := by
  have hname : NameBefore "x".toList [']'] := ⟨by decide, by decide⟩
  have h : parse "[|x]" = .ok (requiring "x") := parse_barred hname
  exact ⟨h, parse_render_iff h⟩

end ScopedStyles.Selector
