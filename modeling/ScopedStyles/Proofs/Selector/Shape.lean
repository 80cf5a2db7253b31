import ScopedStyles.Proofs.Selector.Legible

namespace ScopedStyles.Selector

/-- An operator comes with a value, and a flag only with an operator. -/
structure Match.Complete (m : Match) : Prop where
  value : m.operator.isSome ↔ m.value.isSome
  flag : m.flag.isSome → m.operator.isSome

structure Label.Shaped (l : Label) : Prop where
  kind : l.kind ∉ [.root, .selector, .pseudo true]
  criterion : ∀ m, l.kind = .attribute m → m.Complete
  combinator : l.kind = .combinator → l.ns = none

mutual

inductive ShapedNode : Tree → Prop
  | leaf {l : Label} (hl : l.Shaped) : ShapedNode (.node l [])
  | functional {name : String} {selectors : List Tree} (h : ∀ s ∈ selectors, ShapedSelector s) :
    ShapedNode (.functional name selectors)

inductive ShapedSelector : Tree → Prop
  | selector {nodes : List Tree} (hstretch : Stretch nodes) (hchain : nodes.IsChain Abuts)
    (h : ∀ t ∈ nodes, ShapedNode t) : ShapedSelector (.selector nodes)

end

theorem MatchAt.complete {m : Match} {x r : List Char} (h : MatchAt m x r) : m.Complete := by
  cases h with
  | presence => exact ⟨Iff.rfl, id⟩
  | full => exact ⟨iff_of_true rfl rfl, fun _ => rfl⟩

theorem ComponentAt.shaped {t : Tree} {x r : List Char} (h : ComponentAt (.node t) x r) :
    ShapedNode t := by
  have hleaf : ∀ {l : Label}, l.kind ∈ [.tag, .className, .idName, .pseudo false, .universal,
      .nesting, .string] → ShapedNode (.node l []) := by
    rintro ⟨kind, value, ns⟩ hkind
    refine .leaf ⟨?_, ?_, ?_⟩
    · intro hother
      simp only [List.mem_cons, List.not_mem_nil, or_false] at hother
      rcases hother with rfl | rfl | rfl <;> simp at hkind
    · rintro m rfl
      simp at hkind
    · rintro rfl
      simp at hkind
  have helement : ∀ {p y}, ElementAt p t y r → ShapedNode t := by
    intro p y ht
    cases ht with
    | universal => exact hleaf (by simp)
    | tag => exact hleaf (by simp)
  cases h with
  | combinator => exact .leaf ⟨by simp, nofun, fun _ => rfl⟩
  | bracket ht =>
    cases ht with
    | intro _ _ _ _ _ hmatch =>
      refine .leaf ⟨by simp, ?_, nofun⟩
      rintro m ⟨⟩
      exact hmatch.complete
  | emptyFunctional => exact .functional nofun
  | anyElement ht => exact helement ht
  | element _ ht => exact helement ht
  | _ => exact hleaf (by simp)

theorem not_isCombinator_of_endsInName {t : Tree} (h : t.endsInName = true) :
    t.label.isCombinator = false := by
  cases hkind : t.label.isCombinator with
  | false => rfl
  | true =>
    have hcombinator : t.label.kind = .combinator := beq_iff_eq.1 hkind
    rw [Tree.endsInName, hcombinator] at h
    cases h

section Frames

variable {f : Frame} {t : Tree} {c : Char} {cs rest r : List Char} {selectors : List Tree}

theorem Frame.separate_selectors (f : Frame) (spaced : Bool) (c : Char) :
    (f.separate spaced c).selectors = f.selectors := by
  rw [Frame.separate]
  split
  · split <;> rfl
  · rfl

theorem Frame.mem_separate {spaced : Bool} (h : t ∈ (f.separate spaced c).nodes) :
    t = space ∨ t ∈ f.nodes := by
  rw [Frame.separate] at h
  split at h
  · split at h
    · exact List.mem_cons.1 h
    · exact .inr h
  · exact .inr h

/-- The nodes of an open selector, newest first, in front of the text that is left. -/
structure Frame.Spaced (f : Frame) (cs : List Char) : Prop where
  oldest : f.nodes.getLast? ≠ some space
  newest : f.nodes.head? ≠ some space
  chain : f.nodes.IsChain fun u t => Abuts t u
  ends : ∀ last ∈ f.nodes.head?, last.endsInName = true → EndsName cs

namespace Frame.Spaced

theorem empty (selectors : List Tree) (cs : List Char) : Frame.Spaced ⟨selectors, []⟩ cs :=
  ⟨nofun, nofun, .nil, nofun⟩

theorem stretch (h : f.Spaced cs) (hnodes : f.nodes ≠ []) : Stretch f.nodes.reverse where
  notEmpty := by rwa [Ne, List.reverse_eq_nil_iff]
  first := by
    rw [List.head?_reverse]
    exact h.oldest
  last := by
    rw [List.getLast?_reverse]
    exact h.newest

theorem push (h : f.Spaced cs) (htrivia : skipTrivia cs = .ok (c :: rest)) (hc : Starts t c)
    (hbegins : t.beginsWithName = true → isNameChar c = true) (hne : t ≠ space)
    (hends : t.endsInName = true → EndsName r) :
    ((f.separate ((c :: rest).length != cs.length) c).push t).Spaced r := by
  obtain ⟨ts, rfl, -, -⟩ := skipTrivia_eq_ok_iff.1 htrivia
  obtain ⟨holdest, hnewest, hchain, hname⟩ := h
  have hpushed : ∀ nodes, (t :: nodes).getLast? ≠ some space →
      (t :: nodes).IsChain (fun u t => Abuts t u) → Frame.Spaced ⟨f.selectors, t :: nodes⟩ r := by
    intro nodes holdest' hchain'
    refine ⟨holdest', fun hspace => hne (Option.some.inj hspace), hchain', ?_⟩
    rintro _ ⟨⟩
    exact hends
  unfold Frame.separate
  cases hnodes : f.nodes with
  | nil =>
    dsimp only
    rw [Frame.push, hnodes]
    exact hpushed [] (fun hspace => hne (Option.some.inj hspace)) (.singleton t)
  | cons last before =>
    rw [hnodes] at holdest hnewest hchain hname
    have hlast : last ≠ space := fun hspace => hnewest (congrArg some hspace)
    dsimp only
    split
    · next hspaced =>
      simp only [Bool.and_eq_true, Bool.not_eq_true'] at hspaced
      obtain ⟨⟨-, hcombinator⟩, hrelation⟩ := hspaced
      rw [Frame.push, Frame.push, hnodes]
      have hspace : Abuts last space :=
        ⟨fun _ => rfl, fun _ => hcombinator, fun heq => (hlast heq).elim⟩
      have hnode : Abuts space t :=
        ⟨nofun, fun heq => (hne heq).elim, fun _ => hc.relation.symm.trans hrelation⟩
      exact hpushed _ holdest (.cons_cons hnode (.cons_cons hspace hchain))
    · next hspaced =>
      rw [Frame.push, hnodes]
      have hnode : Abuts last t := by
        refine ⟨?_, fun heq => (hne heq).elim, fun heq => (hlast heq).elim⟩
        intro hends'
        -- between a name and a name stands trivia, and then the parser has put space there
        by_cases hnil : ts = []
        · subst hnil
          have hfree := hname last rfl hends' c rfl
          exact Bool.eq_false_iff.2 fun hbegin => Bool.eq_false_iff.1 hfree (hbegins hbegin)
        · have hlength : ((c :: rest).length != (ts ++ c :: rest).length) = true := by
            rw [bne_iff_ne, List.length_append]
            have hpos := List.length_pos_iff.2 hnil
            omega
          refine Bool.eq_false_iff.2 fun hbegin => hspaced ?_
          rw [hlength, not_isCombinator_of_endsInName hends', isRelation_of_isNameChar (hbegins hbegin)]
          rfl
      exact hpushed _ holdest (.cons_cons hnode hchain)

end Frame.Spaced

structure Frame.Shaped (f : Frame) (cs : List Char) : Prop where
  selectors : ∀ s ∈ f.selectors, ShapedSelector s
  nodes : ∀ t ∈ f.nodes, ShapedNode t
  spaced : f.Spaced cs

/-- The frame around an open argument list, which a pseudo will be pushed to. -/
def Frame.Expects (pseudo : String) (f : Frame) : Prop :=
  ∀ selectors r, (∀ s ∈ selectors, ShapedSelector s) → (f.push (.functional pseudo selectors)).Shaped r

namespace Frame.Shaped

theorem empty (cs : List Char) : Frame.empty.Shaped cs :=
  ⟨nofun, nofun, .empty [] cs⟩

theorem next (h : f.Shaped cs) (hnodes : f.nodes ≠ []) (rest : List Char) : f.next.Shaped rest := by
  have hopen : ShapedSelector (.selector f.nodes.reverse) := by
    refine .selector (h.spaced.stretch hnodes) (List.isChain_reverse.2 h.spaced.chain) ?_
    intro t ht
    exact h.nodes t (List.mem_reverse.1 ht)
  exact ⟨List.forall_mem_cons.2 ⟨hopen, h.selectors⟩, nofun, .empty _ rest⟩

theorem close (h : f.Shaped cs) (hnodes : f.nodes ≠ []) : ∀ s ∈ f.close, ShapedSelector s := by
  intro s hs
  exact (h.next hnodes []).selectors s (List.mem_reverse.1 hs)

theorem push (h : f.Shaped cs) {spaced : Bool} (ht : ShapedNode t)
    (hspaced : ((f.separate spaced c).push t).Spaced r) : ((f.separate spaced c).push t).Shaped r := by
  have hspace : ShapedNode space := .leaf ⟨by decide, nofun, fun _ => rfl⟩
  refine ⟨?_, List.forall_mem_cons.2 ⟨ht, ?_⟩, hspaced⟩
  · exact (Frame.separate_selectors f spaced c).symm ▸ h.selectors
  · intro u hu
    obtain rfl | hu := Frame.mem_separate hu
    · exact hspace
    · exact h.nodes u hu

theorem component (h : f.Shaped cs) (htrivia : skipTrivia cs = .ok (c :: rest))
    (hread : readComponent c rest = .ok (.node t, r)) :
    ((f.separate ((c :: rest).length != cs.length) c).push t).Shaped r := by
  obtain ⟨x, hx, hcomp⟩ := readComponent_sound hread
  obtain ⟨c', y, -, rfl, -⟩ := hcomp.head
  obtain ⟨rfl, rfl⟩ := List.cons.inj hx
  obtain ⟨-, -, -, htight⟩ := skipTrivia_eq_ok_iff.1 htrivia
  obtain ⟨hstarts, hbegins⟩ := hcomp.starts htight
  exact h.push hcomp.shaped
    (h.spaced.push htrivia hstarts hbegins (hcomp.ne_space htight) hcomp.ends.1)

theorem opening (h : f.Shaped cs) (htrivia : skipTrivia cs = .ok (c :: rest)) {name : String}
    (hread : readComponent c rest = .ok (.opening name, r)) :
    (f.separate ((c :: rest).length != cs.length) c).Expects name := by
  obtain ⟨x, hx, hcomp⟩ := readComponent_sound hread
  cases hcomp with
  | opening =>
    obtain ⟨rfl, -⟩ := List.cons.inj hx
    intro selectors k hselectors
    have hstarts : Starts (.functional name selectors) ':' := starts_of_mark (by decide) rfl
    exact h.push (.functional hselectors) (h.spaced.push htrivia hstarts nofun nofun nofun)

end Frame.Shaped

theorem Reads.shaped {s : Stack} (h : Reads s cs selectors) (hframe : s.frame.Shaped cs)
    (houter : ∀ p ∈ s.outer, p.2.Expects p.1) : ∀ t ∈ selectors, ShapedSelector t := by
  have hnonempty : ∀ {nodes : List Tree}, nodes.isEmpty = false → nodes ≠ [] := by
    rintro nodes hempty rfl
    cases hempty
  induction h with
  | done htrivia hmove =>
    cases hmove with
    | done hnodes => exact hframe.close (hnonempty hnodes)
  | more htrivia hmove hrest ih =>
    cases hmove with
    | comma hnodes => exact ih (hframe.next (hnonempty hnodes) _) houter
    | close hnodes hopen =>
      obtain ⟨hexpects, hothers⟩ := List.forall_mem_cons.1 (hopen ▸ houter)
      exact ih (hexpects _ _ (hframe.close (hnonempty hnodes))) hothers
    | @component c rest r comp _ _ hread =>
      cases comp with
      | node t => exact ih (hframe.component htrivia hread) houter
      | opening name =>
        have hexpects := hframe.opening htrivia hread
        exact ih (.empty _) (List.forall_mem_cons.2 ⟨hexpects, houter⟩)

/-- Every selector that is read, at any depth, has nodes in order, and all nodes are what nodes of
selectors can be. -/
theorem parse_shaped {text : String} (h : parse text = .ok t) :
    ∃ selectors, t = .root selectors ∧ ∀ s ∈ selectors, ShapedSelector s := by
  obtain ⟨selectors, rfl, hreads⟩ := parse_eq_ok_iff.1 h
  exact ⟨selectors, rfl, hreads.shaped (.empty _) nofun⟩

end Frames

theorem parse_shaped_names :
    parse "a b" = .ok (.root [.selector [.leaf .tag "a", space, .leaf .tag "b"]]) ∧
      ∃ selectors, Tree.root [.selector [.leaf .tag "a", space, .leaf .tag "b"]] = .root selectors ∧
        ∀ s ∈ selectors, ShapedSelector s := by
  have ha : ComponentAt (.node (.leaf .tag "a")) "a".toList " b".toList :=
    .tag ⟨by decide, by decide⟩ rfl
  have hb : ComponentAt (.node (.leaf .tag "b")) "b".toList [] := .tag ⟨by decide, by decide⟩ rfl
  have hspace : skipTrivia " b".toList = .ok "b".toList := by
    rw [show " b".toList = ' ' :: ['b'] from rfl, skipTrivia_blank (by decide)]
    exact tight_cons (by decide) (by decide) []
  have hreads : Reads .start "a b".toList
      [.selector [.leaf .tag "a", space, .leaf .tag "b"]] := by
    refine ha.reads rfl rfl ?_
    exact .more hspace (.component (by decide) (by decide) (hb.read rfl))
      (.done tight_nil (.done rfl rfl))
  have hparse := parse_eq_ok_iff.2 ⟨_, rfl, hreads⟩
  exact ⟨hparse, parse_shaped hparse⟩

end ScopedStyles.Selector
