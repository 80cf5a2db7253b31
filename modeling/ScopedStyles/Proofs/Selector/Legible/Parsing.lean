import ScopedStyles.Proofs.Selector.Layers
import ScopedStyles.Proofs.Selector.Shape

namespace ScopedStyles.Selector

variable {t u : Tree} {nodes selectors : List Tree} {args : List (List Tree)} {e : Bool}
  {c : Char} {x r cs rest : List Char}

theorem abuts_selectors (a b : List Tree) : Abuts (.selector a) (.selector b) :=
  ⟨nofun, nofun, nofun⟩

theorem chain_selectors (args : List (List Tree)) : (args.map Tree.selector).IsChain Abuts := by
  induction args with
  | nil => exact .nil
  | cons nodes args ih =>
    refine List.isChain_cons.2 ⟨?_, ih⟩
    intro t ht
    obtain ⟨nodes', -, rfl⟩ := List.mem_map.1 (List.mem_of_mem_head? ht)
    exact abuts_selectors nodes nodes'

/-- The nodes of an open selector, newest first. The flag is that of the newest one. -/
structure Row (e : Bool) (nodes : List Tree) : Prop where
  oldest : nodes.getLast? ≠ some space
  chain : nodes.IsChain fun u t => Abuts t u
  firm : ToLast Firm e nodes.reverse
  legible : ∀ t ∈ nodes, Legible t

theorem row_nil (e : Bool) : Row e [] :=
  ⟨nofun, .nil, trivial, nofun⟩

theorem Row.selector (h : Row e nodes) : Legible (.selector nodes.reverse) := by
  refine .node (List.isChain_reverse.2 h.chain) ?_
  intro t ht
  exact h.legible t (List.mem_reverse.1 ht)

/-- What has been read into the frame, in front of the text that is left. -/
structure Frame.Sound (f : Frame) (cs : List Char) : Prop where
  closed : ∃ args : List (List Tree), f.selectors = args.map .selector ∧
    (∀ nodes ∈ args, Stretch nodes) ∧ ∀ nodes ∈ args, ∀ t ∈ nodes, Firm false t
  legible : ∀ t ∈ f.selectors, Legible t
  row : Row cs.isEmpty f.nodes
  newest : f.nodes.head? ≠ some space
  ends : ∀ last ∈ f.nodes.head?, last.endsInName = true → EndsName cs

namespace Frame.Sound

variable {f : Frame}

theorem empty (cs : List Char) : Frame.empty.Sound cs :=
  ⟨⟨[], rfl, nofun, nofun⟩, nofun, row_nil _, nofun, nofun⟩

theorem spaced (h : f.Sound cs) : f.Spaced cs :=
  ⟨h.row.oldest, h.newest, h.row.chain, h.ends⟩

theorem close (h : f.Sound cs) (hnodes : f.nodes ≠ []) :
    ∃ args, f.close = (args.map Tree.selector) ∧ args ≠ [] ∧ (∀ nodes ∈ args, Stretch nodes) ∧
      ToLast (ToLast Firm) cs.isEmpty args ∧ ∀ t ∈ f.close, Legible t := by
  obtain ⟨args, hargs, hstretch, hfirm⟩ := h.closed
  refine ⟨args.reverse ++ [f.nodes.reverse], ?_, ?_, ?_, ?_, ?_⟩
  · rw [Frame.close, List.reverse_cons, hargs, List.map_append, List.map_reverse]
    rfl
  · exact List.append_ne_nil_of_right_ne_nil _ (List.cons_ne_nil _ _)
  · rw [List.forall_mem_append, List.forall_mem_singleton]
    exact ⟨fun nodes hmem => hstretch nodes (List.mem_reverse.1 hmem), h.spaced.stretch hnodes⟩
  · rw [toLast_snoc]
    refine ⟨?_, h.row.firm⟩
    intro nodes hmem
    exact toLast_false.2 (hfirm nodes (List.mem_reverse.1 hmem))
  · intro t ht
    rcases List.mem_cons.1 (List.mem_reverse.1 ht) with rfl | ht
    · exact h.row.selector
    · exact h.legible t ht

theorem next (h : f.Sound cs) (hcs : cs.isEmpty = false) (hnodes : f.nodes ≠ [])
    (rest : List Char) : f.next.Sound rest := by
  obtain ⟨args, hargs, hstretch, hfirm⟩ := h.closed
  have hrow : Row false f.nodes := hcs ▸ h.row
  refine ⟨⟨f.nodes.reverse :: args, ?_, ?_, ?_⟩, ?_, row_nil _, nofun, nofun⟩
  · rw [Frame.next, hargs]
    rfl
  · exact List.forall_mem_cons.2 ⟨h.spaced.stretch hnodes, hstretch⟩
  · exact List.forall_mem_cons.2 ⟨fun t ht => toLast_false.1 hrow.firm t ht, hfirm⟩
  · exact List.forall_mem_cons.2 ⟨h.row.selector, h.legible⟩

theorem push (h : f.Sound cs) (htrivia : skipTrivia cs = .ok (c :: rest)) (hc : Starts t c)
    (hbegins : t.beginsWithName = true → isNameChar c = true) (hne : t ≠ space)
    (hfirm : Firm r.isEmpty t) (hlegible : Legible t) (hends : t.endsInName = true → EndsName r) :
    ((f.separate ((c :: rest).length != cs.length) c).push t).Sound r := by
  obtain ⟨holdest, hnewest, hchain, hname⟩ := h.spaced.push htrivia hc hbegins hne hends
  have hkept := Frame.separate_selectors f ((c :: rest).length != cs.length) c
  have hbefore : ∀ u ∈ (f.separate ((c :: rest).length != cs.length) c).nodes,
      Firm false u ∧ Legible u := by
    intro u hu
    obtain rfl | hu := Frame.mem_separate hu
    · exact ⟨.space, legible_leaf _⟩
    · have hempty : cs.isEmpty = false := by
        obtain ⟨ts, rfl, -, -⟩ := skipTrivia_eq_ok_iff.1 htrivia
        simp
      have hfirm' := toLast_false.1 (hempty ▸ h.row.firm)
      exact ⟨hfirm' u (List.mem_reverse.2 hu), h.row.legible u hu⟩
  refine ⟨hkept.symm ▸ h.closed, hkept.symm ▸ h.legible, ⟨holdest, hchain, ?_, ?_⟩, hnewest, hname⟩
  · rw [Frame.push, List.reverse_cons]
    exact toLast_snoc.2 ⟨fun u hu => (hbefore u (List.mem_reverse.1 hu)).1, hfirm⟩
  · exact List.forall_mem_cons.2 ⟨hlegible, fun u hu => (hbefore u hu).2⟩

theorem component (h : f.Sound cs) (htrivia : skipTrivia cs = .ok (c :: rest))
    (hread : readComponent c rest = .ok (.node t, r)) (hsimple : t.All Label.Simple) :
    ((f.separate ((c :: rest).length != cs.length) c).push t).Sound r := by
  obtain ⟨x, hx, hcomp⟩ := readComponent_sound hread
  obtain ⟨c', y, -, rfl, -⟩ := hcomp.head
  obtain ⟨rfl, rfl⟩ := List.cons.inj hx
  obtain ⟨-, -, -, htight⟩ := skipTrivia_eq_ok_iff.1 htrivia
  obtain ⟨hstarts, hbegins⟩ := hcomp.starts htight
  obtain ⟨l, rfl, -⟩ := hcomp.childless
  have hfirm : Firm r.isEmpty (.node l []) :=
    .component hcomp htight hsimple fun hr => List.isEmpty_iff.2 hr
  exact h.push htrivia hstarts hbegins (hcomp.ne_space htight) hfirm (legible_leaf l) hcomp.ends.1

end Frame.Sound

/-- The frame around an open argument list, which a pseudo will be pushed to. -/
structure Awaits (pseudo : String) (f : Frame) : Prop where
  name : ∃ x r, PseudoNameAt pseudo x ('(' :: r)
  push : ∀ selectors r, Firm r.isEmpty (.functional pseudo selectors) →
    Legible (.functional pseudo selectors) → (f.push (.functional pseudo selectors)).Sound r

theorem Frame.Sound.opening {f : Frame} (h : f.Sound cs) (htrivia : skipTrivia cs = .ok (c :: rest))
    {name : String} (hread : readComponent c rest = .ok (.opening name, r)) :
    Awaits name (f.separate ((c :: rest).length != cs.length) c) := by
  obtain ⟨x, hx, hcomp⟩ := readComponent_sound hread
  cases hcomp with
  | @opening _ y ts _ _ hname =>
    obtain ⟨rfl, -⟩ := List.cons.inj hx
    refine ⟨⟨y, ts ++ r, hname⟩, ?_⟩
    intro selectors k hfirm hlegible
    have hstarts : Starts (.functional name selectors) ':' := starts_of_mark (by decide) rfl
    exact h.push htrivia hstarts nofun nofun hfirm hlegible nofun

theorem Awaits.close {name : String} {frame f : Frame} (h : Awaits name frame) (hf : f.Sound cs)
    (hcs : cs.isEmpty = false) (hnodes : f.nodes ≠ []) (r : List Char) :
    (frame.push (.functional name f.close)).Sound r := by
  obtain ⟨args, hargs, hsome, hstretch, hfirm, hlegible⟩ := hf.close hnodes
  obtain ⟨x, r', hname⟩ := h.name
  rw [hargs] at hlegible ⊢
  rw [hcs] at hfirm
  refine h.push _ r (.functional hname hsome hstretch ?_) (.node (chain_selectors args) hlegible)
  intro nodes hmem
  exact toLast_false.1 (toLast_false.1 hfirm nodes hmem)

theorem Reads.sound {s : Stack} (h : Reads s cs selectors) (hframe : s.frame.Sound cs)
    (houter : ∀ p ∈ s.outer, Awaits p.1 p.2) (hsimple : ∀ t ∈ selectors, t.All Label.Simple) :
    FirmList (.root selectors) ∧ Legible (.root selectors) := by
  have hnonempty : ∀ {nodes : List Tree}, nodes.isEmpty = false → nodes ≠ [] := by
    rintro nodes hempty rfl
    cases hempty
  have hbehind : ∀ {c cs rest}, skipTrivia cs = .ok (c :: rest) → cs.isEmpty = false := by
    intro c cs rest htrivia
    obtain ⟨ts, rfl, -⟩ := skipTrivia_eq_ok_iff.1 htrivia
    simp
  induction h with
  | @done s cs tokens selectors htrivia hmove =>
    cases hmove with
    | done hnodes hopen =>
      obtain ⟨args, hargs, hne, hstretch, hfirm, hlegible⟩ := hframe.close (hnonempty hnodes)
      rw [hargs] at hlegible ⊢
      have hlast : ToLast (ToLast Firm) true args :=
        hfirm.mono fun nodes hnodes => hnodes.mono fun t ht => ht.mono
      exact ⟨.root hne hstretch hlast, .node (chain_selectors args) hlegible⟩
  | @more s s' cs tokens rest selectors htrivia hmove hrest ih =>
    have hall := framing_simple.all_stack hrest hsimple
    cases hmove with
    | comma hnodes => exact ih (hframe.next (hbehind htrivia) (hnonempty hnodes) _) houter hsimple
    | close hnodes hopen =>
      obtain ⟨hawaits, hothers⟩ := List.forall_mem_cons.1 (hopen ▸ houter)
      exact ih (hawaits.close hframe (hbehind htrivia) (hnonempty hnodes) _) hothers hsimple
    | @component c rest' r comp hcomma hclose hread =>
      cases comp with
      | node t =>
        have ht := (framing_simple.all_add.1 hall).2
        exact ih (hframe.component htrivia hread ht) houter hsimple
      | opening name =>
        have hawaits := hframe.opening htrivia hread
        exact ih (.empty _) (List.forall_mem_cons.2 ⟨hawaits, houter⟩) hsimple

/-- A list that is read without attributes and bars is firm and legible. -/
theorem sound_of_parse {text : String} {t : Tree} (h : parse text = .ok t)
    (hsimple : t.All Label.Simple) : FirmList t ∧ Legible t := by
  obtain ⟨selectors, rfl, hreads⟩ := parse_eq_ok_iff.1 h
  exact hreads.sound (.empty _) nofun hsimple.children

end ScopedStyles.Selector
