import ScopedStyles.Proofs.Selector.Layers

namespace ScopedStyles.Selector

/-- A property of trees that the parser keeps while it puts them together. -/
structure Composed (Q : Tree → Prop) : Prop where
  component : ∀ {t x r}, ComponentAt (.node t) x r → Q t
  descendant : Q (.leaf .combinator " ")
  selector : ∀ {nodes}, (∀ t ∈ nodes, Q t) → Q (.selector nodes)
  functional : ∀ {name selectors}, (∀ t ∈ selectors, Q t) → Q (.functional name selectors)

structure Frame.Holds (Q : Tree → Prop) (f : Frame) : Prop where
  selectors : ∀ t ∈ f.selectors, Q t
  nodes : ∀ t ∈ f.nodes, Q t

namespace Frame.Holds

variable {Q : Tree → Prop} {f : Frame}

theorem empty (Q : Tree → Prop) : Frame.empty.Holds Q :=
  ⟨nofun, nofun⟩

theorem push (h : f.Holds Q) {t : Tree} (ht : Q t) : (f.push t).Holds Q :=
  ⟨h.selectors, List.forall_mem_cons.2 ⟨ht, h.nodes⟩⟩

theorem next (h : f.Holds Q) (hQ : Composed Q) : f.next.Holds Q := by
  refine ⟨List.forall_mem_cons.2 ⟨hQ.selector ?_, h.selectors⟩, nofun⟩
  intro t ht
  exact h.nodes t (List.mem_reverse.1 ht)

theorem close (h : f.Holds Q) (hQ : Composed Q) : ∀ t ∈ f.close, Q t := by
  intro t ht
  exact (h.next hQ).selectors t (List.mem_reverse.1 ht)

theorem separate (h : f.Holds Q) (hQ : Composed Q) (spaced : Bool) (c : Char) :
    (f.separate spaced c).Holds Q := by
  rw [Frame.separate]
  split
  · split
    · exact h.push hQ.descendant
    · exact h
  · exact h

end Frame.Holds

theorem Composed.reads {Q : Tree → Prop} (hQ : Composed Q) {s : Stack} {cs : List Char}
    {selectors : List Tree} (h : Reads s cs selectors) (hframe : s.frame.Holds Q)
    (houter : ∀ p ∈ s.outer, p.2.Holds Q) : ∀ t ∈ selectors, Q t := by
  induction h with
  | done _ hmove =>
    cases hmove with
    | done => exact hframe.close hQ
  | more _ hmove _ ih =>
    cases hmove with
    | comma => exact ih (hframe.next hQ) houter
    | close _ hopen =>
      obtain ⟨hhead, hrest⟩ := List.forall_mem_cons.1 (hopen ▸ houter)
      exact ih (hhead.push (hQ.functional (hframe.close hQ))) hrest
    | @component _ _ _ comp _ _ hread =>
      obtain ⟨x, -, hcomp⟩ := readComponent_sound hread
      have hseparate := hframe.separate hQ
      cases comp with
      | node t => exact ih ((hseparate _ _).push (hQ.component hcomp)) houter
      | opening name =>
        exact ih (.empty Q) (List.forall_mem_cons.2 ⟨hseparate _ _, houter⟩)

/-- What the parser keeps holds of every selector of a parsed list. -/
theorem Composed.parse {Q : Tree → Prop} (hQ : Composed Q) {text : String} {selectors : List Tree}
    (h : parse text = .ok (.root selectors)) : ∀ t ∈ selectors, Q t := by
  obtain ⟨_, hroot, hreads⟩ := parse_eq_ok_iff.1 h
  cases hroot
  exact hQ.reads hreads (.empty Q) nofun

/-- A node has children only where they are printed. -/
inductive Tree.Displayed : Tree → Prop
  | leaf (l : Label) : Displayed (.node l [])
  | selector {nodes : List Tree} (h : ∀ t ∈ nodes, Displayed t) : Displayed (.selector nodes)
  | functional {name : String} {selectors : List Tree} (h : ∀ t ∈ selectors, Displayed t) :
    Displayed (.functional name selectors)
  | root {selectors : List Tree} (h : ∀ t ∈ selectors, Displayed t) : Displayed (.root selectors)

theorem composed_displayed : Composed Tree.Displayed where
  component h := by
    obtain ⟨l, rfl, -⟩ := h.childless
    exact .leaf l
  descendant := .leaf _
  selector h := .selector h
  functional h := .functional h

theorem displayed_of_parse {text : String} {t : Tree} (h : parse text = .ok t) : t.Displayed := by
  obtain ⟨selectors, rfl, -⟩ := parse_eq_ok_iff.1 h
  exact .root (composed_displayed.parse h)

end ScopedStyles.Selector
