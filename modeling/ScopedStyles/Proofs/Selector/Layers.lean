import ScopedStyles.Proofs.Selector.Moves

namespace ScopedStyles.Selector

/-- The second label can be that of a child of the first. -/
def Label.Nests (l m : Label) : Prop :=
  match m.kind with
  | .root => False
  | .selector => l.kind = .root ∨ l.isPseudo = true
  | _ => l.kind = .selector

namespace Label

variable {l m : Label}

theorem nests_of_selector (hm : m.kind = .selector) (hl : l.kind = .root ∨ l.isPseudo = true) :
    l.Nests m := by
  unfold Nests
  rw [hm]
  exact hl

theorem nests_of_component (hroot : m.kind ≠ .root) (hselector : m.kind ≠ .selector)
    (hl : l.kind = .selector) : l.Nests m := by
  unfold Nests
  split
  · exact hroot ‹_›
  · exact (hselector ‹_›).elim
  · exact hl

theorem Nests.below (h : l.Nests m) (hl : l.kind ≠ .selector) :
    m.kind = .selector ∧ (l.kind = .root ∨ l.isPseudo = true) := by
  unfold Nests at h
  split at h
  · exact h.elim
  · next hm => exact ⟨hm, h⟩
  · exact (hl h).elim

theorem Nests.above (h : l.Nests m) (hm : m.kind ≠ .selector) : l.kind = .selector := by
  unfold Nests at h
  split at h
  · exact h.elim
  · exact (hm ‹_›).elim
  · exact h

theorem kind_of_isPseudo (h : l.isPseudo = true) : l.kind ≠ .root ∧ l.kind ≠ .selector := by
  unfold isPseudo at h
  split at h
  · next hkind =>
    rw [hkind]
    exact ⟨nofun, nofun⟩
  · cases h

structure IsLeaf (l : Label) : Prop where
  notRoot : l.kind ≠ .root
  notSelector : l.kind ≠ .selector
  notPseudo : l.isPseudo = false

/-- A namespace that has been read is a prefix with a name. -/
def Qualified (l : Label) : Prop :=
  ∀ ns ∈ l.ns, ∃ name, ns = .named name ∧ name ≠ ""

end Label

/-- Each node may stand where it does. -/
inductive Tree.Layered : Tree → Prop
  | node {l : Label} {ts : List Tree} (hnests : ∀ t ∈ ts, l.Nests t.label)
    (hts : ∀ t ∈ ts, Layered t) : Layered (.node l ts)

theorem Tree.Layered.childless (l : Label) : (Tree.node l []).Layered := by
  refine .node ?_ ?_
  · intro t ht
    cases ht
  · intro t ht
    cases ht

structure Tree.IsComponent (t : Tree) : Prop where
  layered : t.Layered
  notRoot : t.label.kind ≠ .root
  notSelector : t.label.kind ≠ .selector

structure Tree.IsSelector (t : Tree) : Prop where
  layered : t.Layered
  kind : t.label.kind = .selector

theorem Tree.isSelector_selector {nodes : List Tree} (h : ∀ t ∈ nodes, t.IsComponent) :
    (Tree.selector nodes).IsSelector := by
  refine ⟨.node ?_ fun t ht => (h t ht).layered, rfl⟩
  intro t ht
  exact Label.nests_of_component (h t ht).notRoot (h t ht).notSelector rfl

theorem Tree.isComponent_functional {name : String} {selectors : List Tree}
    (h : ∀ t ∈ selectors, t.IsSelector) : (Tree.functional name selectors).IsComponent := by
  refine ⟨.node ?_ fun t ht => (h t ht).layered, nofun, nofun⟩
  intro t ht
  exact Label.nests_of_selector (h t ht).kind (.inr rfl)

theorem Tree.layered_root {selectors : List Tree} (h : ∀ t ∈ selectors, t.IsSelector) :
    (Tree.root selectors).Layered := by
  refine .node ?_ fun t ht => (h t ht).layered
  intro t ht
  exact Label.nests_of_selector (h t ht).kind (.inl rfl)

theorem ComponentAt.childless {t : Tree} {x r : List Char} (h : ComponentAt (.node t) x r) :
    ∃ l, t = .node l [] ∧ l.kind ≠ .root ∧ l.kind ≠ .selector ∧ l.Qualified := by
  have hprefix : ∀ {kind : Kind} {value name : String}, name ≠ "" →
      Label.Qualified ⟨kind, value, some (.named name)⟩ := by
    intro kind value name hname ns hns
    exact ⟨name, (Option.some.inj hns).symm, hname⟩
  have hnone : ∀ {kind : Kind} {value : String}, Label.Qualified ⟨kind, value, none⟩ := by
    intro kind value ns hns
    cases hns
  have hname : ∀ {name : String} {k : List Char}, NameBefore name.toList k → name ≠ "" := by
    intro name k hname heq
    obtain ⟨c, n, hn, -⟩ := hname.head
    rw [heq] at hn
    cases hn
  have helement : ∀ {name : String} {y : List Char}, name ≠ "" → ElementAt (.named name) t y r →
      ∃ l, t = .node l [] ∧ l.kind ≠ .root ∧ l.kind ≠ .selector ∧ l.Qualified := by
    intro name y hne ht
    cases ht with
    | universal => exact ⟨_, rfl, nofun, nofun, hprefix hne⟩
    | tag => exact ⟨_, rfl, nofun, nofun, hprefix hne⟩
  cases h with
  | bracket ht =>
    cases ht with
    | intro _ _ hattribute =>
      cases hattribute with
      | any => exact ⟨_, rfl, nofun, nofun, hprefix (by decide)⟩
      | barred => exact ⟨_, rfl, nofun, nofun, hnone⟩
      | prefixed hfirst => exact ⟨_, rfl, nofun, nofun, hprefix (hname hfirst)⟩
      | plain => exact ⟨_, rfl, nofun, nofun, hnone⟩
  | anyElement ht => exact helement (by decide) ht
  | element hfirst ht => exact helement (hname hfirst) ht
  | _ => exact ⟨_, rfl, nofun, nofun, hnone⟩

structure Frame.Layered (f : Frame) : Prop where
  selectors : ∀ t ∈ f.selectors, t.IsSelector
  nodes : ∀ t ∈ f.nodes, t.IsComponent

structure Stack.Layered (s : Stack) : Prop where
  frame : s.frame.Layered
  outer : ∀ p ∈ s.outer, p.2.Layered

namespace Frame.Layered

variable {f : Frame}

theorem empty : Frame.Layered .empty :=
  ⟨nofun, nofun⟩

theorem push (h : f.Layered) {t : Tree} (ht : t.IsComponent) : (f.push t).Layered :=
  ⟨h.selectors, List.forall_mem_cons.2 ⟨ht, h.nodes⟩⟩

theorem close (h : f.Layered) : ∀ t ∈ f.close, t.IsSelector := by
  have hopen : (Tree.selector f.nodes.reverse).IsSelector :=
    Tree.isSelector_selector fun t ht => h.nodes t (List.mem_reverse.1 ht)
  intro t ht
  rcases List.mem_cons.1 (List.mem_reverse.1 ht) with rfl | ht
  · exact hopen
  · exact h.selectors t ht

theorem next (h : f.Layered) : f.next.Layered := by
  refine ⟨?_, nofun⟩
  intro t ht
  exact h.close t (List.mem_reverse.2 ht)

theorem separate (h : f.Layered) (spaced : Bool) (c : Char) : (f.separate spaced c).Layered := by
  unfold Frame.separate
  split
  · split
    · exact h.push ⟨.childless _, nofun, nofun⟩
    · exact h
  · exact h

end Frame.Layered

theorem Stack.Layered.add {s : Stack} (h : s.Layered) {frame : Frame} (hframe : frame.Layered)
    {comp : Component} {x r : List Char} (hcomp : ComponentAt comp x r) :
    (s.add frame comp).Layered := by
  cases comp with
  | node t =>
    obtain ⟨l, rfl, hroot, hselector, -⟩ := hcomp.childless
    exact ⟨hframe.push ⟨.childless l, hroot, hselector⟩, h.outer⟩
  | opening name => exact ⟨.empty, List.forall_mem_cons.2 ⟨hframe, h.outer⟩⟩

theorem Reads.layered {s : Stack} {cs : List Char} {selectors : List Tree}
    (h : Reads s cs selectors) (hs : s.Layered) : ∀ t ∈ selectors, t.IsSelector := by
  induction h with
  | done _ hmove =>
    cases hmove with
    | done => exact hs.frame.close
  | more _ hmove _ ih =>
    apply ih
    cases hmove with
    | comma => exact ⟨hs.frame.next, hs.outer⟩
    | close _ houter =>
      obtain ⟨hframe, houter⟩ := List.forall_mem_cons.1 (houter ▸ hs.outer)
      exact ⟨hframe.push (Tree.isComponent_functional hs.frame.close), houter⟩
    | component _ _ hread =>
      obtain ⟨x, -, hcomp⟩ := readComponent_sound hread
      exact hs.add (hs.frame.separate _ _) hcomp

theorem framing_qualified : Framing Label.Qualified :=
  ⟨nofun, fun _ => nofun, nofun⟩

/-- A parsed tree is layered and its namespaces are prefixes with names. -/
theorem parse_shape {text : String} {t : Tree} (h : parse text = .ok t) :
    ∃ selectors, t = .root selectors ∧ t.Layered ∧ t.All Label.Qualified := by
  obtain ⟨selectors, rfl, hreads⟩ := parse_eq_ok_iff.1 h
  refine ⟨selectors, rfl, ?_, ?_⟩
  · exact Tree.layered_root (hreads.layered ⟨.empty, nofun⟩)
  · have hcomponent : ∀ comp x r, ComponentAt comp x r → comp.All Label.Qualified := by
      intro comp x r hcomp
      cases comp with
      | node t =>
        obtain ⟨l, rfl, -, -, hl⟩ := hcomp.childless
        exact .childless hl
      | opening name => trivial
    have hall := framing_qualified.all_selectors hcomponent hreads ⟨⟨nofun, nofun⟩, nofun⟩
    exact .node nofun hall

end ScopedStyles.Selector
