import ScopedStyles.Selector.Parser
import ScopedStyles.Proofs.Selector.Component

namespace ScopedStyles.Selector

/-- What the next token can make of the stack. -/
inductive Move (s : Stack) (spaced : Bool) : List Char → Progress → Prop
  | done (hnodes : s.frame.nodes.isEmpty = false) (houter : s.outer = []) :
    Move s spaced [] (.done s.frame.close)
  | comma {rest : List Char} (hnodes : s.frame.nodes.isEmpty = false) :
    Move s spaced (',' :: rest) (.more ⟨s.frame.next, s.outer⟩ rest)
  | close {name : String} {frame : Frame} {outer : List (String × Frame)} {rest : List Char}
    (hnodes : s.frame.nodes.isEmpty = false) (houter : s.outer = (name, frame) :: outer) :
    Move s spaced (')' :: rest) (.more ⟨frame.push (.functional name s.frame.close), outer⟩ rest)
  | component {c : Char} {rest r : List Char} {comp : Component} (hcomma : c ≠ ',') (hclose : c ≠ ')')
    (hread : readComponent c rest = .ok (comp, r)) :
    Move s spaced (c :: rest) (.more (s.add (s.frame.separate spaced c) comp) r)

theorem stepToken_eq_ok_iff {s : Stack} {spaced : Bool} {tokens : List Char} {p : Progress} :
    stepToken s spaced tokens = .ok p ↔ Move s spaced tokens p := by
  constructor
  · intro h
    unfold stepToken at h
    split at h
    · split at h
      · cases h
      next hnodes =>
      split at h
      · next houter =>
        cases h
        exact .done (Bool.eq_false_iff.2 hnodes) (List.isEmpty_iff.1 houter)
      · cases h
    · split at h
      · cases h
      next hnodes =>
      cases h
      exact .comma (Bool.eq_false_iff.2 hnodes)
    · split at h
      · cases h
      next hnodes =>
      split at h
      · cases h
      next houter =>
      cases h
      exact .close (Bool.eq_false_iff.2 hnodes) houter
    · next c rest hcomma hclose =>
      obtain ⟨⟨comp, r⟩, hread, hok⟩ := bind_eq_ok_iff.1 h
      cases hok
      exact .component hcomma hclose hread
  · intro h
    cases h with
    | done hnodes houter =>
      unfold stepToken
      dsimp only
      rw [if_neg (Bool.eq_false_iff.1 hnodes), houter]
      rfl
    | comma hnodes => exact if_neg (Bool.eq_false_iff.1 hnodes)
    | close hnodes houter =>
      apply (if_neg (Bool.eq_false_iff.1 hnodes)).trans
      rw [houter]
    | component hcomma hclose hread =>
      unfold stepToken
      split
      · next heq => cases heq
      · next heq => exact (hcomma (List.cons.inj heq).1).elim
      · next heq => exact (hclose (List.cons.inj heq).1).elim
      · next heq =>
        cases heq
        exact bind_eq_ok_iff.2 ⟨_, hread, rfl⟩

theorem step_eq_ok_iff {s : Stack} {cs : List Char} {p : Progress} :
    step s cs = .ok p ↔
      ∃ tokens, skipTrivia cs = .ok tokens ∧ Move s (tokens.length != cs.length) tokens p := by
  constructor
  · intro h
    obtain ⟨tokens, htrivia, htoken⟩ := bind_eq_ok_iff.1 h
    exact ⟨tokens, htrivia, stepToken_eq_ok_iff.1 htoken⟩
  · rintro ⟨tokens, htrivia, hmove⟩
    exact bind_eq_ok_iff.2 ⟨tokens, htrivia, stepToken_eq_ok_iff.2 hmove⟩

/-- A selector list is read from this stack, move by move. -/
inductive Reads : Stack → List Char → List Tree → Prop
  | done {s : Stack} {cs tokens : List Char} {selectors : List Tree}
    (htrivia : skipTrivia cs = .ok tokens)
    (hmove : Move s (tokens.length != cs.length) tokens (.done selectors)) : Reads s cs selectors
  | more {s s' : Stack} {cs tokens rest : List Char} {selectors : List Tree}
    (htrivia : skipTrivia cs = .ok tokens)
    (hmove : Move s (tokens.length != cs.length) tokens (.more s' rest))
    (hrest : Reads s' rest selectors) : Reads s cs selectors

/-- A component in front is read, unless its first character is skipped or is a mark. -/
theorem ComponentAt.reads {s : Stack} {comp : Component} {c : Char} {x rest r : List Char}
    {selectors : List Tree} (hx : ComponentAt comp x r) (hfront : c :: rest = x ++ r)
    (hc : (isBlank c || c == '/' || c == ',' || c == ')') = false)
    (h : Reads (s.add (s.frame.separate false c) comp) r selectors) :
    Reads s (c :: rest) selectors := by
  simp only [Bool.or_eq_false_iff, beq_eq_false_iff_ne] at hc
  obtain ⟨⟨⟨hblank, hslash⟩, hcomma⟩, hclose⟩ := hc
  apply Reads.more (tight_cons hblank hslash rest) (.component hcomma hclose (hx.read hfront))
  rwa [bne_self_eq_false]

theorem readList_eq_ok_iff {s : Stack} {cs : List Char} {selectors : List Tree} :
    readList s cs = .ok selectors ↔ Reads s cs selectors := by
  constructor
  · intro h
    fun_induction readList s cs with
    | case1 s cs f hstep => cases h
    | case2 s cs selectors' hstep =>
      cases h
      obtain ⟨tokens, htrivia, hmove⟩ := step_eq_ok_iff.1 hstep
      exact .done htrivia hmove
    | case3 s cs s' rest hstep _ ih =>
      obtain ⟨tokens, htrivia, hmove⟩ := step_eq_ok_iff.1 hstep
      exact .more htrivia hmove (ih h)
  · intro h
    induction h with
    | done htrivia hmove => exact readList_of_done (step_eq_ok_iff.2 ⟨_, htrivia, hmove⟩)
    | more htrivia hmove _ ih =>
      exact (readList_of_more (step_eq_ok_iff.2 ⟨_, htrivia, hmove⟩)).trans ih

theorem parse_eq_ok_iff {text : String} {t : Tree} :
    parse text = .ok t ↔
      ∃ selectors, t = .root selectors ∧ Reads .start text.toList selectors := by
  constructor
  · intro h
    unfold parse at h
    split at h
    · next selectors hread =>
      cases h
      exact ⟨selectors, rfl, readList_eq_ok_iff.1 hread⟩
    · cases h
  · rintro ⟨selectors, rfl, hread⟩
    unfold parse
    rw [readList_eq_ok_iff.2 hread]

variable {P : Label → Prop}

def Frame.All (P : Label → Prop) (f : Frame) : Prop :=
  (∀ t ∈ f.selectors, t.All P) ∧ ∀ t ∈ f.nodes, t.All P

def Stack.All (P : Label → Prop) (s : Stack) : Prop :=
  s.frame.All P ∧ ∀ p ∈ s.outer, p.2.All P

theorem Frame.all_push {f : Frame} {t : Tree} : (f.push t).All P ↔ f.All P ∧ t.All P := by
  unfold Frame.All Frame.push
  rw [List.forall_mem_cons, and_comm (a := t.All P), and_assoc]

structure Framing (P : Label → Prop) : Prop where
  selector : P ⟨.selector, "", none⟩
  functional : ∀ name, P ⟨.pseudo true, name, none⟩
  descendant : P ⟨.combinator, " ", none⟩

variable {s : Stack}

theorem Framing.all_selector (hP : Framing P) {nodes : List Tree} :
    (Tree.selector nodes.reverse).All P ↔ ∀ t ∈ nodes, t.All P := by
  constructor
  · intro h t ht
    exact h.children t (List.mem_reverse.2 ht)
  · intro h
    exact .node hP.selector fun t ht => h t (List.mem_reverse.1 ht)

theorem Framing.all_next (hP : Framing P) {f : Frame} : f.next.All P ↔ f.All P := by
  unfold Frame.All Frame.next
  rw [List.forall_mem_cons, hP.all_selector]
  simp only [List.not_mem_nil, false_implies, implies_true, and_true]
  exact And.comm

theorem Framing.all_close (hP : Framing P) {f : Frame} : (∀ t ∈ f.close, t.All P) ↔ f.All P := by
  rw [← hP.all_next]
  unfold Frame.All Frame.next Frame.close
  simp only [List.mem_reverse, List.not_mem_nil, false_implies, implies_true, and_true]

theorem Framing.all_functional (hP : Framing P) {name : String} {selectors : List Tree} :
    (Tree.functional name selectors).All P ↔ ∀ t ∈ selectors, t.All P := by
  constructor
  · intro h
    exact h.children
  · intro h
    exact .node (hP.functional name) h

theorem Framing.all_separate (hP : Framing P) {f : Frame} {spaced : Bool} {c : Char} :
    (f.separate spaced c).All P ↔ f.All P := by
  unfold Frame.separate
  split
  · split
    · rw [Frame.all_push]
      exact and_iff_left (.childless hP.descendant)
    · exact Iff.rfl
  · exact Iff.rfl

theorem Framing.all_add (hP : Framing P) {spaced : Bool} {c : Char} {comp : Component} :
    (s.add (s.frame.separate spaced c) comp).All P ↔ s.All P ∧ comp.All P := by
  cases comp with
  | node t =>
    unfold Stack.All Stack.add
    dsimp only
    rw [Frame.all_push, hP.all_separate]
    exact and_right_comm
  | opening name =>
    unfold Stack.All Stack.add
    dsimp only
    rw [List.forall_mem_cons, hP.all_separate]
    unfold Frame.All Frame.empty Component.All
    simp

theorem Framing.all_closed (hP : Framing P) {name : String} {frame : Frame}
    {outer : List (String × Frame)} (houter : s.outer = (name, frame) :: outer) :
    Stack.All P ⟨frame.push (.functional name s.frame.close), outer⟩ ↔ s.All P := by
  unfold Stack.All
  rw [houter, List.forall_mem_cons, Frame.all_push, hP.all_functional, hP.all_close,
    and_comm (b := s.frame.All P), and_assoc]

theorem Framing.all_stack (hP : Framing P) {cs : List Char} {selectors : List Tree}
    (h : Reads s cs selectors) (hall : ∀ t ∈ selectors, t.All P) : s.All P := by
  induction h with
  | done _ hmove =>
    cases hmove with
    | done _ houter =>
      refine ⟨hP.all_close.1 hall, ?_⟩
      rw [houter]
      intro p hp
      cases hp
  | more _ hmove _ ih =>
    have hs' := ih hall
    cases hmove with
    | comma => exact ⟨hP.all_next.1 hs'.1, hs'.2⟩
    | close _ houter => exact (hP.all_closed houter).1 hs'
    | component => exact (hP.all_add.1 hs').1

/-- What holds of every component that can be read holds of the whole list. -/
theorem Framing.all_selectors (hP : Framing P)
    (hread : ∀ comp x r, ComponentAt comp x r → comp.All P) {cs : List Char} {selectors : List Tree}
    (h : Reads s cs selectors) (hs : s.All P) : ∀ t ∈ selectors, t.All P := by
  induction h with
  | done _ hmove =>
    cases hmove with
    | done => exact hP.all_close.2 hs.1
  | more _ hmove _ ih =>
    apply ih
    cases hmove with
    | comma => exact ⟨hP.all_next.2 hs.1, hs.2⟩
    | close _ houter => exact (hP.all_closed houter).2 hs
    | component _ _ hcomp =>
      obtain ⟨x, -, hx⟩ := readComponent_sound hcomp
      exact hP.all_add.2 ⟨hs, hread _ _ _ hx⟩

end ScopedStyles.Selector
