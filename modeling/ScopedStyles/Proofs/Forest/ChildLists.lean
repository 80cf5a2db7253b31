import ScopedStyles.Proofs.Forest.Consistent
import ScopedStyles.Proofs.Forest.Layers

namespace ScopedStyles.Forest

open Selector

variable {f g : Forest} {kids : Nat → List Nat} {p r s c : Nat} {a b : List Nat}

inductive Edit where
  | append (parent child : Nat)
  | insertBefore (reference child : Nat)
  | detach (node : Nat)
  | replaceWith (old replacement : Nat)
  | replaceWithChildren (old container : Nat)

def putBefore (r c : Nat) (kids : Nat → List Nat) (q : Nat) : List Nat :=
  (kids q).flatMap fun x => if x = r then [c, r] else [x]

/-- The node `c` may come to the place of `r` or in front of it. -/
structure Fits (f : Forest) (r c : Nat) : Prop where
  bound : c < f.size
  other : r ≠ c
  placed : (f.get r).parent ≠ none
  notAbove : ∀ p, (f.get r).parent = some p → ¬ Relation.ReflTransGen (Up f) p c

namespace Edit

def run (f : Forest) : Edit → Forest × List Nat
  | append p c => (f.append p c, [])
  | insertBefore r c => (f.insertBefore r c, [])
  | detach c => (f.detach c, [])
  | replaceWith r c => (f.replaceWith r c, [])
  | replaceWithChildren r s => f.liftChildren r s

def lists (kids : Nat → List Nat) : Edit → Nat → List Nat
  | append p c => Function.update (without c kids) p (without c kids p ++ [c])
  | insertBefore r c => putBefore r c (without c kids)
  | detach c => without c kids
  | replaceWith r c => exchange r c (without c kids)
  | replaceWithChildren r s => splice r s kids

def returned (kids : Nat → List Nat) : Edit → List Nat
  | replaceWithChildren _ s => kids s
  | _ => []

/-- A node that moves is not at or above its new parent, and a node whose place is taken has one. -/
def Allowed (f : Forest) : Edit → Prop
  | append p c => p < f.size ∧ c < f.size ∧ ¬ Relation.ReflTransGen (Up f) p c
  | insertBefore r c => Fits f r c
  | detach _ => True
  | replaceWith r c => Fits f r c
  | replaceWithChildren r s => (f.get r).parent ≠ none ∧ Relation.ReflTransGen (Up f) s r

end Edit

/-- The nodes and their labels are the same, the links are consistent, and the lists of children have
become `kids`. -/
structure Refined (f g : Forest) (kids : Nat → List Nat) : Prop where
  consistent : Consistent g
  size : g.size = f.size
  label : ∀ j, g.label j = f.label j
  children : g.children = kids

theorem Linked.putBefore_eq (h : Linked f kids) (hp : kids p = a ++ r :: b) :
    putBefore r c kids = Function.update kids p (a ++ c :: r :: b) := by
  funext q
  by_cases hq : q = p
  · subst hq
    have hnodup := h.nodup q
    rw [hp] at hnodup
    have ha : r ∉ a := by grind
    have hb : r ∉ b := by grind
    unfold putBefore
    rw [Function.update_self, hp, List.flatMap_append, List.flatMap_cons, if_pos rfl,
      flatMap_splice_of_notMem ha, flatMap_splice_of_notMem hb]
    rfl
  · rw [Function.update_of_ne hq]
    refine flatMap_splice_of_notMem fun hmem => hq (h.unique hmem ?_)
    rw [hp]
    simp

theorem Refined.of_linked (hlinked : Linked g kids) (hwell : WellFormed g) (hsize : g.size = f.size)
    (hlabel : ∀ j, g.label j = f.label j) : Refined f g kids where
  consistent := wellFormed_iff_consistent.1 hwell
  size := hsize
  label := hlabel
  children := funext hlinked.children_eq

namespace Fits

theorem guarded (h : Fits f r c) (hf : WellFormed f) : Guarded f r c where
  placed := h.placed
  other := h.other
  notBelow := by
    intro hbelow
    rcases ((below_iff_up hf.linked).1 hbelow).cases_head with heq | ⟨p, hp, hup⟩
    · exact h.other heq
    · exact h.notAbove p hp hup

theorem place (h : Fits f r c) (hf : WellFormed f) :
    ∃ p a b, without c f.children p = a ++ r :: b := by
  obtain ⟨p, hp⟩ := Option.ne_none_iff_exists'.1 h.placed
  obtain ⟨a, b, hsplit⟩ := List.append_of_mem (mem_without.2 ⟨hf.mem_children.2 hp, h.other⟩)
  exact ⟨p, a, b, hsplit⟩

end Fits

namespace WellFormed

theorem append_refined (h : WellFormed f) (hp : p < f.size) (hc : c < f.size)
    (hnot : ¬ Relation.ReflTransGen (Up f) p c) :
    Refined f (f.append p c) ((Edit.append p c).lists f.children) := by
  have hbelow : ¬ Below f.children c p := (below_iff_up h.linked).not.2 hnot
  have hedited := h.append hp hc hbelow
  have hpc : p ≠ c := by
    rintro rfl
    exact hnot .refl
  exact .of_linked (h.linked.append hp hc hpc).1 hedited.wellFormed hedited.size hedited.label

theorem insertBefore_refined (h : WellFormed f) (hfits : Fits f r c) :
    Refined f (f.insertBefore r c) ((Edit.insertBefore r c).lists f.children) := by
  obtain ⟨p, a, b, hsplit⟩ := hfits.place h
  have hedited := h.insertBefore (hfits.guarded h) hfits.bound
  have hlinked := (h.linked.insertBefore hsplit hfits.bound).1
  rw [← (h.linked.detach c).putBefore_eq hsplit] at hlinked
  exact .of_linked hlinked hedited.wellFormed hedited.size hedited.label

theorem detach_refined (h : WellFormed f) (c : Nat) :
    Refined f (f.detach c) ((Edit.detach c).lists f.children) := by
  have hedited := h.detach c
  exact .of_linked (h.linked.detach c) hedited.wellFormed hedited.size hedited.label

theorem replaceWith_refined (h : WellFormed f) (hfits : Fits f r c) :
    Refined f (f.replaceWith r c) ((Edit.replaceWith r c).lists f.children) := by
  obtain ⟨p, a, b, hsplit⟩ := hfits.place h
  obtain ⟨hlinked, hsize, hlabel⟩ := h.linked.replaceMoved hsplit hfits.bound
  rw [← (h.linked.detach c).exchange_eq hsplit] at hlinked
  have hinserted := h.insertBefore (hfits.guarded h) hfits.bound
  have hwell : WellFormed (f.replaceWith r c) := by
    unfold Forest.replaceWith
    rw [if_neg hfits.other]
    exact (hinserted.wellFormed.detach r).wellFormed
  exact .of_linked hlinked hwell hsize hlabel

theorem splice_graded (h : WellFormed f) (hs : Below f.children r s) (hsize : g.size = f.size) :
    Graded g (splice r s f.children) fun i => (above f i).card where
  above := by
    intro p i hi
    rcases (mem_splice.1 hi).2 with ⟨hmem, -⟩ | ⟨hmem, hr⟩
    · exact h.graded.above hmem
    · have hpr := h.graded.above hr
      have hsi := h.graded.above hmem
      have hrs := hs.rank_le h.graded
      omega
  bound := by
    intro i hi
    rw [hsize] at hi ⊢
    exact h.graded.bound hi

theorem replaceWithChildren_refined (h : WellFormed f) (hr : (f.get r).parent ≠ none)
    (hs : Relation.ReflTransGen (Up f) s r) :
    Refined f (f.replaceWithChildren r s) ((Edit.replaceWithChildren r s).lists f.children) := by
  obtain ⟨p, hp⟩ := Option.ne_none_iff_exists'.1 hr
  obtain ⟨a, b, hsplit⟩ := List.append_of_mem (h.mem_children.2 hp)
  have hbelow : Below f.children r s := (below_iff_up h.linked).2 hs
  have hsp : s ≠ p := by
    rintro rfl
    exact h.acyclic s (.tail' hs hp)
  obtain ⟨hlinked, hsize, hlabel⟩ := h.linked.replaceWithChildren hsplit hsp
  rw [← h.linked.splice_eq hsplit hsp] at hlinked
  exact .of_linked hlinked (.of_graded hlinked (h.splice_graded hbelow hsize)) hsize hlabel

end WellFormed

namespace Edit

theorem refined (h : Consistent f) {e : Edit} (he : e.Allowed f) :
    Refined f (e.run f).1 (e.lists f.children) := by
  have hf := wellFormed_iff_consistent.2 h
  cases e with
  | append p c => exact hf.append_refined he.1 he.2.1 he.2.2
  | insertBefore r c => exact hf.insertBefore_refined he
  | detach c => exact hf.detach_refined c
  | replaceWith r c => exact hf.replaceWith_refined he
  | replaceWithChildren r s => exact hf.replaceWithChildren_refined he.1 he.2

def removed : Edit → Option Nat
  | append _ _ => none
  | insertBefore _ _ => none
  | detach c => some c
  | replaceWith r _ => some r
  | replaceWithChildren r _ => some r

theorem notMem_lists (h : WellFormed f) {e : Edit} (he : e.Allowed f) (hr : r ∈ e.removed)
    (q : Nat) : r ∉ e.lists f.children q := by
  cases e with
  | append p c => cases hr
  | insertBefore r c => cases hr
  | detach c =>
    cases hr
    exact notMem_without q
  | replaceWith r c =>
    cases hr
    intro hmem
    rcases mem_exchange.1 hmem with ⟨-, hne⟩ | ⟨heq, -⟩
    · exact hne rfl
    · exact he.other heq
  | replaceWithChildren r s =>
    cases hr
    intro hmem
    rcases (mem_splice.1 hmem).2 with ⟨-, hne⟩ | ⟨hrs, -⟩
    · exact hne rfl
    · exact h.acyclic r (.head' (h.mem_children.1 hrs) he.2)

theorem removed_alone (h : Consistent f) {e : Edit} (he : e.Allowed f) (hr : r ∈ e.removed) :
    ((e.run f).1.get r).parent = none ∧ ((e.run f).1.get r).prev = none ∧
      ((e.run f).1.get r).next = none := by
  have hrefined := refined h he
  have hwell := wellFormed_iff_consistent.2 hrefined.consistent
  apply hwell.linked.orphan
  rw [hrefined.children]
  exact notMem_lists (wellFormed_iff_consistent.2 h) he hr

theorem run_snd (f : Forest) (e : Edit) : (e.run f).2 = e.returned f.children := by
  cases e with
  | append p c => rfl
  | insertBefore r c => rfl
  | detach c => rfl
  | replaceWith r c => rfl
  | replaceWithChildren r s => rfl

def runAll (f : Forest) : List Edit → Forest × List (List Nat)
  | [] => (f, [])
  | e :: es => ((runAll (e.run f).1 es).1, (e.run f).2 :: (runAll (e.run f).1 es).2)

def listsAll (kids : Nat → List Nat) : List Edit → (Nat → List Nat) × List (List Nat)
  | [] => (kids, [])
  | e :: es => ((listsAll (e.lists kids) es).1, e.returned kids :: (listsAll (e.lists kids) es).2)

def AllAllowed (f : Forest) : List Edit → Prop
  | [] => True
  | e :: es => e.Allowed f ∧ AllAllowed (e.run f).1 es

theorem runAll_refined (h : Consistent f) {es : List Edit} (hes : AllAllowed f es) :
    Refined f (runAll f es).1 (listsAll f.children es).1 ∧
      (runAll f es).2 = (listsAll f.children es).2 := by
  induction es generalizing f with
  | nil => exact ⟨⟨h, rfl, fun _ => rfl, rfl⟩, rfl⟩
  | cons e es ih =>
    obtain ⟨he, hes⟩ := hes
    have hstep := refined h he
    obtain ⟨hrest, hreturned⟩ := ih hstep.consistent hes
    rw [hstep.children] at hrest hreturned
    refine ⟨⟨hrest.consistent, hrest.size.trans hstep.size, ?_, hrest.children⟩, ?_⟩
    · intro j
      exact (hrest.label j).trans (hstep.label j)
    · exact congrArg₂ List.cons (run_snd f e) hreturned

end Edit

/-- In a forest with consistent links, an edit that is allowed leaves consistent links, the same nodes and
their labels. It changes the lists of children as it should, and no other list; it returns the nodes that
it has moved out of their container; and a node that it takes out is left without parent and siblings.
The same holds for edits one after the other. -/
theorem edits_refine (h : Consistent f) :
    (∀ e : Edit, e.Allowed f → Refined f (e.run f).1 (e.lists f.children) ∧
      (e.run f).2 = e.returned f.children ∧
      ∀ r ∈ e.removed, ((e.run f).1.get r).parent = none ∧ ((e.run f).1.get r).prev = none ∧
        ((e.run f).1.get r).next = none) ∧
    ∀ es : List Edit, Edit.AllAllowed f es →
      Refined f (Edit.runAll f es).1 (Edit.listsAll f.children es).1 ∧
        (Edit.runAll f es).2 = (Edit.listsAll f.children es).2 := by
  refine ⟨fun e he => ⟨Edit.refined h he, e.run_snd f, ?_⟩, fun es hes => Edit.runAll_refined h hes⟩
  intro r hr
  exact Edit.removed_alone h he hr

def sampleForest : Forest :=
  ofTree (.root [.selector [.leaf .tag "a",
    .functional ":x" [.selector [.leaf .tag "b", .leaf .className "c"]], .leaf .tag "d"]])

theorem sampleForest_consistent : Consistent sampleForest :=
  wellFormed_iff_consistent.1 (ofTree_sound _).1.wellFormed

theorem sampleForest_notAbove (h : p < c) : ¬ Relation.ReflTransGen (Up sampleForest) p c := by
  obtain ⟨hsound, hgraded, -⟩ := ofTree_sound [.selector [.leaf .tag "a",
    .functional ":x" [.selector [.leaf .tag "b", .leaf .className "c"]], .leaf .tag "d"]]
  intro hup
  have hle : c ≤ p := ((below_iff_up hsound.wellFormed.linked).2 hup).rank_le hgraded
  omega

theorem edits_refine_sample :
    Consistent sampleForest ∧
      Edit.AllAllowed sampleForest [.insertBefore 2 3, .replaceWithChildren 3 4] ∧
      (Edit.runAll sampleForest [.insertBefore 2 3, .replaceWithChildren 3 4]).1.children 1 =
        [5, 6, 2, 7] ∧
      (Edit.runAll sampleForest [.insertBefore 2 3, .replaceWithChildren 3 4]).2 = [[], [5, 6]] := by
  have hparent : (sampleForest.get 2).parent = some 1 := by decide +kernel
  have hfits : Fits sampleForest 2 3 := by
    refine ⟨by decide +kernel, by decide, by simp [hparent], ?_⟩
    intro p hp
    rw [hparent] at hp
    cases hp
    exact sampleForest_notAbove (by decide)
  have hup : ((sampleForest.insertBefore 2 3).get 4).parent = some 3 := by decide +kernel
  have hallowed : Edit.AllAllowed sampleForest [.insertBefore 2 3, .replaceWithChildren 3 4] :=
    ⟨hfits, ⟨by decide +kernel, .single hup⟩, trivial⟩
  obtain ⟨hrefined, hreturned⟩ := (edits_refine sampleForest_consistent).2 _ hallowed
  refine ⟨sampleForest_consistent, hallowed, ?_, ?_⟩
  · rw [hrefined.children]
    decide +kernel
  · rw [hreturned]
    decide +kernel

end ScopedStyles.Forest
