import Mathlib.Logic.Function.Basic
import ScopedStyles.Forest.Edit

namespace ScopedStyles.Forest

/-- The links of the forest show `kids p` as the children of each node `p`. -/
structure Linked (f : Forest) (kids : Nat → List Nat) : Prop where
  bound : ∀ {p i}, i ∈ kids p → p < f.size ∧ i < f.size
  nodup : ∀ p, (kids p).Nodup
  first : ∀ p, (f.get p).firstChild = (kids p).head?
  last : ∀ p, (f.get p).lastChild = (kids p).getLast?
  links : ∀ {p l₁ i l₂}, kids p = l₁ ++ i :: l₂ →
    (f.get i).parent = some p ∧ (f.get i).prev = l₁.getLast? ∧ (f.get i).next = l₂.head?
  orphan : ∀ {i}, (∀ p, i ∉ kids p) →
    (f.get i).parent = none ∧ (f.get i).prev = none ∧ (f.get i).next = none

variable {f f' : Forest} {kids : Nat → List Nat} {p q i c : Nat} {a b : List Nat}

namespace Linked

theorem parent_iff (h : Linked f kids) : (f.get i).parent = some p ↔ i ∈ kids p := by
  constructor
  · intro hparent
    by_cases hsome : ∃ q, i ∈ kids q
    · obtain ⟨q, hq⟩ := hsome
      obtain ⟨l₁, l₂, hsplit⟩ := List.append_of_mem hq
      have hq' := (h.links hsplit).1
      rw [hparent] at hq'
      cases hq'
      exact hq
    · have hnone := (h.orphan fun q hq => hsome ⟨q, hq⟩).1
      rw [hparent] at hnone
      cases hnone
  · intro hi
    obtain ⟨l₁, l₂, hsplit⟩ := List.append_of_mem hi
    exact (h.links hsplit).1

theorem unique (h : Linked f kids) (hp : i ∈ kids p) (hq : i ∈ kids q) : p = q := by
  have hp' := h.parent_iff.2 hp
  have hq' := h.parent_iff.2 hq
  rw [hp'] at hq'
  exact Option.some.inj hq'

theorem parent_congr {kids' : Nat → List Nat} (h : Linked f kids) (h' : Linked f' kids')
    (hi : ∀ q, i ∈ kids' q ↔ i ∈ kids q) : (f'.get i).parent = (f.get i).parent := by
  apply Option.ext
  intro q
  rw [h.parent_iff, h'.parent_iff]
  exact hi q

theorem congr (h : Linked f kids) (hsize : f'.size = f.size)
    (hget : ∀ j, (f'.get j).parent = (f.get j).parent ∧ (f'.get j).prev = (f.get j).prev ∧
      (f'.get j).next = (f.get j).next ∧ (f'.get j).firstChild = (f.get j).firstChild ∧
      (f'.get j).lastChild = (f.get j).lastChild) : Linked f' kids where
  bound := by
    intro p i hi
    rw [hsize]
    exact h.bound hi
  nodup := h.nodup
  first := by
    intro p
    obtain ⟨-, -, -, hfirst, -⟩ := hget p
    exact hfirst.trans (h.first p)
  last := by
    intro p
    obtain ⟨-, -, -, -, hlast⟩ := hget p
    exact hlast.trans (h.last p)
  links := by
    intro p l₁ i l₂ hsplit
    obtain ⟨hparent, hprev, hnext, -, -⟩ := hget i
    rw [hparent, hprev, hnext]
    exact h.links hsplit
  orphan := by
    intro i hi
    obtain ⟨hparent, hprev, hnext, -, -⟩ := hget i
    rw [hparent, hprev, hnext]
    exact h.orphan hi

/-- The list of one node has become `l`, and nothing has changed for the nodes that it neither holds
nor has held. -/
theorem update (h : Linked f kids) {l : List Nat} (hsize : f'.size = f.size) (hnodup : l.Nodup)
    (hbound : ∀ i ∈ l, p < f.size ∧ i < f.size) (hfirst : (f'.get p).firstChild = l.head?)
    (hlast : (f'.get p).lastChild = l.getLast?)
    (hends : ∀ q, q ≠ p → (f'.get q).firstChild = (f.get q).firstChild ∧
      (f'.get q).lastChild = (f.get q).lastChild)
    (hlinks : ∀ l₁ i l₂, l = l₁ ++ i :: l₂ →
      (f'.get i).parent = some p ∧ (f'.get i).prev = l₁.getLast? ∧ (f'.get i).next = l₂.head?)
    (hnew : ∀ i ∈ l, i ∈ kids p ∨ ∀ q, i ∉ kids q)
    (hgone : ∀ i ∈ kids p, i ∉ l →
      (f'.get i).parent = none ∧ (f'.get i).prev = none ∧ (f'.get i).next = none)
    (hkept : ∀ i, i ∉ l → i ∉ kids p → (f'.get i).parent = (f.get i).parent ∧
      (f'.get i).prev = (f.get i).prev ∧ (f'.get i).next = (f.get i).next) :
    Linked f' (Function.update kids p l) := by
  constructor
  · intro q i hi
    rw [hsize]
    by_cases hq : q = p
    · subst hq
      rw [Function.update_self] at hi
      exact hbound i hi
    · rw [Function.update_of_ne hq] at hi
      exact h.bound hi
  · intro q
    by_cases hq : q = p
    · subst hq
      rw [Function.update_self]
      exact hnodup
    · rw [Function.update_of_ne hq]
      exact h.nodup q
  · intro q
    by_cases hq : q = p
    · subst hq
      rw [Function.update_self]
      exact hfirst
    · rw [Function.update_of_ne hq]
      exact (hends q hq).1.trans (h.first q)
  · intro q
    by_cases hq : q = p
    · subst hq
      rw [Function.update_self]
      exact hlast
    · rw [Function.update_of_ne hq]
      exact (hends q hq).2.trans (h.last q)
  · intro q l₁ i l₂ hsplit
    by_cases hq : q = p
    · subst hq
      rw [Function.update_self] at hsplit
      exact hlinks l₁ i l₂ hsplit
    · rw [Function.update_of_ne hq] at hsplit
      have hi : i ∈ kids q := by
        rw [hsplit]
        simp
      have hip : i ∉ kids p := fun hmem => hq (h.unique hi hmem)
      have hil : i ∉ l := fun hmem => (hnew i hmem).elim hip fun hnone => hnone q hi
      obtain ⟨hparent, hprev, hnext⟩ := hkept i hil hip
      rw [hparent, hprev, hnext]
      exact h.links hsplit
  · intro i hi
    have hil : i ∉ l := by
      have hp := hi p
      rwa [Function.update_self] at hp
    by_cases hip : i ∈ kids p
    · exact hgone i hip hil
    · obtain ⟨hparent, hprev, hnext⟩ := hkept i hil hip
      rw [hparent, hprev, hnext]
      apply h.orphan
      intro q hmem
      have hq : q ≠ p := fun heq => hip (heq ▸ hmem)
      have hnot := hi q
      rw [Function.update_of_ne hq] at hnot
      exact hnot hmem

end Linked

structure Inserted (f f' : Forest) (p c : Nat) (a b : List Nat) : Prop where
  size : f'.size = f.size
  label : ∀ j, f'.label j = f.label j
  links : (f'.get c).parent = some p ∧ (f'.get c).prev = a.getLast? ∧ (f'.get c).next = b.head?
  parent : ∀ j, j ≠ c → (f'.get j).parent = (f.get j).parent
  prev : ∀ j, j ≠ c → (f'.get j).prev = if b.head? = some j then some c else (f.get j).prev
  next : ∀ j, j ≠ c → (f'.get j).next = if a.getLast? = some j then some c else (f.get j).next
  first : ∀ j, (f'.get j).firstChild = if j = p ∧ a.getLast? = none then some c else (f.get j).firstChild
  last : ∀ j, (f'.get j).lastChild = if j = p ∧ b.head? = none then some c else (f.get j).lastChild

structure Removed (f f' : Forest) (p c : Nat) (a b : List Nat) : Prop where
  size : f'.size = f.size
  label : ∀ j, f'.label j = f.label j
  links : (f'.get c).parent = none ∧ (f'.get c).prev = none ∧ (f'.get c).next = none
  parent : ∀ j, j ≠ c → (f'.get j).parent = (f.get j).parent
  prev : ∀ j, j ≠ c → (f'.get j).prev = if b.head? = some j then a.getLast? else (f.get j).prev
  next : ∀ j, j ≠ c → (f'.get j).next = if a.getLast? = some j then b.head? else (f.get j).next
  first : ∀ j, (f'.get j).firstChild = if j = p ∧ a.getLast? = none then b.head? else (f.get j).firstChild
  last : ∀ j, (f'.get j).lastChild = if j = p ∧ b.head? = none then a.getLast? else (f.get j).lastChild

theorem Inserted.of_get (hsize : f'.size = f.size)
    (hself : f'.get c = ⟨(f.get c).label, some p, a.getLast?, b.head?,
      if c = p ∧ a.getLast? = none then some c else (f.get c).firstChild,
      if c = p ∧ b.head? = none then some c else (f.get c).lastChild⟩)
    (hother : ∀ j, j ≠ c → f'.get j = ⟨(f.get j).label, (f.get j).parent,
      if b.head? = some j then some c else (f.get j).prev,
      if a.getLast? = some j then some c else (f.get j).next,
      if j = p ∧ a.getLast? = none then some c else (f.get j).firstChild,
      if j = p ∧ b.head? = none then some c else (f.get j).lastChild⟩) : Inserted f f' p c a b where
  size := hsize
  label := by
    intro j
    by_cases hj : j = c
    · subst hj
      exact (congrArg Node.label hself).trans rfl
    · exact (congrArg Node.label (hother j hj)).trans rfl
  links := by
    rw [hself]
    exact ⟨rfl, rfl, rfl⟩
  parent := by
    intro j hj
    rw [hother j hj]
  prev := by
    intro j hj
    rw [hother j hj]
  next := by
    intro j hj
    rw [hother j hj]
  first := by
    intro j
    by_cases hj : j = c
    · subst hj
      rw [hself]
    · rw [hother j hj]
  last := by
    intro j
    by_cases hj : j = c
    · subst hj
      rw [hself]
    · rw [hother j hj]

theorem split_append {l₁ l₂ : List Nat} (h : a ++ b = l₁ ++ i :: l₂) :
    (∃ m, a = l₁ ++ i :: m ∧ l₂ = m ++ b) ∨ ∃ m, b = m ++ i :: l₂ ∧ l₁ = a ++ m := by
  rcases List.append_eq_append_iff.1 h with ⟨m, hl, hr⟩ | ⟨m, hl, hr⟩
  · exact .inr ⟨m, hr, hl⟩
  · cases m with
    | nil =>
      rw [List.append_nil] at hl
      exact .inr ⟨[], hr.symm, by rw [hl, List.append_nil]⟩
    | cons d m =>
      obtain ⟨rfl, rfl⟩ := List.cons.inj hr
      exact .inl ⟨m, hl, rfl⟩

/-- The two ways in which a list around `c` can be split at another element. -/
theorem split_around {l₁ l₂ : List Nat} (h : a ++ c :: b = l₁ ++ i :: l₂) (hne : i ≠ c) :
    (∃ m, a = l₁ ++ i :: m ∧ l₂ = m ++ c :: b) ∨ ∃ m, b = m ++ i :: l₂ ∧ l₁ = a ++ c :: m := by
  rcases split_append h with hfront | ⟨m, hback, hl⟩
  · exact .inl hfront
  · cases m with
    | nil => exact (hne (List.cons.inj hback).1.symm).elim
    | cons d m =>
      obtain ⟨rfl, rfl⟩ := List.cons.inj hback
      exact .inr ⟨m, rfl, hl⟩

theorem split_unique {l₁ l₂ : List Nat} (hnodup : (a ++ i :: b).Nodup)
    (h : a ++ i :: b = l₁ ++ i :: l₂) : a = l₁ ∧ b = l₂ := by
  rcases List.append_eq_append_iff.1 h with ⟨m, hl, hr⟩ | ⟨m, hl, hr⟩
  · cases m with
    | nil =>
      rw [List.append_nil] at hl
      exact ⟨hl.symm, (List.cons.inj hr).2⟩
    | cons d m =>
      obtain ⟨rfl, rfl⟩ := List.cons.inj hr
      grind
  · cases m with
    | nil =>
      rw [List.append_nil] at hl
      exact ⟨hl, (List.cons.inj hr).2.symm⟩
    | cons d m =>
      obtain ⟨rfl, rfl⟩ := List.cons.inj hr
      grind

theorem getLast?_ne_of_notMem {l : List Nat} (h : i ∉ l) : l.getLast? ≠ some i :=
  fun heq => h (List.mem_of_getLast? heq)

theorem head?_ne_of_notMem {l : List Nat} (h : i ∉ l) : l.head? ≠ some i :=
  fun heq => h (List.mem_of_head? heq)

theorem getLast?_eq_iff {l m : List Nat} (hm : i ∉ m) :
    (l ++ i :: m).getLast? = some i ↔ m = [] := by
  constructor
  · intro hlast
    cases m with
    | nil => rfl
    | cons x m =>
      rw [List.getLast?_append, List.getLast?_cons_cons] at hlast
      have hsome : (x :: m).getLast?.or l.getLast? = (x :: m).getLast? := by
        rw [List.getLast?_cons]
        rfl
      rw [hsome] at hlast
      exact (getLast?_ne_of_notMem hm hlast).elim
  · intro hnil
    subst hnil
    simp

theorem head?_eq_iff {l m : List Nat} (hm : i ∉ m) : (m ++ i :: l).head? = some i ↔ m = [] := by
  constructor
  · intro hhead
    cases m with
    | nil => rfl
    | cons x m =>
      rw [List.cons_append, List.head?_cons] at hhead
      exact (hm (Option.some.inj hhead ▸ List.mem_cons_self)).elim
  · intro hnil
    subst hnil
    rfl

theorem Inserted.links_of (h : Linked f kids) (hp : kids p = a ++ b) (hnodup : (a ++ c :: b).Nodup)
    (hf : Inserted f f' p c a b) {l₁ l₂ : List Nat} (hsplit : a ++ c :: b = l₁ ++ i :: l₂) :
    (f'.get i).parent = some p ∧ (f'.get i).prev = l₁.getLast? ∧ (f'.get i).next = l₂.head? := by
  by_cases hic : i = c
  · subst hic
    obtain ⟨rfl, rfl⟩ := split_unique hnodup hsplit
    exact hf.links
  · rw [hf.parent i hic, hf.prev i hic, hf.next i hic]
    rcases split_around hsplit hic with ⟨m, rfl, rfl⟩ | ⟨m, rfl, rfl⟩
    · have hold : kids p = l₁ ++ i :: (m ++ b) := by
        rw [hp]
        simp
      obtain ⟨hparent, hprev, hnext⟩ := h.links hold
      have hib : i ∉ b := by grind
      have him : i ∉ m := by grind
      refine ⟨hparent, ?_, ?_⟩
      · rw [if_neg (head?_ne_of_notMem hib), hprev]
      · rw [hnext]
        cases m with
        | nil => simp
        | cons x m => rw [if_neg ((getLast?_eq_iff him).not.2 (List.cons_ne_nil x m))]; rfl
    · have hold : kids p = (a ++ m) ++ i :: l₂ := by
        rw [hp]
        simp
      obtain ⟨hparent, hprev, hnext⟩ := h.links hold
      have hia : i ∉ a := by grind
      have him : i ∉ m := by grind
      refine ⟨hparent, ?_, ?_⟩
      · rw [hprev]
        cases m with
        | nil => simp
        | cons x m =>
          rw [if_neg ((head?_eq_iff him).not.2 (List.cons_ne_nil x m))]
          simp [List.getLast?_append, List.getLast?_cons_cons]
      · rw [if_neg (getLast?_ne_of_notMem hia), hnext]

theorem Linked.insert (h : Linked f kids) (hp : kids p = a ++ b) (hc : ∀ q, c ∉ kids q)
    (hps : p < f.size) (hcs : c < f.size) (hf : Inserted f f' p c a b) :
    Linked f' (Function.update kids p (a ++ c :: b)) := by
  have hcab : c ∉ a ++ b := hp ▸ hc p
  have hmem : ∀ {i}, i ∈ a ++ c :: b ↔ i = c ∨ i ∈ kids p := by
    intro i
    rw [hp]
    grind
  have hnodup : (a ++ c :: b).Nodup := by
    have hold := h.nodup p
    rw [hp] at hold
    grind
  apply h.update hf.size hnodup
  · intro i hi
    refine ⟨hps, ?_⟩
    rcases hmem.1 hi with rfl | hold
    · exact hcs
    · exact (h.bound hold).2
  · rw [hf.first, h.first, hp]
    cases a with
    | nil => simp
    | cons x a => simp
  · rw [hf.last, h.last, hp]
    cases b with
    | nil => simp
    | cons x b => simp [List.getLast?_append, List.getLast?_cons_cons]
  · intro q hq
    rw [hf.first, hf.last, if_neg fun hand => hq hand.1, if_neg fun hand => hq hand.1]
    exact ⟨rfl, rfl⟩
  · intro l₁ i l₂ hsplit
    exact hf.links_of h hp hnodup hsplit
  · intro i hi
    rcases hmem.1 hi with rfl | hold
    · exact .inr hc
    · exact .inl hold
  · intro i hold hi
    exact (hi (hmem.2 (.inr hold))).elim
  · intro i hi hold
    have hic : i ≠ c := fun heq => hi (hmem.2 (.inl heq))
    rw [hp, List.mem_append, not_or] at hold
    rw [hf.parent i hic, hf.prev i hic, hf.next i hic, if_neg (head?_ne_of_notMem hold.2),
      if_neg (getLast?_ne_of_notMem hold.1)]
    exact ⟨rfl, rfl, rfl⟩

theorem Removed.links_of (h : Linked f kids) (hp : kids p = a ++ c :: b)
    (hf : Removed f f' p c a b) {l₁ l₂ : List Nat} (hsplit : a ++ b = l₁ ++ i :: l₂) :
    (f'.get i).parent = some p ∧ (f'.get i).prev = l₁.getLast? ∧ (f'.get i).next = l₂.head? := by
  have hnodup := h.nodup p
  rw [hp] at hnodup
  have hiab : i ∈ a ++ b := by
    rw [hsplit]
    simp
  have hic : i ≠ c := by
    intro heq
    subst heq
    grind
  rw [hf.parent i hic, hf.prev i hic, hf.next i hic]
  rcases split_append hsplit with ⟨m, rfl, rfl⟩ | ⟨m, rfl, rfl⟩
  · have hold : kids p = l₁ ++ i :: (m ++ c :: b) := by
      rw [hp]
      simp
    obtain ⟨hparent, hprev, hnext⟩ := h.links hold
    have hib : i ∉ b := by grind
    have him : i ∉ m := by grind
    refine ⟨hparent, ?_, ?_⟩
    · rw [if_neg (head?_ne_of_notMem hib), hprev]
    · rw [hnext]
      cases m with
      | nil => simp
      | cons x m =>
        rw [if_neg ((getLast?_eq_iff him).not.2 (List.cons_ne_nil x m))]
        rfl
  · have hold : kids p = (a ++ c :: m) ++ i :: l₂ := by
      rw [hp]
      simp
    obtain ⟨hparent, hprev, hnext⟩ := h.links hold
    have hia : i ∉ a := by grind
    have him : i ∉ m := by grind
    refine ⟨hparent, ?_, ?_⟩
    · rw [hprev]
      cases m with
      | nil => simp
      | cons x m =>
        rw [if_neg ((head?_eq_iff him).not.2 (List.cons_ne_nil x m))]
        simp [List.getLast?_append, List.getLast?_cons_cons]
    · rw [if_neg (getLast?_ne_of_notMem hia), hnext]

theorem Linked.remove (h : Linked f kids) (hp : kids p = a ++ c :: b) (hf : Removed f f' p c a b) :
    Linked f' (Function.update kids p (a ++ b)) := by
  have hnodup := h.nodup p
  rw [hp] at hnodup
  have hmem : ∀ {i}, i ∈ kids p ↔ i = c ∨ i ∈ a ++ b := by
    intro i
    rw [hp]
    grind
  apply h.update hf.size
  · grind
  · intro i hi
    exact h.bound (hmem.2 (.inr hi))
  · rw [hf.first, h.first, hp]
    cases a with
    | nil => simp
    | cons x a => simp
  · rw [hf.last, h.last, hp]
    cases b with
    | nil => simp
    | cons x b => simp [List.getLast?_append, List.getLast?_cons_cons]
  · intro q hq
    rw [hf.first, hf.last, if_neg fun hand => hq hand.1, if_neg fun hand => hq hand.1]
    exact ⟨rfl, rfl⟩
  · intro l₁ i l₂ hsplit
    exact hf.links_of h hp hsplit
  · intro i hi
    exact .inl (hmem.2 (.inr hi))
  · intro i hold hi
    rcases hmem.1 hold with rfl | hside
    · exact hf.links
    · exact (hi hside).elim
  · intro i hi hold
    have hic : i ≠ c := fun heq => hold (hmem.2 (.inl heq))
    rw [List.mem_append, not_or] at hi
    rw [hf.parent i hic, hf.prev i hic, hf.next i hic, if_neg (head?_ne_of_notMem hi.2),
      if_neg (getLast?_ne_of_notMem hi.1)]
    exact ⟨rfl, rfl, rfl⟩

end ScopedStyles.Forest
