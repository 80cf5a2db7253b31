import ScopedStyles.Proofs.Forest.WellFormed

namespace ScopedStyles.Forest

variable {f : Forest} {p q i j n : Nat} {l l₁ l₂ : List Nat}

def Next (f : Forest) (i j : Nat) : Prop :=
  (f.get i).next = some j

/-- The links of neighbours agree, a node without a parent has no siblings, and there are no cycles. -/
structure Consistent (f : Forest) : Prop where
  prev_iff : ∀ {i j}, (f.get j).prev = some i ↔ Next f i j
  parent_eq : ∀ {i j}, Next f i j → (f.get i).parent = (f.get j).parent
  placed : ∀ {i j}, Next f i j → (f.get i).parent ≠ none
  first_iff : ∀ {p i}, (f.get p).firstChild = some i ↔
    (f.get i).parent = some p ∧ (f.get i).prev = none
  last_iff : ∀ {p i}, (f.get p).lastChild = some i ↔
    (f.get i).parent = some p ∧ (f.get i).next = none
  upwards : ∀ i, ¬ Relation.TransGen (Up f) i i
  onwards : ∀ i, ¬ Relation.TransGen (Next f) i i

open Classical in
theorem wellFounded_of_acyclic {R : Nat → Nat → Prop} (hbound : ∀ {i j}, R i j → j < n)
    (hacyclic : ∀ i, ¬ Relation.TransGen R i i) : WellFounded (flip R) := by
  let reached (i : Nat) : Finset Nat := (Finset.range n).filter (Relation.TransGen R i)
  have hmem {i j : Nat} : j ∈ reached i ↔ j < n ∧ Relation.TransGen R i j := by
    rw [Finset.mem_filter, Finset.mem_range]
  refine Subrelation.wf ?_ (InvImage.wf (fun i => (reached i).card) Nat.lt_wfRel.wf)
  intro j i (hij : R i j)
  apply Finset.card_lt_card
  refine (Finset.ssubset_iff_of_subset ?_).2 ⟨j, hmem.2 ⟨hbound hij, .single hij⟩, ?_⟩
  · intro k hk
    exact hmem.2 ⟨(hmem.1 hk).1, .head hij (hmem.1 hk).2⟩
  · intro hjj
    exact hacyclic j (hmem.1 hjj).2

theorem lt_size_of_get (h : f.get i ≠ default) : i < f.size := by
  by_contra hi
  exact h (get_of_size_le (Nat.le_of_not_lt hi))

namespace Siblings

theorem head?_eq {current : Option Nat} (h : Siblings f current l) : l.head? = current := by
  cases h with
  | done => rfl
  | step => rfl

theorem split {current : Option Nat} (h : Siblings f current (l₁ ++ i :: l₂)) :
    Siblings f (f.get i).next l₂ := by
  induction l₁ generalizing current with
  | nil =>
    cases h with
    | step h => exact h
  | cons j l₁ ih =>
    cases h with
    | step h => exact ih h

theorem next_eq {current : Option Nat} (h : Siblings f current (l₁ ++ i :: l₂)) :
    (f.get i).next = l₂.head? :=
  h.split.head?_eq.symm

end Siblings

namespace Consistent

theorem lt_of_parent (h : (f.get i).parent = some p) : i < f.size := by
  apply lt_size_of_get
  intro heq
  rw [heq] at h
  cases h

theorem lt_of_next (h : Consistent f) (hij : Next f i j) : i < f.size ∧ j < f.size := by
  obtain ⟨p, hp⟩ := Option.ne_none_iff_exists'.1 (h.placed hij)
  exact ⟨lt_of_parent hp, lt_of_parent ((h.parent_eq hij).symm.trans hp)⟩

theorem wellFounded_next (h : Consistent f) : WellFounded (flip (Next f)) :=
  wellFounded_of_acyclic (fun hij => (h.lt_of_next hij).2) h.onwards

theorem wellFounded_prev (h : Consistent f) : WellFounded (Next f) := by
  apply wellFounded_of_acyclic (R := flip (Next f)) (fun hij => (h.lt_of_next hij).1)
  intro i hi
  exact h.onwards i (Relation.transGen_swap.1 hi)

theorem siblings_end (h : Consistent f) (i : Nat) : ∃ l, Siblings f (some i) l := by
  induction i using h.wellFounded_next.induction with
  | _ i ih =>
    cases hnext : (f.get i).next with
    | none => exact ⟨[i], .step (hnext ▸ .done)⟩
    | some j =>
      obtain ⟨l, hl⟩ := ih j hnext
      exact ⟨i :: l, .step (hnext ▸ hl)⟩

theorem exists_children (h : Consistent f) (p : Nat) : ∃ l, Siblings f (f.get p).firstChild l := by
  cases (f.get p).firstChild with
  | none => exact ⟨[], .done⟩
  | some i => exact h.siblings_end i

theorem mem_of_parent (h : Consistent f) (hl : Siblings f (f.get p).firstChild l)
    (hi : (f.get i).parent = some p) : i ∈ l := by
  induction i using h.wellFounded_prev.induction with
  | _ i ih =>
    cases hprev : (f.get i).prev with
    | none =>
      rw [h.first_iff.2 ⟨hi, hprev⟩] at hl
      exact List.mem_of_head? hl.head?_eq
    | some j =>
      have hji := h.prev_iff.1 hprev
      obtain ⟨l₁, l₂, rfl⟩ := List.append_of_mem (ih j hji ((h.parent_eq hji).trans hi))
      have hhead : l₂.head? = some i := hl.next_eq.symm.trans hji
      exact List.mem_append_right _ (List.mem_cons_of_mem _ (List.mem_of_head? hhead))

theorem parent_of_mem (h : Consistent f) {current : Option Nat} (hl : Siblings f current l)
    (hcurrent : ∀ i ∈ current, (f.get i).parent = some p) : ∀ i ∈ l, (f.get i).parent = some p := by
  induction hl with
  | done => exact nofun
  | @step i l hl ih =>
    have hi := hcurrent i rfl
    refine List.forall_mem_cons.2 ⟨hi, ih fun j hj => ?_⟩
    exact (h.parent_eq hj).symm.trans hi

theorem parent_iff_mem (h : Consistent f) (hl : Siblings f (f.get p).firstChild l) :
    (f.get i).parent = some p ↔ i ∈ l :=
  ⟨h.mem_of_parent hl, h.parent_of_mem hl (fun _ hi => (h.first_iff.1 hi).1) i⟩

theorem onwards_of_mem {current : Option Nat} (hl : Siblings f current (i :: l)) (hj : j ∈ l) :
    Relation.TransGen (Next f) i j := by
  induction l generalizing current i with
  | nil => cases hj
  | cons k l ih =>
    have hfront : Siblings f current ([] ++ i :: k :: l) := hl
    have hik : Next f i k := hfront.next_eq
    rcases List.mem_cons.1 hj with rfl | hj
    · exact .single hik
    · exact .head hik (ih hfront.split hj)

theorem nodup (h : Consistent f) {current : Option Nat} (hl : Siblings f current l) : l.Nodup := by
  induction hl with
  | done => exact List.nodup_nil
  | @step i l hl ih =>
    refine List.nodup_cons.2 ⟨fun hi => h.onwards i ?_, ih⟩
    exact onwards_of_mem (.step hl) hi

theorem prev_eq (h : Consistent f) (hl : Siblings f (f.get p).firstChild (l₁ ++ i :: l₂)) :
    (f.get i).prev = l₁.getLast? := by
  rcases List.eq_nil_or_concat l₁ with rfl | ⟨l, j, rfl⟩
  · exact (h.first_iff.1 hl.head?_eq.symm).2
  · rw [List.concat_eq_append, List.append_assoc] at hl
    rw [List.concat_eq_append, List.getLast?_concat]
    exact h.prev_iff.2 hl.next_eq

theorem last_eq (h : Consistent f) (hl : Siblings f (f.get p).firstChild l) :
    (f.get p).lastChild = l.getLast? := by
  rcases List.eq_nil_or_concat l with rfl | ⟨l, i, rfl⟩
  · refine Option.eq_none_iff_forall_ne_some.2 fun i hi => ?_
    cases h.mem_of_parent hl (h.last_iff.1 hi).1
  · rw [List.concat_eq_append] at hl ⊢
    rw [List.getLast?_concat]
    have hi : i ∈ l ++ [i] := List.mem_append_right _ (List.mem_singleton_self i)
    exact h.last_iff.2 ⟨(h.parent_iff_mem hl).2 hi, hl.next_eq⟩

theorem linked (h : Consistent f) {kids : Nat → List Nat}
    (hkids : ∀ p, Siblings f (f.get p).firstChild (kids p)) : Linked f kids where
  bound := by
    intro p i hi
    refine ⟨lt_size_of_get fun heq => ?_, lt_of_parent ((h.parent_iff_mem (hkids p)).2 hi)⟩
    have hhead := (hkids p).head?_eq
    rw [heq] at hhead
    rw [List.head?_eq_none_iff.1 hhead] at hi
    cases hi
  nodup p := h.nodup (hkids p)
  first p := (hkids p).head?_eq.symm
  last p := h.last_eq (hkids p)
  links := by
    intro p l₁ i l₂ hsplit
    have hl := hkids p
    rw [hsplit] at hl
    have hi : i ∈ l₁ ++ i :: l₂ := List.mem_append_right _ List.mem_cons_self
    exact ⟨(h.parent_iff_mem hl).2 hi, h.prev_eq hl, hl.next_eq⟩
  orphan := by
    intro i hi
    have hparent : (f.get i).parent = none := by
      refine Option.eq_none_iff_forall_ne_some.2 fun p hp => ?_
      exact hi p (h.mem_of_parent (hkids p) hp)
    refine ⟨hparent, ?_, ?_⟩
    · refine Option.eq_none_iff_forall_ne_some.2 fun j hj => ?_
      have hji := h.prev_iff.1 hj
      exact h.placed hji ((h.parent_eq hji).trans hparent)
    · exact Option.eq_none_iff_forall_ne_some.2 fun j hj => h.placed hj hparent

end Consistent

namespace Linked

variable {kids : Nat → List Nat}

/-- A node with a next sibling stands directly in front of it among the children of one node. -/
theorem next_iff (h : Linked f kids) :
    Next f i j ↔ ∃ p l₁ l₂, kids p = l₁ ++ i :: j :: l₂ := by
  constructor
  · intro hij
    by_cases hi : ∃ p, i ∈ kids p
    · obtain ⟨p, hp⟩ := hi
      obtain ⟨l₁, l₂, hsplit⟩ := List.append_of_mem hp
      obtain ⟨l, rfl⟩ := List.head?_eq_some_iff.1 ((h.links hsplit).2.2.symm.trans hij)
      exact ⟨p, l₁, l, hsplit⟩
    · have hnone := (h.orphan fun p hp => hi ⟨p, hp⟩).2.2
      rw [Next, hnone] at hij
      cases hij
  · rintro ⟨p, l₁, l₂, hsplit⟩
    exact (h.links hsplit).2.2

theorem prev_iff (h : Linked f kids) :
    (f.get j).prev = some i ↔ ∃ p l₁ l₂, kids p = l₁ ++ i :: j :: l₂ := by
  constructor
  · intro hij
    by_cases hj : ∃ p, j ∈ kids p
    · obtain ⟨p, hp⟩ := hj
      obtain ⟨l₁, l₂, hsplit⟩ := List.append_of_mem hp
      obtain ⟨l, rfl⟩ := List.getLast?_eq_some_iff.1 ((h.links hsplit).2.1.symm.trans hij)
      exact ⟨p, l, l₂, by rw [hsplit, ← List.append_cons]⟩
    · have hnone := (h.orphan fun p hp => hj ⟨p, hp⟩).2.1
      rw [hnone] at hij
      cases hij
  · rintro ⟨p, l₁, l₂, hsplit⟩
    rw [List.append_cons] at hsplit
    rw [(h.links hsplit).2.1, List.getLast?_concat]

theorem parent_of_next (h : Linked f kids) (hij : Next f i j) :
    ∃ p, (f.get i).parent = some p ∧ (f.get j).parent = some p := by
  obtain ⟨p, l₁, l₂, hsplit⟩ := h.next_iff.1 hij
  exact ⟨p, h.parent_iff.2 (by simp [hsplit]), h.parent_iff.2 (by simp [hsplit])⟩

theorem first_iff (h : Linked f kids) :
    (f.get p).firstChild = some i ↔ (f.get i).parent = some p ∧ (f.get i).prev = none := by
  rw [h.first]
  constructor
  · intro hhead
    obtain ⟨l, hl⟩ := List.head?_eq_some_iff.1 hhead
    have hfront : kids p = [] ++ i :: l := hl
    obtain ⟨hparent, hprev, -⟩ := h.links hfront
    exact ⟨hparent, hprev⟩
  · rintro ⟨hparent, hprev⟩
    obtain ⟨l₁, l₂, hsplit⟩ := List.append_of_mem (h.parent_iff.1 hparent)
    rw [(h.links hsplit).2.1, List.getLast?_eq_none_iff] at hprev
    rw [hsplit, hprev]
    rfl

theorem last_iff (h : Linked f kids) :
    (f.get p).lastChild = some i ↔ (f.get i).parent = some p ∧ (f.get i).next = none := by
  rw [h.last]
  constructor
  · intro hlast
    obtain ⟨l, hl⟩ := List.getLast?_eq_some_iff.1 hlast
    obtain ⟨hparent, -, hnext⟩ := h.links hl
    exact ⟨hparent, hnext⟩
  · rintro ⟨hparent, hnext⟩
    obtain ⟨l₁, l₂, hsplit⟩ := List.append_of_mem (h.parent_iff.1 hparent)
    rw [(h.links hsplit).2.2, List.head?_eq_none_iff] at hnext
    rw [hsplit, hnext, List.getLast?_concat]

/-- The links lead onwards to nodes that stand further behind in the same list. -/
theorem behind_of_onwards (h : Linked f kids) (hij : Relation.TransGen (Next f) i j) :
    ∃ p l₁ l₂, kids p = l₁ ++ i :: l₂ ∧ j ∈ l₂ := by
  induction hij with
  | single hij =>
    obtain ⟨p, l₁, l₂, hsplit⟩ := h.next_iff.1 hij
    exact ⟨p, l₁, _, hsplit, List.mem_cons_self⟩
  | @tail j k _ hjk ih =>
    obtain ⟨p, l₁, l₂, hsplit, hj⟩ := ih
    obtain ⟨m₁, m₂, rfl⟩ := List.append_of_mem hj
    have hlater : kids p = (l₁ ++ i :: m₁) ++ j :: m₂ := by
      rw [hsplit, List.append_assoc, List.cons_append]
    have hhead : m₂.head? = some k := (h.links hlater).2.2.symm.trans hjk
    refine ⟨p, l₁, _, hsplit, List.mem_append_right _ ?_⟩
    exact List.mem_cons_of_mem _ (List.mem_of_head? hhead)

theorem consistent (h : Linked f kids) (hacyclic : ∀ i, ¬ Relation.TransGen (Up f) i i) :
    Consistent f where
  prev_iff := h.prev_iff.trans h.next_iff.symm
  parent_eq := by
    intro i j hij
    obtain ⟨p, hi, hj⟩ := h.parent_of_next hij
    exact hi.trans hj.symm
  placed := by
    intro i j hij
    obtain ⟨p, hi, -⟩ := h.parent_of_next hij
    rw [hi]
    exact nofun
  first_iff := h.first_iff
  last_iff := h.last_iff
  upwards := hacyclic
  onwards := by
    intro i hi
    obtain ⟨p, l₁, l₂, hsplit, hmem⟩ := h.behind_of_onwards hi
    have hnodup := h.nodup p
    rw [hsplit] at hnodup
    exact (List.nodup_cons.1 (List.nodup_append.1 hnodup).2.1).1 hmem

end Linked

theorem wellFormed_iff_consistent : WellFormed f ↔ Consistent f := by
  constructor
  · intro h
    exact h.linked.consistent h.acyclic
  · intro h
    choose kids hkids using h.exists_children
    exact .of_linked (h.linked hkids) h.upwards

end ScopedStyles.Forest
