import ScopedStyles.Proofs.Forest.ChildLists
import ScopedStyles.Proofs.Forest.Order

namespace ScopedStyles.Forest

open Selector

variable {f : Forest} {kids : Nat → List Nat} {rank : Nat → Nat} {p i : Nat}
  {pending met l : List Nat}

/-- The walk with a stack whose top is its last entry: the top is met, and its children are pushed in
reversed order. From the nodes `met` so far it goes on to all that are met in the end. -/
inductive StackWalk (f : Forest) : List Nat → List Nat → List Nat → Prop where
  | done {met : List Nat} : StackWalk f [] met met
  | step {i : Nat} {cs stack met l : List Nat} (hc : Siblings f (f.get i).firstChild cs)
      (h : StackWalk f (stack ++ cs.reverse) (met ++ [i]) l) : StackWalk f (stack ++ [i]) met l

theorem Preorder.stackWalk (h : Preorder f pending l) :
    StackWalk f pending.reverse met (met ++ l) := by
  induction h generalizing met with
  | done =>
    rw [List.append_nil]
    exact .done
  | @step i cs pending l hc _ ih =>
    rw [List.reverse_cons, List.append_cons met i l]
    apply StackWalk.step hc
    rw [← List.reverse_append]
    exact ih

theorem preorder_flatMap (h : Linked f kids) (hg : Graded f kids rank) (pending : List Nat) :
    Preorder f pending (pending.flatMap fun i => i :: f.descendants i) := by
  induction pending with
  | nil => exact .done
  | cons i pending ih =>
    rw [List.flatMap_cons, List.cons_append]
    exact .visit h ((descendants_walk h hg i).append ih)

theorem descendants_eq (h : Linked f kids) (hg : Graded f kids rank) (p : Nat) :
    f.descendants p = (kids p).flatMap fun i => i :: f.descendants i :=
  (descendants_walk h hg p).unique (preorder_flatMap h hg (kids p))

namespace WellFormed

theorem mem_descendants_iff_up (h : WellFormed f) :
    i ∈ f.descendants p ↔ Relation.TransGen (Up f) i p := by
  rw [h.mem_descendants, below_iff_up h.linked, Relation.reflTransGen_iff_eq_or_transGen]
  constructor
  · rintro ⟨hne, rfl | hup⟩
    · exact (hne rfl).elim
    · exact hup
  · intro hup
    refine ⟨?_, .inr hup⟩
    rintro rfl
    exact h.acyclic i hup

theorem isAttached_iff_mem (h : WellFormed f) :
    f.isAttached i = true ↔ i = root ∨ i ∈ f.descendants root := by
  rw [h.isAttached_iff, h.mem_descendants]
  constructor
  · intro hbelow
    by_cases hi : i = root
    · exact .inl hi
    · exact .inr ⟨hi, hbelow⟩
  · rintro (rfl | ⟨-, hbelow⟩)
    · exact .refl
    · exact hbelow

theorem mem_collectNodes (h : WellFormed f) (P : Node → Bool) :
    i ∈ f.collectNodes P ↔ i ≠ root ∧ f.isAttached i = true ∧ P (f.get i) = true := by
  rw [collectNodes, List.mem_filter, h.mem_descendants, h.isAttached_iff, and_assoc]

end WellFormed

/-- In a forest with consistent links, every walk comes to its end: the one over the children of a node,
the one with a stack over its descendants and the climb from it. The descendants of a node are met once,
each in front of its own ones and the children in their order, and are the nodes from which climbing leads
to it. Climbing leads to the root from the root and its descendants alone, so the nodes that are collected
are the attached ones that satisfy the condition, without the root, each once and in document order. -/
theorem traversal_attached (h : Consistent f) :
    (∀ i, Siblings f (f.get i).firstChild (f.children i) ∧
      StackWalk f (f.children i).reverse [] (f.descendants i) ∧ Climb f i (f.isAttached i)) ∧
    (∀ p, (f.descendants p).Nodup ∧
      (∀ i, i ∈ f.descendants p ↔ Relation.TransGen (Up f) i p) ∧
      f.descendants p = (f.children p).flatMap fun i => i :: f.descendants i) ∧
    (∀ i, f.isAttached i = true ↔ i = root ∨ i ∈ f.descendants root) ∧
    ∀ P : Node → Bool, (f.collectNodes P).Nodup ∧ (f.collectNodes P).Sublist (f.descendants root) ∧
      ∀ i, i ∈ f.collectNodes P ↔ i ≠ root ∧ f.isAttached i = true ∧ P (f.get i) = true := by
  have hf := wellFormed_iff_consistent.2 h
  have hnodup := nodup_descendants hf.linked hf.graded
  refine ⟨fun i => ⟨hf.walksEnd.children i, ?_, hf.walksEnd.isAttached i⟩, ?_,
    fun i => hf.isAttached_iff_mem, ?_⟩
  · exact (hf.walksEnd.descendants i).stackWalk
  · intro p
    exact ⟨hnodup p, fun i => hf.mem_descendants_iff_up, descendants_eq hf.linked hf.graded p⟩
  · intro P
    exact ⟨(hnodup root).filter _, List.filter_sublist, fun i => hf.mem_collectNodes P⟩

theorem traversal_attached_detached :
    Consistent (sampleForest.detach 3) ∧ (sampleForest.detach 3).descendants 3 = [4, 5, 6] ∧
      (∀ i, (sampleForest.detach 3).isAttached i = true ↔ i = root ∨ i ∈ [1, 2, 7]) ∧
      (sampleForest.detach 3).collectNodes (fun n => n.label.isTag) = [2, 7] ∧
      ∀ i, i ∈ [2, 7] ↔ i ≠ root ∧ (sampleForest.detach 3).isAttached i = true ∧
        ((sampleForest.detach 3).get i).label.isTag = true := by
  have hconsistent : Consistent (sampleForest.detach 3) :=
    (Edit.refined sampleForest_consistent (e := .detach 3) trivial).consistent
  obtain ⟨-, -, hattached, hcollect⟩ := traversal_attached hconsistent
  have hroot : (sampleForest.detach 3).descendants root = [1, 2, 7] := by decide +kernel
  have htags : (sampleForest.detach 3).collectNodes (fun n => n.label.isTag) = [2, 7] := by
    decide +kernel
  have hmem := (hcollect fun n => n.label.isTag).2.2
  rw [hroot] at hattached
  rw [htags] at hmem
  exact ⟨hconsistent, by decide +kernel, hattached, htags, hmem⟩

end ScopedStyles.Forest
