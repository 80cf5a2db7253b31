import ScopedStyles.Proofs.Forest.Joined
import ScopedStyles.Proofs.Forest.Order

namespace ScopedStyles.Forest

open Selector

variable {f f' : Forest} {kids : Nat → List Nat} {above row front back : List Nat}
  {p q s i c o : Nat} {l : Label}

/-- One child leads to the next, from `p` down to the node that holds the row. -/
def Leads (kids : Nat → List Nat) : Nat → List Nat → List Nat → Prop
  | p, [], row => kids p = row
  | p, q :: above, row => kids p = [q] ∧ Leads kids q above row

/-- The forest shows the nodes `above` on the way from the root, and then the row. -/
structure Lined (f : Forest) (above row : List Nat) : Prop where
  sound : Sound f
  leads : Leads f.children root above row
  leaves : ∀ i ∈ row, f.children i = []

theorem Leads.holder (h : Leads kids p above row) : ∃ q, kids q = row := by
  induction above generalizing p with
  | nil => exact ⟨p, h⟩
  | cons q above ih => exact ih h.2

theorem Leads.exchange (h : Leads kids p above (front ++ i :: back))
    (hnodup : (above ++ (front ++ i :: back)).Nodup) :
    Leads (exchange i c kids) p above (front ++ c :: back) := by
  induction above generalizing p with
  | nil =>
    change kids p = _ at h
    rw [List.nil_append, List.nodup_middle, List.nodup_cons, List.mem_append, not_or] at hnodup
    change Forest.exchange i c kids p = _
    rw [Forest.exchange, h, List.map_append, List.map_cons, if_pos rfl,
      map_exchange_of_notMem hnodup.1.1, map_exchange_of_notMem hnodup.1.2]
  | cons q above ih =>
    obtain ⟨hq, hrest⟩ := h
    rw [List.cons_append, List.nodup_cons] at hnodup
    have hiq : i ∉ [q] := by
      rw [List.mem_singleton]
      rintro rfl
      simp at hnodup
    refine ⟨?_, ih hrest hnodup.2⟩
    rw [Forest.exchange, hq, map_exchange_of_notMem hiq]

theorem preorder_leaves (h : Linked f f.children) (hleaves : ∀ i ∈ row, f.children i = []) :
    Preorder f row row := by
  induction row with
  | nil => exact .done
  | cons i row ih =>
    obtain ⟨hi, hrow⟩ := List.forall_mem_cons.1 hleaves
    apply Preorder.visit h
    rw [hi]
    exact ih hrow

theorem Leads.preorder (hp : Leads f.children p above row) (h : Linked f f.children)
    (hleaves : ∀ i ∈ row, f.children i = []) : Preorder f (f.children p) (above ++ row) := by
  induction above generalizing p with
  | nil =>
    change f.children p = row at hp
    rw [hp]
    exact preorder_leaves h hleaves
  | cons q above ih =>
    obtain ⟨hq, hrest⟩ := hp
    rw [hq]
    apply Preorder.visit h
    rw [List.append_nil]
    exact ih hrest

namespace Lined

theorem descendants (h : Lined f above row) : f.descendants root = above ++ row :=
  (descendants_walk h.sound.wellFormed.linked h.sound.wellFormed.graded root).unique
    (h.leads.preorder h.sound.wellFormed.linked h.leaves)

theorem nodup (h : Lined f above row) : (above ++ row).Nodup := by
  rw [← h.descendants]
  exact nodup_descendants h.sound.wellFormed.linked h.sound.wellFormed.graded root

theorem below (h : Lined f above row) (hi : i ∈ row) : i ≠ root ∧ Below f.children root i := by
  rw [← h.sound.wellFormed.mem_descendants, h.descendants]
  exact List.mem_append_right _ hi

theorem lt (h : Lined f above row) (hi : i ∈ row) : i < f.size :=
  h.sound.lt (h.below hi).2

theorem isAttached (h : Lined f above row) (hi : i ∈ row) : f.isAttached i = true :=
  h.sound.wellFormed.isAttached_iff.2 (h.below hi).2

theorem placed (h : Lined f above row) (hi : i ∈ row) : (f.get i).parent ≠ none :=
  h.sound.placed (h.below hi).2 (h.below hi).1

theorem exchange (h : Lined f above (front ++ i :: back)) (hput : Exchanged f i l f') :
    Lined f' above (front ++ f.size :: back) where
  sound := hput.sound
  leads := by
    rw [hput.children]
    exact h.leads.exchange h.nodup
  leaves := by
    intro j hj
    rw [hput.children, Forest.exchange, List.map_eq_nil_iff]
    rcases List.mem_append.1 hj with hj | hj
    · exact h.leaves j (List.mem_append_left _ hj)
    · rcases List.mem_cons.1 hj with rfl | hj
      · exact h.sound.wellFormed.linked.kids_size
      · exact h.leaves j (List.mem_append_right _ (List.mem_cons_of_mem _ hj))

theorem relabel (h : Lined f above row) {change : Label → Label} (hput : Relabeled f i change f') :
    Lined f' above row where
  sound := hput.sound
  leads := hput.children ▸ h.leads
  leaves := hput.children ▸ h.leaves

/-- The row goes to where its pseudo has stood. -/
theorem splice (h : Lined f [o, q, s] row) (hput : Spliced f q s f') : Lined f' [o] row := by
  have hnodup := h.nodup
  obtain ⟨hroot, ho, hq, hs⟩ := h.leads
  have hmem : s ∈ f.descendants root := by
    rw [h.descendants]
    simp
  have hsroot : s ≠ root := (h.sound.wellFormed.mem_descendants.1 hmem).1
  have hoq : q ∉ [o] := by
    rw [List.mem_singleton]
    rintro rfl
    simp at hnodup
  have hos : o ≠ s := by
    rintro rfl
    simp at hnodup
  refine ⟨hput.sound, ?_, ?_⟩
  · rw [hput.children]
    refine ⟨?_, ?_⟩
    · rw [splice_of_notMem hsroot.symm (hroot ▸ hoq), hroot]
    · change Forest.splice q s f.children o = row
      rw [Forest.splice, if_neg hos, ho, List.flatMap_singleton, if_pos rfl, hs]
  · intro i hi
    rw [hput.children, Forest.splice, h.leaves i hi]
    split <;> rfl

theorem above_lt (h : Lined f above row) {j : Nat} (hj : j ∈ above) : j < f.size := by
  have hmem : j ∈ f.descendants root := h.descendants ▸ List.mem_append_left _ hj
  exact h.sound.lt (h.sound.wellFormed.mem_descendants.1 hmem).2

theorem ne_above (h : Lined f above row) (hi : i ∈ row) {j : Nat} (hj : j ∈ above) : j ≠ i :=
  (List.nodup_append.1 h.nodup).2.2 j hj i hi

theorem prev (h : Lined f above (front ++ i :: back)) : (f.get i).prev = front.getLast? := by
  obtain ⟨p, hp⟩ := h.leads.holder
  exact (h.sound.wellFormed.linked.links hp).2.1

end Lined

def Framed (f : Forest) (frame : List Label) (row : List Nat) : Prop :=
  ∃ above, Lined f above row ∧ above.map f.label = frame

namespace Framed

variable {frame : List Label}

theorem exchange (h : Framed f frame (front ++ i :: back)) (hput : Exchanged f i l f') :
    Framed f' frame (front ++ f.size :: back) := by
  obtain ⟨above, hlined, rfl⟩ := h
  refine ⟨above, hlined.exchange hput, List.map_congr_left ?_⟩
  intro j hj
  rw [hput.label, if_neg (hlined.above_lt hj).ne]

theorem relabel (h : Framed f frame row) (hi : i ∈ row) {change : Label → Label}
    (hput : Relabeled f i change f') : Framed f' frame row := by
  obtain ⟨above, hlined, rfl⟩ := h
  refine ⟨above, hlined.relabel hput, List.map_congr_left ?_⟩
  intro j hj
  rw [hput.label, if_neg (hlined.ne_above hi hj)]

theorem collect (h : Framed f frame row) {P : Label → Bool} (hframe : ∀ l ∈ frame, P l = false) :
    f.collect P = row.filter fun i => P (f.label i) := by
  obtain ⟨above, hlined, rfl⟩ := h
  rw [collect_eq_filter, hlined.descendants, List.filter_append, List.filter_eq_nil_iff.2,
    List.nil_append]
  intro j hj
  rw [hframe _ (List.mem_map_of_mem hj)]
  exact Bool.false_ne_true

end Framed

theorem child_of_tree (h : Sound f) {t : Tree} (hp : p < f.size) (htree : f.tree p = .node l [t]) :
    f.label p = l ∧ ∃ q, f.children p = [q] ∧ q < f.size ∧ f.tree q = t := by
  rw [tree_eq h.wellFormed.linked h.wellFormed.graded hp] at htree
  obtain ⟨hlabel, hchildren⟩ := Tree.node.inj htree
  obtain ⟨q, hq, hsub⟩ := List.map_eq_singleton_iff.1 hchildren
  have hmem : q ∈ f.children p := hq ▸ List.mem_singleton_self q
  exact ⟨hlabel, q, hq, (h.child_lt hmem).2.1, hsub⟩

theorem row_of_tree (h : Sound f) {ts : List Tree} (hp : p < f.size) (htree : f.tree p = .node l ts)
    (hts : ∀ t ∈ ts, t.children = []) :
    f.label p = l ∧ (f.children p).map f.label = ts.map Tree.label ∧
      ∀ i ∈ f.children p, f.children i = [] := by
  have htree_eq : ∀ {i}, i < f.size → f.tree i = .node (f.label i) ((f.children i).map f.tree) :=
    fun hi => tree_eq h.wellFormed.linked h.wellFormed.graded hi
  rw [htree_eq hp] at htree
  obtain ⟨hlabel, rfl⟩ := Tree.node.inj htree
  have hchild : ∀ i ∈ f.children p, i < f.size := fun i hi => (h.child_lt hi).2.1
  refine ⟨hlabel, ?_, ?_⟩
  · rw [List.map_map]
    apply List.map_congr_left
    intro i hi
    rw [Function.comp_apply, htree_eq (hchild i hi)]
    rfl
  · intro i hi
    have hleaf := hts _ (List.mem_map_of_mem hi)
    rw [htree_eq (hchild i hi)] at hleaf
    exact List.map_eq_nil_iff.1 hleaf

end ScopedStyles.Forest
