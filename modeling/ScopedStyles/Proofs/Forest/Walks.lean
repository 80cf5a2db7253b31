import Mathlib.Data.Finset.Card
import Mathlib.Data.List.Perm.Subperm
import Mathlib.Logic.Relation
import ScopedStyles.Proofs.Forest.Linked

namespace ScopedStyles.Forest

open Selector

variable {f : Forest} {kids : Nat → List Nat}

/-- From a node on, the successors come to an end, and `l` are all of them. -/
inductive Siblings (f : Forest) : Option Nat → List Nat → Prop where
  | done : Siblings f none []
  | step {i : Nat} {l : List Nat} (h : Siblings f (f.get i).next l) : Siblings f (some i) (i :: l)

/-- The walk over the pending subtrees comes to an end, and `l` are the nodes that it meets. -/
inductive Preorder (f : Forest) : List Nat → List Nat → Prop where
  | done : Preorder f [] []
  | step {i : Nat} {cs pending l : List Nat} (hc : Siblings f (f.get i).firstChild cs)
      (h : Preorder f (cs ++ pending) l) : Preorder f (i :: pending) (i :: l)

/-- Climbing from a node comes to an end, and `b` tells whether that is the root. -/
inductive Climb (f : Forest) : Nat → Bool → Prop where
  | found : Climb f root true
  | top {i : Nat} (hi : i ≠ root) (h : (f.get i).parent = none) : Climb f i false
  | step {i p : Nat} {b : Bool} (hi : i ≠ root) (hp : (f.get i).parent = some p)
      (h : Climb f p b) : Climb f i b

theorem Siblings.unique {current : Option Nat} {l l' : List Nat} (h : Siblings f current l)
    (h' : Siblings f current l') : l = l' := by
  induction h generalizing l' with
  | done =>
    cases h'
    rfl
  | step _ ih =>
    cases h' with
    | step h' => exact congrArg _ (ih h')

theorem Siblings.eq_siblingsFrom {current : Option Nat} {l : List Nat} (h : Siblings f current l)
    {fuel : Nat} (hfuel : l.length ≤ fuel) : f.siblingsFrom fuel current = l := by
  induction h generalizing fuel with
  | done =>
    cases fuel with
    | zero => rfl
    | succ fuel => rfl
  | @step i l _ ih =>
    cases fuel with
    | zero => cases hfuel
    | succ fuel => exact congrArg (i :: ·) (ih (Nat.le_of_succ_le_succ hfuel))

namespace Linked

theorem length_kids (h : Linked f kids) (p : Nat) : (kids p).length ≤ f.size := by
  have hsub : kids p ⊆ List.range f.size := by
    intro i hi
    exact List.mem_range.2 (h.bound hi).2
  have hlength := ((h.nodup p).subperm hsub).length_le
  rwa [List.length_range] at hlength

theorem siblings (h : Linked f kids) {p : Nat} {l₁ l₂ : List Nat} (hp : kids p = l₁ ++ l₂) :
    Siblings f l₂.head? l₂ := by
  induction l₂ generalizing l₁ with
  | nil => exact .done
  | cons i l₂ ih =>
    obtain ⟨-, -, hnext⟩ := h.links hp
    have hrest : kids p = (l₁ ++ [i]) ++ l₂ := by
      rw [hp]
      simp
    apply Siblings.step
    rw [hnext]
    exact ih hrest

theorem siblings_kids (h : Linked f kids) (p : Nat) : Siblings f (f.get p).firstChild (kids p) := by
  rw [h.first p]
  exact h.siblings (List.nil_append _).symm

theorem children_eq (h : Linked f kids) (p : Nat) : f.children p = kids p :=
  (h.siblings_kids p).eq_siblingsFrom (h.length_kids p)

end Linked

/-- The children of every node lie above it, and all nodes lie below the size of the forest. -/
structure Graded (f : Forest) (kids : Nat → List Nat) (rank : Nat → Nat) : Prop where
  above : ∀ {p i}, i ∈ kids p → rank p < rank i
  bound : ∀ {i}, i < f.size → rank i < f.size

def Below (kids : Nat → List Nat) : Nat → Nat → Prop :=
  Relation.ReflTransGen fun p i => i ∈ kids p

namespace Below

variable {p q i j : Nat}

theorem child (h : Below kids p q) (hi : i ∈ kids q) : Below kids p i :=
  Relation.ReflTransGen.tail h hi

theorem cases_child (h : Below kids p i) : i = p ∨ ∃ q, Below kids p q ∧ i ∈ kids q := by
  cases h with
  | refl => exact .inl rfl
  | tail hq hi => exact .inr ⟨_, hq, hi⟩

theorem lt (hf : Linked f kids) (h : Below kids p i) (hp : p < f.size) : i < f.size := by
  rcases h.cases_child with rfl | ⟨q, -, hi⟩
  · exact hp
  · exact (hf.bound hi).2

theorem rank_le {rank : Nat → Nat} (hg : Graded f kids rank) (h : Below kids p i) :
    rank p ≤ rank i := by
  induction h with
  | refl => exact Nat.le_refl _
  | tail _ hi ih => exact Nat.le_of_lt (Nat.lt_of_le_of_lt ih (hg.above hi))

theorem total (hf : Linked f kids) (hp : Below kids p i) (hq : Below kids q i) :
    Below kids p q ∨ Below kids q p := by
  induction hp with
  | refl => exact .inr hq
  | tail hpj hi ih =>
    rcases hq.cases_child with rfl | ⟨k, hqk, hi'⟩
    · exact .inl (Relation.ReflTransGen.tail hpj hi)
    · have hsame := hf.unique hi hi'
      subst hsame
      exact ih hqk

theorem apart {rank : Nat → Nat} (hf : Linked f kids) (hg : Graded f kids rank) (hi : i ∈ kids p)
    (hj : j ∈ kids p) (hne : i ≠ j) {k : Nat} (hik : Below kids i k) : ¬ Below kids j k := by
  have hnot : ∀ {i j}, i ∈ kids p → j ∈ kids p → i ≠ j → ¬ Below kids i j := by
    intro i j hi hj hne hbelow
    rcases hbelow.cases_child with rfl | ⟨q, hiq, hq⟩
    · exact hne rfl
    · have hsame := hf.unique hj hq
      subst hsame
      have hle := hiq.rank_le hg
      have hlt := hg.above hi
      omega
  intro hjk
  rcases total hf hik hjk with hij | hji
  · exact hnot hi hj hne hij
  · exact hnot hj hi (Ne.symm hne) hji

end Below

variable {rank : Nat → Nat} {i j : Nat}

theorem Climb.eq_true_iff (h : Linked f kids) {b : Bool} (hi : Climb f i b) :
    b = true ↔ Below kids root i := by
  induction hi with
  | found => exact ⟨fun _ => .refl, fun _ => rfl⟩
  | @top i hi hparent =>
    constructor
    · nofun
    · intro hbelow
      rcases hbelow.cases_child with heq | ⟨p, -, hmem⟩
      · exact (hi heq).elim
      · rw [h.parent_iff.2 hmem] at hparent
        cases hparent
  | @step i p b hi hp _ ih =>
    rw [ih]
    constructor
    · intro hbelow
      exact hbelow.child (h.parent_iff.1 hp)
    · intro hbelow
      rcases hbelow.cases_child with heq | ⟨q, hq, hmem⟩
      · exact (hi heq).elim
      · rw [h.unique (h.parent_iff.1 hp) hmem]
        exact hq

theorem climb_walk (h : Linked f kids) (hg : Graded f kids rank) {fuel : Nat}
    (hfuel : ∀ p, i ∈ kids p → rank i ≤ fuel) : Climb f i (f.climbsToRoot fuel i) := by
  induction fuel generalizing i with
  | zero =>
    unfold climbsToRoot
    split
    · next hi =>
      subst hi
      exact .found
    · next hi =>
      cases hparent : (f.get i).parent with
      | none => exact .top hi hparent
      | some p =>
        have hmem := h.parent_iff.1 hparent
        have hlt := hg.above hmem
        have hle := hfuel p hmem
        omega
  | succ fuel ih =>
    unfold climbsToRoot
    split
    · next hi =>
      subst hi
      exact .found
    · next hi =>
      cases hparent : (f.get i).parent with
      | none => exact .top hi hparent
      | some p =>
        have hmem := h.parent_iff.1 hparent
        have hlt := hg.above hmem
        have hle := hfuel p hmem
        exact .step hi hparent (ih fun _ _ => by omega)

theorem isAttached_walk (h : Linked f kids) (hg : Graded f kids rank) (i : Nat) :
    Climb f i (f.isAttached i) :=
  climb_walk h hg fun _ hmem => Nat.le_of_lt (hg.bound (h.bound hmem).2)

theorem isAttached_iff (h : Linked f kids) (hg : Graded f kids rank) :
    f.isAttached i = true ↔ Below kids root i :=
  (isAttached_walk h hg i).eq_true_iff h

theorem treeTo_congr (h : Linked f kids) (hg : Graded f kids rank) {d d' : Nat} (hi : i < f.size)
    (hd : f.size ≤ d + rank i) (hd' : f.size ≤ d' + rank i) : f.treeTo d i = f.treeTo d' i := by
  have hbound := hg.bound hi
  induction d generalizing d' i with
  | zero => omega
  | succ d ih =>
    cases d' with
    | zero => omega
    | succ d' =>
      unfold treeTo
      rw [h.children_eq]
      refine congrArg (Selector.Tree.node (f.label i)) (List.map_congr_left fun j hj => ?_)
      have hlt := hg.above hj
      have hjs := (h.bound hj).2
      exact ih hjs (by omega) (by omega) (hg.bound hjs)

/-- The tree at a node, one level at a time. -/
theorem tree_eq (h : Linked f kids) (hg : Graded f kids rank) (hi : i < f.size) :
    f.tree i = .node (f.label i) ((kids i).map f.tree) := by
  unfold tree
  obtain ⟨n, hn⟩ := Nat.exists_eq_succ_of_ne_zero (Nat.ne_of_gt (Nat.zero_lt_of_lt hi))
  have hunfold : f.treeTo f.size i = .node (f.label i) ((f.children i).map (f.treeTo n)) := by
    rw [hn]
    rfl
  rw [hunfold, h.children_eq]
  refine congrArg (Selector.Tree.node (f.label i)) (List.map_congr_left fun j hj => ?_)
  have hlt := hg.above hj
  exact treeTo_congr h hg (h.bound hj).2 (by omega) (Nat.le_add_right _ _)

open Classical in
noncomputable def ahead (f : Forest) (kids : Nat → List Nat) (pending : List Nat) : Finset Nat :=
  (Finset.range f.size).filter fun j => ∃ i ∈ pending, Below kids i j

open Classical in
theorem mem_ahead {pending : List Nat} :
    j ∈ ahead f kids pending ↔ j < f.size ∧ ∃ i ∈ pending, Below kids i j := by
  unfold ahead
  rw [Finset.mem_filter, Finset.mem_range]

open Classical in
theorem card_ahead_le (pending : List Nat) : (ahead f kids pending).card ≤ f.size := by
  have hle := Finset.card_filter_le (Finset.range f.size) fun j => ∃ i ∈ pending, Below kids i j
  rwa [Finset.card_range] at hle

/-- Nothing is below two of the pending nodes. -/
def Apart (kids : Nat → List Nat) (pending : List Nat) : Prop :=
  pending.Pairwise fun i i' => ∀ j, Below kids i j → ¬ Below kids i' j

theorem apart_kids (h : Linked f kids) (hg : Graded f kids rank) (p : Nat) :
    Apart kids (kids p) := by
  apply (h.nodup p).imp_of_mem
  intro i i' hi hi' hne j hij
  exact Below.apart h hg hi hi' hne hij

theorem Apart.expand {pending : List Nat} (h : Linked f kids) (hg : Graded f kids rank)
    (hapart : Apart kids (i :: pending)) : Apart kids (kids i ++ pending) := by
  obtain ⟨hi, hpending⟩ := List.pairwise_cons.1 hapart
  refine List.pairwise_append.2 ⟨apart_kids h hg i, hpending, ?_⟩
  intro c hc i' hi' j hcj
  exact hi i' hi' j (.head hc hcj)

theorem Apart.notBelow {pending : List Nat} (hg : Graded f kids rank)
    (hapart : Apart kids (i :: pending)) {c : Nat} (hc : c ∈ kids i ++ pending) :
    ¬ Below kids c i := by
  intro hci
  rcases List.mem_append.1 hc with hchild | hlater
  · have hlt := hg.above hchild
    have hle := hci.rank_le hg
    omega
  · exact (List.pairwise_cons.1 hapart).1 c hlater i .refl hci

theorem card_ahead_lt {pending : List Nat} (hg : Graded f kids rank) (hi : i < f.size)
    (hapart : Apart kids (i :: pending)) :
    (ahead f kids (kids i ++ pending)).card < (ahead f kids (i :: pending)).card := by
  apply Finset.card_lt_card
  refine (Finset.ssubset_iff_of_subset ?_).2 ⟨i, ?_, ?_⟩
  · intro j hj
    obtain ⟨hjs, c, hc, hcj⟩ := mem_ahead.1 hj
    rcases List.mem_append.1 hc with hchild | hlater
    · exact mem_ahead.2 ⟨hjs, i, List.mem_cons_self, .head hchild hcj⟩
    · exact mem_ahead.2 ⟨hjs, c, List.mem_cons_of_mem _ hlater, hcj⟩
  · exact mem_ahead.2 ⟨hi, i, List.mem_cons_self, .refl⟩
  · intro hmem
    obtain ⟨-, c, hc, hci⟩ := mem_ahead.1 hmem
    exact hapart.notBelow hg hc hci

/-- The steps are enough for the walk to come to its end. -/
theorem preorder_walk (h : Linked f kids) (hg : Graded f kids rank) {fuel : Nat}
    {pending : List Nat} (hbound : ∀ i ∈ pending, i < f.size) (hapart : Apart kids pending)
    (hfuel : (ahead f kids pending).card ≤ fuel) :
    Preorder f pending (f.preorder fuel pending) := by
  induction fuel generalizing pending with
  | zero =>
    cases pending with
    | nil => exact .done
    | cons i pending =>
      have hlt := card_ahead_lt hg (hbound i List.mem_cons_self) hapart
      omega
  | succ fuel ih =>
    cases pending with
    | nil => exact .done
    | cons i pending =>
      -- the node in front is met now, so fewer nodes are ahead
      have hlt := card_ahead_lt hg (hbound i List.mem_cons_self) hapart
      have hbound' : ∀ j ∈ kids i ++ pending, j < f.size := by
        intro j hj
        rcases List.mem_append.1 hj with hchild | hlater
        · exact (h.bound hchild).2
        · exact hbound j (List.mem_cons_of_mem _ hlater)
      have hrest := ih hbound' (hapart.expand h hg) (by omega)
      rw [← h.children_eq] at hrest
      apply Preorder.step _ hrest
      rw [h.children_eq]
      exact h.siblings_kids i

namespace Preorder

variable {pending l : List Nat}

/-- The nodes that are met are those at or below the pending ones. -/
theorem mem_iff (h : Linked f kids) (hl : Preorder f pending l) :
    j ∈ l ↔ ∃ i ∈ pending, Below kids i j := by
  induction hl with
  | done => simp
  | @step i cs pending l hc _ ih =>
    have hcs : cs = kids i := hc.unique (h.siblings_kids i)
    subst hcs
    rw [List.mem_cons, ih]
    constructor
    · rintro (rfl | ⟨c, hmem, hcj⟩)
      · exact ⟨j, List.mem_cons_self, .refl⟩
      · rcases List.mem_append.1 hmem with hchild | hlater
        · exact ⟨i, List.mem_cons_self, .head hchild hcj⟩
        · exact ⟨c, List.mem_cons_of_mem _ hlater, hcj⟩
    · rintro ⟨c, hmem, hcj⟩
      rcases List.mem_cons.1 hmem with rfl | hlater
      · rcases Relation.ReflTransGen.cases_head hcj with rfl | ⟨d, hd, hdj⟩
        · exact .inl rfl
        · exact .inr ⟨d, List.mem_append_left _ hd, hdj⟩
      · exact .inr ⟨c, List.mem_append_right _ hlater, hcj⟩

theorem nodup (h : Linked f kids) (hg : Graded f kids rank) (hl : Preorder f pending l)
    (hapart : Apart kids pending) : l.Nodup := by
  induction hl with
  | done => exact List.nodup_nil
  | @step i cs pending l hc hrest ih =>
    have hcs : cs = kids i := hc.unique (h.siblings_kids i)
    subst hcs
    refine List.nodup_cons.2 ⟨?_, ih (hapart.expand h hg)⟩
    intro hmem
    obtain ⟨c, hc, hci⟩ := (hrest.mem_iff h).1 hmem
    exact hapart.notBelow hg hc hci

end Preorder

theorem descendants_walk (h : Linked f kids) (hg : Graded f kids rank) (p : Nat) :
    Preorder f (kids p) (f.descendants p) := by
  unfold descendants
  rw [h.children_eq]
  exact preorder_walk h hg (fun _ hi => (h.bound hi).2) (apart_kids h hg p) (card_ahead_le _)

theorem mem_descendants (h : Linked f kids) (hg : Graded f kids rank) {p : Nat} :
    j ∈ f.descendants p ↔ j ≠ p ∧ Below kids p j := by
  rw [(descendants_walk h hg p).mem_iff h]
  constructor
  · rintro ⟨i, hi, hij⟩
    refine ⟨?_, .head hi hij⟩
    intro heq
    subst heq
    have hlt := hg.above hi
    have hle := hij.rank_le hg
    omega
  · rintro ⟨hne, hj⟩
    rcases Relation.ReflTransGen.cases_head hj with rfl | hchild
    · exact (hne rfl).elim
    · exact hchild

theorem nodup_descendants (h : Linked f kids) (hg : Graded f kids rank) (p : Nat) :
    (f.descendants p).Nodup :=
  (descendants_walk h hg p).nodup h hg (apart_kids h hg p)

theorem mem_collect (h : Linked f kids) (hg : Graded f kids rank) {P : Label → Bool}
    (hj : Below kids root j) (hroot : j ≠ root) (hP : P (f.label j) = true) : j ∈ f.collect P := by
  rw [collect_eq_filter]
  exact List.mem_filter.2 ⟨(mem_descendants h hg).2 ⟨hroot, hj⟩, hP⟩

end ScopedStyles.Forest
