import ScopedStyles.Proofs.Forest.Planting

namespace ScopedStyles.Forest

open Selector

variable {f g : Forest} {kids : Nat → List Nat} {rank : Nat → Nat} {i j p r c : Nat}

def Up (f : Forest) (i p : Nat) : Prop :=
  (f.get i).parent = some p

/-- The five links of every node agree with the lists of children, and no node is above itself. -/
structure WellFormed (f : Forest) : Prop where
  linked : Linked f f.children
  acyclic : ∀ i, ¬ Relation.TransGen (Up f) i i

/-- The root is a node of its own kind and has no parent. -/
structure Rooted (f : Forest) : Prop where
  bound : root < f.size
  alone : (f.get root).parent = none
  kind : (f.label root).kind = .root

/-- The walks along the links of a forest come to an end, and their results are those of the walks
that count their steps. -/
structure WalksEnd (f : Forest) : Prop where
  children : ∀ i, Siblings f (f.get i).firstChild (f.children i)
  descendants : ∀ i, Preorder f (f.children i) (f.descendants i)
  isAttached : ∀ i, Climb f i (f.isAttached i)

theorem below_iff_up (h : Linked f kids) : Below kids p i ↔ Relation.ReflTransGen (Up f) i p := by
  constructor
  · intro hbelow
    induction hbelow with
    | refl => exact .refl
    | tail _ hmem ih => exact .head (h.parent_iff.2 hmem) ih
  · intro hup
    induction hup with
    | refl => exact .refl
    | tail _ hparent ih => exact .head (h.parent_iff.1 hparent) ih

theorem rank_lt_of_up (h : Linked f kids) (hg : Graded f kids rank)
    (hup : Relation.TransGen (Up f) i j) : rank j < rank i := by
  induction hup with
  | single hparent => exact hg.above (h.parent_iff.1 hparent)
  | tail _ hparent ih => exact Nat.lt_trans (hg.above (h.parent_iff.1 hparent)) ih

theorem WellFormed.of_graded (h : Linked f kids) (hg : Graded f kids rank) : WellFormed f where
  linked := by
    have hkids : f.children = kids := funext h.children_eq
    rw [hkids]
    exact h
  acyclic := fun _ hup => Nat.lt_irrefl _ (rank_lt_of_up h hg hup)

open Classical in
noncomputable def above (f : Forest) (i : Nat) : Finset Nat :=
  (Finset.range f.size).filter (Relation.TransGen (Up f) i)

open Classical in
theorem mem_above : j ∈ above f i ↔ j < f.size ∧ Relation.TransGen (Up f) i j := by
  unfold above
  rw [Finset.mem_filter, Finset.mem_range]

namespace WellFormed

theorem graded (h : WellFormed f) : Graded f f.children fun i => (above f i).card where
  above := by
    intro p i hi
    have hparent : Up f i p := h.linked.parent_iff.2 hi
    apply Finset.card_lt_card
    refine (Finset.ssubset_iff_of_subset ?_).2 ⟨p, ?_, ?_⟩
    · intro j hj
      obtain ⟨hjs, hup⟩ := mem_above.1 hj
      exact mem_above.2 ⟨hjs, .head hparent hup⟩
    · exact mem_above.2 ⟨(h.linked.bound hi).1, .single hparent⟩
    · exact fun hmem => h.acyclic p (mem_above.1 hmem).2
  bound := by
    intro i hi
    have hsub : above f i ⊆ (Finset.range f.size).erase i := by
      intro j hj
      obtain ⟨hjs, hup⟩ := mem_above.1 hj
      refine Finset.mem_erase.2 ⟨?_, Finset.mem_range.2 hjs⟩
      intro heq
      subst heq
      exact h.acyclic j hup
    have hcard := Finset.card_le_card hsub
    rw [Finset.card_erase_of_mem (Finset.mem_range.2 hi), Finset.card_range] at hcard
    omega

theorem walksEnd (h : WellFormed f) : WalksEnd f where
  children := h.linked.siblings_kids
  descendants := descendants_walk h.linked h.graded
  isAttached := isAttached_walk h.linked h.graded

theorem isAttached_iff (h : WellFormed f) : f.isAttached i = true ↔ Below f.children root i :=
  Forest.isAttached_iff h.linked h.graded

theorem mem_descendants (h : WellFormed f) :
    j ∈ f.descendants p ↔ j ≠ p ∧ Below f.children p j :=
  Forest.mem_descendants h.linked h.graded

theorem mem_children (h : WellFormed f) : i ∈ f.children p ↔ (f.get i).parent = some p :=
  h.linked.parent_iff.symm

theorem parent_ne (h : WellFormed f) (hi : (f.get i).parent = some p) : p ≠ i := by
  intro heq
  subst heq
  exact h.acyclic p (.single hi)

theorem congr (h : WellFormed f) (hsize : g.size = f.size)
    (hget : ∀ j, (g.get j).parent = (f.get j).parent ∧ (g.get j).prev = (f.get j).prev ∧
      (g.get j).next = (f.get j).next ∧ (g.get j).firstChild = (f.get j).firstChild ∧
      (g.get j).lastChild = (f.get j).lastChild) : WellFormed g := by
  have hgraded : Graded g f.children fun i => (Forest.above f i).card :=
    ⟨h.graded.above, fun hi => hsize ▸ h.graded.bound (hsize ▸ hi)⟩
  exact .of_graded (h.linked.congr hsize hget) hgraded

end WellFormed

theorem WellFormed.of_linked (h : Linked f kids)
    (hacyclic : ∀ i, ¬ Relation.TransGen (Up f) i i) : WellFormed f := by
  have hkids : f.children = kids := funext h.children_eq
  exact ⟨hkids.symm ▸ h, hacyclic⟩

/-- The node `r` has a place in front of which `c` can be put without getting below itself. -/
structure Guarded (f : Forest) (r c : Nat) : Prop where
  placed : (f.get r).parent ≠ none
  other : r ≠ c
  notBelow : ¬ Below f.children c r

theorem WellFormed.guarded (h : WellFormed f) (hplaced : (f.get r).parent ≠ none)
    (hup : Relation.TransGen (Up f) c r) : Guarded f r c where
  placed := hplaced
  other := by
    intro heq
    subst heq
    exact h.acyclic r hup
  notBelow := by
    intro hbelow
    exact h.acyclic c (hup.trans_left ((below_iff_up h.linked).1 hbelow))

/-- Edits have kept the nodes and their labels, and the parents have become `parent`. -/
structure Edited (f g : Forest) (parent : Nat → Option Nat) : Prop where
  wellFormed : WellFormed g
  size : g.size = f.size
  label : ∀ j, g.label j = f.label j
  parent : ∀ j, (g.get j).parent = parent j

/-- Where one node has got another parent, a way up leads through that node or has been there. -/
theorem up_moved (hother : ∀ j, j ≠ c → (g.get j).parent = (f.get j).parent)
    (hc : (g.get c).parent = some p) (hup : Relation.TransGen (Up g) i j) :
    Relation.TransGen (Up f) i j ∨
      Relation.ReflTransGen (Up f) i c ∧ Relation.ReflTransGen (Up f) p j := by
  have hstep : ∀ {j k}, Up g j k → Up f j k ∨ j = c ∧ k = p := by
    intro j k hjk
    by_cases hj : j = c
    · subst hj
      exact .inr ⟨rfl, Option.some.inj (hjk.symm.trans hc)⟩
    · exact .inl ((hother j hj).symm.trans hjk)
  induction hup with
  | single hij =>
    rcases hstep hij with hij | ⟨rfl, rfl⟩
    · exact .inl (.single hij)
    · exact .inr ⟨.refl, .refl⟩
  | tail _ hjk ih =>
    rcases hstep hjk with hjk | ⟨rfl, rfl⟩
    · rcases ih with hij | ⟨hic, hpj⟩
      · exact .inl (.tail hij hjk)
      · exact .inr ⟨hic, .tail hpj hjk⟩
    · rcases ih with hij | ⟨hic, -⟩
      · exact .inr ⟨hij.to_reflTransGen, .refl⟩
      · exact .inr ⟨hic, .refl⟩

theorem WellFormed.acyclic_orphaned (h : WellFormed f)
    (hother : ∀ j, j ≠ c → (g.get j).parent = (f.get j).parent)
    (hc : (g.get c).parent = none) (i : Nat) : ¬ Relation.TransGen (Up g) i i := by
  intro hup
  apply h.acyclic i
  refine Relation.TransGen.mono ?_ _ _ hup
  intro j k hjk
  by_cases hj : j = c
  · subst hj
    exact (Option.some_ne_none k (hjk.symm.trans hc)).elim
  · exact (hother j hj).symm.trans hjk

theorem update_parent (hother : ∀ j, j ≠ c → (g.get j).parent = (f.get j).parent)
    {q : Option Nat} (hc : (g.get c).parent = q) (j : Nat) :
    (g.get j).parent = Function.update (fun j => (f.get j).parent) c q j := by
  by_cases hj : j = c
  · subst hj
    rw [hc, Function.update_self]
  · rw [hother j hj, Function.update_of_ne hj]

namespace WellFormed

/-- A node may move below any node that is not at or below it. -/
theorem moved (h : WellFormed f) {l : List Nat}
    (hlinked : Linked g (Function.update (without c f.children) p l)) (hc : c ∈ l)
    (hl : ∀ j, j ≠ c → (j ∈ l ↔ j ∈ without c f.children p)) (hnot : ¬ Below f.children c p) :
    WellFormed g ∧
      ∀ j, (g.get j).parent = Function.update (fun j => (f.get j).parent) c (some p) j := by
  have hmoved : (g.get c).parent = some p := by
    apply hlinked.parent_iff.2
    rwa [Function.update_self]
  have hother : ∀ j, j ≠ c → (g.get j).parent = (f.get j).parent := by
    intro j hj
    apply h.linked.parent_congr hlinked
    intro q
    by_cases hq : q = p
    · subst hq
      rw [Function.update_self, hl j hj, mem_without, and_iff_left hj]
    · rw [Function.update_of_ne hq, mem_without, and_iff_left hj]
  refine ⟨.of_linked hlinked ?_, update_parent hother hmoved⟩
  intro i hup
  rcases up_moved hother hmoved hup with hold | ⟨hic, hpi⟩
  · exact h.acyclic i hold
  · exact hnot ((below_iff_up h.linked).2 (hpi.trans hic))

theorem insertBefore (h : WellFormed f) (hguard : Guarded f r c) (hc : c < f.size) :
    Edited f (f.insertBefore r c)
      (Function.update (fun j => (f.get j).parent) c (f.get r).parent) := by
  obtain ⟨p, hr⟩ := Option.ne_none_iff_exists'.1 hguard.placed
  have hrp := h.linked.parent_iff.1 hr
  obtain ⟨a, b, hsplit⟩ := List.append_of_mem (mem_without.2 ⟨hrp, hguard.other⟩)
  obtain ⟨hlinked, hsize, hlabel⟩ := h.linked.insertBefore hsplit hc
  have hl : ∀ j, j ≠ c → (j ∈ a ++ c :: r :: b ↔ j ∈ without c f.children p) := by
    intro j hj
    rw [hsplit]
    grind
  have hnot : ¬ Below f.children c p := fun hbelow => hguard.notBelow (hbelow.child hrp)
  obtain ⟨hwell, hparent⟩ :=
    h.moved hlinked (List.mem_append_right _ List.mem_cons_self) hl hnot
  exact ⟨hwell, hsize, hlabel, hr ▸ hparent⟩

theorem append (h : WellFormed f) (hp : p < f.size) (hc : c < f.size)
    (hnot : ¬ Below f.children c p) :
    Edited f (f.append p c) (Function.update (fun j => (f.get j).parent) c (some p)) := by
  have hpc : p ≠ c := by
    rintro rfl
    exact hnot .refl
  obtain ⟨hlinked, hsize, hlabel⟩ := h.linked.append hp hc hpc
  have hl : ∀ j, j ≠ c →
      (j ∈ without c f.children p ++ [c] ↔ j ∈ without c f.children p) := by
    intro j hj
    rw [List.mem_append, List.mem_singleton, or_iff_left hj]
  obtain ⟨hwell, hparent⟩ :=
    h.moved hlinked (List.mem_append_right _ (List.mem_singleton_self c)) hl hnot
  exact ⟨hwell, hsize, hlabel, hparent⟩

theorem detach (h : WellFormed f) (c : Nat) :
    Edited f (f.detach c) (Function.update (fun j => (f.get j).parent) c none) := by
  have hlinked := h.linked.detach c
  have hmoved : ((f.detach c).get c).parent = none := (hlinked.orphan notMem_without).1
  have hother : ∀ j, j ≠ c → ((f.detach c).get j).parent = (f.get j).parent := by
    intro j hj
    apply h.linked.parent_congr hlinked
    intro q
    rw [mem_without, and_iff_left hj]
  exact ⟨.of_linked hlinked (h.acyclic_orphaned hother hmoved), size_detach h.linked c,
    label_detach h.linked c, update_parent hother hmoved⟩

theorem create (h : WellFormed f) (l : Label) :
    WellFormed (f.create l).1 ∧ ∀ j, ((f.create l).1.get j).parent = (f.get j).parent := by
  have hlinked := h.linked.create l
  have hparent : ∀ j, ((f.create l).1.get j).parent = (f.get j).parent :=
    fun j => h.linked.parent_congr hlinked fun q => .rfl
  have hnew : ((f.create l).1.get f.size).parent = none :=
    (hlinked.orphan h.linked.notMem_size).1
  exact ⟨.of_linked hlinked (h.acyclic_orphaned (fun j _ => hparent j) hnew), hparent⟩

end WellFormed

namespace Edited

variable {parent : Nat → Option Nat}

theorem refl (h : WellFormed f) : Edited f f fun j => (f.get j).parent :=
  ⟨h, rfl, fun _ => rfl, fun _ => rfl⟩

theorem insertBefore (h : Edited f g parent) (hguard : Guarded g r c) (hc : c < f.size) :
    Edited f (g.insertBefore r c) (Function.update parent c (parent r)) := by
  have hparent : (fun j => (g.get j).parent) = parent := funext h.parent
  have hedited := h.wellFormed.insertBefore hguard (h.size ▸ hc)
  rw [hparent, h.parent r] at hedited
  exact ⟨hedited.wellFormed, hedited.size.trans h.size,
    fun j => (hedited.label j).trans (h.label j), hedited.parent⟩

theorem detach (h : Edited f g parent) (c : Nat) :
    Edited f (g.detach c) (Function.update parent c none) := by
  have hparent : (fun j => (g.get j).parent) = parent := funext h.parent
  have hedited := h.wellFormed.detach c
  rw [hparent] at hedited
  exact ⟨hedited.wellFormed, hedited.size.trans h.size,
    fun j => (hedited.label j).trans (h.label j), hedited.parent⟩

end Edited

namespace WellFormed

theorem guarded_new (h : WellFormed f) (l : Label) (hr : (f.get r).parent ≠ none) :
    Guarded (f.create l).1 r f.size := by
  obtain ⟨p, hp⟩ := Option.ne_none_iff_exists'.1 hr
  have hrs : r < f.size := (h.linked.bound (h.linked.parent_iff.1 hp)).2
  refine ⟨((h.create l).2 r).symm ▸ hr, Nat.ne_of_lt hrs, ?_⟩
  intro hbelow
  rcases Relation.ReflTransGen.cases_head hbelow with heq | ⟨c, hc, -⟩
  · exact Nat.ne_of_gt hrs heq
  · rw [(h.linked.create l).children_eq, h.linked.kids_size] at hc
    cases hc

variable {s : Nat} {cs : List Nat}

/-- While children of `s` move to the place in front of its parent `r`, the others may follow. -/
theorem guarded_left (h : WellFormed f) (hr : (f.get r).parent ≠ none)
    (hs : (f.get s).parent = some r) (hcs : ∀ c ∈ cs, (f.get c).parent = some s)
    (hg : Edited f g fun j => if j ∈ cs then (f.get r).parent else (f.get j).parent)
    (hc : (f.get c).parent = some s) (hleft : c ∉ cs) : Guarded g r c := by
  have hrnot : r ∉ cs := fun hmem => h.acyclic s (.tail (.single hs) (hcs r hmem))
  have hsnot : s ∉ cs := fun hmem => h.parent_ne (hcs s hmem) rfl
  apply hg.wellFormed.guarded
  · rw [hg.parent, if_neg hrnot]
    exact hr
  · refine .tail (.single ?_) (?_ : Up g s r)
    · rw [Up, hg.parent, if_neg hleft]
      exact hc
    · rw [Up, hg.parent, if_neg hsnot]
      exact hs

theorem insertAll (h : WellFormed f) (hr : (f.get r).parent ≠ none)
    (hs : (f.get s).parent = some r) (hcs : ∀ c ∈ cs, (f.get c).parent = some s)
    (hnodup : cs.Nodup) :
    Edited f (cs.foldl (fun g c => g.insertBefore r c) f)
      fun j => if j ∈ cs then (f.get r).parent else (f.get j).parent := by
  induction cs using List.reverseRecOn with
  | nil => exact .refl h
  | append_singleton cs c ih =>
    have hcs' : ∀ c ∈ cs, (f.get c).parent = some s :=
      fun c hc => hcs c (List.mem_append_left _ hc)
    have hc := hcs c (List.mem_append_right _ (List.mem_singleton_self c))
    obtain ⟨hnodup', -, hdisjoint⟩ := List.nodup_append.1 hnodup
    have hleft : c ∉ cs := fun hmem => hdisjoint c hmem c (List.mem_singleton_self c) rfl
    have hbefore := ih hcs' hnodup'
    have hbound : c < f.size := (h.linked.bound (h.linked.parent_iff.1 hc)).2
    have hafter := hbefore.insertBefore (h.guarded_left hr hs hcs' hbefore hc hleft) hbound
    rw [List.foldl_concat]
    refine ⟨hafter.wellFormed, hafter.size, hafter.label, ?_⟩
    intro j
    rw [hafter.parent]
    by_cases hj : j = c
    · subst hj
      simp
    · rw [Function.update_of_ne hj]
      simp [hj]

end WellFormed

/-- A well-formed forest with its root. -/
structure Sound (f : Forest) : Prop where
  wellFormed : WellFormed f
  rooted : Rooted f

theorem Edited.sound {parent : Nat → Option Nat} (h : Edited f g parent) (hr : Rooted f)
    (halone : parent root = none) : Sound g where
  wellFormed := h.wellFormed
  rooted := by
    refine ⟨h.size ▸ hr.bound, (h.parent root).trans halone, ?_⟩
    rw [h.label]
    exact hr.kind

namespace Sound

theorem placed (h : Sound f) (hi : Below f.children root i) (hne : i ≠ root) :
    (f.get i).parent ≠ none := by
  rcases hi.cases_child with heq | ⟨p, -, hmem⟩
  · exact (hne heq).elim
  · rw [h.wellFormed.mem_children.1 hmem]
    exact nofun

theorem ne_root (h : Sound f) (hi : (f.get i).parent = some p) : i ≠ root := by
  intro heq
  subst heq
  rw [h.rooted.alone] at hi
  cases hi

theorem below_parent (h : Sound f) (hi : Below f.children root i)
    (hp : (f.get i).parent = some p) : Below f.children root p := by
  rcases hi.cases_child with heq | ⟨q, hq, hmem⟩
  · exact (h.ne_root hp heq).elim
  · rw [h.wellFormed.mem_children.1 hmem] at hp
    cases hp
    exact hq

theorem ne_root_of_collect (h : Sound f) {P : Label → Bool} (hi : i ∈ f.collect P) : i ≠ root :=
  (h.wellFormed.mem_descendants.1 (List.mem_filter.1 hi).1).1

theorem relabel (h : Sound f) (hi : i < f.size) (change : Label → Label)
    (hkind : ∀ l, (change l).kind = l.kind) :
    Sound (f.modify i fun n => { n with label := change n.label }) ∧
      ∀ p, Below (f.modify i fun n => { n with label := change n.label }).children p j ↔
        Below f.children p j := by
  have hget : ∀ j, ∃ l, l.kind = (f.label j).kind ∧
      (f.modify i fun n => { n with label := change n.label }).get j =
        { f.get j with label := l } := by
    intro j
    rw [get_modify _ _ _ _ hi]
    split
    · next hij =>
      subst hij
      exact ⟨_, hkind _, rfl⟩
    · exact ⟨_, rfl, rfl⟩
  have hsize : (f.modify i fun n => { n with label := change n.label }).size = f.size :=
    size_modify _ _ _
  have hsame : ∀ j, ((f.modify i fun n => { n with label := change n.label }).get j).parent =
      (f.get j).parent := by
    intro j
    obtain ⟨l, -, hl⟩ := hget j
    rw [hl]
  have hwell : WellFormed (f.modify i fun n => { n with label := change n.label }) := by
    apply h.wellFormed.congr hsize
    intro j
    obtain ⟨l, -, hl⟩ := hget j
    rw [hl]
    exact ⟨rfl, rfl, rfl, rfl, rfl⟩
  refine ⟨⟨hwell, hsize.symm ▸ h.rooted.bound, (hsame root).trans h.rooted.alone, ?_⟩, ?_⟩
  · obtain ⟨l, hl, hroot⟩ := hget root
    rw [label, hroot]
    exact hl.trans h.rooted.kind
  · intro p
    have hup : Up (f.modify i fun n => { n with label := change n.label }) = Up f := by
      funext j k
      rw [Up, Up, hsame]
    rw [below_iff_up hwell.linked, below_iff_up h.wellFormed.linked, hup]

theorem create (h : Sound f) (l : Label) : Sound (f.create l).1 := by
  obtain ⟨hcreate, hparent⟩ := h.wellFormed.create l
  refine ⟨hcreate, ?_, (hparent root).trans h.rooted.alone, ?_⟩
  · rw [size_create]
    exact Nat.succ_pos _
  · rw [label, get_create, if_neg (Nat.ne_of_lt h.rooted.bound)]
    exact h.rooted.kind

theorem detach (h : Sound f) (c : Nat) : Sound (f.detach c) := by
  apply (h.wellFormed.detach c).sound h.rooted
  by_cases hc : root = c
  · rw [hc, Function.update_self]
  · rw [Function.update_of_ne hc]
    exact h.rooted.alone

theorem insertBefore (h : Sound f) (hguard : Guarded f r c) (hc : c < f.size) (hne : c ≠ root) :
    Sound (f.insertBefore r c) := by
  apply (h.wellFormed.insertBefore hguard hc).sound h.rooted
  rw [Function.update_of_ne hne.symm]
  exact h.rooted.alone

theorem replaceByNew (h : Sound f) (l : Label) (hr : (f.get r).parent ≠ none) :
    Sound ((f.create l).1.replaceWith r f.size) := by
  have hcreate := h.create l
  have hguard := h.wellFormed.guarded_new l hr
  have hsize : f.size < (f.create l).1.size := by
    rw [size_create]
    exact Nat.lt_succ_self _
  unfold replaceWith
  rw [if_neg hguard.other]
  exact (hcreate.insertBefore hguard hsize (Nat.ne_of_gt h.rooted.bound)).detach r

variable {s : Nat} {cs : List Nat}

theorem insertAll (h : Sound f) (hr : (f.get r).parent ≠ none) (hs : (f.get s).parent = some r)
    (hcs : ∀ c ∈ cs, (f.get c).parent = some s) (hnodup : cs.Nodup) :
    Sound (cs.foldl (fun g c => g.insertBefore r c) f) := by
  apply (h.wellFormed.insertAll hr hs hcs hnodup).sound h.rooted
  rw [if_neg fun hmem => h.ne_root (hcs root hmem) rfl]
  exact h.rooted.alone

theorem guarded_child (h : Sound f) (hr : (f.get r).parent ≠ none)
    (hs : (f.get s).parent = some r) {rest : List Nat} (hsplit : f.children s = cs ++ c :: rest) :
    Sound (cs.foldl (fun g c => g.insertBefore r c) f) ∧
      Guarded (cs.foldl (fun g c => g.insertBefore r c) f) r c := by
  have hnodup := h.wellFormed.linked.nodup s
  rw [hsplit] at hnodup
  have hparent : ∀ {i}, i ∈ cs ++ c :: rest → (f.get i).parent = some s := by
    intro i hi
    exact h.wellFormed.mem_children.1 (hsplit ▸ hi)
  have hcs : ∀ i ∈ cs, (f.get i).parent = some s :=
    fun i hi => hparent (List.mem_append_left _ hi)
  have hleft : c ∉ cs := by grind
  have hnodup' := (List.nodup_append.1 hnodup).1
  have hc := hparent (List.mem_append_right _ List.mem_cons_self)
  exact ⟨h.insertAll hr hs hcs hnodup', h.wellFormed.guarded_left hr hs hcs
    (h.wellFormed.insertAll hr hs hcs hnodup') hc hleft⟩

theorem replaceWithChildren (h : Sound f) (hr : (f.get r).parent ≠ none)
    (hs : (f.get s).parent = some r) :
    Sound (f.replaceWithChildren r s) ∧ ∀ c, (f.get c).parent = some s →
      ((f.replaceWithChildren r s).get c).parent = (f.get r).parent := by
  have hwell := h.wellFormed
  have hcs : ∀ c ∈ f.children s, (f.get c).parent = some s :=
    fun _ hc => hwell.mem_children.1 hc
  have hall := h.insertAll hr hs hcs (hwell.linked.nodup s)
  have hedited := (hwell.insertAll hr hs hcs (hwell.linked.nodup s)).detach r
  refine ⟨hall.detach r, ?_⟩
  intro c hc
  have hcr : c ≠ r := by
    intro heq
    subst heq
    exact hwell.acyclic c (.tail (.single hc) hs)
  apply (hedited.parent c).trans
  rw [Function.update_of_ne hcr, if_pos (hwell.mem_children.2 hc)]

end Sound

theorem ofTree_sound (selectors : List Tree) :
    Sound (ofTree (.root selectors)) ∧
      Graded (ofTree (.root selectors)) (ofTree (.root selectors)).children id ∧
      (ofTree (.root selectors)).tree root = .root selectors := by
  obtain ⟨kids, hlinked, hgraded, hsize, htree⟩ := ofTree_planted (.root selectors)
  have hkids : (ofTree (.root selectors)).children = kids := funext hlinked.children_eq
  have hlabel := (Tree.node.inj ((tree_eq hlinked hgraded hsize).symm.trans htree)).1
  refine ⟨⟨.of_graded hlinked hgraded, hsize, ?_, ?_⟩, hkids ▸ hgraded, htree⟩
  · exact (hlinked.orphan fun q hq => Nat.not_lt_zero _ (hgraded.above hq)).1
  · rw [hlabel]

end ScopedStyles.Forest
