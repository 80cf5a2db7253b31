import ScopedStyles.Proofs.Forest.Layers
import ScopedStyles.Proofs.Forest.WellFormed

namespace ScopedStyles.Forest

open Selector

def inOrder {α : Type} (swapped : Bool) (l m : List α) : List α :=
  if swapped then m ++ l else l ++ m

section InOrder

variable {α β : Type} {swapped : Bool} {l m : List α}

theorem inOrder_not : inOrder (!swapped) m l = inOrder swapped l m := by
  cases swapped with
  | false => rfl
  | true => rfl

theorem mem_inOrder {x : α} : x ∈ inOrder swapped l m ↔ x ∈ l ∨ x ∈ m := by
  cases swapped with
  | false => exact List.mem_append
  | true => exact List.mem_append.trans or_comm

theorem map_inOrder (g : α → β) :
    (inOrder swapped l m).map g = inOrder swapped (l.map g) (m.map g) := by
  cases swapped with
  | false => exact List.map_append
  | true => exact List.map_append

theorem flatMap_inOrder (g : α → List β) :
    (inOrder swapped l m).flatMap g = inOrder swapped (l.flatMap g) (m.flatMap g) := by
  cases swapped with
  | false => exact List.flatMap_append
  | true => exact List.flatMap_append

theorem filter_inOrder (P : α → Bool) :
    (inOrder swapped l m).filter P = inOrder swapped (l.filter P) (m.filter P) := by
  cases swapped with
  | false => exact List.filter_append _ _
  | true => exact List.filter_append _ _

end InOrder

variable {f f' : Forest} {i j p r s : Nat} {l : Label}

namespace Sound

theorem child_lt (h : Sound f) (hi : i ∈ f.children p) : p < f.size ∧ i < f.size ∧ i ≠ root :=
  ⟨(h.wellFormed.linked.bound hi).1, (h.wellFormed.linked.bound hi).2,
    h.ne_root (h.wellFormed.mem_children.1 hi)⟩

theorem lt (h : Sound f) (hi : Below f.children root i) : i < f.size :=
  hi.lt h.wellFormed.linked h.rooted.bound

theorem ne_root_of_kind (h : Sound f) (hi : (f.label i).kind ≠ .root) : i ≠ root := by
  intro heq
  subst heq
  exact hi h.rooted.kind

end Sound

structure Exchanged (f : Forest) (i : Nat) (l : Label) (f' : Forest) : Prop where
  sound : Sound f'
  size : f'.size = f.size + 1
  label : ∀ j, f'.label j = if j = f.size then l else f.label j
  children : f'.children = exchange i f.size f.children

/-- The children of `s` have taken the place of the parent `i` of `s`. -/
structure Spliced (f : Forest) (i s : Nat) (f' : Forest) : Prop where
  sound : Sound f'
  size : f'.size = f.size
  label : ∀ j, f'.label j = f.label j
  children : f'.children = splice i s f.children

structure Relabeled (f : Forest) (i : Nat) (change : Label → Label) (f' : Forest) : Prop where
  sound : Sound f'
  size : f'.size = f.size
  label : ∀ j, f'.label j = if j = i then change (f.label j) else f.label j
  children : f'.children = f.children

namespace Sound

theorem exchanged (h : Sound f) (l : Label) (hi : (f.get i).parent ≠ none) :
    Exchanged f i l ((f.create l).1.replaceWith i f.size) := by
  obtain ⟨p, hp⟩ := Option.ne_none_iff_exists'.1 hi
  obtain ⟨a, b, hsplit⟩ := List.append_of_mem (h.wellFormed.mem_children.2 hp)
  have hlinked := h.wellFormed.linked
  obtain ⟨hout, hsize, hlabel⟩ := (hlinked.create l).replaceWith hsplit hlinked.notMem_size
    (by rw [size_create]; exact Nat.lt_succ_self _)
  rw [← hlinked.exchange_eq hsplit] at hout
  refine ⟨h.replaceByNew l hi, hsize.trans (size_create l), ?_, funext hout.children_eq⟩
  intro j
  rw [hlabel]
  unfold label
  rw [get_create]
  split
  · rfl
  · rfl

theorem spliced (h : Sound f) (hi : (f.get i).parent ≠ none) (hs : (f.get s).parent = some i) :
    Spliced f i s (f.replaceWithChildren i s) := by
  obtain ⟨p, hp⟩ := Option.ne_none_iff_exists'.1 hi
  obtain ⟨a, b, hsplit⟩ := List.append_of_mem (h.wellFormed.mem_children.2 hp)
  have hlinked := h.wellFormed.linked
  have hsp : s ≠ p := by
    intro heq
    subst heq
    exact h.wellFormed.acyclic s (.tail (.single hs) hp)
  obtain ⟨hout, hsize, hlabel⟩ := hlinked.replaceWithChildren hsplit hsp
  rw [← hlinked.splice_eq hsplit hsp] at hout
  exact ⟨(h.replaceWithChildren hi hs).1, hsize, hlabel, funext hout.children_eq⟩

theorem relabeled (h : Sound f) (hi : i < f.size) (change : Label → Label)
    (hkind : ∀ l, (change l).kind = l.kind) :
    Relabeled f i change (f.modify i fun n => { n with label := change n.label }) := by
  have hget : ∀ j, ∃ l, l = (if j = i then change (f.label j) else f.label j) ∧
      (f.modify i fun n => { n with label := change n.label }).get j =
        { f.get j with label := l } := by
    intro j
    rw [get_modify _ _ _ _ hi]
    by_cases hj : j = i
    · subst hj
      rw [if_pos rfl, if_pos rfl]
      exact ⟨_, rfl, rfl⟩
    · rw [if_neg (Ne.symm hj), if_neg hj]
      exact ⟨_, rfl, rfl⟩
  refine ⟨(h.relabel (j := i) hi change hkind).1, size_modify _ _ _, ?_, ?_⟩
  · intro j
    obtain ⟨l, hl, hj⟩ := hget j
    rw [← hl, label, hj]
  · have hlinked := h.wellFormed.linked.congr (size_modify f i _) fun j => by
      obtain ⟨l, -, hj⟩ := hget j
      rw [hj]
      exact ⟨rfl, rfl, rfl, rfl, rfl⟩
    exact funext hlinked.children_eq

end Sound

/-- The nodes of `f` stand in `F` under the numbers that `ρ` gives them. -/
structure Part (ρ : Nat → Nat) (f F : Forest) : Prop where
  atRoot : ρ root = root
  bound : ∀ j < f.size, ρ j < F.size
  inj : ∀ i < f.size, ∀ j < f.size, ρ i = ρ j → i = j
  label : ∀ j < f.size, j ≠ root → F.label (ρ j) = f.label j
  children : ∀ j < f.size, j ≠ root → F.children (ρ j) = (f.children j).map ρ

def extended (ρ : Nat → Nat) (f F : Forest) : Nat → Nat :=
  Function.update ρ f.size F.size

theorem extended_of_lt {ρ : Nat → Nat} {F : Forest} (hj : j < f.size) : extended ρ f F j = ρ j :=
  Function.update_of_ne (Nat.ne_of_lt hj) _ _

theorem extended_size (ρ : Nat → Nat) (f F : Forest) : extended ρ f F f.size = F.size :=
  Function.update_self ..

theorem Part.extend {ρ : Nat → Nat} {F F' : Forest} (h : Part ρ f F) (hroot : root < f.size)
    (hsize : f'.size = f.size + 1) (hsizeIn : F'.size = F.size + 1)
    (hlabel : ∀ j, f'.label j = if j = f.size then l else f.label j)
    (hlabelIn : ∀ j, F'.label j = if j = F.size then l else F.label j)
    (hnew : f'.children f.size = []) (hnewIn : F'.children F.size = [])
    (hold : ∀ j < f.size, j ≠ root →
      F'.children (ρ j) = (f'.children j).map (extended ρ f F)) : Part (extended ρ f F) f' F' := by
  have hcases : ∀ {j}, j < f'.size → j = f.size ∨ j < f.size := by
    intro j hj
    rw [hsize] at hj
    omega
  constructor
  · rw [extended_of_lt hroot]
    exact h.atRoot
  · intro j hj
    rw [hsizeIn]
    rcases hcases hj with rfl | hj
    · rw [extended_size]
      exact Nat.lt_succ_self _
    · rw [extended_of_lt hj]
      exact Nat.lt_succ_of_lt (h.bound j hj)
  · intro j hj k hk heq
    rcases hcases hj with rfl | hj
    · rcases hcases hk with rfl | hk
      · rfl
      · rw [extended_size, extended_of_lt hk] at heq
        exact absurd heq (Nat.ne_of_gt (h.bound k hk))
    · rcases hcases hk with rfl | hk
      · rw [extended_size, extended_of_lt hj] at heq
        exact absurd heq (Nat.ne_of_lt (h.bound j hj))
      · rw [extended_of_lt hj, extended_of_lt hk] at heq
        exact h.inj j hj k hk heq
  · intro j hj hjroot
    rw [hlabel, hlabelIn]
    rcases hcases hj with rfl | hj
    · rw [extended_size, if_pos rfl, if_pos rfl]
    · rw [extended_of_lt hj, if_neg (Nat.ne_of_lt (h.bound j hj)), if_neg (Nat.ne_of_lt hj)]
      exact h.label j hj hjroot
  · intro j hj hjroot
    rcases hcases hj with rfl | hj
    · rw [extended_size, hnew, hnewIn]
      rfl
    · rw [extended_of_lt hj]
      exact hold j hj hjroot

/-- The forest `F` holds two forests below its root, and no node belongs to both. -/
structure Joined (swapped : Bool) (ρ₁ : Nat → Nat) (f₁ : Forest) (ρ₂ : Nat → Nat) (f₂ F : Forest) :
    Prop where
  sound : Sound F
  sound₁ : Sound f₁
  sound₂ : Sound f₂
  part₁ : Part ρ₁ f₁ F
  part₂ : Part ρ₂ f₂ F
  top : F.children root = inOrder swapped ((f₁.children root).map ρ₁) ((f₂.children root).map ρ₂)
  apart : ∀ i < f₁.size, ∀ j < f₂.size, i ≠ root → j ≠ root → ρ₁ i ≠ ρ₂ j

variable {swapped : Bool} {ρ ρ₁ ρ₂ : Nat → Nat} {f₁ f₂ f₁' F F' : Forest}

namespace Joined

theorem symm (h : Joined swapped ρ₁ f₁ ρ₂ f₂ F) : Joined (!swapped) ρ₂ f₂ ρ₁ f₁ F where
  sound := h.sound
  sound₁ := h.sound₂
  sound₂ := h.sound₁
  part₁ := h.part₂
  part₂ := h.part₁
  top := h.top.trans inOrder_not.symm
  apart := fun i hi j hj hi' hj' heq => h.apart j hj i hi hj' hi' heq.symm

theorem mem_top (h : Joined swapped ρ₁ f₁ ρ₂ f₂ F) {x : Nat} :
    x ∈ F.children root ↔
      (∃ j ∈ f₁.children root, ρ₁ j = x) ∨ ∃ j ∈ f₂.children root, ρ₂ j = x := by
  rw [h.top, mem_inOrder, List.mem_map, List.mem_map]

theorem child (h : Joined swapped ρ₁ f₁ ρ₂ f₂ F) (hj : j ∈ f₁.children p) :
    ρ₁ j ∈ F.children (ρ₁ p) := by
  by_cases hp : p = root
  · subst hp
    rw [h.part₁.atRoot]
    exact h.mem_top.2 (.inl ⟨j, hj, rfl⟩)
  · rw [h.part₁.children p (h.sound₁.child_lt hj).1 hp]
    exact List.mem_map_of_mem hj

theorem below (h : Joined swapped ρ₁ f₁ ρ₂ f₂ F) (hj : Below f₁.children root j) :
    Below F.children root (ρ₁ j) := by
  induction hj with
  | refl =>
    rw [h.part₁.atRoot]
    exact .refl
  | tail _ hmem ih => exact ih.child (h.child hmem)

theorem below_cases (h : Joined swapped ρ₁ f₁ ρ₂ f₂ F) {x : Nat} (hx : Below F.children root x) :
    x = root ∨ (∃ j, j ≠ root ∧ Below f₁.children root j ∧ x = ρ₁ j) ∨
      ∃ j, j ≠ root ∧ Below f₂.children root j ∧ x = ρ₂ j := by
  induction hx with
  | refl => exact .inl rfl
  | @tail q x _ hmem ih =>
    refine .inr ?_
    rcases ih with rfl | ⟨j, hj, hbelow, rfl⟩ | ⟨j, hj, hbelow, rfl⟩
    · rcases h.mem_top.1 hmem with ⟨k, hk, rfl⟩ | ⟨k, hk, rfl⟩
      · exact .inl ⟨k, (h.sound₁.child_lt hk).2.2, Below.child .refl hk, rfl⟩
      · exact .inr ⟨k, (h.sound₂.child_lt hk).2.2, Below.child .refl hk, rfl⟩
    · rw [h.part₁.children j (h.sound₁.lt hbelow) hj] at hmem
      obtain ⟨k, hk, rfl⟩ := List.mem_map.1 hmem
      exact .inl ⟨k, (h.sound₁.child_lt hk).2.2, hbelow.child hk, rfl⟩
    · rw [h.part₂.children j (h.sound₂.lt hbelow) hj] at hmem
      obtain ⟨k, hk, rfl⟩ := List.mem_map.1 hmem
      exact .inr ⟨k, (h.sound₂.child_lt hk).2.2, hbelow.child hk, rfl⟩

theorem below_iff (h : Joined swapped ρ₁ f₁ ρ₂ f₂ F) (hj : j < f₁.size) :
    Below F.children root (ρ₁ j) ↔ Below f₁.children root j := by
  constructor
  · intro hbelow
    by_cases hroot : j = root
    · subst hroot
      exact .refl
    · rcases h.below_cases hbelow with heq | ⟨k, -, hk, heq⟩ | ⟨k, hk', hk, heq⟩
      · have hroot' := h.part₁.inj j hj root h.sound₁.rooted.bound (heq.trans h.part₁.atRoot.symm)
        exact (hroot hroot').elim
      · rw [h.part₁.inj j hj k (h.sound₁.lt hk) heq]
        exact hk
      · exact (h.apart j hj k (h.sound₂.lt hk) hroot hk' heq).elim
  · exact h.below

theorem isAttached (h : Joined swapped ρ₁ f₁ ρ₂ f₂ F) (hj : j < f₁.size) :
    F.isAttached (ρ₁ j) = f₁.isAttached j := by
  rw [Bool.eq_iff_iff, h.sound.wellFormed.isAttached_iff, h.sound₁.wellFormed.isAttached_iff]
  exact h.below_iff hj

theorem parent (h : Joined swapped ρ₁ f₁ ρ₂ f₂ F) (hp : (f₁.get j).parent = some p) :
    (F.get (ρ₁ j)).parent = some (ρ₁ p) :=
  h.sound.wellFormed.mem_children.1 (h.child (h.sound₁.wellFormed.mem_children.2 hp))

/-- The neighbours of a node are its neighbours in the whole, unless it stands at the top. -/
theorem prev (h : Joined swapped ρ₁ f₁ ρ₂ f₂ F) (hp : (f₁.get j).parent = some p)
    (hroot : p ≠ root) : (F.get (ρ₁ j)).prev = ((f₁.get j).prev).map ρ₁ := by
  have hmem := h.sound₁.wellFormed.mem_children.2 hp
  obtain ⟨a, b, hsplit⟩ := List.append_of_mem hmem
  have hsplit' := h.part₁.children p (h.sound₁.child_lt hmem).1 hroot
  rw [hsplit, List.map_append, List.map_cons] at hsplit'
  rw [(h.sound₁.wellFormed.linked.links hsplit).2.1, (h.sound.wellFormed.linked.links hsplit').2.1,
    List.getLast?_map]

end Joined

theorem Preorder.append {a b l m : List Nat} (ha : Preorder f a l) (hb : Preorder f b m) :
    Preorder f (a ++ b) (l ++ m) := by
  induction ha with
  | done => exact hb
  | step hc _ ih =>
    rw [List.append_assoc] at ih
    exact .step hc ih

theorem Preorder.unique {pending l l' : List Nat} (h : Preorder f pending l)
    (h' : Preorder f pending l') : l = l' := by
  induction h generalizing l' with
  | done =>
    cases h'
    rfl
  | step hc _ ih =>
    cases h' with
    | step hc' h' =>
      have hcs := hc.unique hc'
      subst hcs
      exact congrArg _ (ih h')

theorem Part.preorder (h : Part ρ f F) (hf : Sound f) (hF : Sound F) {pending l : List Nat}
    (hl : Preorder f pending l) (hpending : ∀ j ∈ pending, j < f.size ∧ j ≠ root) :
    Preorder F (pending.map ρ) (l.map ρ) := by
  induction hl with
  | done => exact .done
  | @step i cs pending l hc _ ih =>
    obtain ⟨hi, hroot⟩ := hpending i List.mem_cons_self
    have hcs : cs = f.children i := hc.unique (hf.wellFormed.linked.siblings_kids i)
    subst hcs
    have hrest := ih (by
      intro j hj
      rcases List.mem_append.1 hj with hchild | hlater
      · exact (hf.child_lt hchild).2
      · exact hpending j (List.mem_cons_of_mem _ hlater))
    rw [List.map_append] at hrest
    apply Preorder.step _ hrest
    rw [← h.children i hi hroot]
    exact hF.wellFormed.linked.siblings_kids (ρ i)

namespace Joined

theorem descendants (h : Joined swapped ρ₁ f₁ ρ₂ f₂ F) :
    F.descendants root = inOrder swapped ((f₁.descendants root).map ρ₁)
      ((f₂.descendants root).map ρ₂) := by
  have hwalk : ∀ {ρ f}, Part ρ f F → Sound f →
      Preorder F ((f.children root).map ρ) ((f.descendants root).map ρ) := fun hpart hf =>
    hpart.preorder hf h.sound (descendants_walk hf.wellFormed.linked hf.wellFormed.graded root)
      fun _ hj => (hf.child_lt hj).2
  have hwhole := descendants_walk h.sound.wellFormed.linked h.sound.wellFormed.graded root
  rw [h.top] at hwhole
  apply hwhole.unique
  cases swapped with
  | false => exact (hwalk h.part₁ h.sound₁).append (hwalk h.part₂ h.sound₂)
  | true => exact (hwalk h.part₂ h.sound₂).append (hwalk h.part₁ h.sound₁)

theorem collect (h : Joined swapped ρ₁ f₁ ρ₂ f₂ F) (P : Label → Bool) :
    F.collect P = inOrder swapped ((f₁.collect P).map ρ₁) ((f₂.collect P).map ρ₂) := by
  have hpart : ∀ {ρ f}, Part ρ f F → Sound f →
      ((f.descendants root).map ρ).filter (fun x => P (F.label x)) = (f.collect P).map ρ := by
    intro ρ f hpart hf
    rw [collect_eq_filter, List.filter_map]
    refine congrArg (List.map ρ) (List.filter_congr fun j hj => ?_)
    obtain ⟨hroot, hbelow⟩ := hf.wellFormed.mem_descendants.1 hj
    exact congrArg P (hpart.label j (hf.lt hbelow) hroot)
  rw [collect_eq_filter, h.descendants, filter_inOrder, hpart h.part₁ h.sound₁,
    hpart h.part₂ h.sound₂]

end Joined

theorem Part.tree (h : Part ρ f F) (hf : Sound f) (hF : Sound F) (hj : j < f.size)
    (hroot : j ≠ root) : F.tree (ρ j) = f.tree j := by
  have hg := hf.wellFormed.graded
  have hleft : ∀ n j, j < f.size → j ≠ root → f.size ≤ n + (above f j).card →
      F.tree (ρ j) = f.tree j := by
    intro n
    induction n with
    | zero =>
      intro j hj _ hn
      have hlt := hg.bound hj
      omega
    | succ n ih =>
      intro j hj hroot hn
      rw [tree_eq hF.wellFormed.linked hF.wellFormed.graded (h.bound j hj),
        tree_eq hf.wellFormed.linked hg hj, h.label j hj hroot, h.children j hj hroot, List.map_map]
      refine congrArg (Selector.Tree.node (f.label j)) (List.map_congr_left fun k hk => ?_)
      obtain ⟨-, hk', hkroot⟩ := hf.child_lt hk
      have hlt := hg.above hk
      exact ih k hk' hkroot (by omega)
  exact hleft f.size j hj hroot (Nat.le_add_right _ _)

theorem Joined.tree (h : Joined swapped ρ₁ f₁ ρ₂ f₂ F) :
    (F.children root).map F.tree =
      inOrder swapped ((f₁.children root).map f₁.tree) ((f₂.children root).map f₂.tree) := by
  have hpart : ∀ {ρ f}, Part ρ f F → Sound f →
      ((f.children root).map ρ).map F.tree = (f.children root).map f.tree := by
    intro ρ f hpart hf
    rw [List.map_map]
    refine List.map_congr_left fun j hj => ?_
    obtain ⟨-, hj', hroot⟩ := hf.child_lt hj
    exact hpart.tree hf h.sound hj' hroot
  rw [h.top, map_inOrder, hpart h.part₁ h.sound₁, hpart h.part₂ h.sound₂]

namespace Joined

variable {change : Label → Label}

theorem notMem_other (h : Joined swapped ρ₁ f₁ ρ₂ f₂ F) (hi : i < f₁.size) (hroot : i ≠ root)
    (q : Nat) : ρ₁ i ∉ (f₂.children q).map ρ₂ := by
  intro hmem
  obtain ⟨k, hk, heq⟩ := List.mem_map.1 hmem
  obtain ⟨-, hk', hkroot⟩ := h.sound₂.child_lt hk
  exact h.apart i hi k hk' hroot hkroot heq.symm

theorem map_exchange (hpart : Part ρ f F) (hf : Sound f) (hi : i < f.size) (q : Nat) :
    ((f.children q).map ρ).map (fun x => if x = ρ i then F.size else x) =
      (exchange i f.size f.children q).map (extended ρ f F) := by
  unfold exchange
  rw [List.map_map, List.map_map]
  refine List.map_congr_left fun k hk => ?_
  obtain ⟨-, hk', -⟩ := hf.child_lt hk
  by_cases hki : k = i
  · subst hki
    simp [extended]
  · have hne : ρ k ≠ ρ i := fun heq => hki (hpart.inj k hk' i hi heq)
    simp [hki, hne, extended_of_lt hk']

theorem exchange (h : Joined swapped ρ₁ f₁ ρ₂ f₂ F) (hi : i < f₁.size) (hroot : i ≠ root)
    (h₁ : Exchanged f₁ i l f₁') (hF : Exchanged F (ρ₁ i) l F') :
    Joined swapped (extended ρ₁ f₁ F) f₁' ρ₂ f₂ F' := by
  have hchildless : Forest.exchange i f₁.size f₁.children f₁.size = [] := by
    have hnone : f₁.children f₁.size = [] := h.sound₁.wellFormed.linked.kids_size
    unfold Forest.exchange
    rw [hnone]
    rfl
  have hchildlessIn : Forest.exchange (ρ₁ i) F.size F.children F.size = [] := by
    have hnone : F.children F.size = [] := h.sound.wellFormed.linked.kids_size
    unfold Forest.exchange
    rw [hnone]
    rfl
  refine ⟨hF.sound, h₁.sound, h.sound₂, ?_, ⟨h.part₂.atRoot, ?_, h.part₂.inj, ?_, ?_⟩, ?_, ?_⟩
  · refine h.part₁.extend h.sound₁.rooted.bound h₁.size hF.size h₁.label hF.label
      (h₁.children ▸ hchildless) (hF.children ▸ hchildlessIn) ?_
    intro j hj hjroot
    rw [hF.children, h₁.children, ← map_exchange h.part₁ h.sound₁ hi]
    unfold Forest.exchange
    rw [h.part₁.children j hj hjroot]
  · intro j hj
    rw [hF.size]
    exact Nat.lt_succ_of_lt (h.part₂.bound j hj)
  · intro j hj hjroot
    rw [hF.label, if_neg (Nat.ne_of_lt (h.part₂.bound j hj))]
    exact h.part₂.label j hj hjroot
  · intro j hj hjroot
    have hchildren := h.part₂.children j hj hjroot
    rw [hF.children, exchange_of_notMem]
    · exact hchildren
    · rw [hchildren]
      exact h.notMem_other hi hroot j
  · rw [hF.children, h₁.children, ← map_exchange h.part₁ h.sound₁ hi]
    unfold Forest.exchange
    rw [h.top, map_inOrder, map_exchange_of_notMem (h.notMem_other hi hroot root)]
  · intro j hj k hk hjroot hkroot
    rw [h₁.size] at hj
    by_cases hjs : j = f₁.size
    · subst hjs
      rw [extended_size]
      exact Nat.ne_of_gt (h.part₂.bound k hk)
    · rw [extended_of_lt (by omega)]
      exact h.apart j (by omega) k hk hjroot hkroot

theorem map_splice (hpart : Part ρ f F) (hf : Sound f) (hi : i < f.size) (hs : s < f.size)
    (hsroot : s ≠ root) (q : Nat) :
    ((f.children q).map ρ).flatMap (fun x => if x = ρ i then F.children (ρ s) else [x]) =
      ((f.children q).flatMap fun x => if x = i then f.children s else [x]).map ρ := by
  rw [List.flatMap_map, List.map_flatMap]
  apply List.flatMap_congr
  intro k hk
  obtain ⟨-, hk', -⟩ := hf.child_lt hk
  by_cases hki : k = i
  · subst hki
    rw [if_pos rfl, if_pos rfl]
    exact hpart.children s hs hsroot
  · rw [if_neg fun heq => hki (hpart.inj k hk' i hi heq), if_neg hki]
    rfl

theorem splice (h : Joined swapped ρ₁ f₁ ρ₂ f₂ F) (hi : i < f₁.size) (hroot : i ≠ root)
    (hs : s < f₁.size) (hsroot : s ≠ root) (h₁ : Spliced f₁ i s f₁')
    (hF : Spliced F (ρ₁ i) (ρ₁ s) F') : Joined swapped ρ₁ f₁' ρ₂ f₂ F' := by
  refine ⟨hF.sound, h₁.sound, h.sound₂, ⟨h.part₁.atRoot, ?_, ?_, ?_, ?_⟩,
    ⟨h.part₂.atRoot, ?_, h.part₂.inj, ?_, ?_⟩, ?_, ?_⟩
  · rw [h₁.size, hF.size]
    exact h.part₁.bound
  · rw [h₁.size]
    exact h.part₁.inj
  · intro j hj hjroot
    rw [h₁.size] at hj
    rw [h₁.label, hF.label]
    exact h.part₁.label j hj hjroot
  · intro j hj hjroot
    rw [h₁.size] at hj
    rw [h₁.children, hF.children]
    unfold Forest.splice
    by_cases hjs : j = s
    · subst hjs
      rw [if_pos rfl, if_pos rfl]
      rfl
    · rw [if_neg fun heq => hjs (h.part₁.inj j hj s hs heq), if_neg hjs,
        h.part₁.children j hj hjroot]
      exact map_splice h.part₁ h.sound₁ hi hs hsroot j
  · rw [hF.size]
    exact h.part₂.bound
  · intro j hj hjroot
    rw [hF.label]
    exact h.part₂.label j hj hjroot
  · intro j hj hjroot
    have hchildren := h.part₂.children j hj hjroot
    rw [hF.children, splice_of_notMem (h.apart s hs j hj hsroot hjroot).symm]
    · exact hchildren
    · rw [hchildren]
      exact h.notMem_other hi hroot j
  · have hsroot' : root ≠ ρ₁ s := by
      intro heq
      rw [← h.part₁.atRoot] at heq
      exact hsroot (h.part₁.inj root h.sound₁.rooted.bound s hs heq).symm
    rw [hF.children, h₁.children]
    unfold Forest.splice
    rw [if_neg hsroot', if_neg hsroot.symm, h.top, flatMap_inOrder,
      map_splice h.part₁ h.sound₁ hi hs hsroot,
      flatMap_splice_of_notMem (h.notMem_other hi hroot root)]
  · rw [h₁.size]
    exact h.apart

theorem relabel (h : Joined swapped ρ₁ f₁ ρ₂ f₂ F) (hi : i < f₁.size) (hroot : i ≠ root)
    (h₁ : Relabeled f₁ i change f₁') (hF : Relabeled F (ρ₁ i) change F') :
    Joined swapped ρ₁ f₁' ρ₂ f₂ F' := by
  refine ⟨hF.sound, h₁.sound, h.sound₂, ⟨h.part₁.atRoot, ?_, ?_, ?_, ?_⟩,
    ⟨h.part₂.atRoot, ?_, h.part₂.inj, ?_, ?_⟩, ?_, ?_⟩
  · rw [h₁.size, hF.size]
    exact h.part₁.bound
  · rw [h₁.size]
    exact h.part₁.inj
  · intro j hj hjroot
    rw [h₁.size] at hj
    rw [h₁.label, hF.label, h.part₁.label j hj hjroot]
    by_cases hji : j = i
    · rw [if_pos hji, if_pos (congrArg ρ₁ hji)]
    · rw [if_neg hji, if_neg fun heq => hji (h.part₁.inj j hj i hi heq)]
  · rw [h₁.size, h₁.children, hF.children]
    exact h.part₁.children
  · rw [hF.size]
    exact h.part₂.bound
  · intro j hj hjroot
    rw [hF.label, if_neg (h.apart i hi j hj hroot hjroot).symm]
    exact h.part₂.label j hj hjroot
  · rw [hF.children]
    exact h.part₂.children
  · rw [h₁.children, hF.children]
    exact h.top
  · rw [h₁.size]
    exact h.apart

end Joined

theorem plantAll_append (f : Forest) (p : Nat) (ts us : List Tree) :
    f.plantAll p (ts ++ us) = (f.plantAll p ts).plantAll p us := by
  induction ts generalizing f with
  | nil => rfl
  | cons t ts ih => exact ih (f.plant p t)

/-- The forest `f` is planted in `F` too, behind `front`, with numbers from `start` on. -/
structure Planting (start : Nat) (front : List Nat) (ρ : Nat → Nat) (f F : Forest) : Prop where
  sound : Sound f
  graded : Graded f f.children id
  soundIn : Sound F
  gradedIn : Graded F F.children id
  part : Part ρ f F
  top : F.children root = front ++ (f.children root).map ρ
  later : ∀ j < f.size, j ≠ root → start ≤ ρ j
  bound : start ≤ F.size

theorem Sound.planted (h : Sound f) (hg : Graded f f.children id) (hp : p < f.size) (l : Label) :
    Sound ((f.create l).1.append p f.size) ∧
      Graded ((f.create l).1.append p f.size) ((f.create l).1.append p f.size).children id ∧
      ((f.create l).1.append p f.size).size = f.size + 1 ∧
      (∀ j, ((f.create l).1.append p f.size).label j = if j = f.size then l else f.label j) ∧
      ((f.create l).1.append p f.size).children =
        Function.update f.children p (f.children p ++ [f.size]) := by
  obtain ⟨hlinked, hgraded, hsize, hlabel⟩ := append_create h.wellFormed.linked hg hp l
  have hchildren := funext hlinked.children_eq
  refine ⟨⟨.of_graded hlinked hgraded, ?_, ?_, ?_⟩, hchildren ▸ hgraded, hsize, hlabel, hchildren⟩
  · rw [hsize]
    exact Nat.succ_pos _
  · exact (hlinked.orphan fun q hq => Nat.not_lt_zero _ (hgraded.above hq)).1
  · rw [hlabel, if_neg (Nat.ne_of_lt h.rooted.bound)]
    exact h.rooted.kind

namespace Planting

variable {start : Nat} {front : List Nat}

theorem append (h : Planting start front ρ f F) (hp : p < f.size) (l : Label) :
    Planting start front (extended ρ f F) ((f.create l).1.append p f.size)
      ((F.create l).1.append (ρ p) F.size) := by
  obtain ⟨hsound, hgraded, hsize, hlabel, hchildren⟩ := h.sound.planted h.graded hp l
  obtain ⟨hsoundIn, hgradedIn, hsizeIn, hlabelIn, hchildrenIn⟩ :=
    h.soundIn.planted h.gradedIn (h.part.bound p hp) l
  have hmap : ∀ q, (f.children q).map (extended ρ f F) = (f.children q).map ρ := fun q =>
    List.map_congr_left fun k hk => extended_of_lt (h.sound.child_lt hk).2.1
  refine ⟨hsound, hgraded, hsoundIn, hgradedIn, ?_, ?_, ?_, ?_⟩
  · refine h.part.extend h.sound.rooted.bound hsize hsizeIn hlabel hlabelIn ?_ ?_ ?_
    · rw [hchildren, Function.update_of_ne (Nat.ne_of_gt hp)]
      exact h.sound.wellFormed.linked.kids_size
    · rw [hchildrenIn, Function.update_of_ne (Nat.ne_of_gt (h.part.bound p hp))]
      exact h.soundIn.wellFormed.linked.kids_size
    · intro j hj hjroot
      rw [hchildren, hchildrenIn]
      by_cases hjp : j = p
      · subst hjp
        rw [Function.update_self, Function.update_self, List.map_append, hmap,
          h.part.children j hj hjroot, List.map_singleton, extended_size]
      · rw [Function.update_of_ne hjp,
          Function.update_of_ne fun heq => hjp (h.part.inj j hj p hp heq), hmap,
          h.part.children j hj hjroot]
  · rw [hchildren, hchildrenIn]
    by_cases hproot : p = root
    · subst hproot
      rw [h.part.atRoot, Function.update_self, Function.update_self, List.map_append, hmap,
        List.map_singleton, extended_size, h.top, List.append_assoc]
    · have hne : root ≠ ρ p := by
        intro heq
        rw [← h.part.atRoot] at heq
        exact hproot (h.part.inj root h.sound.rooted.bound p hp heq).symm
      rw [Function.update_of_ne hne, Function.update_of_ne (Ne.symm hproot), hmap, h.top]
  · intro j hj hjroot
    rw [hsize] at hj
    by_cases hjs : j = f.size
    · subst hjs
      rw [extended_size]
      exact h.bound
    · rw [extended_of_lt (by omega)]
      exact h.later j (by omega) hjroot
  · rw [hsizeIn]
    exact Nat.le_succ_of_le h.bound

def Grows (start : Nat) (front : List Nat) (ρ : Nat → Nat) (f f' F' : Forest) : Prop :=
  ∃ ρ', Planting start front ρ' f' F' ∧ f.size ≤ f'.size ∧ ∀ j < f.size, ρ' j = ρ j

theorem plantAll {ts : List Tree}
    (hts : ∀ t ∈ ts, ∀ {ρ f F p}, Planting start front ρ f F → p < f.size →
      Grows start front ρ f (f.plant p t) (F.plant (ρ p) t))
    (h : Planting start front ρ f F) (hp : p < f.size) :
    Grows start front ρ f (f.plantAll p ts) (F.plantAll (ρ p) ts) := by
  induction ts generalizing ρ f F with
  | nil => exact ⟨ρ, h, Nat.le_refl _, fun _ _ => rfl⟩
  | cons t ts ih =>
    obtain ⟨ρ₁, h₁, hsize₁, hsame₁⟩ := hts t List.mem_cons_self h hp
    obtain ⟨ρ₂, h₂, hsize₂, hsame₂⟩ := ih (fun t ht => hts t (List.mem_cons_of_mem _ ht)) h₁
      (Nat.lt_of_lt_of_le hp hsize₁)
    rw [hsame₁ p hp] at h₂
    refine ⟨ρ₂, h₂, Nat.le_trans hsize₁ hsize₂, ?_⟩
    intro j hj
    exact (hsame₂ j (Nat.lt_of_lt_of_le hj hsize₁)).trans (hsame₁ j hj)

theorem plant (t : Tree) : ∀ {ρ f F p}, Planting start front ρ f F → p < f.size →
    Grows start front ρ f (f.plant p t) (F.plant (ρ p) t) := by
  induction t using Tree.induct with
  | node l ts ih =>
    intro ρ f F p h hp
    have hsize := (h.sound.planted h.graded hp l).2.2.1
    have hnew : f.size < ((f.create l).1.append p f.size).size := hsize ▸ Nat.lt_succ_self _
    obtain ⟨ρ', h', hsize', hsame⟩ := plantAll ih (h.append hp l) hnew
    rw [extended_size] at h'
    refine ⟨ρ', h', Nat.le_trans (Nat.le_of_lt hnew) hsize', ?_⟩
    intro j hj
    exact (hsame j (Nat.lt_trans hj hnew)).trans (extended_of_lt hj)

end Planting

theorem planting_start (ts : List Tree) :
    Planting (ofTree (.root ts)).size ((ofTree (.root ts)).children root) id (ofTree (.root []))
      (ofTree (.root ts)) := by
  obtain ⟨hsound, hgraded, -⟩ := ofTree_sound ts
  obtain ⟨hsound₀, hgraded₀, -⟩ := ofTree_sound []
  have hsize : (ofTree (.root [])).size = 1 := rfl
  have hone : ∀ {j}, j < (ofTree (.root [])).size → j ≠ root → False := by
    intro j hj hroot
    rw [hsize] at hj
    exact hroot (Nat.lt_one_iff.1 hj)
  refine ⟨hsound₀, hgraded₀, hsound, hgraded, ⟨rfl, ?_, fun _ _ _ _ => id, ?_, ?_⟩, ?_, ?_, ?_⟩
  · intro j hj
    rw [hsize] at hj
    exact Nat.lt_of_lt_of_le hj hsound.rooted.bound
  · exact fun j hj hroot => (hone hj hroot).elim
  · exact fun j hj hroot => (hone hj hroot).elim
  · have hnone : (ofTree (.root [])).children root = [] := rfl
    rw [hnone]
    exact (List.append_nil _).symm
  · exact fun j hj hroot => (hone hj hroot).elim
  · exact Nat.le_refl _

/-- The forest of a list of selectors holds those of its parts. -/
theorem joined_ofTree (ts us : List Tree) :
    ∃ ρ, Joined false id (ofTree (.root ts)) ρ (ofTree (.root us)) (ofTree (.root (ts ++ us))) := by
  have hwhole : ofTree (.root (ts ++ us)) = (ofTree (.root ts)).plantAll root us :=
    plantAll_append _ _ ts us
  have hstart := planting_start ts
  obtain ⟨ρ, h, -, -⟩ := Planting.plantAll (fun t (_ : t ∈ us) => Planting.plant t) hstart
    hstart.sound.rooted.bound
  obtain ⟨kids, hplanted⟩ := plantAll_planted (fun t (_ : t ∈ us) => plant_planted t)
    hstart.soundIn.wellFormed.linked hstart.gradedIn hstart.soundIn.rooted.bound
  have hkids : ((ofTree (.root ts)).plantAll root us).children = kids :=
    funext hplanted.linked.children_eq
  rw [hwhole]
  -- what is planted later has greater numbers, so no node belongs to both
  refine ⟨ρ, h.soundIn, hstart.soundIn, h.sound, ⟨rfl, ?_, fun _ _ _ _ => id, ?_, ?_⟩, h.part, ?_, ?_⟩
  · exact fun j hj => Nat.lt_of_lt_of_le hj h.bound
  · exact fun j hj _ => hplanted.label j hj
  · intro j hj hroot
    rw [hkids, List.map_id]
    exact hplanted.other j hj hroot
  · rw [List.map_id]
    exact h.top
  · intro i hi j hj _ hjroot heq
    have hle := h.later j hj hjroot
    rw [← heq] at hle
    exact absurd hi (Nat.not_lt.2 hle)

end ScopedStyles.Forest
