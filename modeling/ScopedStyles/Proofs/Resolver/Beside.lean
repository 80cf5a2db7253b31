import ScopedStyles.Proofs.Forest.Joined
import ScopedStyles.Proofs.Resolver.Independence
import ScopedStyles.Proofs.Resolver.Stages
import ScopedStyles.Proofs.Resolver.Underway

namespace ScopedStyles.Scope

open Selector Forest

variable {c : Config} {swapped : Bool} {ρ ρ' ρ₁ ρ₂ : Nat → Nat} {f f' f'' f₁ f₂ F F' : Forest}
  {p₁ p₁' p₂ P P' : Pass} {i j p : Nat}

structure Topped (f : Forest) : Prop where
  notEmpty : f.children root ≠ []
  selector : ∀ i ∈ f.children root, (f.label i).kind = .selector

/-- The nodes have kept their kinds and their numbers in the whole. -/
structure Kept (ρ ρ' : Nat → Nat) (f f' : Forest) : Prop where
  size : f.size ≤ f'.size
  kind : ∀ j < f.size, (f'.label j).kind = (f.label j).kind
  number : ∀ j < f.size, ρ' j = ρ j

/-- What has been decided for the nodes of `p` has been decided for them in `P`. -/
structure Mirrored (ρ : Nat → Nat) (p P : Pass) : Prop where
  topped : Topped p.forest
  lifted : ∀ j < p.forest.size, isScopable (p.forest.label j) = true →
    P.lifted.lookup (ρ j) = p.lifted.lookup j

/-- The pass `P` is the other two next to each other. -/
structure Beside (swapped : Bool) (ρ₁ : Nat → Nat) (p₁ : Pass) (ρ₂ : Nat → Nat) (p₂ P : Pass) :
    Prop where
  joined : Joined swapped ρ₁ p₁.forest ρ₂ p₂.forest P.forest
  first : Mirrored ρ₁ p₁ P
  second : Mirrored ρ₂ p₂ P
  elements : P.elements = p₁.elements ⊔ p₂.elements
  hashes : P.hashes = p₁.hashes ⊔ p₂.hashes

/-- The first pass has become `p₁'` and the whole `P'`. -/
def Advances (swapped : Bool) (ρ₁ : Nat → Nat) (p₁ p₁' : Pass) (ρ₂ : Nat → Nat) (p₂ P' : Pass) :
    Prop :=
  ∃ ρ, Kept ρ₁ ρ p₁.forest p₁'.forest ∧ Beside swapped ρ p₁' ρ₂ p₂ P'

namespace Kept

theorem refl (ρ : Nat → Nat) (f : Forest) : Kept ρ ρ f f :=
  ⟨Nat.le_refl _, fun _ _ => rfl, fun _ _ => rfl⟩

theorem trans {ρ'' : Nat → Nat} (h : Kept ρ ρ' f f') (h' : Kept ρ' ρ'' f' f'') :
    Kept ρ ρ'' f f'' where
  size := Nat.le_trans h.size h'.size
  kind := fun j hj => (h'.kind j (Nat.lt_of_lt_of_le hj h.size)).trans (h.kind j hj)
  number := fun j hj => (h'.number j (Nat.lt_of_lt_of_le hj h.size)).trans (h.number j hj)

end Kept

theorem isScopable_congr {l m : Label} (h : l.kind = m.kind) : isScopable l = isScopable m := by
  unfold isScopable Label.isAttribute Label.isTag
  rw [h]

namespace Topped

theorem kept (h : Topped f) (hf : Sound f) (hkept : Kept ρ ρ' f f')
    (hchildren : f'.children root = f.children root) : Topped f' where
  notEmpty := hchildren ▸ h.notEmpty
  selector := by
    intro i hi
    rw [hchildren] at hi
    rw [hkept.kind i (hf.child_lt hi).2.1]
    exact h.selector i hi

theorem notMem (h : Topped f) (hkind : (f.label i).kind ≠ .selector) : i ∉ f.children root :=
  fun hi => hkind (h.selector i hi)

theorem parent_ne (h : Topped f) (hf : Sound f) (hkind : (f.label i).kind ≠ .selector)
    (hp : (f.get i).parent = some p) : p ≠ root := by
  intro heq
  subst heq
  exact h.notMem hkind (hf.wellFormed.mem_children.2 hp)

end Topped

theorem holder?_mirrored (h : Joined swapped ρ₁ f₁ ρ₂ f₂ F) (ht : Topped f₁)
    (hi : Below f₁.children root i) (hne : i ≠ root) (hkind : (f₁.label i).kind ≠ .selector) :
    holder? F (ρ₁ i) = (holder? f₁ i).map fun x => (ρ₁ x.1, ρ₁ x.2) := by
  obtain ⟨s, hs⟩ := Option.ne_none_iff_exists'.1 (h.sound₁.placed hi hne)
  have hbelow := h.sound₁.below_parent hi hs
  obtain ⟨q, hq⟩ := Option.ne_none_iff_exists'.1
    (h.sound₁.placed hbelow (ht.parent_ne h.sound₁ hkind hs))
  have hlabel : (F.label (ρ₁ q)).isPseudo = (f₁.label q).isPseudo := by
    by_cases hroot : q = root
    · subst hroot
      unfold Label.isPseudo
      rw [h.part₁.atRoot, h.sound.rooted.kind, h.sound₁.rooted.kind]
    · rw [h.part₁.label q (h.sound₁.lt (h.sound₁.below_parent hbelow hq)) hroot]
  unfold holder?
  rw [h.parent hs, hs]
  simp only [Option.bind_eq_bind, Option.bind_some]
  rw [h.parent hq, hq]
  simp only [Option.bind_some]
  rw [hlabel]
  split
  · rfl
  · rfl

theorem OwnerWalk.unique {cur : Option Nat} {found found' : Option String}
    (h : OwnerWalk f cur found) (h' : OwnerWalk f cur found') : found = found' := by
  induction h with
  | done =>
    cases h'
    rfl
  | found hi =>
    cases h' with
    | found => rfl
    | stopped hi' => exact (hi' hi).elim
    | step hi' => exact (hi' hi).elim
  | stopped hi hcombinator =>
    cases h' with
    | found hi' => exact (hi hi').elim
    | stopped => rfl
    | step _ hcombinator' => exact (hcombinator' hcombinator).elim
  | step hi hcombinator _ ih =>
    cases h' with
    | found hi' => exact (hi hi').elim
    | stopped _ hcombinator' => exact (hcombinator hcombinator').elim
    | step _ _ h' => exact ih h'

theorem parent_of_prev (h : Sound f) (hp : (f.get i).parent = some p)
    (hj : (f.get i).prev = some j) : (f.get j).parent = some p := by
  obtain ⟨a, b, hsplit⟩ := List.append_of_mem (h.wellFormed.mem_children.2 hp)
  rw [(h.wellFormed.linked.links hsplit).2.1] at hj
  apply h.wellFormed.mem_children.1
  rw [hsplit]
  exact List.mem_append_left _ (List.mem_of_getLast? hj)

/-- The search for an owner stays within the selector. -/
theorem owner_walk_mirrored (h : Joined swapped ρ₁ f₁ ρ₂ f₂ F) (hp : p ≠ root) {cur : Option Nat}
    {found : Option String} (hcur : ∀ j, cur = some j → (f₁.get j).parent = some p)
    (hwalk : OwnerWalk f₁ cur found) : OwnerWalk F (cur.map ρ₁) found := by
  have hlabel : ∀ {j}, (f₁.get j).parent = some p → F.label (ρ₁ j) = f₁.label j := by
    intro j hj
    obtain ⟨-, hlt, hroot⟩ := h.sound₁.child_lt (h.sound₁.wellFormed.mem_children.2 hj)
    exact h.part₁.label j hlt hroot
  induction hwalk with
  | done => exact .done
  | @found j hj =>
    rw [← hlabel (hcur j rfl)] at hj ⊢
    exact .found hj
  | @stopped j hj hcombinator =>
    rw [← hlabel (hcur j rfl)] at hj hcombinator
    exact .stopped hj hcombinator
  | @step j found hj hcombinator _ ih =>
    rw [← hlabel (hcur j rfl)] at hj hcombinator
    apply OwnerWalk.step hj hcombinator
    rw [h.prev (hcur j rfl) hp]
    exact ih fun k hk => parent_of_prev h.sound₁ (hcur j rfl) hk

theorem owner_mirrored (h : Joined swapped ρ₁ f₁ ρ₂ f₂ F) (hi : (f₁.get i).parent = some p)
    (hp : p ≠ root) : owner F (ρ₁ i) = owner f₁ i := by
  have hwhole := owner_walk_from h.sound.wellFormed (ρ₁ i)
  rw [h.prev hi hp] at hwhole
  have hpart := owner_walk_mirrored h hp (fun j hj => parent_of_prev h.sound₁ hi hj)
    (owner_walk_from h.sound₁.wellFormed i)
  unfold owner
  rw [h.prev hi hp, hwhole.unique hpart]

theorem TextSet.insert_sup (s t : TextSet) (x : String) : (s ⊔ t).insert x = s.insert x ⊔ t := by
  have hinsert : ∀ u : TextSet, u.insert x = u ⊔ (∅ : TextSet).insert x := fun u =>
    OrderedMap.alter_eq_sup u x fun _ => rfl
  rw [hinsert, hinsert s, sup_right_comm]

namespace Beside

theorem symm (h : Beside swapped ρ₁ p₁ ρ₂ p₂ P) : Beside (!swapped) ρ₂ p₂ ρ₁ p₁ P where
  joined := h.joined.symm
  first := h.second
  second := h.first
  elements := h.elements.trans (sup_comm _ _)
  hashes := h.hashes.trans (sup_comm _ _)

theorem edited (h : Beside swapped ρ₁ p₁ ρ₂ p₂ P) (hkept : Kept ρ₁ ρ p₁.forest f')
    (hjoined : Joined swapped ρ f' ρ₂ p₂.forest F')
    (hchildren : f'.children root = p₁.forest.children root)
    (hnew : ∀ j < f'.size, isScopable (f'.label j) = true → j < p₁.forest.size) :
    Beside swapped ρ { p₁ with forest := f' } ρ₂ p₂ { P with forest := F' } where
  joined := hjoined
  first := by
    refine ⟨h.first.topped.kept h.joined.sound₁ hkept hchildren, ?_⟩
    intro j hj hscopable
    have hold := hnew j hj hscopable
    rw [isScopable_congr (hkept.kind j hold)] at hscopable
    rw [hkept.number j hold]
    exact h.first.lifted j hold hscopable
  second := ⟨h.second.topped, h.second.lifted⟩
  elements := h.elements
  hashes := h.hashes

theorem record (h : Beside swapped ρ₁ p₁ ρ₂ p₂ P) (s : Sighting) :
    Beside swapped ρ₁ { p₁ with elements := p₁.elements.record s } ρ₂ p₂
      { P with elements := P.elements.record s } where
  joined := h.joined
  first := ⟨h.first.topped, h.first.lifted⟩
  second := ⟨h.second.topped, h.second.lifted⟩
  elements := by
    dsimp only
    rw [h.elements, sup_comm, Registry.record_sup, sup_comm]
  hashes := h.hashes

theorem hash (h : Beside swapped ρ₁ p₁ ρ₂ p₂ P) (x : String) :
    Beside swapped ρ₁ { p₁ with hashes := p₁.hashes.insert x } ρ₂ p₂
      { P with hashes := P.hashes.insert x } where
  joined := h.joined
  first := ⟨h.first.topped, h.first.lifted⟩
  second := ⟨h.second.topped, h.second.lifted⟩
  elements := h.elements
  hashes := by
    dsimp only
    rw [h.hashes, TextSet.insert_sup]

theorem put (h : Beside swapped ρ₁ p₁ ρ₂ p₂ P) (hi : (p₁.forest.get i).parent = some p)
    (hkind : (p₁.forest.label i).kind ≠ .selector) (name : String) :
    Advances swapped ρ₁ p₁ { p₁ with forest := replaceByClass p₁.forest i name } ρ₂ p₂
      { P with forest := replaceByClass P.forest (ρ₁ i) name } := by
  obtain ⟨-, hlt, hroot⟩ := h.joined.sound₁.child_lt
    (h.joined.sound₁.wellFormed.mem_children.2 hi)
  have hput := h.joined.sound₁.exchanged ⟨.className, name, none⟩
    (Option.ne_none_iff_exists'.2 ⟨_, hi⟩)
  have hputIn := h.joined.sound.exchanged ⟨.className, name, none⟩
    (Option.ne_none_iff_exists'.2 ⟨_, h.joined.parent hi⟩)
  have hkept : Kept ρ₁ (extended ρ₁ p₁.forest P.forest) p₁.forest
      (replaceByClass p₁.forest i name) := by
    refine ⟨?_, ?_, fun j hj => extended_of_lt hj⟩
    · exact hput.size.symm ▸ Nat.le_succ _
    · intro j hj
      exact congrArg Label.kind ((hput.label j).trans (if_neg (Nat.ne_of_lt hj)))
  refine ⟨_, hkept, h.edited hkept (h.joined.exchange hlt hroot hput hputIn) ?_ ?_⟩
  · have hchildren : (replaceByClass p₁.forest i name).children = _ := hput.children
    rw [hchildren]
    exact exchange_of_notMem (h.first.topped.notMem hkind)
  · intro j hj hscopable
    have hsize : (replaceByClass p₁.forest i name).size = _ := hput.size
    rw [hsize] at hj
    rcases Nat.lt_succ_iff_lt_or_eq.1 hj with hold | rfl
    · exact hold
    · have hlabel : (replaceByClass p₁.forest i name).label p₁.forest.size = _ := hput.label _
      rw [hlabel, if_pos rfl] at hscopable
      exact (ne_class_of_isScopable hscopable rfl).elim

theorem relabel (h : Beside swapped ρ₁ p₁ ρ₂ p₂ P) (hi : i < p₁.forest.size) (hroot : i ≠ root)
    (change : Label → Label) (hkind : ∀ l, (change l).kind = l.kind) :
    Kept ρ₁ ρ₁ p₁.forest (p₁.forest.modify i fun n => { n with label := change n.label }) ∧
      Beside swapped ρ₁
        { p₁ with forest := p₁.forest.modify i fun n => { n with label := change n.label } } ρ₂ p₂
        { P with forest := P.forest.modify (ρ₁ i) fun n => { n with label := change n.label } } := by
  have hpart := h.joined.sound₁.relabeled hi change hkind
  have hwhole := h.joined.sound.relabeled (h.joined.part₁.bound i hi) change hkind
  have hkept : Kept ρ₁ ρ₁ p₁.forest
      (p₁.forest.modify i fun n => { n with label := change n.label }) := by
    refine ⟨Nat.le_of_eq hpart.size.symm, ?_, fun _ _ => rfl⟩
    intro j _
    rw [hpart.label]
    split
    · exact hkind _
    · rfl
  refine ⟨hkept, h.edited hkept (h.joined.relabel hi hroot hpart hwhole) ?_ ?_⟩
  · rw [hpart.children]
  · intro j hj _
    exact hpart.size ▸ hj

theorem splice {pseudo selector : Nat} (h : Beside swapped ρ₁ p₁ ρ₂ p₂ P)
    (hpseudo : (p₁.forest.get pseudo).parent = some p)
    (hkind : (p₁.forest.label pseudo).kind ≠ .selector)
    (hselector : (p₁.forest.get selector).parent = some pseudo) :
    Kept ρ₁ ρ₁ p₁.forest (p₁.forest.replaceWithChildren pseudo selector) ∧
      Beside swapped ρ₁ { p₁ with forest := p₁.forest.replaceWithChildren pseudo selector } ρ₂ p₂
        { P with forest := P.forest.replaceWithChildren (ρ₁ pseudo) (ρ₁ selector) } := by
  have hsound := h.joined.sound₁
  obtain ⟨-, hlt, hroot⟩ := hsound.child_lt (hsound.wellFormed.mem_children.2 hpseudo)
  obtain ⟨-, hlt', hroot'⟩ := hsound.child_lt (hsound.wellFormed.mem_children.2 hselector)
  have hpart := hsound.spliced (Option.ne_none_iff_exists'.2 ⟨_, hpseudo⟩) hselector
  have hwhole := h.joined.sound.spliced (Option.ne_none_iff_exists'.2 ⟨_, h.joined.parent hpseudo⟩)
    (h.joined.parent hselector)
  have hkept : Kept ρ₁ ρ₁ p₁.forest (p₁.forest.replaceWithChildren pseudo selector) :=
    ⟨Nat.le_of_eq hpart.size.symm, fun j _ => congrArg Label.kind (hpart.label j), fun _ _ => rfl⟩
  refine ⟨hkept, h.edited hkept (h.joined.splice hlt hroot hlt' hroot' hpart hwhole) ?_ ?_⟩
  · rw [hpart.children]
    exact splice_of_notMem hroot'.symm (h.first.topped.notMem hkind)
  · intro j hj _
    exact hpart.size ▸ hj

theorem remember (h : Beside swapped ρ₁ p₁ ρ₂ p₂ P) (hf : Sound f) (hpart : Part ρ₁ f F)
    (hsize : p₁.forest.size = f.size) {selector : Nat} (hselector : selector < f.size)
    (hne : selector ≠ root)
    (hapart : ∀ j < p₂.forest.size, j ≠ root → ∀ k ∈ f.children selector, ρ₁ k ≠ ρ₂ j)
    (decision : Bool) :
    Beside swapped ρ₁
      { p₁ with lifted := (f.children selector).reverse.map (·, decision) ++ p₁.lifted } ρ₂ p₂
      { P with lifted := (F.children (ρ₁ selector)).reverse.map (·, decision) ++ P.lifted } := by
  refine ⟨h.joined, ⟨h.first.topped, ?_⟩, ⟨h.second.topped, ?_⟩, h.elements, h.hashes⟩
  · intro j hj hscopable
    have hmem : ρ₁ j ∈ (F.children (ρ₁ selector)).reverse ↔ j ∈ (f.children selector).reverse := by
      rw [hpart.children selector hselector hne, List.mem_reverse, List.mem_reverse, List.mem_map]
      constructor
      · rintro ⟨k, hk, heq⟩
        rw [← hpart.inj k (hf.child_lt hk).2.1 j (hsize ▸ hj) heq]
        exact hk
      · exact fun hj => ⟨j, hj, rfl⟩
    have hrest := h.first.lifted j hj hscopable
    dsimp only
    rw [lookup_lifted, lookup_lifted, hrest]
    simp only [hmem]
  · intro j hj hscopable
    have hroot : j ≠ root := by
      intro heq
      subst heq
      exact (isScopable_leaf hscopable).notRoot h.joined.sound₂.rooted.kind
    have hnot : ρ₂ j ∉ (F.children (ρ₁ selector)).reverse := by
      rw [hpart.children selector hselector hne, List.mem_reverse, List.mem_map]
      rintro ⟨k, hk, heq⟩
      exact hapart j hj hroot k hk heq
    dsimp only
    rw [lookup_lifted, if_neg hnot]
    exact h.second.lifted j hj hscopable

theorem lift {pseudo selector : Nat} (h : Beside swapped ρ₁ p₁ ρ₂ p₂ P)
    (hpseudo : (p₁.forest.get pseudo).parent = some p)
    (hkind : (p₁.forest.label pseudo).kind ≠ .selector)
    (hselector : (p₁.forest.get selector).parent = some pseudo) (decision : Bool) :
    Kept ρ₁ ρ₁ p₁.forest (p₁.lift pseudo selector decision).forest ∧
      Beside swapped ρ₁ (p₁.lift pseudo selector decision) ρ₂ p₂
        (P.lift (ρ₁ pseudo) (ρ₁ selector) decision) := by
  have hsound := h.joined.sound₁
  obtain ⟨-, hlt, hroot⟩ := hsound.child_lt (hsound.wellFormed.mem_children.2 hpseudo)
  obtain ⟨-, hlt', hroot'⟩ := hsound.child_lt (hsound.wellFormed.mem_children.2 hselector)
  have hlength : (P.forest.children (ρ₁ pseudo)).length = (p₁.forest.children pseudo).length := by
    rw [h.joined.part₁.children pseudo hlt hroot, List.length_map]
  unfold Pass.lift
  rw [hlength]
  split
  · obtain ⟨hkept, hspliced⟩ := h.splice hpseudo hkind hselector
    refine ⟨hkept, hspliced.remember hsound h.joined.part₁
      (hsound.spliced (Option.ne_none_iff_exists'.2 ⟨_, hpseudo⟩) hselector).size hlt' hroot' ?_ decision⟩
    intro j hj hjroot k hk
    obtain ⟨-, hk', hkroot⟩ := hsound.child_lt hk
    exact h.joined.apart k hk' j hj hkroot hjroot
  · exact ⟨.refl _ _, h⟩

theorem decide (h : Beside swapped ρ₁ p₁ ρ₂ p₂ P) (hi : Below p₁.forest.children root i)
    (hscopable : isScopable (p₁.forest.label i) = true) :
    (P.decide c (ρ₁ i)).1 = (p₁.decide c i).1 ∧
      Kept ρ₁ ρ₁ p₁.forest (p₁.decide c i).2.forest ∧
      Beside swapped ρ₁ (p₁.decide c i).2 ρ₂ p₂ (P.decide c (ρ₁ i)).2 := by
  have hsound := h.joined.sound₁
  have hleaf := isScopable_leaf hscopable
  have hlt := hsound.lt hi
  have hne := hsound.ne_root_of_kind hleaf.notRoot
  have hholder := holder?_mirrored h.joined h.first.topped hi hne hleaf.notSelector
  have hlabel := h.joined.part₁.label i hlt hne
  unfold Pass.decide
  rw [h.first.lifted i hlt hscopable, hholder, hlabel]
  cases p₁.lifted.lookup i with
  | some d => exact ⟨rfl, .refl _ _, h⟩
  | none =>
    cases hheld : holder? p₁.forest i with
    | none => exact ⟨rfl, .refl _ _, h⟩
    | some held =>
      obtain ⟨selector, pseudo⟩ := held
      obtain ⟨hselector, hpseudo, hispseudo⟩ := holder?_eq_some hheld
      obtain ⟨hnotroot, hnotselector⟩ := Label.kind_of_isPseudo hispseudo
      have hbelow := hsound.below_parent (hsound.below_parent hi hselector) hpseudo
      have hpne := hsound.ne_root_of_kind hnotroot
      obtain ⟨q, hq⟩ := Option.ne_none_iff_exists'.1 (hsound.placed hbelow hpne)
      simp only [Option.map_some]
      rw [h.joined.part₁.label pseudo (hsound.lt hbelow) hpne]
      split
      · exact ⟨rfl, h.lift hq hnotselector hpseudo _⟩
      · split
        · exact ⟨rfl, .refl _ _, h⟩
        · exact ⟨rfl, .refl _ _, h⟩

theorem scopeAttribute (h : Beside swapped ρ₁ p₁ ρ₂ p₂ P) (hlt : i < p₁.forest.size)
    (hattribute : (p₁.forest.label i).isAttribute = true) :
    Advances swapped ρ₁ p₁ (p₁.scopeAttribute c i) ρ₂ p₂ (P.scopeAttribute c (ρ₁ i)) := by
  have hsound := h.joined.sound₁
  have hscopable := isScopable_of_isAttribute hattribute
  have hleaf := isScopable_leaf hscopable
  have hne := hsound.ne_root_of_kind hleaf.notRoot
  unfold Pass.scopeAttribute
  rw [h.joined.isAttached hlt]
  split
  · next hattached =>
    have hi := hsound.wellFormed.isAttached_iff.1 hattached
    obtain ⟨hsame, hkept, hdecided⟩ := h.decide (c := c) hi hscopable
    have hplaced := (decide_sound (c := c) hsound hi hne).2
    generalize p₁.decide c i = r at hsame hkept hdecided hplaced
    generalize P.decide c (ρ₁ i) = R at hsame hdecided
    obtain ⟨d, q₁⟩ := r
    obtain ⟨d', Q⟩ := R
    cases hsame
    cases d with
    | false => exact ⟨ρ₁, hkept, hdecided⟩
    | true =>
      obtain ⟨p, hp⟩ := Option.ne_none_iff_exists'.1 hplaced
      have hkind : (q₁.forest.label i).kind ≠ .selector := by
        rw [hkept.kind i hlt]
        exact hleaf.notSelector
      have howner := owner_mirrored hdecided.joined hp
        (hdecided.first.topped.parent_ne hdecided.joined.sound₁ hkind hp)
      have hlabel := hdecided.joined.part₁.label i (Nat.lt_of_lt_of_le hlt hkept.size) hne
      obtain ⟨ρ, hkept', hput⟩ := hdecided.put hp hkind (attributeClass c (q₁.forest.label i))
      dsimp only
      rw [howner, hlabel]
      exact ⟨ρ, hkept.trans hkept',
        (hput.record (attributeSighting c (owner q₁.forest i) (q₁.forest.label i))).hash
          (attributeHash (q₁.forest.label i))⟩
  · exact ⟨ρ₁, .refl _ _, h⟩

theorem absorbBar (h : Beside swapped ρ₁ p₁ ρ₂ p₂ P) (hi : (p₁.forest.get i).parent = some p)
    (hp : p ≠ root) :
    Kept ρ₁ ρ₁ p₁.forest (absorbBar p₁.forest i) ∧
      Beside swapped ρ₁ { p₁ with forest := Scope.absorbBar p₁.forest i } ρ₂ p₂
        { P with forest := Scope.absorbBar P.forest (ρ₁ i) } := by
  have hsound := h.joined.sound₁
  obtain ⟨-, hlt, hne⟩ := hsound.child_lt (hsound.wellFormed.mem_children.2 hi)
  unfold Scope.absorbBar
  rw [h.joined.prev hi hp]
  cases hprev : (p₁.forest.get i).prev with
  | none => exact ⟨.refl _ _, h⟩
  | some b =>
    have hb := parent_of_prev hsound hi hprev
    obtain ⟨-, hblt, hbne⟩ := hsound.child_lt (hsound.wellFormed.mem_children.2 hb)
    simp only [Option.map_some]
    rw [h.joined.part₁.label b hblt hbne]
    split
    · obtain ⟨hkept, hcleared⟩ := h.relabel hblt hbne (fun l => { l with value := "" }) fun _ => rfl
      obtain ⟨hkept', hmarked⟩ := hcleared.relabel (Nat.lt_of_lt_of_le hlt hkept.size) hne
        (fun l => { l with ns := some .bar }) fun _ => rfl
      exact ⟨hkept.trans hkept', hmarked⟩
    · exact ⟨.refl _ _, h⟩

theorem scopeTag (h : Beside swapped ρ₁ p₁ ρ₂ p₂ P) (hlt : i < p₁.forest.size)
    (htag : (p₁.forest.label i).isTag = true) :
    Advances swapped ρ₁ p₁ (p₁.scopeTag c i) ρ₂ p₂ (P.scopeTag c (ρ₁ i)) := by
  have hsound := h.joined.sound₁
  have hscopable := isScopable_of_isTag htag
  have hleaf := isScopable_leaf hscopable
  have hne := hsound.ne_root_of_kind hleaf.notRoot
  unfold Pass.scopeTag
  rw [h.joined.isAttached hlt]
  split
  · next hattached =>
    have hi := hsound.wellFormed.isAttached_iff.1 hattached
    obtain ⟨p, hp⟩ := Option.ne_none_iff_exists'.1 (hsound.placed hi hne)
    obtain ⟨hkept₀, habsorbed⟩ := h.absorbBar hp (h.first.topped.parent_ne hsound hleaf.notSelector hp)
    have hi₀ := (absorbBar_sound hsound hi).2
    have hscopable₀ : isScopable ((Scope.absorbBar p₁.forest i).label i) = true := by
      rw [isScopable_congr (hkept₀.kind i hlt)]
      exact hscopable
    obtain ⟨hsame, hkept, hdecided⟩ := habsorbed.decide (c := c) hi₀ hscopable₀
    have hplaced := (decide_sound (c := c) habsorbed.joined.sound₁ hi₀ hne).2
    generalize Pass.decide c { p₁ with forest := Scope.absorbBar p₁.forest i } i = r
      at hsame hkept hdecided hplaced
    generalize Pass.decide c { P with forest := Scope.absorbBar P.forest (ρ₁ i) } (ρ₁ i) = R
      at hsame hdecided
    have hkept₁ : Kept ρ₁ ρ₁ p₁.forest r.2.forest := hkept₀.trans hkept
    obtain ⟨d, q₁⟩ := r
    obtain ⟨d', Q⟩ := R
    cases hsame
    cases d with
    | false => exact ⟨ρ₁, hkept₁, hdecided⟩
    | true =>
      obtain ⟨q, hq⟩ := Option.ne_none_iff_exists'.1 hplaced
      have hkind : (q₁.forest.label i).kind ≠ .selector := by
        rw [hkept₁.kind i hlt]
        exact hleaf.notSelector
      have hlabel := hdecided.joined.part₁.label i (Nat.lt_of_lt_of_le hlt hkept₁.size) hne
      obtain ⟨ρ, hkept', hput⟩ := hdecided.put hq hkind
        ("__" ++ scopedName c (q₁.forest.label i).ns (q₁.forest.label i).value)
      dsimp only
      rw [hlabel]
      exact ⟨ρ, hkept₁.trans hkept',
        hput.record (.element (scopedName c (q₁.forest.label i).ns (q₁.forest.label i).value))⟩
  · exact ⟨ρ₁, .refl _ _, h⟩

theorem unwrap (h : Beside swapped ρ₁ p₁ ρ₂ p₂ P) (hlt : i < p₁.forest.size)
    (hpseudo : (p₁.forest.label i).isPseudo = true) :
    Advances swapped ρ₁ p₁ { p₁ with forest := Scope.unwrap p₁.forest i } ρ₂ p₂
      { P with forest := Scope.unwrap P.forest (ρ₁ i) } := by
  have hsound := h.joined.sound₁
  obtain ⟨hnotroot, hnotselector⟩ := Label.kind_of_isPseudo hpseudo
  have hne := hsound.ne_root_of_kind hnotroot
  unfold Scope.unwrap
  rw [h.joined.isAttached hlt, h.joined.part₁.children i hlt hne]
  split
  · next hattached =>
    cases hkids : p₁.forest.children i with
    | nil => exact ⟨ρ₁, .refl _ _, h⟩
    | cons selector later =>
      cases later with
      | nil =>
        obtain ⟨hplaced, hselector⟩ := unwrap_placed hsound hne hattached hkids
        obtain ⟨p, hp⟩ := Option.ne_none_iff_exists'.1 hplaced
        exact ⟨ρ₁, h.splice hp hnotselector hselector⟩
      | cons => exact ⟨ρ₁, .refl _ _, h⟩
  · exact ⟨ρ₁, .refl _ _, h⟩

end Beside

end ScopedStyles.Scope
