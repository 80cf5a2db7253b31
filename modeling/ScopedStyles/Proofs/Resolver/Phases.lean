import ScopedStyles.Proofs.Resolver.Underway

namespace ScopedStyles.Scope

open Selector Forest

variable {c : Config} {D : Nat → Bool} {outs : List Tree} {kids : Nat → List Nat}
  {rank : Nat → Nat} {f : Forest} {p : Pass} {i : Nat}

theorem lt_size_of_label {P : Label → Bool} (hP : P default = false) (h : P (f.label i) = true) :
    i < f.size := by
  apply Nat.lt_of_not_le
  intro hle
  have hlabel : f.label i = default := congrArg Node.label (get_of_size_le hle)
  rw [hlabel, hP] at h
  cases h

theorem scopeAttribute_underway (h : Underway c D outs p kids rank)
    (hattribute : (p.forest.label i).isAttribute = true) :
    ∃ kids' rank', Underway c D outs (p.scopeAttribute c i) kids' rank' ∧
      Shrunk p.forest kids (p.scopeAttribute c i).forest kids' ∧
      (D i = true → ¬ Below kids' root i) := by
  have hf := h.heading.layered
  have hattached := isAttached_iff (i := i) hf.linked hf.graded
  have hscopable := isScopable_of_isAttribute hattribute
  by_cases hi : Below kids root i
  · have hlabel : (p.decide c i).2.forest.label i = p.forest.label i := by
      obtain ⟨kids₁, -, hshrunk₁, -⟩ := h.decide hi hscopable
      exact hshrunk₁.label i (hf.lt hi)
    apply h.scope hi hscopable
    · intro hfalse
      unfold Pass.scopeAttribute
      rw [if_pos (hattached.2 hi)]
      generalize p.decide c i = r at hfalse
      obtain ⟨d, q⟩ := r
      cases hfalse
      rfl
    · intro htrue
      unfold Pass.scopeAttribute
      rw [if_pos (hattached.2 hi)]
      generalize p.decide c i = r at htrue hlabel
      obtain ⟨d, q⟩ := r
      cases htrue
      refine ⟨rfl, ?_⟩
      dsimp only at hlabel ⊢
      rw [hlabel]
      exact congrArg (replaceByClass q.forest i) (if_pos hattribute).symm
  · have hsame : p.scopeAttribute c i = p := if_neg fun hi' => hi (hattached.1 hi')
    rw [hsame]
    exact ⟨kids, rank, h, .refl _ _, fun _ => hi⟩

theorem absorbBar_of_unbarred (h : Heading c D outs f kids rank) (hi : Below kids root i)
    (hleaf : (f.label i).IsLeaf) : absorbBar f i = f := by
  obtain ⟨q, hq, hmem⟩ := h.layered.parent hi hleaf.notRoot
  obtain ⟨l₁, l₂, hsplit⟩ := List.append_of_mem hmem
  obtain ⟨-, hprev, -⟩ := h.layered.linked.links hsplit
  unfold absorbBar
  rw [hprev]
  cases hlast : l₁.getLast? with
  | none => rfl
  | some b =>
    have hb : b ∈ kids q := by
      rw [hsplit]
      exact List.mem_append_left _ (List.mem_of_getLast? hlast)
    apply if_neg
    rintro ⟨hkind, hvalue⟩
    exact h.unbarred b (hq.child hb) ⟨beq_iff_eq.1 hkind, hvalue⟩

theorem scopeTag_underway (h : Underway c D outs p kids rank)
    (htag : (p.forest.label i).isTag = true) :
    ∃ kids' rank', Underway c D outs (p.scopeTag c i) kids' rank' ∧
      Shrunk p.forest kids (p.scopeTag c i).forest kids' ∧
      (D i = true → ¬ Below kids' root i) := by
  have hf := h.heading.layered
  have hattached := isAttached_iff (i := i) hf.linked hf.graded
  have hscopable := isScopable_of_isTag htag
  have hattribute : (p.forest.label i).isAttribute = false := by
    unfold Label.isTag at htag
    unfold Label.isAttribute
    rw [beq_iff_eq.1 htag]
  by_cases hi : Below kids root i
  · have hlabel : (p.decide c i).2.forest.label i = p.forest.label i := by
      obtain ⟨kids₁, -, hshrunk₁, -⟩ := h.decide hi hscopable
      exact hshrunk₁.label i (hf.lt hi)
    have habsorb := absorbBar_of_unbarred h.heading hi (isScopable_leaf hscopable)
    apply h.scope hi hscopable
    · intro hfalse
      unfold Pass.scopeTag
      rw [if_pos (hattached.2 hi), habsorb]
      generalize p.decide c i = r at hfalse
      obtain ⟨d, q⟩ := r
      cases hfalse
      rfl
    · intro htrue
      unfold Pass.scopeTag
      rw [if_pos (hattached.2 hi), habsorb]
      generalize p.decide c i = r at htrue hlabel
      obtain ⟨d, q⟩ := r
      cases htrue
      refine ⟨rfl, ?_⟩
      dsimp only at hlabel ⊢
      rw [hlabel]
      have hvalue : (replacement c (p.forest.label i)).value =
          "__" ++ scopedName c (p.forest.label i).ns (p.forest.label i).value := by
        unfold replacement
        rw [hattribute]
        rfl
      rw [hvalue]
  · have hsame : p.scopeTag c i = p := if_neg fun hi' => hi (hattached.1 hi')
    rw [hsame]
    exact ⟨kids, rank, h, .refl _ _, fun _ => hi⟩

/-- A phase visits nodes whose labels satisfy `P` and leaves none of them to be scoped. -/
theorem foldl_underway {P : Label → Bool} {step : Pass → Nat → Pass} {is : List Nat}
    (hP : ∀ l, P l = true → isScopable l = true)
    (hstep : ∀ {p kids rank i}, Underway c D outs p kids rank → P (p.forest.label i) = true →
      ∃ kids' rank', Underway c D outs (step p i) kids' rank' ∧
        Shrunk p.forest kids (step p i).forest kids' ∧ (D i = true → ¬ Below kids' root i))
    (h : Underway c D outs p kids rank) (his : ∀ i ∈ is, P (p.forest.label i) = true) :
    ∃ kids' rank', Underway c D outs (is.foldl step p) kids' rank' ∧
      Shrunk p.forest kids (is.foldl step p).forest kids' ∧
      ∀ i ∈ is, D i = true → ¬ Below kids' root i := by
  induction is generalizing p kids rank with
  | nil => exact ⟨kids, rank, h, .refl _ _, nofun⟩
  | cons i is ih =>
    have hdefault : P default = false := Bool.eq_false_iff.2 fun hdefault => by
      cases hP _ hdefault
    have hlt : ∀ j ∈ i :: is, j < p.forest.size := fun j hj => lt_size_of_label hdefault (his j hj)
    obtain ⟨kids₁, rank₁, h₁, hshrunk₁, hgone₁⟩ := hstep h (his i List.mem_cons_self)
    have his₁ : ∀ j ∈ is, P ((step p i).forest.label j) = true := by
      intro j hj
      have hmem := List.mem_cons_of_mem i hj
      rw [hshrunk₁.label j (hlt j hmem)]
      exact his j hmem
    obtain ⟨kids₂, rank₂, h₂, hshrunk₂, hgone₂⟩ := ih h₁ his₁
    refine ⟨kids₂, rank₂, h₂,
      hshrunk₁.trans h.heading.layered h₁.heading.layered.linked hshrunk₂, ?_⟩
    intro j hj hD
    rcases List.mem_cons.1 hj with rfl | hj
    · have hj' := hlt j List.mem_cons_self
      refine hshrunk₂.gone (Nat.lt_of_lt_of_le hj' hshrunk₁.size) ?_ (hgone₁ hD)
      rw [hshrunk₁.label j hj']
      exact ne_class_of_isScopable (hP _ (his j List.mem_cons_self))
    · exact hgone₂ j hj hD

theorem phase_underway {P : Label → Bool} {step : Pass → Nat → Pass}
    (hP : ∀ l, P l = true → isScopable l = true)
    (hstep : ∀ {p kids rank i}, Underway c D outs p kids rank → P (p.forest.label i) = true →
      ∃ kids' rank', Underway c D outs (step p i) kids' rank' ∧
        Shrunk p.forest kids (step p i).forest kids' ∧ (D i = true → ¬ Below kids' root i))
    (h : Underway c D outs p kids rank) :
    ∃ kids' rank', Underway c D outs ((p.forest.collect P).foldl step p) kids' rank' ∧
      Shrunk p.forest kids ((p.forest.collect P).foldl step p).forest kids' ∧
      ∀ i, Below kids' root i →
        P (((p.forest.collect P).foldl step p).forest.label i) = true → D i = false := by
  have hf := h.heading.layered
  have hcollected : ∀ i ∈ p.forest.collect P, P (p.forest.label i) = true :=
    fun i hi => (List.mem_filter.1 hi).2
  obtain ⟨kids', rank', h', hshrunk, hgone⟩ := foldl_underway hP hstep h hcollected
  refine ⟨kids', rank', h', hshrunk, ?_⟩
  intro i hi hPi
  have hscopable := hP _ hPi
  have hbelow := hshrunk.below hi (ne_class_of_isScopable hscopable)
  rw [hshrunk.label i (hf.lt hbelow)] at hPi hscopable
  have hroot := hf.ne_root (isScopable_leaf hscopable).notRoot
  have hmem := mem_collect hf.linked hf.graded hbelow hroot hPi
  exact Bool.eq_false_iff.2 fun hD => hgone i hmem hD hi

theorem unwrap_heading (h : Heading c D outs f kids rank)
    (hescape : isEscape c (f.label i) = true) :
    ∃ kids', Heading c D outs (unwrap f i) kids' rank ∧ Shrunk f kids (unwrap f i) kids' ∧
      (Below kids' root i → ∀ s, kids' i ≠ [s]) := by
  have hf := h.layered
  have hattached := isAttached_iff (i := i) hf.linked hf.graded
  unfold unwrap
  by_cases hi : Below kids root i
  · rw [if_pos (hattached.2 hi), hf.linked.children_eq]
    split
    · next s hs =>
      obtain ⟨hheading, hshrunk, -⟩ := h.splice hi hescape hs
      refine ⟨_, hheading, hshrunk, ?_⟩
      intro hbelow
      have hroot := hf.ne_root (Label.kind_of_isPseudo (isPseudo_of_isEscape hescape)).1
      exact ((below_splice hf.graded hroot hs hbelow).2 rfl).elim
    · next hnot =>
      exact ⟨kids, h, .refl _ _, fun _ s hs => hnot s hs⟩
  · rw [if_neg fun hi' => hi (hattached.1 hi')]
    exact ⟨kids, h, .refl _ _, fun hi' => (hi hi').elim⟩

theorem foldl_unwrap {is : List Nat} (h : Heading c D outs f kids rank)
    (his : ∀ i ∈ is, isEscape c (f.label i) = true) :
    ∃ kids', Heading c D outs (is.foldl unwrap f) kids' rank ∧
      Shrunk f kids (is.foldl unwrap f) kids' ∧
      ∀ i ∈ is, Below kids' root i → ∀ s, kids' i ≠ [s] := by
  induction is generalizing f kids with
  | nil => exact ⟨kids, h, .refl _ _, nofun⟩
  | cons i is ih =>
    have hlt : ∀ j ∈ i :: is, j < f.size := fun j hj => lt_size_of_label rfl (his j hj)
    obtain ⟨kids₁, h₁, hshrunk₁, hdone₁⟩ := unwrap_heading h (his i List.mem_cons_self)
    have his₁ : ∀ j ∈ is, isEscape c ((unwrap f i).label j) = true := by
      intro j hj
      have hmem := List.mem_cons_of_mem i hj
      rw [hshrunk₁.label j (hlt j hmem)]
      exact his j hmem
    obtain ⟨kids₂, h₂, hshrunk₂, hdone₂⟩ := ih h₁ his₁
    refine ⟨kids₂, h₂, hshrunk₁.trans h.layered h₁.layered.linked hshrunk₂, ?_⟩
    intro j hj hbelow
    rcases List.mem_cons.1 hj with rfl | hj
    · have hj' := hlt j List.mem_cons_self
      have hpseudo : ((is.foldl unwrap (unwrap f j)).label j).isPseudo = true := by
        rw [hshrunk₂.label j (Nat.lt_of_lt_of_le hj' hshrunk₁.size), hshrunk₁.label j hj']
        exact isPseudo_of_isEscape (his j List.mem_cons_self)
      rw [hshrunk₂.pseudo j hbelow hpseudo]
      exact hdone₁ (hshrunk₂.below hbelow (ne_class_of_isPseudo hpseudo))
    · exact hdone₂ j hj hbelow

/-- After the last phase the forest is what it was to become. -/
theorem unwrapEscapes_tree (h : Heading c D outs f kids rank)
    (hscoped : ∀ i, Below kids root i → isScopable (f.label i) = true → D i = false) :
    (unwrapEscapes c f).tree root = .node (f.label root) outs := by
  have hf := h.layered
  have hcollected : ∀ i ∈ f.collect (isEscape c), isEscape c (f.label i) = true :=
    fun i hi => (List.mem_filter.1 hi).2
  obtain ⟨kids', h', hshrunk, hdone⟩ := foldl_unwrap h hcollected
  have hf' := h'.layered
  have houts : outs = (kids' root).map (unwrapEscapes c f).tree := by
    refine h'.becomes.settled hf' (fun i hi => Below.child .refl hi) ?_ ?_
    · intro i hi hscopable
      have hbelow := hshrunk.below hi (ne_class_of_isScopable hscopable)
      rw [hshrunk.label i (hf.lt hbelow)] at hscopable
      exact hscoped i hbelow hscopable
    · intro i hi hescape
      have hpseudo := isPseudo_of_isEscape hescape
      have hbelow := hshrunk.below hi (ne_class_of_isPseudo hpseudo)
      have hlabel := hshrunk.label i (hf.lt hbelow)
      rw [hlabel] at hescape hpseudo
      have hroot := hf.ne_root (Label.kind_of_isPseudo hpseudo).1
      exact hdone i (mem_collect hf.linked hf.graded hbelow hroot hescape) hi
  have hlabel := hshrunk.label root hf.bound
  have htree := tree_eq hf'.linked hf'.graded hf'.bound
  rw [hlabel] at htree
  rw [houts]
  exact htree

end ScopedStyles.Scope
