import ScopedStyles.Proofs.Resolver.Heading

namespace ScopedStyles.Scope

open Selector Forest

variable {c : Config} {D : Nat → Bool} {outs : List Tree} {kids : Nat → List Nat}
  {rank : Nat → Nat} {p p' : Pass} {i j : Nat}

/-- A forest on its way, with decisions for the nodes that have been lifted. -/
structure Underway (c : Config) (D : Nat → Bool) (outs : List Tree) (p : Pass)
    (kids : Nat → List Nat) (rank : Nat → Nat) : Prop where
  heading : Heading c D outs p.forest kids rank
  lifted : ∀ x ∈ p.lifted, x.2 = c.mode.scopesEscaped
  decided : ∀ i, Below kids root i → isScopable (p.forest.label i) = true →
    (p.decide c i).1 = D i

theorem lookup_lifted (selected : List Nat) (decision : Bool) (rest : List (Nat × Bool)) :
    (selected.map (·, decision) ++ rest).lookup j =
      if j ∈ selected then some decision else rest.lookup j := by
  induction selected with
  | nil => rfl
  | cons i selected ih =>
    rw [List.map_cons, List.cons_append, List.lookup_cons, ih]
    by_cases hji : j = i
    · subst hji
      rw [beq_self_eq_true, if_pos List.mem_cons_self]
    · rw [beq_false_of_ne hji]
      simp only [List.mem_cons, hji, false_or]

theorem Underway.lift_decided {selector : Nat} (h : Underway c D outs p kids rank)
    (hi : Below kids root i) (hescape : isEscape c (p.forest.label i) = true)
    (hs : kids i = [selector]) (hlifted : p'.lifted =
      (kids selector).reverse.map (·, c.mode.scopesEscaped) ++ p.lifted)
    (hforest : p'.forest = p.forest.replaceWithChildren i selector)
    (hj : Below (splice i selector kids) root j)
    (hscopable : isScopable (p'.forest.label j) = true) : (p'.decide c j).1 = D j := by
  have hf := h.heading.layered
  have hpseudo := isPseudo_of_isEscape hescape
  have hselector := mem_of_eq_singleton hs
  have hkind := hf.argument hi hpseudo hselector
  have hroot := hf.ne_root (Label.kind_of_isPseudo hpseudo).1
  obtain ⟨hheading, -, hlabel⟩ := h.heading.splice hi hescape hs
  rw [← hforest] at hheading hlabel
  rw [hlabel] at hscopable
  obtain ⟨hbelow, hji⟩ := below_splice hf.graded hroot hs hj
  have hleaf := isScopable_leaf hscopable
  rw [← h.decided j hbelow hscopable, decide_fst, decide_fst, hlifted, lookup_lifted]
  -- a lifted node keeps the decision that the escape gives it, and the others see what they have seen
  by_cases hjs : j ∈ (kids selector).reverse
  · rw [if_pos hjs]
    cases hlookup : p.lifted.lookup j with
    | some d =>
      obtain ⟨l₁, l₂, hl, -⟩ := List.lookup_eq_some_iff.1 hlookup
      have hmem : (j, d) ∈ p.lifted := by
        rw [hl]
        simp
      exact (h.lifted (j, d) hmem).symm
    | none => exact (judge_escaped hf.linked (List.mem_reverse.1 hjs) hselector hescape).symm
  · rw [if_neg hjs]
    congr 1
    have hjs' : j ∉ kids selector := fun hmem => hjs (List.mem_reverse.2 hmem)
    have hunmoved : ∀ {k}, k ∉ kids selector → k ≠ i →
        (p'.forest.get k).parent = (p.forest.get k).parent :=
      fun hk hki => parent_splice hf.linked hheading.layered.linked hk hki
    apply judge_congr (hlabel j) (hunmoved hjs' hji)
    intro q hq
    obtain ⟨-, hqkind⟩ := hf.parent_selector hbelow (hf.linked.parent_iff.1 hq) hleaf.notRoot
      hleaf.notSelector
    have hqs : q ∉ kids selector := fun hmem => hf.content (hi.child hselector) hkind hmem hqkind
    have hqi : q ≠ i := by
      intro heq
      subst heq
      exact (Label.kind_of_isPseudo hpseudo).2 hqkind
    exact ⟨hunmoved hqs hqi, fun r _ => hlabel r⟩

theorem Underway.lift {pseudo selector : Nat} (h : Underway c D outs p kids rank)
    (hpseudo : Below kids root pseudo) (hescape : isEscape c (p.forest.label pseudo) = true)
    (hselector : selector ∈ kids pseudo) (hi : i ∈ kids selector) :
    ∃ kids', Underway c D outs (p.lift pseudo selector c.mode.scopesEscaped) kids' rank ∧
      Shrunk p.forest kids (p.lift pseudo selector c.mode.scopesEscaped).forest kids' ∧
      Below kids' root i := by
  have hf := h.heading.layered
  have hbelow := (hpseudo.child hselector).child hi
  unfold Pass.lift
  rw [hf.linked.children_eq, hf.linked.children_eq]
  split
  · next hlength =>
    obtain ⟨s, hs⟩ := List.length_eq_one_iff.1 hlength
    have hss : selector = s := by
      rw [hs] at hselector
      exact List.mem_singleton.1 hselector
    subst hss
    obtain ⟨hheading, hshrunk, -⟩ := h.heading.splice hpseudo hescape hs
    have hispseudo := isPseudo_of_isEscape hescape
    have hkind := hf.argument hpseudo hispseudo hselector
    refine ⟨_, ⟨hheading, ?_, ?_⟩, hshrunk, ?_⟩
    · intro x hx
      rcases List.mem_append.1 hx with hnew | hold
      · obtain ⟨j, -, rfl⟩ := List.mem_map.1 hnew
        rfl
      · exact h.lifted x hold
    · intro j hj hscopable
      exact h.lift_decided hpseudo hescape hs rfl rfl hj hscopable
    · obtain ⟨q, -, hq⟩ := hf.parent hpseudo (Label.kind_of_isPseudo hispseudo).1
      have hroot := hf.ne_root (Label.kind_of_isPseudo hispseudo).1
      have hsroot : selector ≠ root := by
        apply hf.ne_root
        rw [hkind]
        exact nofun
      have hlt := hf.graded.above hi
      have hlt' := hf.graded.above hselector
      apply below_splice_of_ne hf.linked hf.graded hroot hs hsroot hq hbelow
      · intro heq
        subst heq
        omega
      · intro heq
        subst heq
        omega
  · exact ⟨kids, h, .refl _ _, hbelow⟩

theorem Underway.decide (h : Underway c D outs p kids rank) (hi : Below kids root i)
    (hscopable : isScopable (p.forest.label i) = true) :
    ∃ kids', Underway c D outs (p.decide c i).2 kids' rank ∧
      Shrunk p.forest kids (p.decide c i).2.forest kids' ∧ Below kids' root i := by
  have hf := h.heading.layered
  have hleaf := isScopable_leaf hscopable
  unfold Pass.decide
  split
  · exact ⟨kids, h, .refl _ _, hi⟩
  · split
    · next selector pseudo hholder =>
      obtain ⟨selector', hselector, hrest⟩ := Option.bind_eq_some_iff.1 hholder
      obtain ⟨pseudo', hpseudo, hsome⟩ := Option.bind_eq_some_iff.1 hrest
      split at hsome
      · next hispseudo =>
        cases hsome
        have hmem := hf.linked.parent_iff.1 hselector
        have hmem' := hf.linked.parent_iff.1 hpseudo
        dsimp only
        split
        · next hvalue =>
          have hescape : isEscape c (p.forest.label pseudo) = true := by
            unfold isEscape
            rw [hispseudo, hvalue, beq_self_eq_true]
            rfl
          obtain ⟨hbelow, hkind⟩ := hf.parent_selector hi hmem hleaf.notRoot hleaf.notSelector
          have hnotroot : (p.forest.label selector).kind ≠ .root := by
            rw [hkind]
            exact nofun
          obtain ⟨q, hq, hselectorq⟩ := hf.parent hbelow hnotroot
          have hqp := hf.linked.unique hmem' hselectorq
          subst hqp
          exact h.lift hq hescape hmem' hmem
        · split
          · exact ⟨kids, h, .refl _ _, hi⟩
          · exact ⟨kids, h, .refl _ _, hi⟩
      · cases hsome
    · exact ⟨kids, h, .refl _ _, hi⟩

theorem Underway.put (h : Underway c D outs p kids rank) (hi : Below kids root i)
    (hscopable : isScopable (p.forest.label i) = true) (hD : D i = true)
    (hforest : p'.forest = replaceByClass p.forest i (replacement c (p.forest.label i)).value)
    (hlifted : p'.lifted = p.lifted) :
    ∃ kids' rank', Underway c D outs p' kids' rank' ∧ Shrunk p.forest kids p'.forest kids' ∧
      ¬ Below kids' root i := by
  have hf := h.heading.layered
  have hleaf := isScopable_leaf hscopable
  have hroot := hf.ne_root hleaf.notRoot
  have hforest' : p'.forest = (p.forest.create (replacement c (p.forest.label i))).1.replaceWith i
      p.forest.size := hforest
  obtain ⟨⟨rank', hheading⟩, hshrunk, hlabel⟩ := h.heading.exchange hi hscopable hD
  rw [← hforest'] at hheading hshrunk hlabel
  have hreach : ∀ {j}, Below (Forest.exchange i p.forest.size kids) root j →
      Below kids root j ∧ j ≠ i ∨ j = p.forest.size :=
    fun hj => below_exchange hf.linked hroot hj
  refine ⟨_, rank', ⟨hheading, ?_, ?_⟩, hshrunk, ?_⟩
  · rw [hlifted]
    exact h.lifted
  · intro j hj hscopable'
    obtain ⟨hbelow, hji⟩ : Below kids root j ∧ j ≠ i := by
      rcases hreach hj with hold | rfl
      · exact hold
      · rw [hlabel, if_pos rfl] at hscopable'
        exact (ne_class_of_isScopable hscopable' rfl).elim
    have hold : ∀ {k}, k < p.forest.size → p'.forest.label k = p.forest.label k :=
      fun hk => hshrunk.label _ hk
    have hj' := hf.lt hbelow
    rw [hold hj'] at hscopable'
    have hleaf' := isScopable_leaf hscopable'
    have hunmoved : ∀ {k}, k ≠ i → k ≠ p.forest.size →
        (p'.forest.get k).parent = (p.forest.get k).parent :=
      fun hki hks => parent_exchange hf.linked hheading.layered.linked hki hks
    rw [← h.decided j hbelow hscopable', decide_fst, decide_fst, hlifted]
    congr 1
    apply judge_congr (hold hj') (hunmoved hji (Nat.ne_of_lt hj'))
    intro q hq
    have hjq := hf.linked.parent_iff.1 hq
    obtain ⟨hqbelow, hqkind⟩ :=
      hf.parent_selector hbelow hjq hleaf'.notRoot hleaf'.notSelector
    refine ⟨hunmoved ?_ (Nat.ne_of_lt (hf.lt hqbelow)), ?_⟩
    · intro heq
      subst heq
      exact hleaf.notSelector hqkind
    · intro r hr
      exact hold (hf.linked.bound (hf.linked.parent_iff.1 hr)).1
  · intro hbelow
    rcases hreach hbelow with ⟨-, hne⟩ | heq
    · exact hne rfl
    · exact Nat.ne_of_lt (hf.lt hi) heq

theorem Underway.scope (h : Underway c D outs p kids rank) (hi : Below kids root i)
    (hscopable : isScopable (p.forest.label i) = true)
    (hkept : (p.decide c i).1 = false → p' = (p.decide c i).2)
    (hput : (p.decide c i).1 = true → p'.lifted = (p.decide c i).2.lifted ∧
      p'.forest = replaceByClass (p.decide c i).2.forest i
        (replacement c ((p.decide c i).2.forest.label i)).value) :
    ∃ kids' rank', Underway c D outs p' kids' rank' ∧ Shrunk p.forest kids p'.forest kids' ∧
      (D i = true → ¬ Below kids' root i) := by
  have hf := h.heading.layered
  have hdecided := h.decided i hi hscopable
  obtain ⟨kids₁, h₁, hshrunk₁, hi₁⟩ := h.decide hi hscopable
  cases hD : D i with
  | false =>
    rw [hkept (hdecided.trans hD)]
    exact ⟨kids₁, rank, h₁, hshrunk₁, nofun⟩
  | true =>
    obtain ⟨hlifted, hforest⟩ := hput (hdecided.trans hD)
    have hscopable₁ : isScopable ((p.decide c i).2.forest.label i) = true := by
      rw [hshrunk₁.label i (hf.lt hi)]
      exact hscopable
    obtain ⟨kids₂, rank₂, h₂, hshrunk₂, hgone⟩ := h₁.put hi₁ hscopable₁ hD hforest hlifted
    exact ⟨kids₂, rank₂, h₂, hshrunk₁.trans hf h₁.heading.layered.linked hshrunk₂, fun _ => hgone⟩

end ScopedStyles.Scope
