import ScopedStyles.Proofs.Forest.Order
import ScopedStyles.Proofs.Resolver.Absorption
import ScopedStyles.Proofs.Resolver.Places

namespace ScopedStyles.Scope

open Selector Forest

variable {c : Config} {P : Label → Bool} {p p' : Pass} {kids : Nat → List Nat} {rank : Nat → Nat}
  {e s i j q : Nat} {is js : List Nat}

/-- What these siblings show when those that stand open are taken for the content of their argument. -/
inductive Shows (opens : Nat → Nat → Prop) (kids : Nat → List Nat) : List Nat → List Nat → Prop
  | nil : Shows opens kids [] []
  | kept {i : Nat} {is js : List Nat} (hi : ∀ s, ¬ opens i s) (hrest : Shows opens kids is js) :
    Shows opens kids (i :: is) (i :: js)
  | opened {e s : Nat} {is us js : List Nat} (he : opens e s)
    (hcontent : Shows opens kids (kids s) us) (hrest : Shows opens kids is js) :
    Shows opens kids (e :: is) (us ++ js)

namespace Shows

variable {opens opens' : Nat → Nat → Prop} {x : Nat}

theorem append {is' js' : List Nat} (h : Shows opens kids is js) (h' : Shows opens kids is' js') :
    Shows opens kids (is ++ is') (js ++ js') := by
  induction h with
  | nil => exact h'
  | kept hi _ ih => exact .kept hi ih
  | opened he hcontent _ _ ih =>
    rw [List.append_assoc]
    exact .opened he hcontent ih

theorem settled (h : Shows opens kids is js) (hsettled : ∀ i ∈ is, ∀ s, ¬ opens i s) : js = is := by
  induction h with
  | nil => rfl
  | kept _ _ ih => rw [ih fun i hi => hsettled i (List.mem_cons_of_mem _ hi)]
  | opened he => exact (hsettled _ List.mem_cons_self _ he).elim

theorem reach (h : Shows opens kids is js) (hopens : ∀ e s, opens e s → kids e = [s])
    (his : ∀ i ∈ is, Below kids root i) : ∀ j ∈ js, Below kids root j := by
  induction h with
  | nil => exact nofun
  | kept _ _ ih =>
    obtain ⟨hi, his⟩ := List.forall_mem_cons.1 his
    exact List.forall_mem_cons.2 ⟨hi, ih his⟩
  | opened he _ _ ihcontent ihrest =>
    obtain ⟨hi, his⟩ := List.forall_mem_cons.1 his
    have hcontent := ihcontent fun j hj => (hi.child (mem_of_eq_singleton (hopens _ _ he))).child hj
    exact List.forall_mem_append.2 ⟨hcontent, ihrest his⟩

theorem ne_nil (h : Shows opens kids is js) (hopens : ∀ e s, opens e s → kids s ≠ []) :
    is ≠ [] → js ≠ [] := by
  induction h with
  | nil => exact id
  | kept => exact fun _ => List.cons_ne_nil _ _
  | opened he _ _ ihcontent _ =>
    exact fun _ => List.append_ne_nil_of_left_ne_nil (ihcontent (hopens _ _ he)) _

theorem getLast? (h : Shows opens kids is js) (hopens : ∀ e s, opens e s → kids s ≠ [])
    (hx : js.getLast? = some x) :
    is.getLast? = some x ∨ ∃ s, (kids s).getLast? = some x := by
  induction h with
  | nil => cases hx
  | @kept i is js _ hrest ih =>
    cases js with
    | nil =>
      cases is with
      | nil => exact .inl hx
      | cons k is => exact (hrest.ne_nil hopens (List.cons_ne_nil k is) rfl).elim
    | cons k js =>
      rw [List.getLast?_cons_cons] at hx
      rcases ih hx with hlast | hlast
      · left
        rw [List.getLast?_cons, hlast]
        rfl
      · exact .inr hlast
  | @opened e s is us js _ _ hrest ihcontent ih =>
    rw [List.getLast?_append] at hx
    cases hjs : js.getLast? with
    | none =>
      rw [hjs, Option.none_or] at hx
      right
      rcases ihcontent hx with hlast | hlast
      · exact ⟨s, hlast⟩
      · exact hlast
    | some y =>
      rw [hjs, Option.some_or] at hx
      rcases ih (hjs.trans hx) with hlast | hlast
      · left
        rw [List.getLast?_cons, hlast]
        rfl
      · exact .inr hlast

theorem exchange (h : Shows opens kids is js) (hopens : ∀ e s, opens e s → kids e = [s])
    (hi : ∀ s, ¬ opens i s) (hx : ∀ s, ¬ opens' x s)
    (hsame : ∀ e s, Below kids root e → e ≠ i → (opens' e s ↔ opens e s))
    (his : ∀ j ∈ is, Below kids root j) :
    Shows opens' (Forest.exchange i x kids) (is.map fun j => if j = i then x else j)
      (js.map fun j => if j = i then x else j) := by
  induction h with
  | nil => exact .nil
  | @kept j is js hj _ ih =>
    obtain ⟨hbelow, his⟩ := List.forall_mem_cons.1 his
    rw [List.map_cons, List.map_cons]
    refine .kept ?_ (ih his)
    intro s
    by_cases hji : j = i
    · rw [if_pos hji]
      exact hx s
    · rw [if_neg hji]
      exact fun hopen => hj s ((hsame j s hbelow hji).1 hopen)
  | @opened e s is us js he _ _ ihcontent ihrest =>
    obtain ⟨hbelow, his⟩ := List.forall_mem_cons.1 his
    have hei : e ≠ i := by
      rintro rfl
      exact hi s he
    have hse := mem_of_eq_singleton (hopens e s he)
    have hcontent := ihcontent fun j hj => (hbelow.child hse).child hj
    rw [List.map_cons, if_neg hei, List.map_append]
    exact .opened ((hsame e s hbelow hei).2 he) hcontent (ihrest his)

/-- Opening a node that stands open shows what it has shown before. -/
theorem splice (h : Shows opens kids is js) (hf : Linked p.forest kids)
    (hg : Graded p.forest kids rank) (hopens : ∀ e s, opens e s → kids e = [s]) (he : opens e s)
    (hsame : ∀ e' s', Below kids root e' → e' ≠ e → (opens' e' s' ↔ opens e' s'))
    (his : ∀ j ∈ is, Below kids root j) :
    Shows opens' (Forest.splice e s kids) (is.flatMap fun j => if j = e then kids s else [j]) js := by
  have hse : s ∈ kids e := mem_of_eq_singleton (hopens e s he)
  have hes := hg.notMem_of_child hse
  induction h with
  | nil => exact .nil
  | @kept j is js hj _ ih =>
    obtain ⟨hbelow, his⟩ := List.forall_mem_cons.1 his
    have hje : j ≠ e := by
      rintro rfl
      exact hj s he
    rw [List.flatMap_cons, if_neg hje]
    exact .kept (fun s' hopen => hj s' ((hsame j s' hbelow hje).1 hopen)) (ih his)
  | @opened e' s' is us js he' _ _ ihcontent ihrest =>
    obtain ⟨hbelow, his⟩ := List.forall_mem_cons.1 his
    have hse' : s' ∈ kids e' := mem_of_eq_singleton (hopens e' s' he')
    have hcontent := ihcontent fun j hj => (hbelow.child hse').child hj
    rw [List.flatMap_cons]
    by_cases hee : e' = e
    · subst hee
      have hss : s' = s := by
        rw [hopens e' s he] at hse'
        exact List.mem_singleton.1 hse'
      subst hss
      rw [flatMap_splice_of_notMem hes] at hcontent
      rw [if_pos rfl]
      exact hcontent.append (ihrest his)
    · have hss : s' ≠ s := by
        rintro rfl
        exact hee (hf.unique hse' hse)
      rw [if_neg hee]
      refine .opened ((hsame e' s' hbelow hee).2 he') ?_ (ihrest his)
      rw [Forest.splice, if_neg hss]
      exact hcontent

end Shows

/-- A visit of `i` lifts it out of the escape `e` with the only argument `s`. -/
structure Waits (c : Config) (p : Pass) (kids : Nat → List Nat) (e s i : Nat) : Prop where
  escape : isEscape c (p.forest.label e) = true
  single : kids e = [s]
  inside : i ∈ kids s
  unlifted : p.lifted.lookup i = none

def Opens (c : Config) (P : Label → Bool) (p : Pass) (kids : Nat → List Nat) (e s : Nat) : Prop :=
  ∃ i, P (p.forest.label i) = true ∧ Waits c p kids e s i

/-- The node has not been lifted, and it stands directly neither in an escape nor in an opaque pseudo. -/
structure Exposed (c : Config) (p : Pass) (kids : Nat → List Nat) (i : Nat) : Prop where
  unlifted : p.lifted.lookup i = none
  holder : ∀ q e, i ∈ kids q → q ∈ kids e → (p.forest.label e).isPseudo = true →
    (p.forest.label e).value ≠ c.mode.escape ∧ isOpaquePseudo (p.forest.label e).value = false

theorem Opens.single (h : Opens c P p kids e s) : kids e = [s] := by
  obtain ⟨i, -, hwaits⟩ := h
  exact hwaits.single

theorem Exposed.not_waits (h : Exposed c p kids i) : ¬ Waits c p kids e s i := by
  intro hwaits
  obtain ⟨hpseudo, hvalue⟩ := Bool.and_eq_true_iff.1 hwaits.escape
  exact (h.holder s e hwaits.inside (mem_of_eq_singleton hwaits.single) hpseudo).1
    (beq_iff_eq.1 hvalue)

theorem exposed_congr {kids' : Nat → List Nat}
    (hlifted : p'.lifted.lookup j = p.lifted.lookup j)
    (hheld : ∀ {q e}, j ∈ kids' q ∧ q ∈ kids' e ↔ j ∈ kids q ∧ q ∈ kids e)
    (hlabel : ∀ {q e}, j ∈ kids q → q ∈ kids e → p'.forest.label e = p.forest.label e ∨
      (p'.forest.label e).isPseudo = false ∧ (p.forest.label e).isPseudo = false) :
    Exposed c p' kids' j ↔ Exposed c p kids j := by
  constructor
  · rintro ⟨hunlifted, hholder⟩
    refine ⟨hlifted ▸ hunlifted, ?_⟩
    intro q e hq he hpseudo
    obtain ⟨hq', he'⟩ := hheld.2 ⟨hq, he⟩
    rcases hlabel hq he with hsame | ⟨-, hnot⟩
    · rw [← hsame] at hpseudo ⊢
      exact hholder q e hq' he' hpseudo
    · cases hnot.symm.trans hpseudo
  · rintro ⟨hunlifted, hholder⟩
    refine ⟨hlifted.symm ▸ hunlifted, ?_⟩
    intro q e hq he hpseudo
    obtain ⟨hq', he'⟩ := hheld.1 ⟨hq, he⟩
    rcases hlabel hq' he' with hsame | ⟨hnot, -⟩
    · rw [hsame] at hpseudo ⊢
      exact hholder q e hq' he' hpseudo
    · cases hnot.symm.trans hpseudo

theorem holder?_eq_some_iff {f : Forest} (h : Linked f kids) :
    holder? f i = some (q, e) ↔ i ∈ kids q ∧ q ∈ kids e ∧ (f.label e).isPseudo = true := by
  rw [← h.parent_iff, ← h.parent_iff, holder?]
  cases hq : (f.get i).parent with
  | none => simp
  | some q' =>
    cases he : (f.get q').parent with
    | none =>
      simp only [Option.bind_eq_bind, Option.bind_some, he, Option.bind_none, reduceCtorEq,
        Option.some.injEq, false_iff]
      rintro ⟨rfl, hparent, -⟩
      rw [he] at hparent
      cases hparent
    | some e' =>
      simp only [Option.bind_eq_bind, Option.bind_some, he, Option.ite_none_right_eq_some,
        Option.some.injEq, Prod.mk.injEq]
      constructor
      · rintro ⟨hpseudo, rfl, rfl⟩
        exact ⟨rfl, he, hpseudo⟩
      · rintro ⟨rfl, hparent, hpseudo⟩
        rw [he] at hparent
        cases hparent
        exact ⟨hpseudo, rfl, rfl⟩

/-- How a node is decided on in the local mode. -/
inductive Decides (c : Config) (p : Pass) (kids : Nat → List Nat) (i : Nat) : Bool × Pass → Prop
  | exposed (h : Exposed c p kids i) : Decides c p kids i (scopesNamespace c (p.forest.label i).ns, p)
  | kept (h : ¬ Exposed c p kids i) (hwaits : ∀ e s, ¬ Waits c p kids e s i) :
    Decides c p kids i (false, p)
  | lifted {e s : Nat} (h : ¬ Exposed c p kids i) (he : Below kids root e)
    (hwaits : Waits c p kids e s i) :
    Decides c p kids i (false, { p with
      forest := p.forest.replaceWithChildren e s
      lifted := (kids s).reverse.map (·, false) ++ p.lifted })

theorem Waits.holder? (hwaits : Waits c p kids e s i) (h : Linked p.forest kids) :
    holder? p.forest i = some (s, e) ∧ (p.forest.label e).value = c.mode.escape := by
  obtain ⟨hpseudo, hvalue⟩ := Bool.and_eq_true_iff.1 hwaits.escape
  have hargument := mem_of_eq_singleton hwaits.single
  exact ⟨(holder?_eq_some_iff h).2 ⟨hwaits.inside, hargument, hpseudo⟩, beq_iff_eq.1 hvalue⟩

theorem exposed_iff_holder? (h : Linked p.forest kids) :
    Exposed c p kids i ↔ p.lifted.lookup i = none ∧ ∀ q e, holder? p.forest i = some (q, e) →
      (p.forest.label e).value ≠ c.mode.escape ∧
        isOpaquePseudo (p.forest.label e).value = false := by
  constructor
  · rintro ⟨hlookup, hexposed⟩
    refine ⟨hlookup, ?_⟩
    intro q e hholder
    obtain ⟨hq, he, hpseudo⟩ := (holder?_eq_some_iff h).1 hholder
    exact hexposed q e hq he hpseudo
  · rintro ⟨hlookup, hexposed⟩
    refine ⟨hlookup, ?_⟩
    intro q e hq he hpseudo
    exact hexposed q e ((holder?_eq_some_iff h).2 ⟨hq, he, hpseudo⟩)

theorem lift_locally (hf : Layered p.forest kids rank) (hi : Below kids root i)
    (hscopable : isScopable (p.forest.label i) = true) (hlookup : p.lifted.lookup i = none)
    (hholder : holder? p.forest i = some (q, e))
    (hvalue : (p.forest.label e).value = c.mode.escape) :
    Decides c p kids i (false, p.lift e q false) := by
  have hleaf := isScopable_leaf hscopable
  obtain ⟨hq, he, hpseudo⟩ := (holder?_eq_some_iff hf.linked).1 hholder
  have hnot : ¬ Exposed c p kids i := fun h => (h.holder q e hq he hpseudo).1 hvalue
  rw [Pass.lift, hf.linked.children_eq, hf.linked.children_eq]
  split
  · next hlength =>
    obtain ⟨s, hs⟩ := List.length_eq_one_iff.1 hlength
    obtain rfl : q = s := by
      rw [hs] at he
      exact List.mem_singleton.1 he
    have hescape : isEscape c (p.forest.label e) = true := by
      rw [isEscape, hpseudo, hvalue, beq_self_eq_true]
      rfl
    obtain ⟨hbelow, hkind⟩ := hf.parent_selector hi hq hleaf.notRoot hleaf.notSelector
    obtain ⟨e', he', hqe⟩ := hf.parent hbelow (by simp [hkind])
    cases hf.linked.unique hqe he
    exact .lifted hnot he' ⟨hescape, hs, hq, hlookup⟩
  · next hlength =>
    refine .kept hnot ?_
    intro e' s' hwaits
    have hsame := hholder.symm.trans (hwaits.holder? hf.linked).1
    obtain ⟨rfl, rfl⟩ := Prod.mk.inj (Option.some.inj hsame)
    exact hlength (congrArg List.length hwaits.single)

theorem decide_locally (hmode : c.mode = .locally) (hf : Layered p.forest kids rank)
    (hlifted : ∀ x ∈ p.lifted, x.2 = false) (hi : Below kids root i)
    (hscopable : isScopable (p.forest.label i) = true) : Decides c p kids i (p.decide c i) := by
  rw [Pass.decide]
  cases hlookup : p.lifted.lookup i with
  | some d =>
    obtain ⟨l₁, l₂, hl, -⟩ := List.lookup_eq_some_iff.1 hlookup
    obtain rfl : d = false := hlifted (i, d) (hl ▸ List.mem_append_cons_self)
    have hdecided : p.lifted.lookup i ≠ none := hlookup ▸ Option.some_ne_none _
    exact .kept (fun h => hdecided h.unlifted) fun _ _ h => hdecided h.unlifted
  | none =>
    cases hholder : holder? p.forest i with
    | none =>
      refine .exposed ((exposed_iff_holder? hf.linked).2 ⟨hlookup, ?_⟩)
      intro q e hheld
      cases hholder.symm.trans hheld
    | some held =>
      obtain ⟨q, e⟩ := held
      have hheld : ∀ {q' e'}, holder? p.forest i = some (q', e') → e' = e := by
        intro q' e' hheld
        exact congrArg Prod.snd (Option.some.inj (hheld.symm.trans hholder))
      dsimp only
      split
      · next hvalue =>
        have hdecision : c.mode.scopesEscaped = false := by
          rw [hmode]
          rfl
        exact hdecision ▸ lift_locally hf hi hscopable hlookup hholder hvalue
      · next hvalue =>
        split
        · next hopaque =>
          refine .kept ?_ ?_
          · intro h
            have hplain := (((exposed_iff_holder? hf.linked).1 h).2 q e hholder).2
            cases hopaque.symm.trans hplain
          · intro e' s' hwaits
            obtain ⟨hsame, hescape⟩ := hwaits.holder? hf.linked
            exact hvalue (hheld hsame ▸ hescape)
        · next hopaque =>
          refine .exposed ((exposed_iff_holder? hf.linked).2 ⟨hlookup, ?_⟩)
          intro q' e' hsame
          exact hheld hsame ▸ ⟨hvalue, Bool.eq_false_iff.2 hopaque⟩

/-- What stands in front of `i` shows a list of labels in which `look` finds `v`. -/
def Faces {α : Type} (c : Config) (P : Label → Bool) (look : List Label → α) (p : Pass)
    (kids : Nat → List Nat) (i : Nat) (v : α) : Prop :=
  ∃ q before after js, Below kids root q ∧ kids q = before ++ i :: after ∧
    Shows (Opens c P p kids) kids before js ∧ look (js.map p.forest.label) = v

/-- The content of the escape `e` is lifted out of it. -/
structure LiftsTo (c : Config) (p : Pass) (kids : Nat → List Nat) (rank : Nat → Nat) (e s : Nat)
    (p' : Pass) : Prop where
  layered : Layered p.forest kids rank
  below : Below kids root e
  escape : isEscape c (p.forest.label e) = true
  single : kids e = [s]
  forest : p'.forest = p.forest.replaceWithChildren e s
  lifted : p'.lifted = (kids s).reverse.map (·, false) ++ p.lifted

namespace LiftsTo

theorem pseudo (h : LiftsTo c p kids rank e s p') : (p.forest.label e).isPseudo = true :=
  isPseudo_of_isEscape h.escape

theorem argument (h : LiftsTo c p kids rank e s p') : s ∈ kids e :=
  mem_of_eq_singleton h.single

theorem selector (h : LiftsTo c p kids rank e s p') : (p.forest.label s).kind = .selector :=
  h.layered.argument h.below h.pseudo h.argument

theorem argument_ne_root (h : LiftsTo c p kids rank e s p') : s ≠ root := by
  apply h.layered.ne_root
  rw [h.selector]
  exact nofun

theorem after (h : LiftsTo c p kids rank e s p') :
    Layered p'.forest (splice e s kids) rank ∧ p'.forest.size = p.forest.size ∧
      p'.forest.label = p.forest.label := by
  obtain ⟨hlayered, hsize, hlabel⟩ := h.layered.splice h.below h.pseudo h.single
  rw [h.forest]
  exact ⟨hlayered, hsize, funext hlabel⟩

theorem lookup (h : LiftsTo c p kids rank e s p') (j : Nat) :
    p'.lifted.lookup j = if j ∈ kids s then some false else p.lifted.lookup j := by
  rw [h.lifted, lookup_lifted]
  simp only [List.mem_reverse]

theorem waits_iff {e' s' k : Nat} (h : LiftsTo c p kids rank e s p') (he : Below kids root e')
    (hne : e' ≠ e) (hk : k ≠ e) :
    Waits c p' (splice e s kids) e' s' k ↔ Waits c p kids e' s' k := by
  have hlabel := h.after.2.2
  have hkids : isEscape c (p.forest.label e') = true → splice e s kids e' = kids e' := by
    intro hescape
    have hpseudo := isPseudo_of_isEscape hescape
    apply splice_of_notMem
    · rintro rfl
      exact (Label.kind_of_isPseudo hpseudo).2 h.selector
    · exact h.layered.notMem_argument he hpseudo (Label.kind_of_isPseudo h.pseudo).2
  have hother : kids e' = [s'] → s' ≠ s := by
    rintro hsingle rfl
    exact hne (h.layered.linked.unique (mem_of_eq_singleton hsingle) h.argument)
  constructor
  · intro hwaits
    have hescape := hlabel ▸ hwaits.escape
    have hsingle := (hkids hescape).symm.trans hwaits.single
    have hunlifted := hwaits.unlifted
    rw [h.lookup] at hunlifted
    split at hunlifted
    · cases hunlifted
    · next hnot =>
      rcases mem_splice.1 hwaits.inside with ⟨-, ⟨hinside, -⟩ | ⟨hmem, -⟩⟩
      · exact ⟨hescape, hsingle, hinside, hunlifted⟩
      · exact (hnot hmem).elim
  · intro hwaits
    have hss := hother hwaits.single
    refine ⟨hlabel ▸ hwaits.escape, (hkids hwaits.escape).trans hwaits.single,
      mem_splice.2 ⟨hss, .inl ⟨hwaits.inside, hk⟩⟩, ?_⟩
    rw [h.lookup, if_neg fun hmem => hss (h.layered.linked.unique hwaits.inside hmem)]
    exact hwaits.unlifted

theorem ne_of_scopable (h : LiftsTo c p kids rank e s p')
    (hj : isScopable (p.forest.label j) = true) : j ≠ e ∧ j ≠ s := by
  have hleaf := isScopable_leaf hj
  constructor
  · rintro rfl
    have hpseudo := h.pseudo
    rw [hleaf.notPseudo] at hpseudo
    cases hpseudo
  · rintro rfl
    exact hleaf.notSelector h.selector

theorem opens_iff {e' s' : Nat} (h : LiftsTo c p kids rank e s p')
    (hP : ∀ l, P l = true → isScopable l = true) (he : Below kids root e') (hne : e' ≠ e) :
    Opens c P p' (splice e s kids) e' s' ↔ Opens c P p kids e' s' := by
  have hk : ∀ {k}, P (p.forest.label k) = true → k ≠ e :=
    fun hPk => (h.ne_of_scopable (hP _ hPk)).1
  rw [Opens, Opens, h.after.2.2]
  constructor
  · rintro ⟨k, hPk, hwaits⟩
    exact ⟨k, hPk, (h.waits_iff he hne (hk hPk)).1 hwaits⟩
  · rintro ⟨k, hPk, hwaits⟩
    exact ⟨k, hPk, (h.waits_iff he hne (hk hPk)).2 hwaits⟩

theorem exposed_iff (h : LiftsTo c p kids rank e s p') (hj : Below kids root j)
    (hscopable : isScopable (p.forest.label j) = true) :
    Exposed c p' (splice e s kids) j ↔ Exposed c p kids j := by
  have hleaf := isScopable_leaf hscopable
  obtain ⟨hje, -⟩ := h.ne_of_scopable hscopable
  by_cases hjs : j ∈ kids s
  · constructor
    · intro hexposed
      have hunlifted := hexposed.unlifted
      rw [h.lookup, if_pos hjs] at hunlifted
      cases hunlifted
    · intro hexposed
      obtain ⟨-, hvalue⟩ := Bool.and_eq_true_iff.1 h.escape
      exact ((hexposed.holder s e hjs h.argument h.pseudo).1 (beq_iff_eq.1 hvalue)).elim
  · have hmem : ∀ {q}, j ∈ splice e s kids q ↔ j ∈ kids q := mem_splice_of_notMem hjs hje
    have hmem' : ∀ {q e'}, j ∈ kids q → (q ∈ splice e s kids e' ↔ q ∈ kids e') := by
      intro q e' hq
      obtain ⟨-, hkind⟩ := h.layered.parent_selector hj hq hleaf.notRoot hleaf.notSelector
      apply mem_splice_of_notMem
      · intro hmem
        exact h.layered.content (h.below.child h.argument) h.selector hmem hkind
      · rintro rfl
        exact (Label.kind_of_isPseudo h.pseudo).2 hkind
    apply exposed_congr ((h.lookup j).trans (if_neg hjs))
    · intro q e'
      rw [hmem]
      exact and_congr_right hmem'
    · exact fun _ _ => .inl (congrFun h.after.2.2 _)

theorem reach (h : LiftsTo c p kids rank e s p') (hj : Below kids root j) (hje : j ≠ e)
    (hjs : j ≠ s) : Below (splice e s kids) root j := by
  have hroot := h.layered.ne_root (Label.kind_of_isPseudo h.pseudo).1
  obtain ⟨q, -, hq⟩ := h.layered.parent h.below (Label.kind_of_isPseudo h.pseudo).1
  exact below_splice_of_ne h.layered.linked h.layered.graded hroot h.single h.argument_ne_root hq hj hje hjs

theorem faces {α : Type} {look : List Label → α} {v : α} (h : LiftsTo c p kids rank e s p')
    (hP : ∀ l, P l = true → isScopable l = true) (hopens : Opens c P p kids e s)
    (hscopable : isScopable (p.forest.label j) = true) (hexposed : Exposed c p kids j)
    (hfaces : Faces c P look p kids j v) : Faces c P look p' (splice e s kids) j v := by
  obtain ⟨q, before, after, js, hq, hsplit, hshows, hlook⟩ := hfaces
  obtain ⟨hje, -⟩ := h.ne_of_scopable hscopable
  have hmem : ∀ {k}, k ∈ before → k ∈ kids q := by
    intro k hk
    rw [hsplit]
    exact List.mem_append_left _ hk
  have hjq : j ∈ kids q := hsplit ▸ List.mem_append_cons_self
  have hqs : q ≠ s := by
    rintro rfl
    obtain ⟨-, hvalue⟩ := Bool.and_eq_true_iff.1 h.escape
    exact (hexposed.holder q e hjq h.argument h.pseudo).1 (beq_iff_eq.1 hvalue)
  have hqe : q ≠ e := by
    rintro rfl
    exact h.layered.notMem_argument h.below h.pseudo (isScopable_leaf hscopable).notSelector hjq
  have hshows' := hshows.splice h.layered.linked h.layered.graded (fun _ _ => Opens.single) hopens
    (fun e' s' he' hne => h.opens_iff hP he' hne) fun k hk => hq.child (hmem hk)
  refine ⟨q, _, after.flatMap fun k => if k = e then kids s else [k], js, h.reach hq hqe hqs, ?_,
    hshows', ?_⟩
  · rw [splice, if_neg hqs, hsplit, List.flatMap_append, List.flatMap_cons, if_neg hje]
    rfl
  · rw [h.after.2.2]
    exact hlook

theorem collect (h : LiftsTo c p kids rank e s p') (hP : ∀ l, P l = true → isScopable l = true) :
    p'.forest.collect P = p.forest.collect P := by
  obtain ⟨hlayered, -, hlabel⟩ := h.after
  have hnot : s ∉ kids root := by
    intro hmem
    have hroot := h.layered.linked.unique hmem h.argument
    exact h.layered.ne_root (Label.kind_of_isPseudo h.pseudo).1 hroot.symm
  have hfalse : ∀ {k}, isScopable (p.forest.label k) = false → P (p.forest.label k) = false := by
    intro k hk
    apply Bool.eq_false_iff.2
    intro hPk
    rw [hP _ hPk] at hk
    cases hk
  apply collect_splice h.layered.linked h.layered.graded hlayered.linked hlayered.graded h.single
    h.argument_ne_root hnot (fun j => congrFun hlabel j)
  · exact hfalse (not_isScopable_of_isPseudo h.pseudo)
  · apply hfalse
    apply Bool.eq_false_iff.2
    intro hscopable
    exact (isScopable_leaf hscopable).notSelector h.selector

end LiftsTo

/-- A class takes the place of the exposed attribute or tag `i`. -/
structure PutsTo (c : Config) (p : Pass) (kids : Nat → List Nat) (rank : Nat → Nat) (i : Nat)
    (p' : Pass) : Prop where
  layered : Layered p.forest kids rank
  below : Below kids root i
  scopable : isScopable (p.forest.label i) = true
  exposed : Exposed c p kids i
  forest : ∃ name, p'.forest = replaceByClass p.forest i name
  lifted : p'.lifted = p.lifted

namespace PutsTo

theorem after (h : PutsTo c p kids rank i p') :
    (∃ rank', Layered p'.forest (exchange i p.forest.size kids) rank') ∧
      (p'.forest.label p.forest.size).kind = .className ∧
      ∀ j < p.forest.size, p'.forest.label j = p.forest.label j := by
  obtain ⟨name, hforest⟩ := h.forest
  have hclass : (⟨.className, name, none⟩ : Label).IsLeaf := ⟨nofun, nofun, rfl⟩
  obtain ⟨hlayered, -, hlabel⟩ := h.layered.exchange h.below (isScopable_leaf h.scopable) hclass
  have hforest' : p'.forest =
      (p.forest.create ⟨.className, name, none⟩).1.replaceWith i p.forest.size := hforest
  rw [← hforest'] at hlayered hlabel
  refine ⟨hlayered, ?_, ?_⟩
  · rw [hlabel, if_pos rfl]
  · intro j hj
    rw [hlabel, if_neg (Nat.ne_of_lt hj)]

theorem childless (h : PutsTo c p kids rank i p') : kids i = [] :=
  h.layered.childless h.below (isScopable_leaf h.scopable)

theorem label (h : PutsTo c p kids rank i p') (hj : Below kids root j) :
    p'.forest.label j = p.forest.label j :=
  h.after.2.2 j (h.layered.lt hj)

theorem not_scopable (h : PutsTo c p kids rank i p') :
    isScopable (p'.forest.label p.forest.size) = false := by
  apply Bool.eq_false_iff.2
  intro hscopable
  exact ne_class_of_isScopable hscopable h.after.2.1

theorem waits_iff {k : Nat} (h : PutsTo c p kids rank i p') (he : Below kids root e) :
    Waits c p' (exchange i p.forest.size kids) e s k ↔ Waits c p kids e s k := by
  have hlabel := h.label he
  have hnot : ∀ {q}, isEscape c (p.forest.label e) = true → q ∈ kids e → i ∉ kids q := by
    intro q hescape hq hi
    obtain ⟨hpseudo, hvalue⟩ := Bool.and_eq_true_iff.1 hescape
    exact (h.exposed.holder q e hi hq hpseudo).1 (beq_iff_eq.1 hvalue)
  have hkids : isEscape c (p.forest.label e) = true →
      exchange i p.forest.size kids e = kids e := by
    intro hescape
    apply exchange_of_notMem
    exact h.layered.notMem_argument he (isPseudo_of_isEscape hescape)
      (isScopable_leaf h.scopable).notSelector
  constructor
  · rintro ⟨hescape, hsingle, hinside, hunlifted⟩
    rw [hlabel] at hescape
    rw [hkids hescape] at hsingle
    rw [exchange_of_notMem (hnot hescape (mem_of_eq_singleton hsingle))] at hinside
    exact ⟨hescape, hsingle, hinside, h.lifted ▸ hunlifted⟩
  · rintro ⟨hescape, hsingle, hinside, hunlifted⟩
    refine ⟨hlabel.symm ▸ hescape, (hkids hescape).trans hsingle, ?_, h.lifted.symm ▸ hunlifted⟩
    rwa [exchange_of_notMem (hnot hescape (mem_of_eq_singleton hsingle))]

theorem opens_iff (h : PutsTo c p kids rank i p') (he : Below kids root e) :
    Opens c P p' (exchange i p.forest.size kids) e s ↔ Opens c P p kids e s := by
  have hlabel : ∀ {k}, Waits c p kids e s k → p'.forest.label k = p.forest.label k := by
    intro k hwaits
    exact h.label ((he.child (mem_of_eq_singleton hwaits.single)).child hwaits.inside)
  constructor
  · rintro ⟨k, hPk, hwaits⟩
    have hwaits' := (h.waits_iff he).1 hwaits
    exact ⟨k, hlabel hwaits' ▸ hPk, hwaits'⟩
  · rintro ⟨k, hPk, hwaits⟩
    exact ⟨k, (hlabel hwaits).symm ▸ hPk, (h.waits_iff he).2 hwaits⟩

theorem exposed_iff (h : PutsTo c p kids rank i p') (hj : Below kids root j)
    (hscopable : isScopable (p.forest.label j) = true) (hji : j ≠ i) :
    Exposed c p' (exchange i p.forest.size kids) j ↔ Exposed c p kids j := by
  have hleaf := isScopable_leaf hscopable
  have hmem : ∀ {k q}, k < p.forest.size → k ≠ i →
      (k ∈ exchange i p.forest.size kids q ↔ k ∈ kids q) := by
    intro k q hk hki
    rw [mem_exchange]
    constructor
    · rintro (⟨hq, -⟩ | ⟨rfl, -⟩)
      · exact hq
      · exact (Nat.lt_irrefl _ hk).elim
    · intro hq
      exact .inl ⟨hq, hki⟩
  have hselector : ∀ {q}, j ∈ kids q → Below kids root q ∧ q ≠ i := by
    intro q hq
    obtain ⟨hbelow, hkind⟩ := h.layered.parent_selector hj hq hleaf.notRoot hleaf.notSelector
    refine ⟨hbelow, ?_⟩
    rintro rfl
    rw [h.childless] at hq
    cases hq
  apply exposed_congr (congrArg (List.lookup j) h.lifted)
  · intro q e
    rw [hmem (h.layered.lt hj) hji]
    apply and_congr_right
    intro hq
    obtain ⟨hbelow, hqi⟩ := hselector hq
    exact hmem (h.layered.lt hbelow) hqi
  · exact fun _ he => .inl (h.after.2.2 _ (h.layered.linked.bound he).1)

theorem reach (h : PutsTo c p kids rank i p') (hj : Below kids root j) (hji : j ≠ i) :
    Below (exchange i p.forest.size kids) root j := by
  induction hj with
  | refl => exact .refl
  | @tail q j _ hq ih =>
    apply Below.child (ih ?_) (mem_exchange.2 (.inl ⟨hq, hji⟩))
    rintro rfl
    rw [h.childless] at hq
    cases hq

/-- What a node faces looks the same to those who take no notice of the class. -/
theorem faces {α : Type} {look : List Label → α} {v : α} {V : Label → Bool}
    (h : PutsTo c p kids rank i p') (hV : V (p.forest.label i) = true)
    (hlook : ∀ ls ls', List.Forall₂ (Classed V) ls ls' → look ls' = look ls) (hji : j ≠ i)
    (hfaces : Faces c P look p kids j v) :
    Faces c P look p' (exchange i p.forest.size kids) j v := by
  obtain ⟨q, before, after, js, hq, hsplit, hshows, hv⟩ := hfaces
  have hbefore : ∀ k ∈ before, Below kids root k := by
    intro k hk
    apply hq.child
    rw [hsplit]
    exact List.mem_append_left _ hk
  have hqi : q ≠ i := by
    rintro rfl
    have hnil := h.childless
    rw [hsplit] at hnil
    exact List.append_ne_nil_of_right_ne_nil before (List.cons_ne_nil j after) hnil
  have hnew : ∀ s, ¬ Opens c P p' (exchange i p.forest.size kids) p.forest.size s := by
    rintro s ⟨k, -, hwaits⟩
    exact ne_class_of_isPseudo (isPseudo_of_isEscape hwaits.escape) h.after.2.1
  have hold : ∀ s, ¬ Opens c P p kids i s := by
    rintro s ⟨k, -, hwaits⟩
    have hpseudo := isPseudo_of_isEscape hwaits.escape
    rw [(isScopable_leaf h.scopable).notPseudo] at hpseudo
    cases hpseudo
  have hshows' := hshows.exchange (fun _ _ => Opens.single) hold hnew
    (fun e s he _ => h.opens_iff he) hbefore
  refine ⟨q, _, after.map fun k => if k = i then p.forest.size else k, _, h.reach hq hqi, ?_,
    hshows', ?_⟩
  · rw [exchange, hsplit, List.map_append, List.map_cons, if_neg hji]
  · rw [← hv]
    apply hlook
    rw [List.map_map, List.forall₂_map_left_iff, List.forall₂_map_right_iff, List.forall₂_same]
    intro k hk
    have hbelow := hshows.reach (fun _ _ => Opens.single) hbefore k hk
    by_cases hki : k = i
    · right
      subst hki
      refine ⟨hV, ?_⟩
      rw [Function.comp_apply, if_pos rfl]
      exact h.after.2.1
    · left
      rw [Function.comp_apply, if_neg hki]
      exact h.label hbelow

theorem collect (h : PutsTo c p kids rank i p') (hP : ∀ l, P l = true → isScopable l = true) :
    p'.forest.collect P = (p.forest.collect P).filter (· ≠ i) := by
  obtain ⟨⟨rank', hlayered⟩, -, hlabel⟩ := h.after
  apply collect_exchange h.layered.linked h.layered.graded hlayered.linked hlayered.graded
    h.childless hlabel
  apply Bool.eq_false_iff.2
  intro hPnew
  have hnot := h.not_scopable
  rw [hP _ hPnew] at hnot
  cases hnot

end PutsTo

end ScopedStyles.Scope
