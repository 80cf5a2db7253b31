import ScopedStyles.Proofs.Registry.Join
import ScopedStyles.Scope.Resolver

namespace ScopedStyles.Scope

open Selector

namespace Pass

variable {c : Config} {p : Pass} {i : Nat}

/-- The same pass over a registry that already holds `r`. -/
def onto (p : Pass) (r : Registry) : Pass :=
  { p with elements := r ⊔ p.elements }

theorem forest_onto (r : Registry) : (p.onto r).forest = p.forest := rfl

theorem lift_onto (r : Registry) (pseudo selector : Nat) (decision : Bool) :
    (p.onto r).lift pseudo selector decision = (p.lift pseudo selector decision).onto r := by
  unfold lift
  by_cases h : (p.forest.children pseudo).length = 1
  · rw [if_pos h]
    exact if_pos h
  · rw [if_neg h]
    exact if_neg h

theorem decide_onto (r : Registry) :
    (p.onto r).decide c i = ((p.decide c i).1, (p.decide c i).2.onto r) := by
  have hlifted : (p.onto r).lifted = p.lifted := rfl
  unfold Pass.decide
  rw [hlifted, forest_onto]
  cases p.lifted.lookup i with
  | some d => rfl
  | none =>
    cases holder? p.forest i with
    | none => rfl
    | some h =>
      dsimp only
      split
      · rw [lift_onto]
      split <;> rfl

theorem scopeAttribute_onto (r : Registry) :
    (p.onto r).scopeAttribute c i = (p.scopeAttribute c i).onto r := by
  unfold scopeAttribute
  rw [decide_onto, forest_onto]
  by_cases h : p.forest.isAttached i
  · rw [if_pos h, if_pos h]
    obtain ⟨d, q⟩ := p.decide c i
    cases d with
    | false => rfl
    | true =>
      change ({ q.onto r with
        forest := _, hashes := _, elements := (r ⊔ q.elements).record _ } : Pass) = _
      rw [Registry.record_sup]
      rfl
  · rw [if_neg h, if_neg h]

theorem scopeTag_onto (r : Registry) :
    (p.onto r).scopeTag c i = (p.scopeTag c i).onto r := by
  unfold scopeTag
  rw [forest_onto]
  by_cases h : p.forest.isAttached i
  · rw [if_pos h, if_pos h]
    have hdecide := decide_onto (c := c) (p := { p with forest := absorbBar p.forest i }) (i := i) r
    have habsorb : ({ p.onto r with forest := absorbBar p.forest i } : Pass) =
        ({ p with forest := absorbBar p.forest i } : Pass).onto r := rfl
    rw [habsorb, hdecide]
    obtain ⟨d, q⟩ := Pass.decide c { p with forest := absorbBar p.forest i } i
    cases d with
    | false => rfl
    | true =>
      change ({ q.onto r with forest := _, elements := (r ⊔ q.elements).record _ } : Pass) = _
      rw [Registry.record_sup]
      rfl
  · rw [if_neg h, if_neg h]

theorem foldl_onto (r : Registry) {step : Pass → Nat → Pass}
    (hstep : ∀ p i, step (p.onto r) i = (step p i).onto r) (is : List Nat) (p : Pass) :
    is.foldl step (p.onto r) = (is.foldl step p).onto r := by
  induction is generalizing p with
  | nil => rfl
  | cons i is ih => rw [List.foldl_cons, List.foldl_cons, hstep, ih]

end Pass

/-- Scoping over a registry is scoping over the empty one, with the registry joined in. -/
theorem scopeForest_onto (c : Config) (m : Memory) (f : Forest) :
    scopeForest c m f = (scopeForest c .empty f).onto m.elements := by
  have hstart : (⟨m.refresh, f⟩ : Pass) =
      (⟨Memory.empty.refresh, f⟩ : Pass).onto m.elements := by
    change (⟨⟨m.elements, ∅, []⟩, f⟩ : Pass) = ⟨⟨m.elements ⊔ ∅, ∅, []⟩, f⟩
    rw [OrderedMap.sup_empty]
  unfold scopeForest
  rw [hstart]
  -- a visit writes to the registry and never reads it
  unfold Pass.scopeAttributes Pass.scopeTags
  rw [Pass.forest_onto, Pass.foldl_onto _ fun _ _ => Pass.scopeAttribute_onto _]
  dsimp only
  rw [Pass.forest_onto, Pass.foldl_onto _ fun _ _ => Pass.scopeTag_onto _]
  rfl

namespace Resolver

def answer (c : Config) (rule : String) : Except Error (String × TextSet) :=
  ((new c).run rule).map fun r => (r.1, r.2.hashes)

/-- The elements that a rule shows to a new resolver. A rejected rule shows none. -/
def contribution (c : Config) (rule : String) : Registry :=
  match (new c).run rule with
  | .ok (_, r) => r.elements
  | .error _ => ∅

/-- What a caller sees of a run: the text with the attribute hashes, or the error. -/
def step (r : Resolver) (rule : String) : Except Error (String × TextSet) × Resolver :=
  match r.run rule with
  | .ok (out, r') => (.ok (out, r'.hashes), r')
  | .error e => (.error e, r)

def session (r : Resolver) : List String → List (Except Error (String × TextSet)) × Resolver
  | [] => ([], r)
  | rule :: rules =>
    let (seen, r) := r.step rule
    let (later, r) := r.session rules
    (seen :: later, r)

theorem run_of_rejected (r : Resolver) {rule : String} {e : Error} (h : parse rule = .error e) :
    r.run rule = .error e := by
  unfold run
  rw [h]
  rfl

theorem run_of_parsed (r : Resolver) {rule : String} {t : Tree} (h : parse rule = .ok t) :
    r.run rule = .ok (((r.transform (.ofTree t)).1.tree Forest.root).render,
      (r.transform (.ofTree t)).2) := by
  unfold run
  rw [h]
  rfl

theorem transform_fst (r : Resolver) (f : Forest) :
    (r.transform f).1 = ((new r.config).transform f).1 := by
  change (scopeForest r.config r.toMemory f).forest = (scopeForest r.config .empty f).forest
  rw [scopeForest_onto]
  rfl

theorem transform_hashes (r : Resolver) (f : Forest) :
    (r.transform f).2.hashes = ((new r.config).transform f).2.hashes := by
  change (scopeForest r.config r.toMemory f).hashes = (scopeForest r.config .empty f).hashes
  rw [scopeForest_onto]
  rfl

theorem transform_elements (r : Resolver) (f : Forest) :
    (r.transform f).2.elements = r.elements ⊔ ((new r.config).transform f).2.elements := by
  change (scopeForest r.config r.toMemory f).elements =
    r.elements ⊔ (scopeForest r.config .empty f).elements
  rw [scopeForest_onto]
  rfl

theorem step_spec (r : Resolver) (rule : String) :
    (r.step rule).1 = answer r.config rule ∧
      (r.step rule).2.config = r.config ∧
      (r.step rule).2.elements = r.elements ⊔ contribution r.config rule := by
  unfold step answer contribution
  cases h : parse rule with
  | error e =>
    rw [run_of_rejected r h, run_of_rejected _ h]
    exact ⟨rfl, rfl, (OrderedMap.sup_empty _).symm⟩
  | ok t =>
    rw [run_of_parsed r h, run_of_parsed _ h]
    dsimp only [Except.map]
    rw [transform_fst r, transform_hashes r, transform_elements r]
    exact ⟨rfl, rfl, rfl⟩

theorem session_spec (r : Resolver) (rules : List String) :
    (r.session rules).1 = rules.map (answer r.config) ∧
      (r.session rules).2.elements =
        rules.foldl (fun known rule => known ⊔ contribution r.config rule) r.elements := by
  induction rules generalizing r with
  | nil => exact ⟨rfl, rfl⟩
  | cons rule rules ih =>
    obtain ⟨hseen, hconfig, helements⟩ := r.step_spec rule
    obtain ⟨hlater, hfinal⟩ := ih (r.step rule).2
    rw [hconfig] at hlater hfinal
    constructor
    · change (r.step rule).1 :: ((r.step rule).2.session rules).1 = _
      rw [hseen, hlater]
      rfl
    · change ((r.step rule).2.session rules).2.elements = _
      rw [hfinal, helements]
      rfl

/-- In a session each rule is answered as by a new resolver, whatever is remembered, and the registry
ends as the join of the first one with one contribution per rule. Order and repetition of the rules
do not matter to it, nothing it knew is lost, and a rejected rule changes nothing. -/
theorem session_independent (r : Resolver) (rules : List String) :
    (r.session rules).1 = rules.map (answer r.config) ∧
      (∀ (m : Memory) (rule : String), (step ⟨m, r.config⟩ rule).1 = answer r.config rule) ∧
      (r.session rules).2.elements =
        rules.foldl (fun known rule => known ⊔ contribution r.config rule) r.elements ∧
      (∀ others : List String, (∀ rule, rule ∈ others ↔ rule ∈ rules) →
        (r.session others).1 = others.map (answer r.config) ∧
          (r.session others).2.elements = (r.session rules).2.elements) ∧
      (∀ s, r.elements.Knows s → (r.session rules).2.elements.Knows s) ∧
      ∀ rule e, parse rule = .error e →
        r.step rule = (.error e, r) ∧ contribution r.config rule = ∅ := by
  obtain ⟨hseen, hfinal⟩ := r.session_spec rules
  refine ⟨hseen, fun m rule => (step_spec ⟨m, r.config⟩ rule).1, hfinal, ?_, ?_, ?_⟩
  · intro others hsame
    obtain ⟨hseen', hfinal'⟩ := r.session_spec others
    rw [hfinal, hfinal']
    exact ⟨hseen', Registry.foldl_sup_congr hsame⟩
  · intro s hs
    obtain ⟨hle, -⟩ := Registry.foldl_sup_le.1 (le_refl (rules.foldl
      (fun known rule => known ⊔ contribution r.config rule) r.elements))
    rw [hfinal, ← sup_eq_right.2 hle]
    exact hs.sup_left _
  · intro rule e h
    unfold step contribution
    rw [run_of_rejected r h, run_of_rejected _ h]
    exact ⟨rfl, rfl⟩

end Resolver

end ScopedStyles.Scope
