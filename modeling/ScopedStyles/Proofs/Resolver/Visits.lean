import ScopedStyles.Proofs.Resolver.Fronts
import ScopedStyles.Proofs.Resolver.Globally

namespace ScopedStyles.Scope

open Selector Forest

variable {α : Type} {c : Config} {V P : Label → Bool} {look : List Label → α} {p p' : Pass}
  {kids kids' : Nat → List Nat} {rank : Nat → Nat} {e s i j q : Nat} {rest : List Nat}

/-- A phase has the nodes `rest` still to visit, the last of those that satisfy `V`. No other node that
satisfies `P` waits in an escape. -/
structure Ready (c : Config) (V P : Label → Bool) (p : Pass) (kids : Nat → List Nat)
    (rank : Nat → Nat) (rest : List Nat) : Prop where
  layered : Layered p.forest kids rank
  lifted : ∀ x ∈ p.lifted, x.2 = false
  order : ∃ before, p.forest.collect V = before ++ rest
  settled : ∀ k, P (p.forest.label k) = true → k ∉ rest → ∀ e s, Below kids root e →
    ¬ Waits c p kids e s k

inductive Visit (c : Config) (p : Pass) (kids : Nat → List Nat) (rank : Nat → Nat) (i : Nat) :
    Pass → (Nat → List Nat) → Prop
  | left (hwaits : ∀ e s, ¬ Waits c p kids e s i) : Visit c p kids rank i p kids
  | lifted {p' : Pass} {e s : Nat} (hwaits : Waits c p kids e s i)
    (h : LiftsTo c p kids rank e s p') : Visit c p kids rank i p' (splice e s kids)
  | put {p' : Pass} (h : PutsTo c p kids rank i p') :
    Visit c p kids rank i p' (exchange i p.forest.size kids)

/-- The node `j` has this label, it is exposed just if `free` says so, and then `look` finds `v` in front of it. -/
structure Stands (c : Config) (P : Label → Bool) (look : List Label → α) (p : Pass)
    (kids : Nat → List Nat) (j : Nat) (l : Label) (free : Bool) (v : α) : Prop where
  below : Below kids root j
  label : p.forest.label j = l
  exposed : Exposed c p kids j ↔ free = true
  faces : free = true → Faces c P look p kids j v

namespace Ready

theorem nodup (h : Ready c V P p kids rank rest) : (p.forest.collect V).Nodup :=
  (nodup_descendants h.layered.linked h.layered.graded root).filter _

theorem mem (h : Ready c V P p kids rank rest) (hi : i ∈ rest) :
    Below kids root i ∧ V (p.forest.label i) = true := by
  obtain ⟨before, hcollect⟩ := h.order
  apply of_mem_collect h.layered.linked h.layered.graded
  rw [hcollect]
  exact List.mem_append_right _ hi

theorem front {v : α} (h : Ready c V P p kids rank (i :: rest))
    (hfaces : Faces c P look p kids i v) :
    ∃ q before after, kids q = before ++ i :: after ∧ look (before.map p.forest.label) = v := by
  obtain ⟨q, before, after, js, hq, hsplit, hshows, hv⟩ := hfaces
  refine ⟨q, before, after, hsplit, ?_⟩
  have hiq : i ∈ kids q := hsplit ▸ List.mem_append_cons_self
  -- An escape in front that stands open would hold a node that is still to be visited, and such nodes
  -- come behind `i`.
  have hjs : js = before := by
    apply hshows.settled
    rintro e he s ⟨k, hPk, hwaits⟩
    have heq : e ∈ kids q := by
      rw [hsplit]
      exact List.mem_append_left _ he
    have hse := mem_of_eq_singleton hwaits.single
    have hk : k ∈ i :: rest := by
      by_contra hk
      exact h.settled k hPk hk e s (hq.child heq) hwaits
    obtain ⟨earlier, hcollect⟩ := h.order
    rcases List.mem_cons.1 hk with rfl | hk
    · cases h.layered.linked.unique hwaits.inside hiq
      exact h.layered.graded.notMem_of_child heq hse
    · exact notMem_after h.layered.linked h.layered.graded hq hsplit hcollect he
        ((Below.child .refl hse).child hwaits.inside) hk
  rw [← hv, hjs]

theorem left (h : Ready c V P p kids rank (i :: rest)) (hwaits : ∀ e s, ¬ Waits c p kids e s i) :
    Ready c V P p kids rank rest where
  layered := h.layered
  lifted := h.lifted
  order := by
    obtain ⟨before, hcollect⟩ := h.order
    exact ⟨before ++ [i], by rw [hcollect, List.append_assoc]; rfl⟩
  settled := by
    intro k hPk hk e s he
    by_cases hki : k = i
    · rw [hki]
      exact hwaits e s
    · apply h.settled k hPk _ e s he
      rw [List.mem_cons]
      rintro (heq | hmem)
      · exact hki heq
      · exact hk hmem

theorem lift (h : Ready c V P p kids rank (i :: rest)) (hV : ∀ l, V l = true → isScopable l = true)
    (hP : ∀ l, P l = true → isScopable l = true) (hwaits : Waits c p kids e s i)
    (hlifts : LiftsTo c p kids rank e s p') : Ready c V P p' (splice e s kids) rank rest := by
  obtain ⟨hlayered, -, hlabel⟩ := hlifts.after
  have hroot := h.layered.ne_root (Label.kind_of_isPseudo hlifts.pseudo).1
  constructor
  case layered => exact hlayered
  case lifted =>
    intro x hx
    rw [hlifts.lifted, List.mem_append] at hx
    rcases hx with hnew | hold
    · obtain ⟨k, -, rfl⟩ := List.mem_map.1 hnew
      rfl
    · exact h.lifted x hold
  case order =>
    obtain ⟨before, hcollect⟩ := h.order
    exact ⟨before ++ [i], by rw [hlifts.collect hV, hcollect, List.append_assoc]; rfl⟩
  case settled =>
    intro k hPk hk e' s' he' hwaits'
    obtain ⟨hbelow, hne⟩ := below_splice h.layered.graded hroot hlifts.single he'
    rw [hlabel] at hPk
    have hold := (hlifts.waits_iff hbelow hne (hlifts.ne_of_scopable (hP _ hPk)).1).1 hwaits'
    refine h.settled k hPk ?_ e' s' hbelow hold
    rw [List.mem_cons]
    rintro (rfl | hmem)
    · cases h.layered.linked.unique hold.inside hwaits.inside
      exact hne (h.layered.linked.unique (mem_of_eq_singleton hold.single) hlifts.argument)
    · exact hk hmem

theorem put (h : Ready c V P p kids rank (i :: rest)) (hV : ∀ l, V l = true → isScopable l = true)
    (hputs : PutsTo c p kids rank i p') :
    ∃ rank', Ready c V P p' (exchange i p.forest.size kids) rank' rest := by
  obtain ⟨⟨rank', hlayered⟩, hclass, -⟩ := hputs.after
  have hroot := h.layered.ne_root (isScopable_leaf hputs.scopable).notRoot
  refine ⟨rank', hlayered, ?_, ?_, ?_⟩
  · intro x hx
    rw [hputs.lifted] at hx
    exact h.lifted x hx
  · obtain ⟨before, hcollect⟩ := h.order
    have hnodup := h.nodup
    rw [hcollect] at hnodup
    obtain ⟨-, hnodup', hapart⟩ := List.nodup_append.1 hnodup
    have hbefore : before.filter (· ≠ i) = before := by
      rw [List.filter_eq_self]
      intro k hk
      exact decide_eq_true (hapart k hk i List.mem_cons_self)
    have hrest : rest.filter (· ≠ i) = rest := by
      rw [List.filter_eq_self]
      intro k hk
      apply decide_eq_true
      rintro rfl
      exact (List.nodup_cons.1 hnodup').1 hk
    refine ⟨before, ?_⟩
    rw [hputs.collect hV, hcollect, List.filter_append, List.filter_cons_of_neg (by simp), hbefore,
      hrest]
  · intro k hPk hk e s he hwaits
    rcases below_exchange h.layered.linked hroot he with ⟨hbelow, -⟩ | rfl
    · have hold := (hputs.waits_iff hbelow).1 hwaits
      rw [hputs.label ((hbelow.child (mem_of_eq_singleton hold.single)).child hold.inside)] at hPk
      refine h.settled k hPk ?_ e s hbelow hold
      rw [List.mem_cons]
      rintro (rfl | hmem)
      · exact hputs.exposed.not_waits hold
      · exact hk hmem
    · exact ne_class_of_isPseudo (isPseudo_of_isEscape hwaits.escape) hclass

end Ready

namespace Visit

theorem ready (hvisit : Visit c p kids rank i p' kids') (h : Ready c V P p kids rank (i :: rest))
    (hV : ∀ l, V l = true → isScopable l = true) (hP : ∀ l, P l = true → isScopable l = true) :
    ∃ rank', Ready c V P p' kids' rank' rest := by
  cases hvisit with
  | left hwaits => exact ⟨rank, h.left hwaits⟩
  | lifted hwaits hlifts => exact ⟨rank, h.lift hV hP hwaits hlifts⟩
  | put hputs => exact h.put hV hputs

theorem stands {v : α} {l : Label} {free : Bool} (hvisit : Visit c p kids rank i p' kids')
    (hi : V (p.forest.label i) = true) (hV : ∀ l, V l = true → P l = true)
    (hP : ∀ l, P l = true → isScopable l = true)
    (hlook : ∀ ls ls', List.Forall₂ (Classed V) ls ls' → look ls' = look ls) (hji : j ≠ i)
    (hl : isScopable l = true) (h : Stands c P look p kids j l free v) :
    Stands c P look p' kids' j l free v := by
  obtain ⟨hbelow, rfl, hexposed, hfaces⟩ := h
  cases hvisit with
  | left => exact ⟨hbelow, rfl, hexposed, hfaces⟩
  | @lifted _ e s hwaits hlifts =>
    obtain ⟨hje, hjs⟩ := hlifts.ne_of_scopable hl
    refine ⟨hlifts.reach hbelow hje hjs, congrFun hlifts.after.2.2 j,
      (hlifts.exposed_iff hbelow hl).trans hexposed, ?_⟩
    intro htrue
    exact hlifts.faces hP ⟨i, hV _ hi, hwaits⟩ hl (hexposed.2 htrue) (hfaces htrue)
  | put hputs =>
    refine ⟨hputs.reach hbelow hji, hputs.label hbelow,
      (hputs.exposed_iff hbelow hl hji).trans hexposed, ?_⟩
    intro htrue
    exact hputs.faces hi hlook hji (hfaces htrue)

theorem collect (hvisit : Visit c p kids rank i p' kids')
    (hP : ∀ l, P l = true → isScopable l = true) (hi : P (p.forest.label i) = false) :
    p'.forest.collect P = p.forest.collect P := by
  cases hvisit with
  | left => rfl
  | lifted _ hlifts => exact hlifts.collect hP
  | put hputs =>
    rw [hputs.collect hP, List.filter_eq_self]
    intro k hk
    apply decide_eq_true
    rintro rfl
    have htrue : P (p.forest.label k) = true := (List.mem_filter.1 hk).2
    rw [htrue] at hi
    cases hi

end Visit

end ScopedStyles.Scope
