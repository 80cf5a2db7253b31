import ScopedStyles.Proofs.Forest.Planting
import ScopedStyles.Proofs.Selector.Layers

namespace ScopedStyles.Forest

open Selector

variable {f : Forest} {kids : Nat → List Nat} {rank : Nat → Nat} {p q i j c s : Nat}

/-- What is below the root forms a layered tree. -/
structure Layered (f : Forest) (kids : Nat → List Nat) (rank : Nat → Nat) : Prop where
  linked : Linked f kids
  graded : Graded f kids rank
  bound : root < f.size
  rooted : (f.label root).kind = .root
  nests : ∀ {p i}, Below kids root p → i ∈ kids p → (f.label p).Nests (f.label i)

namespace Layered

theorem lt (h : Layered f kids rank) (hi : Below kids root i) : i < f.size :=
  hi.lt h.linked h.bound

theorem parent (h : Layered f kids rank) (hi : Below kids root i)
    (hkind : (f.label i).kind ≠ .root) : ∃ p, Below kids root p ∧ i ∈ kids p := by
  rcases hi.cases_child with rfl | hparent
  · exact (hkind h.rooted).elim
  · exact hparent

theorem parent_selector (h : Layered f kids rank) (hi : Below kids root i) (hmem : i ∈ kids p)
    (hkind : (f.label i).kind ≠ .root) (hselector : (f.label i).kind ≠ .selector) :
    Below kids root p ∧ (f.label p).kind = .selector := by
  obtain ⟨q, hq, hiq⟩ := h.parent hi hkind
  have hpq := h.linked.unique hmem hiq
  subst hpq
  exact ⟨hq, (h.nests hq hmem).above hselector⟩

theorem childless (h : Layered f kids rank) (hi : Below kids root i)
    (hleaf : (f.label i).IsLeaf) : kids i = [] := by
  apply List.eq_nil_iff_forall_not_mem.2
  intro j hj
  obtain ⟨-, hroot | hpseudo⟩ := (h.nests hi hj).below hleaf.notSelector
  · exact hleaf.notRoot hroot
  · rw [hleaf.notPseudo] at hpseudo
    cases hpseudo

theorem argument (h : Layered f kids rank) (hi : Below kids root i)
    (hpseudo : (f.label i).isPseudo = true) (hj : j ∈ kids i) : (f.label j).kind = .selector := by
  exact ((h.nests hi hj).below (Label.kind_of_isPseudo hpseudo).2).1

theorem notMem_argument (h : Layered f kids rank) (hj : Below kids root j)
    (hpseudo : (f.label j).isPseudo = true) (hi : (f.label i).kind ≠ .selector) : i ∉ kids j :=
  fun hmem => hi (h.argument hj hpseudo hmem)

theorem content (h : Layered f kids rank) (hp : Below kids root p)
    (hkind : (f.label p).kind = .selector) (hi : i ∈ kids p) : (f.label i).kind ≠ .selector := by
  intro hselector
  have hnests := h.nests hp hi
  unfold Label.Nests at hnests
  rw [hselector] at hnests
  rcases hnests with hroot | hpseudo
  · rw [hkind] at hroot
    cases hroot
  · exact (Label.kind_of_isPseudo hpseudo).2 hkind

end Layered

theorem all_below {P : Label → Prop} (h : Linked f kids) (hg : Graded f kids rank)
    (hroot : root < f.size) (ht : (f.tree root).All P) (hi : Below kids root i) :
    (f.tree i).All P := by
  induction hi with
  | refl => exact ht
  | @tail p i hp hi ih =>
    rw [tree_eq h hg (Below.lt h hp hroot)] at ih
    exact ih.children _ (List.mem_map_of_mem hi)

/-- Links that show a layered tree. -/
theorem layered_of_tree (h : Linked f kids) (hg : Graded f kids rank) (hroot : root < f.size)
    (hkind : (f.label root).kind = .root) (ht : (f.tree root).Layered) : Layered f kids rank := by
  have htree : ∀ {i}, Below kids root i → (f.tree i).Layered := by
    intro i hi
    induction hi with
    | refl => exact ht
    | @tail p i hp hi ih =>
      rw [tree_eq h hg (Below.lt h hp hroot)] at ih
      cases ih with
      | node _ hts => exact hts _ (List.mem_map_of_mem hi)
  refine ⟨h, hg, hroot, hkind, ?_⟩
  intro p i hp hi
  have hlayered := htree hp
  rw [tree_eq h hg (hp.lt h hroot)] at hlayered
  cases hlayered with
  | node hnests _ =>
    have hlabel : (f.tree i).label = f.label i := by
      rw [tree_eq h hg (h.bound hi).2]
      rfl
    have hchild := hnests _ (List.mem_map_of_mem hi)
    rwa [hlabel] at hchild

theorem mem_of_eq_singleton (hs : kids i = [s]) : s ∈ kids i := by
  rw [hs]
  exact List.mem_singleton_self s

def exchange (i c : Nat) (kids : Nat → List Nat) (q : Nat) : List Nat :=
  (kids q).map fun x => if x = i then c else x

theorem map_exchange_of_notMem {l : List Nat} (h : i ∉ l) :
    (l.map fun x => if x = i then c else x) = l := by
  refine (List.map_congr_left fun x hx => ?_).trans (List.map_id l)
  exact if_neg fun heq : x = i => h (heq ▸ hx)

theorem exchange_of_notMem (h : i ∉ kids q) : exchange i c kids q = kids q :=
  map_exchange_of_notMem h

theorem mem_exchange : j ∈ exchange i c kids q ↔ j ∈ kids q ∧ j ≠ i ∨ j = c ∧ i ∈ kids q := by
  unfold exchange
  rw [List.mem_map]
  constructor
  · rintro ⟨x, hx, rfl⟩
    by_cases hxi : x = i
    · rw [if_pos hxi]
      exact .inr ⟨rfl, hxi ▸ hx⟩
    · rw [if_neg hxi]
      exact .inl ⟨hx, hxi⟩
  · rintro (⟨hj, hne⟩ | ⟨rfl, hi⟩)
    · exact ⟨j, hj, if_neg hne⟩
    · exact ⟨i, hi, if_pos rfl⟩

theorem Linked.exchange_eq (h : Linked f kids) {a b : List Nat} (hp : kids p = a ++ i :: b) :
    exchange i c kids = Function.update kids p (a ++ c :: b) := by
  funext q
  by_cases hq : q = p
  · subst hq
    have hnodup := h.nodup q
    rw [hp] at hnodup
    have ha : i ∉ a := by grind
    have hb : i ∉ b := by grind
    unfold exchange
    rw [Function.update_self, hp, List.map_append, List.map_cons, if_pos rfl,
      map_exchange_of_notMem ha, map_exchange_of_notMem hb]
  · rw [Function.update_of_ne hq]
    refine exchange_of_notMem fun hmem => hq (h.unique hmem ?_)
    rw [hp]
    simp

theorem parent_exchange {f' : Forest} (hf : Linked f kids) (hf' : Linked f' (exchange i c kids))
    (hji : j ≠ i) (hjc : j ≠ c) : (f'.get j).parent = (f.get j).parent := by
  apply hf.parent_congr hf'
  intro q
  rw [mem_exchange]
  constructor
  · rintro (⟨hj, -⟩ | ⟨hj, -⟩)
    · exact hj
    · exact (hjc hj).elim
  · intro hj
    exact .inl ⟨hj, hji⟩

/-- The content of `s` in the place of `i`. -/
def splice (i s : Nat) (kids : Nat → List Nat) (q : Nat) : List Nat :=
  if q = s then [] else (kids q).flatMap fun x => if x = i then kids s else [x]

theorem flatMap_splice_of_notMem {l m : List Nat} (h : i ∉ l) :
    (l.flatMap fun x => if x = i then m else [x]) = l := by
  have hsame : (l.flatMap fun x => if x = i then m else [x]) = l.flatMap fun x => [x] := by
    apply List.flatMap_congr
    intro x hx
    exact if_neg fun heq : x = i => h (heq ▸ hx)
  rw [hsame, List.flatMap_singleton']

theorem splice_of_notMem (hq : q ≠ s) (h : i ∉ kids q) : splice i s kids q = kids q :=
  (if_neg hq).trans (flatMap_splice_of_notMem h)

theorem mem_splice :
    j ∈ splice i s kids q ↔ q ≠ s ∧ (j ∈ kids q ∧ j ≠ i ∨ j ∈ kids s ∧ i ∈ kids q) := by
  unfold splice
  by_cases hq : q = s
  · simp [hq]
  · rw [if_neg hq, List.mem_flatMap]
    constructor
    · rintro ⟨x, hx, hj⟩
      by_cases hxi : x = i
      · rw [if_pos hxi] at hj
        exact ⟨hq, .inr ⟨hj, hxi ▸ hx⟩⟩
      · rw [if_neg hxi] at hj
        rw [List.mem_singleton.1 hj]
        exact ⟨hq, .inl ⟨hx, hxi⟩⟩
    · rintro ⟨-, ⟨hj, hne⟩ | ⟨hj, hi⟩⟩
      · exact ⟨j, hj, by rw [if_neg hne]; exact List.mem_singleton_self j⟩
      · exact ⟨i, hi, by rw [if_pos rfl]; exact hj⟩

theorem mem_splice_of_notMem (hs : j ∉ kids s) (hi : j ≠ i) :
    j ∈ splice i s kids q ↔ j ∈ kids q := by
  rw [mem_splice]
  constructor
  · rintro ⟨-, ⟨hq, -⟩ | ⟨hmem, -⟩⟩
    · exact hq
    · exact (hs hmem).elim
  · intro hq
    refine ⟨?_, .inl ⟨hq, hi⟩⟩
    rintro rfl
    exact hs hq

theorem parent_splice {f' : Forest} (hf : Linked f kids) (hf' : Linked f' (splice i s kids))
    (hjs : j ∉ kids s) (hji : j ≠ i) : (f'.get j).parent = (f.get j).parent := by
  apply hf.parent_congr hf'
  intro q
  rw [mem_splice]
  constructor
  · rintro ⟨-, ⟨hj, -⟩ | ⟨hj, -⟩⟩
    · exact hj
    · exact (hjs hj).elim
  · intro hj
    refine ⟨?_, .inl ⟨hj, hji⟩⟩
    intro heq
    subst heq
    exact hjs hj

theorem Linked.splice_eq (h : Linked f kids) {a b : List Nat} (hp : kids p = a ++ i :: b)
    (hsp : s ≠ p) :
    splice i s kids = Function.update (Function.update kids s []) p (a ++ kids s ++ b) := by
  funext q
  by_cases hq : q = p
  · subst hq
    have hnodup := h.nodup q
    rw [hp] at hnodup
    have ha : i ∉ a := by grind
    have hb : i ∉ b := by grind
    unfold splice
    rw [Function.update_self, if_neg hsp.symm, hp, List.flatMap_append, List.flatMap_cons,
      if_pos rfl, flatMap_splice_of_notMem ha, flatMap_splice_of_notMem hb, List.append_assoc]
  · rw [Function.update_of_ne hq]
    by_cases hqs : q = s
    · subst hqs
      rw [Function.update_self]
      exact if_pos rfl
    · rw [Function.update_of_ne hqs]
      refine splice_of_notMem hqs fun hmem => hq (h.unique hmem ?_)
      rw [hp]
      simp

theorem below_exchange (h : Linked f kids) (hi : i ≠ root)
    (hj : Below (exchange i f.size kids) root j) : Below kids root j ∧ j ≠ i ∨ j = f.size := by
  induction hj with
  | refl => exact .inl ⟨.refl, hi.symm⟩
  | tail _ hmem ih =>
    rcases mem_exchange.1 hmem with ⟨hmem, hne⟩ | ⟨rfl, -⟩
    · rcases ih with ⟨hq, -⟩ | rfl
      · exact .inl ⟨hq.child hmem, hne⟩
      · rw [h.kids_size] at hmem
        cases hmem
    · exact .inr rfl

theorem below_splice (hg : Graded f kids rank) (hi : i ≠ root) (hs : kids i = [s])
    (hj : Below (splice i s kids) root j) : Below kids root j ∧ j ≠ i := by
  have hsi := mem_of_eq_singleton hs
  induction hj with
  | refl => exact ⟨.refl, hi.symm⟩
  | tail _ hmem ih =>
    rcases mem_splice.1 hmem with ⟨-, ⟨hmem, hne⟩ | ⟨hcontent, hiq⟩⟩
    · exact ⟨ih.1.child hmem, hne⟩
    · refine ⟨((ih.1.child hiq).child hsi).child hcontent, ?_⟩
      intro heq
      subst heq
      have hlt := hg.above hcontent
      have hlt' := hg.above hsi
      omega

/-- All nodes but the pseudo and its argument stay below the root. -/
theorem below_splice_of_ne (hf : Linked f kids) (hg : Graded f kids rank) (hi : i ≠ root)
    (hs : kids i = [s]) (hsroot : s ≠ root) (hp : i ∈ kids p) (hj : Below kids root j) :
    j ≠ i → j ≠ s → Below (splice i s kids) root j := by
  have hsi := mem_of_eq_singleton hs
  have hlt := hg.above hp
  have hlt' := hg.above hsi
  have hps : p ≠ s := by
    intro heq
    subst heq
    omega
  -- The two that go are replaced by the place where the pseudo stood.
  have hall : (j ≠ i → j ≠ s → Below (splice i s kids) root j) ∧
      (j = i ∨ j = s → Below (splice i s kids) root p) := by
    induction hj with
    | refl => exact ⟨fun _ _ => .refl, fun h => (h.elim hi.symm hsroot.symm).elim⟩
    | @tail q j _ hmem ih =>
      obtain ⟨ihother, ihplace⟩ := ih
      constructor
      · intro hji hjs
        by_cases hqs : q = s
        · subst hqs
          exact (ihplace (.inr rfl)).child (mem_splice.2 ⟨hps, .inr ⟨hmem, hp⟩⟩)
        · have hqi : q ≠ i := by
            intro heq
            subst heq
            rw [hs] at hmem
            exact hjs (List.mem_singleton.1 hmem)
          exact (ihother hqi hqs).child (mem_splice.2 ⟨hqs, .inl ⟨hmem, hji⟩⟩)
      · rintro (rfl | rfl)
        · have hqp := hf.unique hmem hp
          subst hqp
          refine ihother ?_ hps
          intro heq
          subst heq
          omega
        · exact ihplace (.inl (hf.unique hmem hsi))
  exact hall.1

namespace Layered

variable {l : Label}

theorem ne_root (h : Layered f kids rank) (hkind : (f.label i).kind ≠ .root) : i ≠ root := by
  intro heq
  subst heq
  exact hkind h.rooted

theorem exchange (h : Layered f kids rank) (hi : Below kids root i) (hleaf : (f.label i).IsLeaf)
    (hl : l.IsLeaf) :
    (∃ rank', Layered ((f.create l).1.replaceWith i f.size) (exchange i f.size kids) rank') ∧
      ((f.create l).1.replaceWith i f.size).size = f.size + 1 ∧
      ∀ j, ((f.create l).1.replaceWith i f.size).label j = if j = f.size then l else f.label j := by
  obtain ⟨p, hp, hmem⟩ := h.parent hi hleaf.notRoot
  obtain ⟨a, b, hsplit⟩ := List.append_of_mem hmem
  have hcreated : (f.create l).1.size = f.size + 1 := size_create l
  obtain ⟨hlinked, hsize, hlabel⟩ :=
    (h.linked.create l).replaceWith hsplit h.linked.notMem_size (by omega)
  rw [← h.linked.exchange_eq hsplit] at hlinked
  have hlabel' : ∀ j, ((f.create l).1.replaceWith i f.size).label j =
      if j = f.size then l else f.label j := by
    intro j
    rw [hlabel]
    unfold label
    rw [get_create]
    split
    · rfl
    · rfl
  have hroot : i ≠ root := h.ne_root hleaf.notRoot
  refine ⟨⟨fun j => if j = f.size then rank i else rank j, hlinked, ⟨?_, ?_⟩, ?_, ?_, ?_⟩,
    hsize.trans hcreated, hlabel'⟩
  · intro q j hj
    rcases mem_exchange.1 hj with ⟨hj, -⟩ | ⟨rfl, hiq⟩
    · obtain ⟨hqs, hjs⟩ := h.linked.bound hj
      rw [if_neg (Nat.ne_of_lt hqs), if_neg (Nat.ne_of_lt hjs)]
      exact h.graded.above hj
    · obtain ⟨hqs, -⟩ := h.linked.bound hiq
      rw [if_neg (Nat.ne_of_lt hqs), if_pos rfl]
      exact h.graded.above hiq
  · intro j hj
    rw [hsize, hcreated] at hj ⊢
    split
    · exact Nat.lt_succ_of_lt (h.graded.bound (h.lt hi))
    · next hne => exact Nat.lt_succ_of_lt (h.graded.bound (by omega))
  · rw [hsize, hcreated]
    exact Nat.lt_succ_of_lt h.bound
  · rw [hlabel', if_neg (Nat.ne_of_lt h.bound)]
    exact h.rooted
  · intro q j hq hj
    have hqs : q < f.size := by
      rcases mem_exchange.1 hj with ⟨hj, -⟩ | ⟨-, hiq⟩
      · exact (h.linked.bound hj).1
      · exact (h.linked.bound hiq).1
    have hq' : Below kids root q := by
      rcases below_exchange h.linked hroot hq with ⟨hq, -⟩ | rfl
      · exact hq
      · exact (Nat.lt_irrefl _ hqs).elim
    rw [hlabel', hlabel', if_neg (Nat.ne_of_lt hqs)]
    rcases mem_exchange.1 hj with ⟨hj, -⟩ | ⟨rfl, hiq⟩
    · rw [if_neg (Nat.ne_of_lt (h.linked.bound hj).2)]
      exact h.nests hq' hj
    · rw [if_pos rfl]
      exact Label.nests_of_component hl.notRoot hl.notSelector
        ((h.nests hq' hiq).above hleaf.notSelector)

/-- The content of its only argument takes the place of a pseudo. -/
theorem splice (h : Layered f kids rank) (hi : Below kids root i)
    (hpseudo : (f.label i).isPseudo = true) (hs : kids i = [s]) :
    Layered (f.replaceWithChildren i s) (splice i s kids) rank ∧
      (f.replaceWithChildren i s).size = f.size ∧
      ∀ j, (f.replaceWithChildren i s).label j = f.label j := by
  have hsi := mem_of_eq_singleton hs
  obtain ⟨hkind, hkind'⟩ := Label.kind_of_isPseudo hpseudo
  obtain ⟨p, hp, hmem⟩ := h.parent hi hkind
  obtain ⟨a, b, hsplit⟩ := List.append_of_mem hmem
  have hsp : s ≠ p := by
    intro heq
    subst heq
    have hlt := h.graded.above hmem
    have hlt' := h.graded.above hsi
    omega
  obtain ⟨hlinked, hsize, hlabel⟩ := h.linked.replaceWithChildren hsplit hsp
  rw [← h.linked.splice_eq hsplit hsp] at hlinked
  have hroot : i ≠ root := h.ne_root hkind
  have hselector := h.argument hi hpseudo hsi
  refine ⟨⟨hlinked, ⟨?_, ?_⟩, ?_, ?_, ?_⟩, hsize, hlabel⟩
  · intro q j hj
    rcases mem_splice.1 hj with ⟨-, ⟨hj, -⟩ | ⟨hj, hiq⟩⟩
    · exact h.graded.above hj
    · have hlt := h.graded.above hiq
      have hlt' := h.graded.above hsi
      have hlt'' := h.graded.above hj
      omega
  · intro j hj
    rw [hsize] at hj ⊢
    exact h.graded.bound hj
  · rw [hsize]
    exact h.bound
  · rw [hlabel]
    exact h.rooted
  · intro q j hq hj
    have hq' := (below_splice h.graded hroot hs hq).1
    rw [hlabel, hlabel]
    rcases mem_splice.1 hj with ⟨-, ⟨hj, -⟩ | ⟨hj, hiq⟩⟩
    · exact h.nests hq' hj
    · have hnests := h.nests (hi.child hsi) hj
      refine Label.nests_of_component ?_ ?_ ((h.nests hq' hiq).above hkind')
      · intro hroot
        unfold Label.Nests at hnests
        rw [hroot] at hnests
        exact hnests
      · exact h.content (hi.child hsi) hselector hj

end Layered

end ScopedStyles.Forest
