import ScopedStyles.Proofs.Resolver.Static

namespace ScopedStyles.Scope

open Selector

def replacement (c : Config) (l : Label) : Label :=
  ⟨.className,
    if l.isAttribute then attributeClass c l else "__" ++ scopedName c l.ns l.value, none⟩

/-- The nodes of a forest become these trees if each attribute or tag `i` is scoped as `D i` says and
all escapes with one argument are unwrapped. -/
inductive Becomes (c : Config) (D : Nat → Bool) (label : Nat → Label) (kids : Nat → List Nat) :
    List Nat → List Tree → Prop
  | nil : Becomes c D label kids [] []
  | classed {i : Nat} {is : List Nat} {ts : List Tree} (hi : isScopable (label i) = true)
    (hD : D i = true) (hrest : Becomes c D label kids is ts) :
    Becomes c D label kids (i :: is) (.node (replacement c (label i)) [] :: ts)
  | unwrapped {i s : Nat} {is : List Nat} {us ts : List Tree} (hi : isEscape c (label i) = true)
    (hs : kids i = [s]) (hcontent : Becomes c D label kids (kids s) us)
    (hrest : Becomes c D label kids is ts) : Becomes c D label kids (i :: is) (us ++ ts)
  | kept {i : Nat} {is : List Nat} {us ts : List Tree}
    (hi : isScopable (label i) = true → D i = false)
    (hescape : isEscape c (label i) = true → ∀ s, kids i ≠ [s])
    (hinner : Becomes c D label kids (kids i) us) (hrest : Becomes c D label kids is ts) :
    Becomes c D label kids (i :: is) (.node (label i) us :: ts)

namespace Becomes

variable {c : Config} {D : Nat → Bool} {label : Nat → Label} {kids : Nat → List Nat}

theorem append {is js : List Nat} {us ts : List Tree} (h : Becomes c D label kids is us)
    (h' : Becomes c D label kids js ts) : Becomes c D label kids (is ++ js) (us ++ ts) := by
  induction h with
  | nil => exact h'
  | classed hi hD _ ih => exact .classed hi hD ih
  | unwrapped hi hs hcontent _ _ ih =>
    rw [List.append_assoc]
    exact .unwrapped hi hs hcontent ih
  | kept hi hescape hinner _ _ ih => exact .kept hi hescape hinner ih

theorem selector {s : Nat} {ts : List Tree} (h : Becomes c D label kids [s] ts)
    (hs : (label s).kind = .selector) :
    ∃ us, ts = [.node (label s) us] ∧ Becomes c D label kids (kids s) us := by
  cases h with
  | classed hi =>
    unfold isScopable Label.isAttribute Label.isTag at hi
    rw [hs] at hi
    cases hi
  | unwrapped hi =>
    unfold isEscape Label.isPseudo at hi
    rw [hs] at hi
    cases hi
  | kept _ _ hinner hrest =>
    cases hrest with
    | nil => exact ⟨_, rfl, hinner⟩

end Becomes

section Forest

variable {c : Config} {D : Nat → Bool} {f : Forest} {kids : Nat → List Nat} {rank : Nat → Nat}
  {is : List Nat} {ts : List Tree} {i s : Nat}

open Forest

theorem Becomes.settled (h : Becomes c D f.label kids is ts) (hf : Layered f kids rank)
    (his : ∀ i ∈ is, Below kids root i)
    (hscoped : ∀ i, Below kids root i → isScopable (f.label i) = true → D i = false)
    (hescape : ∀ i, Below kids root i → isEscape c (f.label i) = true → ∀ s, kids i ≠ [s]) :
    ts = is.map f.tree := by
  induction h with
  | nil => rfl
  | classed hi hD _ _ =>
    rw [hscoped _ (his _ List.mem_cons_self) hi] at hD
    cases hD
  | unwrapped hi hs _ _ _ _ => exact (hescape _ (his _ List.mem_cons_self) hi _ hs).elim
  | @kept i is us ts hi _ _ _ ihinner ihrest =>
    have hbelow := his i List.mem_cons_self
    have hinner := ihinner fun j hj => hbelow.child hj
    have hrest := ihrest fun j hj => his j (List.mem_cons_of_mem _ hj)
    rw [List.map_cons, tree_eq hf.linked hf.graded (hf.lt hbelow), hinner, hrest]

/-- What the nodes become is the same after one of them has been replaced by its class. -/
theorem Becomes.exchange {label' : Nat → Label} (h : Becomes c D f.label kids is ts)
    (hf : Layered f kids rank) (hi : Below kids root i) (hscopable : isScopable (f.label i) = true)
    (hD : D i = true)
    (hlabel : ∀ j, label' j = if j = f.size then replacement c (f.label i) else f.label j)
    (his : ∀ j ∈ is, Below kids root j) :
    Becomes c D label' (Forest.exchange i f.size kids)
      (is.map fun x => if x = i then f.size else x) ts := by
  have hnew : Becomes c D label' (Forest.exchange i f.size kids)
      (Forest.exchange i f.size kids f.size) [] := by
    unfold Forest.exchange
    rw [hf.linked.kids_size]
    exact .nil
  have hleaf : kids i = [] := hf.childless hi (isScopable_leaf hscopable)
  have hold : ∀ {j}, Below kids root j → label' j = f.label j := by
    intro j hj
    rw [hlabel, if_neg (Nat.ne_of_lt (hf.lt hj))]
  induction h with
  | nil => exact .nil
  | @classed j is ts hj hDj _ ih =>
    have hbelow := his j List.mem_cons_self
    have hrest := ih fun j hj => his j (List.mem_cons_of_mem _ hj)
    rw [List.map_cons]
    by_cases hji : j = i
    · subst hji
      rw [if_pos rfl]
      have hself : label' f.size = replacement c (f.label j) := by rw [hlabel, if_pos rfl]
      rw [← hself]
      refine .kept ?_ ?_ hnew hrest
      · rw [hself]
        nofun
      · rw [hself]
        nofun
    · rw [if_neg hji, ← hold hbelow]
      exact .classed ((hold hbelow).symm ▸ hj) hDj hrest
  | @unwrapped j s is us ts hj hs _ _ ihcontent ihrest =>
    have hbelow := his j List.mem_cons_self
    have hrest := ihrest fun j hj => his j (List.mem_cons_of_mem _ hj)
    have hsj := mem_of_eq_singleton hs
    have hcontent := ihcontent fun k hk => (hbelow.child hsj).child hk
    have hji : j ≠ i := by
      intro heq
      subst heq
      rw [hleaf] at hsj
      cases hsj
    have hsi : s ≠ i := by
      intro heq
      subst heq
      exact hf.notMem_argument hbelow (isPseudo_of_isEscape hj)
        (isScopable_leaf hscopable).notSelector hsj
    have hs' : Forest.exchange i f.size kids j = [s] := by
      unfold Forest.exchange
      rw [hs, List.map_singleton, if_neg hsi]
    rw [List.map_cons, if_neg hji]
    exact .unwrapped ((hold hbelow).symm ▸ hj) hs' hcontent hrest
  | @kept j is us ts hj hescape _ _ ihinner ihrest =>
    have hbelow := his j List.mem_cons_self
    have hrest := ihrest fun j hj => his j (List.mem_cons_of_mem _ hj)
    have hinner := ihinner fun k hk => hbelow.child hk
    have hji : j ≠ i := by
      intro heq
      subst heq
      rw [hj hscopable] at hD
      cases hD
    rw [List.map_cons, if_neg hji, ← hold hbelow]
    refine .kept ?_ ?_ hinner hrest
    · rw [hold hbelow]
      exact hj
    · rw [hold hbelow]
      intro hpseudo s hs
      have hnot := hf.notMem_argument hbelow (isPseudo_of_isEscape hpseudo)
        (isScopable_leaf hscopable).notSelector
      rw [exchange_of_notMem hnot] at hs
      exact hescape hpseudo s hs

theorem Becomes.splice (h : Becomes c D f.label kids is ts) (hf : Layered f kids rank)
    (hi : Below kids root i) (hescape : isEscape c (f.label i) = true) (hs : kids i = [s])
    (his : ∀ j ∈ is, Below kids root j ∧ j ≠ s) :
    Becomes c D f.label (Forest.splice i s kids)
      (is.flatMap fun x => if x = i then kids s else [x]) ts := by
  have hpseudo := isPseudo_of_isEscape hescape
  have hsi := mem_of_eq_singleton hs
  have hselector := hf.argument hi hpseudo hsi
  have hchild : ∀ {j k}, Below kids root j → j ≠ i → k ∈ kids j → Below kids root k ∧ k ≠ s := by
    intro j k hj hne hk
    refine ⟨hj.child hk, ?_⟩
    intro heq
    subst heq
    exact hne (hf.linked.unique hk hsi)
  have hpseudos : ∀ {j}, Below kids root j → isEscape c (f.label j) = true → i ∉ kids j := by
    intro j hj hjescape
    exact hf.notMem_argument hj (isPseudo_of_isEscape hjescape) (Label.kind_of_isPseudo hpseudo).2
  induction h with
  | nil => exact .nil
  | @classed j is ts hj hDj _ ih =>
    have hrest := ih fun j hj => his j (List.mem_cons_of_mem _ hj)
    have hji : j ≠ i := by
      intro heq
      subst heq
      rw [not_isScopable_of_isPseudo hpseudo] at hj
      cases hj
    rw [List.flatMap_cons, if_neg hji]
    exact .classed hj hDj hrest
  | @unwrapped j s' is us ts hj hs' _ _ ihcontent ihrest =>
    obtain ⟨hbelow, hjs⟩ := his j List.mem_cons_self
    have hrest := ihrest fun j hj => his j (List.mem_cons_of_mem _ hj)
    rw [List.flatMap_cons]
    by_cases hji : j = i
    · subst hji
      have hss' : s' = s := by
        rw [hs] at hs'
        exact (List.cons.inj hs').1.symm
      subst hss'
      have hnot : j ∉ kids s' := by
        intro hmem
        have hlt := hf.graded.above hmem
        have hlt' := hf.graded.above hsi
        omega
      have hself : ∀ k ∈ kids s', Below kids root k ∧ k ≠ s' := by
        intro k hk
        refine ⟨(hbelow.child hsi).child hk, ?_⟩
        intro heq
        subst heq
        exact Nat.lt_irrefl _ (hf.graded.above hk)
      have hcontent := ihcontent hself
      rw [flatMap_splice_of_notMem hnot] at hcontent
      rw [if_pos rfl]
      exact hcontent.append hrest
    · have hsj := mem_of_eq_singleton hs'
      obtain ⟨hbelow', hss'⟩ := hchild hbelow hji hsj
      have hcontent := ihcontent fun k hk => by
        refine ⟨hbelow'.child hk, ?_⟩
        intro heq
        subst heq
        exact (hf.content hbelow' (hf.argument hbelow (isPseudo_of_isEscape hj) hsj) hk) hselector
      have hself : s' ≠ i := by
        intro heq
        subst heq
        exact hpseudos hbelow hj hsj
      have hkids : Forest.splice i s kids j = [s'] := by
        rw [splice_of_notMem hjs (hpseudos hbelow hj), hs']
      have hkids' : Forest.splice i s kids s' =
          (kids s').flatMap fun x => if x = i then kids s else [x] := if_neg hss'
      rw [if_neg hji]
      exact .unwrapped hj hkids (hkids' ▸ hcontent) hrest
  | @kept j is us ts hj hjescape _ _ ihinner ihrest =>
    obtain ⟨hbelow, hjs⟩ := his j List.mem_cons_self
    have hrest := ihrest fun j hj => his j (List.mem_cons_of_mem _ hj)
    have hji : j ≠ i := by
      intro heq
      subst heq
      exact hjescape hescape s hs
    have hinner := ihinner fun k hk => hchild hbelow hji hk
    have hkids : Forest.splice i s kids j =
        (kids j).flatMap fun x => if x = i then kids s else [x] := if_neg hjs
    rw [List.flatMap_cons, if_neg hji]
    refine .kept hj ?_ (hkids ▸ hinner) hrest
    intro hpseudo' s' hs'
    rw [splice_of_notMem hjs (hpseudos hbelow hpseudo')] at hs'
    exact hjescape hpseudo' s' hs'

end Forest

end ScopedStyles.Scope
