import ScopedStyles.Proofs.Resolver.Becomes

namespace ScopedStyles.Scope

open Selector Forest

variable {c : Config} {f : Forest} {kids : Nat → List Nat} {rank : Nat → Nat} {i q : Nat}

def judge (c : Config) (f : Forest) (i : Nat) : Bool :=
  match holder? f i with
  | some (_, pseudo) =>
    if (f.label pseudo).value = c.mode.escape then c.mode.scopesEscaped
    else if isOpaquePseudo (f.label pseudo).value then false
    else scopesNamespace c (f.label i).ns
  | none => scopesNamespace c (f.label i).ns

theorem decide_fst (p : Pass) : (p.decide c i).1 = (p.lifted.lookup i).getD (judge c p.forest i) := by
  unfold Pass.decide judge
  cases p.lifted.lookup i with
  | some d => rfl
  | none =>
    cases holder? p.forest i with
    | none => rfl
    | some h =>
      dsimp only [Option.getD_none]
      split
      · rfl
      · split
        · rfl
        · rfl

theorem judge_escaped {selector pseudo : Nat} (h : Linked f kids) (hi : i ∈ kids selector)
    (hselector : selector ∈ kids pseudo) (hescape : isEscape c (f.label pseudo) = true) :
    judge c f i = c.mode.scopesEscaped := by
  have hparent := h.parent_iff.2 hi
  have hholder := h.parent_iff.2 hselector
  have hpseudo := isPseudo_of_isEscape hescape
  obtain ⟨-, hvalue⟩ := Bool.and_eq_true_iff.1 hescape
  unfold judge holder?
  rw [hparent]
  dsimp only [Option.bind_eq_bind, Option.bind_some]
  rw [hholder]
  dsimp only [Option.bind_some]
  rw [if_pos hpseudo]
  exact if_pos (beq_iff_eq.1 hvalue)

theorem judge_congr {f' : Forest} (hlabel : f'.label i = f.label i)
    (hparent : (f'.get i).parent = (f.get i).parent)
    (hholder : ∀ q, (f.get i).parent = some q → (f'.get q).parent = (f.get q).parent ∧
      ∀ r, (f.get q).parent = some r → f'.label r = f.label r) : judge c f' i = judge c f i := by
  unfold judge holder?
  rw [hparent, hlabel]
  cases hq : (f.get i).parent with
  | none => rfl
  | some q =>
    obtain ⟨hparent', hr⟩ := hholder q hq
    dsimp only [Option.bind_eq_bind, Option.bind_some]
    rw [hparent']
    cases hr' : (f.get q).parent with
    | none => rfl
    | some r =>
      dsimp only [Option.bind_some]
      rw [hr r hr']
      cases hpseudo : (f.label r).isPseudo with
      | false => rfl
      | true =>
        rw [if_pos rfl]
        dsimp only
        rw [hr r hr']

theorem scopesNamespace_locally {ns : Option Namespace} (hmode : c.mode = .locally)
    (hns : ∀ n ∈ ns, ∃ name, n = .named name ∧ name ≠ "") :
    scopesNamespace c ns = ns.all (· == .named c.scope) := by
  unfold scopesNamespace
  rw [hmode]
  cases ns with
  | none => rfl
  | some n =>
    obtain ⟨name, rfl, hname⟩ := hns n rfl
    have hempty : (name == "") = false := beq_false_of_ne hname
    dsimp only [Option.all_some]
    rw [hempty, Bool.false_or, Bool.eq_iff_iff, beq_iff_eq, beq_iff_eq, Namespace.named.injEq]

theorem scopesNamespace_globally {ns : Option Namespace} (hmode : c.mode = .globally) :
    scopesNamespace c ns = false := by
  unfold scopesNamespace
  rw [hmode]

theorem decides_none {holder : Option Label} {ns : Option Namespace}
    (h : holder.filter Label.isPseudo = none)
    (hns : ∀ n ∈ ns, ∃ name, n = .named name ∧ name ≠ "") :
    decides c holder ns = scopesNamespace c ns := by
  unfold decides
  rw [h]
  cases hmode : c.mode with
  | locally =>
    rw [scopesNamespace_locally hmode hns]
    rfl
  | globally =>
    rw [scopesNamespace_globally hmode]
    rfl

theorem decides_some {pseudo : Label} {ns : Option Namespace} (h : pseudo.isPseudo = true)
    (hns : ∀ n ∈ ns, ∃ name, n = .named name ∧ name ≠ "") :
    decides c (some pseudo) ns =
      if pseudo.value = c.mode.escape then c.mode.scopesEscaped
      else if isOpaquePseudo pseudo.value then false
      else scopesNamespace c ns := by
  unfold decides
  rw [Option.filter_some, if_pos h]
  cases hmode : c.mode with
  | locally =>
    rw [scopesNamespace_locally hmode hns]
    dsimp only [Option.map_some, Option.all_some]
    by_cases hglobal : pseudo.value = Mode.escape .locally
    · rw [if_pos hglobal, hglobal]
      rfl
    · have hne : (pseudo.value != ":global") = true := bne_iff_ne.2 hglobal
      rw [if_neg hglobal, hne, Bool.true_and]
      unfold isOpaquePseudo
      cases hdir : pseudo.value == ":dir" with
      | true =>
        rw [bne, hdir]
        rfl
      | false =>
        rw [bne, hdir]
        cases ":nth-".toList.isPrefixOf pseudo.value.toList with
        | true => rfl
        | false => rfl
  | globally =>
    rw [scopesNamespace_globally hmode]
    dsimp only [Option.map_some]
    by_cases hlocal : pseudo.value = Mode.escape .globally
    · rw [if_pos hlocal, hlocal]
      rfl
    · rw [if_neg hlocal, ite_self]
      exact beq_false_of_ne fun heq => hlocal (Option.some.inj heq)

/-- Whether a node is scoped depends on its namespace and on the label two levels above it. -/
theorem judge_eq_decides (h : Linked f kids) (hi : i ∈ kids q) (hl : (f.label i).Qualified) :
    judge c f i = decides c ((f.get q).parent.map f.label) (f.label i).ns := by
  have hparent := h.parent_iff.2 hi
  unfold judge holder?
  rw [hparent]
  dsimp only [Option.bind_eq_bind, Option.bind_some]
  cases (f.get q).parent with
  | none => exact (decides_none rfl hl).symm
  | some pseudo =>
    dsimp only [Option.bind_some, Option.map_some]
    cases hpseudo : (f.label pseudo).isPseudo with
    | true => exact (decides_some hpseudo hl).symm
    | false =>
      refine (decides_none ?_ hl).symm
      rw [Option.filter_some, hpseudo]
      rfl

theorem scopedName_eq {l : Label} (hl : l.Qualified) :
    scopedName c l.ns l.value = if l.ns.isSome then c.scope ++ "--" ++ l.value else l.value := by
  unfold scopedName
  cases hns : l.ns with
  | none => rfl
  | some n =>
    obtain ⟨name, rfl, hname⟩ := hl n hns
    have hset : (some (Namespace.named name)).any (·.isSet) = true := bne_iff_ne.2 hname
    rw [if_pos hset]
    rfl

theorem replacement_eq {l : Label} (hl : l.Qualified) (h : isScopable l = true) :
    replacement c l = ⟨.className, classFor c l, none⟩ := by
  unfold replacement classFor attributeClass
  rw [scopedName_eq hl, stripQuotes_rawValue]
  cases htag : l.isTag with
  | true =>
    have hattribute : l.isAttribute = false := by
      unfold Label.isTag at htag
      unfold Label.isAttribute
      rw [beq_iff_eq.1 htag]
    rw [hattribute]
    rfl
  | false =>
    have hattribute : l.isAttribute = true := by
      unfold isScopable at h
      rwa [htag, Bool.or_false] at h
    rw [hattribute]
    dsimp only
    rw [if_neg Bool.false_ne_true, if_pos rfl]
    congr 1
    split
    · rfl
    · simp only [String.append_assoc]

theorem becomes_nodes {D : Nat → Bool} {holder parent : Option Label} {is : List Nat}
    (h : ∀ i ∈ is, Becomes c D f.label kids [i] (scopeNode c holder parent (f.tree i))) :
    Becomes c D f.label kids is (scopeNodes c holder parent (is.map f.tree)) := by
  induction is with
  | nil =>
    unfold scopeNodes
    exact .nil
  | cons i is ih =>
    have hhead := h i List.mem_cons_self
    have htail := ih fun j hj => h j (List.mem_cons_of_mem _ hj)
    rw [List.map_cons]
    unfold scopeNodes
    exact hhead.append htail

/-- The decisions for the nodes of a forest in which nothing has been lifted. -/
theorem becomes_static (hf : Layered f kids rank) (t : Tree) :
    ∀ {q i}, Below kids root q → i ∈ kids q → f.tree i = t → t.All Label.Qualified →
      Becomes c (judge c f) f.label kids [i]
        (scopeNode c ((f.get q).parent.map f.label) (some (f.label q)) t) := by
  induction t using Tree.induct with
  | node l ts ih =>
    intro q i hq hi ht hqualified
    have hbelow := hq.child hi
    have hparent := hf.linked.parent_iff.2 hi
    rw [tree_eq hf.linked hf.graded (hf.lt hbelow)] at ht
    obtain ⟨rfl, hts⟩ := Tree.node.inj ht
    have hjudge := judge_eq_decides (c := c) hf.linked hi hqualified.label
    have hall : Becomes c (judge c f) f.label kids (kids i)
        (scopeNodes c (some (f.label q)) (some (f.label i)) ts) := by
      rw [← hts]
      apply becomes_nodes
      intro j hj
      have htree : f.tree j ∈ ts := by
        rw [← hts]
        exact List.mem_map_of_mem hj
      have hchild := ih _ htree hbelow hj rfl (hqualified.children _ htree)
      rwa [hparent] at hchild
    unfold scopeNode
    dsimp only
    split
    · next hscoped =>
      obtain ⟨hscopable, hdecides⟩ := Bool.and_eq_true_iff.1 hscoped
      unfold Tree.leaf
      rw [← replacement_eq hqualified.label hscopable]
      exact .classed hscopable (hjudge.trans hdecides) .nil
    · next hscoped =>
      split
      · next hescape =>
        obtain ⟨hpseudo, hlength⟩ := Bool.and_eq_true_iff.1 hescape
        have hone : (kids i).length = 1 := by
          rw [← beq_iff_eq.1 hlength, ← hts, List.length_map]
        obtain ⟨s, hs⟩ := List.length_eq_one_iff.1 hone
        have hsi := mem_of_eq_singleton hs
        have hselector := hf.argument hbelow (isPseudo_of_isEscape hpseudo) hsi
        rw [hs] at hall
        obtain ⟨us, hus, hcontent⟩ := hall.selector hselector
        rw [hus, List.flatMap_singleton]
        have hspliced := Becomes.unwrapped hpseudo hs hcontent .nil
        rwa [List.append_nil] at hspliced
      · next hescape =>
        refine .kept ?_ ?_ hall .nil
        · intro hscopable
          rw [hjudge]
          exact Bool.eq_false_iff.2 fun hdecides => hscoped (by rw [hscopable, hdecides]; rfl)
        · intro hpseudo s hs
          apply hescape
          rw [hpseudo, ← hts, hs]
          rfl

end ScopedStyles.Scope
