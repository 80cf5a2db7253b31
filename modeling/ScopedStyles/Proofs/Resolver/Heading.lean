import ScopedStyles.Proofs.Resolver.Decisions

namespace ScopedStyles.Scope

open Selector Forest

variable {c : Config} {D : Nat → Bool} {outs : List Tree} {kids kids' : Nat → List Nat}
  {rank : Nat → Nat} {f f' : Forest} {i j : Nat}

/-- What every edit leaves as it is. Of the nodes below the root only classes are new. -/
structure Shrunk (f : Forest) (kids : Nat → List Nat) (f' : Forest) (kids' : Nat → List Nat) :
    Prop where
  size : f.size ≤ f'.size
  label : ∀ j < f.size, f'.label j = f.label j
  reach : ∀ j, Below kids' root j → Below kids root j ∨ (f'.label j).kind = .className
  pseudo : ∀ j, Below kids' root j → (f'.label j).isPseudo = true → kids' j = kids j

namespace Shrunk

theorem refl (f : Forest) (kids : Nat → List Nat) : Shrunk f kids f kids :=
  ⟨Nat.le_refl _, fun _ _ => rfl, fun _ hj => .inl hj, fun _ _ _ => rfl⟩

theorem below (h : Shrunk f kids f' kids') (hj : Below kids' root j)
    (hkind : (f'.label j).kind ≠ .className) : Below kids root j := by
  rcases h.reach j hj with hbelow | hclass
  · exact hbelow
  · exact (hkind hclass).elim

theorem trans {f'' : Forest} {kids'' : Nat → List Nat} (hf : Layered f kids rank)
    (hf' : Linked f' kids') (h : Shrunk f kids f' kids') (h' : Shrunk f' kids' f'' kids'') :
    Shrunk f kids f'' kids'' := by
  have hroot : root < f'.size := Nat.lt_of_lt_of_le hf.bound h.size
  have hlabel : ∀ {j}, Below kids' root j → f''.label j = f'.label j :=
    fun hj => h'.label _ (hj.lt hf' hroot)
  refine ⟨Nat.le_trans h.size h'.size, ?_, ?_, ?_⟩
  · intro j hj
    exact (h'.label j (Nat.lt_of_lt_of_le hj h.size)).trans (h.label j hj)
  · intro j hj
    rcases h'.reach j hj with hmid | hclass
    · rw [hlabel hmid]
      exact h.reach j hmid
    · exact .inr hclass
  · intro j hj hpseudo
    have hkind : (f''.label j).kind ≠ .className := by
      intro hkind
      unfold Label.isPseudo at hpseudo
      rw [hkind] at hpseudo
      cases hpseudo
    have hmid := h'.below hj hkind
    rw [hlabel hmid] at hpseudo
    exact (h'.pseudo j hj (hlabel hmid ▸ hpseudo)).trans (h.pseudo j hmid hpseudo)

theorem gone (h : Shrunk f kids f' kids') (hi : i < f.size) (hkind : (f.label i).kind ≠ .className)
    (hgone : ¬ Below kids root i) : ¬ Below kids' root i := by
  intro hbelow
  rw [← h.label i hi] at hkind
  exact hgone (h.below hbelow hkind)

end Shrunk

/-- A forest, what it becomes and where it stands on the way to it. -/
structure Heading (c : Config) (D : Nat → Bool) (outs : List Tree) (f : Forest)
    (kids : Nat → List Nat) (rank : Nat → Nat) : Prop where
  layered : Layered f kids rank
  unbarred : ∀ i, Below kids root i → ¬ IsBar (f.label i)
  becomes : Becomes c D f.label kids (kids root) outs

theorem Heading.splice {s : Nat} (h : Heading c D outs f kids rank) (hi : Below kids root i)
    (hescape : isEscape c (f.label i) = true) (hs : kids i = [s]) :
    Heading c D outs (f.replaceWithChildren i s) (Forest.splice i s kids) rank ∧
      Shrunk f kids (f.replaceWithChildren i s) (Forest.splice i s kids) ∧
      ∀ j, (f.replaceWithChildren i s).label j = f.label j := by
  have hf := h.layered
  have hpseudo := isPseudo_of_isEscape hescape
  have hsi := mem_of_eq_singleton hs
  have hselector := hf.argument hi hpseudo hsi
  have hroot : i ≠ root := hf.ne_root (Label.kind_of_isPseudo hpseudo).1
  have hsroot : s ≠ root := by
    apply hf.ne_root
    rw [hselector]
    exact nofun
  obtain ⟨hlayered, hsize, hlabel⟩ := hf.splice hi hpseudo hs
  have hlabels : (f.replaceWithChildren i s).label = f.label := funext hlabel
  have hreach : ∀ {j}, Below (Forest.splice i s kids) root j → Below kids root j ∧ j ≠ i :=
    fun hj => below_splice hf.graded hroot hs hj
  have htop : ∀ j ∈ kids root, Below kids root j ∧ j ≠ s := by
    intro j hj
    refine ⟨Below.child .refl hj, ?_⟩
    intro heq
    subst heq
    exact hroot (hf.linked.unique hsi hj)
  have hbecomes := h.becomes.splice hf hi hescape hs htop
  have hkids : Forest.splice i s kids root = (kids root).flatMap fun x => if x = i then kids s else [x] :=
    if_neg hsroot.symm
  refine ⟨⟨hlayered, ?_, ?_⟩, ⟨Nat.le_of_eq hsize.symm, fun j _ => hlabel j, ?_, ?_⟩, hlabel⟩
  · intro j hj
    rw [hlabel]
    exact h.unbarred j (hreach hj).1
  · rw [hlabels, hkids]
    exact hbecomes
  · intro j hj
    exact .inl (hreach hj).1
  · intro j hj hpseudo'
    rw [hlabel] at hpseudo'
    obtain ⟨hbelow, -⟩ := hreach hj
    apply splice_of_notMem
    · intro heq
      subst heq
      exact (Label.kind_of_isPseudo hpseudo').2 hselector
    · exact hf.notMem_argument hbelow hpseudo' (Label.kind_of_isPseudo hpseudo).2

theorem Heading.exchange (h : Heading c D outs f kids rank) (hi : Below kids root i)
    (hscopable : isScopable (f.label i) = true) (hD : D i = true) :
    (∃ rank', Heading c D outs ((f.create (replacement c (f.label i))).1.replaceWith i f.size)
      (exchange i f.size kids) rank') ∧
      Shrunk f kids ((f.create (replacement c (f.label i))).1.replaceWith i f.size)
        (exchange i f.size kids) ∧
      ∀ j, ((f.create (replacement c (f.label i))).1.replaceWith i f.size).label j =
        if j = f.size then replacement c (f.label i) else f.label j := by
  have hf := h.layered
  have hleaf := isScopable_leaf hscopable
  have hroot : i ≠ root := hf.ne_root hleaf.notRoot
  have hclass : (replacement c (f.label i)).IsLeaf := ⟨nofun, nofun, rfl⟩
  obtain ⟨⟨rank', hlayered⟩, hsize, hlabel⟩ := hf.exchange hi hleaf hclass
  have hreach : ∀ {j}, Below (Forest.exchange i f.size kids) root j →
      Below kids root j ∧ j ≠ i ∨ j = f.size := fun hj => below_exchange hf.linked hroot hj
  have hbecomes := h.becomes.exchange hf hi hscopable hD hlabel
    fun j hj => Below.child .refl hj
  refine ⟨⟨rank', hlayered, ?_, hbecomes⟩, ⟨?_, ?_, ?_, ?_⟩, hlabel⟩
  · intro j hj
    rw [hlabel]
    rcases hreach hj with ⟨hbelow, -⟩ | rfl
    · rw [if_neg (Nat.ne_of_lt (hf.lt hbelow))]
      exact h.unbarred j hbelow
    · rw [if_pos rfl]
      intro hbar
      cases hbar.1
  · omega
  · intro j hj
    rw [hlabel, if_neg (Nat.ne_of_lt hj)]
  · intro j hj
    rcases hreach hj with ⟨hbelow, -⟩ | rfl
    · exact .inl hbelow
    · rw [hlabel, if_pos rfl]
      exact .inr rfl
  · intro j hj hpseudo
    rw [hlabel] at hpseudo
    rcases hreach hj with ⟨hbelow, -⟩ | rfl
    · rw [if_neg (Nat.ne_of_lt (hf.lt hbelow))] at hpseudo
      exact exchange_of_notMem (hf.notMem_argument hbelow hpseudo hleaf.notSelector)
    · rw [if_pos rfl] at hpseudo
      cases hpseudo

end ScopedStyles.Scope
