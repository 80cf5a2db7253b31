import ScopedStyles.Proofs.Resolver.Beside
import ScopedStyles.Proofs.Resolver.OnePass
import ScopedStyles.Proofs.Selector.Comma
import ScopedStyles.Proofs.Selector.Pending

namespace ScopedStyles.Scope

open Selector Forest

variable {c : Config} {swapped : Bool} {ρ ρ₁ ρ₂ : Nat → Nat} {f f₁ f₂ F : Forest}
  {p₁ p₂ P : Pass}

/-- What a phase does at a node of the first pass it does there in the whole. -/
def Local (visit : Pass → Nat → Pass) (Visited : Label → Bool) : Prop :=
  ∀ {swapped ρ₁ p₁ ρ₂ p₂ P i}, Beside swapped ρ₁ p₁ ρ₂ p₂ P → i < p₁.forest.size →
    Visited (p₁.forest.label i) = true → Advances swapped ρ₁ p₁ (visit p₁ i) ρ₂ p₂ (visit P (ρ₁ i))

def ByKind (Visited : Label → Bool) : Prop :=
  ∀ l m : Label, l.kind = m.kind → Visited l = Visited m

variable {visit : Pass → Nat → Pass} {Visited Collected : Label → Bool}

theorem Local.foldl (hlocal : Local visit Visited) (hkind : ByKind Visited)
    (h : Beside swapped ρ₁ p₁ ρ₂ p₂ P) {is : List Nat}
    (his : ∀ i ∈ is, i < p₁.forest.size ∧ Visited (p₁.forest.label i) = true) :
    Advances swapped ρ₁ p₁ (is.foldl visit p₁) ρ₂ p₂ ((is.map ρ₁).foldl visit P) := by
  induction is generalizing ρ₁ p₁ P with
  | nil => exact ⟨ρ₁, .refl _ _, h⟩
  | cons i is ih =>
    obtain ⟨hi, hvisited⟩ := his i List.mem_cons_self
    obtain ⟨ρ, hkept, hnext⟩ := hlocal h hi hvisited
    have his' : ∀ j ∈ is, j < (visit p₁ i).forest.size ∧
        Visited ((visit p₁ i).forest.label j) = true := by
      intro j hj
      obtain ⟨hlt, hj'⟩ := his j (List.mem_cons_of_mem _ hj)
      rw [hkind _ _ (hkept.kind j hlt)]
      exact ⟨Nat.lt_of_lt_of_le hlt hkept.size, hj'⟩
    have hmap : is.map ρ = is.map ρ₁ :=
      List.map_congr_left fun j hj => hkept.number j (his j (List.mem_cons_of_mem _ hj)).1
    obtain ⟨ρ', hkept', hdone⟩ := ih hnext his'
    rw [hmap] at hdone
    exact ⟨ρ', hkept.trans hkept', hdone⟩

theorem lt_of_collect (hf : Sound f) {i : Nat} (hi : i ∈ f.collect Collected) :
    i < f.size ∧ Collected (f.label i) = true := by
  obtain ⟨hmem, hcollected⟩ := List.mem_filter.1 hi
  exact ⟨hf.lt (hf.wellFormed.mem_descendants.1 hmem).2, hcollected⟩

/-- A phase over both lists is the phase over the first one and then over the second one. -/
theorem Local.phase (hlocal : Local visit Visited) (hkind : ByKind Visited)
    (hcollected : ∀ l, Collected l = true → Visited l = true)
    (h : Beside false ρ₁ p₁ ρ₂ p₂ P) :
    ∃ ρ₁' ρ₂', Beside false ρ₁' ((p₁.forest.collect Collected).foldl visit p₁) ρ₂'
      ((p₂.forest.collect Collected).foldl visit p₂)
      ((P.forest.collect Collected).foldl visit P) := by
  have hnodes : ∀ {f}, Sound f → ∀ i ∈ f.collect Collected,
      i < f.size ∧ Visited (f.label i) = true := by
    intro f hf i hi
    obtain ⟨hlt, hi'⟩ := lt_of_collect hf hi
    exact ⟨hlt, hcollected _ hi'⟩
  obtain ⟨ρ₁', -, h₁⟩ := hlocal.foldl hkind h (hnodes h.joined.sound₁)
  obtain ⟨ρ₂', -, h₂⟩ := hlocal.foldl hkind h₁.symm (hnodes h.joined.sound₂)
  refine ⟨ρ₁', ρ₂', ?_⟩
  rw [h.joined.collect, inOrder, if_neg Bool.false_ne_true, List.foldl_append]
  exact h₂.symm

theorem byKind_isAttribute : ByKind Label.isAttribute := by
  intro l m h
  unfold Label.isAttribute
  rw [h]

theorem byKind_isTag : ByKind Label.isTag := by
  intro l m h
  unfold Label.isTag
  rw [h]

theorem byKind_isPseudo : ByKind Label.isPseudo := by
  intro l m h
  unfold Label.isPseudo
  rw [h]

theorem foldl_unwrap_forest (is : List Nat) (p : Pass) :
    is.foldl (fun p i => { p with forest := unwrap p.forest i }) p =
      { p with forest := is.foldl unwrap p.forest } := by
  induction is generalizing p with
  | nil => rfl
  | cons i is ih => exact ih _

theorem scopeForest_beside (c : Config) (h : Joined false ρ₁ f₁ ρ₂ f₂ F) (h₁ : Topped f₁)
    (h₂ : Topped f₂) : ∃ ρ₁' ρ₂', Beside false ρ₁' (scopeForest c .empty f₁) ρ₂'
      (scopeForest c .empty f₂) (scopeForest c .empty F) := by
  have hstart : Beside false ρ₁ ⟨Memory.empty.refresh, f₁⟩ ρ₂ ⟨Memory.empty.refresh, f₂⟩
      ⟨Memory.empty.refresh, F⟩ :=
    ⟨h, ⟨h₁, fun _ _ _ => rfl⟩, ⟨h₂, fun _ _ _ => rfl⟩, (OrderedMap.sup_empty _).symm,
      (OrderedMap.sup_empty _).symm⟩
  have hattributes : Local (Pass.scopeAttribute c) Label.isAttribute :=
    fun h hi hattribute => h.scopeAttribute hi hattribute
  have htags : Local (Pass.scopeTag c) Label.isTag := fun h hi htag => h.scopeTag hi htag
  have hescapes : Local (fun p i => { p with forest := unwrap p.forest i }) Label.isPseudo :=
    fun h hi hpseudo => h.unwrap hi hpseudo
  obtain ⟨_, _, hfirst⟩ := hattributes.phase byKind_isAttribute (fun _ h => h) hstart
  obtain ⟨_, _, hsecond⟩ := htags.phase byKind_isTag (fun _ h => h) hfirst
  obtain ⟨ρ₁', ρ₂', hlast⟩ := hescapes.phase byKind_isPseudo
    (fun l (h : isEscape c l = true) => isPseudo_of_isEscape h) hsecond
  simp only [foldl_unwrap_forest] at hlast
  exact ⟨ρ₁', ρ₂', hlast⟩

theorem Sound.root_chars (h : Sound f) :
    (f.tree root).chars = listChars ((f.children root).map f.tree) := by
  rw [tree_eq h.wellFormed.linked h.wellFormed.graded h.rooted.bound]
  simp only [Tree.chars, h.rooted.kind]

theorem Beside.render (h : Beside false ρ₁ p₁ ρ₂ p₂ P) :
    (P.forest.tree root).render =
      (p₁.forest.tree root).render ++ "," ++ (p₂.forest.tree root).render := by
  have hnotEmpty : ∀ {f}, Topped f → (f.children root).map f.tree ≠ [] :=
    fun ht heq => ht.notEmpty (List.map_eq_nil_iff.1 heq)
  unfold Tree.render
  rw [Sound.root_chars h.joined.sound, Sound.root_chars h.joined.sound₁,
    Sound.root_chars h.joined.sound₂, h.joined.tree, inOrder, if_neg Bool.false_ne_true,
    listChars_append (hnotEmpty h.first.topped) (hnotEmpty h.second.topped), List.append_cons,
    String.ofList_append, String.ofList_append]

theorem topped_of_parse {text : String} {selectors : List Tree}
    (h : parse text = .ok (.root selectors)) : Topped (ofTree (.root selectors)) := by
  obtain ⟨hsound, -, htree⟩ := ofTree_sound selectors
  rw [tree_eq hsound.wellFormed.linked hsound.wellFormed.graded hsound.rooted.bound] at htree
  have hselectors := (Tree.node.inj htree).2
  obtain ⟨selectors', heq, hreads⟩ := parse_eq_ok_iff.1 h
  obtain ⟨-, rfl⟩ := Tree.node.inj heq
  obtain ⟨selectors', heq, hlayered, -⟩ := parse_shape h
  obtain ⟨-, rfl⟩ := Tree.node.inj heq
  constructor
  · intro hnil
    rw [hnil] at hselectors
    exact hreads.ne_nil hselectors.symm
  · intro i hi
    have hmem := List.mem_map_of_mem (f := (ofTree (.root selectors)).tree) hi
    rw [hselectors] at hmem
    cases hlayered with
    | node hnests _ =>
      have hkind := ((hnests _ hmem).below nofun).1
      rwa [tree_eq hsound.wellFormed.linked hsound.wellFormed.graded (hsound.child_lt hi).2.1]
        at hkind

namespace Resolver

theorem transform_append (r : Resolver) {s₁ s₂ : String} {ts us : List Tree}
    (h₁ : parse s₁ = .ok (.root ts)) (h₂ : parse s₂ = .ok (.root us)) :
    ((r.transform (.ofTree (.root (ts ++ us)))).1.tree root).render =
        ((r.transform (.ofTree (.root ts))).1.tree root).render ++ "," ++
          ((r.transform (.ofTree (.root us))).1.tree root).render ∧
      (r.transform (.ofTree (.root (ts ++ us)))).2.elements =
        (r.transform (.ofTree (.root ts))).2.elements ⊔
          (r.transform (.ofTree (.root us))).2.elements ∧
      (r.transform (.ofTree (.root (ts ++ us)))).2.hashes =
        (r.transform (.ofTree (.root ts))).2.hashes ⊔
          (r.transform (.ofTree (.root us))).2.hashes := by
  obtain ⟨ρ, hjoined⟩ := joined_ofTree ts us
  obtain ⟨ρ₁, ρ₂, h⟩ :=
    scopeForest_beside r.config hjoined (topped_of_parse h₁) (topped_of_parse h₂)
  have hforest : ∀ f, (r.transform f).1 = (scopeForest r.config .empty f).forest := r.transform_fst
  have helements : ∀ f, (r.transform f).2.elements =
      r.elements ⊔ (scopeForest r.config .empty f).elements := r.transform_elements
  have hhashes : ∀ f, (r.transform f).2.hashes = (scopeForest r.config .empty f).hashes :=
    r.transform_hashes
  refine ⟨?_, ?_, ?_⟩
  · rw [hforest, hforest, hforest]
    exact h.render
  · rw [helements, helements, helements, h.elements, sup_sup_distrib_left]
  · rw [hhashes, hhashes, hhashes]
    exact h.hashes

theorem transform_again (r : Resolver) (g f : Forest) :
    ((r.transform g).2.transform f).1 = (r.transform f).1 ∧
      ((r.transform g).2.transform f).2.elements =
        (r.transform g).2.elements ⊔ (r.transform f).2.elements ∧
      ((r.transform g).2.transform f).2.hashes = (r.transform f).2.hashes := by
  have hconfig : (r.transform g).2.config = r.config := rfl
  refine ⟨?_, ?_, ?_⟩
  · rw [transform_fst, hconfig, transform_fst r]
  · rw [transform_elements _ f, hconfig, transform_elements r g, transform_elements r f,
      ← sup_sup_distrib_left, sup_assoc]
  · rw [transform_hashes, hconfig, transform_hashes r]

/-- The selectors of a list are independent. Behind an accepted text and a comma, a text is accepted
where it is accepted alone; the run of both prints the two runs with a comma between them, leaves the
registry that the one leaves after the other, and gathers the hashes of both. A rejected text is
rejected there for the same reason, so many bytes later. -/
theorem run_comma (r : Resolver) {s₁ : String} {t₁ : Tree} (h : parse s₁ = .ok t₁)
    (hend : s₁.toList.getLast? ≠ some '\\') (s₂ : String) :
    ((∃ t, parse (s₁ ++ "," ++ s₂) = .ok t) ↔ ∃ t, parse s₂ = .ok t) ∧
    (∀ t₂, parse s₂ = .ok t₂ →
      parse (s₁ ++ "," ++ s₂) = .ok (.root (t₁.children ++ t₂.children)) ∧
      ∃ out₁ out₂ r₁ r₂ r₁₂, r.run s₁ = .ok (out₁, r₁) ∧ r₁.run s₂ = .ok (out₂, r₂) ∧
        (r.run s₂).map Prod.fst = .ok out₂ ∧
        r.run (s₁ ++ "," ++ s₂) = .ok (out₁ ++ "," ++ out₂, r₁₂) ∧
        r₁₂.elements = r₂.elements ∧ r₁₂.hashes = r₁.hashes ⊔ r₂.hashes) ∧
    ∀ e, parse s₂ = .error e →
      parse (s₁ ++ "," ++ s₂) = .error ⟨e.cause, s₁.utf8ByteSize + 1 + e.position⟩ ∧
      r.run (s₁ ++ "," ++ s₂) = .error ⟨e.cause, s₁.utf8ByteSize + 1 + e.position⟩ := by
  obtain ⟨ts, rfl, -⟩ := parse_eq_ok_iff.1 h
  obtain ⟨haccepted, hrejected⟩ := parse_comma h hend s₂
  refine ⟨⟨?_, ?_⟩, ?_, ?_⟩
  · rintro ⟨t, ht⟩
    cases hsecond : parse s₂ with
    | ok t₂ => exact ⟨t₂, rfl⟩
    | error e =>
      rw [hrejected e hsecond] at ht
      cases ht
  · rintro ⟨t₂, h₂⟩
    exact ⟨_, haccepted t₂ h₂⟩
  · intro t₂ h₂
    have hwhole := haccepted t₂ h₂
    obtain ⟨us, rfl, -⟩ := parse_eq_ok_iff.1 h₂
    obtain ⟨hrender, helements, hhashes⟩ := r.transform_append h h₂
    obtain ⟨hforest, helements', hhashes'⟩ := r.transform_again (ofTree (.root ts)) (ofTree (.root us))
    refine ⟨hwhole, _, _, _, _, (r.transform (ofTree (.root (ts ++ us)))).2, run_of_parsed r h,
      run_of_parsed _ h₂, ?_, ?_, ?_, ?_⟩
    · rw [run_of_parsed r h₂, hforest]
      rfl
    · apply (run_of_parsed r hwhole).trans
      rw [hforest, ← hrender]
      rfl
    · rw [helements, helements']
    · rw [hhashes, hhashes']
  · intro e he
    have hwhole := hrejected e he
    exact ⟨hwhole, run_of_rejected r hwhole⟩

theorem run_comma_escapedTag :
    parse ":global(a)b" = .ok escapedTag ∧ ":global(a)b".toList.getLast? ≠ some '\\' ∧
      parse (":global(a)b" ++ "," ++ ":global(a)b") =
        .ok (.root (escapedTag.children ++ escapedTag.children)) ∧
      (Resolver.new ⟨"s", .locally⟩).run (":global(a)b" ++ "," ++ "") =
        .error ⟨.emptySelector, 12⟩ := by
  have hend : ":global(a)b".toList.getLast? ≠ some '\\' := by decide
  have hempty : parse "" = .error ⟨.emptySelector, 0⟩ := by
    have htrivia : skipTrivia "".toList = .ok [] :=
      skipTrivia_eq_ok_iff.2 ⟨[], rfl, trivia_nil, tight_nil⟩
    have hstep : Selector.step .start "".toList = .error ⟨.emptySelector, []⟩ := by
      unfold Selector.step
      rw [htrivia]
      rfl
    unfold parse
    rw [readList_of_error hstep]
    rfl
  have hcomma := run_comma (Resolver.new ⟨"s", .locally⟩) parse_escapedTag hend
  obtain ⟨-, haccepted, -⟩ := hcomma ":global(a)b"
  obtain ⟨-, -, hrejected⟩ := hcomma ""
  exact ⟨parse_escapedTag, hend, (haccepted _ parse_escapedTag).1, (hrejected _ hempty).2⟩

end Resolver

end ScopedStyles.Scope
