import ScopedStyles.Proofs.Resolver.Alike
import ScopedStyles.Proofs.Selector.Argument
import ScopedStyles.Proofs.Selector.Shape

namespace ScopedStyles.Scope

open Selector Forest

variable {scope : String} {c : Config} {f : Forest} {p P : Pass} {row : List Nat} {i : Nat}
  {pairs : List (Nat × Nat)} {V : Label → Bool}

theorem Escaped.collect (h : Escaped P row) (hselector : V selectorLabel = false)
    (hlocal : V localLabel = false) :
    P.forest.collect V = row.filter fun i => V (P.forest.label i) := by
  cases h with
  | held h =>
    apply h.collect
    intro l hl
    simp only [List.mem_cons, List.not_mem_nil, or_false] at hl
    rcases hl with rfl | rfl | rfl
    · exact hselector
    · exact hlocal
    · exact hselector
  | lifted h =>
    apply h.collect
    intro l hl
    rw [List.mem_singleton.1 hl]
    exact hselector

namespace Alike

section Phases

variable {step step' : Pass → Nat → Pass}

theorem foldl (hV : ByKind V)
    (hstep : ∀ {p P pairs x}, Alike scope p P pairs → x ∈ pairs → V (p.forest.label x.1) = true →
      ∃ pairs', Alike scope (step p x.1) (step' P x.2) pairs' ∧ KeepsOthers x p pairs (step p x.1) pairs')
    (h : Alike scope p P pairs) {rest : List (Nat × Nat)} (hnodup : rest.Nodup)
    (hrest : ∀ x ∈ rest, x ∈ pairs ∧ V (p.forest.label x.1) = true) :
    ∃ pairs', Alike scope ((rest.map Prod.fst).foldl step p) ((rest.map Prod.snd).foldl step' P)
      pairs' := by
  induction rest generalizing p P pairs with
  | nil => exact ⟨pairs, h⟩
  | cons x rest ih =>
    obtain ⟨hx, hrest⟩ := List.forall_mem_cons.1 hrest
    obtain ⟨hnot, hnodup⟩ := List.nodup_cons.1 hnodup
    obtain ⟨pairs₁, h₁, hkeeps⟩ := hstep h hx.1 hx.2
    apply ih h₁ hnodup
    intro y hy
    obtain ⟨hmem, hkind⟩ := hkeeps y (hrest y hy).1 (ne_of_mem_of_not_mem hy hnot)
    exact ⟨hmem, (hV _ _ hkind).trans (hrest y hy).2⟩

/-- Both modes collect the same pairs, so that a whole phase keeps the passes alike. -/
theorem phase (hV : ByKind V) (hselector : V selectorLabel = false) (hlocal : V localLabel = false)
    (hstep : ∀ {p P pairs x}, Alike scope p P pairs → x ∈ pairs → V (p.forest.label x.1) = true →
      ∃ pairs', Alike scope (step p x.1) (step' P x.2) pairs' ∧ KeepsOthers x p pairs (step p x.1) pairs')
    (h : Alike scope p P pairs) :
    ∃ pairs', Alike scope ((p.forest.collect V).foldl step p)
      ((P.forest.collect V).foldl step' P) pairs' := by
  have hhere : p.forest.collect V =
      (pairs.filter fun x => V (p.forest.label x.1)).map Prod.fst := by
    have hframe : ∀ l ∈ [selectorLabel], V l = false :=
      fun l hl => List.mem_singleton.1 hl ▸ hselector
    rw [h.plain.collect hframe, List.filter_map]
    rfl
  have hthere : P.forest.collect V =
      (pairs.filter fun x => V (p.forest.label x.1)).map Prod.snd := by
    rw [h.escaped.collect hselector hlocal, List.filter_map]
    apply congrArg
    apply List.filter_congr
    intro x hx
    exact congrArg V (h.label x hx)
  rw [hhere, hthere]
  apply foldl hV hstep h
  · obtain ⟨⟨above, hlined⟩, -⟩ := h.lined
    exact (List.Nodup.of_map _ (List.nodup_append.1 hlined.nodup).2.1).filter _
  · intro x hx
    exact List.mem_filter.1 hx

end Phases

end Alike

theorem foldl_unwrap_leaves {is : List Nat} (h : ∀ i ∈ is, f.children i = []) :
    is.foldl unwrap f = f := by
  induction is with
  | nil => rfl
  | cons i is ih =>
    obtain ⟨hi, his⟩ := List.forall_mem_cons.1 h
    have hsame : unwrap f i = f := by
      rw [unwrap, hi]
      exact ite_self f
    rw [List.foldl_cons, hsame, ih his]

theorem unwrapEscapes_leaves (h : Framed f [selectorLabel] row) : unwrapEscapes c f = f := by
  have hframe : ∀ l ∈ [selectorLabel], isEscape c l = false :=
    fun l hl => List.mem_singleton.1 hl ▸ rfl
  rw [unwrapEscapes, h.collect hframe]
  obtain ⟨above, hlined, -⟩ := h
  apply foldl_unwrap_leaves
  intro i hi
  exact hlined.leaves i (List.mem_filter.1 hi).1

theorem Escaped.unwrapped (h : Escaped P row) (scope : String) :
    Framed (unwrapEscapes ⟨scope, .globally⟩ P.forest) [selectorLabel] row ∧
      ∀ j, (unwrapEscapes ⟨scope, .globally⟩ P.forest).label j = P.forest.label j := by
  cases h with
  | lifted h =>
    rw [unwrapEscapes_leaves h]
    exact ⟨h, fun _ => rfl⟩
  | held h =>
    obtain ⟨o, q, s, h⟩ := held_of_framed h
    have hcollect : P.forest.collect (isEscape ⟨scope, .globally⟩) =
        q :: row.filter fun i => isEscape ⟨scope, .globally⟩ (P.forest.label i) := by
      rw [collect_eq_filter, h.lined.descendants]
      simp [h.outer, h.escape, h.argument, isEscape, selectorLabel, localLabel, Label.isPseudo,
        Mode.escape]
    have hunwrap : unwrap P.forest q = P.forest.replaceWithChildren q s := by
      have hbelow : q ∈ P.forest.descendants root := by
        rw [h.lined.descendants]
        simp
      have hwellFormed := h.lined.sound.wellFormed
      rw [unwrap, if_pos (hwellFormed.isAttached_iff.2 (hwellFormed.mem_descendants.1 hbelow).2),
        h.children]
    have hafter := h.lined.splice h.spliced
    rw [unwrapEscapes, hcollect, List.foldl_cons, hunwrap, foldl_unwrap_leaves]
    · exact ⟨h.opened, h.spliced.label⟩
    · intro i hi
      exact hafter.leaves i (List.mem_filter.1 hi).1

theorem Alone.render {s : Nat} (h : Alone f s row) :
    (f.tree root).render = String.ofList (compoundChars (row.map fun i => .node (f.label i) [])) := by
  have hsound := h.lined.sound
  have htree : ∀ {i}, i < f.size → f.tree i = .node (f.label i) ((f.children i).map f.tree) :=
    fun hi => tree_eq hsound.wellFormed.linked hsound.wellFormed.graded hi
  have hrow : row.map f.tree = row.map fun i => .node (f.label i) [] := by
    apply List.map_congr_left
    intro i hi
    rw [htree (h.lined.lt hi), h.lined.leaves i hi, List.map_nil]
  rw [Tree.render, Sound.root_chars hsound, h.top, List.map_singleton,
    htree (h.lined.above_lt (List.mem_singleton_self s)), h.content, hrow, h.label]
  simp [listChars, laterChars, Tree.chars, selectorLabel]

theorem Alike.render (h : Alike scope p P pairs) :
    ((unwrapEscapes ⟨scope, .globally⟩ P.forest).tree root).render =
      ((unwrapEscapes ⟨scope, .locally⟩ p.forest).tree root).render := by
  obtain ⟨hframed, hlabel⟩ := h.escaped.unwrapped scope
  obtain ⟨o, ho⟩ := alone_of_framed hframed
  obtain ⟨s, hs⟩ := alone_of_framed h.plain
  rw [unwrapEscapes_leaves h.plain, ho.render, hs.render, List.map_map, List.map_map]
  apply congrArg
  apply congrArg
  apply List.map_congr_left
  intro x hx
  rw [Function.comp_apply, Function.comp_apply, hlabel, h.label x hx]

/-- Both modes end with the same text and the same memory. -/
theorem Alike.transform {m : Memory} {f F : Forest}
    (h : Alike scope ⟨m.refresh, f⟩ ⟨m.refresh, F⟩ pairs) :
    ((Resolver.transform ⟨m, ⟨scope, .globally⟩⟩ F).1.tree root).render =
        ((Resolver.transform ⟨m, ⟨scope, .locally⟩⟩ f).1.tree root).render ∧
      (Resolver.transform ⟨m, ⟨scope, .globally⟩⟩ F).2.elements =
        (Resolver.transform ⟨m, ⟨scope, .locally⟩⟩ f).2.elements ∧
      (Resolver.transform ⟨m, ⟨scope, .globally⟩⟩ F).2.hashes =
        (Resolver.transform ⟨m, ⟨scope, .locally⟩⟩ f).2.hashes := by
  obtain ⟨pairs₁, h₁⟩ := h.phase byKind_isAttribute rfl rfl scopeAttribute
  obtain ⟨pairs₂, h₂⟩ := h₁.phase byKind_isTag rfl rfl scopeTag
  have hrender := h₂.render
  have helements := h₂.elements
  have hhashes := h₂.hashes
  dsimp only [Resolver.transform, Scope.scopeForest, Pass.scopeTags, Pass.scopeAttributes]
  exact ⟨hrender, helements, hhashes⟩

theorem label_of_mem_zip {f F : Forest} {l l' : List Nat} (h : l.map f.label = l'.map F.label) :
    ∀ x ∈ l.zip l', F.label x.2 = f.label x.1 := by
  have hforall : List.Forall₂ (fun j k => f.label j = F.label k) l l' := by
    rwa [← List.forall₂_eq_eq_eq, List.forall₂_map_left_iff, List.forall₂_map_right_iff] at h
  intro x hx
  exact ((List.forall₂_iff_zip.1 hforall).2 hx).symm

theorem alike_of_trees (m : Memory) {f F : Forest} (hf : Sound f) (hF : Sound F) {ts : List Tree}
    (htree : f.tree root = .root [.selector ts])
    (htree' : F.tree root = .root [.selector [.functional ":local" [.selector ts]]])
    (hleaves : ∀ t ∈ ts, t.children = [])
    (hscope : ∀ t ∈ ts, scopesNamespace ⟨scope, .locally⟩ t.label.ns = true) :
    ∃ pairs, Alike scope ⟨m.refresh, f⟩ ⟨m.refresh, F⟩ pairs := by
  obtain ⟨-, s, htop, hslt, hs⟩ := child_of_tree hf hf.rooted.bound htree
  obtain ⟨hslabel, hrow, hbare⟩ := row_of_tree hf hslt hs hleaves
  obtain ⟨-, o, htop', holt, ho⟩ := child_of_tree hF hF.rooted.bound htree'
  obtain ⟨holabel, q, hochildren, hqlt, hq⟩ := child_of_tree hF holt ho
  obtain ⟨hqlabel, a, hqchildren, halt, ha⟩ := child_of_tree hF hqlt hq
  obtain ⟨halabel, hrow', hbare'⟩ := row_of_tree hF halt ha hleaves
  have hmap := hrow.trans hrow'.symm
  have hlength := congrArg List.length hmap
  rw [List.length_map, List.length_map] at hlength
  refine ⟨_, ⟨?_, rfl, .held ?_ rfl, label_of_mem_zip hmap, ?_, rfl, rfl⟩⟩
  · rw [List.map_fst_zip hlength.le]
    exact ⟨[s], ⟨hf, ⟨htop, rfl⟩, hbare⟩, congrArg (fun l => [l]) hslabel⟩
  · rw [List.map_snd_zip hlength.ge]
    refine ⟨[o, q, a], ⟨hF, ⟨htop', hochildren, hqchildren, rfl⟩, hbare'⟩, ?_⟩
    rw [List.map_cons, List.map_cons, List.map_singleton, holabel, hqlabel, halabel]
    rfl
  · intro x hx
    have hmem := List.mem_map_of_mem (f := f.label) (List.of_mem_zip hx).1
    rw [hrow] at hmem
    obtain ⟨t, ht, hlabel⟩ := List.mem_map.1 hmem
    exact hlabel ▸ hscope t ht

theorem leaves_of_parse {text : String} {t : Tree} (h : parse text = .ok (.root [t]))
    (hplain : t.All fun l => l.kind ≠ .pseudo true) :
    ∃ nodes, t = .selector nodes ∧ ∀ u ∈ nodes, u.children = [] := by
  obtain ⟨_, hroot, hreads⟩ := parse_eq_ok_iff.1 h
  cases hroot
  cases hreads.shaped (.empty _) nofun t (List.mem_singleton_self t) with
  | @selector nodes _ _ hnodes =>
    refine ⟨nodes, rfl, ?_⟩
    intro u hu
    cases hnodes u hu with
    | leaf => rfl
    | functional => exact ((hplain.children _ hu).label rfl).elim

theorem isPseudoName_local : IsPseudoName ":local" := by
  have hchars : "local".toList.all isNameChar = true := by decide
  have hname : IsName "local".toList := by
    refine ⟨by decide, run_of_isNameChar (List.all_eq_true.1 hchars) (by decide), ?_⟩
    intro c hc
    have heq : some 'l' = some c := hc
    cases heq
    decide
  exact .single hname

namespace Resolver

/-- A selector of the scope comes out of the global mode, put into an escape, as it comes out of the
local mode, and both tell the same. -/
theorem run_local_escape (m : Memory) (scope : String) {text : String} {t : Tree}
    (h : parse text = .ok (.root [t])) (hend : text.toList.getLast? ≠ some '\\')
    (hplain : t.All fun l => l.kind ≠ .pseudo true)
    (hscope : t.All fun l => ∀ ns ∈ l.ns, ns = .named scope) :
    ∃ out r₁ r₂, run ⟨m, ⟨scope, .globally⟩⟩ (":local(" ++ text ++ ")") = .ok (out, r₁) ∧
      run ⟨m, ⟨scope, .locally⟩⟩ text = .ok (out, r₂) ∧ r₁.elements = r₂.elements ∧
      r₁.hashes = r₂.hashes := by
  obtain ⟨nodes, rfl, hleaves⟩ := leaves_of_parse h hplain
  -- the local mode scopes all that an escape of the global mode does
  have hown : ∀ u ∈ nodes, scopesNamespace ⟨scope, .locally⟩ u.label.ns = true := by
    intro u hu
    obtain ⟨⟨kind, value, ns⟩, us⟩ := u
    have hns := (hscope.children _ hu).label
    cases ns with
    | none => rfl
    | some ns =>
      rw [hns ns rfl]
      simp [scopesNamespace, Tree.label]
  obtain ⟨hsound, -, htree⟩ := ofTree_sound [.selector nodes]
  obtain ⟨hsound', -, htree'⟩ := ofTree_sound [.selector [.functional ":local" [.selector nodes]]]
  obtain ⟨pairs, halike⟩ := alike_of_trees m hsound hsound' htree htree' hleaves hown
  obtain ⟨hrender, hmemory⟩ := halike.transform
  have hescaped := parse_functional isPseudoName_local h hend
  refine ⟨_, _, _, run_of_parsed _ hescaped, ?_, hmemory⟩
  rw [run_of_parsed _ h, hrender]

def barredTags : Tree :=
  .selector [.node ⟨.tag, "a", some (.named "s")⟩ [], .leaf .combinator "|", .leaf .tag "b"]

theorem run_local_escape_barredTags :
    parse "s|a|b" = .ok (.root [barredTags]) ∧ "s|a|b".toList.getLast? ≠ some '\\' ∧
      (barredTags.All fun l => l.kind ≠ .pseudo true) ∧
      (barredTags.All fun l => ∀ ns ∈ l.ns, ns = .named "s") ∧
      ∃ out r₁ r₂, run ⟨.empty, ⟨"s", .globally⟩⟩ (":local(" ++ "s|a|b" ++ ")") = .ok (out, r₁) ∧
        run ⟨.empty, ⟨"s", .locally⟩⟩ "s|a|b" = .ok (out, r₂) ∧ r₁.elements = r₂.elements ∧
        r₁.hashes = r₂.hashes := by
  have hparse : parse "s|a|b" = .ok (.root [barredTags]) := by
    have ha : ComponentAt (.node (.node ⟨.tag, "a", some (.named "s")⟩ [])) "s|a".toList "|b".toList :=
      .element ⟨by decide, by decide⟩ (.tag ⟨by decide, by decide⟩)
    have hbar : ComponentAt (.node (.leaf .combinator "|")) "|".toList "b".toList :=
      .combinator (.inr rfl)
    have hb : ComponentAt (.node (.leaf .tag "b")) "b".toList [] := .tag ⟨by decide, by decide⟩ rfl
    refine parse_eq_ok_iff.2 ⟨_, rfl, ?_⟩
    refine ha.reads rfl rfl ?_
    refine hbar.reads rfl rfl ?_
    exact hb.reads rfl rfl (.done tight_nil (.done rfl rfl))
  have hplain : barredTags.All fun l => l.kind ≠ .pseudo true := by
    simp [barredTags, Tree.selector, Tree.leaf, Tree.All.node_iff]
  have hscope : barredTags.All fun l => ∀ ns ∈ l.ns, ns = .named "s" := by
    simp [barredTags, Tree.selector, Tree.leaf, Tree.All.node_iff]
  have hend : "s|a|b".toList.getLast? ≠ some '\\' := by decide
  exact ⟨hparse, hend, hplain, hscope, run_local_escape .empty "s" hparse hend hplain hscope⟩

end Resolver

end ScopedStyles.Scope
