import ScopedStyles.Proofs.Resolver.Phases

namespace ScopedStyles.Scope

open Selector Forest

variable {f : Forest} {kids : Nat → List Nat} {rank : Nat → Nat}

theorem scopeForest_eq_static (c : Config) (m : Memory) (hf : Layered f kids rank)
    (halone : (f.get root).parent = none) (hqualified : (f.tree root).All Label.Qualified)
    (hbar : (f.tree root).All fun l => ¬ IsBar l) :
    (scopeForest c m f).forest.tree root = scopeTree c (f.tree root) := by
  have hbecomes : Becomes c (judge c f) f.label kids (kids root)
      (scopeNodes c none (some (f.label root)) ((kids root).map f.tree)) := by
    apply becomes_nodes
    intro i hi
    have hchild := all_below hf.linked hf.graded hf.bound hqualified (Below.child .refl hi)
    have hstatic := becomes_static (c := c) hf _ .refl hi rfl hchild
    rwa [halone] at hstatic
  have hunbarred : ∀ i, Below kids root i → ¬ IsBar (f.label i) := by
    intro i hi
    have hall := all_below hf.linked hf.graded hf.bound hbar hi
    rw [tree_eq hf.linked hf.graded (hf.lt hi)] at hall
    exact hall.label
  have hstart : Underway c (judge c f)
      (scopeNodes c none (some (f.label root)) ((kids root).map f.tree)) ⟨m.refresh, f⟩ kids rank := by
    refine ⟨⟨hf, hunbarred, hbecomes⟩, nofun, ?_⟩
    intro i _ _
    rw [decide_fst]
    rfl
  obtain ⟨kids₁, rank₁, h₁, hshrunk₁, hattributes⟩ :=
    phase_underway (fun _ => isScopable_of_isAttribute) scopeAttribute_underway hstart
  obtain ⟨kids₂, rank₂, h₂, hshrunk₂, htags⟩ :=
    phase_underway (fun _ => isScopable_of_isTag) scopeTag_underway h₁
  have hscoped : ∀ i, Below kids₂ root i → isScopable (((Pass.scopeAttributes c
      ⟨m.refresh, f⟩).scopeTags c).forest.label i) = true → judge c f i = false := by
    intro i hi hscopable
    rcases Bool.or_eq_true_iff.1 hscopable with hattribute | htag
    · have hbelow := hshrunk₂.below hi (ne_class_of_isScopable hscopable)
      have hlabel := hshrunk₂.label i (h₁.heading.layered.lt hbelow)
      exact hattributes i hbelow (hlabel ▸ hattribute)
    · exact htags i hi htag
  have hroot := (hshrunk₁.trans hf h₁.heading.layered.linked hshrunk₂).label root hf.bound
  have hlast := unwrapEscapes_tree h₂.heading hscoped
  rw [hroot] at hlast
  apply hlast.trans
  rw [tree_eq hf.linked hf.graded hf.bound]
  unfold scopeTree
  rfl

/-- What a run returns is the printed form of the parsed tree, scoped in one pass. -/
theorem Resolver.run_eq_static (r : Resolver) {rule : String} {t : Tree} (h : parse rule = .ok t)
    (hbar : t.All fun l => ¬ IsBar l) :
    (r.run rule).map Prod.fst = .ok (scopeTree r.config t).render := by
  obtain ⟨selectors, rfl, hlayered, hqualified⟩ := parse_shape h
  obtain ⟨kids, hlinked, hgraded, hsize, htree⟩ := ofTree_planted (.root selectors)
  have hlabel := (Tree.node.inj ((tree_eq hlinked hgraded hsize).symm.trans htree)).1
  have hkind : ((ofTree (.root selectors)).label root).kind = .root := by
    rw [hlabel]
  have hf : Layered (ofTree (.root selectors)) kids id :=
    layered_of_tree hlinked hgraded hsize hkind (htree.symm ▸ hlayered)
  have halone : ((ofTree (.root selectors)).get root).parent = none :=
    (hlinked.orphan fun q hq => Nat.not_lt_zero _ (hgraded.above hq)).1
  have hstatic := scopeForest_eq_static r.config r.toMemory hf halone
    (htree.symm ▸ hqualified) (htree.symm ▸ hbar)
  rw [htree] at hstatic
  unfold run
  rw [h]
  exact congrArg (fun u : Tree => Except.ok u.render) hstatic

def tagInEscape : Tree :=
  .functional ":global" [.selector [.leaf .tag "a"]]

theorem reads_tagInEscape {rest : List Char} {selectors : List Tree}
    (h : Reads ⟨⟨[], [tagInEscape]⟩, []⟩ rest selectors) :
    Reads .start (":global(a)".toList ++ rest) selectors := by
  have hname : NameBefore "global".toList ('(' :: 'a' :: ')' :: rest) := ⟨by decide, rfl⟩
  have hopening : ComponentAt (.opening ":global") ":global(".toList ('a' :: ')' :: rest) :=
    .opening trivia_nil (.single hname) (tight_cons (by decide) (by decide) _) (by simp)
  have ha : ComponentAt (.node (.leaf .tag "a")) "a".toList (')' :: rest) :=
    .tag ⟨by decide, rfl⟩ rfl
  refine hopening.reads rfl rfl ?_
  refine ha.reads rfl rfl ?_
  exact .more (tight_cons (by decide) (by decide) _) (.close rfl rfl) h

def escapedTag : Tree :=
  .root [.selector [tagInEscape, .leaf .tag "b"]]

theorem parse_escapedTag : parse ":global(a)b" = .ok escapedTag := by
  have hb : ComponentAt (.node (.leaf .tag "b")) "b".toList [] :=
    .tag ⟨by decide, by decide⟩ rfl
  refine parse_eq_ok_iff.2 ⟨_, rfl, reads_tagInEscape ?_⟩
  refine hb.reads rfl rfl ?_
  exact .done tight_nil (.done rfl rfl)

def quotedAttribute : Tree :=
  .root [.selector [tagInEscape, .leaf .tag "b",
    .node ⟨.attribute ⟨some "=", some "\"d\"", none⟩, "c", some (.named "s")⟩ []]]

theorem parse_quotedAttribute : parse ":global(a)b[s|c=\"d\"]" = .ok quotedAttribute := by
  have hb : ComponentAt (.node (.leaf .tag "b")) "b".toList "[s|c=\"d\"]".toList :=
    .tag ⟨by decide, by decide⟩ rfl
  have hprefix : NameBefore "s".toList "|c=\"d\"]".toList := ⟨by decide, by decide⟩
  have hname : NameBefore "c".toList "=\"d\"]".toList := ⟨by decide, by decide⟩
  have hquoted : Quoted '"' "d\"".toList := fun k => by
    simp [takeQuoted]
  have hbracket : ComponentAt (.node (.node ⟨.attribute ⟨some "=", some "\"d\"", none⟩, "c",
      some (.named "s")⟩ [])) "[s|c=\"d\"]".toList [] :=
    .equals (.prefixed hprefix hname) (tight_cons (by decide) (by decide) _) (.quoted (by decide) hquoted)
      (tight_cons (by decide) (by decide) _)
  refine parse_eq_ok_iff.2 ⟨_, rfl, reads_tagInEscape ?_⟩
  refine hb.reads rfl rfl ?_
  refine hbracket.reads rfl rfl ?_
  exact .done tight_nil (.done rfl rfl)

theorem unbarred_quotedAttribute : quotedAttribute.All fun l => ¬ IsBar l := by
  simp [quotedAttribute, tagInEscape, Tree.root, Tree.selector, Tree.functional, Tree.leaf,
    Tree.All.node_iff, IsBar]

/-- The tag in the escape stays as it is. Behind it, the tag and the attribute are scoped, and the
quotes of the value are left out. -/
theorem Resolver.run_quotedAttribute :
    parse ":global(a)b[s|c=\"d\"]" = .ok quotedAttribute ∧ (quotedAttribute.All fun l => ¬ IsBar l) ∧
      ((Resolver.new ⟨"s", .locally⟩).run ":global(a)b[s|c=\"d\"]").map Prod.fst =
        .ok "a.__b._s--c._s--c_d" := by
  have hstatic := run_eq_static (Resolver.new ⟨"s", .locally⟩) parse_quotedAttribute
    unbarred_quotedAttribute
  have hrender : (scopeTree ⟨"s", .locally⟩ quotedAttribute).render = "a.__b._s--c._s--c_d" := by
    decide
  exact ⟨parse_quotedAttribute, unbarred_quotedAttribute, hstatic.trans (congrArg Except.ok hrender)⟩

end ScopedStyles.Scope
