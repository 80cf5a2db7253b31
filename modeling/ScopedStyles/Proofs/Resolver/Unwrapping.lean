import ScopedStyles.Proofs.Resolver.Globally
import ScopedStyles.Proofs.Selector.Legible.Parsing
import ScopedStyles.Proofs.Selector.Legible.Printing

namespace ScopedStyles.Scope

open Selector

variable {c : Config} {t : Tree} {nodes : List Tree} {args : List (List Tree)} {e : Bool}
  {holder parent : Option Label}

theorem scopeNodes_eq_flatMap (c : Config) (holder parent : Option Label) (ts : List Tree) :
    scopeNodes c holder parent ts = ts.flatMap (scopeNode c holder parent) := by
  induction ts with
  | nil => rw [scopeNodes, List.flatMap_nil]
  | cons t ts ih => rw [scopeNodes, List.flatMap_cons, ih]

theorem scopeNode_selector (c : Config) (holder parent : Option Label) (nodes : List Tree) :
    scopeNode c holder parent (.selector nodes) =
      [.selector (scopeNodes c parent (some ⟨.selector, "", none⟩) nodes)] := by
  rw [Tree.selector, scopeNode]
  rfl

theorem scopeNodes_selectors (c : Config) (holder parent : Option Label) (args : List (List Tree)) :
    scopeNodes c holder parent (args.map .selector) =
      (args.map (scopeNodes c parent (some ⟨.selector, "", none⟩))).map .selector := by
  rw [scopeNodes_eq_flatMap]
  induction args with
  | nil => rfl
  | cons nodes args ih =>
    rw [List.map_cons, List.flatMap_cons, scopeNode_selector, ih]
    rfl

def Config.Named (c : Config) : Prop :=
  ∀ d ∈ c.scope.toList, isNameChar d = true

theorem Config.Named.run (hc : c.Named) : Run (c.scope ++ "--").toList := by
  have hdash : isNameChar '-' = true := by
    decide
  rw [String.toList_append]
  apply run_of_isNameChar
  · exact List.forall_mem_append.2 ⟨hc, List.forall_mem_cons.2 ⟨hdash, List.forall_mem_singleton.2 hdash⟩⟩
  · rw [List.getLast?_append]
    exact nofun

theorem run_underscore : Run ['_'] :=
  .char (by decide) (by decide) .nil

theorem Config.Named.classFor_tag (hc : c.Named) {l : Label} (htag : l.isTag = true) {r : List Char}
    (h : NameBefore l.value.toList r) : NameBefore (classFor c l).toList r := by
  have hmarks : Run ['_', '_'] := run_underscore.append run_underscore
  rw [classFor, if_pos htag, String.toList_append]
  apply NameBefore.behind_run _ hmarks
  split
  · rw [String.toList_append]
    exact h.behind_run hc.run
  · exact h

theorem tag_name {x r : List Char} (h : ComponentAt (.node t) x r) (htag : t.label.isTag = true) :
    NameBefore t.label.value.toList r := by
  have helement : ∀ {p y}, ElementAt p t y r → NameBefore t.label.value.toList r := by
    intro p y ht
    cases ht with
    | universal => cases htag
    | tag hname => exact hname
  cases h with
  | tag hname => exact hname
  | anyElement ht => exact helement ht
  | element _ ht => exact helement ht
  | bracket ht =>
    cases ht with
    | intro => cases htag
  | _ => cases htag

theorem simple_className (name : String) : (Tree.leaf .className name).All Label.Simple :=
  .childless ⟨rfl, fun h => nomatch h.1⟩

/-- What the scoped node leaves in its place. -/
structure Leaves (c : Config) (holder parent : Option Label) (e : Bool) (t : Tree) : Prop where
  some : scopeNode c holder parent t ≠ []
  stretch : t ≠ space → Stretch (scopeNode c holder parent t)
  firm : ToLast Firm e (scopeNode c holder parent t)

theorem leaves_of_eq {u : Tree} (h : scopeNode c holder parent t = [u]) (hne : t ≠ space → u ≠ space)
    (hfirm : Firm e u) : Leaves c holder parent e t := by
  refine ⟨?_, ?_, ?_⟩
  · rw [h]
    exact List.cons_ne_nil _ _
  · intro ht
    rw [h]
    exact ⟨List.cons_ne_nil _ _, fun heq => hne ht (Option.some.inj heq),
      fun heq => hne ht (Option.some.inj heq)⟩
  · rw [h]
    exact ⟨by rwa [List.isEmpty_nil, Bool.and_true], trivial⟩

theorem scopeNode_childless (c : Config) (holder parent : Option Label) (l : Label) :
    scopeNode c holder parent (.node l []) =
      if isScopable l && decides c holder l.ns then [.leaf .className (classFor c l)]
      else [.node l []] := by
  rw [scopeNode, scopeNodes]
  simp

theorem leaves_component {x r : List Char} (hc : c.Named) (h : ComponentAt (.node t) x r)
    (htight : Tight (x ++ r)) (hsimple : t.All Label.Simple) (hend : r = [] → e = true) :
    Leaves c holder parent e t := by
  have hne := h.ne_space htight
  obtain ⟨l, rfl, -⟩ := h.childless
  have hscoped := scopeNode_childless c holder parent l
  split at hscoped
  · next hscopable =>
    have htag : l.isTag = true := by
      rcases Bool.or_eq_true_iff.1 (Bool.and_eq_true_iff.1 hscopable).1 with hattribute | htag
      · rw [hsimple.label.1] at hattribute
        cases hattribute
      · exact htag
    have hclass : ComponentAt (.node (.leaf .className (classFor c l)))
        ('.' :: (classFor c l).toList) r := .className (hc.classFor_tag htag (tag_name h htag))
    exact leaves_of_eq hscoped (fun _ => nofun)
      (.component hclass (tight_cons (by decide) (by decide) _) (simple_className _) hend)
  · exact leaves_of_eq hscoped id (.component h htight hsimple hend)

theorem stretch_scopeNodes (h : Stretch nodes)
    (hnodes : ∀ t ∈ nodes, t ≠ space → Stretch (scopeNode c holder parent t)) :
    Stretch (scopeNodes c holder parent nodes) := by
  have hhead : ∀ t ∈ nodes.head?, Stretch (scopeNode c holder parent t) := by
    intro t ht
    refine hnodes t (List.mem_of_mem_head? ht) ?_
    rintro rfl
    exact h.first ht
  have hlast : ∀ t ∈ nodes.getLast?, Stretch (scopeNode c holder parent t) := by
    intro t ht
    refine hnodes t (List.mem_of_mem_getLast? ht) ?_
    rintro rfl
    exact h.last ht
  have hfront : ∃ t rest, nodes = t :: rest := List.exists_cons_of_ne_nil h.notEmpty
  have hback : ∃ front t, nodes = front ++ [t] :=
    ⟨_, _, (List.dropLast_append_getLast h.notEmpty).symm⟩
  rw [scopeNodes_eq_flatMap]
  obtain ⟨t, rest, ht⟩ := hfront
  have hstart := hhead t (by rw [ht]; rfl)
  refine ⟨?_, ?_, ?_⟩
  · rw [ht, List.flatMap_cons]
    exact List.append_ne_nil_of_left_ne_nil hstart.notEmpty _
  · rw [ht, List.flatMap_cons, List.head?_append_of_ne_nil _ hstart.notEmpty]
    exact hstart.first
  · obtain ⟨front, u, hu⟩ := hback
    have hend := hlast u (by rw [hu, List.getLast?_concat]; rfl)
    rw [hu, List.flatMap_append, List.flatMap_singleton, List.getLast?_append_of_ne_nil _ hend.notEmpty]
    exact hend.last

theorem firm_scopeNodes (hnodes : ToLast (Leaves c holder parent) e nodes) :
    ToLast Firm e (scopeNodes c holder parent nodes) := by
  induction nodes with
  | nil =>
    rw [scopeNodes]
    trivial
  | cons t nodes ih =>
    rw [scopeNodes]
    have hrest := ih hnodes.2
    -- only what the last node leaves can stand at the end
    cases nodes with
    | nil =>
      have ht := hnodes.1.firm
      rw [List.isEmpty_nil, Bool.and_true] at ht
      rwa [scopeNodes, List.append_nil]
    | cons u nodes =>
      have ht := hnodes.1.firm
      rw [List.isEmpty_cons, Bool.and_false, toLast_false] at ht
      refine (toLast_append ?_).2 ⟨ht, hrest⟩
      rw [scopeNodes]
      exact List.append_ne_nil_of_left_ne_nil hnodes.2.1.some _

theorem stretch_of_leaves (h : Stretch nodes) (hnodes : ToLast (Leaves c holder parent) e nodes) :
    Stretch (scopeNodes c holder parent nodes) := by
  apply stretch_scopeNodes h
  intro t ht
  obtain ⟨e', hleaves⟩ := hnodes.exists t ht
  exact hleaves.stretch

theorem leaves_functional {name : String} {x r : List Char} (hname : PseudoNameAt name x ('(' :: r))
    (hsome : args ≠ []) (hargs : ∀ ns ∈ args, Stretch ns)
    (hnodes : ∀ ns ∈ args, ∀ t ∈ ns, ∀ holder parent, Leaves c holder parent false t) :
    Leaves c holder parent e (.functional name (args.map .selector)) := by
  let l : Label := ⟨.pseudo true, name, none⟩
  let inner : List Tree → List Tree := scopeNodes c (some l) (some ⟨.selector, "", none⟩)
  have hleaves : ∀ ns ∈ args, ToLast (Leaves c (some l) (some ⟨.selector, "", none⟩)) false ns :=
    fun ns hns => toLast_false.2 fun t ht => hnodes ns hns t ht _ _
  have hstretch : ∀ ns ∈ args, Stretch (inner ns) :=
    fun ns hns => stretch_of_leaves (hargs ns hns) (hleaves ns hns)
  have hfirm : ∀ ns ∈ args, ∀ t ∈ inner ns, Firm false t :=
    fun ns hns => toLast_false.1 (firm_scopeNodes (hleaves ns hns))
  have hscope : scopeNode c holder parent (.functional name (args.map .selector)) =
      if isEscape c l && args.length == 1 then ((args.map inner).map Tree.selector).flatMap Tree.children
      else [.functional name ((args.map inner).map .selector)] := by
    rw [Tree.functional, scopeNode, scopeNodes_selectors, List.length_map]
    rfl
  split at hscope
  · next hescape =>
    have hone : args.length = 1 := beq_iff_eq.1 (Bool.and_eq_true_iff.1 hescape).2
    obtain ⟨ns, rfl⟩ := List.length_eq_one_iff.1 hone
    -- the content takes the place of the escape, which may be the last of the list
    have hcontent : scopeNode c holder parent (.functional name ([ns].map .selector)) = inner ns :=
      hscope.trans (List.append_nil _)
    have hns := hstretch ns List.mem_cons_self
    refine ⟨hcontent ▸ hns.notEmpty, fun _ => hcontent ▸ hns, ?_⟩
    rw [hcontent]
    have hfalse := toLast_false.2 (hfirm ns List.mem_cons_self)
    cases e with
    | false => exact hfalse
    | true => exact hfalse.mono fun _ ht => ht.mono
  · have hkept : Firm e (.functional name ((args.map inner).map .selector)) := by
      apply Firm.functional hname
      · exact fun hnil => hsome (List.map_eq_nil_iff.1 hnil)
      · exact List.forall_mem_map.2 hstretch
      · exact List.forall_mem_map.2 hfirm
    exact leaves_of_eq hscope (fun _ heq => by cases heq) hkept

theorem leaves_of_firm (hc : c.Named) (h : Firm e t) (holder parent : Option Label) :
    Leaves c holder parent e t := by
  induction h generalizing holder parent with
  | component h htight hsimple hend => exact leaves_component hc h htight hsimple hend
  | space => exact leaves_of_eq (scopeNode_childless c holder parent _) (fun hne => hne) .space
  | functional hname hsome hargs _ ih => exact leaves_functional hname hsome hargs ih

theorem firmList_scopeTree (hc : c.Named) (h : FirmList t) : FirmList (scopeTree c t) := by
  cases h with
  | @root args hsome hargs hnodes =>
    let inner : List Tree → List Tree :=
      scopeNodes c (some ⟨.root, "", none⟩) (some ⟨.selector, "", none⟩)
    have hleaves : ToLast (ToLast (Leaves c (some ⟨.root, "", none⟩) (some ⟨.selector, "", none⟩)))
        true args :=
      hnodes.imp fun ns _ _ hns => hns.imp fun t _ _ ht => leaves_of_firm hc ht _ _
    have hscope : scopeTree c (.root (args.map .selector)) = .root ((args.map inner).map .selector) := by
      rw [Tree.root, scopeTree, scopeNodes_selectors]
      rfl
    have hstretch : ∀ ns ∈ args, Stretch (inner ns) := by
      intro ns hns
      obtain ⟨e, hns'⟩ := hleaves.exists ns hns
      exact stretch_of_leaves (hargs ns hns) hns'
    rw [hscope]
    apply FirmList.root
    · exact fun hnil => hsome (List.map_eq_nil_iff.1 hnil)
    · exact List.forall_mem_map.2 hstretch
    · exact toLast_map.2 (hleaves.imp fun ns _ _ hns => firm_scopeNodes hns)

section Kept

/-- Neighbours that can be told apart from `t` can be told apart from `u`. -/
structure StandsIn (u t : Tree) : Prop where
  ends : u.endsInName = true → t.endsInName = true
  begins : t.beginsWithName = false → u.beginsWithName = false
  space : u = space → t = space
  combinator : t.label.isCombinator = false → u.label.isCombinator = false
  relation : t.isRelation = false → u.isRelation = false

theorem abuts_of_standsIn {t t' u u' : Tree} (h : Abuts t t') (hu : StandsIn u t)
    (hu' : StandsIn u' t') : Abuts u u' where
  name hends := hu'.begins (h.name (hu.ends hends))
  before hspace := hu.combinator (h.before (hu'.space hspace))
  behind hspace := hu'.relation (h.behind (hu.space hspace))

/-- In the place of the node stands one that can be told apart from the same neighbours. -/
def Keeps (c : Config) (holder parent : Option Label) (t : Tree) : Prop :=
  ∃ u, scopeNode c holder parent t = [u] ∧ StandsIn u t ∧ Legible u

theorem keeps_nodes (hchain : nodes.IsChain Abuts) (hnodes : ∀ t ∈ nodes, Keeps c holder parent t) :
    (scopeNodes c holder parent nodes).IsChain Abuts ∧
      (∀ u ∈ scopeNodes c holder parent nodes, Legible u) ∧
      (scopeNodes c holder parent nodes = [] → nodes = []) := by
  induction nodes with
  | nil =>
    rw [scopeNodes]
    exact ⟨.nil, nofun, fun _ => rfl⟩
  | cons t nodes ih =>
    obtain ⟨⟨u, hu, hstands, hlegible⟩, hrest⟩ := List.forall_mem_cons.1 hnodes
    obtain ⟨habuts, hchain⟩ := List.isChain_cons.1 hchain
    obtain ⟨hinner, hall, -⟩ := ih hchain hrest
    rw [scopeNodes, hu, List.singleton_append]
    refine ⟨List.isChain_cons.2 ⟨?_, hinner⟩, List.forall_mem_cons.2 ⟨hlegible, hall⟩, nofun⟩
    cases nodes with
    | nil =>
      rw [scopeNodes]
      exact nofun
    | cons t' nodes =>
      obtain ⟨u', hu', hstands', -⟩ := hrest t' List.mem_cons_self
      intro v hv
      rw [scopeNodes, hu'] at hv
      cases hv
      exact abuts_of_standsIn (habuts t' rfl) hstands hstands'

theorem keeps_of_unescaped (hlegible : Legible t) (hsimple : t.All Label.Simple)
    (hescape : t.All fun l => isEscape c l = false) (holder parent : Option Label) :
    Keeps c holder parent t := by
  induction t using Tree.induct generalizing holder parent with
  | node l ts ih =>
    rw [Keeps, scopeNode]
    split
    · next hscoped =>
      have htag : l.kind = .tag := by
        rcases Bool.or_eq_true_iff.1 (Bool.and_eq_true_iff.1 hscoped).1 with hattribute | htag
        · rw [hsimple.label.1] at hattribute
          cases hattribute
        · exact beq_iff_eq.1 htag
      refine ⟨_, rfl, ⟨fun _ => ?_, fun _ => rfl, nofun, fun _ => rfl, fun _ => rfl⟩, legible_leaf _⟩
      simp only [Tree.endsInName, Tree.label, htag]
    · have hinner := keeps_nodes hlegible.chain fun t ht => ih t ht (hlegible.children t ht)
        (hsimple.children t ht) (hescape.children t ht) parent (some l)
      obtain ⟨hchain, hlegible', hempty⟩ := hinner
      rw [hescape.label, Bool.false_and, if_neg Bool.false_ne_true]
      refine ⟨_, rfl, ⟨id, id, ?_, id, id⟩, .node hchain hlegible'⟩
      intro hspace
      obtain ⟨rfl, hnil⟩ := Tree.node.inj hspace
      rw [hempty hnil]
      rfl

theorem legible_of_unescaped (hlegible : Legible t) (hsimple : t.All Label.Simple)
    (hescape : t.All fun l => isEscape c l = false) : Legible (scopeTree c t) := by
  cases t with
  | node l ts =>
    have hinner := keeps_nodes (c := c) hlegible.chain fun t ht => keeps_of_unescaped
      (hlegible.children t ht) (hsimple.children t ht) (hescape.children t ht) none (some l)
    rw [scopeTree]
    exact .node hinner.1 hinner.2.1

end Kept

/-- The scoped list is read from its printed form, exactly if its neighbours can be told apart. -/
theorem parse_scopeTree_iff (hc : c.Named) (h : FirmList t) :
    parse (scopeTree c t).render = .ok (scopeTree c t) ↔ Legible (scopeTree c t) := by
  have hscoped := firmList_scopeTree hc h
  constructor
  · intro hread
    exact (sound_of_parse hread hscoped.simple).2
  · exact hscoped.parse

namespace Resolver

theorem transform_eq_static (r : Resolver) {rule : String} (h : parse rule = .ok t)
    (hbar : t.All fun l => ¬ IsBar l) :
    (r.transform (.ofTree t)).1.tree Forest.root = scopeTree r.config t := by
  obtain ⟨kids, hf, htree⟩ := layered_of_parse h
  obtain ⟨_, -, -, hqualified⟩ := parse_shape h
  have halone := (hf.linked.orphan fun q hq => Nat.not_lt_zero _ (hf.graded.above hq)).1
  have hstatic := scopeForest_eq_static r.config r.toMemory hf halone (htree.symm ▸ hqualified)
    (htree.symm ▸ hbar)
  rwa [htree] at hstatic

/-- What a run returns is read as the tree that the run leaves, exactly if the neighbours in this tree can
be told apart. Without an escape they always can. -/
theorem run_reread_iff (r : Resolver) (hscope : r.config.Named) {rule : String}
    (h : parse rule = .ok t) (hsimple : t.All Label.Simple) :
    ∃ out r', r.run rule = .ok (out, r') ∧
      (parse out = .ok ((r.transform (.ofTree t)).1.tree Forest.root) ↔
        Legible ((r.transform (.ofTree t)).1.tree Forest.root)) ∧
      ((t.All fun l => isEscape r.config l = false) →
        Legible ((r.transform (.ofTree t)).1.tree Forest.root)) := by
  refine ⟨_, _, run_of_parsed r h, ?_⟩
  rw [transform_eq_static r h (hsimple.imp fun l hl => hl.2)]
  obtain ⟨hfirm, hlegible⟩ := sound_of_parse h hsimple
  exact ⟨parse_scopeTree_iff hscope hfirm, legible_of_unescaped hlegible hsimple⟩

theorem named_new (mode : Mode) : (Resolver.new ⟨"s", mode⟩).config.Named := by
  have hchars : "s".toList = ['s'] := rfl
  intro d hd
  have hs : d ∈ "s".toList := hd
  rw [hchars, List.mem_singleton] at hs
  rw [hs]
  decide

theorem run_reread_escapedTag :
    (Resolver.new ⟨"s", .locally⟩).config.Named ∧ parse ":global(a)b" = .ok escapedTag ∧
      escapedTag.All Label.Simple ∧
      ∃ out r', (Resolver.new ⟨"s", .locally⟩).run ":global(a)b" = .ok (out, r') ∧
        parse out = .ok (.root [.selector [.leaf .tag "a", .leaf .className "__b"]]) := by
  have hsimple : escapedTag.All Label.Simple := by
    simp [escapedTag, tagInEscape, Tree.root, Tree.selector, Tree.functional, Tree.leaf, Tree.All.node_iff,
      Label.Simple, Label.isAttribute]
  have htree := transform_eq_static (Resolver.new ⟨"s", .locally⟩) parse_escapedTag
    (hsimple.imp fun l hl => hl.2)
  have hscoped : scopeTree (Resolver.new ⟨"s", .locally⟩).config escapedTag =
      .root [.selector [.leaf .tag "a", .leaf .className "__b"]] := rfl
  have hlegible : Legible (.root [.selector [.leaf .tag "a", .leaf .className "__b"]]) := by
    have habuts : Abuts (.leaf .tag "a") (.leaf .className "__b") :=
      ⟨fun _ => rfl, fun _ => rfl, fun _ => rfl⟩
    refine .node (.singleton _) (List.forall_mem_singleton.2 (.node (.cons_cons habuts (.singleton _)) ?_))
    simp [Tree.leaf, legible_leaf]
  obtain ⟨out, r', hrun, hread, -⟩ :=
    run_reread_iff (Resolver.new ⟨"s", .locally⟩) (named_new _) parse_escapedTag hsimple
  rw [htree, hscoped] at hread
  exact ⟨named_new _, parse_escapedTag, hsimple, out, r', hrun, hread.2 hlegible⟩

def escapedBehind : Tree :=
  .root [.selector [.leaf .className "x", .functional ":global" [.selector [.leaf .tag "b"]]]]

theorem parse_escapedBehind : parse ".x:global(b)" = .ok escapedBehind := by
  have hx : ComponentAt (.node (.leaf .className "x")) ".x".toList ":global(b)".toList :=
    .className ⟨by decide, by decide⟩
  have hname : NameBefore "global".toList "(b)".toList := ⟨by decide, by decide⟩
  have hglobal : PseudoNameAt (":" ++ "global") "global".toList "(b)".toList := .single hname
  have hopening : ComponentAt (.opening ":global") ":global(".toList "b)".toList :=
    .opening trivia_nil hglobal (tight_cons (by decide) (by decide) _) (by decide)
  have hb : ComponentAt (.node (.leaf .tag "b")) "b".toList ")".toList :=
    .tag ⟨by decide, by decide⟩ rfl
  refine parse_eq_ok_iff.2 ⟨_, rfl, ?_⟩
  refine hx.reads rfl rfl ?_
  refine hopening.reads rfl rfl ?_
  refine hb.reads rfl rfl ?_
  refine .more (tight_cons (by decide) (by decide) _) (.close rfl rfl) ?_
  exact .done tight_nil (.done rfl rfl)

/-- The tag becomes a part of the name of the class. -/
theorem not_reread_escapedBehind :
    ¬ ∀ (r : Resolver) (rule : String) (t : Tree), r.config.Named → parse rule = .ok t →
      t.All Label.Simple → ∃ out r', r.run rule = .ok (out, r') ∧
        parse out = .ok ((r.transform (.ofTree t)).1.tree Forest.root) := by
  intro hall
  have hsimple : escapedBehind.All Label.Simple := by
    simp [escapedBehind, Tree.root, Tree.selector, Tree.functional, Tree.leaf, Tree.All.node_iff,
      Label.Simple, Label.isAttribute]
  obtain ⟨out, r', hrun, hread⟩ :=
    hall (Resolver.new ⟨"s", .locally⟩) _ _ (named_new _) parse_escapedBehind hsimple
  rw [run_of_parsed _ parse_escapedBehind] at hrun
  obtain ⟨rfl, -⟩ := Prod.mk.inj (Except.ok.inj hrun)
  rw [transform_eq_static _ parse_escapedBehind (hsimple.imp fun l hl => hl.2)] at hread
  have hfirm := (sound_of_parse parse_escapedBehind hsimple).1
  have hlegible := (parse_scopeTree_iff (named_new _) hfirm).1 hread
  have hscoped : scopeTree (Resolver.new ⟨"s", .locally⟩).config escapedBehind =
      .root [.selector [.leaf .className "x", .leaf .tag "b"]] := rfl
  rw [hscoped] at hlegible
  have hchain := (hlegible.children _ List.mem_cons_self).chain
  have hbegins := (List.isChain_cons_cons.1 hchain).1.name rfl
  cases hbegins

end Resolver

end ScopedStyles.Scope
