import ScopedStyles.Proofs.Resolver.Unwrapping

namespace ScopedStyles.Scope

open Selector

variable {front nodes selectors : List Tree} {outer : List (String × Frame)} {cs r : List Char}

theorem reads_component_iff {s : Stack} {comp : Component} {c : Char} {x rest : List Char}
    (hx : ComponentAt comp x r) (hfront : c :: rest = x ++ r)
    (hc : (isBlank c || c == '/' || c == ',' || c == ')') = false) :
    Reads s (c :: rest) selectors ↔ Reads (s.add (s.frame.separate false c) comp) r selectors := by
  refine ⟨?_, hx.reads hfront hc⟩
  intro h
  simp only [Bool.or_eq_false_iff, beq_eq_false_iff_ne] at hc
  obtain ⟨⟨⟨hblank, hslash⟩, hcomma⟩, hclose⟩ := hc
  have hstep : step s (c :: rest) = .ok (.more (s.add (s.frame.separate false c) comp) r) := by
    refine step_eq_ok_iff.2 ⟨_, tight_cons hblank hslash rest, ?_⟩
    rw [bne_self_eq_false]
    exact .component hcomma hclose (hx.read hfront)
  rw [← readList_eq_ok_iff, readList_of_more hstep] at h
  exact readList_eq_ok_iff.1 h

theorem reads_class_iff {name : String} (hname : NameBefore name.toList r) :
    Reads ⟨⟨[], front⟩, outer⟩ ('.' :: (name.toList ++ r)) selectors ↔
      Reads ⟨⟨[], .leaf .className name :: front⟩, outer⟩ r selectors := by
  have hclass : ComponentAt (.node (.leaf .className name)) ('.' :: name.toList) r := .className hname
  apply (reads_component_iff hclass rfl (by decide)).trans
  rw [Frame.separate_false]
  rfl

theorem filler_of_spells {later : List (List Tree)} (h : Spells front nodes later cs)
    (hnodes : nodes = []) (hlater : later = []) : Filler cs := by
  cases h with
  | done hg _ => exact hg
  | comma => cases hlater
  | node => simp at hnodes
  | functional => simp at hnodes

theorem filler_of_reads (h : Reads ⟨⟨[], front⟩, []⟩ cs [.selector nodes]) (hready : Ready front cs)
    (hlength : nodes.length = front.length) : Filler cs := by
  obtain ⟨more, later, hspells, hresult⟩ := h.spelled_all hready
  obtain ⟨hselector, hlater⟩ := List.cons.inj hresult
  have hnodes : nodes = front.reverse ++ more := selector_injective hselector
  rw [hnodes, List.length_append, List.length_reverse] at hlength
  exact filler_of_spells hspells (List.length_eq_zero_iff.1 (by omega))
    (List.map_eq_nil_iff.1 hlater.symm)

/-- The text is read as the class of this name and, unless the value is empty, as one more class, which
begins with the name. -/
def ReadsAsClasses (text name value : String) : Prop :=
  if value = "" then parse text = .ok (.root [.selector [.leaf .className name]])
  else ∃ rest, parse text =
    .ok (.root [.selector [.leaf .className name, .leaf .className (name ++ "_" ++ rest)]])

variable {name : String}

theorem parse_class (hrun : Run name.toList) (hne : name.toList ≠ []) :
    parse ("." ++ name) = .ok (.root [.selector [.leaf .className name]]) := by
  have hname : NameBefore name.toList [] := ⟨hne, hrun.take endsName_nil⟩
  have htext : ("." ++ name).toList = '.' :: (name.toList ++ []) := by
    rw [String.toList_append, List.append_nil]
    rfl
  refine parse_eq_ok_iff.2 ⟨_, rfl, ?_⟩
  rw [htext]
  exact (reads_class_iff hname).2 (.done tight_nil (.done rfl rfl))

theorem name_value (hrun : Run name.toList) (value : String) :
    NameBefore (name ++ "_" ++ String.ofList (takeName value.toList).1).toList
      (takeName value.toList).2 := by
  have hchars : (name ++ "_" ++ String.ofList (takeName value.toList).1).toList =
      name.toList ++ (['_'] ++ (takeName value.toList).1) := by
    simp
  rw [hchars]
  refine ⟨List.append_ne_nil_of_right_ne_nil _ (List.cons_ne_nil _ _), ?_⟩
  rw [List.append_assoc, List.append_assoc, takeName_append value.toList, hrun.takeName_append,
    run_underscore.takeName_append]

/-- Where the value stands in the name of a class, no more than classes are read, exactly if only filler
stands behind the name in front of the value. -/
theorem parse_classes_iff (hrun : Run name.toList) (hne : name.toList ≠ []) (value : String) :
    (∃ rest, parse ("." ++ (name ++ "." ++ name ++ "_" ++ value)) =
      .ok (.root [.selector [.leaf .className name, .leaf .className (name ++ "_" ++ rest)]])) ↔
      Filler (takeName value.toList).2 := by
  -- the second name takes of the value what a name can take, and reading goes on behind it
  have hsecond := name_value hrun value
  generalize hrest : String.ofList (takeName value.toList).1 = rest at hsecond
  have hfirst : NameBefore name.toList
      ('.' :: ((name ++ "_" ++ rest).toList ++ (takeName value.toList).2)) :=
    ⟨hne, hrun.take (endsName_cons (by decide) _)⟩
  have htext : ("." ++ (name ++ "." ++ name ++ "_" ++ value)).toList = '.' :: (name.toList ++
      '.' :: ((name ++ "_" ++ rest).toList ++ (takeName value.toList).2)) := by
    rw [← hrest]
    simp [takeName_append]
  have hreads : ∀ selectors,
      Reads .start ("." ++ (name ++ "." ++ name ++ "_" ++ value)).toList selectors ↔
        Reads ⟨⟨[], [.leaf .className (name ++ "_" ++ rest), .leaf .className name]⟩, []⟩
          (takeName value.toList).2 selectors := by
    intro selectors
    rw [htext]
    exact (reads_class_iff hfirst).trans (reads_class_iff hsecond)
  constructor
  · rintro ⟨rest', hparse⟩
    obtain ⟨selectors, hroot, hstart⟩ := parse_eq_ok_iff.1 hparse
    cases hroot
    refine filler_of_reads ((hreads _).1 hstart) ⟨?_, nofun, nofun⟩ rfl
    intro last hlast _
    exact hsecond.ends
  · intro hfiller
    refine ⟨rest, parse_eq_ok_iff.2 ⟨_, rfl, (hreads _).2 ?_⟩⟩
    have hskip := hfiller.skip tight_nil
    rw [List.append_nil] at hskip
    exact .done hskip (.done rfl rfl)

def Bare (value : String) : Prop :=
  ∀ c ∈ value.toList.head?, isQuote c = false

/-- The name of an attribute that has been read, and its value if it is bare, are runs. -/
structure Written (l : Label) : Prop where
  name : Run l.value.toList
  bare : Bare (rawValue l) → Run (rawValue l).toList

theorem written_of_attributeAt {t : Tree} {x : List Char} (h : AttributeAt t x r) : Written t.label := by
  cases h with
  | @intro ns name m n o ts₁ ts₂ r _ _ hname _ _ hmatch =>
    have hbefore : NameBefore name.toList (ts₂ ++ (o ++ ']' :: r)) := by
      cases hname with
      | any hname => exact hname
      | barred hname => exact hname
      | prefixed _ hname => exact hname
      | plain hname _ => exact hname
    refine ⟨hbefore.run (by simp), ?_⟩
    intro hbare
    cases hmatch with
    | presence => exact .nil
    | full _ _ _ hvalue =>
      cases hvalue with
      | quoted hquote =>
        have hnot := hbare _ (congrArg List.head? String.toList_ofList)
        rw [hquote] at hnot
        cases hnot
      | name hname => exact hname.run (by simp)

theorem written_of_parse {text : String} {t : Tree} (h : parse text = .ok t) :
    t.All fun l => l.isAttribute = true → Written l := by
  have hcomponent : ∀ comp x r, ComponentAt comp x r →
      comp.All fun l => l.isAttribute = true → Written l := by
    intro comp x r hcomp
    cases hcomp with
    | opening => trivial
    | bracket ht =>
      have hwritten := written_of_attributeAt ht
      cases ht
      exact .childless fun _ => hwritten
    | anyElement ht =>
      cases ht with
      | universal => exact .childless nofun
      | tag => exact .childless nofun
    | element _ ht =>
      cases ht with
      | universal => exact .childless nofun
      | tag => exact .childless nofun
    | _ => exact .childless nofun
  have hframing : Framing fun l => l.isAttribute = true → Written l :=
    ⟨nofun, fun _ => nofun, nofun⟩
  obtain ⟨selectors, rfl, hreads⟩ := parse_eq_ok_iff.1 h
  exact .node nofun (hframing.all_selectors hcomponent hreads ⟨⟨nofun, nofun⟩, nofun⟩)

theorem filler_of_bare {value : String} (hbare : Bare value) (hrun : Run value.toList) :
    Filler (takeName (stripQuotes value).toList).2 := by
  have hfirst : value.toList.head?.any isQuote = false := by
    cases hhead : value.toList.head? with
    | none => rfl
    | some c => exact hbare c hhead
  have hwhole : (takeName value.toList).2 = [] := by
    have htake := hrun.take endsName_nil
    rw [List.append_nil] at htake
    rw [htake]
  rw [stripQuotes, hfirst, if_neg Bool.false_ne_true, String.toList_ofList]
  split
  · rw [hrun.takeName_dropLast]
    exact .nil
  · rw [hwhole]
    exact .nil

theorem run_scopedName {c : Config} (hc : c.Named) (hrun : Run name.toList)
    (ns : Option Namespace) : Run ("_" ++ scopedName c ns name).toList := by
  have hscoped : Run (scopedName c ns name).toList := by
    rw [scopedName]
    split
    · rw [String.toList_append]
      exact hc.run.append hrun
    · exact hrun
  rw [String.toList_append]
  exact run_underscore.append hscoped

def single (l : Label) : Tree :=
  .root [.selector [.node l []]]

theorem label_of_single {P : Label → Prop} {l : Label} (h : (single l).All P) : P l :=
  ((h.children _ List.mem_cons_self).children _ List.mem_cons_self).label

theorem scopeTree_attribute {c : Config} {l : Label} (hattribute : l.isAttribute = true)
    (hqualified : l.Qualified) (hns : scopesNamespace c l.ns = true) :
    scopeTree c (single l) = .root [.selector [.leaf .className (attributeClass c l)]] := by
  have hscopable := isScopable_of_isAttribute hattribute
  have hdecides : decides c (some ⟨.root, "", none⟩) l.ns = true :=
    (decides_none rfl hqualified).trans hns
  have hclass : classFor c l = attributeClass c l := by
    have hreplacement := replacement_eq (c := c) hqualified hscopable
    rw [replacement, hattribute] at hreplacement
    exact (congrArg Label.value hreplacement).symm
  have hselectors := scopeNodes_selectors c none (some ⟨.root, "", none⟩) [[.node l []]]
  simp only [List.map_singleton] at hselectors
  rw [single, Tree.root, scopeTree, hselectors, scopeNodes, scopeNodes, scopeNode_childless,
    hscopable, hdecides, hclass]
  rfl

theorem readsAsClasses_iff {c : Config} {l : Label} (hc : c.Named) (hname : Run l.value.toList) :
    ReadsAsClasses ("." ++ attributeClass c l) ("_" ++ scopedName c l.ns l.value)
        (stripQuotes (rawValue l)) ↔
      Filler (takeName (stripQuotes (rawValue l)).toList).2 := by
  have hrun := run_scopedName hc hname l.ns
  have hne : ("_" ++ scopedName c l.ns l.value).toList ≠ [] := by
    rw [String.toList_append]
    exact List.append_ne_nil_of_left_ne_nil (List.cons_ne_nil _ _) _
  rw [ReadsAsClasses, attributeClass]
  by_cases hempty : stripQuotes (rawValue l) = ""
  · rw [if_pos hempty, if_pos hempty, hempty]
    exact iff_of_true (parse_class hrun hne) .nil
  · rw [if_neg hempty, if_neg hempty]
    exact parse_classes_iff hrun hne _

namespace Resolver

theorem run_attribute (r : Resolver) {rule : String} {l : Label} (h : parse rule = .ok (single l))
    (hattribute : l.isAttribute = true) (hns : scopesNamespace r.config l.ns = true) :
    ∃ r', r.run rule = .ok ("." ++ attributeClass r.config l, r') := by
  have hkind : l.kind ≠ .combinator := by
    intro hkind
    rw [Label.isAttribute, hkind] at hattribute
    cases hattribute
  have hbar : (single l).All fun l => ¬ IsBar l := by
    have hroot : ¬ IsBar ⟨.root, "", none⟩ := fun h => absurd h.1 (by decide)
    have hselector : ¬ IsBar ⟨.selector, "", none⟩ := fun h => absurd h.1 (by decide)
    exact .node hroot (List.forall_mem_singleton.2
      (.node hselector (List.forall_mem_singleton.2 (.childless fun h => hkind h.1))))
  obtain ⟨_, -, -, hqualified⟩ := parse_shape h
  have htext : (scopeTree r.config (single l)).render = "." ++ attributeClass r.config l := by
    rw [scopeTree_attribute hattribute (label_of_single hqualified) hns]
    apply String.toList_inj.1
    simp [Tree.render, Tree.root, Tree.selector, Tree.leaf, Tree.chars, Label.chars, listChars,
      laterChars, compoundChars]
  have hrun := run_of_parsed r h
  rw [transform_eq_static r h hbar, htext] at hrun
  exact ⟨_, hrun⟩

/-- What a run returns for an attribute is read as the classes of the attribute, exactly if only filler
stands in the value behind what can be a part of a name. A bare value is all part of a name. -/
theorem run_attribute_iff (r : Resolver) (hscope : r.config.Named) {rule : String} {l : Label}
    (h : parse rule = .ok (single l)) (hattribute : l.isAttribute = true)
    (hns : scopesNamespace r.config l.ns = true) :
    ∃ out r', r.run rule = .ok (out, r') ∧
      (ReadsAsClasses out ("_" ++ scopedName r.config l.ns l.value) (stripQuotes (rawValue l)) ↔
        Filler (takeName (stripQuotes (rawValue l)).toList).2) ∧
      (Bare (rawValue l) → Filler (takeName (stripQuotes (rawValue l)).toList).2) := by
  obtain ⟨r', hrun⟩ := run_attribute r h hattribute hns
  have hwritten := label_of_single (written_of_parse h) hattribute
  exact ⟨_, r', hrun, readsAsClasses_iff hscope hwritten.name,
    fun hbare => filler_of_bare hbare (hwritten.bare hbare)⟩

def valued (value : String) : Label :=
  ⟨.attribute ⟨some "=", some value, none⟩, "x", none⟩

theorem parse_valued {value : String} (hvalue : ValueAt value value.toList [']'])
    (htight : Tight (value.toList ++ [']'])) :
    parse ("[x=" ++ value ++ "]") = .ok (single (valued value)) := by
  have hname : ∀ k, NameBefore "x".toList ('=' :: k) := fun k =>
    ⟨by decide, (Run.char (by decide) (by decide) .nil).take (endsName_cons (by decide) k)⟩
  have hcomponent := ComponentAt.equals (.plain (hname _) rfl) (tight_cons (by decide) (by decide) _)
    hvalue htight
  have htext : ("[x=" ++ value ++ "]").toList = '[' :: ("x".toList ++ '=' :: (value.toList ++ [']'])) := by
    simp
  refine parse_eq_ok_iff.2 ⟨_, rfl, ?_⟩
  rw [htext]
  refine hcomponent.reads (List.append_nil _).symm rfl ?_
  exact .done tight_nil (.done rfl rfl)

theorem run_attribute_bare :
    (Resolver.new ⟨"s", .locally⟩).config.Named ∧ parse "[x=y]" = .ok (single (valued "y")) ∧
      (valued "y").isAttribute = true ∧ scopesNamespace ⟨"s", .locally⟩ (valued "y").ns = true ∧
      ∃ out r', (Resolver.new ⟨"s", .locally⟩).run "[x=y]" = .ok (out, r') ∧
        ReadsAsClasses out "_x" "y" := by
  have hvalue : ValueAt "y" "y".toList [']'] := .name ⟨by decide, by decide⟩
  have hparse : parse "[x=y]" = .ok (single (valued "y")) :=
    parse_valued hvalue (tight_cons (by decide) (by decide) _)
  have hbare : Bare (rawValue (valued "y")) := by
    intro c hc
    cases hc
    decide
  obtain ⟨out, r', hrun, hclasses, hfiller⟩ :=
    run_attribute_iff (Resolver.new ⟨"s", .locally⟩) (named_new _) hparse rfl rfl
  have hname : "_" ++ scopedName ⟨"s", .locally⟩ none "x" = "_x" := by
    decide
  have hstripped : stripQuotes (rawValue (valued "y")) = "y" := by
    decide
  rw [hstripped] at hclasses
  exact ⟨named_new _, hparse, rfl, rfl, out, r', hrun, hname ▸ hclasses.2 (hstripped ▸ hfiller hbare)⟩

/-- A value with a space in it ends the second class, and a tag stands behind it. -/
theorem not_classes_spaced :
    ¬ ∀ (r : Resolver) (rule : String) (l : Label), r.config.Named → parse rule = .ok (single l) →
      l.isAttribute = true → scopesNamespace r.config l.ns = true →
        ∃ out r', r.run rule = .ok (out, r') ∧
          ReadsAsClasses out ("_" ++ scopedName r.config l.ns l.value) (stripQuotes (rawValue l)) := by
  intro hall
  have hquoted : Quoted '"' "a b\"".toList := fun k => by
    simp [takeQuoted]
  have hvalue : ValueAt "\"a b\"" "\"a b\"".toList [']'] := .quoted (by decide) hquoted
  have hparse := parse_valued hvalue (tight_cons (by decide) (by decide) _)
  obtain ⟨out, r', hrun, hclasses⟩ :=
    hall (Resolver.new ⟨"s", .locally⟩) _ _ (named_new _) hparse rfl rfl
  obtain ⟨r'', hrun'⟩ := run_attribute (Resolver.new ⟨"s", .locally⟩) hparse rfl rfl
  obtain ⟨rfl, -⟩ := Prod.mk.inj (Except.ok.inj (hrun.symm.trans hrun'))
  have hname : Run (valued "\"a b\"").value.toList := .char (by decide) (by decide) .nil
  have hfiller := (readsAsClasses_iff (named_new _) hname).1 hclasses
  have hrest : (takeName (stripQuotes (rawValue (valued "\"a b\""))).toList).2 = [' ', 'b'] := by
    decide
  rw [hrest] at hfiller
  cases hfiller with
  | blank _ hfiller =>
    cases hfiller with
    | blank hc _ => exact absurd hc (by decide)

end Resolver

end ScopedStyles.Scope
