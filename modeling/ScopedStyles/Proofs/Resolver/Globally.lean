import ScopedStyles.Proofs.Resolver.Absorption
import ScopedStyles.Proofs.Resolver.Independence
import ScopedStyles.Proofs.Resolver.OnePass
import ScopedStyles.Proofs.Resolver.Stages

namespace ScopedStyles.Scope

open Selector Forest

variable {c : Config} {m : Memory} {p : Pass} {f g : Forest} {kids : Nat → List Nat}
  {rank : Nat → Nat} {tags : List Nat} {i j : Nat}

/-- No escape of the mode stands in the forest. -/
def Unescaped (c : Config) (kids : Nat → List Nat) (f : Forest) : Prop :=
  ∀ i, Below kids root i → isEscape c (f.label i) = false

theorem decide_globally (hmode : c.mode = .globally) (hlifted : p.lifted = [])
    (hp : Layered p.forest kids rank) (hescape : Unescaped c kids p.forest)
    (hi : Below kids root i) (hscopable : isScopable (p.forest.label i) = true) :
    p.decide c i = (false, p) := by
  have hleaf := isScopable_leaf hscopable
  rw [Pass.decide, hlifted, List.lookup_nil, scopesNamespace_globally hmode]
  cases hholder : holder? p.forest i with
  | none => rfl
  | some held =>
    obtain ⟨selector, pseudo⟩ := held
    obtain ⟨hselector, hpseudo, hispseudo⟩ := holder?_eq_some hholder
    obtain ⟨hbelow, hkind⟩ := hp.parent_selector hi (hp.linked.parent_iff.1 hselector) hleaf.notRoot
      hleaf.notSelector
    obtain ⟨q, hq, hmem⟩ := hp.parent hbelow (by rw [hkind]; nofun)
    have hpq := hp.linked.unique (hp.linked.parent_iff.1 hpseudo) hmem
    have hnot := hescape q hq
    rw [← hpq, isEscape, hispseudo, Bool.true_and, beq_eq_false_iff_ne] at hnot
    dsimp only
    rw [if_neg hnot]
    split
    · rfl
    · rfl

theorem of_mem_collect (h : Linked f kids) (hg : Graded f kids rank) {P : Label → Bool}
    (hj : j ∈ f.collect P) : Below kids root j ∧ P (f.label j) = true := by
  obtain ⟨hmem, hP⟩ := List.mem_filter.1 hj
  exact ⟨((mem_descendants h hg).1 hmem).2, hP⟩

theorem scopeAttributes_globally (hmode : c.mode = .globally) (hm : m.lifted = [])
    (hf : Layered f kids rank) (hescape : Unescaped c kids f) :
    Pass.scopeAttributes c ⟨m, f⟩ = ⟨m, f⟩ := by
  have hvisit : ∀ p, ∀ i ∈ f.collect Label.isAttribute, p = ⟨m, f⟩ →
      Pass.scopeAttribute c p i = ⟨m, f⟩ := by
    rintro p i hi rfl
    obtain ⟨hbelow, hattribute⟩ := of_mem_collect hf.linked hf.graded hi
    rw [Pass.scopeAttribute, if_pos ((isAttached_iff hf.linked hf.graded).2 hbelow),
      decide_globally (p := ⟨m, f⟩) hmode hm hf hescape hbelow (isScopable_of_isAttribute hattribute)]
  exact (foldl_keeps (P := fun p => p = ⟨m, f⟩) (v := Pass.scopeAttribute c) (s := ⟨m, f⟩)
    hvisit rfl).1

theorem scopeTag_globally (hmode : c.mode = .globally) (hm : m.lifted = [])
    (hf : Layered f kids rank) (hescape : Unescaped c kids f) (h : Marked f tags g)
    (htags : ∀ k ∈ tags, (f.label k).isTag = true) (hi : i ∉ tags) (hbelow : Below kids root i)
    (htag : (f.label i).isTag = true) :
    Pass.scopeTag c ⟨m, g⟩ i = ⟨m, absorbBar g i⟩ ∧ Marked f (tags ++ [i]) (absorbBar g i) := by
  have hg := h.layered hf
  have hmarked := h.absorbBar hf.linked htags hi htag
  refine ⟨?_, hmarked⟩
  have hall : ∀ k ∈ tags ++ [i], (f.label k).isTag = true :=
    List.forall_mem_append.2 ⟨htags, List.forall_mem_singleton.2 htag⟩
  have hdecide : Pass.decide c ⟨m, absorbBar g i⟩ i = (false, ⟨m, absorbBar g i⟩) := by
    apply decide_globally hmode hm (hmarked.layered hf) ?_ hbelow
    · apply isScopable_of_isTag
      rw [Label.isTag, hmarked.kind]
      exact htag
    · intro q hq
      rw [hmarked.isEscape_eq hall]
      exact hescape q hq
  rw [Pass.scopeTag, if_pos ((isAttached_iff hg.linked hg.graded).2 hbelow), hdecide]

theorem foldl_scopeTag_globally (hmode : c.mode = .globally) (hm : m.lifted = [])
    (hf : Layered f kids rank) (hescape : Unescaped c kids f) (hnodup : tags.Nodup)
    (htags : ∀ i ∈ tags, Below kids root i ∧ (f.label i).isTag = true) :
    ∃ g, tags.foldl (Pass.scopeTag c) ⟨m, f⟩ = ⟨m, g⟩ ∧ Marked f tags g := by
  induction tags using List.reverseRecOn with
  | nil => exact ⟨f, rfl, .start f⟩
  | append_singleton tags i ih =>
    obtain ⟨hbefore, hi⟩ := List.forall_mem_append.1 htags
    obtain ⟨hbelow, htag⟩ := List.forall_mem_singleton.1 hi
    obtain ⟨hdistinct, -, hapart⟩ := List.nodup_append.1 hnodup
    obtain ⟨g, hfold, hmarked⟩ := ih hdistinct hbefore
    have hnew : i ∉ tags := fun hmem => hapart i hmem i (List.mem_singleton_self i) rfl
    obtain ⟨hstep, hnext⟩ := scopeTag_globally hmode hm hf hescape hmarked
      (fun k hk => (hbefore k hk).2) hnew hbelow htag
    refine ⟨Scope.absorbBar g i, ?_, hnext⟩
    rw [List.foldl_concat, hfold, hstep]

theorem scopeTags_globally (hmode : c.mode = .globally) (hm : m.lifted = [])
    (hf : Layered f kids rank) (hescape : Unescaped c kids f) :
    ∃ g, Pass.scopeTags c ⟨m, f⟩ = ⟨m, g⟩ ∧ Marked f (f.collect Label.isTag) g := by
  apply foldl_scopeTag_globally hmode hm hf hescape
  · exact (nodup_descendants hf.linked hf.graded root).filter _
  · intro i hi
    exact of_mem_collect hf.linked hf.graded hi

/-- Scoping in the global mode changes no more than the marks of tags behind bare bars. -/
theorem scopeForest_globally (hmode : c.mode = .globally) (m : Memory) (hf : Layered f kids rank)
    (hescape : Unescaped c kids f) :
    ∃ g, scopeForest c m f = ⟨m.refresh, g⟩ ∧ Marked f (f.collect Label.isTag) g := by
  obtain ⟨g, hscoped, hmarked⟩ := scopeTags_globally (m := m.refresh) hmode rfl hf hescape
  have hg := hmarked.layered hf
  have hnone : g.collect (isEscape c) = [] := by
    apply List.eq_nil_iff_forall_not_mem.2
    intro i hi
    obtain ⟨hbelow, hisescape⟩ := of_mem_collect hg.linked hg.graded hi
    rw [hmarked.isEscape_eq fun k hk => (of_mem_collect hf.linked hf.graded hk).2,
      hescape i hbelow] at hisescape
    cases hisescape
  refine ⟨g, ?_, hmarked⟩
  rw [scopeForest, scopeAttributes_globally hmode rfl hf hescape, hscoped]
  simp only [unwrapEscapes, hnone, List.foldl_nil]

section Text

theorem laterChars_map_congr {F G : Nat → Tree} {is : List Nat}
    (h : ∀ i ∈ is, (F i).chars = (G i).chars) : laterChars (is.map F) = laterChars (is.map G) := by
  induction is with
  | nil => rfl
  | cons i is ih =>
    obtain ⟨hi, his⟩ := List.forall_mem_cons.1 h
    rw [List.map_cons, List.map_cons, laterChars, laterChars, hi, ih his]

theorem listChars_map_congr {F G : Nat → Tree} {is : List Nat}
    (h : ∀ i ∈ is, (F i).chars = (G i).chars) : listChars (is.map F) = listChars (is.map G) := by
  cases is with
  | nil => rfl
  | cons i is =>
    obtain ⟨hi, his⟩ := List.forall_mem_cons.1 h
    rw [List.map_cons, List.map_cons, listChars, listChars, hi, laterChars_map_congr his]

def endsBarred (f : Forest) (is : List Nat) : Bool :=
  is.getLast?.any fun b => decide (IsBar (f.label b))

def beginsWithTag (f : Forest) (is : List Nat) : Bool :=
  is.head?.any fun i => (f.label i).isTag

variable {before after : List Nat} {q : Nat}

theorem label_tree (hf : Layered f kids rank) (hi : Below kids root i) :
    (f.tree i).label = f.label i := by
  rw [tree_eq hf.linked hf.graded (hf.lt hi)]
  rfl

theorem chars_of_tag {l : Label} {ts : List Tree} (h : l.kind = .tag) :
    (Selector.Tree.node l ts).chars = prefixChars l.ns ++ l.value.toList := by
  simp [Tree.chars, Label.chars, h]

theorem chars_of_combinator {l : Label} {ts : List Tree} (h : l.kind = .combinator) :
    (Selector.Tree.node l ts).chars = l.value.toList := by
  simp [Tree.chars, Label.chars, h]

theorem chars_mark (hf : Layered f kids rank) (hg : Layered g kids rank) (hi : Below kids root i)
    (htag : (f.label i).isTag = true) (hlabel : g.label i = { f.label i with ns := some .bar }) :
    (g.tree i).chars = '|' :: (bare (unprefixed (f.tree i))).chars := by
  have hkind : (f.label i).kind = .tag := beq_iff_eq.1 htag
  have hnew : (g.tree i).chars = '|' :: (f.label i).value.toList := by
    rw [tree_eq hg.linked hg.graded (hg.lt hi), hlabel]
    exact chars_of_tag hkind
  have hold : (bare (unprefixed (f.tree i))).chars = (f.label i).value.toList := by
    rw [tree_eq hf.linked hf.graded (hf.lt hi), unprefixed]
    exact chars_of_tag hkind
  rw [hnew, hold]

theorem chars_moved (hf : Layered f kids rank) (hg : Layered g kids rank) (hi : Below kids root i)
    (hbar : IsBar (f.label i)) (hlabel : g.label i = { f.label i with value := "" }) :
    (g.tree i).chars = [] ∧ (unprefixed (f.tree i)).chars = ['|'] := by
  constructor
  · rw [tree_eq hg.linked hg.graded (hg.lt hi), hlabel]
    exact chars_of_combinator hbar.1
  · rw [tree_eq hf.linked hf.graded (hf.lt hi), unprefixed, chars_of_combinator hbar.1, hbar.2]
    rfl

/-- A node is printed as it was, apart from a bar that has moved into the tag behind it. -/
theorem chars_sibling (hf : Layered f kids rank) (h : Marked f (f.collect Label.isTag) g)
    (hq : Below kids root q) (hsplit : kids q = before ++ i :: after)
    (hsame : g.label i = f.label i → (g.tree i).chars = (unprefixed (f.tree i)).chars) :
    (g.tree i).chars ++
        (if decide (IsBar (f.label i)) && beginsWithTag f after then ['|'] else []) =
      (if endsBarred f before && (f.label i).isTag then ['|'] else []) ++
        (if endsBarred f before && (f.label i).isTag then bare (unprefixed (f.tree i))
          else unprefixed (f.tree i)).chars := by
  have hg := h.layered hf
  have hi : Below kids root i := hq.child (by rw [hsplit]; simp)
  obtain ⟨-, hprev, hnext⟩ := hf.linked.links hsplit
  have htags : ∀ k ∈ f.collect Label.isTag, (f.label k).isTag = true :=
    fun k hk => (of_mem_collect hf.linked hf.graded hk).2
  have hcollect : ∀ {k}, k ∈ kids q → (f.label k).isTag = true → k ∈ f.collect Label.isTag := by
    intro k hk htag
    apply mem_collect hf.linked hf.graded (hq.child hk) ?_ htag
    exact hf.ne_root (isScopable_leaf (isScopable_of_isTag htag)).notRoot
  by_cases hbehind : (endsBarred f before && (f.label i).isTag) = true
  · obtain ⟨hbarred, htag⟩ := Bool.and_eq_true_iff.1 hbehind
    obtain ⟨b, hb, hbar⟩ := (Option.any_eq_true _ _).1 hbarred
    have hbefore : barBefore? f i = some b :=
      barBefore?_eq_some.2 ⟨hprev.trans hb, of_decide_eq_true hbar⟩
    obtain ⟨hlabel, -⟩ := h.marked i (hcollect (by rw [hsplit]; simp) htag) b hbefore
    have hnobar : decide (IsBar (f.label i)) = false :=
      decide_eq_false fun hbar => ne_of_isBar htag hbar rfl
    rw [hbehind, hnobar, if_pos rfl, if_pos rfl, chars_mark hf hg hi htag hlabel]
    exact List.append_nil _
  · rw [Bool.eq_false_iff.2 hbehind, if_neg Bool.false_ne_true, if_neg Bool.false_ne_true,
      List.nil_append]
    by_cases hfront : (decide (IsBar (f.label i)) && beginsWithTag f after) = true
    · obtain ⟨hbar, hbegins⟩ := Bool.and_eq_true_iff.1 hfront
      obtain ⟨k, hk, htag⟩ := (Option.any_eq_true _ _).1 hbegins
      obtain ⟨rest, rfl⟩ := List.head?_eq_some_iff.1 hk
      have hlast : kids q = (before ++ [i]) ++ k :: rest := by rw [hsplit]; simp
      have hbefore : barBefore? f k = some i := by
        refine barBefore?_eq_some.2 ⟨?_, of_decide_eq_true hbar⟩
        rw [(hf.linked.links hlast).2.1, List.getLast?_concat]
      obtain ⟨-, hlabel⟩ := h.marked k (hcollect (by rw [hsplit]; simp) htag) i hbefore
      obtain ⟨hnew, hold⟩ := chars_moved hf hg hi (of_decide_eq_true hbar) hlabel
      rw [hfront, if_pos rfl, hnew, hold]
      rfl
    · -- neither a tag with a bar in front nor a bar in front of a tag
      rw [Bool.eq_false_iff.2 hfront, if_neg Bool.false_ne_true, List.append_nil]
      apply hsame
      apply h.other
      intro k hk b hb
      obtain ⟨hprevk, hbar⟩ := barBefore?_eq_some.1 hb
      refine ⟨?_, ?_⟩
      · rintro rfl
        apply hbehind
        rw [endsBarred, ← hprev, hprevk, htags i hk]
        simpa using hbar
      · rintro rfl
        apply hfront
        rw [beginsWithTag, ← hnext, next_of_prev hf.linked hprevk, decide_eq_true hbar]
        exact htags k hk

theorem chars_siblings (hf : Layered f kids rank) (h : Marked f (f.collect Label.isTag) g)
    (hq : Below kids root q) (hsplit : kids q = before ++ after)
    (hsame : ∀ i ∈ kids q, g.label i = f.label i →
      (g.tree i).chars = (unprefixed (f.tree i)).chars) :
    compoundChars (after.map g.tree) =
      (if endsBarred f before && beginsWithTag f after then ['|'] else []) ++
        compoundChars (unprefixedAll (endsBarred f before) (after.map f.tree)) := by
  induction after generalizing before with
  | nil => simp [compoundChars, unprefixedAll, beginsWithTag]
  | cons i after ih =>
    have hi : i ∈ kids q := by
      rw [hsplit]
      simp
    have hrest := ih (hsplit.trans (List.append_cons before i after))
    have hlast : endsBarred f (before ++ [i]) = decide (IsBar (f.label i)) := by
      simp [endsBarred]
    rw [hlast] at hrest
    have hhead := chars_sibling hf h hq hsplit (hsame i hi)
    rw [List.map_cons, compoundChars, hrest, List.map_cons, unprefixedAll, compoundChars,
      label_tree hf (hq.child hi), ← List.append_assoc, hhead, List.append_assoc]
    rfl

theorem listChars_selectors (hf : Layered f kids rank) (h : Marked f (f.collect Label.isTag) g)
    (hq : Below kids root q) (hselectors : ∀ i ∈ kids q, (f.label i).kind = .selector)
    (hsame : ∀ i ∈ kids q, g.label i = f.label i →
      (g.tree i).chars = (unprefixed (f.tree i)).chars) :
    listChars ((kids q).map g.tree) = listChars (unprefixedAll false ((kids q).map f.tree)) := by
  have htag : ∀ i ∈ kids q, (f.label i).isTag = false := by
    intro i hi
    rw [Label.isTag, hselectors i hi]
    rfl
  rw [unprefixedAll_of_untagged, List.map_map]
  · apply listChars_map_congr
    intro i hi
    apply hsame i hi
    apply h.kept (fun k hk => (of_mem_collect hf.linked hf.graded hk).2) (htag i hi)
    rintro ⟨hkind, -⟩
    rw [hselectors i hi] at hkind
    cases hkind
  · intro t ht
    obtain ⟨i, hi, rfl⟩ := List.mem_map.1 ht
    rw [label_tree hf (hq.child hi)]
    exact htag i hi

theorem chars_marked (hf : Layered f kids rank) (h : Marked f (f.collect Label.isTag) g) (t : Tree) :
    ∀ {q}, Below kids root q → f.tree q = t → g.label q = f.label q →
      (g.tree q).chars = (unprefixed (f.tree q)).chars := by
  have hg := h.layered hf
  induction t using Tree.induct with
  | node l ts ih =>
    intro q hq ht hlabel
    have hold := tree_eq hf.linked hf.graded (hf.lt hq)
    have hnew := tree_eq hg.linked hg.graded (hg.lt hq)
    obtain ⟨rfl, rfl⟩ := Tree.node.inj (hold.symm.trans ht)
    have hsame : ∀ i ∈ kids q, g.label i = f.label i →
        (g.tree i).chars = (unprefixed (f.tree i)).chars :=
      fun i hi => ih _ (List.mem_map_of_mem hi) (hq.child hi) rfl
    rw [hnew, hold, unprefixed, hlabel]
    by_cases hroot : (f.label q).kind = .root
    · have hselectors : ∀ i ∈ kids q, (f.label i).kind = .selector :=
        fun i hi => ((hf.nests hq hi).below (by simp [hroot])).1
      simp only [Tree.chars, hroot, listChars_selectors hf h hq hselectors hsame]
    by_cases hselector : (f.label q).kind = .selector
    · have hsiblings := chars_siblings hf h hq (List.nil_append _).symm hsame
      simp only [Tree.chars, hselector, hsiblings]
      rfl
    by_cases hpseudo : (f.label q).isPseudo = true
    · have hselectors : ∀ i ∈ kids q, (f.label i).kind = .selector :=
        fun i hi => hf.argument hq hpseudo hi
      have hlist := listChars_selectors hf h hq hselectors hsame
      rw [Label.isPseudo] at hpseudo
      split at hpseudo
      · next arguments hkind =>
        cases arguments with
        | false => simp only [Tree.chars, hkind]
        | true => simp only [Tree.chars, hkind, hlist]
      · cases hpseudo
    · rw [hf.childless hq ⟨hroot, hselector, Bool.eq_false_iff.2 hpseudo⟩, List.map_nil,
        List.map_nil, unprefixedAll]

end Text

theorem layered_of_parse {text : String} {t : Tree} (h : parse text = .ok t) :
    ∃ kids, Layered (ofTree t) kids id ∧ (ofTree t).tree root = t := by
  obtain ⟨selectors, rfl, hlayered, -⟩ := parse_shape h
  obtain ⟨kids, hlinked, hgraded, hsize, htree⟩ := ofTree_planted (.root selectors)
  have hlabel := (Tree.node.inj ((tree_eq hlinked hgraded hsize).symm.trans htree)).1
  refine ⟨kids, layered_of_tree hlinked hgraded hsize ?_ (htree.symm ▸ hlayered), htree⟩
  rw [hlabel]

namespace Resolver

theorem run_unescaped (r : Resolver) (hmode : r.config.mode = .globally) {rule : String} {t : Tree}
    (h : parse rule = .ok t) (hlocal : t.All fun l => ¬ (l.isPseudo = true ∧ l.value = ":local")) :
    r.run rule = .ok ((unprefixed t).render, { r with toMemory := r.refresh }) := by
  obtain ⟨kids, hf, htree⟩ := layered_of_parse h
  have hescape : Unescaped r.config kids (ofTree t) := by
    intro i hi
    have hnot := all_below hf.linked hf.graded hf.bound (htree.symm ▸ hlocal) hi
    rw [tree_eq hf.linked hf.graded (hf.lt hi)] at hnot
    rw [isEscape, hmode, Bool.eq_false_iff, ne_eq, Bool.and_eq_true_iff, beq_iff_eq]
    exact hnot.label
  obtain ⟨g, hscoped, hmarked⟩ := scopeForest_globally hmode r.toMemory hf hescape
  have hroot : g.label root = (ofTree t).label root := by
    apply hmarked.kept (fun k hk => (of_mem_collect hf.linked hf.graded hk).2)
    · rw [Label.isTag, hf.rooted]
      rfl
    · rintro ⟨hcombinator, -⟩
      rw [hf.rooted] at hcombinator
      cases hcombinator
  have hchars := chars_marked hf hmarked t .refl htree hroot
  rw [htree] at hchars
  rw [run_of_parsed r h, transform, hscoped, Tree.render, hchars, Tree.render]

/-- In the global mode a list without escapes adds nothing to the registry and leaves no hash, and tags
behind bare bars are printed without their prefixes. So the list is printed as it was parsed, exactly if
no tag with a prefix stands directly behind a bare bar. -/
theorem run_globally (r : Resolver) (hmode : r.config.mode = .globally) {rule : String} {t : Tree}
    (h : parse rule = .ok t) (hlocal : t.All fun l => ¬ (l.isPseudo = true ∧ l.value = ":local")) :
    ∃ r', r.run rule = .ok ((unprefixed t).render, r') ∧ r'.elements = r.elements ∧ r'.hashes = ∅ ∧
      ((unprefixed t).render = t.render ↔ KeepsPrefixes t) :=
  ⟨_, run_unescaped r hmode h hlocal, rfl, rfl, render_unprefixed_iff h⟩

def markedTag : Tree :=
  .root [.selector [.node ⟨.tag, "a", some (.named "svg")⟩ [], .leaf .combinator "|", .leaf .tag "b"]]

theorem parse_markedTag : parse "svg|a|b" = .ok markedTag := by
  have hprefix : NameBefore "svg".toList "|a|b".toList := ⟨by decide, by decide⟩
  have ha : ComponentAt (.node (.node ⟨.tag, "a", some (.named "svg")⟩ [])) "svg|a".toList
      "|b".toList :=
    .element hprefix (.tag ⟨by decide, by decide⟩)
  have hbar : ComponentAt (.node (.leaf .combinator "|")) "|".toList "b".toList :=
    .combinator (.inr rfl)
  have hb : ComponentAt (.node (.leaf .tag "b")) "b".toList [] :=
    .tag ⟨by decide, by decide⟩ rfl
  refine parse_eq_ok_iff.2 ⟨_, rfl, ?_⟩
  refine ha.reads rfl rfl ?_
  refine hbar.reads rfl rfl ?_
  refine hb.reads rfl rfl ?_
  exact .done tight_nil (.done rfl rfl)

theorem run_globally_markedTag :
    parse "svg|a|b" = .ok markedTag ∧
      (markedTag.All fun l => ¬ (l.isPseudo = true ∧ l.value = ":local")) ∧
      ∃ r', (Resolver.new ⟨"s", .globally⟩).run "svg|a|b" = .ok ("svg|a|b", r') ∧
        r'.elements = ∅ ∧ r'.hashes = ∅ ∧ KeepsPrefixes markedTag := by
  have hlocal : markedTag.All fun l => ¬ (l.isPseudo = true ∧ l.value = ":local") := by
    simp [markedTag, Tree.root, Tree.selector, Tree.leaf, Tree.All.node_iff, Label.isPseudo]
  obtain ⟨r', hrun, helements, hhashes, hkeeps⟩ :=
    run_globally (Resolver.new ⟨"s", .globally⟩) rfl parse_markedTag hlocal
  have hrender : (unprefixed markedTag).render = "svg|a|b" := by decide
  rw [hrender] at hrun
  exact ⟨parse_markedTag, hlocal, r', hrun, helements, hhashes, hkeeps.1 (by decide)⟩

def columnTag : Tree :=
  .root [.selector [.leaf .tag "col", .leaf .combinator "|", .leaf .combinator "|",
    .node ⟨.tag, "td", some (.named "svg")⟩ []]]

theorem parse_columnTag : parse "col||svg|td" = .ok columnTag := by
  have hcol : ComponentAt (.node (.leaf .tag "col")) "col".toList "||svg|td".toList :=
    .tag ⟨by decide, by decide⟩ rfl
  have hfirst : ComponentAt (.node (.leaf .combinator "|")) "|".toList "|svg|td".toList :=
    .combinator (.inr rfl)
  have hsecond : ComponentAt (.node (.leaf .combinator "|")) "|".toList "svg|td".toList :=
    .combinator (.inr rfl)
  have hprefix : NameBefore "svg".toList "|td".toList := ⟨by decide, by decide⟩
  have htd : ComponentAt (.node (.node ⟨.tag, "td", some (.named "svg")⟩ [])) "svg|td".toList [] :=
    .element hprefix (.tag ⟨by decide, by decide⟩)
  refine parse_eq_ok_iff.2 ⟨_, rfl, ?_⟩
  refine hcol.reads rfl rfl ?_
  refine hfirst.reads rfl rfl ?_
  refine hsecond.reads rfl rfl ?_
  refine htd.reads rfl rfl ?_
  exact .done tight_nil (.done rfl rfl)

/-- A tag loses its prefix to the bar in front of it. -/
theorem run_globally_columnTag :
    ¬ ∀ (r : Resolver) (rule : String) (t : Tree), r.config.mode = .globally →
      parse rule = .ok t → (t.All fun l => ¬ (l.isPseudo = true ∧ l.value = ":local")) →
        ∃ r', r.run rule = .ok (t.render, r') ∧ r'.elements = r.elements ∧ r'.hashes = ∅ := by
  intro hall
  have hlocal : columnTag.All fun l => ¬ (l.isPseudo = true ∧ l.value = ":local") := by
    simp [columnTag, Tree.root, Tree.selector, Tree.leaf, Tree.All.node_iff, Label.isPseudo]
  obtain ⟨r', hrun, -⟩ := hall (Resolver.new ⟨"s", .globally⟩) "col||svg|td" columnTag rfl
    parse_columnTag hlocal
  rw [run_unescaped (Resolver.new ⟨"s", .globally⟩) rfl parse_columnTag hlocal] at hrun
  have hsame : (unprefixed columnTag).render = columnTag.render :=
    congrArg Prod.fst (Except.ok.inj hrun)
  exact absurd hsame (by decide)

end Resolver

end ScopedStyles.Scope
