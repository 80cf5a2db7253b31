import ScopedStyles.Proofs.Registry.Gains
import ScopedStyles.Proofs.Resolver.Sightings

namespace ScopedStyles.Scope

open Selector Forest

variable {c : Config} {P : Label → Bool} {p : Pass} {f : Forest} {kids : Nat → List Nat}
  {rank : Nat → Nat} {i q : Nat} {t : Tree}

theorem shows_all {opens : Nat → Nat → Prop} {is : List Nat}
    (h : ∀ i ∈ is, ∃ js, Shows opens kids [i] js ∧ js.map f.label = opened c P (f.tree i)) :
    ∃ js, Shows opens kids is js ∧ js.map f.label = openedAll c P (is.map f.tree) := by
  induction is with
  | nil => exact ⟨[], .nil, rfl⟩
  | cons i is ih =>
    obtain ⟨hi, his⟩ := List.forall_mem_cons.1 h
    obtain ⟨js, hshows, hlabels⟩ := hi
    obtain ⟨js', hshows', hlabels'⟩ := ih his
    refine ⟨js ++ js', hshows.append hshows', ?_⟩
    rw [List.map_append, hlabels, hlabels', List.map_cons, openedAll]

theorem opens_iff (hf : Layered p.forest kids rank) (hlifted : p.lifted = [])
    (hi : Below kids root i) :
    (∃ s, Opens c P p kids i s) ↔
      isOpened c P (p.forest.label i) ((kids i).map p.forest.tree) = true := by
  have hchildren : ∀ {s}, s ∈ kids i → (p.forest.tree s).children = (kids s).map p.forest.tree := by
    intro s hs
    rw [tree_eq hf.linked hf.graded (hf.lt (hi.child hs))]
    rfl
  rw [isOpened, Bool.and_eq_true, Bool.and_eq_true, List.length_map, beq_iff_eq]
  constructor
  · rintro ⟨s, k, hPk, hwaits⟩
    have hs := mem_of_eq_singleton hwaits.single
    refine ⟨⟨hwaits.escape, congrArg List.length hwaits.single⟩, ?_⟩
    rw [List.any_map, List.any_eq_true]
    refine ⟨s, hs, ?_⟩
    rw [Function.comp_apply, hchildren hs, List.any_map, List.any_eq_true]
    refine ⟨k, hwaits.inside, ?_⟩
    rwa [Function.comp_apply, label_tree hf ((hi.child hs).child hwaits.inside)]
  · rintro ⟨⟨hescape, hlength⟩, hany⟩
    rw [List.any_map, List.any_eq_true] at hany
    obtain ⟨s, hs, hany⟩ := hany
    rw [Function.comp_apply, hchildren hs, List.any_map, List.any_eq_true] at hany
    obtain ⟨k, hk, hPk⟩ := hany
    rw [Function.comp_apply, label_tree hf ((hi.child hs).child hk)] at hPk
    obtain ⟨s', hs'⟩ := List.length_eq_one_iff.1 hlength
    obtain rfl : s = s' := by
      rw [hs'] at hs
      exact List.mem_singleton.1 hs
    exact ⟨s, k, hPk, hescape, hs', hk, by rw [hlifted]; rfl⟩

theorem shows_opened (hf : Layered p.forest kids rank) (hlifted : p.lifted = []) (t : Tree) :
    (∀ i, Below kids root i → p.forest.tree i = t →
      ∃ js, Shows (Opens c P p kids) kids [i] js ∧ js.map p.forest.label = opened c P t) ∧
    ∀ is, (∀ i ∈ is, Below kids root i) → is.map p.forest.tree = t.children →
      ∃ js, Shows (Opens c P p kids) kids is js ∧
        js.map p.forest.label = openedAll c P t.children := by
  induction t using Tree.induct with
  | node l ts ih =>
    constructor
    · intro i hi ht
      have htree := tree_eq hf.linked hf.graded (hf.lt hi)
      rw [ht] at htree
      obtain ⟨rfl, rfl⟩ := Tree.node.inj htree
      rw [opened]
      split
      · next hopen =>
        obtain ⟨s, hopens⟩ := (opens_iff hf hlifted hi).2 hopen
        have hs := mem_of_eq_singleton hopens.single
        have hbelow := hi.child hs
        have hargument := tree_eq hf.linked hf.graded (hf.lt hbelow)
        obtain ⟨js, hcontent, hlabels⟩ := (ih _ (List.mem_map_of_mem hs)).2 (kids s)
          (fun k hk => hbelow.child hk) (congrArg Tree.children hargument).symm
        refine ⟨js ++ [], .opened hopens hcontent .nil, ?_⟩
        rw [List.append_nil, hlabels, hopens.single, List.map_singleton, hargument, openedContents,
          openedContents, List.append_nil]
        rfl
      · next hopen =>
        refine ⟨[i], .kept ?_ .nil, rfl⟩
        intro s hopens
        exact hopen ((opens_iff hf hlifted hi).1 ⟨s, hopens⟩)
    · intro is his hts
      rw [← hts]
      apply shows_all
      intro i hi
      have hmem : p.forest.tree i ∈ is.map p.forest.tree := List.mem_map_of_mem hi
      rw [hts] at hmem
      exact (ih _ hmem).1 i (his i hi) rfl

/-- The node stands where the place says. -/
structure Located (f : Forest) (kids : Nat → List Nat) (i : Nat) (place : Place) : Prop where
  label : f.label i = place.label
  standing : ∃ q before after, Below kids root q ∧ kids q = before ++ i :: after ∧
    before.map f.tree = place.front ∧ (f.get q).parent.map f.label = place.holder

theorem located_listPlaces (holder parent : Option Label)
    (hnode : ∀ before i after, kids q = before ++ i :: after → ∃ l, Preorder f [i] l ∧
      List.Forall₂ (Located f kids) l (nodePlaces holder parent (before.map f.tree) (f.tree i)))
    (is before : List Nat) (hq : kids q = before ++ is) :
    ∃ l, Preorder f is l ∧
      List.Forall₂ (Located f kids) l (listPlaces holder parent (before.map f.tree) (is.map f.tree)) := by
  induction is generalizing before with
  | nil => exact ⟨[], .done, .nil⟩
  | cons i is ih =>
    obtain ⟨l₁, hwalk₁, hplaces₁⟩ := hnode before i is hq
    rw [List.append_cons] at hq
    obtain ⟨l₂, hwalk₂, hplaces₂⟩ := ih _ hq
    refine ⟨l₁ ++ l₂, hwalk₁.append hwalk₂, ?_⟩
    rw [List.map_append] at hplaces₂
    exact List.rel_append hplaces₁ hplaces₂

theorem located_nodePlaces (hf : Layered f kids rank) (t : Tree) :
    ∀ q before i after, Below kids root q → kids q = before ++ i :: after → f.tree i = t →
      ∃ l, Preorder f [i] l ∧ List.Forall₂ (Located f kids) l
        (nodePlaces ((f.get q).parent.map f.label) (some (f.label q)) (before.map f.tree) t) := by
  induction t using Tree.induct with
  | node l ts ih =>
    intro q before i after hq hsplit ht
    have hiq : i ∈ kids q := hsplit ▸ List.mem_append_cons_self
    have hi := hq.child hiq
    have htree := tree_eq hf.linked hf.graded (hf.lt hi)
    rw [ht] at htree
    obtain ⟨rfl, rfl⟩ := Tree.node.inj htree
    have hparent := hf.linked.parent_iff.2 hiq
    have hchild : ∀ before j after, kids i = before ++ j :: after → ∃ l, Preorder f [j] l ∧
        List.Forall₂ (Located f kids) l (nodePlaces ((f.get i).parent.map f.label)
          (some (f.label i)) (before.map f.tree) (f.tree j)) := by
      intro before j after hsplit'
      have hmem : f.tree j ∈ (kids i).map f.tree := by
        rw [hsplit']
        exact List.mem_map_of_mem List.mem_append_cons_self
      exact ih _ hmem i before j after hi hsplit' rfl
    obtain ⟨l, hwalk, hplaces⟩ := located_listPlaces _ _ hchild (kids i) [] rfl
    refine ⟨i :: l, ?_, ?_⟩
    · apply Preorder.visit hf.linked
      rwa [List.append_nil]
    · rw [nodePlaces]
      refine .cons ⟨rfl, q, before, after, hq, hsplit, rfl, rfl⟩ ?_
      rw [hparent] at hplaces
      exact hplaces

theorem located_descendants (hf : Layered f kids rank) (halone : (f.get root).parent = none) :
    List.Forall₂ (Located f kids) (f.descendants root) (places (f.tree root)) := by
  have htree := tree_eq hf.linked hf.graded hf.bound
  obtain ⟨l, hwalk, hplaces⟩ := located_listPlaces _ _
    (fun before i after hsplit => located_nodePlaces hf _ root before i after .refl hsplit rfl)
    (kids root) [] rfl
  rw [(descendants_walk hf.linked hf.graded root).unique hwalk, htree, places]
  rw [halone] at hplaces
  exact hplaces

theorem Located.exposed_iff {m : Memory} {place : Place} (h : Located f kids i place)
    (hf : Linked f kids) : Exposed c ⟨m.refresh, f⟩ kids i ↔ place.isExposed c = true := by
  obtain ⟨q, before, after, -, hsplit, -, hholder⟩ := h.standing
  have hiq : i ∈ kids q := hsplit ▸ List.mem_append_cons_self
  rw [Place.isExposed_iff, ← hholder]
  constructor
  · intro hexposed l hl hpseudo
    obtain ⟨e, he, rfl⟩ := Option.map_eq_some_iff.1 hl
    exact hexposed.holder q e hiq (hf.parent_iff.1 he) hpseudo
  · intro hplace
    refine ⟨rfl, ?_⟩
    intro q' e hq' he hpseudo
    cases hf.unique hq' hiq
    exact hplace _ (congrArg (Option.map f.label) (hf.parent_iff.2 he)) hpseudo

theorem Located.standsAt {α : Type} {look : List Label → α} {m : Memory} {place : Place}
    (h : Located f kids i place) (hf : Layered f kids rank)
    (hqualified : (f.tree root).All Label.Qualified) :
    StandsAt c P look (fun place => look (openedAll c P place.front)) ⟨m.refresh, f⟩ kids i place := by
  have hexposed := h.exposed_iff (c := c) (m := m) hf.linked
  obtain ⟨hlabel, q, before, after, hq, hsplit, hfront, -⟩ := h
  have hi : Below kids root i := by
    apply hq.child
    rw [hsplit]
    exact List.mem_append_cons_self
  have hall := all_below hf.linked hf.graded hf.bound hqualified hi
  rw [tree_eq hf.linked hf.graded (hf.lt hi), hlabel] at hall
  have hnodes : ∀ k ∈ before, ∃ js, Shows (Opens c P ⟨m.refresh, f⟩ kids) kids [k] js ∧
      js.map f.label = opened c P (f.tree k) := by
    intro k hk
    have hbelow : Below kids root k := by
      apply hq.child
      rw [hsplit]
      exact List.mem_append_left _ hk
    exact (shows_opened (p := ⟨m.refresh, f⟩) hf rfl (f.tree k)).1 k hbelow rfl
  obtain ⟨js, hshows, hlabels⟩ := shows_all hnodes
  rw [hfront] at hlabels
  exact ⟨hall.label, hi, hlabel, hexposed,
    fun _ => ⟨q, before, after, js, hq, hsplit, hshows, congrArg look hlabels⟩⟩

/-- The places of the collected nodes tell what all places tell, where the others tell nothing. -/
theorem forall₂_collect {R : Nat → Place → Prop} {is : List Nat} {ps : List Place}
    (told : Place → Option Sighting)
    (h : List.Forall₂ R is ps) (hlabel : ∀ i place, R i place → f.label i = place.label)
    (htold : ∀ place, P place.label = false → told place = none) :
    ∃ ps', List.Forall₂ R (is.filter fun i => P (f.label i)) ps' ∧
      ps'.filterMap told = ps.filterMap told := by
  induction h with
  | nil => exact ⟨[], .nil, rfl⟩
  | @cons i place is ps hi _ ih =>
    obtain ⟨ps', hps', hsame⟩ := ih
    rw [List.filter_cons, List.filterMap_cons]
    cases hP : P (f.label i) with
    | false =>
      rw [hlabel i place hi] at hP
      rw [if_neg Bool.false_ne_true, htold place hP]
      exact ⟨ps', hps', hsame⟩
    | true =>
      rw [if_pos rfl]
      refine ⟨place :: ps', .cons hi hps', ?_⟩
      rw [List.filterMap_cons, hsame]

theorem ready_attributes (m : Memory) (hf : Layered f kids rank) :
    Ready c Label.isAttribute Label.isAttribute ⟨m.refresh, f⟩ kids rank
      (f.collect Label.isAttribute) where
  layered := hf
  lifted := nofun
  order := ⟨[], rfl⟩
  settled := by
    intro k hk hnot e s he hwaits
    apply hnot
    apply mem_collect hf.linked hf.graded _ _ hk
    · exact (he.child (mem_of_eq_singleton hwaits.single)).child hwaits.inside
    · exact hf.ne_root (isScopable_leaf (isScopable_of_isAttribute hk)).notRoot

theorem Ready.tags (h : Ready c Label.isAttribute Label.isAttribute p kids rank []) :
    Ready c Label.isTag isScopable p kids rank (p.forest.collect Label.isTag) where
  layered := h.layered
  lifted := h.lifted
  order := ⟨[], rfl⟩
  settled := by
    intro k hk hnot e s he hwaits
    rcases Bool.or_eq_true_iff.1 hk with hattribute | htag
    · exact h.settled k hattribute List.not_mem_nil e s he hwaits
    · apply hnot
      apply mem_collect h.layered.linked h.layered.graded _ _ htag
      · exact (he.child (mem_of_eq_singleton hwaits.single)).child hwaits.inside
      · exact h.layered.ne_root (isScopable_leaf hk).notRoot

/-- Scoping in the local mode records what the places tell, with the owners and bars that are reached. -/
theorem scopeForest_elements (hmode : c.mode = .locally) (m : Memory) (hf : Layered f kids rank)
    (halone : (f.get root).parent = none) (hqualified : (f.tree root).All Label.Qualified) :
    (scopeForest c m f).elements =
      m.elements.recordAll (sightings c (Place.reachedOwner c) (Place.reachesBar c) (f.tree root)) := by
  have hlocated := located_descendants hf halone
  obtain ⟨ps, hps, htold⟩ := forall₂_collect (P := Label.isAttribute)
    (fun place => place.attribute? c (place.reachedOwner c)) hlocated (fun _ _ h => h.label) (by
      intro place hplace
      rw [Place.attribute?, Place.isScopedAttribute, hplace]
      rfl)
  obtain ⟨ps', hps', htold'⟩ := forall₂_collect (P := Label.isTag)
    (fun place => place.element? c (place.reachesBar c)) hlocated (fun _ _ h => h.label) (by
      intro place hplace
      rw [Place.element?, hplace]
      rfl)
  have hattributes : List.Forall₂ (StandsAt c Label.isAttribute ownerOf (Place.reachedOwner c)
      ⟨m.refresh, f⟩ kids) (f.collect Label.isAttribute) ps :=
    hps.imp fun _ _ h => h.standsAt hf hqualified
  obtain ⟨kids₁, rank₁, h₁, hkept, helements₁⟩ :=
    scopeAttributes_visits hmode (ready_attributes m hf) rfl hattributes
  -- the classes of the first phase hide no bar from the tags
  have htags : List.Forall₂ (StandsAt c isScopable endsInBar (Place.reachesBar c)
      (Pass.scopeAttributes c ⟨m.refresh, f⟩) kids₁) (f.collect Label.isTag) ps' := by
    have hmem : ∀ j ∈ f.collect Label.isTag, (f.label j).isTag = true :=
      fun j hj => (List.mem_filter.1 hj).2
    apply ((List.forall₂_and_left _ _).2 ⟨hmem, hps'⟩).imp
    rintro j place ⟨htag, hj⟩
    exact hkept.stands j place (hj.label ▸ htag) (hj.standsAt hf hqualified)
  have h₂ : Ready c Label.isTag isScopable (Pass.scopeAttributes c ⟨m.refresh, f⟩) kids₁ rank₁
      (f.collect Label.isTag) := by
    have htags := h₁.tags
    rwa [hkept.order] at htags
  have hphases : (scopeForest c m f).elements =
      ((f.collect Label.isTag).foldl (Pass.scopeTag c)
        (Pass.scopeAttributes c ⟨m.refresh, f⟩)).elements :=
    congrArg (fun tags => (tags.foldl (Pass.scopeTag c)
      (Pass.scopeAttributes c ⟨m.refresh, f⟩)).elements) hkept.order
  have hfirst : (Pass.scopeAttributes c ⟨m.refresh, f⟩).elements =
      m.elements.recordAll (ps.filterMap fun place =>
        place.attribute? c (place.reachedOwner c)) := helements₁
  rw [hphases, scopeTags_visits hmode h₂ htags, hfirst, htold, htold', sightings,
    Registry.recordAll_append]

theorem sightings_congr {owner owner' : Place → String} {barred barred' : Place → Bool}
    (howner : ∀ place ∈ places t, owner place = owner' place)
    (hbarred : ∀ place ∈ places t, barred place = barred' place) :
    sightings c owner barred t = sightings c owner' barred' t := by
  have hattributes : (places t).filterMap (fun place => place.attribute? c (owner place)) =
      (places t).filterMap fun place => place.attribute? c (owner' place) := by
    apply List.filterMap_congr
    intro place hplace
    rw [howner place hplace]
  have htags : (places t).filterMap (fun place => place.element? c (barred place)) =
      (places t).filterMap fun place => place.element? c (barred' place) := by
    apply List.filterMap_congr
    intro place hplace
    rw [hbarred place hplace]
  rw [sightings, sightings, hattributes, htags]

namespace Resolver

theorem run_reached (r : Resolver) (hmode : r.config.mode = .locally) {rule : String}
    (h : parse rule = .ok t) :
    ∃ out r', r.run rule = .ok (out, r') ∧ r'.elements = r.elements.recordAll
      (sightings r.config (Place.reachedOwner r.config) (Place.reachesBar r.config) t) := by
  obtain ⟨kids, hf, htree⟩ := layered_of_parse h
  obtain ⟨selectors, rfl, -, hqualified⟩ := parse_shape h
  have halone : ((ofTree (.root selectors)).get root).parent = none :=
    (hf.linked.orphan fun q hq => Nat.not_lt_zero _ (hf.graded.above hq)).1
  have helements := scopeForest_elements hmode r.toMemory hf halone (htree.symm ▸ hqualified)
  rw [htree] at helements
  exact ⟨_, _, run_of_parsed r h, helements⟩

/-- In the local mode, a selector list without escapes adds to the registry exactly what its attributes
tell, each with the nearest tag or id in front of it, and what its tags tell. -/
theorem run_contributes (r : Resolver) (hmode : r.config.mode = .locally) {rule : String}
    (h : parse rule = .ok t)
    (hglobal : t.All fun l => ¬ (l.isPseudo = true ∧ l.value = ":global")) :
    ∃ out r', r.run rule = .ok (out, r') ∧
      r.elements.Gains (sightings r.config Place.owner Place.isBarred t) r'.elements := by
  obtain ⟨out, r', hrun, helements⟩ := r.run_reached hmode h
  have hclosed : ∀ place ∈ places t, ∀ P,
      openedAll r.config P place.front = place.front.map Tree.label := by
    intro place hplace P
    apply openedAll_of_forall
    intro u hu
    obtain ⟨place', hplace', -, hlabel⟩ := front_mem_places hplace hu
    have hnot := label_of_mem_places hglobal hplace'
    rw [hlabel] at hnot
    have hescape : isEscape r.config u.label = false := by
      rw [isEscape, hmode]
      apply Bool.eq_false_iff.2
      intro hescape
      obtain ⟨hpseudo, hvalue⟩ := Bool.and_eq_true_iff.1 hescape
      exact hnot ⟨hpseudo, beq_iff_eq.1 hvalue⟩
    rw [isOpened, hescape]
    rfl
  refine ⟨out, r', hrun, Registry.gains_iff.2 ?_⟩
  rw [helements]
  congr 1
  apply sightings_congr
  · intro place hplace
    rw [Place.reachedOwner, hclosed place hplace, Place.owner]
  · intro place hplace
    rw [Place.reachesBar, hclosed place hplace, Place.isBarred]

def ownedAttributes : Tree :=
  .root [.selector [.leaf .tag "a", .leaf .idName "b",
    .node ⟨.attribute ⟨some "=", some "\"d\"", none⟩, "c", none⟩ [],
    .node ⟨.attribute .presence, "f", some (.named "s")⟩ [], .leaf .combinator "|", .leaf .tag "e"]]

theorem parse_ownedAttributes : parse "a#b[c=\"d\"][s|f]|e" = .ok ownedAttributes := by
  have ha : ComponentAt (.node (.leaf .tag "a")) "a".toList "#b[c=\"d\"][s|f]|e".toList :=
    .tag ⟨by decide, by decide⟩ rfl
  have hb : ComponentAt (.node (.leaf .idName "b")) "#b".toList "[c=\"d\"][s|f]|e".toList :=
    .idName ⟨by decide, by decide⟩
  have hcname : NameBefore "c".toList "=\"d\"][s|f]|e".toList := ⟨by decide, by decide⟩
  have hquoted : Quoted '"' "d\"".toList := fun k => by
    simp [takeQuoted]
  have hc : ComponentAt (.node (.node ⟨.attribute ⟨some "=", some "\"d\"", none⟩, "c", none⟩ []))
      "[c=\"d\"]".toList "[s|f]|e".toList :=
    .equals (.plain hcname rfl) (tight_cons (by decide) (by decide) _) (.quoted (by decide) hquoted)
      (tight_cons (by decide) (by decide) _)
  have hprefix : NameBefore "s".toList "|f]|e".toList := ⟨by decide, by decide⟩
  have hfname : NameBefore "f".toList "]|e".toList := ⟨by decide, by decide⟩
  have hfattribute : AttributeAt (.node ⟨.attribute .presence, "f", some (.named "s")⟩ [])
      "s|f]".toList "|e".toList :=
    .intro trivia_nil (tight_cons (by decide) (by decide) _) (.prefixed hprefix hfname) trivia_nil
      (tight_cons (by decide) (by decide) _) (.presence rfl)
  have hf : ComponentAt (.node (.node ⟨.attribute .presence, "f", some (.named "s")⟩ []))
      "[s|f]".toList "|e".toList := .bracket hfattribute
  have hbar : ComponentAt (.node (.leaf .combinator "|")) "|".toList "e".toList :=
    .combinator (.inr rfl)
  have he : ComponentAt (.node (.leaf .tag "e")) "e".toList [] :=
    .tag ⟨by decide, by decide⟩ rfl
  refine parse_eq_ok_iff.2 ⟨_, rfl, ?_⟩
  refine ha.reads rfl rfl ?_
  refine hb.reads rfl rfl ?_
  refine hc.reads rfl rfl ?_
  refine hf.reads rfl rfl ?_
  refine hbar.reads rfl rfl ?_
  refine he.reads rfl rfl ?_
  exact .done tight_nil (.done rfl rfl)

def seenBefore : Registry :=
  ⟨[("b", ⟨∅, ⟨[("c", ⟨[("x", ())], by decide⟩)], by decide⟩⟩)], by decide⟩

/-- Both attributes are seen on the id, and the bar marks the tag behind it. -/
theorem run_ownedAttributes :
    parse "a#b[c=\"d\"][s|f]|e" = .ok ownedAttributes ∧
      (ownedAttributes.All fun l => ¬ (l.isPseudo = true ∧ l.value = ":global")) ∧
      ∃ out r', run ⟨⟨seenBefore, ∅, []⟩, ⟨"s", .locally⟩⟩ "a#b[c=\"d\"][s|f]|e" = .ok (out, r') ∧
        r'.elements = ⟨[("a", ⟨∅, ∅⟩),
          ("b", ⟨⟨[("s--f", ⟨[("", ())], by decide⟩)], by decide⟩,
            ⟨[("c", ⟨[("d", ()), ("x", ())], by decide⟩)], by decide⟩⟩),
          ("s--e", ⟨∅, ∅⟩)], by decide⟩ := by
  have hglobal : ownedAttributes.All fun l => ¬ (l.isPseudo = true ∧ l.value = ":global") := by
    simp [ownedAttributes, Tree.root, Tree.selector, Tree.leaf, Tree.All.node_iff, Label.isPseudo]
  obtain ⟨out, r', hrun, hgains⟩ :=
    run_contributes ⟨⟨seenBefore, ∅, []⟩, ⟨"s", .locally⟩⟩ rfl parse_ownedAttributes hglobal
  have htold : sightings ⟨"s", .locally⟩ Place.owner Place.isBarred ownedAttributes =
      [.attribute "b" .prop "c" "d", .attribute "b" .mod "s--f" "", .element "a",
        .element "s--e"] := by decide
  refine ⟨parse_ownedAttributes, hglobal, out, r', hrun, ?_⟩
  rw [Registry.gains_iff.1 hgains, htold]
  decide

end Resolver

end ScopedStyles.Scope
