import ScopedStyles.Proofs.Resolver.Visits

namespace ScopedStyles.Scope

open Selector Forest

variable {c : Config} {f : Forest} {p : Pass} {kids : Nat → List Nat} {rank : Nat → Nat}
  {i j q : Nat} {rest : List Nat} {place : Place}

section Attributes

theorem ownerFrom_front (h : Linked f kids) {fuel : Nat} {before after : List Nat}
    (hq : kids q = before ++ after) (hfuel : before.length ≤ fuel) :
    (ownerFrom f fuel before.getLast?).getD Registry.commonElement =
      ownerOf (before.map f.label) := by
  induction before using List.reverseRecOn generalizing after fuel with
  | nil =>
    cases fuel with
    | zero => rfl
    | succ fuel => rfl
  | append_singleton before i ih =>
    rw [List.length_append, List.length_singleton] at hfuel
    cases fuel with
    | zero => omega
    | succ fuel =>
      rw [List.append_assoc] at hq
      obtain ⟨-, hprev, -⟩ := h.links hq
      have hrest := ih hq (Nat.le_of_succ_le_succ hfuel)
      rw [List.getLast?_append, List.getLast?_singleton, Option.some_or, ownerFrom, ownerOf,
        List.map_append, List.reverse_append, List.map_singleton, List.reverse_singleton,
        List.singleton_append, List.takeWhile_cons]
      split
      · next hnames =>
        have hnot : (!(f.label i).isCombinator) = true := by
          rw [Label.isCombinator]
          rcases hnames with hkind | hkind
          · rw [hkind]
            rfl
          · rw [hkind]
            rfl
        have hfound : namesElement (f.label i) = true := by
          rw [namesElement, Bool.or_eq_true, beq_iff_eq, beq_iff_eq]
          exact hnames
        rw [if_pos hnot, List.find?_cons_of_pos hfound]
        rfl
      · next hnames =>
        split
        · next hcombinator =>
          rw [hcombinator]
          rfl
        · next hcombinator =>
          have hnot : (!(f.label i).isCombinator) = true := by
            rw [Bool.eq_false_iff.2 hcombinator]
            rfl
          have hpassed : ¬ namesElement (f.label i) = true := by
            rw [namesElement, Bool.or_eq_true, beq_iff_eq, beq_iff_eq]
            exact hnames
          rw [if_pos hnot, List.find?_cons_of_neg hpassed, hprev]
          exact hrest

theorem owner_front (h : Linked f kids) {before after : List Nat}
    (hq : kids q = before ++ i :: after) : owner f i = ownerOf (before.map f.label) := by
  have hlength := h.length_kids q
  rw [hq, List.length_append] at hlength
  rw [owner, (h.links hq).2.1]
  exact ownerFrom_front h hq (by omega)

theorem Place.attribute?_of_exposed (hmode : c.mode = .locally) (hqualified : place.label.Qualified)
    (hattribute : place.label.isAttribute = true) (hexposed : place.isExposed c = true)
    (owner : String) :
    place.attribute? c owner =
      if scopesNamespace c place.label.ns then some (attributeSighting c owner place.label)
      else none := by
  rw [attribute?, isScopedAttribute, hattribute, hexposed, scopesNamespace_locally hmode hqualified,
    attributeSighting, scopedName_eq hqualified, attributeKind, stripQuotes_rawValue, Bool.true_and,
    Bool.true_and]
  cases place.label.ns.all (· == .named c.scope) with
  | false => rfl
  | true =>
    rw [if_pos rfl, if_pos rfl]
    cases hns : place.label.ns with
    | none => rfl
    | some n =>
      obtain ⟨name, rfl, hname⟩ := hqualified n hns
      have hset : (some (Namespace.named name)).any (·.isSet) = true := bne_iff_ne.2 hname
      rw [hset]
      rfl

theorem scopeAttribute_visit (hmode : c.mode = .locally) (hqualified : place.label.Qualified)
    {owner : String} (h : Ready c Label.isAttribute Label.isAttribute p kids rank (i :: rest))
    (hstands : Stands c Label.isAttribute ownerOf p kids i place.label (place.isExposed c) owner) :
    ∃ kids', Visit c p kids rank i (p.scopeAttribute c i) kids' ∧
      (p.scopeAttribute c i).elements =
        p.elements.recordAll (place.attribute? c owner).toList := by
  obtain ⟨hi, hattribute⟩ := h.mem List.mem_cons_self
  have hscopable := isScopable_of_isAttribute hattribute
  have hnone : ¬ Exposed c p kids i → place.attribute? c owner = none := by
    intro hnot
    rw [hstands.exposed] at hnot
    rw [Place.attribute?, Place.isScopedAttribute, Bool.eq_false_iff.2 hnot, Bool.and_false, Bool.false_and]
    rfl
  have hdecides := decide_locally hmode h.layered h.lifted hi hscopable
  rw [Pass.scopeAttribute, if_pos ((isAttached_iff h.layered.linked h.layered.graded).2 hi)]
  generalize p.decide c i = d at hdecides
  cases hdecides with
  | exposed hexposed =>
    have htold := Place.attribute?_of_exposed hmode hqualified (hstands.label ▸ hattribute)
      (hstands.exposed.1 hexposed) owner
    rw [← hstands.label] at htold
    cases hscopes : scopesNamespace c (p.forest.label i).ns with
    | false =>
      rw [htold, hscopes]
      exact ⟨kids, .left fun _ _ => hexposed.not_waits, rfl⟩
    | true =>
      obtain ⟨q, before, after, hsplit, howner⟩ :=
        h.front (hstands.faces (hstands.exposed.1 hexposed))
      rw [htold, hscopes, ← howner, ← owner_front h.layered.linked hsplit]
      exact ⟨_, .put ⟨h.layered, hi, hscopable, hexposed, ⟨_, rfl⟩, rfl⟩, rfl⟩
  | kept hnot hwaits =>
    rw [hnone hnot]
    exact ⟨kids, .left hwaits, rfl⟩
  | lifted hnot he hwaits =>
    rw [hnone hnot]
    exact ⟨_, .lifted hwaits ⟨h.layered, he, hwaits.escape, hwaits.single, rfl, rfl⟩, rfl⟩

end Attributes

section Tags

theorem marked_absorbBar (hf : Linked f kids) (htag : (f.label i).isTag = true) :
    Marked f [i] (absorbBar f i) :=
  (Marked.start f).absorbBar hf nofun List.not_mem_nil htag

theorem isSome_barBefore? (hf : Linked f kids) {before after : List Nat}
    (hq : kids q = before ++ i :: after) :
    (barBefore? f i).isSome = endsInBar (before.map f.label) := by
  rw [barBefore?, Option.isSome_filter, (hf.links hq).2.1, endsInBar, List.getLast?_map,
    Option.any_map]

theorem label_absorbBar (hf : Linked f kids) (htag : (f.label i).isTag = true)
    {before after : List Nat} (hq : kids q = before ++ i :: after) :
    (absorbBar f i).label i =
      if endsInBar (before.map f.label) then { f.label i with ns := some .bar } else f.label i := by
  rw [← isSome_barBefore? hf hq]
  cases hbar : barBefore? f i with
  | none =>
    rw [absorbBar_of_none hbar]
    rfl
  | some b => exact ((marked_absorbBar hf htag).marked i (List.mem_singleton_self i) b hbar).1

/-- A bare bar in front of the tag `i` becomes its mark. -/
structure AbsorbsTo (p : Pass) (kids : Nat → List Nat) (rank : Nat → Nat) (i : Nat) (p' : Pass) :
    Prop where
  layered : Layered p.forest kids rank
  tag : (p.forest.label i).isTag = true
  forest : p'.forest = absorbBar p.forest i
  lifted : p'.lifted = p.lifted

namespace AbsorbsTo

variable {p' : Pass} {e s k : Nat}

theorem marked (h : AbsorbsTo p kids rank i p') : Marked p.forest [i] p'.forest := by
  rw [h.forest]
  exact marked_absorbBar h.layered.linked h.tag

theorem tags (h : AbsorbsTo p kids rank i p') : ∀ k ∈ [i], (p.forest.label k).isTag = true :=
  List.forall_mem_singleton.2 h.tag

theorem after (h : AbsorbsTo p kids rank i p') : Layered p'.forest kids rank :=
  h.marked.layered h.layered

theorem isScopable_eq (h : AbsorbsTo p kids rank i p') (k : Nat) :
    isScopable (p'.forest.label k) = isScopable (p.forest.label k) := by
  rw [isScopable, isScopable, Label.isAttribute, Label.isAttribute, Label.isTag, Label.isTag,
    h.marked.kind]

theorem waits_iff (h : AbsorbsTo p kids rank i p') :
    Waits c p' kids e s k ↔ Waits c p kids e s k := by
  have hescape := h.marked.isEscape_eq (c := c) h.tags e
  constructor
  · rintro ⟨hisescape, hsingle, hinside, hunlifted⟩
    exact ⟨hescape ▸ hisescape, hsingle, hinside, h.lifted ▸ hunlifted⟩
  · rintro ⟨hisescape, hsingle, hinside, hunlifted⟩
    exact ⟨hescape.symm ▸ hisescape, hsingle, hinside, h.lifted.symm ▸ hunlifted⟩

theorem opens_eq (h : AbsorbsTo p kids rank i p') :
    Opens c isScopable p' kids = Opens c isScopable p kids := by
  funext e s
  simp only [Opens, h.isScopable_eq, h.waits_iff]

theorem exposed_iff (h : AbsorbsTo p kids rank i p') :
    Exposed c p' kids j ↔ Exposed c p kids j := by
  apply exposed_congr (congrArg (List.lookup j) h.lifted) Iff.rfl
  intro q e _ _
  cases hpseudo : (p.forest.label e).isPseudo with
  | false =>
    right
    rw [Label.isPseudo, h.marked.kind]
    exact ⟨hpseudo, rfl⟩
  | true =>
    left
    apply h.marked.kept h.tags
    · apply Bool.eq_false_iff.2
      intro htag
      cases (isScopable_leaf (isScopable_of_isTag htag)).notPseudo.symm.trans hpseudo
    · rintro ⟨hkind, -⟩
      rw [Label.isPseudo, hkind] at hpseudo
      cases hpseudo

/-- The bar is in front of no other node, also when the escapes are opened. -/
theorem faces {v : Bool} (h : AbsorbsTo p kids rank i p') (hji : j ≠ i)
    (hfaces : Faces c isScopable endsInBar p kids j v) :
    Faces c isScopable endsInBar p' kids j v := by
  obtain ⟨q, before, after, js, hq, hsplit, hshows, hv⟩ := hfaces
  have hlinked := h.layered.linked
  refine ⟨q, before, after, js, hq, hsplit, h.opens_eq ▸ hshows, ?_⟩
  rw [← hv, endsInBar, endsInBar, List.getLast?_map, List.getLast?_map]
  cases hlast : js.getLast? with
  | none => rfl
  | some x =>
    have hnext : (p.forest.get x).next = some j ∨ (p.forest.get x).next = none := by
      have hopens : ∀ e s, Opens c isScopable p kids e s → kids s ≠ [] := by
        rintro e s ⟨k, -, hwaits⟩
        exact List.ne_nil_of_mem hwaits.inside
      rcases hshows.getLast? hopens hlast with hbefore | ⟨s, hs⟩
      · obtain ⟨l, rfl⟩ := List.getLast?_eq_some_iff.1 hbefore
        rw [List.append_assoc] at hsplit
        exact .inl (hlinked.links hsplit).2.2
      · obtain ⟨l, hl⟩ := List.getLast?_eq_some_iff.1 hs
        exact .inr (hlinked.links hl).2.2
    rw [Option.map_some, Option.map_some, Option.any_some, Option.any_some]
    congr 1
    rw [eq_iff_iff]
    by_cases hxi : x = i
    · subst hxi
      have htag : (p'.forest.label x).isTag = true := by
        rw [Label.isTag, h.marked.kind]
        exact h.tag
      refine iff_of_false ?_ ?_
      · intro hbar
        rw [not_isTag_of_isBar hbar] at htag
        cases htag
      · intro hbar
        have htag' := h.tag
        rw [not_isTag_of_isBar hbar] at htag'
        cases htag'
    · rw [h.marked.other]
      intro k hk b hb
      cases List.mem_singleton.1 hk
      refine ⟨hxi, ?_⟩
      rintro rfl
      rw [next_of_prev hlinked (barBefore?_eq_some.1 hb).1] at hnext
      rcases hnext with heq | heq
      · exact hji (Option.some.inj heq).symm
      · cases heq

theorem stands {l : Label} {free v : Bool} (h : AbsorbsTo p kids rank i p') (hji : j ≠ i)
    (hl : l.isTag = true) (hstands : Stands c isScopable endsInBar p kids j l free v) :
    Stands c isScopable endsInBar p' kids j l free v := by
  obtain ⟨hbelow, rfl, hexposed, hfaces⟩ := hstands
  refine ⟨hbelow, ?_, h.exposed_iff.trans hexposed, fun hfree => h.faces hji (hfaces hfree)⟩
  apply h.marked.tag_label _ hl
  rw [List.mem_singleton]
  exact hji

theorem ready (h : AbsorbsTo p kids rank i p') (hready : Ready c Label.isTag isScopable p kids rank rest) :
    Ready c Label.isTag isScopable p' kids rank rest where
  layered := h.after
  lifted := h.lifted ▸ hready.lifted
  order := by
    obtain ⟨before, hcollect⟩ := hready.order
    refine ⟨before, ?_⟩
    rw [← hcollect, collect_eq_filter, collect_eq_filter,
      descendants_congr h.layered.linked h.layered.graded h.after.linked h.after.graded]
    apply List.filter_congr
    intro k _
    rw [Label.isTag, Label.isTag, h.marked.kind]
  settled := by
    intro k hk hrest e s he hwaits
    rw [h.isScopable_eq] at hk
    exact hready.settled k hk hrest e s he (h.waits_iff.1 hwaits)

end AbsorbsTo

theorem Place.element?_of_exposed (hmode : c.mode = .locally) (hqualified : place.label.Qualified)
    (htag : place.label.isTag = true) (hexposed : place.isExposed c = true) (barred : Bool) :
    place.element? c barred =
      if scopesNamespace c (if barred then some .bar else place.label.ns) then
        some (.element (scopedName c (if barred then some .bar else place.label.ns)
          place.label.value))
      else none := by
  rw [element?, htag, hexposed]
  cases barred with
  | true =>
    have hbar : scopesNamespace c (some .bar) = true := by
      unfold scopesNamespace
      rw [hmode]
    exact (if_pos hbar).symm
  | false =>
    rw [if_neg Bool.false_ne_true, scopesNamespace_locally hmode hqualified, scopedName_eq hqualified]
    rfl

theorem scopeTag_visit (hmode : c.mode = .locally) (hqualified : place.label.Qualified)
    {barred : Bool} (h : Ready c Label.isTag isScopable p kids rank (i :: rest))
    (hstands : Stands c isScopable endsInBar p kids i place.label (place.isExposed c) barred) :
    ∃ p₁ kids', AbsorbsTo p kids rank i p₁ ∧ Visit c p₁ kids rank i (p.scopeTag c i) kids' ∧
      (p.scopeTag c i).elements = p.elements.recordAll (place.element? c barred).toList := by
  obtain ⟨hi, htag⟩ := h.mem List.mem_cons_self
  have habsorbs : AbsorbsTo p kids rank i { p with forest := absorbBar p.forest i } :=
    ⟨h.layered, htag, rfl, rfl⟩
  have hscopable := (habsorbs.isScopable_eq i).trans (isScopable_of_isTag htag)
  have hnone : ¬ Exposed c { p with forest := absorbBar p.forest i } kids i →
      place.element? c barred = none := by
    intro hnot
    rw [habsorbs.exposed_iff, hstands.exposed] at hnot
    rw [Place.element?, Bool.eq_false_iff.2 hnot, Bool.and_false, Bool.false_and]
    rfl
  have hdecides := decide_locally hmode habsorbs.after h.lifted hi hscopable
  rw [Pass.scopeTag, if_pos ((isAttached_iff h.layered.linked h.layered.graded).2 hi)]
  generalize Pass.decide c { p with forest := absorbBar p.forest i } i = d at hdecides
  refine ⟨{ p with forest := absorbBar p.forest i }, ?_⟩
  -- The bar is absorbed before the decision, whatever that is.
  cases hdecides with
  | exposed hexposed =>
    have hfree := hstands.exposed.1 (habsorbs.exposed_iff.1 hexposed)
    obtain ⟨q, before, after, hsplit, hbarred⟩ := h.front (hstands.faces hfree)
    have hlabel := label_absorbBar h.layered.linked htag hsplit
    have htold := Place.element?_of_exposed hmode hqualified (hstands.label ▸ htag) hfree barred
    rw [hbarred] at hlabel
    rw [← hstands.label] at htold
    have hns : ((absorbBar p.forest i).label i).ns =
        if barred then some .bar else (p.forest.label i).ns := by
      rw [hlabel]
      cases barred with
      | true => rfl
      | false => rfl
    have hvalue : ((absorbBar p.forest i).label i).value = (p.forest.label i).value := by
      rw [hlabel]
      cases barred with
      | true => rfl
      | false => rfl
    rw [← hns] at htold
    cases hscopes : scopesNamespace c ((absorbBar p.forest i).label i).ns with
    | false =>
      rw [hscopes] at htold
      rw [htold]
      exact ⟨kids, habsorbs, .left fun _ _ => hexposed.not_waits, rfl⟩
    | true =>
      rw [hscopes, ← hvalue] at htold
      rw [htold]
      exact ⟨_, habsorbs, .put ⟨habsorbs.after, hi, hscopable, hexposed, ⟨_, rfl⟩, rfl⟩, rfl⟩
  | kept hnot hwaits =>
    rw [hnone hnot]
    exact ⟨kids, habsorbs, .left hwaits, rfl⟩
  | lifted hnot he hwaits =>
    rw [hnone hnot]
    exact ⟨_, habsorbs,
      .lifted hwaits ⟨habsorbs.after, he, hwaits.escape, hwaits.single, rfl, rfl⟩, rfl⟩

end Tags

section Phases

variable {α : Type} {V P : Label → Bool} {look : List Label → α} {view : Place → α}
  {step : Pass → Nat → Pass} {tags : List Nat} {places : List Place}

def StandsAt (c : Config) (P : Label → Bool) (look : List Label → α) (view : Place → α) (p : Pass)
    (kids : Nat → List Nat) (j : Nat) (place : Place) : Prop :=
  place.label.Qualified ∧ Stands c P look p kids j place.label (place.isExposed c) (view place)

/-- A phase whose visits record what the places tell records what all of them tell. -/
theorem foldl_visits (told : Place → Option Sighting) (Frame : Pass → (Nat → List Nat) → Prop)
    (hstep : ∀ {p kids rank i rest place}, Ready c V P p kids rank (i :: rest) → Frame p kids →
      StandsAt c P look view p kids i place →
      ∃ kids' rank', Ready c V P (step p i) kids' rank' rest ∧ Frame (step p i) kids' ∧
        (step p i).elements = p.elements.recordAll (told place).toList ∧
        ∀ j place, j ≠ i → V place.label = true → StandsAt c P look view p kids j place →
          StandsAt c P look view (step p i) kids' j place)
    (h : Ready c V P p kids rank rest) (hframe : Frame p kids)
    (hstands : List.Forall₂ (StandsAt c P look view p kids) rest places) :
    ∃ kids' rank', Ready c V P (rest.foldl step p) kids' rank' [] ∧
      Frame (rest.foldl step p) kids' ∧
      (rest.foldl step p).elements = p.elements.recordAll (places.filterMap told) := by
  induction places generalizing p kids rank rest with
  | nil =>
    cases hstands
    exact ⟨kids, rank, h, hframe, rfl⟩
  | cons place places ih =>
    obtain ⟨i, rest, hi, hrest, rfl⟩ := List.forall₂_cons_right_iff.1 hstands
    obtain ⟨kids₁, rank₁, h₁, hframe₁, helements₁, hkept⟩ := hstep h hframe hi
    have hne : ∀ j ∈ rest, j ≠ i := by
      obtain ⟨before, hcollect⟩ := h.order
      have hnodup := h.nodup
      rw [hcollect] at hnodup
      rintro j hj rfl
      exact (List.nodup_cons.1 (List.nodup_append.1 hnodup).2.1).1 hj
    have hlabels : ∀ j ∈ rest, j ≠ i ∧ V (p.forest.label j) = true :=
      fun j hj => ⟨hne j hj, (h.mem (List.mem_cons_of_mem i hj)).2⟩
    have hstands₁ : List.Forall₂ (StandsAt c P look view (step p i) kids₁) rest places := by
      apply ((List.forall₂_and_left rest places).2 ⟨hlabels, hrest⟩).imp
      rintro j place ⟨⟨hji, hV⟩, hstands⟩
      exact hkept j place hji (hstands.2.label ▸ hV) hstands
    obtain ⟨kids₂, rank₂, h₂, hframe₂, helements₂⟩ := ih h₁ hframe₁ hstands₁
    refine ⟨kids₂, rank₂, h₂, hframe₂, ?_⟩
    rw [List.foldl_cons, helements₂, helements₁, List.filterMap_cons]
    cases told place with
    | none => rfl
    | some sighting => rfl

/-- What stays during the first phase for the second. -/
structure KeepsTags (c : Config) (tags : List Nat) (p : Pass) (kids : Nat → List Nat) (p' : Pass)
    (kids' : Nat → List Nat) : Prop where
  order : p'.forest.collect Label.isTag = tags
  stands : ∀ j place, place.label.isTag = true →
    StandsAt c isScopable endsInBar (Place.reachesBar c) p kids j place →
    StandsAt c isScopable endsInBar (Place.reachesBar c) p' kids' j place

theorem ne_of_isTag (hi : (p.forest.label i).isAttribute = true)
    (hj : (p.forest.label j).isTag = true) : j ≠ i := by
  rintro rfl
  rw [Label.isTag, beq_iff_eq] at hj
  rw [Label.isAttribute, hj] at hi
  cases hi

theorem scopeAttributes_visits (hmode : c.mode = .locally)
    (h : Ready c Label.isAttribute Label.isAttribute p kids rank rest)
    (htags : p.forest.collect Label.isTag = tags)
    (hstands : List.Forall₂ (StandsAt c Label.isAttribute ownerOf (Place.reachedOwner c) p kids) rest
      places) :
    ∃ kids' rank', Ready c Label.isAttribute Label.isAttribute (rest.foldl (Pass.scopeAttribute c) p)
        kids' rank' [] ∧
      KeepsTags c tags p kids (rest.foldl (Pass.scopeAttribute c) p) kids' ∧
      (rest.foldl (Pass.scopeAttribute c) p).elements = p.elements.recordAll (places.filterMap
        fun place => place.attribute? c (place.reachedOwner c)) := by
  apply foldl_visits _ (KeepsTags c tags p kids) ?_ h ⟨htags, fun _ _ _ => id⟩ hstands
  rintro p kids rank i rest place h ⟨htags, hkept⟩ ⟨hqualified, hstands⟩
  obtain ⟨kids', hvisit, helements⟩ := scopeAttribute_visit hmode hqualified h hstands
  obtain ⟨-, hi⟩ := h.mem List.mem_cons_self
  obtain ⟨rank', hready⟩ := hvisit.ready h (fun _ => isScopable_of_isAttribute)
    fun _ => isScopable_of_isAttribute
  refine ⟨kids', rank', hready, ⟨?_, ?_⟩, helements, ?_⟩
  · rw [hvisit.collect (fun _ => isScopable_of_isTag) _, htags]
    apply Bool.eq_false_iff.2
    intro htag
    exact ne_of_isTag hi htag rfl
  · intro j place htag hstands
    obtain ⟨hqualified, hj⟩ := hkept j place htag hstands
    refine ⟨hqualified, hvisit.stands hi (fun _ => isScopable_of_isAttribute) (fun _ => id) ?_
      (ne_of_isTag hi (hj.label ▸ htag)) (isScopable_of_isTag htag) hj⟩
    intro ls ls' hclassed
    exact endsInBar_classed
      (hclassed.imp fun _ _ => Classed.imp fun _ => isScopable_of_isAttribute)
  · intro j place hji hj ⟨hqualified, hstands⟩
    exact ⟨hqualified, hvisit.stands hi (fun _ => id) (fun _ => isScopable_of_isAttribute)
      (fun _ _ => ownerOf_classed) hji (isScopable_of_isAttribute hj) hstands⟩

theorem scopeTags_visits (hmode : c.mode = .locally)
    (h : Ready c Label.isTag isScopable p kids rank rest)
    (hstands : List.Forall₂ (StandsAt c isScopable endsInBar (Place.reachesBar c) p kids) rest
      places) :
    (rest.foldl (Pass.scopeTag c) p).elements = p.elements.recordAll (places.filterMap
      fun place => place.element? c (place.reachesBar c)) := by
  have hphase : ∃ kids' rank', Ready c Label.isTag isScopable (rest.foldl (Pass.scopeTag c) p) kids'
      rank' [] ∧ True ∧ (rest.foldl (Pass.scopeTag c) p).elements = p.elements.recordAll
        (places.filterMap fun place => place.element? c (place.reachesBar c)) := by
    apply foldl_visits _ (fun _ _ => True) ?_ h trivial hstands
    rintro p kids rank i rest place h - ⟨hqualified, hstands⟩
    obtain ⟨p₁, kids', habsorbs, hvisit, helements⟩ := scopeTag_visit hmode hqualified h hstands
    obtain ⟨-, hi⟩ := (habsorbs.ready h).mem List.mem_cons_self
    obtain ⟨rank', hready⟩ := hvisit.ready (habsorbs.ready h) (fun _ => isScopable_of_isTag)
      fun _ => id
    refine ⟨kids', rank', hready, trivial, helements, ?_⟩
    rintro j place hji hj ⟨hqualified, hstands⟩
    refine ⟨hqualified, hvisit.stands hi (fun _ => isScopable_of_isTag) (fun _ => id) ?_ hji
      (isScopable_of_isTag hj) (habsorbs.stands hji hj hstands)⟩
    intro ls ls' hclassed
    exact endsInBar_classed (hclassed.imp fun _ _ => Classed.imp fun _ => isScopable_of_isTag)
  obtain ⟨-, -, -, -, helements⟩ := hphase
  exact helements

end Phases

end ScopedStyles.Scope
