import ScopedStyles.Proofs.Resolver.Contribution

namespace ScopedStyles.Scope

open Selector

variable {c : Config} {t : Tree} {place : Place} {name : String}

def Place.isEscaped (c : Config) (place : Place) : Bool :=
  place.holder.any (isEscape c)

/-- The common element, the elements that scoped tags stand for, and the tags and ids outside of escapes. -/
def Admits (c : Config) (t : Tree) (name : String) : Prop :=
  name = Registry.commonElement ∨
    (∃ place ∈ places t, place.element? c (place.reachesBar c) = some (.element name)) ∨
    ∃ place ∈ places t, namesElement place.label = true ∧ place.label.value = name ∧
      place.isEscaped c = false

instance (c : Config) (t : Tree) (name : String) : Decidable (Admits c t name) :=
  inferInstanceAs (Decidable (_ ∨ _ ∨ _))

theorem Place.not_isEscaped_of_exposed (h : place.isExposed c = true) :
    place.isEscaped c = false := by
  rw [isEscaped, Option.any_eq_false]
  intro l hl
  apply Bool.eq_false_iff.2
  intro hescape
  obtain ⟨hpseudo, hvalue⟩ := Bool.and_eq_true_iff.1 hescape
  exact (Place.isExposed_iff.1 h l hl hpseudo).1 (beq_iff_eq.1 hvalue)

theorem admits_owner (hplace : place ∈ places t) (hexposed : place.isExposed c = true) :
    Admits c t place.owner := by
  rw [Place.owner, ownerOf]
  cases hfound : ((place.front.map Tree.label).reverse.takeWhile fun l => !l.isCombinator).find?
      namesElement with
  | none => exact .inl rfl
  | some l =>
    have hmem : l ∈ place.front.map Tree.label := by
      rw [← List.mem_reverse]
      exact List.takeWhile_subset _ (List.mem_of_find?_eq_some hfound)
    obtain ⟨u, hu, rfl⟩ := List.mem_map.1 hmem
    obtain ⟨place', hplace', hholder, hlabel⟩ := front_mem_places hplace hu
    refine .inr (.inr ⟨place', hplace', ?_, congrArg Label.value hlabel, ?_⟩)
    · rw [hlabel]
      exact List.find?_some hfound
    · rw [Place.isEscaped, hholder]
      exact Place.not_isEscaped_of_exposed hexposed

theorem subject_of_attribute? {owner : String} {s : Sighting}
    (h : place.attribute? c owner = some s) :
    place.isScopedAttribute c = true ∧ s.subject = owner := by
  rw [Place.attribute?, Option.ite_none_right_eq_some] at h
  obtain ⟨hscoped, hsome⟩ := h
  refine ⟨hscoped, ?_⟩
  obtain rfl := Option.some.inj hsome
  split
  · rfl
  · rfl

theorem exists_attribute? (h : place.isScopedAttribute c = true) (owner : String) :
    ∃ s, place.attribute? c owner = some s ∧ s.subject = owner := by
  obtain ⟨s, hs⟩ : ∃ s, place.attribute? c owner = some s := by
    rw [Place.attribute?, if_pos h]
    exact ⟨_, rfl⟩
  exact ⟨s, hs, (subject_of_attribute? hs).2⟩

theorem eq_element_of_element? {barred : Bool} {s : Sighting} (h : place.element? c barred = some s) :
    s = .element s.subject := by
  rw [Place.element?, Option.ite_none_right_eq_some] at h
  obtain ⟨-, hsome⟩ := h
  obtain rfl := Option.some.inj hsome
  rfl

namespace Resolver

/-- In the local mode, a run adds no element but those of scoped tags and of tags and ids outside of
escapes, exactly if no attribute finds another owner in an escape that has been opened in front of it. -/
theorem run_admits_iff (r : Resolver) (hmode : r.config.mode = .locally) {rule : String}
    (h : parse rule = .ok t) :
    ∃ out r', r.run rule = .ok (out, r') ∧
      r'.elements = r.elements.recordAll
        (sightings r.config (Place.reachedOwner r.config) (Place.reachesBar r.config) t) ∧
      ((∀ name, r'.elements.contains name = true →
          r.elements.contains name = true ∨ Admits r.config t name) ↔
        ∀ place ∈ places t, place.isScopedAttribute r.config = true →
          r.elements.contains (place.reachedOwner r.config) = true ∨
            Admits r.config t (place.reachedOwner r.config)) ∧
      ∀ place ∈ places t, place.isScopedAttribute r.config = true →
        place.reachedOwner r.config = place.owner →
          Admits r.config t (place.reachedOwner r.config) := by
  obtain ⟨out, r', hrun, helements⟩ := r.run_reached hmode h
  have hcontains := (Registry.gains_iff.2 helements).elements
  refine ⟨out, r', hrun, helements, ?_, ?_⟩
  · constructor
    · intro hall place hplace hscoped
      obtain ⟨s, hs, hsubject⟩ := exists_attribute? hscoped (place.reachedOwner r.config)
      apply hall
      refine (hcontains _).2 (.inr ⟨s, ?_, hsubject⟩)
      exact List.mem_append_left _ (List.mem_filterMap.2 ⟨place, hplace, hs⟩)
    · intro hall name hname
      rcases (hcontains name).1 hname with hknown | ⟨s, hs, rfl⟩
      · exact .inl hknown
      · rcases List.mem_append.1 hs with hattribute | htag
        · obtain ⟨place, hplace, hsome⟩ := List.mem_filterMap.1 hattribute
          obtain ⟨hscoped, hsubject⟩ := subject_of_attribute? hsome
          rw [hsubject]
          exact hall place hplace hscoped
        · obtain ⟨place, hplace, hsome⟩ := List.mem_filterMap.1 htag
          refine .inr (.inr (.inl ⟨place, hplace, ?_⟩))
          rw [hsome, ← eq_element_of_element? hsome]
  · intro place hplace hscoped hsame
    rw [hsame]
    apply admits_owner hplace
    rw [Place.isScopedAttribute, Bool.and_eq_true, Bool.and_eq_true] at hscoped
    exact hscoped.1.2

def behindEscape (inner : List Tree) : Tree :=
  .root [.selector [.functional ":global" [.selector inner],
    .node ⟨.attribute .presence, "open", none⟩ []]]

theorem openAttribute_read :
    ComponentAt (.node (.node ⟨.attribute .presence, "open", none⟩ [])) "[open]".toList [] := by
  have hname : NameBefore "open".toList "]".toList := ⟨by decide, by decide⟩
  have hattribute : AttributeAt (.node ⟨.attribute .presence, "open", none⟩ []) "open]".toList [] :=
    .intro trivia_nil (tight_cons (by decide) (by decide) _) (.plain hname rfl) trivia_nil
      (tight_cons (by decide) (by decide) _) (.presence rfl)
  exact .bracket hattribute

theorem parse_closedEscape :
    parse ":global(button)[open]" = .ok (behindEscape [.leaf .tag "button"]) := by
  have hname : NameBefore "global".toList "(button)[open]".toList := ⟨by decide, by decide⟩
  have hglobal : PseudoNameAt (":" ++ "global") "global".toList "(button)[open]".toList :=
    .single hname
  have hopening : ComponentAt (.opening ":global") ":global(".toList "button)[open]".toList :=
    .opening trivia_nil hglobal (tight_cons (by decide) (by decide) _) (by decide)
  have hbutton : ComponentAt (.node (.leaf .tag "button")) "button".toList ")[open]".toList :=
    .tag ⟨by decide, by decide⟩ rfl
  refine parse_eq_ok_iff.2 ⟨_, rfl, ?_⟩
  refine hopening.reads rfl rfl ?_
  refine hbutton.reads rfl rfl ?_
  refine .more (tight_cons (by decide) (by decide) _) (.close rfl rfl) ?_
  refine openAttribute_read.reads rfl rfl ?_
  exact .done tight_nil (.done rfl rfl)

theorem run_closedEscape :
    parse ":global(button)[open]" = .ok (behindEscape [.leaf .tag "button"]) ∧
      ∃ out r', (Resolver.new ⟨"s", .locally⟩).run ":global(button)[open]" = .ok (out, r') ∧
        r'.elements = Registry.recordAll ∅ [.attribute Registry.commonElement .prop "open" ""] ∧
        ∀ name, r'.elements.contains name = true →
          (∅ : Registry).contains name = true ∨
            Admits ⟨"s", .locally⟩ (behindEscape [.leaf .tag "button"]) name := by
  obtain ⟨out, r', hrun, helements, hadmits, -⟩ :=
    run_admits_iff (Resolver.new ⟨"s", .locally⟩) rfl parse_closedEscape
  have htold : sightings ⟨"s", .locally⟩ (Place.reachedOwner ⟨"s", .locally⟩)
      (Place.reachesBar ⟨"s", .locally⟩) (behindEscape [.leaf .tag "button"]) =
        [.attribute Registry.commonElement .prop "open" ""] := by decide
  refine ⟨parse_closedEscape, out, r', hrun, htold ▸ helements, hadmits.2 ?_⟩
  decide

theorem parse_openedEscape : parse ":global(button[x])[open]" =
    .ok (behindEscape [.leaf .tag "button", .node ⟨.attribute .presence, "x", none⟩ []]) := by
  have hname : NameBefore "global".toList "(button[x])[open]".toList := ⟨by decide, by decide⟩
  have hglobal : PseudoNameAt (":" ++ "global") "global".toList "(button[x])[open]".toList :=
    .single hname
  have hopening : ComponentAt (.opening ":global") ":global(".toList "button[x])[open]".toList :=
    .opening trivia_nil hglobal (tight_cons (by decide) (by decide) _) (by decide)
  have hbutton : ComponentAt (.node (.leaf .tag "button")) "button".toList "[x])[open]".toList :=
    .tag ⟨by decide, by decide⟩ rfl
  have hx : NameBefore "x".toList "])[open]".toList := ⟨by decide, by decide⟩
  have hattribute : AttributeAt (.node ⟨.attribute .presence, "x", none⟩ []) "x]".toList
      ")[open]".toList :=
    .intro trivia_nil (tight_cons (by decide) (by decide) _) (.plain hx rfl) trivia_nil
      (tight_cons (by decide) (by decide) _) (.presence rfl)
  have hinner : ComponentAt (.node (.node ⟨.attribute .presence, "x", none⟩ [])) "[x]".toList
      ")[open]".toList :=
    .bracket hattribute
  refine parse_eq_ok_iff.2 ⟨_, rfl, ?_⟩
  refine hopening.reads rfl rfl ?_
  refine hbutton.reads rfl rfl ?_
  refine hinner.reads rfl rfl ?_
  refine .more (tight_cons (by decide) (by decide) _) (.close rfl rfl) ?_
  refine openAttribute_read.reads rfl rfl ?_
  exact .done tight_nil (.done rfl rfl)

/-- With an attribute beside the tag, the escape is opened and the attribute behind it sees the tag. -/
theorem not_admits_openedEscape :
    ¬ ∀ (r : Resolver) (rule : String) (t : Tree), r.config.mode = .locally → parse rule = .ok t →
      ∃ out r', r.run rule = .ok (out, r') ∧ ∀ name, r'.elements.contains name = true →
        r.elements.contains name = true ∨ Admits r.config t name := by
  intro hall
  obtain ⟨out, r', hrun, hadmits⟩ :=
    hall (Resolver.new ⟨"s", .locally⟩) _ _ rfl parse_openedEscape
  obtain ⟨out', r'', hrun', helements⟩ :=
    run_reached (Resolver.new ⟨"s", .locally⟩) rfl parse_openedEscape
  obtain ⟨rfl, rfl⟩ := Prod.mk.inj (Except.ok.inj (hrun.symm.trans hrun'))
  have htold : sightings ⟨"s", .locally⟩ (Place.reachedOwner ⟨"s", .locally⟩)
      (Place.reachesBar ⟨"s", .locally⟩)
      (behindEscape [.leaf .tag "button", .node ⟨.attribute .presence, "x", none⟩ []]) =
        [.attribute "button" .prop "open" ""] := by decide
  have hbutton : r'.elements.contains "button" = true := by
    have hgains := Registry.gains_iff.2 helements
    refine (hgains.elements _).2 (.inr ⟨.attribute "button" .prop "open" "", ?_, rfl⟩)
    exact htold ▸ List.mem_singleton_self _
  rcases hadmits "button" hbutton with hknown | hadmitted
  · exact absurd hknown (by decide)
  · exact absurd hadmitted (by decide)

end Resolver

end ScopedStyles.Scope
