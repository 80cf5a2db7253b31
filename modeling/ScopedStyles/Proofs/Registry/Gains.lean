import ScopedStyles.Proofs.Registry.Join

namespace ScopedStyles

theorem TextSet.ext_contains {s t : TextSet} (h : ∀ x, s.contains x = true ↔ t.contains x = true) :
    s = t := by
  apply OrderedMap.ext_get?
  intro x
  have hx := Bool.eq_iff_iff.2 (h x)
  rw [OrderedMap.contains, OrderedMap.contains] at hx
  cases hs : s.get? x <;> cases ht : t.get? x <;> simp_all

namespace Scope

def Sighting.subject : Sighting → String
  | .element name => name
  | .attribute owner _ _ _ => owner

namespace Registry

variable {r r' r'' : Registry} {told told' : List Sighting} {owner name : String}
  {kind : AttributeKind}

theorem contains_record (r : Registry) (s : Sighting) :
    (r.record s).contains name = (r.contains name || name == s.subject) := by
  have halter : ∀ (k : String) (f : Option Element → Element),
      (r.alter k f).contains name = (r.contains name || name == k) := by
    intro k f
    rw [OrderedMap.contains, OrderedMap.contains, OrderedMap.get?_alter]
    split
    · next heq =>
      rw [heq, beq_self_eq_true, Bool.or_true]
      rfl
    · next hne => rw [beq_false_of_ne hne, Bool.or_false]
  rcases s with k | ⟨owner, _, _, _⟩
  · exact halter k _
  · exact halter owner _

/-- The values that have been seen of an attribute. -/
def values? (r : Registry) (owner : String) (kind : AttributeKind) (name : String) :
    Option TextSet :=
  (r.get? owner).bind fun e => (e.attributes kind).get? name

theorem attributes_empty (kind : AttributeKind) : Element.empty.attributes kind = ∅ := by
  cases kind <;> rfl

theorem values?_element (r : Registry) (k : String) :
    (r.record (.element k)).values? owner kind name = r.values? owner kind name := by
  rw [values?, values?, record, OrderedMap.get?_alter]
  split
  · next howner =>
    rw [howner]
    cases r.get? k with
    | none =>
      rw [Option.getD_none, Option.bind_some, attributes_empty, OrderedMap.get?_empty]
      rfl
    | some e => rfl
  · rfl

theorem attributes_record (e : Element) (kind kind' : AttributeKind) (name name' value : String) :
    ((e.record kind' name' value).attributes kind).get? name =
      if kind = kind' ∧ name = name' then
        some ((((e.attributes kind).get? name).getD ∅).insert value)
      else (e.attributes kind).get? name := by
  cases kind <;> cases kind' <;>
    simp only [Element.record, Element.attributes, OrderedMap.get?_alter, true_and, false_and,
      reduceCtorEq, if_false]
  · split
    · next hname => rw [hname]
    · rfl
  · split
    · next hname => rw [hname]
    · rfl

theorem values?_attribute (r : Registry) (owner' : String) (kind' : AttributeKind)
    (name' value : String) :
    (r.record (.attribute owner' kind' name' value)).values? owner kind name =
      if owner = owner' ∧ kind = kind' ∧ name = name' then
        some (((r.values? owner kind name).getD ∅).insert value)
      else r.values? owner kind name := by
  rw [values?, values?, record, OrderedMap.get?_alter]
  by_cases howner : owner = owner'
  · rw [if_pos howner, howner, Option.bind_some, attributes_record]
    cases r.get? owner' with
    | none =>
      rw [Option.getD_none, attributes_empty, OrderedMap.get?_empty]
      simp
    | some e => simp
  · rw [if_neg howner, if_neg fun h => howner h.1]

/-- Exactly what the sightings tell has been added to a registry: the elements that they are about, and
the attributes with the values that have been seen of them. -/
structure Gains (r : Registry) (told : List Sighting) (r' : Registry) : Prop where
  elements : ∀ name, r'.contains name = true ↔ r.contains name = true ∨ ∃ s ∈ told, s.subject = name
  names : ∀ owner kind name, (r'.values? owner kind name).isSome = true ↔
    (r.values? owner kind name).isSome = true ∨ ∃ value, .attribute owner kind name value ∈ told
  values : ∀ owner kind name value, (r'.values? owner kind name).any (·.contains value) = true ↔
    (r.values? owner kind name).any (·.contains value) = true ∨
      .attribute owner kind name value ∈ told

theorem Gains.append (h : r.Gains told r') (h' : r'.Gains told' r'') : r.Gains (told ++ told') r'' where
  elements name := by
    rw [h'.elements, h.elements, or_assoc]
    simp only [List.mem_append, or_and_right, exists_or]
  names owner kind name := by
    rw [h'.names, h.names, or_assoc]
    simp only [List.mem_append, exists_or]
  values owner kind name value := by
    rw [h'.values, h.values, or_assoc, List.mem_append]

theorem gains_record (r : Registry) (s : Sighting) : r.Gains [s] (r.record s) where
  elements name := by
    simp only [contains_record, Bool.or_eq_true, beq_iff_eq, List.mem_singleton, exists_eq_left,
      eq_comm (a := name)]
  names owner kind name := by
    rcases s with k | ⟨owner', kind', name', value⟩
    · rw [values?_element]
      simp
    · rw [values?_attribute]
      split
      · next h =>
        obtain ⟨rfl, rfl, rfl⟩ := h
        simp
      · next h => simp [h]
  values owner kind name value := by
    rcases s with k | ⟨owner', kind', name', value'⟩
    · rw [values?_element]
      simp
    · rw [values?_attribute]
      split
      · next h =>
        obtain ⟨rfl, rfl, rfl⟩ := h
        have hempty : (∅ : TextSet).contains value = false := rfl
        cases r.values? owner kind name with
        | none => simp [TextSet.contains_insert, hempty]
        | some values => simp [TextSet.contains_insert, or_comm]
      · next h => simp_all

theorem gains_recordAll (r : Registry) (told : List Sighting) : r.Gains told (r.recordAll told) := by
  induction told generalizing r with
  | nil => exact ⟨by simp [recordAll], by simp [recordAll], by simp [recordAll]⟩
  | cons s told ih => exact (gains_record r s).append (ih (r.record s))

/-- What has been added leaves no choice what else the registry holds. -/
theorem Gains.unique (h : r.Gains told r') (h' : r.Gains told r'') : r' = r'' := by
  -- both hold the same names and values, and maps with the same lookups are equal
  have hvalues : ∀ owner kind name, r'.values? owner kind name = r''.values? owner kind name := by
    intro owner kind name
    have hsome := (h.names owner kind name).trans (h'.names owner kind name).symm
    have hany := fun value => (h.values owner kind name value).trans (h'.values owner kind name value).symm
    cases hv : r'.values? owner kind name with
    | none =>
      rw [hv] at hsome
      exact (Option.not_isSome_iff_eq_none.1 fun hs => absurd (hsome.2 hs) Bool.false_ne_true).symm
    | some values =>
      rw [hv] at hsome hany
      obtain ⟨values', hv'⟩ := Option.isSome_iff_exists.1 (hsome.1 rfl)
      rw [hv'] at hany ⊢
      exact congrArg some (TextSet.ext_contains hany)
  apply OrderedMap.ext_get?
  intro owner
  have hcontains := (h.elements owner).trans (h'.elements owner).symm
  have hattributes := hvalues owner
  simp only [values?] at hattributes
  rw [OrderedMap.contains, OrderedMap.contains] at hcontains
  cases he : r'.get? owner with
  | none =>
    rw [he] at hcontains
    exact (Option.not_isSome_iff_eq_none.1 fun hs => absurd (hcontains.2 hs) Bool.false_ne_true).symm
  | some e =>
    rw [he] at hcontains hattributes
    obtain ⟨e', he'⟩ := Option.isSome_iff_exists.1 (hcontains.1 rfl)
    rw [he'] at hattributes ⊢
    have hkind : ∀ kind, e.attributes kind = e'.attributes kind := fun kind =>
      OrderedMap.ext_get? (hattributes kind)
    exact congrArg some (Element.ext_attributes (hkind .mod) (hkind .prop))

theorem gains_iff : r.Gains told r' ↔ r' = r.recordAll told := by
  constructor
  · intro h
    exact h.unique (gains_recordAll r told)
  · rintro rfl
    exact gains_recordAll r told

end Registry

end Scope

end ScopedStyles
