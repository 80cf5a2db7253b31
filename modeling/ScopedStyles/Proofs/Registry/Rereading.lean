import ScopedStyles.Proofs.Registry.Documents

namespace ScopedStyles

namespace OrderedMap

variable {α β : Type}

theorem get?_insertAll_of_sorted (m : OrderedMap β) (k : String) {es : List (String × β)}
    (h : es.Pairwise (fun a b => a.1 < b.1)) :
    (m.insertAll es).get? k = (lookup k es).or (m.get? k) := by
  induction es generalizing m with
  | nil => rfl
  | cons e es ih =>
    obtain ⟨hhead, hrest⟩ := List.pairwise_cons.1 h
    change ((m.insert e.1 e.2).insertAll es).get? k = _
    rw [ih _ hrest, get?_insert]
    by_cases hk : k = e.1
    · rw [if_pos hk, hk, lookup_eq_none_of_lt hhead, lookup, if_pos rfl]
      rfl
    · rw [if_neg hk, lookup, if_neg hk]

theorem ofList_entries (m : OrderedMap β) : ofList m.entries = m := by
  apply ext_get?
  intro k
  rw [ofList, get?_insertAll_of_sorted _ k m.sorted, get?_empty, Option.or_none]
  rfl

theorem lookup_append (k : String) (es fs : List (String × β)) :
    lookup k (es ++ fs) = (lookup k es).or (lookup k fs) := by
  induction es with
  | nil => rfl
  | cons e es ih =>
    rw [List.cons_append, lookup, lookup, ih]
    split
    · rfl
    · rfl

theorem lookup_map (k : String) (f : α → β) (es : List (String × α)) :
    lookup k (es.map fun e => (e.1, f e.2)) = (lookup k es).map f := by
  induction es with
  | nil => rfl
  | cons e es ih =>
    rw [List.map_cons, lookup, lookup, ih]
    split
    · rfl
    · rfl

theorem get?_insertAll_eq_lookup (m : OrderedMap β) (k : String) (es : List (String × β)) :
    (m.insertAll es).get? k = (lookup k es.reverse).or (m.get? k) := by
  induction es generalizing m with
  | nil => rfl
  | cons e es ih =>
    change ((m.insert e.1 e.2).insertAll es).get? k = _
    rw [ih, get?_insert, List.reverse_cons, lookup_append, Option.or_assoc, lookup]
    split
    · rfl
    · rfl

theorem get?_ofList_map (k : String) (f : α → β) (es : List (String × α)) :
    (ofList (es.map fun e => (e.1, f e.2))).get? k = (lookup k es.reverse).map f := by
  rw [ofList, get?_insertAll_eq_lookup, get?_empty, Option.or_none, ← List.map_reverse, lookup_map]

end OrderedMap

namespace TextSet

theorem contains_foldl_insert (xs : List String) (s : TextSet) (x : String) :
    (xs.foldl insert s).contains x = true ↔ x ∈ xs ∨ s.contains x = true := by
  induction xs generalizing s with
  | nil => exact (or_iff_right List.not_mem_nil).symm
  | cons y ys ih =>
    rw [List.foldl_cons, ih, contains_insert, List.mem_cons, Bool.or_eq_true, beq_iff_eq,
      or_left_comm, or_assoc]

theorem contains_ofList (xs : List String) (x : String) :
    (ofList xs).contains x = true ↔ x ∈ xs :=
  (contains_foldl_insert xs ∅ x).trans (or_iff_left Bool.false_ne_true)

theorem ofList_toList (s : TextSet) : ofList s.toList = s :=
  (List.foldl_map.trans rfl).trans s.ofList_entries

end TextSet

namespace Scope

def Attributes.rows (m : Attributes) : Rows :=
  m.entries.map fun e => (e.1, e.2.toList)

theorem Attributes.attributes_rows (m : Attributes) : m.rows.attributes = m := by
  have hentries : (m.rows.map fun e => (e.1, TextSet.ofList e.2)) = m.entries := by
    simp only [rows, List.map_map, Function.comp_def, TextSet.ofList_toList, List.map_id']
  rw [Rows.attributes, hentries, OrderedMap.ofList_entries]

namespace Registry

/-- Each element once, its mods first. -/
def document (r : Registry) : Document :=
  r.entries.map fun e => (e.1, ⟨.modsFirst, e.2.mods.rows, e.2.props.rows⟩)

theorem registry_document (r : Registry) : r.document.registry = r := by
  have hentries : (r.document.map fun e => (e.1, e.2.element)) = r.entries := by
    simp only [document, List.map_map, Function.comp_def, ElementRow.element,
      Attributes.attributes_rows, List.map_id']
  rw [Document.registry, hentries, OrderedMap.ofList_entries]

theorem text_document (r : Registry) : r.document.text = r.render := by
  have hattributes : ∀ depth (m : Attributes), m.rows.chars depth = attributesChars depth m := by
    intro depth m
    simp only [Rows.chars, Attributes.rows, List.map_map]
    rfl
  simp only [Document.text, document, List.map_map, Function.comp_def, ElementRow.chars,
    hattributes]
  rfl

theorem parse_render (r : Registry) : parse r.render = .ok r := by
  rw [← text_document, Document.parse_text, registry_document]

/-- Whatever texts a registry holds, its file is read as the same registry, so to read a file, print it and
read that again is to read it once. The files need not be printed ones: of the entries of a name the
last one counts, of listed values each one. -/
theorem reread :
    (∀ r : Registry, parse r.render = .ok r) ∧
      (∀ text, (parse text >>= fun r => parse r.render) = parse text) ∧
      (∀ d : Document, parse d.text = .ok d.registry) ∧
      (∀ (d : Document) (name : String), d.registry.get? name =
        (OrderedMap.lookup name d.reverse).map fun e => ⟨e.mods.attributes, e.props.attributes⟩) ∧
      (∀ (rows : Rows) (name : String),
        rows.attributes.get? name = (OrderedMap.lookup name rows.reverse).map TextSet.ofList) ∧
      ∀ (xs : List String) (x : String), (TextSet.ofList xs).contains x = true ↔ x ∈ xs := by
  refine ⟨parse_render, ?_, Document.parse_text, ?_, ?_, TextSet.contains_ofList⟩
  · intro text
    cases parse text with
    | error error => rfl
    | ok r => exact parse_render r
  · exact fun d name => OrderedMap.get?_ofList_map name ElementRow.element d
  · exact fun rows name => OrderedMap.get?_ofList_map name TextSet.ofList rows

end Registry

end Scope

end ScopedStyles
