import Mathlib.Order.ConditionallyCompleteLattice.Basic
import Mathlib.Order.Lattice
import ScopedStyles.Scope.Registry

namespace ScopedStyles

namespace OrderedMap

variable {β : Type}

/-- The value of two maps under a key, from the values each of them has there. -/
def both [Max β] : Option β → Option β → Option β
  | some u, some v => some (u ⊔ v)
  | some u, none => some u
  | none, v => v

def joinEntries [Max β] (m : OrderedMap β) (es : List (String × β)) : OrderedMap β :=
  es.foldl (fun m e => m.alter e.1 fun v => (v.map (· ⊔ e.2)).getD e.2) m

instance [Max β] : Max (OrderedMap β) :=
  ⟨fun m n => m.joinEntries n.entries⟩

theorem get?_joinEntries [Max β] (m : OrderedMap β) (k : String) {es : List (String × β)}
    (h : es.Pairwise (fun a b => a.1 < b.1)) :
    (m.joinEntries es).get? k = both (m.get? k) (lookup k es) := by
  induction es generalizing m with
  | nil =>
    change m.get? k = both (m.get? k) none
    cases m.get? k <;> rfl
  | cons e rest ih =>
    obtain ⟨hhead, hrest⟩ := List.pairwise_cons.1 h
    change ((m.alter e.1 fun v => (v.map (· ⊔ e.2)).getD e.2).joinEntries rest).get? k = _
    rw [ih _ hrest, get?_alter]
    by_cases hk : k = e.1
    · rw [if_pos hk, hk, lookup_eq_none_of_lt hhead, lookup, if_pos rfl]
      cases m.get? e.1 <;> rfl
    · rw [if_neg hk, lookup, if_neg hk]

theorem get?_sup [Max β] (m n : OrderedMap β) (k : String) :
    (m ⊔ n).get? k = both (m.get? k) (n.get? k) :=
  get?_joinEntries m k n.sorted

instance [SemilatticeSup β] : SemilatticeSup (OrderedMap β) :=
  SemilatticeSup.mk'
    (fun m n => ext_get? fun k => by
      rw [get?_sup, get?_sup]
      cases m.get? k <;> cases n.get? k <;> simp [both, sup_comm])
    (fun l m n => ext_get? fun k => by
      simp only [get?_sup]
      cases l.get? k <;> cases m.get? k <;> cases n.get? k <;> simp [both, sup_assoc])
    (fun m => ext_get? fun k => by
      rw [get?_sup]
      cases m.get? k <;> simp [both])

@[simp]
theorem sup_empty [SemilatticeSup β] (m : OrderedMap β) : m ⊔ ∅ = m := by
  apply ext_get?
  intro k
  rw [get?_sup, get?_empty]
  cases m.get? k <;> rfl

@[simp]
theorem empty_sup [SemilatticeSup β] (m : OrderedMap β) : ∅ ⊔ m = m := by
  rw [sup_comm, sup_empty]

theorem alter_eq_sup [SemilatticeSup β] (m : OrderedMap β) (k : String) {f : Option β → β}
    (hf : ∀ v, f (some v) = v ⊔ f none) : m.alter k f = m ⊔ (∅ : OrderedMap β).alter k f := by
  apply ext_get?
  intro k'
  rw [get?_sup, get?_alter, get?_alter, get?_empty, get?_empty]
  by_cases hk : k' = k
  · rw [if_pos hk, if_pos hk, hk]
    cases m.get? k with
    | none => rfl
    | some v => rw [hf]; rfl
  · rw [if_neg hk, if_neg hk]
    cases m.get? k' <;> rfl

theorem contains_sup [Max β] (m n : OrderedMap β) (k : String) :
    (m ⊔ n).contains k = (m.contains k || n.contains k) := by
  unfold contains
  rw [get?_sup]
  cases m.get? k <;> cases n.get? k <;> rfl

end OrderedMap

namespace Scope

namespace Element

@[ext]
theorem ext_attributes {e e' : Element} (hm : e.mods = e'.mods) (hp : e.props = e'.props) :
    e = e' := by
  cases e
  cases e'
  cases hm
  cases hp
  rfl

instance : Max Element :=
  ⟨fun e e' => ⟨e.mods ⊔ e'.mods, e.props ⊔ e'.props⟩⟩

instance : SemilatticeSup Element :=
  SemilatticeSup.mk'
    (fun e e' => Element.ext_attributes (sup_comm e.mods e'.mods) (sup_comm e.props e'.props))
    (fun e e' e'' => Element.ext_attributes (sup_assoc e.mods e'.mods e''.mods)
      (sup_assoc e.props e'.props e''.props))
    (fun e => Element.ext_attributes (sup_idem e.mods) (sup_idem e.props))

@[simp]
theorem sup_empty (e : Element) : e ⊔ empty = e :=
  Element.ext_attributes (OrderedMap.sup_empty e.mods) (OrderedMap.sup_empty e.props)

@[simp]
theorem empty_sup (e : Element) : empty ⊔ e = e := by
  rw [sup_comm, sup_empty]

def attributes (e : Element) : AttributeKind → Attributes
  | .mod => e.mods
  | .prop => e.props

theorem attributes_sup (e e' : Element) (kind : AttributeKind) :
    (e ⊔ e').attributes kind = e.attributes kind ⊔ e'.attributes kind := by
  cases kind <;> rfl

theorem record_eq_sup (e : Element) (kind : AttributeKind) (name value : String) :
    e.record kind name value = e ⊔ empty.record kind name value := by
  have hvalues (s : TextSet) : s.insert value = s ⊔ (∅ : TextSet).insert value :=
    OrderedMap.alter_eq_sup s value fun _ => rfl
  have hadd (as : Attributes) :
      as.alter name (fun values => (values.getD ∅).insert value) =
        as ⊔ (∅ : Attributes).alter name fun values => (values.getD ∅).insert value :=
    OrderedMap.alter_eq_sup as name fun s => hvalues s
  cases kind with
  | mod => exact Element.ext_attributes (hadd e.mods) (OrderedMap.sup_empty e.props).symm
  | prop => exact Element.ext_attributes (OrderedMap.sup_empty e.mods).symm (hadd e.props)

end Element

namespace Registry

theorem record_eq_sup (r : Registry) (s : Sighting) :
    r.record s = r ⊔ (∅ : Registry).record s := by
  match s with
  | .element name => exact OrderedMap.alter_eq_sup r name fun e => (Element.sup_empty e).symm
  | .attribute owner kind name value =>
    exact OrderedMap.alter_eq_sup r owner fun e => Element.record_eq_sup e kind name value

theorem record_sup (r r' : Registry) (s : Sighting) :
    (r ⊔ r').record s = r ⊔ r'.record s := by
  rw [record_eq_sup, record_eq_sup r', sup_assoc]

/-- Whether a registry holds what a sighting tells. -/
def Knows (r : Registry) : Sighting → Prop
  | .element name => r.contains name
  | .attribute owner kind name value =>
    ∃ e values, r.get? owner = some e ∧ (e.attributes kind).get? name = some values ∧
      values.contains value

theorem Knows.sup_left {r : Registry} {s : Sighting} (h : r.Knows s) (r' : Registry) :
    (r ⊔ r').Knows s := by
  match s with
  | .element name =>
    change (r ⊔ r').contains name
    rw [OrderedMap.contains_sup, show r.contains name = true from h, Bool.true_or]
  | .attribute owner kind name value =>
    obtain ⟨e, values, he, hvalues, hvalue⟩ := h
    cases he' : r'.get? owner with
    | none =>
      refine ⟨e, values, ?_, hvalues, hvalue⟩
      rw [OrderedMap.get?_sup, he, he']
      rfl
    | some e' =>
      have howner : (r ⊔ r').get? owner = some (e ⊔ e') := by
        rw [OrderedMap.get?_sup, he, he']
        rfl
      have hname := OrderedMap.get?_sup (e.attributes kind) (e'.attributes kind) name
      rw [hvalues, ← Element.attributes_sup] at hname
      cases hvalues' : (e'.attributes kind).get? name with
      | none =>
        rw [hvalues'] at hname
        exact ⟨_, _, howner, hname, hvalue⟩
      | some values' =>
        rw [hvalues'] at hname
        refine ⟨_, _, howner, hname, ?_⟩
        rw [OrderedMap.contains_sup, hvalue, Bool.true_or]

/-- What is joined to a registry step by step lies below a bound when each part does. -/
theorem foldl_sup_le {α : Type} {f : α → Registry} {xs : List α} {r bound : Registry} :
    xs.foldl (fun r x => r ⊔ f x) r ≤ bound ↔ r ≤ bound ∧ ∀ x ∈ xs, f x ≤ bound := by
  induction xs generalizing r with
  | nil => simp
  | cons x xs ih =>
    simp only [List.foldl_cons, ih, sup_le_iff, List.forall_mem_cons, and_assoc]

/-- Order and repetition of the parts do not matter. -/
theorem foldl_sup_congr {α : Type} {f : α → Registry} {xs ys : List α} {r : Registry}
    (h : ∀ x, x ∈ xs ↔ x ∈ ys) :
    xs.foldl (fun r x => r ⊔ f x) r = ys.foldl (fun r x => r ⊔ f x) r := by
  have hbelow {xs ys : List α} (h : ∀ x ∈ xs, x ∈ ys) :
      xs.foldl (fun r x => r ⊔ f x) r ≤ ys.foldl (fun r x => r ⊔ f x) r := by
    obtain ⟨hr, hys⟩ := foldl_sup_le.1 (le_refl (ys.foldl (fun r x => r ⊔ f x) r))
    exact foldl_sup_le.2 ⟨hr, fun x hx => hys x (h x hx)⟩
  exact le_antisymm (hbelow fun x => (h x).1) (hbelow fun x => (h x).2)

end Registry

end Scope

end ScopedStyles
