import ScopedStyles.Proofs.Style.Lookup

namespace ScopedStyles

namespace OrderedMap

variable {β : Type}

theorem keys_alterEntries (k : String) (f g : Option β → β) {es fs : List (String × β)}
    (h : es.map (·.1) = fs.map (·.1)) :
    (alterEntries k f es).map (·.1) = (alterEntries k g fs).map (·.1) := by
  induction es generalizing fs with
  | nil =>
    rw [List.map_eq_nil_iff.1 h.symm]
    rfl
  | cons e es ih =>
    cases fs with
    | nil => cases h
    | cons f fs =>
      rw [List.map_cons, List.map_cons] at h
      obtain ⟨hkey, hrest⟩ : e.1 = f.1 ∧ es.map (·.1) = fs.map (·.1) := List.cons.inj h
      rw [alterEntries, alterEntries, hkey]
      split
      · simp [hrest]
      · split
        · simp [hrest]
        · simp [ih hrest]

theorem keys_insert {m n : OrderedMap β} (h : m.keys = n.keys) (k : String) (u v : β) :
    (m.insert k u).keys = (n.insert k v).keys :=
  keys_alterEntries k _ _ h

theorem keys_override {m n : OrderedMap β} (h : m.keys = n.keys) (other : OrderedMap β) :
    (m.override other).keys = (n.override other).keys := by
  rw [override, override, insertAll, insertAll]
  induction other.entries generalizing m n with
  | nil => exact h
  | cons e es ih => exact ih (keys_insert h e.1 e.2 e.2)

end OrderedMap

namespace Style

variable {c : Compiler} {e : Engine}

/-- The interpolations differ at most in the text of a value. -/
inductive Interpolation.Alike : Interpolation → Interpolation → Prop
  | empty : Alike .empty .empty
  | mixin (token : Token) : Alike (.mixin token) (.mixin token)
  | declarations (d : Declarations) : Alike (.declarations d) (.declarations d)
  | value (s t : String) : Alike (.value s) (.value t)

/-- Tokens of one cache entry that bind the same variables. -/
structure Token.Alike (t u : Token) : Prop where
  entry : t.entry = u.entry
  style : t.style = u.style
  names : t.vars.keys = u.vars.keys

structure Parts.Alike (p q : Parts) : Prop where
  mixins : p.mixins = q.mixins
  names : p.vars.keys = q.vars.keys
  slots : p.slots = q.slots

inductive Agree {α : Type} (R : α → α → Prop) : Except Error α → Except Error α → Prop
  | error (error : Error) : Agree R (.error error) (.error error)
  | ok {a b : α} (h : R a b) : Agree R (.ok a) (.ok b)

namespace Parts.Alike

variable {p q : Parts}

theorem addCss (h : p.Alike q) (text : String) : (p.addCss text).Alike (q.addCss text) :=
  ⟨h.mixins, h.names, congrArg (· ++ [Slot.css text]) h.slots⟩

theorem addMixin (h : p.Alike q) (t : Token) : (p.addMixin t).Alike (q.addMixin t) where
  mixins := congrArg (· ++ "_" ++ t.hash) h.mixins
  names := OrderedMap.keys_override h.names t.vars
  slots := congrArg (· ++ [Slot.css t.style.css]) h.slots

theorem addValue (h : p.Alike q) (name s t : String) :
    (p.addValue name s).Alike (q.addValue name t) where
  mixins := h.mixins
  names := OrderedMap.keys_insert h.names name s t
  slots := congrArg (· ++ [Slot.var name]) h.slots

end Parts.Alike

theorem obtain_alike (c : Compiler) (e : Engine) (key source : String) {vars vars' : Variables}
    (h : vars.keys = vars'.keys) :
    (obtain c e key source vars).2 = (obtain c e key source vars').2 ∧
      Agree Token.Alike (obtain c e key source vars).1 (obtain c e key source vars').1 := by
  simp only [obtain]
  cases e.cache.find? key with
  | some found => exact ⟨rfl, .ok ⟨rfl, rfl, h⟩⟩
  | none =>
    cases compile c e key source with
    | mk result e' =>
      cases result with
      | error error => exact ⟨rfl, .error error⟩
      | ok style => exact ⟨rfl, .ok ⟨rfl, rfl, h⟩⟩

theorem gather_alike (hash : String) (position : Nat) {p q : Parts} (hparts : p.Alike q)
    {is js : List Interpolation} (h : List.Forall₂ Interpolation.Alike is js) :
    (gather c hash e position p is).2 = (gather c hash e position q js).2 ∧
      Agree Parts.Alike (gather c hash e position p is).1 (gather c hash e position q js).1 := by
  induction h generalizing e position p q with
  | nil => exact ⟨rfl, .ok hparts⟩
  | cons hhead _ ih =>
    cases hhead with
    | empty => exact ih _ (hparts.addCss "")
    | mixin token => exact ih _ (hparts.addMixin token)
    | value s t => exact ih _ (hparts.addValue _ s t)
    | declarations d =>
      rw [gather, gather]
      cases declare c e d with
      | mk result e' =>
        cases result with
        | error error => exact ⟨rfl, .error error⟩
        | ok token => exact ih _ (hparts.addMixin token)

/-- Calls that differ in the texts of their values alone make the same compile calls and end in the same
cache and sink. They fail with the same error, or their tokens have one style and bind the same
variables. -/
theorem css_alike (c : Compiler) (e : Engine) (fragments : List String) {is js : List Interpolation}
    (h : List.Forall₂ Interpolation.Alike is js) :
    (css c e fragments is).2 = (css c e fragments js).2 ∧
      Agree Token.Alike (css c e fragments is).1 (css c e fragments js).1 := by
  have hlength := h.length_eq
  simp only [css, hlength]
  split
  · exact ⟨rfl, .error _⟩
  · obtain ⟨hengine, hparts⟩ := gather_alike (c := c) (e := e) (templateHash fragments) 1
      (p := .empty) ⟨rfl, rfl, rfl⟩ h
    generalize gather c (templateHash fragments) e 1 .empty is = r at hengine hparts
    generalize gather c (templateHash fragments) e 1 .empty js = r' at hengine hparts
    obtain ⟨result, e₁⟩ := r
    obtain ⟨result', e₂⟩ := r'
    cases hengine
    cases hparts with
    | error error => exact ⟨rfl, .error error⟩
    | @ok p q halike =>
      dsimp only
      rw [halike.mixins, halike.slots]
      exact obtain_alike c e₁ _ _ halike.names

theorem css_alike_colors :
    List.Forall₂ Interpolation.Alike [.declarations [("margin", "0")], .value "red"]
        [.declarations [("margin", "0")], .value "blue"] ∧
      (css .echo .new ["", "color: ", ";"] [.declarations [("margin", "0")], .value "red"]).2 =
        (css .echo .new ["", "color: ", ";"] [.declarations [("margin", "0")], .value "blue"]).2 ∧
      Agree Token.Alike
        (css .echo .new ["", "color: ", ";"] [.declarations [("margin", "0")], .value "red"]).1
        (css .echo .new ["", "color: ", ";"] [.declarations [("margin", "0")], .value "blue"]).1 ∧
      (css .echo .new ["", "color: ", ";"] [.declarations [("margin", "0")], .value "red"]).1 ≠
        (css .echo .new ["", "color: ", ";"] [.declarations [("margin", "0")], .value "blue"]).1 := by
  have halike : List.Forall₂ Interpolation.Alike [.declarations [("margin", "0")], .value "red"]
      [.declarations [("margin", "0")], .value "blue"] :=
    .cons (.declarations _) (.cons (.value "red" "blue") .nil)
  obtain ⟨hengine, hagree⟩ := css_alike .echo .new ["", "color: ", ";"] halike
  exact ⟨halike, hengine, hagree, by decide +kernel⟩

end Style

end ScopedStyles
