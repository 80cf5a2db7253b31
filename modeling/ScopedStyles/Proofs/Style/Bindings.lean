import ScopedStyles.Proofs.Style.Lookup

namespace ScopedStyles

namespace OrderedMap

variable {β : Type} {m : OrderedMap β} {k : String} {v : β}

theorem mem_of_lookup {es : List (String × β)} (h : lookup k es = some v) : (k, v) ∈ es := by
  induction es with
  | nil => cases h
  | cons e es ih =>
    rw [lookup] at h
    split at h
    · next hkey =>
      cases h
      rw [hkey]
      exact List.mem_cons_self
    · exact List.mem_cons_of_mem _ (ih h)

theorem lookup_of_mem {es : List (String × β)} (hsorted : es.Pairwise (fun a b => a.1 < b.1))
    (h : (k, v) ∈ es) : lookup k es = some v := by
  induction es with
  | nil => cases h
  | cons e es ih =>
    obtain ⟨hhead, hrest⟩ := List.pairwise_cons.1 hsorted
    rcases List.mem_cons.1 h with rfl | hmem
    · exact if_pos rfl
    · have hne : k ≠ e.1 := fun heq => String.lt_irrefl k (heq ▸ hhead (k, v) hmem : k < k)
      rw [lookup, if_neg hne]
      exact ih hrest hmem

theorem get?_eq_some_iff_mem : m.get? k = some v ↔ (k, v) ∈ m.entries :=
  ⟨mem_of_lookup, lookup_of_mem m.sorted⟩

theorem get?_insertAll (m : OrderedMap β) (k : String) (es : List (String × β)) :
    (∃ v, (k, v) ∈ es ∧ (m.insertAll es).get? k = some v) ∨
      (∀ v, (k, v) ∉ es) ∧ (m.insertAll es).get? k = m.get? k := by
  induction es generalizing m with
  | nil => exact .inr ⟨fun _ => List.not_mem_nil, rfl⟩
  | cons e es ih =>
    change (∃ v, _ ∧ ((m.insert e.1 e.2).insertAll es).get? k = some v) ∨
      _ ∧ ((m.insert e.1 e.2).insertAll es).get? k = _
    rcases ih (m.insert e.1 e.2) with ⟨v, hmem, hget⟩ | ⟨hnone, hget⟩
    · exact .inl ⟨v, List.mem_cons_of_mem _ hmem, hget⟩
    · rw [get?_insert] at hget
      by_cases hkey : k = e.1
      · rw [if_pos hkey] at hget
        exact .inl ⟨e.2, hkey ▸ List.mem_cons_self, hget⟩
      · rw [if_neg hkey] at hget
        refine .inr ⟨?_, hget⟩
        intro v hmem
        rcases List.mem_cons.1 hmem with rfl | hmem
        · exact hkey rfl
        · exact hnone v hmem

theorem get?_ofList_iff (es : List (String × β)) :
    (∀ k v, (k, v) ∈ es → (ofList es).get? k = some v) ↔
      ∀ k u v, (k, u) ∈ es → (k, v) ∈ es → u = v := by
  constructor
  · intro hkept k u v hu hv
    exact Option.some.inj ((hkept k u hu).symm.trans (hkept k v hv))
  · intro hagree k v hmem
    rcases get?_insertAll ∅ k es with ⟨w, hw, hget⟩ | ⟨hnone, -⟩
    · rw [hagree k v w hmem hw]
      exact hget
    · exact (hnone v hmem).elim

end OrderedMap

namespace Style

variable {c : Compiler} {e : Engine} {hash : String} {fragments : List String}
  {interpolations : List Interpolation} {t : Token}

/-- What an interpolation binds at a position. Mappings bind nothing. -/
def Interpolation.bindings (hash : String) (position : Nat) : Interpolation → List (String × String)
  | empty => []
  | mixin token => token.vars.entries
  | declarations _ => []
  | value text => [(variableName hash position, text)]

def bindings (hash : String) : Nat → List Interpolation → List (String × String)
  | _, [] => []
  | position, i :: rest => i.bindings hash position ++ bindings hash (position + 1) rest

theorem mem_bindings {b : String × String} {position : Nat} :
    b ∈ bindings hash position interpolations ↔
      ∃ (n : Nat) (i : Interpolation), interpolations[n]? = some i ∧ b ∈ i.bindings hash (position + n) := by
  induction interpolations generalizing position with
  | nil => simp [bindings]
  | cons i rest ih =>
    rw [bindings, List.mem_append, ih]
    constructor
    · rintro (hmem | ⟨n, j, hj, hmem⟩)
      · exact ⟨0, i, rfl, hmem⟩
      · refine ⟨n + 1, j, hj, ?_⟩
        rwa [Nat.add_comm n 1, ← Nat.add_assoc]
    · rintro ⟨n, j, hj, hmem⟩
      cases n with
      | zero =>
        cases hj
        exact .inl hmem
      | succ n =>
        refine .inr ⟨n, j, hj, ?_⟩
        rwa [Nat.add_assoc, Nat.add_comm 1 n]

theorem obtain_vars {key source : String} {vars : Variables}
    (h : (obtain c e key source vars).1 = .ok t) : t.vars = vars := by
  have hlookup := obtain_lookup c e key source vars
  generalize obtain c e key source vars = r at h hlookup
  cases hlookup with
  | hit => cases h; rfl
  | failed => cases h
  | compiled => cases h; rfl

theorem declare_vars {d : Declarations} (h : (declare c e d).1 = .ok t) : t.vars = ∅ :=
  obtain_vars h

theorem gather_vars {position : Nat} {parts parts' : Parts}
    (h : (gather c hash e position parts interpolations).1 = .ok parts') :
    parts'.vars = parts.vars.insertAll (bindings hash position interpolations) := by
  induction interpolations generalizing e position parts with
  | nil =>
    cases h
    rfl
  | cons i rest ih =>
    rw [bindings, OrderedMap.insertAll, List.foldl_append]
    cases i with
    | empty =>
      rw [gather] at h
      have hrest := ih h
      exact hrest
    | mixin token =>
      rw [gather] at h
      exact ih h
    | value text =>
      rw [gather] at h
      exact ih h
    | declarations d =>
      rw [gather] at h
      cases hdeclare : declare c e d with
      | mk result e' =>
        rw [hdeclare] at h
        cases result with
        | error error => cases h
        | ok token =>
          have hrest := ih h
          rw [Parts.addMixin, declare_vars (congrArg Prod.fst hdeclare)] at hrest
          exact hrest

theorem css_vars (h : (css c e fragments interpolations).1 = .ok t) :
    t.vars = .ofList (bindings (templateHash fragments) 1 interpolations) := by
  simp only [css] at h
  split at h
  · cases h
  · cases hgather : gather c (templateHash fragments) e 1 .empty interpolations with
    | mk result e' =>
      rw [hgather] at h
      cases result with
      | error error => cases h
      | ok parts =>
        rw [obtain_vars h]
        exact gather_vars (congrArg Prod.fst hgather)

theorem variableName_injective (hash : String) : Function.Injective (variableName hash) := by
  intro i j h
  have hdigits : Nat.toDigits 10 i = Nat.toDigits 10 j :=
    String.ofList_injective ((String.append_right_inj _).1 h)
  calc i = Nat.ofDigitChars 10 (Nat.toDigits 10 i) 0 :=
        (Nat.ofDigitChars_toDigits (by decide) (by decide)).symm
    _ = Nat.ofDigitChars 10 (Nat.toDigits 10 j) 0 := by rw [hdigits]
    _ = j := Nat.ofDigitChars_toDigits (by decide) (by decide)

/-- The token binds all values of its call, and all that the tokens inlined in it bind. -/
structure BindsAll (c : Compiler) (fragments : List String) (interpolations : List Interpolation)
    (t : Token) : Prop where
  values : ∀ n text, interpolations[n]? = some (.value text) →
    t.vars.get? (variableName (templateHash fragments) (n + 1)) = some text
  mixins : ∀ m, .mixin m ∈ interpolations → ∀ name v, m.vars.get? name = some v →
    t.vars.get? name = some v
  declarations : ∀ d, .declarations d ∈ interpolations → ∀ e m, (declare c e d).1 = .ok m →
    ∀ name v, m.vars.get? name = some v → t.vars.get? name = some v

/-- A name that is bound more than once is bound to one value. -/
structure Agreeing (hash : String) (interpolations : List Interpolation) : Prop where
  mixins : ∀ a b, .mixin a ∈ interpolations → .mixin b ∈ interpolations → ∀ name u v,
    a.vars.get? name = some u → b.vars.get? name = some v → u = v
  values : ∀ n text, interpolations[n]? = some (.value text) → ∀ m, .mixin m ∈ interpolations →
    ∀ v, m.vars.get? (variableName hash (n + 1)) = some v → v = text

theorem value_mem_bindings {n : Nat} {text : String} (h : interpolations[n]? = some (.value text)) :
    (variableName hash (n + 1), text) ∈ bindings hash 1 interpolations := by
  refine mem_bindings.2 ⟨n, .value text, h, ?_⟩
  rw [Nat.add_comm]
  exact List.mem_cons_self

theorem mixin_mem_bindings {m : Token} (h : .mixin m ∈ interpolations) {name v : String}
    (hget : m.vars.get? name = some v) : (name, v) ∈ bindings hash 1 interpolations := by
  obtain ⟨n, hn⟩ := List.mem_iff_getElem?.1 h
  exact mem_bindings.2 ⟨n, .mixin m, hn, OrderedMap.get?_eq_some_iff_mem.1 hget⟩

theorem bindings_cases {name v : String} (h : (name, v) ∈ bindings hash 1 interpolations) :
    (∃ n, interpolations[n]? = some (.value v) ∧ name = variableName hash (n + 1)) ∨
      ∃ m, .mixin m ∈ interpolations ∧ m.vars.get? name = some v := by
  obtain ⟨n, i, hn, hmem⟩ := mem_bindings.1 h
  cases i with
  | empty => cases hmem
  | declarations d => cases hmem
  | mixin m =>
    exact .inr ⟨m, List.mem_of_getElem? hn, OrderedMap.get?_eq_some_iff_mem.2 hmem⟩
  | value text =>
    obtain ⟨rfl, rfl⟩ := Prod.mk.inj (List.mem_singleton.1 hmem)
    exact .inl ⟨n, hn, by rw [Nat.add_comm]⟩

theorem agreeing_iff : Agreeing hash interpolations ↔ ∀ name u v,
    (name, u) ∈ bindings hash 1 interpolations → (name, v) ∈ bindings hash 1 interpolations →
      u = v := by
  constructor
  · intro h name u v hu hv
    rcases bindings_cases hu with ⟨i, hi, rfl⟩ | ⟨a, ha, hgeta⟩
    · rcases bindings_cases hv with ⟨j, hj, hname⟩ | ⟨b, hb, hgetb⟩
      · -- values at two positions have two names
        have hij : i = j := Nat.succ.inj (variableName_injective hash hname)
        rw [hij] at hi
        cases hi.symm.trans hj
        rfl
      · exact (h.values i u hi b hb v hgetb).symm
    · rcases bindings_cases hv with ⟨j, hj, rfl⟩ | ⟨b, hb, hgetb⟩
      · exact h.values j v hj a ha u hgeta
      · exact h.mixins a b ha hb name u v hgeta hgetb
  · intro h
    constructor
    · intro a b ha hb name u v hgeta hgetb
      exact h name u v (mixin_mem_bindings ha hgeta) (mixin_mem_bindings hb hgetb)
    · intro n text hn m hm v hget
      exact h _ v text (mixin_mem_bindings hm hget) (value_mem_bindings hn)

theorem bindsAll_iff_bindings : BindsAll c fragments interpolations t ↔ ∀ name v,
    (name, v) ∈ bindings (templateHash fragments) 1 interpolations → t.vars.get? name = some v := by
  constructor
  · intro h name v hmem
    rcases bindings_cases hmem with ⟨n, hn, rfl⟩ | ⟨m, hm, hget⟩
    · exact h.values n v hn
    · exact h.mixins m hm name v hget
  · intro h
    constructor
    · intro n text hn
      exact h _ text (value_mem_bindings hn)
    · intro m hm name v hget
      exact h name v (mixin_mem_bindings hm hget)
    · intro d _ e m hm name v hget
      rw [declare_vars hm, OrderedMap.get?_empty] at hget
      cases hget

/-- No binding of a call is lost, exactly if its mixins bind no name to two values and none of them binds
the name of a value to another one. -/
theorem bindsAll_iff (c : Compiler) (e : Engine) (fragments : List String)
    (interpolations : List Interpolation) {t : Token}
    (h : (css c e fragments interpolations).1 = .ok t) :
    BindsAll c fragments interpolations t ↔ Agreeing (templateHash fragments) interpolations := by
  rw [bindsAll_iff_bindings, agreeing_iff, css_vars h]
  exact OrderedMap.get?_ofList_iff _

def colored (color : String) : Request :=
  .css ["color: ", ";"] [.value color]

def coloredCss : String :=
  "& \x7bcolor: var(--ajp8ft_1);\x7d"

def coloredToken (color : String) : Token :=
  ⟨0, ⟨"svgm1g", coloredCss, ∅⟩, .ofList [("--ajp8ft_1", color)]⟩

def pairToken (entry : Nat) (color : String) : Token :=
  ⟨entry, ⟨"hxyn38", ".x \x7b" ++ coloredCss ++ "\x7d .y \x7b" ++ coloredCss ++ "\x7d", ∅⟩,
    .ofList [("--ajp8ft_1", color)]⟩

theorem bindsAll_pairToken :
    (css .echo .new [".x \x7b", "\x7d .y \x7b", "\x7d"]
        [.mixin (coloredToken "red"), .mixin (coloredToken "red")]).1 = .ok (pairToken 0 "red") ∧
      BindsAll .echo [".x \x7b", "\x7d .y \x7b", "\x7d"]
        [.mixin (coloredToken "red"), .mixin (coloredToken "red")] (pairToken 0 "red") := by
  have hok : (css .echo .new [".x \x7b", "\x7d .y \x7b", "\x7d"]
      [.mixin (coloredToken "red"), .mixin (coloredToken "red")]).1 = .ok (pairToken 0 "red") := by
    decide +kernel
  refine ⟨hok, (bindsAll_iff _ _ _ _ hok).2 ⟨?_, ?_⟩⟩
  · intro a b ha hb name u v hu hv
    simp only [List.mem_cons, List.not_mem_nil, or_false, or_self, Interpolation.mixin.injEq] at ha hb
    rw [ha] at hu
    rw [hb, hu] at hv
    exact Option.some.inj hv
  · intro n text hn
    have hmem := List.mem_of_getElem? hn
    simp at hmem

/-- Two styles of one template bind one name, so a template that inlines a red and a blue one loses the
red. -/
theorem not_bindsAll_pairToken :
    ¬ ∀ (c : Compiler) (earlier : List Request) (fragments : List String)
      (interpolations : List Interpolation) (t : Token),
      (∀ m, .mixin m ∈ interpolations → Returned c earlier m) →
        (css c (Engine.after c earlier) fragments interpolations).1 = .ok t →
          BindsAll c fragments interpolations t := by
  intro hall
  have hreturned : ∀ m, .mixin m ∈ [Interpolation.mixin (coloredToken "red"),
      .mixin (coloredToken "blue")] → Returned .echo [colored "red", colored "blue"] m := by
    intro m hm
    simp only [List.mem_cons, List.not_mem_nil, or_false, Interpolation.mixin.injEq] at hm
    rcases hm with rfl | rfl
    · exact ⟨[], colored "red", [colored "blue"], rfl, by decide +kernel⟩
    · exact ⟨[colored "red"], colored "blue", [], rfl, by decide +kernel⟩
  have hbinds := hall .echo [colored "red", colored "blue"] [".x \x7b", "\x7d .y \x7b", "\x7d"] _
    (pairToken 1 "blue") hreturned (by decide +kernel)
  have hred : (pairToken 1 "blue").vars.get? "--ajp8ft_1" = some "red" :=
    hbinds.mixins (coloredToken "red") List.mem_cons_self _ _ rfl
  exact absurd hred (by decide)

end Style

end ScopedStyles
