import ScopedStyles.Proofs.Style.Lookup

namespace ScopedStyles.Style

variable {c : Compiler} {e e' : Engine}

def mappingsOf : List Interpolation → List Declarations
  | [] => []
  | .declarations d :: is => d :: mappingsOf is
  | _ :: is => mappingsOf is

def declareAll (c : Compiler) (e : Engine) : List Declarations → Except Error (List Token) × Engine
  | [] => (.ok [], e)
  | d :: ds =>
    match declare c e d with
    | (.error error, e) => (.error error, e)
    | (.ok token, e) =>
      match declareAll c e ds with
      | (.error error, e) => (.error error, e)
      | (.ok tokens, e) => (.ok (token :: tokens), e)

def inlineAll : List Interpolation → List Token → List Interpolation
  | .declarations _ :: is, t :: ts => .mixin t :: inlineAll is ts
  | i :: is, ts => i :: inlineAll is ts
  | [], _ => []

/-- Compiles the mappings of a call in advance, and then makes the call with their tokens. -/
def cssDeclaredFirst (c : Compiler) (e : Engine) (fragments : List String) (is : List Interpolation) :
    Except Error Token × Engine :=
  match declareAll c e (mappingsOf is) with
  | (.error error, e) => (.error error, e)
  | (.ok tokens, e) => css c e fragments (inlineAll is tokens)

/-- What the interpolations from a position on come to with one token for each mapping. -/
def addAll (hash : String) : Nat → Parts → List Interpolation → List Token → Parts
  | _, parts, [], _ => parts
  | position, parts, .empty :: is, ts => addAll hash (position + 1) (parts.addCss "") is ts
  | position, parts, .value text :: is, ts =>
    addAll hash (position + 1) (parts.addValue (variableName hash position) text) is ts
  | position, parts, .mixin t :: is, ts => addAll hash (position + 1) (parts.addMixin t) is ts
  | position, parts, .declarations _ :: is, t :: ts =>
    addAll hash (position + 1) (parts.addMixin t) is ts
  | _, parts, .declarations _ :: _, [] => parts

section DeclareAll

variable {d : Declarations} {ds : List Declarations} {ts : List Token} {error : Error}

theorem declareAll_cons_ok (h : declareAll c e (d :: ds) = (.ok ts, e')) :
    ∃ t e₁ rest, declare c e d = (.ok t, e₁) ∧ declareAll c e₁ ds = (.ok rest, e') ∧
      ts = t :: rest := by
  rw [declareAll] at h
  cases hfirst : declare c e d with
  | mk result e₁ =>
    rw [hfirst] at h
    cases result with
    | error error => cases h
    | ok t =>
      dsimp only at h
      cases hrest : declareAll c e₁ ds with
      | mk results e₂ =>
        rw [hrest] at h
        cases results with
        | error error => cases h
        | ok rest =>
          cases h
          exact ⟨t, e₁, rest, rfl, hrest, rfl⟩

theorem declareAll_cons_error (h : declareAll c e (d :: ds) = (.error error, e')) :
    declare c e d = (.error error, e') ∨
      ∃ t e₁, declare c e d = (.ok t, e₁) ∧ declareAll c e₁ ds = (.error error, e') := by
  rw [declareAll] at h
  cases hfirst : declare c e d with
  | mk result e₁ =>
    rw [hfirst] at h
    cases result with
    | error error =>
      cases h
      exact .inl rfl
    | ok t =>
      dsimp only at h
      cases hrest : declareAll c e₁ ds with
      | mk results e₂ =>
        rw [hrest] at h
        cases results with
        | error error =>
          cases h
          exact .inr ⟨t, e₁, rfl, hrest⟩
        | ok rest => cases h

theorem declareAll_length (h : declareAll c e ds = (.ok ts, e')) : ts.length = ds.length := by
  induction ds generalizing e ts with
  | nil =>
    cases h
    rfl
  | cons d ds ih =>
    obtain ⟨t, e₁, rest, -, hrest, rfl⟩ := declareAll_cons_ok h
    exact congrArg (· + 1) (ih hrest)

end DeclareAll

theorem gather_eq_addAll (hash : String) (position : Nat) (parts : Parts) (is : List Interpolation) :
    gather c hash e position parts is =
      match declareAll c e (mappingsOf is) with
      | (.error error, e) => (.error error, e)
      | (.ok tokens, e) => (.ok (addAll hash position parts is tokens), e) := by
  induction is generalizing e position parts with
  | nil => rfl
  | cons i is ih =>
    cases i with
    | empty => exact ih _ _
    | value text => exact ih _ _
    | mixin token => exact ih _ _
    | declarations d =>
      -- only here the engine is asked, and nothing that has been added up so far reaches it
      rw [gather, mappingsOf, declareAll]
      cases declare c e d with
      | mk result e₁ =>
        cases result with
        | error error => rfl
        | ok token =>
          dsimp only
          rw [ih]
          cases declareAll c e₁ (mappingsOf is) with
          | mk results e₂ =>
            cases results with
            | error error => rfl
            | ok tokens => rfl

def lookupWith (c : Compiler) (e : Engine) (fragments : List String) (is : List Interpolation)
    (tokens : List Token) : Except Error Token × Engine :=
  let hash := templateHash fragments
  let parts := addAll hash 1 .empty is tokens
  obtain c e (shortHash (hash ++ parts.mixins)) (assemble fragments parts.slots) parts.vars

theorem css_eq_lookup {fragments : List String} {is : List Interpolation}
    (harity : fragments.length = is.length + 1) :
    css c e fragments is =
      match declareAll c e (mappingsOf is) with
      | (.error error, e) => (.error error, e)
      | (.ok tokens, e) => lookupWith c e fragments is tokens := by
  simp only [css, harity, ne_eq, not_true_eq_false, if_false, gather_eq_addAll, lookupWith]
  cases declareAll c e (mappingsOf is) with
  | mk results e₁ =>
    cases results with
    | error error => rfl
    | ok tokens => rfl

section InlineAll

variable {is : List Interpolation} {ts : List Token}

theorem inlineAll_length (is : List Interpolation) (ts : List Token) :
    (inlineAll is ts).length = is.length := by
  induction is generalizing ts with
  | nil => rfl
  | cons i is ih =>
    cases i with
    | empty => exact congrArg (· + 1) (ih ts)
    | value text => exact congrArg (· + 1) (ih ts)
    | mixin token => exact congrArg (· + 1) (ih ts)
    | declarations d =>
      cases ts with
      | nil => exact congrArg (· + 1) (ih [])
      | cons t ts => exact congrArg (· + 1) (ih ts)

theorem mappingsOf_inlineAll (h : ts.length = (mappingsOf is).length) :
    mappingsOf (inlineAll is ts) = [] := by
  induction is generalizing ts with
  | nil => rfl
  | cons i is ih =>
    cases i with
    | empty => exact ih h
    | value text => exact ih h
    | mixin token => exact ih h
    | declarations d =>
      cases ts with
      | nil => cases h
      | cons t ts => exact ih (Nat.succ.inj h)

theorem addAll_inlineAll (hash : String) (position : Nat) (parts : Parts)
    (h : ts.length = (mappingsOf is).length) :
    addAll hash position parts (inlineAll is ts) [] = addAll hash position parts is ts := by
  induction is generalizing position parts ts with
  | nil => rfl
  | cons i is ih =>
    cases i with
    | empty => exact ih _ _ h
    | value text => exact ih _ _ h
    | mixin token => exact ih _ _ h
    | declarations d =>
      cases ts with
      | nil => cases h
      | cons t ts => exact ih _ _ (Nat.succ.inj h)

end InlineAll

/-- A call whose mappings are compiled in advance from left to right and inlined as styles gives the same
token or the same error. It makes the same compile calls and leaves the same cache and sink. -/
theorem css_eq_declared_first (c : Compiler) (e : Engine) {fragments : List String}
    {is : List Interpolation} (harity : fragments.length = is.length + 1) :
    css c e fragments is = cssDeclaredFirst c e fragments is := by
  rw [css_eq_lookup harity, cssDeclaredFirst]
  cases hall : declareAll c e (mappingsOf is) with
  | mk results e₁ =>
    cases results with
    | error error => rfl
    | ok tokens =>
      have hlength := declareAll_length hall
      have harity' : fragments.length = (inlineAll is tokens).length + 1 := by
        rw [inlineAll_length, harity]
      dsimp only
      rw [css_eq_lookup harity', mappingsOf_inlineAll hlength, declareAll]
      simp only [lookupWith, addAll_inlineAll _ _ _ hlength]

def repeated : List Interpolation :=
  [.declarations [("margin", "0")], .declarations [("margin", "0")], .declarations [("color", "red")]]

theorem css_eq_declared_first_failing :
    ["a ", " ", " ", ""].length = repeated.length + 1 ∧
      css (.failingAt .echo 1 "out of memory") .new ["a ", " ", " ", ""] repeated =
        cssDeclaredFirst (.failingAt .echo 1 "out of memory") .new ["a ", " ", " ", ""] repeated ∧
      (css (.failingAt .echo 1 "out of memory") .new ["a ", " ", " ", ""] repeated).1 =
        .error (.compile "out of memory") :=
  ⟨rfl, css_eq_declared_first _ _ rfl, by decide +kernel⟩

end ScopedStyles.Style
