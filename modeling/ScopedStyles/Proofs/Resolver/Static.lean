import ScopedStyles.Proofs.Forest.Layers
import ScopedStyles.Scope.Resolver

namespace ScopedStyles.Scope

open Selector

def decides (c : Config) (holder : Option Label) (ns : Option Namespace) : Bool :=
  let name := (holder.filter Label.isPseudo).map Label.value
  match c.mode with
  | .locally =>
    name.all (fun n => n != ":global" && n != ":dir" && !":nth-".toList.isPrefixOf n.toList) &&
      ns.all (· == .named c.scope)
  | .globally => name == some ":local"

def isScopable (l : Label) : Bool :=
  l.isAttribute || l.isTag

def withoutOpening : List Char → List Char
  | '"' :: cs => cs
  | '\'' :: cs => cs
  | cs => cs

def withoutClosing : List Char → List Char
  | [] => []
  | ['"'] => []
  | ['\''] => []
  | c :: cs => c :: withoutClosing cs

/-- What an attribute is compared with, less its quotes. It is empty if there is no comparison. -/
def unquotedValue (l : Label) : String :=
  match l.kind with
  | .attribute ⟨_, some value, _⟩ => String.ofList (withoutClosing (withoutOpening value.toList))
  | _ => ""

def classFor (c : Config) (l : Label) : String :=
  let name := if l.ns.isSome then c.scope ++ "--" ++ l.value else l.value
  let value := unquotedValue l
  if l.isTag then "__" ++ name
  else if value = "" then "_" ++ name
  else "_" ++ name ++ "." ++ "_" ++ name ++ "_" ++ value

mutual

/-- What a node becomes that stands in `parent`, which in turn stands in `holder`. -/
def scopeNode (c : Config) (holder parent : Option Label) : Tree → List Tree
  | .node l ts =>
    if isScopable l && decides c holder l.ns then [.leaf .className (classFor c l)]
    else
      let inner := scopeNodes c parent (some l) ts
      if isEscape c l && ts.length == 1 then inner.flatMap Tree.children else [.node l inner]

def scopeNodes (c : Config) (holder parent : Option Label) : List Tree → List Tree
  | [] => []
  | t :: ts => scopeNode c holder parent t ++ scopeNodes c holder parent ts

end

/-- The static form of scoping: each decision is taken on the parsed tree alone. -/
def scopeTree (c : Config) : Tree → Tree
  | .node l ts => .node l (scopeNodes c none (some l) ts)

/-- A bare bar, which would be absorbed by the tag behind it. -/
def IsBar (l : Label) : Prop :=
  l.kind = .combinator ∧ l.value = "|"

theorem withoutOpening_eq (cs : List Char) :
    withoutOpening cs = if cs.head?.any isQuote then cs.tail else cs := by
  unfold withoutOpening
  split
  · rfl
  · rfl
  · next hdouble hsingle =>
    cases cs with
    | nil => rfl
    | cons c cs =>
      have hquote : isQuote c = false := by
        rw [isQuote, Bool.or_eq_false_iff, beq_eq_false_iff_ne, beq_eq_false_iff_ne]
        exact ⟨fun hc => hdouble cs (hc ▸ rfl), fun hc => hsingle cs (hc ▸ rfl)⟩
      rw [List.head?_cons, Option.any_some, hquote, if_neg Bool.false_ne_true]

theorem withoutClosing_eq (cs : List Char) :
    withoutClosing cs = if cs.getLast?.any isQuote then cs.dropLast else cs := by
  fun_induction withoutClosing cs with
  | case1 => rfl
  | case2 => rfl
  | case3 => rfl
  | case4 c cs hdouble hsingle ih =>
    cases cs with
    | nil =>
      have hquote : isQuote c = false := by
        rw [isQuote, Bool.or_eq_false_iff, beq_eq_false_iff_ne, beq_eq_false_iff_ne]
        exact ⟨fun hc => hdouble hc rfl, fun hc => hsingle hc rfl⟩
      rw [withoutClosing, List.getLast?_singleton, Option.any_some, hquote,
        if_neg Bool.false_ne_true]
    | cons d cs =>
      rw [ih, List.getLast?_cons_cons, List.dropLast_cons_cons]
      split <;> rfl

theorem stripQuotes_rawValue (l : Label) : stripQuotes (rawValue l) = unquotedValue l := by
  unfold rawValue unquotedValue
  split
  · next m hkind =>
    rw [hkind]
    obtain ⟨operator, value, flag⟩ := m
    cases value with
    | none => rfl
    | some value =>
      dsimp only
      rw [Option.getD_some, stripQuotes, withoutClosing_eq, withoutOpening_eq]
  · next hkind =>
    split
    · next m => exact (hkind _ m).elim
    · rfl

theorem isScopable_leaf {l : Label} (h : isScopable l = true) : l.IsLeaf := by
  unfold isScopable Label.isAttribute Label.isTag at h
  refine ⟨?_, ?_, ?_⟩
  · intro hkind
    rw [hkind] at h
    cases h
  · intro hkind
    rw [hkind] at h
    cases h
  · unfold Label.isPseudo
    split
    · next hkind =>
      rw [hkind] at h
      cases h
    · rfl

theorem isPseudo_of_isEscape {c : Config} {l : Label} (h : isEscape c l = true) :
    l.isPseudo = true := by
  unfold isEscape at h
  exact (Bool.and_eq_true_iff.1 h).1

theorem not_isScopable_of_isPseudo {l : Label} (h : l.isPseudo = true) : isScopable l = false := by
  cases hs : isScopable l with
  | false => rfl
  | true =>
    rw [(isScopable_leaf hs).notPseudo] at h
    cases h

theorem isScopable_of_isAttribute {l : Label} (h : l.isAttribute = true) : isScopable l = true := by
  unfold isScopable
  rw [h]
  rfl

theorem isScopable_of_isTag {l : Label} (h : l.isTag = true) : isScopable l = true := by
  unfold isScopable
  rw [h, Bool.or_true]

theorem ne_class_of_isScopable {l : Label} (h : isScopable l = true) : l.kind ≠ .className := by
  intro hkind
  unfold isScopable Label.isAttribute Label.isTag at h
  rw [hkind] at h
  cases h

theorem ne_class_of_isPseudo {l : Label} (h : l.isPseudo = true) : l.kind ≠ .className := by
  intro hkind
  unfold Label.isPseudo at h
  rw [hkind] at h
  cases h

end ScopedStyles.Scope
