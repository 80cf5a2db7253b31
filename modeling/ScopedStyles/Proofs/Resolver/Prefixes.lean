import Mathlib.Algebra.GroupWithZero.Nat
import Mathlib.Data.List.Chain
import ScopedStyles.Proofs.Resolver.Static
import ScopedStyles.Proofs.Selector.Composition

namespace ScopedStyles.Scope

open Selector

instance : DecidablePred IsBar :=
  fun l => inferInstanceAs (Decidable (l.kind = .combinator ∧ l.value = "|"))

theorem not_isTag_of_isBar {l : Label} (h : IsBar l) : l.isTag = false := by
  rw [Label.isTag, h.1]
  rfl

def bare : Tree → Tree
  | .node l ts => .node { l with ns := none } ts

mutual

/-- The tree without the prefixes of the tags that stand directly behind a bare bar. -/
def unprefixed : Tree → Tree
  | .node l ts => .node l (unprefixedAll false ts)

/-- `barred` tells whether a bare bar stands in front. -/
def unprefixedAll (barred : Bool) : List Tree → List Tree
  | [] => []
  | t :: ts =>
    (if barred && t.label.isTag then bare (unprefixed t) else unprefixed t) ::
      unprefixedAll (decide (IsBar t.label)) ts

end

def Spares (t u : Tree) : Prop :=
  IsBar t.label → u.label.isTag = true → u.label.ns = none

inductive KeepsPrefixes : Tree → Prop
  | node {l : Label} {ts : List Tree} (hchain : ts.IsChain Spares)
    (hts : ∀ t ∈ ts, KeepsPrefixes t) : KeepsPrefixes (.node l ts)

variable {b : Bool} {t : Tree} {ts : List Tree}

theorem label_unprefixed (t : Tree) : (unprefixed t).label = t.label := by
  cases t with
  | node l ts =>
    rw [unprefixed]
    rfl

theorem bare_of_ns (h : t.label.ns = none) : bare t = t := by
  cases t with
  | node l ts =>
    have hns : l.ns = none := h
    rw [bare, ← hns]

theorem unprefixedAll_eq_self
    (hfront : b = true → ∀ t ∈ ts.head?, t.label.isTag = true → t.label.ns = none)
    (hchain : ts.IsChain Spares) (hts : ∀ t ∈ ts, unprefixed t = t) : unprefixedAll b ts = ts := by
  induction ts generalizing b with
  | nil => rw [unprefixedAll]
  | cons t ts ih =>
    obtain ⟨ht, hrest⟩ := List.forall_mem_cons.1 hts
    obtain ⟨hnext, hchain⟩ := List.isChain_cons.1 hchain
    have hself : unprefixedAll (decide (IsBar t.label)) ts = ts :=
      ih (fun hbar u hu => hnext u hu (of_decide_eq_true hbar)) hchain hrest
    rw [unprefixedAll, hself, ht]
    split
    · next hbarred =>
      obtain ⟨hbar, htag⟩ := Bool.and_eq_true_iff.1 hbarred
      have hns := hfront hbar t rfl htag
      rw [bare_of_ns hns]
    · rfl

theorem unprefixed_eq_self (h : KeepsPrefixes t) : unprefixed t = t := by
  induction h with
  | node hchain _ ih => rw [unprefixed, unprefixedAll_eq_self (b := false) nofun hchain ih]

theorem unprefixedAll_of_untagged (h : ∀ t ∈ ts, t.label.isTag = false) :
    unprefixedAll b ts = ts.map unprefixed := by
  induction ts generalizing b with
  | nil => rw [unprefixedAll, List.map_nil]
  | cons t ts ih =>
    obtain ⟨ht, hts⟩ := List.forall_mem_cons.1 h
    rw [unprefixedAll, ih hts, ht, Bool.and_false]
    rfl

theorem length_compoundChars (ts : List Tree) :
    (compoundChars ts).length = (ts.map fun t => t.chars.length).sum := by
  induction ts with
  | nil => simp [compoundChars]
  | cons t ts ih => simp [compoundChars, ih]

theorem length_laterChars (ts : List Tree) :
    (laterChars ts).length = (ts.map fun t => t.chars.length).sum + ts.length := by
  induction ts with
  | nil => simp [laterChars]
  | cons t ts ih =>
    simp only [laterChars, List.cons_append, List.length_cons, List.length_append, List.map_cons,
      List.sum_cons, ih]
    omega

theorem length_listChars (ts : List Tree) :
    (listChars ts).length = (ts.map fun t => t.chars.length).sum + (ts.length - 1) := by
  cases ts with
  | nil => simp [listChars]
  | cons t ts =>
    simp only [listChars, length_laterChars, List.length_append, List.length_cons, List.map_cons,
      List.sum_cons]
    omega

theorem chars_tag (h : t.label.isTag = true) : t.chars = prefixChars t.label.ns ++ (bare t).chars := by
  cases t with
  | node l ts =>
    have hkind : l.kind = .tag := beq_iff_eq.1 h
    simp [bare, Tree.chars, Tree.label, Label.chars, hkind, prefixChars]

theorem prefixChars_eq_nil {ns : Option Namespace} (h : prefixChars ns = []) : ns = none := by
  cases ns with
  | none => rfl
  | some n =>
    cases n with
    | named name => exact absurd h (List.append_ne_nil_of_right_ne_nil _ (List.cons_ne_nil _ _))
    | bar => cases h

/-- The printed form has not grown, and if it has not shrunk either, all prefixes were kept. -/
def Shrinks (t : Tree) : Prop :=
  (unprefixed t).chars.length ≤ t.chars.length ∧
    ((unprefixed t).chars.length = t.chars.length → KeepsPrefixes t)

theorem length_bare_if (b : Bool) (t : Tree) :
    (if b && t.label.isTag then bare (unprefixed t) else unprefixed t).chars.length ≤
        (unprefixed t).chars.length ∧
      ((if b && t.label.isTag then bare (unprefixed t) else unprefixed t).chars.length =
        (unprefixed t).chars.length → b = true → t.label.isTag = true → t.label.ns = none) := by
  split
  · next hbarred =>
    obtain ⟨-, htag⟩ := Bool.and_eq_true_iff.1 hbarred
    have hchars := chars_tag ((label_unprefixed t).symm ▸ htag)
    rw [label_unprefixed] at hchars
    rw [hchars, List.length_append]
    refine ⟨Nat.le_add_left _ _, ?_⟩
    intro hsame _ _
    apply prefixChars_eq_nil
    apply List.eq_nil_of_length_eq_zero
    omega
  · next hbarred =>
    refine ⟨Nat.le_refl _, ?_⟩
    intro _ hb htag
    exact (hbarred (Bool.and_eq_true_iff.2 ⟨hb, htag⟩)).elim

theorem unprefixedAll_shrinks (b : Bool) (h : ∀ t ∈ ts, Shrinks t) :
    (unprefixedAll b ts).length = ts.length ∧
      ((unprefixedAll b ts).map fun t => t.chars.length).sum ≤
        (ts.map fun t => t.chars.length).sum ∧
      (((unprefixedAll b ts).map fun t => t.chars.length).sum =
          (ts.map fun t => t.chars.length).sum →
        (b = true → ∀ t ∈ ts.head?, t.label.isTag = true → t.label.ns = none) ∧
          ts.IsChain Spares ∧ ∀ t ∈ ts, KeepsPrefixes t) := by
  induction ts generalizing b with
  | nil =>
    rw [unprefixedAll]
    exact ⟨rfl, Nat.le_refl _, fun _ => ⟨nofun, .nil, nofun⟩⟩
  | cons t ts ih =>
    obtain ⟨⟨hle, hkeeps⟩, hrest⟩ := List.forall_mem_cons.1 h
    obtain ⟨hlength, hsum, hchain⟩ := ih (decide (IsBar t.label)) hrest
    obtain ⟨hbare, hns⟩ := length_bare_if b t
    rw [unprefixedAll, List.map_cons, List.sum_cons, List.map_cons, List.sum_cons]
    refine ⟨congrArg (· + 1) hlength, by omega, ?_⟩
    -- no part has grown, so where the sum is the same each part is
    intro hsame
    obtain ⟨hnext, hlinks, hall⟩ := hchain (by omega)
    have ht := hkeeps (by omega)
    refine ⟨?_, ?_, List.forall_mem_cons.2 ⟨ht, hall⟩⟩
    · intro hb u hu
      cases hu
      exact hns (by omega) hb
    · refine List.isChain_cons.2 ⟨?_, hlinks⟩
      intro u hu hbar
      exact hnext (decide_eq_true hbar) u hu

theorem Shrinks.node {l : Label} {k : Nat} (h : ∀ t ∈ ts, Shrinks t)
    (hchars : ∀ us : List Tree, us.length = ts.length →
      (Selector.Tree.node l us).chars.length = (us.map fun t => t.chars.length).sum + k) :
    Shrinks (.node l ts) := by
  obtain ⟨hlength, hsum, hkeeps⟩ := unprefixedAll_shrinks false h
  rw [Shrinks, unprefixed, hchars _ hlength, hchars ts rfl]
  refine ⟨Nat.add_le_add_right hsum k, ?_⟩
  intro hsame
  obtain ⟨-, hchain, hall⟩ := hkeeps (Nat.add_right_cancel hsame)
  exact .node hchain hall

theorem shrinks_of_displayed (h : t.Displayed) : Shrinks t := by
  induction h with
  | leaf l => exact .node (k := (Selector.Tree.node l []).chars.length) nofun (by simp)
  | selector _ ih => exact .node (k := 0) ih fun us _ => length_compoundChars us
  | @functional name selectors _ ih =>
    apply Shrinks.node (k := name.toList.length + (selectors.length - 1) + 2) ih
    intro us hus
    simp [Tree.chars, Label.chars, length_listChars, hus]
    omega
  | @root selectors _ ih =>
    apply Shrinks.node (k := selectors.length - 1) ih
    intro us hus
    rw [Tree.chars, length_listChars, hus]

/-- The printed form of a parsed tree stays as it is, exactly if no tag loses a prefix. -/
theorem render_unprefixed_iff {text : String} (h : parse text = .ok t) :
    (unprefixed t).render = t.render ↔ KeepsPrefixes t := by
  constructor
  · intro hsame
    have hchars : (unprefixed t).chars = t.chars := String.ofList_injective hsame
    exact (shrinks_of_displayed (displayed_of_parse h)).2 (congrArg List.length hchars)
  · intro hkeeps
    rw [unprefixed_eq_self hkeeps]

end ScopedStyles.Scope
