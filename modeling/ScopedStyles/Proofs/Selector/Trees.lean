import ScopedStyles.Selector.Printer

namespace ScopedStyles.Selector

namespace Tree

theorem induct {motive : Tree → Prop}
    (node : ∀ l ts, (∀ t ∈ ts, motive t) → motive (.node l ts)) (t : Tree) : motive t := by
  refine Tree.rec (motive_1 := motive) (motive_2 := fun ts => ∀ t ∈ ts, motive t) node ?_ ?_ t
  · intro t ht
    cases ht
  · intro t ts hhead htail u hu
    cases hu with
    | head => exact hhead
    | tail _ hu => exact htail u hu

/-- The property holds of the label of every node. -/
inductive All (P : Label → Prop) : Tree → Prop
  | node {l : Label} {ts : List Tree} (hl : P l) (hts : ∀ t ∈ ts, All P t) : All P (.node l ts)

namespace All

variable {P : Label → Prop} {l : Label} {ts : List Tree}

theorem label (h : All P (.node l ts)) : P l := by
  cases h with
  | node hl _ => exact hl

theorem children (h : All P (.node l ts)) : ∀ t ∈ ts, All P t := by
  cases h with
  | node _ hts => exact hts

theorem childless (hl : P l) : All P (.node l []) := by
  refine .node hl ?_
  intro t ht
  cases ht

theorem imp {Q : Label → Prop} {t : Tree} (hPQ : ∀ l, P l → Q l) (h : All P t) : All Q t := by
  induction h with
  | node hl _ ih => exact .node (hPQ _ hl) ih

theorem node_iff : All P (.node l ts) ↔ P l ∧ ∀ t ∈ ts, All P t := by
  constructor
  · intro h
    exact ⟨h.label, h.children⟩
  · rintro ⟨hl, hts⟩
    exact .node hl hts

end All

end Tree

end ScopedStyles.Selector
