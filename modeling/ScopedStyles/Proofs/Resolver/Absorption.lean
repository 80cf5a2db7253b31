import ScopedStyles.Proofs.Resolver.Phases
import ScopedStyles.Proofs.Resolver.Prefixes

namespace ScopedStyles.Scope

open Selector Forest

variable {c : Config} {f g : Forest} {kids : Nat → List Nat} {rank : Nat → Nat} {tags : List Nat}
  {b i j : Nat}

/-- The bare bar directly in front of a node. -/
def barBefore? (f : Forest) (i : Nat) : Option Nat :=
  (f.get i).prev.filter fun b => decide (IsBar (f.label b))

theorem barBefore?_eq_some :
    barBefore? f i = some b ↔ (f.get i).prev = some b ∧ IsBar (f.label b) := by
  rw [barBefore?, Option.filter_eq_some_iff, decide_eq_true_iff]

theorem absorbBar_of_some (h : barBefore? f i = some b) :
    absorbBar f i = (f.setValue b "").setNamespace i (some .bar) := by
  obtain ⟨hprev, hkind, hvalue⟩ := barBefore?_eq_some.1 h
  rw [absorbBar, hprev]
  exact if_pos ⟨beq_iff_eq.2 hkind, hvalue⟩

theorem absorbBar_of_none (h : barBefore? f i = none) : absorbBar f i = f := by
  rw [absorbBar]
  split
  · next b hprev =>
    apply if_neg
    rintro ⟨hkind, hvalue⟩
    rw [barBefore?_eq_some.2 ⟨hprev, beq_iff_eq.1 hkind, hvalue⟩] at h
    cases h
  · rfl

theorem next_of_prev (h : Linked f kids) (hprev : (f.get i).prev = some b) :
    (f.get b).next = some i := by
  have hplaced : ∃ q, i ∈ kids q := by
    by_contra hnone
    rw [(h.orphan fun q hq => hnone ⟨q, hq⟩).2.1] at hprev
    cases hprev
  obtain ⟨q, hmem⟩ := hplaced
  obtain ⟨l₁, l₂, hsplit⟩ := List.append_of_mem hmem
  rw [(h.links hsplit).2.1] at hprev
  obtain ⟨l₀, rfl⟩ := List.getLast?_eq_some_iff.1 hprev
  rw [List.append_assoc] at hsplit
  exact (h.links hsplit).2.2

theorem prev_unique (h : Linked f kids) (hi : (f.get i).prev = some b)
    (hj : (f.get j).prev = some b) : i = j :=
  Option.some.inj ((next_of_prev h hi).symm.trans (next_of_prev h hj))

theorem ne_of_isBar (hi : (f.label i).isTag = true) (hb : IsBar (f.label b)) : i ≠ b := by
  rintro rfl
  rw [not_isTag_of_isBar hb] at hi
  cases hi

/-- The bar `b` has become the mark of the tag `i`. -/
structure Moved (f f' : Forest) (b i : Nat) : Prop where
  size : f'.size = f.size
  links : ∀ j, f'.get j = { f.get j with label := f'.label j }
  tag : f'.label i = { f.label i with ns := some .bar }
  bar : f'.label b = { f.label b with value := "" }
  other : ∀ j, j ≠ i → j ≠ b → f'.label j = f.label j

theorem moved_mark (hi : (f.label i).isTag = true) (hb : IsBar (f.label b)) :
    Moved f ((f.setValue b "").setNamespace i (some .bar)) b i := by
  have hib := ne_of_isBar hi hb
  have hbsize : b < f.size := lt_size_of_label (P := Label.isCombinator) rfl (beq_iff_eq.2 hb.1)
  have hisize : i < (f.setValue b "").size := by
    rw [setValue, size_modify]
    exact lt_size_of_label rfl hi
  have hget : ∀ j, ((f.setValue b "").setNamespace i (some .bar)).get j =
      if i = j then { f.get i with label := { f.label i with ns := some .bar } }
      else if b = j then { f.get b with label := { f.label b with value := "" } } else f.get j := by
    intro j
    rw [setNamespace, get_modify _ i j _ hisize, setValue, get_modify _ b j _ hbsize,
      get_modify _ b i _ hbsize, if_neg hib.symm]
    rfl
  constructor
  case size => rw [setNamespace, size_modify, setValue, size_modify]
  case links =>
    intro j
    rw [Forest.label, hget]
    split
    · next hij => rw [hij]
    · split
      · next hbj => rw [hbj]
      · rfl
  case tag => rw [Forest.label, hget, if_pos rfl]
  case bar => rw [Forest.label, hget, if_neg hib, if_pos rfl]
  case other =>
    intro j hji hjb
    rw [Forest.label, hget, if_neg hji.symm, if_neg hjb.symm, Forest.label]

/-- The forest in which the bars in front of `tags` have become their marks. -/
structure Marked (f : Forest) (tags : List Nat) (g : Forest) : Prop where
  size : g.size = f.size
  links : ∀ j, g.get j = { f.get j with label := g.label j }
  kind : ∀ j, (g.label j).kind = (f.label j).kind
  marked : ∀ i ∈ tags, ∀ b, barBefore? f i = some b →
    g.label i = { f.label i with ns := some .bar } ∧ g.label b = { f.label b with value := "" }
  other : ∀ j, (∀ i ∈ tags, ∀ b, barBefore? f i = some b → j ≠ i ∧ j ≠ b) → g.label j = f.label j

namespace Marked

theorem start (f : Forest) : Marked f [] f :=
  ⟨rfl, fun _ => rfl, fun _ => rfl, nofun, fun _ _ => rfl⟩

theorem layered (h : Marked f tags g) (hf : Layered f kids rank) : Layered g kids rank where
  linked := by
    apply hf.linked.congr h.size
    intro j
    rw [h.links j]
    exact ⟨rfl, rfl, rfl, rfl, rfl⟩
  graded := ⟨hf.graded.above, fun hi => h.size ▸ hf.graded.bound (h.size ▸ hi)⟩
  bound := h.size ▸ hf.bound
  rooted := (h.kind root).trans hf.rooted
  nests := by
    intro p i hp hi
    have hnests := hf.nests hp hi
    rw [Label.Nests, Label.isPseudo] at hnests ⊢
    rwa [h.kind, h.kind]

theorem tag_label (h : Marked f tags g) (hi : i ∉ tags) (htag : (f.label i).isTag = true) :
    g.label i = f.label i := by
  apply h.other
  intro k hk b hb
  exact ⟨fun heq => hi (heq ▸ hk), ne_of_isBar htag (barBefore?_eq_some.1 hb).2⟩

theorem front_label (h : Marked f tags g) (hf : Linked f kids)
    (htags : ∀ k ∈ tags, (f.label k).isTag = true) (hi : i ∉ tags)
    (hprev : (f.get i).prev = some b) (hb : (f.label b).kind = .combinator) :
    g.label b = f.label b := by
  apply h.other
  intro k hk b' hb'
  refine ⟨?_, ?_⟩
  · rintro rfl
    have htag := htags b hk
    rw [Label.isTag, hb] at htag
    cases htag
  · rintro rfl
    exact hi (prev_unique hf hprev (barBefore?_eq_some.1 hb').1 ▸ hk)

theorem barBefore?_eq (h : Marked f tags g) (hf : Linked f kids)
    (htags : ∀ k ∈ tags, (f.label k).isTag = true) (hi : i ∉ tags) :
    barBefore? g i = barBefore? f i := by
  have hprev : (g.get i).prev = (f.get i).prev := by rw [h.links i]
  apply Option.ext
  intro b
  rw [barBefore?_eq_some, barBefore?_eq_some, hprev]
  refine and_congr_right fun hb => ?_
  by_cases hkind : (f.label b).kind = .combinator
  · rw [h.front_label hf htags hi hb hkind]
  · refine iff_of_false (fun hbar => hkind ?_) fun hbar => hkind hbar.1
    exact (h.kind b).symm.trans hbar.1

theorem plain (h : Marked f tags g) (hi : barBefore? f i = none) : Marked f (tags ++ [i]) g where
  size := h.size
  links := h.links
  kind := h.kind
  marked := by
    intro k hk b hb
    rcases List.mem_append.1 hk with hk | hk
    · exact h.marked k hk b hb
    · rw [List.mem_singleton.1 hk, hi] at hb
      cases hb
  other := by
    intro j hj
    apply h.other
    intro k hk
    exact hj k (List.mem_append_left _ hk)

theorem barred {g' : Forest} (h : Marked f tags g) (hf : Linked f kids)
    (htags : ∀ k ∈ tags, (f.label k).isTag = true) (hi : i ∉ tags)
    (htag : (f.label i).isTag = true) (hb : barBefore? f i = some b) (hmoved : Moved g g' b i) :
    Marked f (tags ++ [i]) g' := by
  obtain ⟨hprev, hbar⟩ := barBefore?_eq_some.1 hb
  have hilabel := h.tag_label hi htag
  have hblabel := h.front_label hf htags hi hprev hbar.1
  constructor
  case size => rw [hmoved.size, h.size]
  case links =>
    intro j
    rw [hmoved.links j, h.links j]
  case kind =>
    intro j
    by_cases hji : j = i
    · rw [hji, hmoved.tag, hilabel]
    · by_cases hjb : j = b
      · rw [hjb, hmoved.bar, hblabel]
      · rw [hmoved.other j hji hjb, h.kind]
  case marked =>
    intro k hk b' hb'
    obtain ⟨hprev', hbar'⟩ := barBefore?_eq_some.1 hb'
    rcases List.mem_append.1 hk with hk | hk
    · have hki : k ≠ i := fun heq => hi (heq ▸ hk)
      have hbb : b' ≠ b := by
        rintro rfl
        exact hki (prev_unique hf hprev' hprev)
      rw [hmoved.other k hki (ne_of_isBar (htags k hk) hbar),
        hmoved.other b' (ne_of_isBar htag hbar').symm hbb]
      exact h.marked k hk b' hb'
    · cases List.mem_singleton.1 hk
      cases hb.symm.trans hb'
      rw [hmoved.tag, hmoved.bar, hilabel, hblabel]
      exact ⟨rfl, rfl⟩
  case other =>
    intro j hj
    obtain ⟨hji, hjb⟩ := hj i (List.mem_append_right _ (List.mem_singleton_self i)) b hb
    rw [hmoved.other j hji hjb]
    apply h.other
    intro k hk
    exact hj k (List.mem_append_left _ hk)

theorem absorbBar (h : Marked f tags g) (hf : Linked f kids)
    (htags : ∀ k ∈ tags, (f.label k).isTag = true) (hi : i ∉ tags)
    (htag : (f.label i).isTag = true) : Marked f (tags ++ [i]) (absorbBar g i) := by
  have hsame := h.barBefore?_eq hf htags hi
  cases hb : barBefore? f i with
  | none =>
    rw [absorbBar_of_none (hsame.trans hb)]
    exact h.plain hb
  | some b =>
    obtain ⟨hprev, hbar⟩ := barBefore?_eq_some.1 hb
    have hilabel := h.tag_label hi htag
    have hblabel := h.front_label hf htags hi hprev hbar.1
    have hmoved : Moved g ((g.setValue b "").setNamespace i (some .bar)) b i :=
      moved_mark (hilabel ▸ htag) (hblabel ▸ hbar)
    rw [absorbBar_of_some (hsame.trans hb)]
    exact h.barred hf htags hi htag hb hmoved

theorem kept (h : Marked f tags g) (htags : ∀ k ∈ tags, (f.label k).isTag = true)
    (htag : (f.label j).isTag = false) (hbar : ¬ IsBar (f.label j)) : g.label j = f.label j := by
  apply h.other
  intro k hk b hb
  refine ⟨?_, ?_⟩
  · rintro rfl
    rw [htags j hk] at htag
    cases htag
  · rintro rfl
    exact hbar (barBefore?_eq_some.1 hb).2

theorem isEscape_eq (h : Marked f tags g) (htags : ∀ k ∈ tags, (f.label k).isTag = true) (j : Nat) :
    isEscape c (g.label j) = isEscape c (f.label j) := by
  cases hpseudo : (f.label j).isPseudo with
  | true =>
    rw [h.kept htags]
    · cases htag : (f.label j).isTag with
      | false => rfl
      | true =>
        rw [(isScopable_leaf (isScopable_of_isTag htag)).notPseudo] at hpseudo
        cases hpseudo
    · rintro ⟨hkind, -⟩
      rw [Label.isPseudo, hkind] at hpseudo
      cases hpseudo
  | false =>
    have hpseudo' : (g.label j).isPseudo = false := by
      rw [Label.isPseudo, h.kind]
      exact hpseudo
    rw [isEscape, isEscape, hpseudo, hpseudo', Bool.false_and, Bool.false_and]

end Marked

end ScopedStyles.Scope
