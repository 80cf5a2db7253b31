import ScopedStyles.Proofs.Selector.Moves
import ScopedStyles.Proofs.Selector.Spelling

namespace ScopedStyles.Selector

/-- The text behind a list of selectors: none, or the closing parenthesis. -/
inductive Closes : List Char → Prop where
  | nil : Closes []
  | parenthesis (k : List Char) : Closes (')' :: k)

variable {t : Tree} {front nodes : List Tree} {later : List (List Tree)}
  {text r : List Char}

theorem Closes.behind (h : Closes r) : Behind t r := by
  cases h with
  | nil => exact ⟨nofun, fun _ => rfl, nofun⟩
  | parenthesis k => exact behind_of_mark (by decide) k

theorem Closes.tight (h : Closes r) : Tight r := by
  cases h with
  | nil => exact tight_nil
  | parenthesis k => exact tight_cons (by decide) (by decide) k

theorem bar_ne_space : bar ≠ space := by
  intro h
  have hvalue : bar.label.value = space.label.value := by
    rw [h]
  exact absurd hvalue (by decide)

/-- The second of two bars behind a plain tag or universal stands tight. -/
theorem Spells.second_bar (h : Spells (bar :: t :: front) (bar :: nodes) later text)
    (ht : t.isPlain = true) : text.head? = some '|' := by
  generalize hfront : bar :: t :: front = front' at h
  generalize hnodes : bar :: nodes = nodes' at h
  cases h with
  | done => cases hnodes
  | comma => cases hnodes
  | @node front pre nodes t' later g x k hg hapart hgap hx =>
    cases hgap with
    | tight =>
      cases hnodes
      cases hx with
      | printed => rfl
    | free hfree =>
      cases hnodes
      subst hfront
      cases hfree with
      | relation _ hrelation => cases hrelation
      | combinator _ hbars => exact (hbars ⟨rfl, rfl, ht⟩).elim
    | spaced => exact (bar_ne_space (List.cons.inj hnodes).1).elim
  | functional hg hapart hgap =>
    cases hgap with
    | tight => cases hnodes
    | free => cases hnodes
    | spaced => exact (bar_ne_space (List.cons.inj hnodes).1).elim

theorem Starts.behind {u : Tree} {c : Char} {k : List Char} (h : Starts u c)
    (hordered : Ordered (front.reverse ++ t :: u :: nodes))
    (hbars : u = bar → t.isPlain = true → nodes.head? = some bar → k.head? = some '|') :
    Behind t (c :: k) := by
  refine ⟨?_, ?_, fun heq => h.notMark.2.2.1 (Option.some.inj heq)⟩
  · intro hname d hd
    cases hd
    cases hc : isNameChar c with
    | false => rfl
    | true =>
      have hbegins := h.name hc
      rw [hordered.afterName rfl hname] at hbegins
      cases hbegins
  · intro hplain
    by_cases hc : c = '|'
    · have hu := h.barred hc
      subst hu
      rw [hc]
      exact afterBar?_bar_eq_none_iff.2 (.inr (hbars rfl hplain (hordered.afterPlain rfl hplain)))
    · exact afterBar?_of_head fun heq => hc (Option.some.inj heq)

theorem Spells.behind (h : Spells (t :: front) nodes later text)
    (hordered : Ordered (front.reverse ++ t :: nodes)) (hnodes : ∀ u ∈ nodes, CanonicalNode u)
    (hr : Closes r) : Behind t (text ++ r) := by
  cases h with
  | done hg hapart => exact .gap hg (hapart t rfl) fun _ => hr.behind
  | comma hg hapart _ =>
    rw [List.append_assoc]
    exact .gap hg (hapart t rfl) fun _ => behind_of_mark (by decide) _
  | @node _ pre nodes u later g x k hg hapart hgap hx hrest =>
    rw [List.append_assoc]
    refine .gap hg (hapart t rfl) ?_
    intro hnil
    have hu := hnodes u (List.mem_append_right _ List.mem_cons_self)
    obtain ⟨c, y, rfl, hstarts⟩ := hx.starts hu
    have hpre : pre = [] := by
      cases hgap with
      | tight => rfl
      | free => rfl
      | spaced hne => exact (hne hnil).elim
    subst hpre
    refine hstarts.behind hordered ?_
    rintro rfl hplain hhead
    obtain ⟨nodes', rfl⟩ := List.head?_eq_some_iff.1 hhead
    cases hx with
    | printed =>
      change (k ++ r).head? = some '|'
      rw [List.head?_append, hrest.second_bar hplain]
      rfl
  | @functional _ pre nodes first name args later g y k hg hapart _ _ _ =>
    rw [List.append_assoc]
    refine .gap hg (hapart t rfl) ?_
    intro _
    obtain ⟨z, hz⟩ := (hnodes _ (List.mem_append_right _ List.mem_cons_self)).functional_name.colon
    rw [hz]
    exact behind_of_mark (by decide) _

theorem selector_injective : Function.Injective Tree.selector :=
  fun _ _ h => (Tree.node.inj h).2

theorem CanonicalNode.arguments {name : String} {args : List (List Tree)}
    (h : CanonicalNode (.functional name (args.map .selector))) :
    ∀ nodes ∈ args, CanonicalSelector nodes := by
  generalize htree : Tree.functional name (args.map .selector) = t at h
  cases h with
  | @functional name' args' _ hargs hnodes =>
    obtain ⟨-, hmap⟩ := Tree.node.inj htree
    have heq := selector_injective.list_map hmap
    subst heq
    intro nodes hmem
    obtain ⟨hne, hordered⟩ := hargs nodes hmem
    exact ⟨hne, hordered, hnodes nodes hmem⟩
  | _ => cases htree

section Reading

variable {s : Stack} {f : Frame} {result : List Tree} {pre closed : List Tree}
  {outer : List (String × Frame)} {comp : Component} {c : Char} {g x : List Char}

theorem Reads.skip (h : Reads s r result) (hg : Filler g) (hr : Closes r) :
    Reads s (g ++ r) result := by
  have htight := hr.tight
  cases h with
  | done htrivia hmove =>
    cases htrivia.symm.trans htight
    cases hmove with
    | done hnodes houter => exact .done (hg.skip htight) (.done hnodes houter)
  | more htrivia hmove hrest =>
    cases htrivia.symm.trans htight
    cases hr with
    | nil => cases hmove
    | parenthesis k =>
      cases hmove with
      | close hnodes houter => exact .more (hg.skip htight) (.close hnodes houter) hrest
      | component _ hclose => exact (hclose rfl).elim

theorem Frame.separate_nil (hf : f.nodes = []) (spaced : Bool) (c : Char) :
    f.separate spaced c = f := by
  unfold Frame.separate
  rw [hf]

/-- Behind an opening parenthesis, filler does not matter, and something has to be read. -/
theorem Reads.unspaced (h : Reads s r result) (hs : s.frame.nodes = []) :
    ∃ g tokens, r = g ++ tokens ∧ Trivia g ∧ Tight tokens ∧ tokens.head? ≠ some ')' ∧
      Reads s tokens result := by
  have hempty : s.frame.nodes.isEmpty ≠ false := by
    rw [hs]
    exact nofun
  cases h with
  | done htrivia hmove =>
    cases hmove with
    | done hnodes => exact (hempty hnodes).elim
  | more htrivia hmove hrest =>
    obtain ⟨g, rfl, hg, htight⟩ := skipTrivia_eq_ok_iff.1 htrivia
    cases hmove with
    | comma hnodes => exact (hempty hnodes).elim
    | close hnodes => exact (hempty hnodes).elim
    | component hcomma hclose hread =>
      rw [Frame.separate_nil hs] at hrest
      refine ⟨g, _, rfl, hg, htight, fun heq => hclose (Option.some.inj heq), ?_⟩
      apply Reads.more htight (.component hcomma hclose hread)
      rw [Frame.separate_nil hs]
      exact hrest

theorem Gap.reverse {g : List Char} (h : Gap front t pre g) : pre.reverse = pre := by
  cases h with
  | tight => rfl
  | free => rfl
  | spaced => rfl

theorem Gap.separate (h : Gap f.nodes t pre g) (hc : Starts t c)
    (hordered : Ordered (f.nodes.reverse ++ (pre ++ t :: nodes))) (k : List Char) :
    f.separate (k.length != (g ++ k).length) c = ⟨f.selectors, pre ++ f.nodes⟩ := by
  obtain ⟨selectors, front⟩ := f
  unfold Frame.separate
  cases front with
  | nil =>
    cases h with
    | tight => rfl
    | free => rfl
    | spaced => exact (hordered.first rfl).elim
  | cons last before =>
    dsimp only
    cases h with
    | tight =>
      rw [List.nil_append, bne_self_eq_false]
      rfl
    | free hfree =>
      apply if_neg
      rw [hc.relation]
      cases hfree with
      | relation _ hrelation => simp [hrelation]
      | combinator hlast => simp [hlast]
    | spaced hne =>
      have hsplit : (last :: before).reverse ++ ([space] ++ t :: nodes) =
          before.reverse ++ last :: space :: t :: nodes := by simp
      rw [hsplit] at hordered
      obtain ⟨hlast, -, hrelation⟩ := hordered.afterSpace rfl
      have hlength : (k.length != (g ++ k).length) = true := by
        rw [bne_iff_ne, List.length_append]
        have hpos := List.length_pos_iff.2 hne
        omega
      rw [hlength, hc.relation, hlast, hrelation]
      rfl

theorem Reads.component (hg : Filler g) (hx : ComponentAt comp (c :: x) r) (hc : Starts t c)
    (hseparate : s.frame.separate ((c :: x ++ r).length != (g ++ (c :: x ++ r)).length) c = f)
    (h : Reads (s.add f comp) r result) : Reads s (g ++ (c :: x ++ r)) result := by
  have htight : Tight (c :: x ++ r) := tight_cons hc.notBlank hc.notMark.1 _
  subst hseparate
  exact .more (hg.skip htight) (.component hc.notMark.2.1 hc.notMark.2.2.2 (hx.read rfl)) h

end Reading

def finished (closed front nodes : List Tree) : List (List Tree) → Frame
  | [] => ⟨closed, nodes.reverse ++ front⟩
  | next :: later => finished (.selector (front.reverse ++ nodes) :: closed) [] next later

section Finished

variable {closed pre : List Tree}

theorem finished_close : (finished closed front nodes later).close =
    closed.reverse ++ ((front.reverse ++ nodes) :: later).map .selector := by
  induction later generalizing closed front nodes with
  | nil => simp [finished, Frame.close]
  | cons next later ih => simp [finished, ih]

theorem finished_isEmpty (hne : front.reverse ++ nodes ≠ []) (hlater : ∀ ns ∈ later, ns ≠ []) :
    (finished closed front nodes later).nodes.isEmpty = false := by
  induction later generalizing closed front nodes with
  | nil =>
    apply Bool.eq_false_iff.2
    intro hempty
    have hnil := List.isEmpty_iff.1 hempty
    obtain ⟨hnodes, hfront⟩ := List.append_eq_nil_iff.1 hnil
    subst hfront
    rw [List.reverse_eq_nil_iff] at hnodes
    exact hne hnodes
  | cons next later ih =>
    exact ih (hlater next List.mem_cons_self) fun ns hns => hlater ns (List.mem_cons_of_mem _ hns)

theorem finished_node (hpre : pre.reverse = pre) :
    finished closed (t :: (pre ++ front)) nodes later =
      finished closed front (pre ++ t :: nodes) later := by
  cases later with
  | nil => simp [finished, hpre]
  | cons next later => simp [finished, hpre]

end Finished

theorem Spells.reads (h : Spells front nodes later text) {closed : List Tree}
    {outer : List (String × Frame)} {result : List Tree}
    (hordered : Ordered (front.reverse ++ nodes)) (hne : front.reverse ++ nodes ≠ [])
    (hnodes : ∀ t ∈ nodes, CanonicalNode t) (hlater : ∀ ns ∈ later, CanonicalSelector ns)
    (hr : Closes r) (hrest : Reads ⟨finished closed front nodes later, outer⟩ r result) :
    Reads ⟨⟨closed, front⟩, outer⟩ (text ++ r) result := by
  induction h generalizing closed outer r result with
  | done hg _ => exact Reads.skip hrest hg hr
  | @comma front nodes later g k hg _ _ ih =>
    obtain ⟨hne', hordered', hnodes'⟩ := hlater nodes List.mem_cons_self
    have hlater' : ∀ ns ∈ later, CanonicalSelector ns :=
      fun ns hns => hlater ns (List.mem_cons_of_mem _ hns)
    have hnext := ih hordered' hne' hnodes' hlater' hr hrest
    rw [List.append_nil] at hne hnext
    have hsome : front.isEmpty = false :=
      Bool.eq_false_iff.2 fun hempty => hne (by rw [List.isEmpty_iff.1 hempty]; rfl)
    rw [List.append_assoc]
    exact .more (hg.skip (tight_cons (by decide) (by decide) _)) (.comma hsome) hnext
  | @node front pre nodes t later g x k hg _ hgap hx hk ih =>
    have hpre := hgap.reverse
    have ht := hnodes t (List.mem_append_right _ List.mem_cons_self)
    have hnodes' : ∀ u ∈ nodes, CanonicalNode u :=
      fun u hu => hnodes u (List.mem_append_right _ (List.mem_cons_of_mem _ hu))
    have hwhole : front.reverse ++ (pre ++ t :: nodes) = (t :: (pre ++ front)).reverse ++ nodes := by
      simp [hpre]
    obtain ⟨c, y, rfl, hc⟩ := hx.starts ht
    have hseparate := hgap.separate (f := ⟨closed, front⟩) hc hordered (c :: y ++ (k ++ r))
    rw [hwhole] at hordered hne
    rw [← finished_node hpre] at hrest
    have hnext := ih hordered hne hnodes' hlater hr hrest
    have hbehind : Behind t (k ++ r) := by
      apply hk.behind _ hnodes' hr
      rw [List.reverse_cons, List.append_assoc] at hordered
      exact hordered
    rw [List.append_assoc, List.append_assoc]
    exact .component hg (hx.at ht hbehind) hc hseparate hnext
  | @functional front pre nodes first name args later g y k hg _ hgap hy hk ihy ih =>
    have hpre := hgap.reverse
    have ht := hnodes _ (List.mem_append_right _ List.mem_cons_self)
    have hargs := ht.arguments
    obtain ⟨hne', hordered', hnodes'⟩ := hargs first List.mem_cons_self
    have hlater' : ∀ ns ∈ args, CanonicalSelector ns :=
      fun ns hns => hargs ns (List.mem_cons_of_mem _ hns)
    have hwhole : ∀ t, front.reverse ++ (pre ++ t :: nodes) =
        (t :: (pre ++ front)).reverse ++ nodes := by
      simp [hpre]
    have hc : Starts (.functional name ((first :: args).map .selector)) ':' :=
      starts_of_mark (by decide) rfl
    have hseparate := hgap.separate (f := ⟨closed, front⟩) hc hordered
    rw [hwhole] at hordered hne
    rw [← finished_node hpre] at hrest
    have hnext := ih hordered hne
      (fun u hu => hnodes u (List.mem_append_right _ (List.mem_cons_of_mem _ hu))) hlater hr hrest
    have hclosed : Reads ⟨finished [] [] first args, (name, ⟨closed, pre ++ front⟩) :: outer⟩
        (')' :: (k ++ r)) result := by
      refine .more (tight_cons (by decide) (by decide) _)
        (.close (finished_isEmpty hne' fun ns hns => (hlater' ns hns).notEmpty) rfl) ?_
      rw [finished_close]
      exact hnext
    have hinner := ihy hordered' hne' hnodes' hlater' (.parenthesis (k ++ r)) hclosed
    obtain ⟨gap, tokens, htokens, hgap', htight, hparen, hopened⟩ := hinner.unspaced rfl
    obtain ⟨z, hz, hname⟩ := ht.functional_name.at (endsName_cons (c := '(') (by decide) (gap ++ tokens))
    have htext : g ++ (name.toList ++ '(' :: (y ++ ')' :: k)) ++ r =
        g ++ (':' :: (z ++ '(' :: gap) ++ tokens) := by
      simp [hz, ← htokens]
    rw [htext]
    exact .component hg (.opening hgap' hname htight hparen) hc (hseparate _) hopened

/-- Every spelling of a canonical list of selectors is read as the list. -/
theorem Spelled.parse {text : String} (h : Spelled t text) (ht : Canonical t) :
    Selector.parse text = .ok t := by
  cases h with
  | @root first later _ h =>
    generalize htree : Tree.root ((first :: later).map .selector) = u at ht
    cases ht with
    | @root selectors _ hselectors =>
      have heq := selector_injective.list_map (Tree.node.inj htree).2
      subst heq
      obtain ⟨hne, hordered, hnodes⟩ := hselectors first List.mem_cons_self
      have hlater : ∀ ns ∈ later, CanonicalSelector ns :=
        fun ns hns => hselectors ns (List.mem_cons_of_mem _ hns)
      have hempty : (finished [] [] first later).nodes.isEmpty = false :=
        finished_isEmpty hne fun ns hns => (hlater ns hns).notEmpty
      have hend : Reads ⟨finished [] [] first later, []⟩ [] (finished [] [] first later).close :=
        .done tight_nil (.done hempty rfl)
      rw [finished_close] at hend
      have hreads := h.reads hordered hne hnodes hlater .nil hend
      rw [List.append_nil] at hreads
      exact parse_eq_ok_iff.2 ⟨_, htree.symm, hreads⟩

end ScopedStyles.Selector
