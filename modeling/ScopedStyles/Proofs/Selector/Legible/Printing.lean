import ScopedStyles.Proofs.Selector.Legible
import ScopedStyles.Proofs.Selector.Spelling.Printing

namespace ScopedStyles.Selector

variable {t : Tree} {nodes front closed result : List Tree} {args later : List (List Tree)} {e : Bool}
  {k : List Char} {outer : List (String × Frame)}

theorem Legible.chain {l : Label} {ts : List Tree} (h : Legible (.node l ts)) : ts.IsChain Abuts := by
  cases h with
  | node hchain _ => exact hchain

theorem Legible.children {l : Label} {ts : List Tree} (h : Legible (.node l ts)) :
    ∀ t ∈ ts, Legible t := by
  cases h with
  | node _ hts => exact hts

def Rereads (e : Bool) (t : Tree) : Prop :=
  ∃ c y, t.chars = c :: y ∧ Starts t c ∧ c ≠ '|' ∧
    ∀ ⦃k : List Char⦄ ⦃s : Stack⦄ ⦃f : Frame⦄ ⦃g : List Char⦄ ⦃result : List Tree⦄, Behind t k →
      (e = true → k = []) → Filler g →
      s.frame.separate ((c :: y ++ k).length != (g ++ (c :: y ++ k)).length) c = f →
      Reads ⟨f.push t, s.outer⟩ k result → Reads s (g ++ (c :: y ++ k)) result

/-- The node is read again unless it is space, which is read with the node behind it. -/
def RereadsIn (e : Bool) (t : Tree) : Prop :=
  t ≠ space → Rereads e t

theorem Frame.separate_false (f : Frame) (c : Char) : f.separate false c = f := by
  unfold Frame.separate
  cases f.nodes with
  | nil => rfl
  | cons last before => rfl

theorem behind_nodes (hk : ∀ u, Behind u k) (habuts : ∀ u ∈ nodes.head?, Abuts t u)
    (hnodes : ToLast RereadsIn e nodes) : Behind t (compoundChars nodes ++ k) := by
  cases nodes with
  | nil => exact hk t
  | cons u nodes =>
    have hu := habuts u rfl
    by_cases hspace : u = space
    · subst hspace
      exact behind_of_mark (c := ' ') (by decide) _
    · obtain ⟨c, y, hchars, hc, hbar, -⟩ := hnodes.1 hspace
      have hfront : compoundChars (u :: nodes) ++ k = c :: (y ++ compoundChars nodes ++ k) := by
        change u.chars ++ compoundChars nodes ++ k = _
        rw [hchars]
        rfl
      rw [hfront]
      refine ⟨?_, fun _ => afterBar?_of_head fun heq => hbar (Option.some.inj heq),
        fun heq => hc.notMark.2.2.1 (Option.some.inj heq)⟩
      intro hends d hd
      cases hd
      refine Bool.eq_false_iff.2 fun hname => ?_
      have hbegins := hc.name hname
      rw [hu.name hends] at hbegins
      cases hbegins

/-- The parser puts the space that was printed. -/
theorem separate_space {u last : Tree} {before : List Tree} {c : Char} (hlast : Abuts last space)
    (hu : Abuts space u) (hc : Starts u c) (x : List Char) :
    Frame.separate ⟨closed, last :: before⟩ (x.length != ([' '] ++ x).length) c =
      ⟨closed, space :: last :: before⟩ := by
  have hlength : (x.length != ([' '] ++ x).length) = true := by simp
  rw [Frame.separate]
  dsimp only
  rw [hlength, hc.relation, hlast.before rfl, hu.behind rfl]
  rfl

theorem last_of_cons (h : (t :: nodes).getLast? ≠ some space) : nodes.getLast? ≠ some space := by
  cases nodes with
  | nil => exact nofun
  | cons u nodes => exact h

theorem reads_nodes (hnodes : ToLast RereadsIn e nodes)
    (hchain : (front.reverse ++ nodes).IsChain Abuts)
    (hfirst : (front.reverse ++ nodes).head? ≠ some space) (hlast : nodes.getLast? ≠ some space)
    (hk : ∀ u, Behind u k) (hend : e = true → k = [])
    (hrest : Reads ⟨⟨closed, nodes.reverse ++ front⟩, outer⟩ k result) :
    Reads ⟨⟨closed, front⟩, outer⟩ (compoundChars nodes ++ k) result := by
  have hends : ∀ {ts : List Tree}, (e && ts.isEmpty) = true → compoundChars ts ++ k = [] := by
    intro ts hempty
    obtain ⟨he, hts⟩ := Bool.and_eq_true_iff.1 hempty
    rw [List.isEmpty_iff.1 hts, hend he]
    rfl
  induction hn : nodes.length using Nat.strong_induction_on generalizing front nodes with
  | _ n ih =>
    subst hn
    cases nodes with
    | nil => exact hrest
    | cons t nodes =>
      by_cases ht : t = space
      · subst ht
        -- the space is read with the node behind it
        cases nodes with
        | nil => exact (hlast rfl).elim
        | cons u nodes =>
          cases front with
          | nil => exact (hfirst rfl).elim
          | cons last before =>
            have hsplit : (last :: before).reverse ++ space :: u :: nodes =
                before.reverse ++ last :: space :: u :: nodes := by simp
            have hwhole : (last :: before).reverse ++ space :: u :: nodes =
                (u :: space :: last :: before).reverse ++ nodes := by simp
            have hneighbours := hchain
            rw [hsplit, List.isChain_append_cons_cons, List.isChain_cons_cons] at hneighbours
            obtain ⟨-, hlastSpace, hspaceNext, hbehind⟩ := hneighbours
            have hu : u ≠ space := by
              rintro rfl
              cases hspaceNext.before rfl
            obtain ⟨c, y, hchars, hc, -, hread⟩ := hnodes.2.1 hu
            have htext : compoundChars (space :: u :: nodes) ++ k =
                [' '] ++ (c :: y ++ (compoundChars nodes ++ k)) := by
              rw [← hchars, ← List.append_assoc u.chars]
              rfl
            rw [htext]
            refine hread (behind_nodes hk (List.isChain_cons.1 hbehind).1 hnodes.2.2) hends
              filler_blank (separate_space hlastSpace hspaceNext hc _) ?_
            rw [hwhole] at hchain hfirst
            refine ih nodes.length (by simp only [List.length_cons]; omega) hnodes.2.2 hchain hfirst
              (last_of_cons (last_of_cons hlast)) ?_ rfl
            simpa using hrest
      · obtain ⟨c, y, hchars, hc, -, hread⟩ := hnodes.1 ht
        have hwhole : front.reverse ++ t :: nodes = (t :: front).reverse ++ nodes := by simp
        have htext : compoundChars (t :: nodes) ++ k =
            [] ++ (c :: y ++ (compoundChars nodes ++ k)) := by
          rw [← hchars]
          exact List.append_assoc _ _ _
        have habuts := (List.isChain_cons.1 (List.isChain_append.1 hchain).2.1).1
        rw [htext]
        refine hread (behind_nodes hk habuts hnodes.2) hends .nil
          (by rw [List.nil_append, bne_self_eq_false, Frame.separate_false]) ?_
        rw [hwhole] at hchain hfirst
        refine ih nodes.length (by simp) hnodes.2 hchain hfirst (last_of_cons hlast) ?_ rfl
        simpa using hrest

theorem reads_selectors (hargs : ∀ ns ∈ nodes :: later, Stretch ns ∧ ns.IsChain Abuts)
    (hnodes : ToLast (ToLast RereadsIn) e (nodes :: later)) (hk : ∀ u, Behind u k)
    (hend : e = true → k = [])
    (hrest : Reads ⟨finished closed [] nodes later, outer⟩ k result) :
    Reads ⟨⟨closed, []⟩, outer⟩ (listChars ((nodes :: later).map .selector) ++ k) result := by
  induction later generalizing nodes closed with
  | nil =>
    obtain ⟨hstretch, hchain⟩ := hargs nodes List.mem_cons_self
    have htext : listChars ([nodes].map .selector) ++ k = compoundChars nodes ++ k :=
      congrArg (· ++ k) (List.append_nil _)
    rw [htext]
    refine reads_nodes hnodes.1 hchain hstretch.first hstretch.last hk ?_ hrest
    intro he
    exact hend (Bool.and_eq_true_iff.1 he).1
  | cons next later ih =>
    obtain ⟨hstretch, hchain⟩ := hargs nodes List.mem_cons_self
    have htext : listChars ((nodes :: next :: later).map .selector) ++ k =
        compoundChars nodes ++ ',' :: (listChars ((next :: later).map .selector) ++ k) :=
      List.append_assoc _ _ _
    have hnext := ih (fun ns hns => hargs ns (List.mem_cons_of_mem _ hns)) hnodes.2 hrest
    rw [htext]
    refine reads_nodes hnodes.1 hchain hstretch.first hstretch.last
      (fun u => behind_of_mark (by decide) _) (fun he => ?_) ?_
    · cases (Bool.and_eq_true_iff.1 he).2
    · have hsome : (nodes.reverse ++ []).isEmpty = false := by
        simp [hstretch.notEmpty]
      apply Reads.more (tight_cons (by decide) (by decide) _) (.comma hsome)
      simpa [Frame.next] using hnext

theorem rereads_component {x r : List Char} (h : ComponentAt (.node t) x r) (htight : Tight (x ++ r))
    (hsimple : t.All Label.Simple) (hend : r = [] → e = true) : Rereads e t := by
  obtain ⟨c, y, y', rfl, hchars, -⟩ := h.head
  have hc := (h.starts htight).1
  refine ⟨c, y', hchars, hc, ?_, ?_⟩
  · rintro rfl
    rw [hc.barred rfl] at hsimple
    exact hsimple.label.2 ⟨rfl, rfl⟩
  · intro k s f g result hk he hg hseparate hrest
    have hagain := h.reprinted hsimple (fun hr => he (hend hr)) hk
    have hprinted : t.chars = c :: y' := hchars
    rw [hprinted] at hagain
    exact .component hg hagain hc hseparate hrest

theorem rereads_functional {name : String} {x r : List Char} (hname : PseudoNameAt name x ('(' :: r))
    (hsome : args ≠ []) (hargs : ∀ ns ∈ args, Stretch ns ∧ ns.IsChain Abuts)
    (hnodes : ∀ ns ∈ args, ∀ t ∈ ns, RereadsIn false t) :
    Rereads e (.functional name (args.map .selector)) := by
  have hc : Starts (.functional name (args.map .selector)) ':' := starts_of_mark (by decide) rfl
  have hchars : (Tree.functional name (args.map .selector)).chars =
      ':' :: (x ++ '(' :: listChars (args.map .selector) ++ [')']) := by
    change name.toList ++ '(' :: listChars (args.map .selector) ++ [')'] = _
    rw [hname.toList]
    simp
  refine ⟨':', _, hchars, hc, by decide, ?_⟩
  intro k s f g result _ _ hg hseparate hrest
  cases args with
  | nil => exact (hsome rfl).elim
  | cons first later =>
    have hnotEmpty : ∀ ns ∈ first :: later, ns ≠ [] := fun ns hns => (hargs ns hns).1.notEmpty
    have hclosed : Reads ⟨finished [] [] first later, (name, f) :: s.outer⟩ (')' :: k) result := by
      refine .more (tight_cons (by decide) (by decide) k) (.close (finished_isEmpty
        (hnotEmpty first List.mem_cons_self) fun ns hns => hnotEmpty ns (List.mem_cons_of_mem _ hns))
        rfl) ?_
      rw [finished_close]
      exact hrest
    have hinner := reads_selectors hargs
      (toLast_false.2 fun ns hns => toLast_false.2 (hnodes ns hns))
      (fun u => behind_of_mark (by decide) k) nofun hclosed
    obtain ⟨gap, tokens, htokens, hgap, htight, hparen, hopened⟩ := hinner.unspaced rfl
    have hopening : ComponentAt (.opening name) (':' :: (x ++ '(' :: gap)) tokens :=
      .opening hgap (hname.again_cons (List.cons_ne_nil _ _) (by decide)) htight hparen
    have htext : ':' :: (x ++ '(' :: listChars ((first :: later).map .selector) ++ [')']) ++ k =
        ':' :: (x ++ '(' :: gap) ++ tokens := by
      simpa using htokens
    rw [htext] at hseparate ⊢
    exact .component hg hopening hc hseparate hopened

theorem Firm.rereads (h : Firm e t) (hlegible : Legible t) : RereadsIn e t := by
  induction h with
  | component h htight hsimple hend => exact fun _ => rereads_component h htight hsimple hend
  | space => exact fun hne => (hne rfl).elim
  | @functional _ _ _ _ args hname hsome hargs _ ih =>
    have hselector : ∀ ns ∈ args, Legible (.selector ns) :=
      fun ns hns => hlegible.children _ (List.mem_map_of_mem hns)
    intro _
    apply rereads_functional hname hsome
    · exact fun ns hns => ⟨hargs ns hns, (hselector ns hns).chain⟩
    · exact fun ns hns t ht => ih ns hns t ht ((hselector ns hns).children t ht)

/-- A legible list of firm nodes is read from its printed form. -/
theorem FirmList.parse (h : FirmList t) (hlegible : Legible t) : Selector.parse t.render = .ok t := by
  cases h with
  | @root args hsome hargs hnodes =>
    cases args with
    | nil => exact (hsome rfl).elim
    | cons first later =>
      have hselector : ∀ ns ∈ first :: later, Legible (.selector ns) :=
        fun ns hns => hlegible.children _ (List.mem_map_of_mem hns)
      have hempty : (finished [] [] first later).nodes.isEmpty = false :=
        finished_isEmpty (hargs first List.mem_cons_self).notEmpty
          fun ns hns => (hargs ns (List.mem_cons_of_mem _ hns)).notEmpty
      have hdone : Reads ⟨finished [] [] first later, []⟩ [] (finished [] [] first later).close :=
        .done tight_nil (.done hempty rfl)
      rw [finished_close] at hdone
      have hrereads : ToLast (ToLast RereadsIn) true (first :: later) :=
        hnodes.imp fun ns hns _ hfirm => hfirm.imp fun t ht _ ht' =>
          ht'.rereads ((hselector ns hns).children t ht)
      have hreads := reads_selectors (fun ns hns => ⟨hargs ns hns, (hselector ns hns).chain⟩)
        hrereads (fun u => Closes.nil.behind) (fun _ => rfl) hdone
      rw [List.append_nil] at hreads
      refine parse_eq_ok_iff.2 ⟨_, rfl, ?_⟩
      have hchars : (Tree.root ((first :: later).map .selector)).render.toList =
          listChars ((first :: later).map .selector) := String.toList_ofList
      rw [hchars]
      exact hreads

end ScopedStyles.Selector
