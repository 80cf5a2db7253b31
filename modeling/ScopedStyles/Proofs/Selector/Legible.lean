import Mathlib.Data.List.Chain
import ScopedStyles.Proofs.Selector.Spelling.Exact

namespace ScopedStyles.Selector

/-- What holds of two neighbours in a selector that has been read. -/
structure Abuts (t u : Tree) : Prop where
  name : t.endsInName = true → u.beginsWithName = false
  before : u = space → t.label.isCombinator = false
  behind : t = space → u.isRelation = false

/-- All neighbours in the tree can be told apart. -/
inductive Legible : Tree → Prop
  | node {l : Label} {ts : List Tree} (hchain : ts.IsChain Abuts) (hts : ∀ t ∈ ts, Legible t) :
    Legible (.node l ts)

theorem legible_leaf (l : Label) : Legible (.node l []) :=
  .node .nil nofun

/-- Neither an attribute nor a bare bar. -/
def Label.Simple (l : Label) : Prop :=
  l.isAttribute = false ∧ ¬ (l.kind = .combinator ∧ l.value = "|")

theorem framing_simple : Framing Label.Simple where
  selector := ⟨rfl, fun h => nomatch h.1⟩
  functional _ := ⟨rfl, fun h => nomatch h.1⟩
  descendant := ⟨rfl, fun h => absurd h.2 (by decide)⟩

structure Stretch (nodes : List Tree) : Prop where
  notEmpty : nodes ≠ []
  first : nodes.head? ≠ some space
  last : nodes.getLast? ≠ some space

section ToLast

variable {α : Type} {P : Bool → α → Prop} {e : Bool} {as bs : List α}

/-- The property with the flag holds of the last member, and without it of the others. -/
def ToLast (P : Bool → α → Prop) (e : Bool) : List α → Prop
  | [] => True
  | a :: as => P (e && as.isEmpty) a ∧ ToLast P e as

theorem toLast_false : ToLast P false as ↔ ∀ a ∈ as, P false a := by
  induction as with
  | nil => simp [ToLast]
  | cons a as ih => simp [ToLast, ih]

theorem toLast_append (hbs : bs ≠ []) :
    ToLast P e (as ++ bs) ↔ (∀ a ∈ as, P false a) ∧ ToLast P e bs := by
  induction as with
  | nil => simp
  | cons a as ih =>
    have hempty : (as ++ bs).isEmpty = false := by simp [hbs]
    rw [List.cons_append, ToLast, ih, hempty, Bool.and_false, List.forall_mem_cons, and_assoc]

theorem toLast_map {β : Type} {P : Bool → β → Prop} {g : α → β} :
    ToLast P e (as.map g) ↔ ToLast (fun e a => P e (g a)) e as := by
  induction as with
  | nil => simp [ToLast]
  | cons a as ih => simp [ToLast, ih]

theorem ToLast.imp {Q : Bool → α → Prop} (hPQ : ∀ a ∈ as, ∀ e, P e a → Q e a) (h : ToLast P e as) :
    ToLast Q e as := by
  induction as with
  | nil => trivial
  | cons a as ih =>
    have has := ih (fun b hb => hPQ b (List.mem_cons_of_mem a hb)) h.2
    exact ⟨hPQ a List.mem_cons_self _ h.1, has⟩

theorem ToLast.exists (h : ToLast P e as) : ∀ a ∈ as, ∃ e', P e' a := by
  induction as with
  | nil => exact nofun
  | cons a as ih => exact List.forall_mem_cons.2 ⟨⟨_, h.1⟩, ih h.2⟩

theorem ToLast.mono (hP : ∀ a, P false a → P true a) (h : ToLast P e as) : ToLast P true as := by
  cases e with
  | true => exact h
  | false =>
    induction as with
    | nil => trivial
    | cons a as ih =>
      refine ⟨?_, ih h.2⟩
      cases as.isEmpty with
      | true => exact hP a h.1
      | false => exact h.1

theorem toLast_snoc {a : α} : ToLast P e (as ++ [a]) ↔ (∀ b ∈ as, P false b) ∧ P e a := by
  simp [toLast_append, ToLast]

end ToLast

/-- The node is read wherever a neighbour does not hinder it. Only at the end of the text can the flag be
needed, where a name may close with a backslash that takes no character along. -/
inductive Firm : Bool → Tree → Prop
  | component {e : Bool} {t : Tree} {x r : List Char} (h : ComponentAt (.node t) x r)
    (htight : Tight (x ++ r)) (hsimple : t.All Label.Simple) (hend : r = [] → e = true) : Firm e t
  | space {e : Bool} : Firm e space
  | functional {e : Bool} {name : String} {x r : List Char} {args : List (List Tree)}
    (hname : PseudoNameAt name x ('(' :: r)) (hsome : args ≠ [])
    (hargs : ∀ nodes ∈ args, Stretch nodes) (hnodes : ∀ nodes ∈ args, ∀ t ∈ nodes, Firm false t) :
    Firm e (.functional name (args.map .selector))

theorem Firm.mono {e : Bool} {t : Tree} (h : Firm false t) : Firm e t := by
  cases h with
  | component h htight hsimple hend => exact .component h htight hsimple fun hr => nomatch hend hr
  | space => exact .space
  | functional hname hsome hargs hnodes => exact .functional hname hsome hargs hnodes

inductive FirmList : Tree → Prop
  | root {args : List (List Tree)} (hsome : args ≠ []) (hargs : ∀ nodes ∈ args, Stretch nodes)
    (hnodes : ToLast (ToLast Firm) true args) : FirmList (.root (args.map .selector))

theorem Firm.simple {e : Bool} {t : Tree} (h : Firm e t) : t.All Label.Simple := by
  induction h with
  | component _ _ hsimple _ => exact hsimple
  | space => exact .childless framing_simple.descendant
  | functional _ _ _ _ ih =>
    refine .node (framing_simple.functional _) (List.forall_mem_map.2 fun nodes hnodes => ?_)
    exact .node framing_simple.selector (ih nodes hnodes)

theorem FirmList.simple {t : Tree} (h : FirmList t) : t.All Label.Simple := by
  cases h with
  | root _ _ hnodes =>
    refine .node ⟨rfl, fun h => nomatch h.1⟩ (List.forall_mem_map.2 fun nodes hmem => ?_)
    obtain ⟨_, hfirm⟩ := hnodes.exists nodes hmem
    refine .node framing_simple.selector fun u hu => ?_
    obtain ⟨_, hu⟩ := hfirm.exists u hu
    exact hu.simple

section Components

variable {t : Tree} {c : Char} {x r k : List Char} {e : Bool}

theorem ComponentAt.starts (h : ComponentAt (.node t) (c :: x) r) (htight : Tight (c :: x ++ r)) :
    Starts t c ∧ (t.beginsWithName = true → isNameChar c = true) := by
  have hblank := htight.head_not_blank
  have hmark : c ∈ ['.', '#', '[', ':', '&', '*', '"', '\''] → t.isRelation = false →
      t.beginsWithName = false → Starts t c ∧ (t.beginsWithName = true → isNameChar c = true) := by
    intro hc hrelation hbegins
    refine ⟨starts_of_mark hc hrelation, ?_⟩
    rw [hbegins]
    exact nofun
  have hname : isNameChar c = true → t.isRelation = false → t.beginsWithName = true →
      Starts t c ∧ (t.beginsWithName = true → isNameChar c = true) :=
    fun hc hrelation hbegins => ⟨starts_of_name hc hblank hbegins hrelation, fun _ => hc⟩
  generalize hx : c :: x = y at h
  cases h with
  | combinator hd =>
    cases hx
    have hother : ∀ d ∈ ['>', '+', '~'], Starts (.leaf .combinator d.toString) d := by
      have hmarks : ∀ d ∈ ['>', '+', '~'], (d ≠ '/' ∧ d ≠ ',' ∧ d ≠ '(' ∧ d ≠ ')') ∧
          isBlank d = false ∧ isNameChar d = false ∧ d ≠ '|' ∧
            isRelation d = (Tree.leaf .combinator d.toString).isRelation := by
        rw [← List.forall_iff_forall_mem]
        decide
      intro d hd
      obtain ⟨hmark, hblank, hname, hbar, hrelation⟩ := hmarks d hd
      exact ⟨hblank, hmark, fun h => absurd (hname.symm.trans h) nofun, fun h => (hbar h).elim,
        hrelation⟩
    refine ⟨?_, nofun⟩
    simp only [isRelation, Bool.or_eq_true, beq_iff_eq] at hd
    rcases hd with ((rfl | rfl) | rfl) | rfl
    · exact hother '>' (by decide)
    · exact hother '+' (by decide)
    · exact hother '~' (by decide)
    · exact ⟨by decide, by decide, fun h => absurd h (by decide), fun _ => rfl, by decide⟩
  | className => cases hx; exact hmark (by decide) rfl rfl
  | idName => cases hx; exact hmark (by decide) rfl rfl
  | bracket ht =>
    cases hx
    cases ht with
    | intro => exact hmark (by decide) rfl rfl
  | pseudo => cases hx; exact hmark (by decide) rfl rfl
  | emptyFunctional => cases hx; exact hmark (by decide) rfl rfl
  | nesting => cases hx; exact hmark (by decide) rfl rfl
  | string hquote => cases hx; exact hmark (isQuote_mem hquote) rfl rfl
  | universal => cases hx; exact hmark (by decide) rfl rfl
  | anyElement ht =>
    cases hx
    cases ht with
    | universal => exact hmark (by decide) rfl rfl
    | tag => exact hmark (by decide) rfl rfl
  | tag hn =>
    obtain ⟨d, n, hd, hc⟩ := hn.head
    rw [hd] at hx
    cases hx
    exact hname hc rfl rfl
  | @element first _ _ _ hfirst ht =>
    obtain ⟨d, n, hd, hc⟩ := hfirst.head
    have hany : first ≠ "*" := by
      rintro rfl
      cases hd
      exact absurd hc (by decide)
    rw [hd] at hx
    cases hx
    cases ht with
    | universal => exact hname hc rfl (by simpa [Tree.beginsWithName, Tree.label] using hany)
    | tag => exact hname hc rfl (by simpa [Tree.beginsWithName, Tree.label] using hany)

theorem ComponentAt.ne_space (h : ComponentAt (.node t) x r) (htight : Tight (x ++ r)) :
    t ≠ space := by
  rintro rfl
  obtain ⟨c, y, y', rfl, hchars, -⟩ := h.head
  cases hchars
  exact absurd htight.head_not_blank (by decide)

theorem ComponentAt.reprinted (h : ComponentAt (.node t) x r) (hsimple : t.All Label.Simple)
    (hend : r = [] → k = []) (hk : Behind t k) : ComponentAt (.node t) t.chars k := by
  have hagain : ∀ {n : List Char}, t.endsInName = true → NameBefore n r → NameBefore n k :=
    fun hname hn => hn.again (hk.name hname) fun hr => .inl (hend hr)
  have helement : ∀ {p y}, ElementAt p t y r → ElementAt p t y k := by
    intro p y ht
    cases ht with
    | universal => exact .universal k
    | tag hn => exact .tag (hagain rfl hn)
  cases h with
  | @combinator c _ hc =>
    have hchars : (Tree.leaf .combinator c.toString).chars = [c] := String.toList_singleton c
    rw [hchars]
    exact .combinator hc
  | className hn => exact .className (hagain rfl hn)
  | idName hn => exact .idName (hagain rfl hn)
  | bracket ht =>
    cases ht with
    | intro => cases hsimple.label.1
  | pseudo hn =>
    rw [pseudo_chars, hn.toList]
    refine .pseudo ?_ hk.parenthesis
    cases hn with
    | single hn => exact .single (hagain rfl hn)
    | double hn => exact .double (hagain rfl hn)
  | @emptyFunctional name y ts _ _ hn =>
    have hchars : (Tree.functional name []).chars = ':' :: (y ++ '(' :: ([] ++ [')'])) := by
      change name.toList ++ ['('] ++ [')'] = _
      rw [hn.toList, List.append_assoc]
      rfl
    rw [hchars]
    exact .emptyFunctional trivia_nil (hn.again_cons (List.cons_ne_nil _ _) (by decide))
  | nesting => exact .nesting
  | @string quote inner _ hquote hinner =>
    have hchars : (Tree.leaf .string (String.ofList (quote :: inner))).chars = quote :: inner :=
      String.toList_ofList
    rw [hchars]
    exact .string hquote hinner
  | universal => exact .universal (hk.bar rfl)
  | anyElement ht =>
    rw [ht.chars]
    exact .anyElement (helement ht)
  | tag hn => exact .tag (hagain rfl hn) (hk.bar rfl)
  | @element first _ y _ hfirst ht =>
    have hchars : t.chars = first.toList ++ '|' :: y := by
      rw [ht.chars]
      simp [Namespace.chars]
    rw [hchars]
    exact .element (hfirst.again_cons (List.cons_ne_nil _ _) (by decide)) (helement ht)

end Components

end ScopedStyles.Selector
