import Mathlib.Data.List.Infix
import ScopedStyles.Proofs.Selector.Component

namespace ScopedStyles.Selector

/-- White space and closed comments. -/
inductive Filler : List Char → Prop where
  | nil : Filler []
  | blank {c : Char} {g : List Char} (hc : isBlank c = true) (h : Filler g) : Filler (c :: g)
  | comment {body g : List Char} (hbody : ¬ ['*', '/'] <:+: body) (h : Filler g) :
      Filler ('/' :: '*' :: (body ++ '*' :: '/' :: g))

/-- Name characters, and backslashes that each take a character along. -/
inductive Run : List Char → Prop where
  | nil : Run []
  | char {c : Char} {n : List Char} (hc : isNameChar c = true) (hslash : c ≠ '\\') (h : Run n) :
      Run (c :: n)
  | escape (c : Char) {n : List Char} (h : Run n) : Run ('\\' :: c :: n)

/-- A run that is not empty and does not begin with white space. -/
structure IsName (n : List Char) : Prop where
  notEmpty : n ≠ []
  run : Run n
  head : ∀ c ∈ n.head?, isBlank c = false

/-- What stands behind an opening quote, the closing quote included. -/
inductive Body (quote : Char) : List Char → Prop where
  | close : Body quote [quote]
  | char {c : Char} {inner : List Char} (hquote : c ≠ quote) (hslash : c ≠ '\\')
      (h : Body quote inner) : Body quote (c :: inner)
  | escape (c : Char) {inner : List Char} (h : Body quote inner) : Body quote ('\\' :: c :: inner)

inductive IsString : List Char → Prop where
  | quoted {quote : Char} {inner : List Char} (hquote : isQuote quote = true)
      (hinner : Body quote inner) : IsString (quote :: inner)

theorem IsString.quotes {text : String} (h : IsString text.toList) :
    ∃ quote inner, text = String.ofList (quote :: inner) ∧ isQuote quote = true ∧ Body quote inner := by
  generalize hl : text.toList = l at h
  cases h with
  | @quoted quote inner hquote hinner =>
    refine ⟨quote, inner, ?_, hquote, hinner⟩
    rw [← hl, String.ofList_toList]

theorem closeComment?_eq_some_iff {cs rest : List Char} :
    closeComment? cs = some rest ↔
      ∃ body, cs = body ++ '*' :: '/' :: rest ∧ ¬ ['*', '/'] <:+: body := by
  constructor
  · intro h
    fun_induction closeComment? cs with
    | case1 rest' =>
      cases h
      exact ⟨[], rfl, by decide⟩
    | case2 c cs hne ih =>
      obtain ⟨body, rfl, hbody⟩ := ih h
      refine ⟨c :: body, rfl, ?_⟩
      intro hopen
      rcases List.infix_cons_iff.1 hopen with hfront | hlater
      · obtain ⟨k, hk⟩ := hfront
        cases hk
        exact hne _ rfl rfl
      · exact hbody hlater
    | case3 => cases h
  · rintro ⟨body, rfl, hbody⟩
    induction body with
    | nil => rfl
    | cons c body ih =>
      rw [List.cons_append, closeComment?.eq_2]
      · exact ih fun hopen => hbody (hopen.trans (List.infix_cons (List.infix_refl body)))
      · intro rest' hc hrest'
        subst hc
        cases body with
        | nil => cases hrest'
        | cons d body =>
          cases hrest'
          exact hbody ⟨[], body, rfl⟩

namespace Filler

variable {g : List Char}

theorem trivia (h : Filler g) : Trivia g := by
  induction h with
  | nil => exact trivia_nil
  | blank hc _ ih => exact fun k => (skipTrivia_blank hc _).trans (ih k)
  | @comment body g hbody _ ih =>
    intro k
    have hclose : closeComment? (body ++ '*' :: '/' :: (g ++ k)) = some (g ++ k) :=
      closeComment?_eq_some_iff.2 ⟨body, rfl, hbody⟩
    have hskip := skipTrivia_comment hclose
    rw [← ih k, ← hskip]
    simp

theorem skip (h : Filler g) {k : List Char} (hk : Tight k) : skipTrivia (g ++ k) = .ok k :=
  (h.trivia k).trans hk

theorem head_ne (h : Filler g) {d : Char} (hblank : isBlank d = false) (hslash : d ≠ '/') :
    g.head? ≠ some d := by
  intro heq
  cases h with
  | nil => cases heq
  | blank hc _ =>
    cases heq
    rw [hblank] at hc
    cases hc
  | comment _ _ =>
    cases heq
    exact hslash rfl

end Filler

theorem filler_of_skipTrivia {cs : List Char} (h : skipTrivia cs = .ok []) : Filler cs := by
  fun_induction skipTrivia cs with
  | case1 => exact .nil
  | case2 body rest hclose _ ih =>
    obtain ⟨inner, rfl, hinner⟩ := closeComment?_eq_some_iff.1 hclose
    exact .comment hinner (ih h)
  | case3 body hclose => cases h
  | case4 c rest hslash hc ih => exact .blank hc (ih h)
  | case5 c rest hslash hc => cases h

theorem Trivia.filler {g : List Char} (h : Trivia g) : Filler g := by
  apply filler_of_skipTrivia
  have hnil := h []
  rw [List.append_nil] at hnil
  exact hnil.trans tight_nil

theorem Run.take {n k : List Char} (h : Run n) (hk : EndsName k) :
    takeName (n ++ k) = (n, k) := by
  induction h with
  | nil => exact takeName_of_ends hk
  | @char c n hc hslash _ ih =>
    rw [List.cons_append, takeName.eq_2 _ _ fun _ _ heq _ => hslash heq, if_pos hc, ih]
  | escape c _ ih => rw [List.cons_append, List.cons_append, takeName, ih]

theorem Run.append {p n : List Char} (hp : Run p) (hn : Run n) : Run (p ++ n) := by
  induction hp with
  | nil => exact hn
  | char hc hslash _ ih => exact .char hc hslash ih
  | escape c _ ih => exact .escape c ih

theorem Run.takeName_dropLast {n : List Char} (h : Run n) : (takeName n.dropLast).2 = [] := by
  induction h with
  | nil => rfl
  | @char c n hc hslash _ ih =>
    cases n with
    | nil => rfl
    | cons d n =>
      rw [List.dropLast_cons_cons, takeName.eq_2 _ _ fun _ _ heq _ => hslash heq, if_pos hc]
      exact ih
  | @escape c n _ ih =>
    cases n with
    | nil => rfl
    | cons d n =>
      rw [List.dropLast_cons_cons, List.dropLast_cons_cons, takeName]
      exact ih

theorem Run.takeName_append {n : List Char} (h : Run n) (k : List Char) :
    takeName (n ++ k) = (n ++ (takeName k).1, (takeName k).2) := by
  induction h with
  | nil => rfl
  | @char c n hc hslash _ ih =>
    rw [List.cons_append, takeName.eq_2 _ _ fun _ _ heq _ => hslash heq, if_pos hc, ih]
    rfl
  | escape c _ ih =>
    rw [List.cons_append, List.cons_append, takeName, ih]
    rfl

/-- The name in front of a text is a run, unless a backslash at the end has nothing to take along. -/
theorem run_takeName {cs : List Char} (h : (takeName cs).2 ≠ []) : Run (takeName cs).1 := by
  fun_induction takeName cs with
  | case1 c rest ih => exact .escape c (ih h)
  | case2 c rest hne hc ih =>
    have hslash : c ≠ '\\' := by
      rintro rfl
      cases rest with
      | nil => exact h rfl
      | cons d rest => exact hne d rest rfl rfl
    exact .char hc hslash (ih h)
  | case3 => exact .nil
  | case4 => exact .nil

theorem NameBefore.run {n r : List Char} (h : NameBefore n r) (hr : r ≠ []) : Run n := by
  have hrun : (takeName (n ++ r)).2 ≠ [] → Run (takeName (n ++ r)).1 := run_takeName
  rw [h.2] at hrun
  exact hrun hr

theorem run_of_isNameChar {n : List Char} (hn : ∀ c ∈ n, isNameChar c = true)
    (hlast : n.getLast? ≠ some '\\') : Run n := by
  fun_induction takeName n with
  | case1 c rest ih =>
    apply Run.escape c
    cases rest with
    | nil => exact .nil
    | cons d rest =>
      refine ih (fun b hb => hn b (List.mem_cons_of_mem _ (List.mem_cons_of_mem _ hb))) ?_
      rwa [List.getLast?_cons_cons, List.getLast?_cons_cons] at hlast
  | case2 c rest hne hc ih =>
    have hslash : c ≠ '\\' := by
      rintro rfl
      cases rest with
      | nil => exact hlast rfl
      | cons d rest => exact hne d rest rfl rfl
    apply Run.char hc hslash
    cases rest with
    | nil => exact .nil
    | cons d rest =>
      refine ih (fun b hb => hn b (List.mem_cons_of_mem _ hb)) ?_
      rwa [List.getLast?_cons_cons] at hlast
  | case3 c rest _ hc => exact (hc (hn c List.mem_cons_self)).elim
  | case4 => exact .nil

theorem NameBefore.behind_run {p n r : List Char} (h : NameBefore n r) (hp : Run p) :
    NameBefore (p ++ n) r := by
  refine ⟨List.append_ne_nil_of_right_ne_nil p h.1, ?_⟩
  rw [List.append_assoc, hp.takeName_append, h.2]

namespace IsName

variable {n k : List Char}

theorem before (h : IsName n) (hk : EndsName k) : NameBefore n k :=
  ⟨h.notEmpty, h.run.take hk⟩

theorem starts (h : IsName n) :
    ∃ c m, n = c :: m ∧ isNameChar c = true ∧ isBlank c = false := by
  cases hn : n with
  | nil => exact (h.notEmpty hn).elim
  | cons c m =>
    refine ⟨c, m, rfl, ?_, h.head c (by rw [hn]; rfl)⟩
    have hrun := h.run
    rw [hn] at hrun
    cases hrun with
    | char hc => exact hc
    | escape => decide

theorem tight (h : IsName n) (k : List Char) : Tight (n ++ k) := by
  obtain ⟨c, m, rfl, hc, hblank⟩ := h.starts
  apply tight_cons hblank
  intro heq
  subst heq
  exact absurd hc (by decide)

end IsName

theorem ne_slash_of_isQuote {c : Char} (hc : isQuote c = true) : c ≠ '\\' := by
  intro heq
  subst heq
  exact absurd hc (by decide)

theorem Body.quoted {quote : Char} {inner : List Char} (h : Body quote inner)
    (hquote : isQuote quote = true) : Quoted quote inner := by
  have htake : ∀ {c : Char} (k : List Char), c ≠ '\\' → takeQuoted quote (c :: k) =
      if c = quote then some ([c], k) else (takeQuoted quote k).map fun r => (c :: r.1, r.2) := by
    intro c k hslash
    exact takeQuoted.eq_3 _ _ _ (fun _ _ heq _ => hslash heq) fun heq _ => hslash heq
  intro k
  induction h with
  | close => rw [List.singleton_append, htake k (ne_slash_of_isQuote hquote), if_pos rfl]
  | char hne hslash _ ih =>
    rw [List.cons_append, htake _ hslash, if_neg hne, ih]
    rfl
  | escape c _ ih =>
    rw [List.cons_append, List.cons_append, takeQuoted, ih]
    rfl

theorem body_of_takeQuoted {quote : Char} {cs inner r : List Char}
    (h : takeQuoted quote cs = some (inner, r)) : Body quote inner := by
  fun_induction takeQuoted quote cs generalizing inner r with
  | case1 c rest ih =>
    obtain ⟨⟨inner', r'⟩, hrest, heq⟩ := Option.map_eq_some_iff.1 h
    cases heq
    exact .escape c (ih hrest)
  | case2 => cases h
  | case3 rest hslash hslash' =>
    cases h
    exact .close
  | case4 c rest hslash hslash' hc ih =>
    obtain ⟨⟨inner', r'⟩, hrest, heq⟩ := Option.map_eq_some_iff.1 h
    cases heq
    refine .char hc ?_ (ih hrest)
    intro heq
    cases rest with
    | nil => exact hslash' heq rfl
    | cons d rest => exact hslash d rest heq rfl
  | case5 => cases h

theorem Quoted.body {quote : Char} {inner : List Char} (h : Quoted quote inner) :
    Body quote inner :=
  body_of_takeQuoted (h [])

def space : Tree := .leaf .combinator " "

def bar : Tree := .leaf .combinator "|"

namespace Tree

def endsInName (t : Tree) : Bool :=
  match t.label.kind with
  | .tag | .className | .idName | .pseudo false => true
  | _ => false

def beginsWithName (t : Tree) : Bool :=
  match t.label.kind with
  | .tag => t.label.ns != some (.named "*")
  | .universal => t.label.ns.isSome && t.label.ns != some (.named "*")
  | _ => false

def isPlain (t : Tree) : Bool :=
  match t.label.kind with
  | .tag | .universal => t.label.ns.isNone
  | _ => false

/-- One of the combinators that need no space around them. -/
def isRelation (t : Tree) : Bool :=
  t.label.isCombinator && ([">", "+", "~"].contains t.label.value)

end Tree

structure Ordered (nodes : List Tree) : Prop where
  first : nodes.head? ≠ some space
  last : nodes.getLast? ≠ some space
  afterSpace : ∀ {front later : List Tree} {t u : Tree}, nodes = front ++ t :: space :: u :: later →
    t.label.isCombinator = false ∧ u ≠ space ∧ u.isRelation = false
  afterName : ∀ {front later : List Tree} {t u : Tree}, nodes = front ++ t :: u :: later →
    t.endsInName = true → u.beginsWithName = false
  afterPlain : ∀ {front later : List Tree} {t : Tree}, nodes = front ++ t :: bar :: later →
    t.isPlain = true → later.head? = some bar

inductive Prefixed : Option Namespace → Prop where
  | none : Prefixed none
  | any : Prefixed (some (.named "*"))
  | named {name : String} (hname : IsName name.toList) : Prefixed (some (.named name))

inductive CanonicalMatch : Match → Prop where
  | presence : CanonicalMatch .presence
  | full {operator value : String} {flag : Option String}
      (hoperator : operator ∈ ["=", "~=", "|=", "^=", "$=", "*="])
      (hvalue : IsName value.toList ∨ IsString value.toList)
      (hflag : ∀ name ∈ flag, IsName name.toList) :
      CanonicalMatch ⟨some operator, some value, flag⟩

inductive IsPseudoName : String → Prop where
  | single {name : String} (hname : IsName name.toList) : IsPseudoName (":" ++ name)
  | double {name : String} (hname : IsName name.toList) : IsPseudoName ("::" ++ name)

inductive CanonicalNode : Tree → Prop where
  | tag {ns : Option Namespace} {name : String} (hns : Prefixed ns) (hname : IsName name.toList) :
      CanonicalNode (.node ⟨.tag, name, ns⟩ [])
  | universal {ns : Option Namespace} (hns : Prefixed ns) :
      CanonicalNode (.node ⟨.universal, "*", ns⟩ [])
  | className {name : String} (hname : IsName name.toList) : CanonicalNode (.leaf .className name)
  | idName {name : String} (hname : IsName name.toList) : CanonicalNode (.leaf .idName name)
  | bracket {m : Match} {name : String} {ns : Option Namespace} (hns : Prefixed ns)
      (hname : IsName name.toList) (hm : CanonicalMatch m) :
      CanonicalNode (.node ⟨.attribute m, name, ns⟩ [])
  | pseudo {name : String} (hname : IsPseudoName name) :
      CanonicalNode (.leaf (.pseudo false) name)
  | functional {name : String} {args : List (List Tree)} (hname : IsPseudoName name)
      (hargs : ∀ nodes ∈ args, nodes ≠ [] ∧ Ordered nodes)
      (hnodes : ∀ nodes ∈ args, ∀ t ∈ nodes, CanonicalNode t) :
      CanonicalNode (.functional name (args.map .selector))
  | nesting : CanonicalNode (.leaf .nesting "&")
  | string {text : String} (htext : IsString text.toList) : CanonicalNode (.leaf .string text)
  | combinator {c : Char} (hc : c ∈ [' ', '>', '+', '~', '|']) :
      CanonicalNode (.leaf .combinator c.toString)

structure CanonicalSelector (nodes : List Tree) : Prop where
  notEmpty : nodes ≠ []
  ordered : Ordered nodes
  nodes : ∀ t ∈ nodes, CanonicalNode t

/-- A list of selectors that has a written form. -/
inductive Canonical : Tree → Prop where
  | root {selectors : List (List Tree)} (hsome : selectors ≠ [])
      (hselectors : ∀ nodes ∈ selectors, CanonicalSelector nodes) :
      Canonical (.root (selectors.map .selector))

end ScopedStyles.Selector
