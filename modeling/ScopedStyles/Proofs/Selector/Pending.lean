import ScopedStyles.Proofs.Selector.Printed
import ScopedStyles.Proofs.Selector.Moves

namespace ScopedStyles.Selector

theorem compoundChars_append (a b : List Tree) :
    compoundChars (a ++ b) = compoundChars a ++ compoundChars b := by
  induction a with
  | nil => rfl
  | cons t a ih =>
    change t.chars ++ compoundChars (a ++ b) = t.chars ++ compoundChars a ++ compoundChars b
    rw [ih, List.append_assoc]

def closedChars (ts : List Tree) : List Char :=
  ts.flatMap fun t => t.chars ++ [',']

theorem laterChars_snoc (ts : List Tree) (t : Tree) :
    laterChars (ts ++ [t]) = ',' :: (closedChars ts ++ t.chars) := by
  induction ts with
  | nil => exact congrArg (',' :: ·) (List.append_nil t.chars)
  | cons u ts ih =>
    change ',' :: u.chars ++ laterChars (ts ++ [t]) = ',' :: ((u.chars ++ [',']) ++ closedChars ts ++ t.chars)
    rw [ih]
    simp

theorem listChars_snoc (ts : List Tree) (t : Tree) :
    listChars (ts ++ [t]) = closedChars ts ++ t.chars := by
  cases ts with
  | nil => exact List.append_nil t.chars
  | cons u ts =>
    change u.chars ++ laterChars (ts ++ [t]) = (u.chars ++ [',']) ++ closedChars ts ++ t.chars
    rw [laterChars_snoc]
    simp

theorem laterChars_append (ts us : List Tree) :
    laterChars (ts ++ us) = laterChars ts ++ laterChars us := by
  induction ts with
  | nil => rfl
  | cons t ts ih =>
    change ',' :: t.chars ++ laterChars (ts ++ us) = ',' :: t.chars ++ laterChars ts ++ laterChars us
    rw [ih, List.append_assoc]

theorem listChars_append {ts us : List Tree} (hts : ts ≠ []) (hus : us ≠ []) :
    listChars (ts ++ us) = listChars ts ++ ',' :: listChars us := by
  cases ts with
  | nil => exact (hts rfl).elim
  | cons t ts =>
    cases us with
    | nil => exact (hus rfl).elim
    | cons u us =>
      change t.chars ++ laterChars (ts ++ u :: us) =
        t.chars ++ laterChars ts ++ ',' :: (u.chars ++ laterChars us)
      rw [laterChars_append, List.append_assoc]
      rfl

def Frame.chars (f : Frame) : List Char :=
  closedChars f.selectors.reverse ++ compoundChars f.nodes.reverse

/-- The pseudos around a list, printed up to the list. -/
def outerChars : List (String × Frame) → List Char
  | [] => []
  | (name, f) :: outer => outerChars outer ++ f.chars ++ (Component.opening name).chars

/-- What has been read so far, printed. -/
def Stack.chars (s : Stack) : List Char :=
  outerChars s.outer ++ s.frame.chars

theorem Frame.push_chars (f : Frame) (t : Tree) : (f.push t).chars = f.chars ++ t.chars := by
  unfold Frame.chars Frame.push
  rw [List.reverse_cons, compoundChars_append, List.append_assoc]
  exact congrArg _ (congrArg _ (List.append_nil t.chars))

theorem Frame.close_chars (f : Frame) : listChars f.close = f.chars := by
  unfold Frame.close Frame.chars
  rw [List.reverse_cons, listChars_snoc]
  rfl

theorem selector_chars (nodes : List Tree) : (Tree.selector nodes).chars = compoundChars nodes :=
  rfl

theorem Frame.next_chars (f : Frame) : f.next.chars = f.chars ++ [','] := by
  unfold Frame.next Frame.chars closedChars
  rw [List.reverse_cons, List.flatMap_append]
  simp [selector_chars, compoundChars]

theorem functional_chars (name : String) (selectors : List Tree) :
    (Tree.functional name selectors).chars
      = (Component.opening name).chars ++ listChars selectors ++ [')'] := by
  change name.toList ++ '(' :: listChars selectors ++ [')'] = _
  simp [Component.chars]

theorem Stack.closed_chars {s : Stack} {name : String} {frame : Frame} {outer : List (String × Frame)}
    (houter : s.outer = (name, frame) :: outer) :
    Stack.chars ⟨frame.push (.functional name s.frame.close), outer⟩ = s.chars ++ [')'] := by
  unfold Stack.chars
  rw [houter, Frame.push_chars, functional_chars, Frame.close_chars]
  simp [outerChars]

theorem Stack.add_chars (s : Stack) (f : Frame) (comp : Component) :
    (s.add f comp).chars = outerChars s.outer ++ f.chars ++ comp.chars := by
  cases comp with
  | node t =>
    change outerChars s.outer ++ (f.push t).chars = _
    rw [Frame.push_chars, List.append_assoc]
    rfl
  | opening name => exact List.append_nil _

/-- The space that is printed in front of the next token. -/
def Frame.gap (f : Frame) (spaced : Bool) : List Char → List Char
  | c :: _ =>
    if c = ',' ∨ c = ')' then []
    else
      match f.nodes with
      | last :: _ => if spaced && !last.label.isCombinator && !isRelation c then [' '] else []
      | [] => []
  | [] => []

theorem Frame.gap_false (f : Frame) (tokens : List Char) : f.gap false tokens = [] := by
  unfold Frame.gap
  split
  · split
    · rfl
    · split
      · rfl
      · rfl
  · rfl

theorem Frame.gap_cases (f : Frame) (spaced : Bool) (tokens : List Char) :
    f.gap spaced tokens = [] ∨ f.gap spaced tokens = [' '] := by
  unfold Frame.gap
  split
  · split
    · exact .inl rfl
    · split
      · split
        · exact .inr rfl
        · exact .inl rfl
      · exact .inl rfl
  · exact .inl rfl

theorem Frame.gap_cons (f : Frame) (spaced : Bool) {c : Char} (hcomma : c ≠ ',') (hclose : c ≠ ')')
    (rest : List Char) :
    f.gap spaced (c :: rest) = match f.nodes with
      | last :: _ => if spaced && !last.label.isCombinator && !isRelation c then [' '] else []
      | [] => [] :=
  if_neg (not_or.2 ⟨hcomma, hclose⟩)

/-- The space is the descendant combinator that the parser puts there, if it puts one. -/
theorem Frame.separate_gap (f : Frame) (spaced : Bool) {c : Char} (hcomma : c ≠ ',') (hclose : c ≠ ')')
    (rest : List Char) :
    (f.separate spaced c).chars = f.chars ++ f.gap spaced (c :: rest) ∧
      f.separate (f.gap spaced (c :: rest) != []) c = f.separate spaced c := by
  have hgap := f.gap_cons spaced hcomma hclose rest
  cases hnodes : f.nodes with
  | nil =>
    rw [hnodes] at hgap
    unfold Frame.separate
    rw [hnodes, hgap]
    exact ⟨(List.append_nil _).symm, rfl⟩
  | cons last nodes =>
    have hseparate : ∀ b, f.separate b c =
        if b && !last.label.isCombinator && !isRelation c then f.push (.leaf .combinator " ")
        else f := by
      intro b
      unfold Frame.separate
      rw [hnodes]
    rw [hnodes] at hgap
    by_cases hspace : (spaced && !last.label.isCombinator && !isRelation c) = true
    · rw [hgap.trans (if_pos hspace), hseparate, hseparate, if_pos hspace]
      refine ⟨f.push_chars _, if_pos ?_⟩
      simp only [Bool.and_eq_true] at hspace ⊢
      exact ⟨⟨rfl, hspace.1.2⟩, hspace.2⟩
    · rw [hgap.trans (if_neg hspace), hseparate, hseparate, if_neg hspace]
      exact ⟨(List.append_nil _).symm, if_neg Bool.false_ne_true⟩

theorem trivia_gap (f : Frame) (spaced : Bool) (tokens : List Char) :
    Trivia (f.gap spaced tokens) := by
  rcases f.gap_cases spaced tokens with h | h
  · rw [h]
    exact trivia_nil
  · rw [h]
    exact trivia_space

end ScopedStyles.Selector
