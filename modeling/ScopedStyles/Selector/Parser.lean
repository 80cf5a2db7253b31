import ScopedStyles.Selector.Reader

namespace ScopedStyles.Selector

/-- An argument list being read: its closed selectors and the nodes of the open one, both newest
first. -/
structure Frame where
  selectors : List Tree
  nodes : List Tree

namespace Frame

def empty : Frame := ⟨[], []⟩

def push (f : Frame) (t : Tree) : Frame :=
  { f with nodes := t :: f.nodes }

def close (f : Frame) : List Tree :=
  (Tree.selector f.nodes.reverse :: f.selectors).reverse

def next (f : Frame) : Frame :=
  ⟨Tree.selector f.nodes.reverse :: f.selectors, []⟩

/-- Space in front of `c` separates the last node from it, unless a combinator does. -/
def separate (f : Frame) (spaced : Bool) (c : Char) : Frame :=
  match f.nodes with
  | last :: _ =>
    if spaced && !last.label.isCombinator && !isRelation c then f.push (.leaf .combinator " ") else f
  | [] => f

end Frame

/-- The innermost list being read and the pseudos around it, innermost first, each with the list it
stands in. -/
structure Stack where
  frame : Frame
  outer : List (String × Frame)

inductive Progress where
  | done (selectors : List Tree)
  | more (stack : Stack) (rest : List Char)

def Stack.add (s : Stack) (frame : Frame) : Component → Stack
  | .node t => ⟨frame.push t, s.outer⟩
  | .opening name => ⟨.empty, (name, frame) :: s.outer⟩

/-- What the next token makes of the stack. `spaced` tells whether trivia stood before it. -/
def stepToken (s : Stack) (spaced : Bool) (cs : List Char) : Except Failure Progress :=
  match cs with
  | [] =>
    if s.frame.nodes.isEmpty then .error ⟨.emptySelector, []⟩
    else if s.outer.isEmpty then .ok (.done s.frame.close)
    else .error ⟨.unclosedParenthesis, []⟩
  | ',' :: rest =>
    if s.frame.nodes.isEmpty then .error ⟨.emptySelector, ',' :: rest⟩
    else .ok (.more ⟨s.frame.next, s.outer⟩ rest)
  | ')' :: rest =>
    if s.frame.nodes.isEmpty then .error ⟨.emptySelector, ')' :: rest⟩
    else
      match s.outer with
      | [] => .error ⟨.unexpected ')', ')' :: rest⟩
      | (name, frame) :: outer =>
        .ok (.more ⟨frame.push (.functional name s.frame.close), outer⟩ rest)
  | c :: rest => do
    let (component, rest) ← readComponent c rest
    .ok (.more (s.add (s.frame.separate spaced c) component) rest)

def step (s : Stack) (cs : List Char) : Except Failure Progress := do
  let rest ← skipTrivia cs
  stepToken s (rest.length != cs.length) rest

def Progress.rest : Progress → List Char
  | done _ => []
  | more _ rest => rest

theorem stepToken_within (s : Stack) (spaced : Bool) (cs : List Char) :
    Within Progress.rest cs.tail cs (stepToken s spaced cs) := by
  unfold stepToken
  split
  · repeat' split
    all_goals exact List.suffix_rfl
  · split <;> exact List.suffix_rfl
  · repeat' split
    all_goals exact List.suffix_rfl
  · exact (readComponent_within _ _).bind fun _ h => h

theorem step_within (s : Stack) (cs : List Char) :
    Within Progress.rest cs cs (step s cs) :=
  (skipTrivia_within _).bind fun _ h =>
    (stepToken_within _ _ _).mono ((List.tail_suffix _).trans h) h

theorem step_shorter {s s' : Stack} {cs rest : List Char} (h : step s cs = .ok (.more s' rest)) :
    rest.length < cs.length := by
  obtain ⟨tokens, htrivia, htoken⟩ :
      ∃ tokens, skipTrivia cs = .ok tokens ∧
        stepToken s (tokens.length != cs.length) tokens = .ok (.more s' rest) := by
    unfold step at h
    cases htrivia : skipTrivia cs with
    | ok tokens => exact ⟨tokens, rfl, by rw [htrivia] at h; exact h⟩
    | error f => rw [htrivia] at h; cases h
  have hle : tokens.length ≤ cs.length := by
    have := skipTrivia_within cs
    rw [htrivia] at this
    exact List.IsSuffix.length_le this
  have hsuffix : rest <:+ tokens.tail := by
    have := stepToken_within s (tokens.length != cs.length) tokens
    rw [htoken] at this
    exact this
  cases tokens with
  | nil =>
    simp only [stepToken] at htoken
    repeat' split at htoken
    all_goals cases htoken
  | cons c tokens =>
    have := hsuffix.length_le
    simp only [List.tail_cons, List.length_cons] at *
    omega

def readList (s : Stack) (cs : List Char) : Except Failure (List Tree) :=
  match h : step s cs with
  | .error f => .error f
  | .ok (.done selectors) => .ok selectors
  | .ok (.more s rest) =>
    have := step_shorter h
    readList s rest
termination_by cs.length

def Stack.start : Stack := ⟨.empty, []⟩

def parse (text : String) : Except Error Tree :=
  match readList .start text.toList with
  | .ok selectors => .ok (.root selectors)
  | .error f => .error ⟨f.cause, text.utf8ByteSize - (String.ofList f.rest).utf8ByteSize⟩

theorem readList_of_done {s : Stack} {cs : List Char} {selectors : List Tree}
    (h : step s cs = .ok (.done selectors)) : readList s cs = .ok selectors := by
  rw [readList]
  split <;> simp_all

theorem readList_of_more {s s' : Stack} {cs rest : List Char}
    (h : step s cs = .ok (.more s' rest)) : readList s cs = readList s' rest := by
  rw [readList]
  split <;> simp_all

theorem readList_of_error {s : Stack} {cs : List Char} {f : Failure}
    (h : step s cs = .error f) : readList s cs = .error f := by
  rw [readList]
  split <;> simp_all

end ScopedStyles.Selector
