import ScopedStyles.Selector.Basic
import ScopedStyles.Selector.Error
import ScopedStyles.Text.Blank

namespace ScopedStyles.Selector

/-- Why reading stopped, and the text from there on. -/
structure Failure where
  cause : Cause
  rest : List Char

def isNameChar (c : Char) : Bool :=
  c.isAlphanum || c == '-' || c == '_' || c == '\\' || 0x80 ≤ c.toNat

def closeComment? : List Char → Option (List Char)
  | '*' :: '/' :: rest => some rest
  | _ :: rest => closeComment? rest
  | [] => none

theorem closeComment?_suffix {cs rest : List Char} (h : closeComment? cs = some rest) :
    rest <:+ cs := by
  fun_induction closeComment? cs with
  | case1 rest' => exact Option.some.inj h ▸ ⟨['*', '/'], rfl⟩
  | case2 c rest' _ ih => exact (ih h).trans (List.suffix_cons _ _)
  | case3 => cases h

def skipTrivia (cs : List Char) : Except Failure (List Char) :=
  match cs with
  | [] => .ok []
  | '/' :: '*' :: body =>
    match h : closeComment? body with
    | some rest =>
      have := (closeComment?_suffix h).length_le
      skipTrivia rest
    | none => .error ⟨.unclosedComment, '/' :: '*' :: body⟩
  | c :: rest => if isBlank c then skipTrivia rest else .ok (c :: rest)
termination_by cs.length

theorem skipTrivia_blank {c : Char} (hc : isBlank c = true) (k : List Char) :
    skipTrivia (c :: k) = skipTrivia k := by
  have hslash : ∀ body, c = '/' → k = '*' :: body → False := by
    intro body h _
    subst h
    exact absurd hc (by decide)
  rw [skipTrivia.eq_3 _ _ hslash, if_pos hc]

/-- The longest run of name characters; a backslash takes the next character along. -/
def takeName : List Char → List Char × List Char
  | '\\' :: c :: rest => ('\\' :: c :: (takeName rest).1, (takeName rest).2)
  | c :: rest => if isNameChar c then (c :: (takeName rest).1, (takeName rest).2) else ([], c :: rest)
  | [] => ([], [])

def readName (what : Expected) (cs : List Char) : Except Failure (String × List Char) :=
  match takeName cs with
  | ([], rest) => .error ⟨.expected what, rest⟩
  | (name, rest) => .ok (String.ofList name, rest)

/-- The rest of a string up to and with its closing quote. A backslash takes the next character
along. -/
def takeQuoted (quote : Char) : List Char → Option (List Char × List Char)
  | '\\' :: c :: rest => (takeQuoted quote rest).map fun r => ('\\' :: c :: r.1, r.2)
  | '\\' :: [] => none
  | c :: rest =>
    if c = quote then some ([c], rest)
    else (takeQuoted quote rest).map fun r => (c :: r.1, r.2)
  | [] => none

def readString (quote : Char) (body : List Char) : Except Failure (String × List Char) :=
  match takeQuoted quote body with
  | some (text, rest) => .ok (String.ofList (quote :: text), rest)
  | none => .error ⟨.unclosedString, quote :: body⟩

/-- The text behind a namespace bar. The bars of `|=` and `||` are none. -/
def afterBar? : List Char → Option (List Char)
  | '|' :: '=' :: _ => none
  | '|' :: '|' :: _ => none
  | '|' :: rest => some rest
  | _ => none

def readElement (ns : Namespace) (cs : List Char) : Except Failure (Tree × List Char) :=
  match cs with
  | '*' :: rest => .ok (.node ⟨.universal, "*", some ns⟩ [], rest)
  | cs => do
    let (name, rest) ← readName .elementName cs
    .ok (.node ⟨.tag, name, some ns⟩ [], rest)

/-- A tag, which is a namespace prefix when a bar and an element follow. -/
def readTag (cs : List Char) : Except Failure (Tree × List Char) := do
  let (name, rest) ← readName .elementName cs
  match afterBar? rest with
  | some rest => readElement (.named name) rest
  | none => .ok (.leaf .tag name, rest)

def readUniversal (cs : List Char) : Except Failure (Tree × List Char) :=
  match afterBar? cs with
  | some rest => readElement (.named "*") rest
  | none => .ok (.leaf .universal "*", cs)

/-- The name of an attribute with its namespace. An empty prefix stands for no namespace. -/
def readAttributeName (cs : List Char) : Except Failure ((Option Namespace × String) × List Char) :=
  match cs with
  | '*' :: '|' :: rest => do
    let (name, rest) ← readName .attributeName rest
    .ok ((some (.named "*"), name), rest)
  | '|' :: '=' :: rest => .error ⟨.expected .attributeName, '|' :: '=' :: rest⟩
  | '|' :: rest => do
    let (name, rest) ← readName .attributeName rest
    .ok ((none, name), rest)
  | cs => do
    let (first, rest) ← readName .attributeName cs
    match afterBar? rest with
    | some rest =>
      let (name, rest) ← readName .attributeName rest
      .ok ((some (.named first), name), rest)
    | none => .ok ((none, first), rest)

def takeOperator? : List Char → Option (String × List Char)
  | '=' :: rest => some ("=", rest)
  | '~' :: '=' :: rest => some ("~=", rest)
  | '|' :: '=' :: rest => some ("|=", rest)
  | '^' :: '=' :: rest => some ("^=", rest)
  | '$' :: '=' :: rest => some ("$=", rest)
  | '*' :: '=' :: rest => some ("*=", rest)
  | _ => none

def isQuote (c : Char) : Bool :=
  c == '"' || c == '\''

def readAttributeValue (cs : List Char) : Except Failure (String × List Char) :=
  match cs with
  | c :: rest => if isQuote c then readString c rest else readName .attributeValue (c :: rest)
  | [] => .error ⟨.expected .attributeValue, []⟩

def takeFlag (cs : List Char) : Option String × List Char :=
  match takeName cs with
  | ([], rest) => (none, rest)
  | (flag, rest) => (some (String.ofList flag), rest)

def readMatch (cs : List Char) : Except Failure (Match × List Char) :=
  match takeOperator? cs with
  | none => .ok (.presence, cs)
  | some (operator, rest) => do
    let rest ← skipTrivia rest
    let (value, rest) ← readAttributeValue rest
    let rest ← skipTrivia rest
    let (flag, rest) := takeFlag rest
    let rest ← skipTrivia rest
    .ok (⟨some operator, some value, flag⟩, rest)

def readAttribute (cs : List Char) : Except Failure (Tree × List Char) := do
  let rest ← skipTrivia cs
  let ((ns, name), rest) ← readAttributeName rest
  let rest ← skipTrivia rest
  let (criterion, rest) ← readMatch rest
  match rest with
  | ']' :: rest => .ok (.node ⟨.attribute criterion, name, ns⟩ [], rest)
  | c :: rest => .error ⟨.unexpectedInAttribute c, rest⟩
  | [] => .error ⟨.unclosedBracket, []⟩

/-- What begins where no trivia, comma or closing parenthesis stands. -/
inductive Component where
  | node (t : Tree)
  | opening (name : String)

def readPseudoName (cs : List Char) : Except Failure (String × List Char) :=
  match cs with
  | ':' :: rest => do
    let (name, rest) ← readName .pseudoName rest
    .ok ("::" ++ name, rest)
  | cs => do
    let (name, rest) ← readName .pseudoName cs
    .ok (":" ++ name, rest)

def readPseudo (cs : List Char) : Except Failure (Component × List Char) := do
  let (name, rest) ← readPseudoName cs
  match rest with
  | '(' :: rest => do
    let rest ← skipTrivia rest
    match rest with
    | ')' :: rest => .ok (.node (.functional name []), rest)
    | rest => .ok (.opening name, rest)
  | rest => .ok (.node (.leaf (.pseudo false) name), rest)

def readLeaf (kind : Kind) (what : Expected) (cs : List Char) : Except Failure (Component × List Char) := do
  let (name, rest) ← readName what cs
  .ok (.node (.leaf kind name), rest)

def isRelation (c : Char) : Bool :=
  c == '>' || c == '+' || c == '~'

def readComponent (c : Char) (rest : List Char) : Except Failure (Component × List Char) :=
  if isRelation c || c == '|' then .ok (.node (.leaf .combinator c.toString), rest)
  else if c = '.' then readLeaf .className .className rest
  else if c = '#' then readLeaf .idName .idName rest
  else if c = '[' then (readAttribute rest).map fun r => (.node r.1, r.2)
  else if c = ':' then readPseudo rest
  else if c = '&' then .ok (.node (.leaf .nesting "&"), rest)
  else if isQuote c then (readString c rest).map fun r => (.node (.leaf .string r.1), r.2)
  else if c = '*' then (readUniversal rest).map fun r => (.node r.1, r.2)
  else if isNameChar c then (readTag (c :: rest)).map fun r => (.node r.1, r.2)
  else .error ⟨.unexpected c, c :: rest⟩

/-- What is left after success is a rest of `short`, and where reading failed is a rest of `long`. -/
def Within {α : Type} (rest : α → List Char) (short long : List Char) : Except Failure α → Prop
  | .ok a => rest a <:+ short
  | .error f => f.rest <:+ long

theorem Within.mono {α : Type} {rest : α → List Char} {short short' long long' : List Char}
    {r : Except Failure α} (h : Within rest short long r) (hs : short <:+ short')
    (hl : long <:+ long') : Within rest short' long' r := by
  cases r with
  | ok a => exact List.IsSuffix.trans h hs
  | error f => exact List.IsSuffix.trans h hl

theorem Within.bind {α β : Type} {rest : α → List Char} {rest' : β → List Char}
    {short mid long : List Char} {r : Except Failure α} {k : α → Except Failure β}
    (h : Within rest mid long r) (hk : ∀ a, rest a <:+ mid → Within rest' short long (k a)) :
    Within rest' short long (r >>= k) := by
  cases r with
  | ok a => exact hk a h
  | error f => exact h

theorem Within.map {α β : Type} {rest : α → List Char} {rest' : β → List Char}
    {short long : List Char} {r : Except Failure α} {f : α → β}
    (h : Within rest short long r) (hf : ∀ a, rest' (f a) = rest a) :
    Within rest' short long (r.map f) := by
  cases r with
  | ok a =>
    show rest' (f a) <:+ short
    rw [hf]
    exact h
  | error e => exact h

theorem skipTrivia_within (cs : List Char) : Within id cs cs (skipTrivia cs) := by
  fun_induction skipTrivia cs with
  | case1 => exact List.suffix_rfl
  | case2 body rest h _ ih =>
    have : rest <:+ '/' :: '*' :: body := (closeComment?_suffix h).trans ⟨['/', '*'], rfl⟩
    exact ih.mono this this
  | case3 body h => exact List.suffix_rfl
  | case4 c rest _ _ ih => exact ih.mono (List.suffix_cons _ _) (List.suffix_cons _ _)
  | case5 c rest => exact List.suffix_rfl

theorem takeName_suffix (cs : List Char) : (takeName cs).2 <:+ cs := by
  fun_induction takeName cs with
  | case1 c rest ih => exact ih.trans ⟨['\\', c], rfl⟩
  | case2 c rest _ _ ih => exact ih.trans (List.suffix_cons _ _)
  | case3 c rest => exact List.suffix_rfl
  | case4 => exact List.suffix_rfl

theorem takeName_suffix_tail {cs : List Char} (h : (takeName cs).1 ≠ []) :
    (takeName cs).2 <:+ cs.tail := by
  fun_cases takeName cs with
  | case1 c rest => exact (takeName_suffix rest).trans (List.suffix_cons _ _)
  | case2 c rest => exact takeName_suffix rest
  | case3 c rest hc hn => simp_all [takeName]
  | case4 => exact List.suffix_rfl

theorem readName_within (what : Expected) (cs : List Char) :
    Within Prod.snd cs.tail cs (readName what cs) := by
  rw [readName]
  split
  · next rest h =>
    have := takeName_suffix cs
    rwa [h] at this
  · next name rest hne h =>
    have htail : (takeName cs).1 ≠ [] → (takeName cs).2 <:+ cs.tail := takeName_suffix_tail
    rw [h] at htail
    exact htail hne

theorem takeQuoted_suffix {quote : Char} {cs : List Char} {r : List Char × List Char}
    (h : takeQuoted quote cs = some r) : r.2 <:+ cs := by
  fun_induction takeQuoted quote cs generalizing r with
  | case1 c rest ih =>
    obtain ⟨r', hr', rfl⟩ := Option.map_eq_some_iff.1 h
    exact (ih hr').trans ⟨['\\', c], rfl⟩
  | case2 => cases h
  | case3 c rest _ =>
    cases h
    exact List.suffix_cons _ _
  | case4 c rest _ _ _ ih =>
    obtain ⟨r', hr', rfl⟩ := Option.map_eq_some_iff.1 h
    exact (ih hr').trans (List.suffix_cons _ _)
  | case5 => cases h

theorem readString_within (quote : Char) (body : List Char) :
    Within Prod.snd body (quote :: body) (readString quote body) := by
  rw [readString]
  split
  · next h => exact takeQuoted_suffix h
  · exact List.suffix_rfl

theorem afterBar?_suffix {cs rest : List Char} (h : afterBar? cs = some rest) : rest <:+ cs := by
  unfold afterBar? at h
  split at h
  · cases h
  · cases h
  · cases h
    exact List.suffix_cons _ _
  · cases h

theorem readElement_within (ns : Namespace) (cs : List Char) :
    Within Prod.snd cs cs (readElement ns cs) := by
  unfold readElement
  split
  · exact List.suffix_cons _ _
  · exact ((readName_within _ _).mono (List.tail_suffix _) List.suffix_rfl).bind fun _ h => h

theorem readTag_within (c : Char) (rest : List Char) :
    Within Prod.snd rest (c :: rest) (readTag (c :: rest)) := by
  refine (readName_within _ _).bind fun r hr => ?_
  dsimp only
  split
  · next h =>
    have := (afterBar?_suffix h).trans hr
    exact (readElement_within _ _).mono this (this.trans (List.suffix_cons _ _))
  · exact hr

theorem readUniversal_within (cs : List Char) :
    Within Prod.snd cs cs (readUniversal cs) := by
  rw [readUniversal]
  split
  · next h => exact (readElement_within _ _).mono (afterBar?_suffix h) (afterBar?_suffix h)
  · exact List.suffix_rfl

theorem readAttributeName_within (cs : List Char) :
    Within Prod.snd cs cs (readAttributeName cs) := by
  have hname : ∀ {rest : List Char}, rest <:+ cs →
      Within Prod.snd cs cs (readName .attributeName rest) := fun h =>
    (readName_within _ _).mono ((List.tail_suffix _).trans h) h
  unfold readAttributeName
  split
  · next rest => exact (hname ⟨['*', '|'], rfl⟩).bind fun _ h => h
  · exact List.suffix_rfl
  · next rest _ => exact (hname (List.suffix_cons _ _)).bind fun _ h => h
  · refine (hname List.suffix_rfl).bind fun r hr => ?_
    dsimp only
    split
    · next h => exact (hname ((afterBar?_suffix h).trans hr)).bind fun _ h => h
    · exact hr

theorem takeOperator?_suffix {cs : List Char} {r : String × List Char}
    (h : takeOperator? cs = some r) : r.2 <:+ cs := by
  unfold takeOperator? at h
  split at h <;> cases h
  · exact List.suffix_cons _ _
  all_goals exact ⟨[_, _], rfl⟩

theorem readAttributeValue_within (cs : List Char) :
    Within Prod.snd cs cs (readAttributeValue cs) := by
  unfold readAttributeValue
  split
  · split
    · exact (readString_within _ _).mono (List.suffix_cons _ _) List.suffix_rfl
    · exact (readName_within _ _).mono (List.tail_suffix _) List.suffix_rfl
  · exact List.suffix_rfl

theorem takeFlag_suffix (cs : List Char) : (takeFlag cs).2 <:+ cs := by
  have := takeName_suffix cs
  unfold takeFlag
  split <;> simp_all

theorem readMatch_within (cs : List Char) : Within Prod.snd cs cs (readMatch cs) := by
  have htrivia : ∀ {rest : List Char}, rest <:+ cs → Within id cs cs (skipTrivia rest) :=
    fun h => (skipTrivia_within _).mono h h
  rw [readMatch]
  split
  · exact List.suffix_rfl
  · next h =>
    refine (htrivia (takeOperator?_suffix h)).bind fun rest h => ?_
    refine ((readAttributeValue_within _).mono h h).bind fun r h => ?_
    refine (htrivia h).bind fun rest h => ?_
    exact (htrivia ((takeFlag_suffix _).trans h)).bind fun _ h => h

theorem readAttribute_within (cs : List Char) :
    Within Prod.snd cs cs (readAttribute cs) := by
  refine (skipTrivia_within _).bind fun rest h => ?_
  refine ((readAttributeName_within _).mono h h).bind fun r h => ?_
  refine ((skipTrivia_within _).mono h h).bind fun rest h => ?_
  refine ((readMatch_within _).mono h h).bind fun r h => ?_
  dsimp only
  split
  · next rest heq => exact (List.suffix_cons ']' rest).trans (heq ▸ h)
  · next c rest _ heq => exact (List.suffix_cons c rest).trans (heq ▸ h)
  · exact List.nil_suffix

theorem readPseudoName_within (cs : List Char) :
    Within Prod.snd cs cs (readPseudoName cs) := by
  have hname : ∀ {rest : List Char}, rest <:+ cs →
      Within Prod.snd cs cs (readName .pseudoName rest) := fun h =>
    (readName_within _ _).mono ((List.tail_suffix _).trans h) h
  unfold readPseudoName
  split
  · exact (hname (List.suffix_cons _ _)).bind fun _ h => h
  · exact (hname List.suffix_rfl).bind fun _ h => h

theorem readPseudo_within (cs : List Char) : Within Prod.snd cs cs (readPseudo cs) := by
  refine (readPseudoName_within _).bind fun r h => ?_
  dsimp only
  split
  · next rest heq =>
    have hrest : rest <:+ cs := (List.suffix_cons '(' rest).trans (heq ▸ h)
    refine ((skipTrivia_within _).mono hrest hrest).bind fun rest h => ?_
    split
    · next rest heq => exact (List.suffix_cons ')' _).trans h
    · exact h
  · exact h

theorem readLeaf_within (kind : Kind) (what : Expected) (cs : List Char) :
    Within Prod.snd cs cs (readLeaf kind what cs) :=
  ((readName_within _ _).mono (List.tail_suffix _) List.suffix_rfl).bind fun _ h => h

theorem readComponent_within (c : Char) (rest : List Char) :
    Within Prod.snd rest (c :: rest) (readComponent c rest) := by
  have hrest {α : Type} {r : Except Failure (α × List Char)} (h : Within Prod.snd rest rest r) :
      Within Prod.snd rest (c :: rest) r := h.mono List.suffix_rfl (List.suffix_cons _ _)
  unfold readComponent
  split
  · exact List.suffix_rfl
  split
  · exact hrest (readLeaf_within _ _ _)
  split
  · exact hrest (readLeaf_within _ _ _)
  split
  · exact hrest ((readAttribute_within _).map fun _ => rfl)
  split
  · exact hrest (readPseudo_within _)
  split
  · exact List.suffix_rfl
  split
  · exact (readString_within _ _).map fun _ => rfl
  split
  · exact hrest ((readUniversal_within _).map fun _ => rfl)
  split
  · exact (readTag_within _ _).map fun _ => rfl
  · exact List.suffix_rfl

end ScopedStyles.Selector
