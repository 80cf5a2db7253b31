import ScopedStyles.Css.Piece
import ScopedStyles.Css.Selector.Attribute

namespace ScopedStyles.Css

/-- What may not follow any more. -/
structure Mode where
  behindElement : Bool
  behindScrollbar : Bool
  behindParts : Bool
  behindSlotted : Bool
  closed : Bool
  single : Bool
  deriving DecidableEq

namespace Mode

def start : Mode := ⟨false, false, false, false, false, false⟩

def close (m : Mode) : Mode := { m with closed := true }

def closeSingle (m : Mode) : Mode := { m with closed := true, single := true }

def isLast (m : Mode) : Bool :=
  m.behindElement || m.behindParts || m.behindSlotted

def takesElement (m : Mode) : Bool :=
  !m.behindElement && !m.closed

end Mode

def scrollbarElements : List String :=
  ["-webkit-scrollbar", "-webkit-scrollbar-button", "-webkit-scrollbar-track",
    "-webkit-scrollbar-track-piece", "-webkit-scrollbar-thumb", "-webkit-scrollbar-corner",
    "-webkit-resizer"]

def knownElements : List String :=
  shortPseudoElements ++ scrollbarElements ++
    ["details-content", "target-text", "search-text", "spelling-error", "grammar-error",
      "selection", "-moz-selection", "placeholder", "-webkit-input-placeholder",
      "-moz-placeholder", "-ms-input-placeholder", "marker", "backdrop", "-webkit-backdrop",
      "file-selector-button", "-webkit-file-upload-button", "-ms-browse", "cue", "cue-region",
      "view-transition"]

def structuralClasses : List String :=
  ["first-child", "last-child", "only-child", "root", "empty", "scope", "host", "first-of-type",
    "last-of-type", "only-of-type"]

def actionClasses : List String :=
  ["hover", "active", "focus", "focus-within", "focus-visible"]

def scrollbarClasses : List String :=
  ["horizontal", "vertical", "decrement", "increment", "start", "end", "double-button",
    "single-button", "no-button", "corner-present", "window-inactive"]

def knownClasses : List String :=
  actionClasses ++ scrollbarClasses ++
    ["current", "past", "future", "playing", "paused", "seeking", "stalled", "buffering", "muted",
      "volume-locked", "fullscreen", "-webkit-full-screen", "-moz-full-screen", "-ms-fullscreen",
      "open", "closed", "modal", "picture-in-picture", "popover-open", "defined", "any-link",
      "-webkit-any-link", "-moz-any-link", "link", "local-link", "target", "target-within",
      "visited", "enabled", "disabled", "read-only", "-moz-read-only", "read-write",
      "-moz-read-write", "placeholder-shown", "-moz-placeholder-shown", "-ms-placeholder-shown",
      "default", "checked", "indeterminate", "blank", "valid", "invalid", "in-range",
      "out-of-range", "required", "optional", "user-valid", "user-invalid", "autofill",
      "-webkit-autofill", "-o-autofill"]

def countingClasses : List String :=
  ["nth-child", "nth-last-child", "nth-of-type", "nth-last-of-type", "nth-col", "nth-last-col"]

/-- Pseudo-classes that pass over selectors which they do not understand. -/
def forgivingClasses : List String :=
  ["is", "where", "-webkit-any", "-moz-any"]

def knownName (known : List String) (name : String) : String :=
  if known.contains name.toLower then name.toLower else name

def readClassName (mode : Mode) (place : Source) (name : String) : Except Failure Part :=
  let word := name.toLower
  let part : Part := .pseudoClass (knownName (structuralClasses ++ knownClasses) name)
  if mode.behindSlotted then .error ⟨.misplaced, place⟩
  else if !mode.isLast && structuralClasses.contains word then .ok part
  else if word = "local" ∨ word = "global" then .error ⟨.ambiguousClass, place⟩
  else if mode.behindScrollbar then
    if word ∈ scrollbarClasses ++ ["enabled", "disabled", "hover", "active"] then .ok part
    else .error ⟨.pseudoClassBehindScrollbar, place⟩
  else if mode.behindElement then
    if word ∈ actionClasses then .ok part else .error ⟨.pseudoClassBehindPseudoElement, place⟩
  else if word ∈ scrollbarClasses then .error ⟨.pseudoClassNeedsScrollbar, place⟩
  else .ok part

def Mode.behindKnown (m : Mode) (word : String) : Mode :=
  { m with
    behindElement := true, behindScrollbar := m.behindScrollbar || word ∈ scrollbarElements }

def slottedElements : List String :=
  ["before", "after", "marker", "placeholder", "-webkit-input-placeholder", "-moz-placeholder",
    "-ms-input-placeholder", "file-selector-button", "-webkit-file-upload-button", "-ms-browse"]

def readElementName (mode : Mode) (name : String) : Part × Mode :=
  let word := name.toLower
  if word ∈ knownElements then (.pseudoElement true word, mode.behindKnown word)
  else (.pseudoElement false name, mode)

mutual

def Value.broken? : Value → Option (Token × Source)
  | .token t n => if t.isBroken then some (t, n) else none
  | .block _ _ body _ => firstBroken? body

def firstBroken? : List Value → Option (Token × Source)
  | [] => none
  | v :: vs => v.broken?.or (firstBroken? vs)

end

def readArguments (c : Cursor) : Except Failure (List Char) :=
  match firstBroken? c.values with
  | some (t, n) => .error ⟨.unexpected t, n⟩
  | none => .ok (valuesChars c.values)

def readPartNames (stop place : Source) : List Value → Except Failure (List String)
  | [] => .ok []
  | .token (.ident name) _ :: vs =>
    (readPartNames stop (⟨vs, stop⟩ : Cursor).place vs).map (name :: ·)
  | v :: vs =>
    if v.isTrivia then readPartNames stop place vs else .error ⟨.unexpected v.head, place⟩

def readParts (c : Cursor) : Except Failure Part :=
  if c.skipTrivia.isEnd then .error ⟨.endOfInput, c.stop⟩
  else (readPartNames c.stop c.place c.values).map .parts

def readLanguage (c : Cursor) : Except Failure (List Char) :=
  let language (name : String) (rest : List Value) : Except Failure (List Char) := do
    (c.moveTo rest).expectEnd
    .ok (nameChars name)
  match c.skipTrivia.values with
  | .token (.ident name) _ :: rest => language name rest
  | .token (.string name) _ :: rest => language name rest
  | v :: _ => .error ⟨.unexpected v.head, c.place⟩
  | [] => .error ⟨.endOfInput, c.stop⟩

def readDirection (c : Cursor) : Except Failure (List Char) :=
  match c.skipTrivia.values with
  | [] => .error ⟨.endOfInput, c.stop⟩
  | v :: rest =>
    match v with
    | .token (.ident name) _ =>
      if name.toLower = "ltr" ∨ name.toLower = "rtl" then do
        (c.moveTo rest).expectEnd
        .ok name.toLower.toList
      else .error ⟨.unexpected v.head, c.place⟩
    | v => .error ⟨.unexpected v.head, c.place⟩

def readClass (c : Cursor) : Except Failure (Part × Cursor) :=
  match c.skipComments.values with
  | .token (.ident name) _ :: rest => .ok (.className name, c.moveTo rest)
  | v :: _ => .error ⟨.classNeedsName v.head, c.place⟩
  | [] => .error ⟨.endOfInput, c.stop⟩

def combinatorOf? : Value → Option Combinator
  | .token (.delim c) _ => Combinator.ofChar? c
  | _ => none

def readCombinator? (c : Cursor) : Option (Combinator × Cursor) :=
  match c.skipTrivia.values with
  | [] => none
  | v :: rest =>
    match combinatorOf? v with
    | some combinator => some (combinator, c.moveTo rest)
    | none =>
      if (c.values.takeWhile Value.isTrivia).any Value.isSpace then
        some (.descendant, c.skipTrivia)
      else none

/-- In front of all else the pseudo-class for the element itself says nothing. -/
def dropScope : List Part → List Part
  | .pseudoClass "scope" :: ps => ps
  | ps => ps

def readOf? (c : Cursor) : Option Cursor :=
  match c.skipTrivia.values with
  | .token (.ident word) _ :: rest => if word.toLower = "of" then some (c.moveTo rest) else none
  | _ => none

/-- Reading that notes whether an ampersand has been read, also where it fails. -/
abbrev Reading (α : Type) := ExceptT Failure (StateM Bool) α

namespace Reading

variable {α : Type}

def result (x : Reading α) : Except Failure α × Bool :=
  x.run.run false

def whole (x : Reading α) : Reading α := do
  match x.result with
  | (.ok a, noted) =>
    modify (· || noted)
    pure a
  | (.error f, _) => throw f

def apart (x : Reading α) : Reading α :=
  liftM x.result.1

def attempt (x : Reading α) : Reading (Option α) := do
  let (result, noted) := x.result
  modify (· || noted)
  pure result.toOption

def nesting : Reading Part := do
  set true
  pure .nesting

end Reading

def forgive {α : Type} (read : Cursor → Reading α) (c : Cursor) : Reading (List α) := do
  let selectors ← c.splitCommas.mapM fun piece => (read piece).attempt
  pure (selectors.filterMap id)

mutual

def readSelector : Nat → Mode → Cursor → Reading (List Part)
  | 0, _, c => throw ⟨.endOfInput, c.place⟩
  | fuel + 1, mode, c => do
    let (parts, rest) ← readCompounds fuel mode false c
    rest.expectEnd
    pure parts

def readRelative : Nat → Mode → Cursor → Reading (List Part)
  | 0, _, c => throw ⟨.endOfInput, c.place⟩
  | fuel + 1, mode, c =>
    match c.skipTrivia.values with
    | [] => throw ⟨.endOfInput, c.stop⟩
    | v :: rest => do
      match combinatorOf? v with
      | some combinator => pure (.combinator combinator :: (← readSelector fuel mode (c.moveTo rest)))
      | none => readSelector fuel mode c

/-- Compounds with combinators between them. `later` tells whether a combinator stands in front. -/
def readCompounds : Nat → Mode → Bool → Cursor → Reading (List Part × Cursor)
  | 0, _, _, c => throw ⟨.endOfInput, c.place⟩
  | fuel + 1, mode, later, c => do
    let (parts, mode', rest) ← readCompound fuel mode c.skipTrivia
    if parts.isEmpty then
      throw ⟨if later then .danglingCombinator else .emptySelector, rest.place⟩
    else if mode'.isLast then
      match rest.skipTrivia.values with
      | v :: _ => throw ⟨.behindPseudoElement v.head, rest.place⟩
      | [] => pure (parts, rest.moveTo [])
    else
      match readCombinator? rest with
      | some (combinator, rest) =>
        if mode.single then throw ⟨.misplaced, rest.place⟩
        else
          let (parts', rest) ← readCompounds fuel mode' true rest
          pure (parts ++ .combinator combinator :: parts', rest)
      | none => pure (parts, rest)

/-- An ampersand and an element or universal selector if they are there, and the simple selectors
behind them. -/
def readCompound : Nat → Mode → Cursor → Reading (List Part × Mode × Cursor)
  | 0, _, c => throw ⟨.endOfInput, c.place⟩
  | fuel + 1, mode, c => do
    let (front, c) : List Part × Cursor ←
      match c.values with
      | .token (.delim '&') _ :: rest => do pure ([← Reading.nesting], c.moveTo rest)
      | _ => pure ([], c)
    let (type, c) ← readType c
    if type.isSome && mode.isLast then throw ⟨.misplaced, c.place⟩
    else
      let (parts, mode, c) ← readSimples fuel mode c
      pure (front ++ type.toList ++ parts, mode, c)

def readSimples : Nat → Mode → Cursor → Reading (List Part × Mode × Cursor)
  | 0, _, c => throw ⟨.endOfInput, c.place⟩
  | fuel + 1, mode, c => do
    match ← readSimple fuel mode c with
    | some (part, mode, c) =>
      let (parts, mode, c) ← readSimples fuel mode c
      pure (part :: parts, mode, c)
    | none => pure ([], mode, c)

def readSimple : Nat → Mode → Cursor → Reading (Option (Part × Mode × Cursor))
  | 0, _, c => throw ⟨.endOfInput, c.place⟩
  | fuel + 1, mode, start =>
    match start.skipComments.values with
    | [] => pure none
    | v :: rest =>
      let c := start.moveTo rest
      let plain (part : Except Failure (Part × Cursor)) : Reading (Option (Part × Mode × Cursor)) :=
        if mode.isLast then throw ⟨.behindPseudoElement v.head, start.place⟩
        else liftM (part.map fun (part, c) => some (part, mode, c))
      match v with
      | .token (.idHash name) _ => plain (.ok (.idName name, c))
      | .token (.delim '.') _ => plain (readClass c)
      | .block (.opening .square) _ body stop => plain ((readAttribute ⟨body, stop⟩).map (·, c))
      | .token (.delim '&') _ => do pure (some (← Reading.nesting, mode, c))
      | .token .colon _ => do pure (some (← readPseudo fuel mode c))
      | _ => pure none

def readPseudo : Nat → Mode → Cursor → Reading (Part × Mode × Cursor)
  | 0, _, c => throw ⟨.endOfInput, c.place⟩
  | fuel + 1, mode, c => do
    let place := c.place
    let (double, c) : Bool × Cursor :=
      match c.skipComments.values with
      | .token .colon _ :: rest => (true, c.moveTo rest)
      | _ => (false, c)
    let isElement (name : String) : Bool := double || shortPseudoElements.contains name.toLower
    match c.skipComments.values with
    | .token (.ident name) _ :: rest =>
      let c := c.moveTo rest
      if isElement name then
        if !mode.takesElement || mode.behindSlotted && !slottedElements.contains name.toLower then
          throw ⟨.misplaced, c.place⟩
        else
          let (part, mode) := readElementName mode name
          pure (part, mode, c)
      else pure (← readClassName mode place name, mode, c)
    | .block (.function name) _ body stop :: rest =>
      let inside : Cursor := ⟨body, stop⟩
      let c := c.moveTo rest
      if isElement name then
        if mode.takesElement then
          let (part, mode) ← readElementOf fuel mode name inside c
          pure (part, mode, c)
        else throw ⟨.misplaced, inside.place⟩
      else pure (← readFunctional fuel mode name inside, mode, c)
    | v :: rest => throw ⟨.pseudoNeedsName v.head, (c.moveTo rest).placeBehind v⟩
    | [] => throw ⟨.endOfInput, c.stop⟩

def readElementOf : Nat → Mode → String → Cursor → Cursor → Reading (Part × Mode)
  | 0, _, _, c, _ => throw ⟨.endOfInput, c.place⟩
  | fuel + 1, mode, name, c, behind => do
    let word := name.toLower
    if word = "part" ∨ word = "slotted" then
      if mode.isLast then throw ⟨.misplaced, c.place⟩
      else if word = "part" then pure (← readParts c, { mode with behindParts := true })
      else
        let selector ← (readSelector fuel mode.closeSingle c).whole
        pure (.elementOf word selector, { mode with behindSlotted := true })
    else
      let described := word = "cue" ∨ word = "cue-region"
      let part : Part ←
        if described then do pure (.elementOf word (← (readSelector fuel .start c).apart))
        else do pure (.functional 2 name (← readArguments c))
      if mode.behindSlotted then throw ⟨.misplaced, behind.place⟩
      else pure (part, if described then mode.behindKnown word else mode)

/-- A pseudo-class with the given arguments. Ampersands among counted siblings and in selectors whose
names are kept or local are not of the selector around them. -/
def readFunctional : Nat → Mode → String → Cursor → Reading Part
  | 0, _, _, c => throw ⟨.endOfInput, c.place⟩
  | fuel + 1, mode, name, c => do
    let word := name.toLower
    if word ∈ forgivingClasses then
      pure (.matching word (← forgive (readSelector fuel mode.close) c))
    else if word = "has" then
      pure (.matching word ((← forgive (readRelative fuel mode) c).map dropScope))
    else if word = "not" then
      let selectors := c.splitCommas.mapM fun piece => readSelector fuel mode.close piece
      pure (.matching word (← Reading.whole selectors))
    else if mode.isLast then throw ⟨.misplaced, c.place⟩
    else if word ∈ countingClasses then
      let (positions, c) ← Progression.read c
      match if countingClasses.idxOf word < 2 then readOf? c else none with
      | some c =>
        let among ← (forgive (readSelector fuel mode.close) c).apart
        pure (.nth word positions (some among))
      | none =>
        c.expectEnd
        pure (.nth word positions none)
    else if word = "host" then
      pure (.matching word [← (readSelector fuel mode.closeSingle c).whole])
    else if word = "local" ∨ word = "global" then
      pure (.names (word == "global") (← (readSelector fuel .start c).apart))
    else if word = "lang" then
      let languages ← liftM (c.splitCommas.mapM readLanguage)
      pure (.functional 1 word ([','].intercalate languages))
    else if word = "dir" then pure (.functional 1 word (← readDirection c))
    else pure (.functional 1 name (← readArguments c))

end

def readSelectors (fuel : Nat) (c : Cursor) : Except Failure (List (List Part)) :=
  c.splitCommas.mapM fun piece => (readSelector fuel .start piece).result.1

/-- The selectors of a nested rule. One that does not say where the outer selectors stand has them
in front. -/
def readNestedSelectors (fuel : Nat) (c : Cursor) : Except Failure (List (List Part)) :=
  c.splitCommas.mapM fun piece => do
    let (result, noted) := (readRelative fuel .start piece).result
    let parts ← result
    .ok <|
      match parts with
      | .combinator _ :: _ => .nesting :: parts
      | parts => if noted then parts else .nesting :: .combinator .descendant :: parts

end ScopedStyles.Css
