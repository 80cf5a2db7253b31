import ScopedStyles.Css.Property.Reader
import ScopedStyles.Css.Rule
import ScopedStyles.Css.Selector.Reader

namespace ScopedStyles.Css

inductive Item where
  | declaration (d : Declaration)
  | rule (r : Rule)

def declarationsOf (items : List Item) : List Declaration :=
  items.filterMap fun
    | .declaration d => some d
    | .rule _ => none

def rulesOf (items : List Item) : List Rule :=
  items.filterMap fun
    | .declaration _ => none
    | .rule r => some r

def Cursor.skipGaps (c : Cursor) : Cursor :=
  c.dropWhile fun v => v.isTrivia || v.isSemicolon

def keyframesRules : List (String × String) :=
  ["", "-webkit-", "-moz-", "-o-", "-ms-"].map fun vendor => (vendor ++ "keyframes", vendor)

def readKeyframesName (c : Cursor) : Except Failure (AnimationName × Cursor) :=
  match c.skipTrivia.values with
  | [] => .error ⟨.endOfInput, c.stop⟩
  | v :: rest =>
    let c := c.moveTo rest
    match v with
    | .token (.ident name) _ =>
      if isReserved name then .error ⟨.unexpected v.head, c.place⟩ else .ok (.named name, c)
    | .token (.string name) _ => .ok (.quoted name, c)
    | v => .error ⟨.unexpected v.head, c.placeBehind v⟩

def readKeyframeSelector (c : Cursor) : Except Failure KeyframeSelector :=
  match c.skipTrivia.values with
  | [] => .error ⟨.endOfInput, c.stop⟩
  | v :: rest => do
    let failure : Failure := ⟨.unexpected v.head, c.place⟩
    let (selector, rest) ←
      match v with
      | .token (.percentage n) _ => .ok (.percentage n.negative n.magnitude, rest)
      | .token (.ident word) _ =>
        if word.toLower = "from" then .ok (.start, rest)
        else if word.toLower = "to" then .ok (.finish, rest)
        else
          match (c.moveTo rest).skipTrivia.values with
          | .token (.percentage n) _ :: rest =>
            if timelineRanges.contains word.toLower then
              .ok (.within word.toLower n.negative n.magnitude, rest)
            else .error failure
          | _ => .error failure
      | _ => .error failure
    (c.moveTo rest).expectEnd
    .ok selector

def readDeclarations (fuel : Nat) : Nat → Cursor → Except Failure (List Declaration)
  | 0, c => .error ⟨.endOfInput, c.place⟩
  | count + 1, c =>
    let c := c.skipGaps
    match c.values with
    | [] => .ok []
    | .token (.ident name) _ :: rest => do
      let (text, rest) := (c.moveTo rest).splitAt Value.isSemicolon
      let d ← readDeclaration fuel name text
      .ok (d :: (← readDeclarations fuel count rest))
    | v :: _ => .error ⟨.unexpected v.head, v.place⟩

def readKeyframe (fuel : Nat) (inFront inside : Cursor) : Except Failure Keyframe := do
  .ok ⟨← inFront.splitCommas.mapM readKeyframeSelector, ← readDeclarations fuel fuel inside⟩

def readKeyframes (fuel : Nat) : Nat → Cursor → List Keyframe
  | 0, _ => []
  | count + 1, c =>
    let c := c.skipGaps
    match c.values with
    | [] => []
    | .token (.atKeyword _) _ :: _ =>
      let (_, c) := c.splitAt fun v => v.isCurly || v.isSemicolon
      readKeyframes fuel count (c.moveTo c.values.tail)
    | _ =>
      let (inFront, c) := c.splitAt Value.isCurly
      match c.values with
      | .block _ _ body stop :: rest =>
        (readKeyframe fuel inFront ⟨body, stop⟩).toOption.toList ++
          readKeyframes fuel count (c.moveTo rest)
      | _ => []

inductive RuleEnd where
  | block (inside : Cursor)
  | none (place : Source)

/-- The rule with a name, from behind the name on. Keyframes are no nested rules. -/
def readNamedRule (fuel : Nat) (nested : Bool) (name : String) (c : Cursor) :
    Except Failure (Rule × Cursor) := do
  let (inFront, c) := c.splitAt fun v => v.isCurly || v.isSemicolon
  let (ending, rest) : RuleEnd × Cursor :=
    match c.values with
    | .block _ _ body stop :: rest => (.block ⟨body, stop⟩, c.moveTo rest)
    | _ => (.none (c.moveTo c.values.tail).place, c.moveTo c.values.tail)
  match keyframesRules.lookup name.toLower with
  | some vendor =>
    let (keyframes, behind) ← readKeyframesName inFront
    if nested then .error ⟨.unknownRule name, behind.place⟩
    else
      behind.expectEnd
      match ending with
      | .block inside => .ok (.keyframes vendor keyframes (readKeyframes fuel fuel inside), rest)
      | .none place => .error ⟨.unexpected .semicolon, place⟩
  | none =>
    let inFront ← readPieceList fuel 0 inFront.skipTrivia
    match ending with
    | .block inside => .ok (.other name inFront (some (← readPieceList fuel 0 inside)), rest)
    | .none _ => .ok (.other name inFront none, rest)

mutual

def readItems : Nat → Cursor → Except Failure (List Item)
  | 0, c => .error ⟨.endOfInput, c.place⟩
  | fuel + 1, c =>
    let c := c.skipGaps
    match c.values with
    | [] => .ok []
    | .token (.atKeyword name) _ :: rest => do
      let (r, c) ← readNamedRule fuel true name (c.moveTo rest)
      .ok (.rule r :: (← readItems fuel c))
    | .token (.ident name) _ :: rest =>
      let (text, behind) := (c.moveTo rest).splitAt Value.isSemicolon
      match readDeclaration fuel name text with
      | .ok d => do .ok (.declaration d :: (← readItems fuel behind))
      | .error f =>
        match readStyle fuel true c with
        | .ok (r, c) => do .ok (.rule r :: (← readItems fuel c))
        | .error _ => .error f
    | _ => do
      let (r, c) ← readStyle fuel true c
      .ok (.rule r :: (← readItems fuel c))

/-- A style rule: selectors and a block. A nested one ends at a semicolon. That the block is missing
is found first. -/
def readStyle : Nat → Bool → Cursor → Except Failure (Rule × Cursor)
  | 0, _, c => .error ⟨.endOfInput, c.place⟩
  | fuel + 1, nested, c =>
    let (inFront, c) := c.splitAt fun v => v.isCurly || (nested && v.isSemicolon)
    match c.values with
    | .block (.opening .curly) _ body stop :: rest => do
      let selectors ← if nested then readNestedSelectors fuel inFront else readSelectors fuel inFront
      let items ← readItems fuel ⟨body, stop⟩
      .ok (.style selectors (declarationsOf items) (rulesOf items), c.moveTo rest)
    | v :: _ => .error ⟨.unexpected v.head, v.place⟩
    | [] => .error ⟨.endOfInput, c.stop⟩

end

def Value.isRuleGap (v : Value) : Bool :=
  v.isTrivia || v.head == .cdo || v.head == .cdc

/-- The rules of a whole source. `first` tells whether none stands in front; a declaration of the
character set is passed over there. -/
def readRules (fuel : Nat) : Nat → Bool → Cursor → Except Failure (List Rule)
  | 0, _, c => .error ⟨.endOfInput, c.place⟩
  | count + 1, first, c =>
    let c := c.dropWhile Value.isRuleGap
    match c.values with
    | [] => .ok []
    | .token (.atKeyword name) _ :: rest =>
      if first ∧ name.toLower = "charset" then
        let (_, c) := c.splitAt fun v => v.isCurly || v.isSemicolon
        readRules fuel count false (c.moveTo c.values.tail)
      else do
        let (r, c) ← readNamedRule fuel false name (c.moveTo rest)
        .ok (r :: (← readRules fuel count false c))
    | _ => do
      let (r, c) ← readStyle fuel false c
      .ok (r :: (← readRules fuel count false c))

def keptComments : List Value → List String
  | .token (.space _) _ :: vs => keptComments vs
  | .token (.comment text) _ :: vs => if text.startsWith "!" then text :: keptComments vs else []
  | _ => []

/-- Sixteen rounds are enough for each character: two for the item that begins there and eight for
the selector. -/
def parseSheet (source : Source) : Except Failure Sheet :=
  let fuel := 16 * source.length + 32
  let values := valuesOf source
  (readRules fuel fuel true ⟨values, []⟩).map fun rules => ⟨keptComments values, rules⟩

end ScopedStyles.Css
