import ScopedStyles.Css.Property
import ScopedStyles.Css.Selector

namespace ScopedStyles.Css

open Decimal

inductive KeyframeSelector where
  | start
  | finish
  | percentage (negative : Bool) (m : Magnitude)
  | within (range : String) (negative : Bool) (m : Magnitude)
  deriving DecidableEq

def timelineRanges : List String :=
  ["cover", "contain", "entry", "exit", "entry-crossing", "exit-crossing"]

structure Keyframe where
  selectors : List KeyframeSelector
  declarations : List Declaration

inductive Rule where
  | style (selectors : List (List Part)) (declarations : List Declaration) (rules : List Rule)
  | keyframes (vendor : String) (name : AnimationName) (frames : List Keyframe)
  | other (name : String) (inFront : List Piece) (block : Option (List Piece))

/-- The rules of a source, and the comments that stay in front of them. -/
structure Sheet where
  comments : List String
  rules : List Rule

def KeyframeSelector.chars : KeyframeSelector → List Char
  | start => "0%".toList
  | finish => "to".toList
  | percentage negative m =>
    if !negative ∧ m = Format.single.round one then "to".toList else percentageChars negative m
  | within range negative m => range.toList ++ ' ' :: percentageChars negative m

def Keyframe.chars (naming : Naming) (k : Keyframe) : List Char :=
  [','].intercalate (k.selectors.map KeyframeSelector.chars) ++
    '\x7b' :: declarationsChars naming k.declarations ++ ['\x7d']

/-- Whether keyframes of a vendor are left out, since nothing reads them. -/
def isForgotten (vendor : String) : Bool :=
  vendor == "-ms-"

mutual

def Rule.chars (naming : Naming) : Rule → List Char
  | .style selectors declarations rules =>
    selectorsChars naming.rename selectors ++
      '\x7b' :: declarationsChars naming declarations ++
        (if declarations.isEmpty || rules.isEmpty then [] else [';']) ++
          rulesChars naming rules ++ ['\x7d']
  | .keyframes vendor name frames =>
    if isForgotten vendor then []
    else
      '@' :: vendor.toList ++ "keyframes ".toList ++ name.chars naming ++
        '\x7b' :: frames.flatMap (Keyframe.chars naming) ++ ['\x7d']
  | .other name inFront block =>
    '@' :: name.toList ++ (if inFront.isEmpty then [] else ' ' :: piecesChars inFront) ++
      match block with
      | some ps => '\x7b' :: piecesChars ps ++ ['\x7d']
      | none => [';']

def rulesChars (naming : Naming) : List Rule → List Char
  | [] => []
  | r :: rs => r.chars naming ++ rulesChars naming rs

end

def Sheet.chars (naming : Naming) (s : Sheet) : List Char :=
  (s.comments.flatMap fun text => "/*".toList ++ text.toList ++ "*/\n".toList) ++
    rulesChars naming s.rules

def declaredKeyframes (ds : List Declaration) : List String :=
  ds.flatMap fun d => d.setting.keyframeNames

def AnimationName.localName? (n : AnimationName) : Option String :=
  n.name?.filter fun name => !isReserved name

mutual

/-- The local names of a rule, those of keyframes only on demand. -/
def Rule.localNames (withKeyframes : Bool) : Rule → List String
  | .style selectors declarations rules =>
    selectorsNames selectors ++ (if withKeyframes then declaredKeyframes declarations else []) ++
      rulesNames withKeyframes rules
  | .keyframes vendor name frames =>
    if withKeyframes && !isForgotten vendor then
      name.localName?.toList ++ frames.flatMap (declaredKeyframes ·.declarations)
    else []
  | .other _ _ _ => []

def rulesNames (withKeyframes : Bool) : List Rule → List String
  | [] => []
  | r :: rs => r.localNames withKeyframes ++ rulesNames withKeyframes rs

end

end ScopedStyles.Css
