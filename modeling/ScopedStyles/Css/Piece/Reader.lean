import ScopedStyles.Css.Cursor
import ScopedStyles.Css.Piece

namespace ScopedStyles.Css

def maxDepth : Nat := 500

/-- Whether white space beside the token says nothing. -/
def Token.separates : Token → Bool
  | .delim _ | .comma => true
  | _ => false

def spacePiece : Piece := .plain (.space " ")

def Piece.isSpace : Piece → Bool
  | .plain (.space _) => true
  | _ => false

/-- Pieces without the first and the last space, unless there is only one piece. -/
def trimPieces (ps : List Piece) : List Piece :=
  if ps.length < 2 then ps
  else
    let ps := if ps.head?.any Piece.isSpace then ps.tail else ps
    if ps.getLast?.any Piece.isSpace then ps.dropLast else ps

def Piece.ofToken (t : Token) : Piece :=
  match t with
  | .hash text | .idHash text =>
    match Color.ofDigits? text with
    | some c => .color c
    | none => .plain (.hash text)
  | .url address => .link address
  | t => .plain t

def isCustomName (name : String) : Bool :=
  "--".toList.isPrefixOf name.toList

def readLink (c : Cursor) : Except Failure Piece :=
  match c.skipTrivia.values with
  | .token (.string address) _ :: rest => do
    (c.moveTo rest).expectEnd
    .ok (.link address)
  | v :: _ => .error ⟨.unexpected v.head, c.place⟩
  | [] => .error ⟨.endOfInput, c.stop⟩

mutual

/-- Pieces up to the end. White space in front is dropped if `glued`. -/
def readPieces : Nat → Nat → Bool → Cursor → Except Failure (List Piece)
  | 0, _, _, c => .error ⟨.endOfInput, c.place⟩
  | fuel + 1, depth, glued, c =>
    match c.values with
    | [] => .ok []
    | v :: rest => do
      let c := c.moveTo rest
      match v with
      | .token t _ =>
        if v.isTrivia then
          if glued || rest.head?.any fun w => w.head.separates then readPieces fuel depth glued c
          else .ok (spacePiece :: (← readPieces fuel depth false c))
        else if t.isBroken then .error ⟨.unexpected t, v.place⟩
        else .ok (.ofToken t :: (← readPieces fuel depth t.separates c))
      | .block opener _ body stop =>
        let inside : Cursor := ⟨body, stop⟩
        match opener with
        | .function name =>
          let p ← readCall fuel (depth + 1) name inside
          .ok (p :: (← readPieces fuel depth (name != "url") c))
        | opener =>
          if depth = maxDepth then .error ⟨.tooDeep, inside.place⟩
          else
            let ps ← readPieces fuel (depth + 1) false inside
            let closer : List Piece := (opener.opens?.map fun b => .plain (.closing b)).toList
            .ok (.plain opener :: ps ++ closer ++ (← readPieces fuel depth true c))

def readPieceList : Nat → Nat → Cursor → Except Failure (List Piece)
  | 0, _, c => .error ⟨.endOfInput, c.place⟩
  | fuel + 1, depth, c =>
    if maxDepth < depth then .error ⟨.tooDeep, c.place⟩
    else (readPieces fuel depth false c).map trimPieces

def readCall : Nat → Nat → String → Cursor → Except Failure Piece
  | 0, _, _, c => .error ⟨.endOfInput, c.place⟩
  | fuel + 1, depth, name, c =>
    if name = "url" then readLink c
    else if name = "var" then readVariable fuel depth c
    else (readPieceList fuel depth c).map (.function name)

def readVariable : Nat → Nat → Cursor → Except Failure Piece
  | 0, _, c => .error ⟨.endOfInput, c.place⟩
  | fuel + 1, depth, c =>
    match c.skipTrivia.values with
    | [] => .error ⟨.endOfInput, c.stop⟩
    | .token (.ident name) _ :: rest =>
      let c' := c.moveTo rest
      if isCustomName name then
        match c'.skipTrivia.values with
        | .token .comma _ :: rest => do
          .ok (.variable name (some (← readPieceList fuel depth (c.moveTo rest))))
        | _ => do
          c'.expectEnd
          .ok (.variable name none)
      else .error ⟨.unexpected (.ident name), c.place⟩
    | v :: _ => .error ⟨.unexpected v.head, c.place⟩

end

end ScopedStyles.Css
