namespace ScopedStyles.Selector

inductive Expected where
  | className
  | idName
  | elementName
  | attributeName
  | pseudoName
  | attributeValue
  deriving DecidableEq

def Expected.description : Expected → String
  | className => "class name"
  | idName => "id"
  | elementName => "element name"
  | attributeName => "attribute name"
  | pseudoName => "pseudo name"
  | attributeValue => "attribute value"

inductive Cause where
  | emptySelector
  | unclosedComment
  | unclosedString
  | unclosedBracket
  | unclosedParenthesis
  | expected (what : Expected)
  | unexpected (c : Char)
  | unexpectedInAttribute (c : Char)
  deriving DecidableEq

def Cause.detail : Cause → String
  | emptySelector => "empty selector"
  | unclosedComment => "unclosed comment"
  | unclosedString => "unclosed string"
  | unclosedBracket => "unclosed `[`"
  | unclosedParenthesis => "unclosed `(`"
  | expected what => "expected " ++ what.description
  | unexpected c => "unexpected `" ++ c.toString ++ "`"
  | unexpectedInAttribute c => "unexpected `" ++ c.toString ++ "` in attribute selector"

/-- The position counts UTF-8 bytes. -/
structure Error where
  cause : Cause
  position : Nat
  deriving DecidableEq

def Error.message (e : Error) : String :=
  "invalid selector at byte " ++ toString e.position ++ ": " ++ e.cause.detail

end ScopedStyles.Selector
