namespace ScopedStyles.CommandLine

abbrev Path := List String

namespace Path

/-- The parts of a path as written. Empty parts and `.` lead nowhere else. -/
def parts (text : String) : List String :=
  text.splitOn "/"

def toText (p : Path) : String :=
  "/".intercalate p

def parent (p : Path) : Path :=
  match p.getLast? with
  | none => [".."]
  | some ".." => p ++ [".."]
  | some "/" => p
  | some _ => p.dropLast

def origin (text : String) : Path :=
  if text.startsWith "/" then ["/"] else []

def isIdle (part : String) : Bool :=
  part == "" || part == "."

end Path

/-- Contents by path, and the folders there are besides the working one and those above it. -/
structure Files where
  contents : List (Path × ByteArray)
  folders : List Path

inductive Obstacle where
  | missing
  | notFolder
  | folder
  | longName
  | notText
  deriving DecidableEq

def Obstacle.message : Obstacle → String
  | missing => "No such file or directory (os error 2)"
  | notFolder => "Not a directory (os error 20)"
  | folder => "Is a directory (os error 21)"
  | longName => "File name too long (os error 36)"
  | notText => "stream did not contain valid UTF-8"

def maxNameLength : Nat := 255

def maxPathLength : Nat := 4095

namespace Files

def isFolder (f : Files) (p : Path) : Bool :=
  p.all (· == "..") || p == ["/"] || f.folders.contains p

def get? (f : Files) (p : Path) : Option ByteArray :=
  f.contents.lookup p

def obstacleIn (f : Files) (p : Path) : Option Obstacle :=
  if f.isFolder p then none
  else if (f.get? p).isSome then some .notFolder
  else some .missing

/-- Follows `parts` from `p`. What the last of them names need not be there. -/
def follow (f : Files) (p : Path) : List String → Except Obstacle Path
  | [] => .ok p
  | part :: parts =>
    match f.obstacleIn p with
    | some o => .error o
    | none =>
      if Path.isIdle part then f.follow p parts
      else if part = ".." then f.follow p.parent parts
      else if maxNameLength < part.utf8ByteSize then .error .longName
      else f.follow (p ++ [part]) parts

def find (f : Files) (text : String) : Except Obstacle Path :=
  if maxPathLength < text.utf8ByteSize then .error .longName
  else f.follow (Path.origin text) (Path.parts text)

def read (f : Files) (text : String) : Except Obstacle String := do
  let p ← f.find text
  match f.obstacleIn p, f.get? p with
  | none, _ => .error .folder
  | some _, none => .error .missing
  | some _, some bytes =>
    match String.fromUTF8? bytes with
    | some text => .ok text
    | none => .error .notText

def exists? (f : Files) (text : String) : Bool :=
  match f.find text with
  | .ok p => f.isFolder p || (f.get? p).isSome
  | .error _ => false

def put (p : Path) (bytes : ByteArray) : List (Path × ByteArray) → List (Path × ByteArray)
  | [] => [(p, bytes)]
  | e :: es => if e.1 = p then (p, bytes) :: es else e :: put p bytes es

/-- Where a file may be made or replaced: not under a path that ends in a slash, which names a
folder, and only in a folder that is there. -/
def findForWriting (f : Files) (text : String) : Except Obstacle Path :=
  let parts := (Path.parts text).reverse
  match parts.dropWhile (· == "") with
  | [] => .error .folder
  | last :: before => do
    if maxPathLength < text.utf8ByteSize then .error .longName
    else if Path.isIdle last ∨ last = ".." then
      match f.obstacleIn (← f.find text) with
      | none => .error .folder
      | some o => .error o
    else
      let p ← f.follow (Path.origin text) before.reverse
      match f.obstacleIn p with
      | some o => .error o
      | none =>
        if parts.head? = some "" then .error .folder
        else if maxNameLength < last.utf8ByteSize then .error .longName
        else if f.isFolder (p ++ [last]) then .error .folder
        else .ok (p ++ [last])

def write (f : Files) (path text : String) : Except Obstacle Files := do
  .ok { f with contents := put (← f.findForWriting path) text.toUTF8 f.contents }

end Files

end ScopedStyles.CommandLine
