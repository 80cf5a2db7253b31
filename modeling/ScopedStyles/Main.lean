import ScopedStyles.CommandLine.Run

namespace ScopedStyles.CommandLine

def Command.paths : Command → List String
  | resolve input _ registry => input :: registry.toList
  | compile input => [input]

def isFolderOnDisk (path : String) : IO Bool := do
  try
    let place ← IO.FS.realPath path
    place.isDir
  catch _ => return false

def Files.loadAt (f : Files) (p : Path) : IO Files := do
  let path := Path.toText p
  if (← isFolderOnDisk path) then return { f with folders := p :: f.folders }
  else
    try
      let bytes ← IO.FS.readBinFile path
      return { f with contents := (p, bytes) :: f.contents }
    catch _ => return f

def Files.loadParts (f : Files) (p : Path) : List String → IO Files
  | [] => return f
  | part :: parts => do
    if Path.isIdle part then f.loadParts p parts
    else if part = ".." then f.loadParts p.parent parts
    else
      let p := p ++ [part]
      (← f.loadAt p).loadParts p parts

def Files.load (f : Files) (text : String) : IO Files :=
  f.loadParts (Path.origin text) (Path.parts text)

/-- What the logger writes for an error, less the time in front. -/
def logLine (message : String) : String :=
  "[ERROR scopecss] " ++ message ++ "\n"

end ScopedStyles.CommandLine

open ScopedStyles.CommandLine in
def main (args : List String) : IO UInt32 := do
  let paths := ((Command.parse? args).map Command.paths).getD []
  let files ← paths.foldlM Files.load ⟨[], []⟩
  let outcome := run files args
  for (p, bytes) in outcome.files.contents do
    if (files.get? p).all fun before => before.data != bytes.data then
      IO.FS.writeBinFile (Path.toText p) bytes
  (← IO.getStdout).putStr outcome.output
  (← IO.getStderr).putStr (outcome.standardError logLine)
  return outcome.exitCode.toUInt32
