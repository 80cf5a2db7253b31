import ScopedStyles.Proofs.CommandLine.Carrying
import ScopedStyles.Proofs.Resolver.Unwrapping

namespace ScopedStyles.CommandLine

open Scope Selector

variable {files : Files} {args : List String} {input : String} {registry : Option String}
  {config : Config} {before : List (List Char)} {fault : Fault} {message : String}

end ScopedStyles.CommandLine
