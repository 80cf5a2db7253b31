import ScopedStyles.Text.Alphanumeric
import ScopedStyles.Hash
import ScopedStyles.OrderedMap
import ScopedStyles.Selector.Printer
import ScopedStyles.Selector.Parser
import ScopedStyles.Forest.Basic
import ScopedStyles.Forest.Edit
import ScopedStyles.Forest.Traversal
import ScopedStyles.Scope.Registry
import ScopedStyles.Scope.Registry.Printer
import ScopedStyles.Scope.Registry.Reader
import ScopedStyles.Scope.Scoping
import ScopedStyles.Scope.Resolver
import ScopedStyles.Decimal.Number
import ScopedStyles.Style.Composer
import ScopedStyles.Css.Modules
import ScopedStyles.CommandLine.Run
import ScopedStyles.Main
import ScopedStyles.Proofs.Registry.Join
import ScopedStyles.Proofs.Resolver.Independence
import ScopedStyles.Proofs.Resolver.OnePass
import ScopedStyles.Proofs.Resolver.Stages
import ScopedStyles.Proofs.Selector.Rereading
import ScopedStyles.Proofs.Style.Transparency
import ScopedStyles.Proofs.Style.Identity
import ScopedStyles.Proofs.Resolver.SelectorLists
import ScopedStyles.Proofs.Selector.Spelling.Printing
import ScopedStyles.Proofs.Style.Registration
import ScopedStyles.Proofs.Style.Structure
import ScopedStyles.Proofs.Style.Bindings
import ScopedStyles.Proofs.Resolver.Globally
import ScopedStyles.Proofs.Style.Sessions
import ScopedStyles.Proofs.CommandLine.Carrying
import ScopedStyles.Proofs.Resolver.Escapes
import ScopedStyles.Proofs.Style.Failures
import ScopedStyles.Proofs.Resolver.Unwrapping
import ScopedStyles.Proofs.Resolver.AttributeClasses
import ScopedStyles.Proofs.Css.Comments
import ScopedStyles.Proofs.Style.Blocks
import ScopedStyles.Proofs.Style.Head
import ScopedStyles.Proofs.CommandLine.Failing
import ScopedStyles.Proofs.Forest.Rows
import ScopedStyles.Proofs.Selector.Argument
import ScopedStyles.Proofs.Resolver.Alike
import ScopedStyles.Proofs.Resolver.Duality
import ScopedStyles.Proofs.Selector.Cursor
import ScopedStyles.Proofs.Selector.Cursor.Tracking
import ScopedStyles.Proofs.Selector.Cursor.Components
import ScopedStyles.Proofs.Selector.Cursor.Lists
import ScopedStyles.Proofs.Forest.Attachment
import ScopedStyles.Proofs.Style.KeyTexts
import ScopedStyles.Proofs.Hash
