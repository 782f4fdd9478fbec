import Harvest.GraphQL.Literal.OfValue
import Harvest.GraphQL.Schema.Introspection
import Harvest.GraphQL.Validation.Roots
import Harvest.Remote

/-!
# Failures

Everything that can go wrong while entities are sourced, as causes. `Failure.message` words them in
one place. A `fault` is no failure of sourcing itself but the misuse of data of unknown origin, and has
no wording.
-/

namespace Harvest

open GraphQL

/-- Why a configuration cannot be used. -/
inductive ConfigurationProblem where
  | missingUrl
  | noLanguages
  | concurrency
  | pageSize
  | fragmentDepth
  | noMapping (path : String)
  | noFilterArgument (field typeName : String)
  | filterMismatch (typeName argumentType : String)
  deriving DecidableEq, Repr

def ConfigurationProblem.message : ConfigurationProblem → String
  | missingUrl => "Missing `url` option"
  | noLanguages => "`languages` must list at least one language code"
  | concurrency => "`concurrency` must be at least 1"
  | pageSize => "`page_size` must be at least 1"
  | fragmentDepth => "`fragment_depth` must not be negative"
  | noMapping path => s!"{path} must contain a mapping"
  | noFilterArgument field t =>
    s!"Query field '{field}' has no `filter` argument (filter configured for '{t}')"
  | filterMismatch t arg => s!"Filter for '{t}' does not match type {arg}"

/-- Why the schema of the remote is not known. -/
inductive SchemaProblem where
  | request (e : RemoteError)
  | noDescription
  | unusable (e : BuildError)
  | noQueryRoot
  deriving Repr

/-- A text without colons and blanks at its end. -/
def trimTail (s : String) : String :=
  String.ofList (s.toList.reverse.dropWhile fun c => c = ' ' || c = ':').reverse

def SchemaProblem.message : SchemaProblem → String
  | request e => s!"Introspection request failed: {e.message}"
  | noDescription => "Introspection result is missing `__schema`"
  | unusable e => trimTail s!"Invalid introspection result: {e.message}"
  | noQueryRoot => "Remote schema has no query root type"

/-- Why there is no usable fragment for a type. -/
inductive FragmentProblem where
  | syntaxError (e : SyntaxError)
  | hasOperations
  | noneOnType
  | notObject
  | noFields
  | generator (text : String)
  deriving DecidableEq, Repr

def FragmentProblem.message (typeName : String) : FragmentProblem → String
  | syntaxError e => s!"invalid fragment text: {e.message}"
  | hasOperations => "fragment text must not contain operations"
  | noneOnType => s!"no fragment on '{typeName}'"
  | notObject => "not an object type in the remote schema"
  | noFields => "no selectable fields"
  | generator text => s!"generator failed: {text}"

/-- What a type lacks when its document is put together. -/
inductive MissingPart where
  | fragment
  | identity
  | listings
  | entities
  deriving DecidableEq, Repr

/-- The sentence about a part that is missing; `name` is a type, or an operation without entities. -/
def MissingPart.message (name : String) : MissingPart → String
  | fragment => s!"No data fragment resolved for type '{name}'"
  | identity => s!"No identity fragment for type '{name}'"
  | listings => s!"No listing queries for type '{name}'"
  | entities => s!"Listing operation '{name}' has no `entities` selection"

/-- Why a page was not fetched. -/
inductive FetchProblem where
  | remote (e : RemoteError)
  | missing (field : String)
  | null (field : String)
  | notObject (field : String)
  deriving Repr

def FetchProblem.message : FetchProblem → String
  | remote e => e.message
  | missing f => s!"response has no `{f}` field"
  | null f => s!"`{f}` is null"
  | notObject f => s!"`{f}` is not an object"

/-- Anything that can go wrong. -/
inductive Failure where
  | configuration (p : ConfigurationProblem)
  | schema (p : SchemaProblem)
  | remote (e : RemoteError)
  | pagination (adapter : Value) (expected : List String) (actual : List Value)
  | unresolved (name : String) (part : MissingPart)
  | invalidDocument (typeName : String) (errors : List String)
  /-- The schema of the remote breaks the rules for schemas. -/
  | invalidSchema (errors : List String)
  | fragment (typeName : String) (p : FragmentProblem)
  | fetch (typeName language : String) (values : Members) (p : FetchProblem)
  | cancelled (typeName language : String)
  | coercion (e : CoercionError)
  /-- A document cannot be checked. -/
  | condition (e : ConditionError)
  | syntaxError (e : SyntaxError)
  /-- The parts of a request are of the wrong kinds. -/
  | invalidRequest
  /-- A text is not what it should hold. -/
  | unreadable
  | fault (f : Fault)
  deriving Repr

/-- Whether a failure is one of sourcing, rather than of the library's use. -/
def Failure.isReported : Failure → Bool
  | configuration _ => true
  | schema _ => true
  | remote _ => true
  | pagination .. => true
  | unresolved .. => true
  | invalidDocument .. => true
  | fragment .. => true
  | fetch .. => true
  | cancelled .. => true
  | _ => false

def Failure.message : Failure → String
  | configuration p => p.message
  | schema p => p.message
  | remote e => e.message
  | pagination adapter expected actual =>
    s!"Pagination adapter '{adapter.display}' expects variables {(Value.list actual).display}, "
      ++ s!"listing queries declare {Text.quotedList expected}"
  | unresolved name part => part.message name
  | invalidDocument t errors => s!"Compiled document for '{t}' is invalid: {Text.quotedList errors}"
  | invalidSchema errors => "\n\n".intercalate errors
  | fragment t p => s!"Fragment for '{t}': {p.message t}"
  | fetch t language values p =>
    s!"Fetching {t} ({language}) with {(Value.object values).display} failed: {p.message}"
  | cancelled t language => s!"Cancelled while sourcing {t} ({language})"
  | coercion e => e.message
  | condition e => e.message
  | syntaxError e => e.message
  | invalidRequest => ""
  | unreadable => ""
  | fault _ => ""

end Harvest
