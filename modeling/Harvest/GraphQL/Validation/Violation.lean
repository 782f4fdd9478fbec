import Harvest.GraphQL.Document.Printer
import Harvest.GraphQL.Literal.Leaf
import Harvest.GraphQL.Suggestion

/-!
# Violations

What can be wrong with a document that is run against a schema. `Violation.message` words each cause.
-/

namespace Harvest.GraphQL

/-- Why two fields with one response key cannot be merged. -/
inductive Conflict where
  | differentFields (first second : String)
  | differingArguments
  | differentTypes (first second : TypeRef)
  | subfields (parts : List (String × Conflict))
  deriving Repr

/-- The number of characters that a sentence takes over from a document in one piece. -/
def maxPiece : Nat := 1000

/-- The beginning of a text that is too long for a sentence. -/
def shortened (text : String) : String :=
  if maxPiece < text.length then String.ofList (text.toList.take maxPiece) ++ "..." else text

mutual

def Conflict.message : Conflict → String
  | .differentFields a b => s!"'{shortened a}' and '{shortened b}' are different fields"
  | .differingArguments => "they have differing arguments"
  | .differentTypes a b => s!"they return conflicting types '{a.print}' and '{b.print}'"
  | .subfields parts => shortened (" and ".intercalate (Conflict.partMessages parts))

/-- The clauses about conflicts one level down. -/
def Conflict.partMessages : List (String × Conflict) → List String
  | [] => []
  | (key, c) :: parts =>
    ("subfields '" ++ key ++ "' conflict because " ++ Conflict.message c)
      :: Conflict.partMessages parts

end

/-- One thing that is wrong with a document. Lists of names are those that may have been meant. -/
inductive Violation where
  | duplicateOperation (name : String)
  | loneAnonymous
  | subscriptionRoots (name : Option String)
  | subscriptionIntrospection (name : Option String)
  | unknownType (name : String) (near : List String)
  | inlineOnLeaf (type : String)
  | fragmentOnLeaf (fragment type : String)
  | variableOutput (name : String) (type : TypeRef)
  | leafSelection (field : String) (type : TypeRef)
  | missingSelection (field : String) (type : TypeRef)
  | unknownField (field type : String) (onTypes nearFields : List String)
  | duplicateFragment (name : String)
  | unknownFragment (name : String)
  | unusedFragment (name : String)
  | impossibleInline (parent type : String)
  | impossibleSpread (fragment parent type : String)
  | cycle (fragment : String) (via : List String)
  | duplicateVariable (name : String)
  | undefinedVariable (name : String) (operation : Option String)
  | unusedVariable (name : String) (operation : Option String)
  | unknownDirective (name : String)
  | misplacedDirective (name place : String)
  | repeatedDirective (name : String)
  | unknownArgument (name type field : String) (near : List String)
  | unknownDirectiveArgument (name directive : String) (near : List String)
  | duplicateArgument (name : String)
  | wrongValue (type : TypeRef) (value : Literal)
  | wrongLeaf (e : LeafError)
  | missingInputField (type field : String) (fieldType : TypeRef)
  | notOneField (type : String)
  | nullField (type field : String)
  | unknownInputField (field type : String) (near : List String)
  | missingArgument (field arg : String) (type : TypeRef)
  | missingDirectiveArgument (directive arg : String) (type : TypeRef)
  | variablePosition (name : String) (type position : TypeRef)
  | conflict (key : String) (reason : Conflict)
  | duplicateInputField (name : String)
  | tooMany
  deriving Repr

namespace Violation

/-- The subject of a sentence about a subscription. -/
def subscription : Option String → String
  | some name => s!"Subscription '{name}'"
  | none => "Anonymous Subscription"

def byOperation : Option String → String
  | some name => s!" by operation '{name}'"
  | none => ""

def inOperation : Option String → String
  | some name => s!" in operation '{name}'"
  | none => ""

/-- The question whether a type may have been meant, and else whether a field was. -/
def fieldQuestion (onTypes nearFields : List String) : String :=
  if onTypes.isEmpty then Suggestion.question nearFields ""
  else Suggestion.question onTypes "to use an inline fragment on"

/-- The fragments on the way round a cycle. -/
def viaClause (via : List String) : String :=
  if via.isEmpty then ""
  else " via " ++ ", ".intercalate (via.map fun n => "'" ++ n ++ "'")

def message : Violation → String
  | duplicateOperation n => s!"There can be only one operation named '{n}'."
  | loneAnonymous => "This anonymous operation must be the only defined operation."
  | subscriptionRoots n => s!"{subscription n} must select only one top level field."
  | subscriptionIntrospection n =>
    s!"{subscription n} must not select an introspection top level field."
  | unknownType n near => s!"Unknown type '{n}'." ++ Suggestion.question near ""
  | inlineOnLeaf t => s!"Fragment cannot condition on non composite type '{t}'."
  | fragmentOnLeaf f t => s!"Fragment '{f}' cannot condition on non composite type '{t}'."
  | variableOutput n t => s!"Variable '${n}' cannot be non-input type '{t.print}'."
  | leafSelection f t =>
    s!"Field '{f}' must not have a selection since type '{t.print}' has no subfields."
  | missingSelection f t =>
    s!"Field '{f}' of type '{t.print}' must have a selection of subfields."
      ++ s!" Did you mean '{f} \x7b ... \x7d'?"
  | unknownField f t onTypes nearFields =>
    s!"Cannot query field '{f}' on type '{t}'." ++ fieldQuestion onTypes nearFields
  | duplicateFragment n => s!"There can be only one fragment named '{n}'."
  | unknownFragment n => s!"Unknown fragment '{n}'."
  | unusedFragment n => s!"Fragment '{n}' is never used."
  | impossibleInline p t =>
    s!"Fragment cannot be spread here as objects of type '{p}' can never be of type '{t}'."
  | impossibleSpread f p t =>
    s!"Fragment '{f}' cannot be spread here as objects of type '{p}' can never be of type '{t}'."
  | cycle f via => s!"Cannot spread fragment '{f}' within itself" ++ viaClause via ++ "."
  | duplicateVariable n => s!"There can be only one variable named '${n}'."
  | undefinedVariable n op => s!"Variable '${n}' is not defined{byOperation op}."
  | unusedVariable n op => s!"Variable '${n}' is never used{inOperation op}."
  | unknownDirective n => s!"Unknown directive '@{n}'."
  | misplacedDirective n place => s!"Directive '@{n}' may not be used on {place}."
  | repeatedDirective n => s!"The directive '@{n}' can only be used once at this location."
  | unknownArgument n t f near =>
    s!"Unknown argument '{n}' on field '{t}.{f}'." ++ Suggestion.question near ""
  | unknownDirectiveArgument n d near =>
    s!"Unknown argument '{n}' on directive '@{d}'." ++ Suggestion.question near ""
  | duplicateArgument n => s!"There can be only one argument named '{n}'."
  | wrongValue t v => s!"Expected value of type '{t.print}', found {v.print}."
  | wrongLeaf e => e.message
  | missingInputField t f ft =>
    s!"Field '{t}.{f}' of required type '{ft.print}' was not provided."
  | notOneField t => s!"OneOf Input Object '{t}' must specify exactly one key."
  | nullField t f => s!"Field '{t}.{f}' must be non-null."
  | unknownInputField f t near =>
    s!"Field '{f}' is not defined by type '{t}'." ++ Suggestion.question near ""
  | missingArgument f a t =>
    s!"Field '{f}' argument '{a}' of type '{t.print}' is required, but it was not provided."
  | missingDirectiveArgument d a t =>
    s!"Directive '@{d}' argument '{a}' of type '{t.print}' is required, but it was not provided."
  | variablePosition n t p =>
    s!"Variable '${n}' of type '{t.print}' used in position expecting type '{p.print}'."
  | conflict key reason =>
    s!"Fields '{key}' conflict because {reason.message}."
      ++ " Use different aliases on the fields to fetch both if this was intentional."
  | duplicateInputField n => s!"There can be only one input field named '{n}'."
  | tooMany => "Too many validation errors, error limit reached. Validation aborted."

end Violation

end Harvest.GraphQL
