import Harvest.GraphQL.Document.Printer
import Harvest.GraphQL.Schema
import Harvest.GraphQL.Suggestion
import Harvest.Data.Json.Parser

/-!
# Literals of scalars and enums

Whether a literal is a value of a scalar or an enum. The five standard scalars each admit some forms
of literals; an enum admits its own names; any other scalar admits everything.
-/

namespace Harvest.GraphQL

/-- The least integer of the scalar `Int`. -/
def minInt : Int := -2147483648

/-- The greatest integer of the scalar `Int`. -/
def maxInt : Int := 2147483647

/-- Why a literal is no value of a scalar or enum; `shown` is the literal as written. -/
inductive LeafError where
  | notInteger (shown : String)
  | notInt32 (shown : String)
  | notNumeric (shown : String)
  | notString (shown : String)
  | notBoolean (shown : String)
  | notId (shown : String)
  | notEnum (enum shown : String) (values : List String)
  | noSuchValue (enum shown : String) (values : List String)
  deriving Repr

namespace LeafError

/-- The enum values that may have been meant. -/
def enumQuestion (shown : String) (values : List String) : String :=
  Suggestion.question (Suggestion.near shown values) "the enum value"

def message : LeafError → String
  | notInteger t => s!"Int cannot represent non-integer value: {t}"
  | notInt32 t => s!"Int cannot represent non 32-bit signed integer value: {t}"
  | notNumeric t => s!"Float cannot represent non numeric value: {t}"
  | notString t => s!"String cannot represent a non string value: {t}"
  | notBoolean t => s!"Boolean cannot represent a non boolean value: {t}"
  | notId t => s!"ID cannot represent a non-string and non-integer value: {t}"
  | notEnum n t vs => s!"Enum '{n}' cannot represent non-enum value: {t}." ++ enumQuestion t vs
  | noSuchValue n t vs => s!"Value '{t}' does not exist in '{n}' enum." ++ enumQuestion t vs

end LeafError

/-- The integer that the text of an integer literal denotes. -/
def intOfText (text : String) : Int :=
  match text.toList with
  | '-' :: ds => -(Json.natOf ds : Int)
  | ds => Json.natOf ds

def checkScalar (scalar : String) (l : Literal) : Except LeafError Unit :=
  match scalar, l with
  | "Int", .int t =>
    if minInt ≤ intOfText t ∧ intOfText t ≤ maxInt then .ok () else .error (.notInt32 t)
  | "Int", l => .error (.notInteger l.print)
  | "Float", .int _ => .ok ()
  | "Float", .float _ => .ok ()
  | "Float", l => .error (.notNumeric l.print)
  | "String", .string .. => .ok ()
  | "String", l => .error (.notString l.print)
  | "Boolean", .boolean _ => .ok ()
  | "Boolean", l => .error (.notBoolean l.print)
  | "ID", .string .. => .ok ()
  | "ID", .int _ => .ok ()
  | "ID", l => .error (.notId l.print)
  | _, _ => .ok ()

def checkEnum (enum : String) (values : List String) (l : Literal) : Except LeafError Unit :=
  match l with
  | .enum v => if values.contains v then .ok () else .error (.noSuchValue enum v values)
  | l => .error (.notEnum enum l.print values)

/-- Checks a literal against a scalar or enum; other types are not leaves and refuse nothing here. -/
def checkLeaf (t : TypeDef) (l : Literal) : Except LeafError Unit :=
  match t with
  | .scalar n => checkScalar n l
  | .enum n vs => checkEnum n vs l
  | _ => .ok ()

/-- An enum admits exactly its own names. -/
theorem checkEnum_enum (enum v : String) (values : List String) :
    checkEnum enum values (.enum v) = .ok () ↔ v ∈ values := by
  unfold checkEnum
  by_cases h : values.contains v <;> simp_all

end Harvest.GraphQL
