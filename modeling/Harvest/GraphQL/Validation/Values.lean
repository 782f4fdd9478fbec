import Harvest.GraphQL.Validation.Scope
import Harvest.GraphQL.Validation.Violation

/-!
# Values in documents

What is wrong with the values that a document gives to arguments and variables. A value that is
altogether of the wrong form is reported once, as a whole; what lies inside it is no longer compared
with a type, though two fields of one name are still found there.
-/

namespace Harvest.GraphQL

namespace Values

/-- The names that occur more than once, each once, in order. -/
def repeated (names : List String) : List String :=
  names.eraseDups.filter fun n => 1 < names.count n

/-- Compares a value that has no parts of its own, or is taken as a whole, with a type. -/
def checkWhole (s : Schema) (expected : Option TypeRef) (v : Literal) : List Violation :=
  match expected with
  | none => []
  | some t =>
    match s.base? t with
    | none => []
    | some d =>
      if d.isLeaf then
        match checkLeaf d v with
        | .ok () => []
        | .error e => [.wrongLeaf e]
      else [.wrongValue t v]

def inputObject? (s : Schema) (expected : Option TypeRef) : Option InputObject :=
  match expected.bind s.base? with
  | some (.input o) => some o
  | _ => none

/-- The type of the items of a list. Where no list is expected, the items are measured by the type
itself. -/
def itemType (s : Schema) (expected : Option TypeRef) : Option TypeRef :=
  expected.bind fun t => s.inputOf? (t.listItem?.getD t.nullable)

def expectsList (expected : Option TypeRef) : Bool := (expected.bind TypeRef.listItem?).isSome

def missingFields (o : InputObject) (given : List String) : List Violation :=
  (o.fields.filter fun f => f.isRequired && !given.contains f.name).map fun f =>
    .missingInputField o.name f.name f.type

/-- Checks that exactly one field is given, and not as null. Of a field that is given several times the
last value counts. -/
def checkSole (type : String) (given : List (String × Literal)) : List Violation :=
  match (given.map (·.1)).eraseDups, given.getLast? with
  | [name], some (_, .null) => [.nullField type name]
  | [_], _ => []
  | _, _ => [.notOneField type]

/-- Checks one given field of an input object: that it exists, and that it is not given again. -/
def checkField (object : Option InputObject) (compared : Bool) (before : List String)
    (name : String) (expected : Option TypeRef) : List Violation :=
  let unknown :=
    match object, expected with
    | some o, none =>
      if compared then
        [.unknownInputField name o.name (Suggestion.near name (o.fields.map InputValue.name))]
      else []
    | _, _ => []
  unknown ++ if before.contains name then [.duplicateInputField name] else []

mutual

/-- Checks a value against a type. `compared` says whether it lies in a value that has the right
form so far. -/
def check (s : Schema) (expected : Option TypeRef) (compared : Bool) : Literal → List Violation
  | .variable _ => []
  | .null =>
    match expected with
    | some t => if compared && t.isNonNull then [.wrongValue t .null] else []
    | none => []
  | .list items =>
    let item := itemType s expected
    if compared && !expectsList expected then
      checkWhole s item (.list items) ++ checkItems s item false items
    else checkItems s item compared items
  | .object fields =>
    match inputObject? s expected with
    | none =>
      (if compared then checkWhole s expected (.object fields) else [])
        ++ checkFields s none false [] fields
    | some o =>
      (if compared then missingFields o (fields.map (·.1)) else [])
        ++ (if compared && o.oneOf then checkSole o.name fields else [])
        ++ checkFields s (some o) compared [] fields
  | .int t => if compared then checkWhole s expected (.int t) else []
  | .float t => if compared then checkWhole s expected (.float t) else []
  | .string t b => if compared then checkWhole s expected (.string t b) else []
  | .boolean b => if compared then checkWhole s expected (.boolean b) else []
  | .enum n => if compared then checkWhole s expected (.enum n) else []

def checkItems (s : Schema) (expected : Option TypeRef) (compared : Bool) :
    List Literal → List Violation
  | [] => []
  | v :: vs => check s expected compared v ++ checkItems s expected compared vs

/-- Checks the fields of an object; `before` holds the names of those already seen. -/
def checkFields (s : Schema) (object : Option InputObject) (compared : Bool)
    (before : List String) : List (String × Literal) → List Violation
  | [] => []
  | (name, v) :: rest =>
    let expected := object.bind fun o =>
      (o.fields.find? (·.name == name)).bind fun f => s.inputOf? f.type
    checkField object compared before name expected ++ check s expected compared v
      ++ checkFields s object compared (before ++ [name]) rest

end

end Values

end Harvest.GraphQL
