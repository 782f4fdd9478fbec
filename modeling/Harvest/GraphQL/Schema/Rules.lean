import Harvest.Data.Value.Display
import Harvest.GraphQL.Document.Printer
import Harvest.GraphQL.Schema.Standard

/-!
# Rules for schemas

A schema whose references all resolve can still break the rules of the language. `Schema.flaws` lists
what is wrong: first with its root, then with its directives, then with its types in their order. No
document can be checked against a schema that has flaws.
-/

namespace Harvest.GraphQL

/-- One way in which a schema breaks the rules. A field is given with the type that it belongs to. -/
inductive SchemaFlaw where
  | noQuery
  | reservedName (name : String)
  | noLocations (directive : String)
  | deprecatedDirectiveArgument (directive arg : String)
  | noFields (type : String)
  | deprecatedArgument (type field arg : String)
  | implementsItself (type : String)
  | implementsTwice (type interface : String)
  | missingAncestor (type ancestor interface : String)
  | circularInterface (type interface : String)
  | missingField (interface field type : String)
  | fieldType (interface field : String) (expected : TypeRef) (type : String) (actual : TypeRef)
  | missingArgument (interface field arg type : String)
  | argumentType (interface field arg : String) (expected : TypeRef) (type : String)
      (actual : TypeRef)
  | extraArgument (type field arg interface : String)
  | noMembers (type : String)
  | repeatedMember (type member : String)
  | noValues (type : String)
  | noInputFields (type : String)
  | deprecatedInputField (type field : String)
  | requiredAlternative (type field : String)
  | defaultAlternative (type field : String)
  | circularInput (type : String) (path : List String)
  deriving DecidableEq, Repr

def SchemaFlaw.message : SchemaFlaw → String
  | noQuery => "Query root type must be provided."
  | reservedName n =>
    s!"Name {Text.quoted n} must not begin with '__', which is reserved by GraphQL introspection."
  | noLocations d => s!"Directive @{d} must include 1 or more locations."
  | deprecatedDirectiveArgument d a => s!"Required argument @{d}({a}:) cannot be deprecated."
  | noFields t => s!"Type {t} must define one or more fields."
  | deprecatedArgument t f a => s!"Required argument {t}.{f}({a}:) cannot be deprecated."
  | implementsItself t =>
    s!"Type {t} cannot implement itself because it would create a circular reference."
  | implementsTwice t i => s!"Type {t} can only implement {i} once."
  | missingAncestor t a i => s!"Type {t} must implement {a} because it is implemented by {i}."
  | circularInterface t i =>
    s!"Type {t} cannot implement {i} because it would create a circular reference."
  | missingField i f t => s!"Interface field {i}.{f} expected but {t} does not provide it."
  | fieldType i f e t a =>
    s!"Interface field {i}.{f} expects type {e.print} but {t}.{f} is type {a.print}."
  | missingArgument i f a t =>
    s!"Interface field argument {i}.{f}({a}:) expected but {t}.{f} does not provide it."
  | argumentType i f x e t a =>
    s!"Interface field argument {i}.{f}({x}:) expects type {e.print}"
      ++ s!" but {t}.{f}({x}:) is type {a.print}."
  | extraArgument t f a i =>
    s!"Object field {t}.{f} includes required argument {a} that is missing"
      ++ s!" from the Interface field {i}.{f}."
  | noMembers t => s!"Union type {t} must define one or more member types."
  | repeatedMember t m => s!"Union type {t} can only include type {m} once."
  | noValues t => s!"Enum type {t} must define one or more values."
  | noInputFields t => s!"Input Object type {t} must define one or more fields."
  | deprecatedInputField t f => s!"Required input field {t}.{f} cannot be deprecated."
  | requiredAlternative t f => s!"OneOf input field {t}.{f} must be nullable."
  | defaultAlternative t f => s!"OneOf input field {t}.{f} cannot have a default value."
  | circularInput t path =>
    s!"Cannot reference Input Object '{t}' within itself through a series of non-null fields: "
      ++ "'" ++ ".".intercalate path ++ "'."

namespace Rules

def name (n : String) : List SchemaFlaw := if n.startsWith "__" then [.reservedName n] else []

def isContradictory (v : InputValue) : Bool := v.isRequired && v.isDeprecated

def directive (d : DirectiveDef) : List SchemaFlaw :=
  name d.name ++ (if d.locations.isEmpty then [.noLocations d.name] else [])
    ++ d.args.flatMap fun a =>
      name a.name
        ++ if isContradictory a then [.deprecatedDirectiveArgument d.name a.name] else []

/-- Checks the fields of an object or interface. -/
def fields (type : String) (fs : List Field) : List SchemaFlaw :=
  (if fs.isEmpty then [.noFields type] else [])
    ++ fs.flatMap fun f =>
      name f.name ++ f.args.flatMap fun a =>
        name a.name
          ++ if isContradictory a then [.deprecatedArgument type f.name a.name] else []

/-- Checks that an object or interface implements all that one of its interfaces implements. -/
def ancestors (t : TypeDef) (i : TypeDef) : List SchemaFlaw :=
  (i.interfaces.filter fun a => !t.interfaces.contains a).map fun a =>
    if a == t.name then .circularInterface t.name i.name else .missingAncestor t.name a i.name

def implementedArguments (t i : TypeDef) (field expected : Field) : List SchemaFlaw :=
  (expected.args.flatMap fun a =>
    match field.arg? a.name with
    | none => [.missingArgument i.name expected.name a.name t.name]
    | some b =>
      if a.type == b.type then []
      else [.argumentType i.name expected.name a.name a.type t.name b.type])
    ++ (field.args.filter fun b => (expected.arg? b.name).isNone && b.isRequired).map fun b =>
      .extraArgument t.name expected.name b.name i.name

/-- Checks the fields of an object or interface against those of one of its interfaces. -/
def implementedFields (s : Schema) (t i : TypeDef) : List SchemaFlaw :=
  i.fields.flatMap fun expected =>
    match t.field? expected.name with
    | none => [.missingField i.name expected.name t.name]
    | some f =>
      (if s.isSubRef f.type expected.type then []
        else [.fieldType i.name expected.name expected.type t.name f.type])
        ++ implementedArguments t i f expected

/-- Checks the interfaces of an object or interface; `before` holds those already seen. -/
def interfaces (s : Schema) (t : TypeDef) : List String → List String → List SchemaFlaw
  | _, [] => []
  | before, n :: ns =>
    (if n == t.name then [.implementsItself t.name] else [])
      ++ (if before.contains n then [.implementsTwice t.name n]
        else
          match s.type? n with
          | some i => ancestors t i ++ implementedFields s t i
          | none => [])
      ++ interfaces s t (before ++ [n]) ns

def members (type : String) (ms : List String) : List SchemaFlaw :=
  (if ms.isEmpty then [.noMembers type] else [])
    ++ (ms.zipIdx.filter fun (m, i) => (ms.take i).contains m).map fun (m, _) =>
      .repeatedMember type m

def values (type : String) (vs : List String) : List SchemaFlaw :=
  (if vs.isEmpty then [.noValues type] else []) ++ vs.flatMap name

def alternative (type : String) (f : InputValue) : List SchemaFlaw :=
  (if f.type.isNonNull then [.requiredAlternative type f.name] else [])
    ++ if f.hasDefault then [.defaultAlternative type f.name] else []

def inputFields (o : InputObject) : List SchemaFlaw :=
  (if o.fields.isEmpty then [.noInputFields o.name] else [])
    ++ o.fields.flatMap fun f =>
      name f.name ++ (if isContradictory f then [.deprecatedInputField o.name f.name] else [])
        ++ if o.oneOf then alternative o.name f else []

/-- The input object that a field cannot do without. -/
def neededInput? (s : Schema) (f : InputValue) : Option InputObject :=
  match f.type with
  | .nonNull (.named n) =>
    match s.type? n with
    | some (.input o) => some o
    | _ => none
  | _ => none

mutual

/-- Looks for circles of required fields through an input object. `path` holds the fields that led
here, each with its type; `visited` holds the types that have been looked at. -/
def circles (s : Schema) : Nat → List (String × String) → List String → InputObject →
    List SchemaFlaw × List String
  | 0, _, visited, _ => ([], visited)
  | fuel + 1, path, visited, o =>
    if visited.contains o.name then ([], visited)
    else circlesThrough s fuel path (o.name :: visited) o.name o.fields

/-- Looks for circles through fields of an input object. -/
def circlesThrough (s : Schema) : Nat → List (String × String) → List String → String →
    List InputValue → List SchemaFlaw × List String
  | 0, _, visited, _, _ => ([], visited)
  | _ + 1, _, visited, _, [] => ([], visited)
  | fuel + 1, path, visited, owner, f :: fs =>
    let (found, visited) :=
      match neededInput? s f with
      | none => ([], visited)
      | some o =>
        let path' := path ++ [(owner, f.name)]
        match path'.findIdx? (·.1 == o.name) with
        | some i => ([.circularInput o.name ((path'.drop i).map (·.2))], visited)
        | none => circles s fuel path' visited o
    let (more, visited) := circlesThrough s fuel path visited owner fs
    (found ++ more, visited)

end

def circleBound (s : Schema) : Nat :=
  s.types.foldl (fun n t => n + t.inputFields.length + 2) 2

/-- Checks a type; `visited` holds the input objects that were looked at for circles. -/
def type (s : Schema) (visited : List String) (t : TypeDef) : List SchemaFlaw × List String :=
  let own := if Standard.introspectionTypes.any (·.name == t.name) then [] else name t.name
  match t with
  | .scalar _ => (own, visited)
  | .object n is fs => (own ++ fields n fs ++ interfaces s t [] is, visited)
  | .interface n is fs => (own ++ fields n fs ++ interfaces s t [] is, visited)
  | .union n ms => (own ++ members n ms, visited)
  | .enum n vs => (own ++ values n vs, visited)
  | .input o =>
    let (found, visited) := circles s (circleBound s) [] visited o
    (own ++ inputFields o ++ found, visited)

def types (s : Schema) : List String → List TypeDef → List SchemaFlaw
  | _, [] => []
  | visited, t :: ts =>
    let (found, visited) := type s visited t
    found ++ types s visited ts

end Rules

/-- Everything in which a schema breaks the rules. -/
def Schema.flaws (s : Schema) : List SchemaFlaw :=
  (if s.query.isSome then [] else [.noQuery])
    ++ s.directives.flatMap Rules.directive ++ Rules.types s [] s.types

end Harvest.GraphQL
