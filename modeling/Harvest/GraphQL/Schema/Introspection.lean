import Harvest.Data.Value.Display
import Harvest.GraphQL.Document.Parser
import Harvest.GraphQL.Literal.Leaf
import Harvest.GraphQL.Schema.Standard

/-!
# Schemas from introspection results

`Schema.ofIntrospection` rebuilds a schema from the answer to an introspection query. Faults are found
in a fixed order: the types one by one, the root types, the directives, the description, and then the
interfaces and fields of each type. `Flaw` says what is wrong and `BuildError` in which part of which type.
-/

namespace Harvest.GraphQL

/-- A part of a type that refers to other types. -/
inductive TypePart where
  | interfaces
  | fields
  | members
  deriving DecidableEq, Repr

def TypePart.word : TypePart → String
  | .interfaces => "interfaces"
  | .fields => "fields"
  | .members => "types"

/-- What is wrong with an introspection result. -/
inductive Flaw where
  /-- It holds no description of a schema. -/
  | noSchema
  /-- A type lacks its name or kind, or has a kind that does not exist. -/
  | unknownKind
  /-- A required part is missing. -/
  | missing (part : String)
  /-- A reference to a type has no name. -/
  | namelessReference
  /-- A reference names a type that is not there. -/
  | unknownType (name : String)
  /-- A wrapper has nothing inside. -/
  | emptyWrapper
  /-- A type is of another kind than its use requires. -/
  | wrongKind (type kind : String)
  /-- A type that is no output type is used for a field. -/
  | notOutput (type : String)
  /-- A type that is no input type is used for an argument or input field. -/
  | notInput (type use : String)
  | nameNotText
  | emptyName
  | badNameCharacter (name : String)
  | badNameStart (name : String)
  | reservedEnumValue (name : String)
  /-- A default value cannot be read. -/
  | badDefault (e : SyntaxError)
  /-- Anything else that keeps the data from being used. -/
  | malformed
  deriving DecidableEq, Repr

/-- The sentence about a flaw; nothing for data that is malformed in some other way. -/
def Flaw.message : Flaw → String
  | noSchema =>
    "Invalid or incomplete introspection result. Ensure that you are passing the 'data' attribute"
      ++ " of an introspection response and no 'errors' were returned alongside"
  | unknownKind =>
    "Invalid or incomplete introspection result. Ensure that a full introspection query is used"
      ++ " in order to build a client schema"
  | missing part => s!"Introspection result missing {part}"
  | namelessReference => "Unknown type reference"
  | unknownType n =>
    s!"Invalid or incomplete schema, unknown type: {n}. Ensure that a full introspection query is"
      ++ " used in order to build a client schema."
  | emptyWrapper => "Decorated type deeper than introspection query."
  | wrongKind t "nullable" => s!"Expected {t} to be a GraphQL nullable type."
  | wrongKind t kind => s!"Expected {t} to be a GraphQL {kind} type."
  | notOutput t => s!"Introspection must provide output type for fields, but received: {t}."
  | notInput t use => s!"Introspection must provide input type for {use}, but received: {t}."
  | nameNotText => "Expected name to be a string."
  | emptyName => "Expected name to be a non-empty string."
  | badNameCharacter n =>
    s!"Names must only contain [_a-zA-Z0-9] but {Text.quoted n} does not."
  | badNameStart n => s!"Names must start with [_a-zA-Z] but {Text.quoted n} does not."
  | reservedEnumValue n => s!"Enum values cannot be named: {n}."
  | badDefault e => e.message
  | malformed => ""

/-- A flaw with the parts of types that it was found in, the outermost first. -/
structure BuildError where
  within : List (String × TypePart)
  flaw : Flaw
  deriving DecidableEq, Repr

namespace BuildError

def ofFlaw (f : Flaw) : BuildError := ⟨[], f⟩

/-- The sentence about a flaw up to the first brace or line end, where data that it quotes begins. -/
def cause (e : BuildError) : String :=
  String.ofList (e.flaw.message.toList.takeWhile fun c => c ≠ '\x7b' && c ≠ '\n')

/-- The sentence about an error: the outermost part, and the flaw if it lies directly there. -/
def message (e : BuildError) : String :=
  match e.within with
  | [] => e.cause
  | (type, part) :: inner =>
    s!"{type} {part.word} cannot be resolved."
      ++ if inner.isEmpty ∧ e.cause ≠ "" then " " ++ e.cause else ""

end BuildError

namespace Introspection

/-- A result of reading a part of an introspection result. -/
abbrev Reading := Except BuildError

def flaw {α : Type} (f : Flaw) : Reading α := .error (.ofFlaw f)

def inPart {α : Type} (type : String) (part : TypePart) (r : Reading α) : Reading α :=
  match r with
  | .ok a => .ok a
  | .error e => .error { e with within := (type, part) :: e.within }

def members (v : Value) : Reading Members :=
  match v with
  | .object ms => .ok ms
  | _ => flaw .malformed

def required (ms : Members) (key : String) : Reading Value :=
  match Members.field? ms key with
  | some v => .ok v
  | none => flaw .malformed

/-- A member that may be null or absent. -/
def optional (ms : Members) (key : String) : Option Value :=
  (Members.field? ms key).bind fun v => if v.isNull then none else some v

/-- The entries of a list. Empty containers of other kinds have no entries either. -/
def entries (v : Value) : Reading (List Value) :=
  match v with
  | .list xs => .ok xs
  | .object [] => .ok []
  | .object ms => .ok (ms.map fun m => .atom m.1)
  | .str s => .ok (s.toList.map fun c => .str c.toString)
  | _ => flaw .malformed

/-- A member that may be absent and else must be a text. -/
def optionalText (ms : Members) (key : String) : Reading Unit :=
  match optional ms key with
  | none => .ok ()
  | some (.str _) => .ok ()
  | some _ => flaw .malformed

def checkName (v : Value) : Reading String :=
  match v with
  | .null => flaw .malformed
  | .list _ => flaw .malformed
  | .object _ => flaw .malformed
  | .str s =>
    match s.toList with
    | [] => flaw .emptyName
    | c :: cs =>
      if !cs.all isNameContinue then flaw (.badNameCharacter s)
      else if !isNameStart c then flaw (.badNameStart s)
      else .ok s
  | _ => flaw .nameNotText

/-! ### Types without their references -/

/-- A type as first read: what refers to other types is kept for later. -/
inductive Outline where
  | ready (t : TypeDef)
  | object (name : String) (source : Members)
  | interface (name : String) (source : Members)
  | union (name : String) (members : Value)
  | input (name : String) (fields : Value) (oneOf : Bool)
  deriving Repr

namespace Outline

def name : Outline → String
  | ready t => t.name
  | object n _ => n
  | interface n _ => n
  | union n _ => n
  | input n _ _ => n

/-- Whether the type can be the type of an argument. -/
def isInput : Outline → Bool
  | ready t => t.isInput
  | input .. => true
  | _ => false

/-- Whether the type can be the type of a field. -/
def isOutput : Outline → Bool
  | ready t => t.isOutput
  | input .. => false
  | _ => true

def isObject : Outline → Bool
  | ready t => t.isObject
  | object .. => true
  | _ => false

def isInterface : Outline → Bool
  | ready t => t.isInterface
  | interface .. => true
  | _ => false

end Outline

def enumValues (v : Value) : Reading (List String) := do
  let names ← (← entries v).mapM fun e => do
    let ms ← members e
    let name ← required ms "name"
    match name with
    | .list _ => flaw .malformed
    | .object _ => flaw .malformed
    | _ => pure ()
    optionalText ms "description"
    optionalText ms "deprecationReason"
    return name
  let checked ← names.mapM fun v => do
    let name ← checkName v
    if name = "true" ∨ name = "false" ∨ name = "null" then flaw (.reservedEnumValue name)
    else return name
  return checked.eraseDups

def standard? (name : Value) : Option TypeDef :=
  match name with
  | .str s => Standard.type? s
  | _ => none

def notStandard (name : Value) : Reading Unit :=
  match standard? name with
  | some _ => flaw .malformed
  | none => .ok ()

/-- Reads a type without its references. Standard types stand for themselves. -/
def outline (v : Value) : Reading Outline := do
  let ms ← members v
  let name ← required ms "name"
  match Members.field? ms "kind" with
  | none => flaw .unknownKind
  | some kind =>
    match kind with
    | .str "SCALAR" =>
      match standard? name with
      | some t => return .ready t
      | none =>
        let n ← checkName name
        optionalText ms "description"
        optionalText ms "specifiedByURL"
        return .ready (.scalar n)
    | .str "OBJECT" =>
      match standard? name with
      | some t => return .ready t
      | none =>
        let n ← checkName name
        optionalText ms "description"
        return .object n ms
    | .str "INTERFACE" =>
      notStandard name
      let n ← checkName name
      optionalText ms "description"
      return .interface n ms
    | .str "UNION" =>
      match optional ms "possibleTypes" with
      | none => flaw (.missing "possibleTypes")
      | some types =>
        notStandard name
        let n ← checkName name
        optionalText ms "description"
        return .union n types
    | .str "ENUM" =>
      match optional ms "enumValues" with
      | none => flaw (.missing "enumValues")
      | some values =>
        match standard? name with
        | some t => return .ready t
        | none =>
          -- the values are read before the name is checked, and checked after it
          let vs := enumValues values
          match vs with
          | .error ⟨w, .malformed⟩ => throw ⟨w, .malformed⟩
          | _ => pure ()
          let n ← checkName name
          optionalText ms "description"
          return .ready (.enum n (← vs))
    | .str "INPUT_OBJECT" =>
      match optional ms "inputFields" with
      | none => flaw (.missing "inputFields")
      | some fields =>
        notStandard name
        let n ← checkName name
        optionalText ms "description"
        return .input n fields (Members.field ms "isOneOf").isTruthy
    | .list _ => flaw .malformed
    | .object _ => flaw .malformed
    | _ => flaw .unknownKind

/-- Reads all types without their references; of two types with one name the later counts. -/
def outlines : List Value → List Outline → Reading (List Outline)
  | [], acc => .ok acc
  | v :: vs, acc => do
    let o ← outline v
    let o := match Standard.type? o.name with
      | some t => .ready t
      | none => o
    let rec put : List Outline → List Outline
      | [] => [o]
      | p :: ps => if p.name == o.name then o :: ps else p :: put ps
    outlines vs (put acc)

/-! ### References -/

def find? (os : List Outline) (name : String) : Option Outline := os.find? (·.name == name)

def reference (os : List Outline) : Nat → Value → Reading TypeRef
  | 0, _ => flaw .malformed
  | fuel + 1, v => do
    let ms ← members v
    let wrapped : Reading TypeRef :=
      let inner := Members.field ms "ofType"
      if inner.isTruthy then reference os fuel inner else flaw .emptyWrapper
    match Members.field ms "kind" with
    | .str "LIST" => return .list (← wrapped)
    | .str "NON_NULL" =>
      let t ← wrapped
      if t.isNonNull then flaw (.wrongKind t.print "nullable") else return .nonNull t
    | _ =>
      let name := Members.field ms "name"
      if !name.isTruthy then flaw .namelessReference
      else
        match name with
        | .str n => if (find? os n).isSome then return .named n else flaw (.unknownType n)
        | .list _ => flaw .malformed
        | .object _ => flaw .malformed
        | v => flaw (.unknownType v.display)

mutual

/-- The number of collections in a value, which bounds the wrappers of a reference. -/
def collections : Value → Nat
  | .list xs => collectionsIn xs + 1
  | .object ms => collectionsBelow ms + 1
  | .pair a b => collections a + collections b + 1
  | .anchored _ v => collections v + 1
  | _ => 0

def collectionsIn : List Value → Nat
  | [] => 0
  | x :: xs => collections x + collectionsIn xs

def collectionsBelow : List (Atom × Value) → Nat
  | [] => 0
  | (_, v) :: ms => collections v + collectionsBelow ms

end

/-- One more than the wrappers that a reference can have. -/
def wrapperBound (v : Value) : Nat := collections v + 1

def typeOf (os : List Outline) (v : Value) : Reading TypeRef := reference os (wrapperBound v) v

def objectOf (os : List Outline) (v : Value) : Reading String := do
  let t ← typeOf os v
  match t with
  | .named n =>
    if ((find? os n).map Outline.isObject).getD false then return n
    else flaw (.wrongKind n "Object")
  | t => flaw (.wrongKind t.print "Object")

def interfaceOf (os : List Outline) (v : Value) : Reading String := do
  let t ← typeOf os v
  match t with
  | .named n =>
    if ((find? os n).map Outline.isInterface).getD false then return n
    else flaw (.wrongKind n "Interface")
  | t => flaw (.wrongKind t.print "Interface")

/-! ### Default values -/

/-- Whether a literal is a variable, which has no value in a schema. -/
def isVariable : Literal → Bool
  | .variable _ => true
  | _ => false

/-- Whether exactly one field has a value, which is not null. Fields that are unknown do not count. -/
def isSole (fields : List InputValue) (given : List (String × Literal)) : Bool :=
  let value (f : InputValue) : Option Literal :=
    ((given.reverse.find? (·.1 == f.name)).map (·.2)).filter fun l => !isVariable l
  match fields.filter fun f => (value f).isSome || f.hasDefault with
  | [f] => match value f with
    | some .null => false
    | _ => true
  | _ => false

/-- Whether a literal is a value of an input type; `fieldsOf` gives the fields of an input object,
or the reason why it has none. The fuel bounds the nesting of literal and type. -/
def admits (os : List Outline) (fieldsOf : String → Value → Reading (List InputValue)) :
    Nat → TypeRef → Literal → Reading Bool
  | 0, _, _ => .ok false
  | fuel + 1, t, l => do
    if isVariable l then return false
    match t with
    | .nonNull t => match l with
      | .null => return false
      | l => admits os fieldsOf fuel t l
    | t =>
      match l with
      | .null => return true
      | l =>
        match t with
        | .list item =>
          match l with
          | .list ls => allItems item ls fuel
          | l => admits os fieldsOf fuel item l
        | t =>
          match find? os t.baseName with
          | some (.input n source oneOf) =>
            match l with
            | .object given =>
              let fields ← fieldsOf n source
              if ← allFields fields given fuel then return !oneOf || isSole fields given
              else return false
            | _ => return false
          | some (.ready d) => return (checkLeaf d l).toOption.isSome
          | _ => return false
where
  /-- Whether every item is a value of the type; a variable may stand for null. -/
  allItems (item : TypeRef) (ls : List Literal) (fuel : Nat) : Reading Bool :=
    match ls with
    | [] => .ok true
    | l :: ls => do
      let ok ← if isVariable l then pure !item.isNonNull else admits os fieldsOf fuel item l
      if ok then allItems item ls fuel else return false
  /-- Whether every field is given a value of its type where it needs one. -/
  allFields (fields : List InputValue) (given : List (String × Literal)) (fuel : Nat) :
      Reading Bool :=
    match fields with
    | [] => .ok true
    | f :: fields => do
      let value := (given.reverse.find? (·.1 == f.name)).map (·.2)
      let ok ← match value with
        | none => pure (f.hasDefault || !f.type.isNonNull)
        | some l =>
          if isVariable l then pure (f.hasDefault || !f.type.isNonNull)
          else admits os fieldsOf fuel f.type l
      if ok then allFields fields given fuel else return false

mutual

/-- How deeply lists and objects are nested in a literal. -/
def nesting : Literal → Nat
  | .list ls => nestingIn ls + 1
  | .object given => nestingBelow given + 1
  | _ => 0

def nestingIn : List Literal → Nat
  | [] => 0
  | l :: ls => max (nesting l) (nestingIn ls)

def nestingBelow : List (String × Literal) → Nat
  | [] => 0
  | (_, l) :: given => max (nesting l) (nestingBelow given)

end

def wrappers : TypeRef → Nat
  | .named _ => 0
  | .list t => wrappers t + 1
  | .nonNull t => wrappers t + 1

/-- No field of an input object has a type with more wrappers. -/
def fieldWrappers (os : List Outline) : Nat :=
  (os.map fun o => match o with
    | .input _ fields _ => collections fields
    | _ => 0).foldl max 0

/-- The bound on looking for the value of a literal: on each of its levels a type is freed of its
wrappers. -/
def defaultBound (os : List Outline) (t : TypeRef) (l : Literal) : Nat :=
  (nesting l + 1) * (max (wrappers t) (fieldWrappers os) + 1)

def defaultLiteral (v : Value) : Reading Literal :=
  match v with
  | .str s =>
    match Literal.parse s with
    | .ok l => .ok l
    | .error e => flaw (.badDefault e)
  | _ => flaw .malformed

/-- Reads an argument or input field without checking its name. `use` is the word for its kind. -/
def inputValue (os : List Outline) (fieldsOf : String → Value → Reading (List InputValue))
    (use : String) (v : Value) : Reading (Value × InputValue) := do
  let ms ← members v
  let name ← required ms "name"
  let t ← typeOf os (← required ms "type")
  if !((find? os t.baseName).map Outline.isInput).getD false then flaw (.notInput t.print use)
  let hasDefault ←
    match optional ms "defaultValue" with
    | none => pure false
    | some d => do
      let l ← defaultLiteral d
      admits os fieldsOf (defaultBound os t l) t l
  optionalText ms "description"
  optionalText ms "deprecationReason"
  let isDeprecated := (optional ms "deprecationReason").isSome
  match name with
  | .list _ => flaw .malformed
  | .object _ => flaw .malformed
  | _ => pure ()
  return (name, { name := "", type := t, hasDefault, isDeprecated })

/-- Checks the names of input values; of two with one name the later counts. -/
def named (vs : List (Value × InputValue)) : Reading (List InputValue) := do
  let checked ← vs.mapM fun (n, v) => do return { v with name := ← checkName n }
  return checked.foldl put []
where
  /-- Sets the input value with its name. -/
  put : List InputValue → InputValue → List InputValue
    | [], v => [v]
    | u :: us, v => if u.name == v.name then v :: us else u :: put us v

/-- The fields of an input object. The fuel bounds how deeply default values refer to further input
objects. -/
def inputFields (os : List Outline) : Nat → String → Value → Reading (List InputValue)
  | 0, name, _ => inPart name .fields (flaw .malformed)
  | fuel + 1, name, source => do
    let read ← inPart name .fields do
      (← entries source).mapM (inputValue os (inputFields os fuel) "input fields")
    named read

/-- The bound on references between default values: one that comes back to an input object that it has
passed goes on for ever. -/
def inputBound (os : List Outline) : Nat := os.length + 1

/-! ### Fields and directives -/

def arguments (os : List Outline) (v : Value) : Reading (List InputValue) := do
  let read ← (← entries v).mapM (inputValue os (inputFields os (inputBound os)) "arguments")
  named read

def field (os : List Outline) (v : Value) : Reading (Value × Field) := do
  let ms ← members v
  let name ← required ms "name"
  let t ← typeOf os (← required ms "type")
  if !((find? os t.baseName).map Outline.isOutput).getD false then flaw (.notOutput t.print)
  match optional ms "args" with
  | none => flaw (.missing "field args")
  | some args =>
    let args ← arguments os args
    optionalText ms "description"
    optionalText ms "deprecationReason"
    match name with
    | .list _ => flaw .malformed
    | .object _ => flaw .malformed
    | _ => pure ()
    return (name, { name := "", type := t, args })

def putField : List Field → Field → List Field
  | [], f => [f]
  | g :: gs, f => if g.name == f.name then f :: gs else g :: putField gs f

/-- The fields of an object or interface; of two with one name the later counts. -/
def fields (os : List Outline) (type : String) (source : Members) : Reading (List Field) := do
  let read ← inPart type .fields do
    match optional source "fields" with
    | none => flaw (.missing "fields")
    | some fs => (← entries fs).mapM (field os)
  let checked ← read.mapM fun (n, f) => do return { f with name := ← checkName n }
  return checked.foldl putField []

/-- The interfaces of an object or interface; an interface may leave them out. -/
def interfaces (os : List Outline) (type : String) (source : Members) (isInterface : Bool) :
    Reading (List String) :=
  inPart type .interfaces do
    match optional source "interfaces" with
    | none => if isInterface then return [] else flaw (.missing "interfaces")
    | some is => (← entries is).mapM (interfaceOf os)

def resolve (os : List Outline) : Outline → Reading TypeDef
  | .ready t => .ok t
  | .object n source => do
    let is ← interfaces os n source false
    return .object n is (← fields os n source)
  | .interface n source => do
    let is ← interfaces os n source true
    return .interface n is (← fields os n source)
  | .union n types => do
    let ms ← inPart n .members do (← entries types).mapM (objectOf os)
    return .union n ms
  | .input n source oneOf => do
    return .input ⟨n, ← inputFields os (inputBound os) n source, oneOf⟩

def rootType (os : List Outline) (schema : Members) (key : String) : Reading (Option String) :=
  match optional schema key with
  | none => .ok none
  | some v => do return some (← objectOf os v)

def directive (os : List Outline) (v : Value) : Reading DirectiveDef := do
  let ms ← members v
  match optional ms "args", optional ms "locations" with
  | none, _ => flaw (.missing "directive args")
  | _, none => flaw (.missing "directive locations")
  | some args, some locations =>
    let name ← required ms "name"
    let places ← entries locations
    let readArgs ← (← entries args).mapM (inputValue os (inputFields os (inputBound os)) "arguments")
    let n ← checkName name
    let places ← places.mapM fun p =>
      match p with
      | .str s => if Parser.directiveLocations.contains s then pure s else flaw .malformed
      | _ => flaw .malformed
    let args ← named readArgs
    let repeatable ← match Members.field? ms "isRepeatable" with
      | none => pure false
      | some (.bool b) => pure b
      | some _ => flaw .malformed
    optionalText ms "description"
    optionalText ms "deprecationReason"
    return { name := n, repeatable, locations := places, args }

end Introspection

open Introspection in
/-- Rebuilds a schema from the description in an introspection result. -/
def Schema.ofIntrospection (result : Value) : Except BuildError Schema := do
  match result.field "__schema" with
  | .object schema =>
    let types ← required schema "types"
    let os ← outlines (← entries types) []
    let query ← rootType os schema "queryType"
    let mutation ← rootType os schema "mutationType"
    let subscription ← rootType os schema "subscriptionType"
    let directives ←
      match Members.field? schema "directives" with
      | none => pure []
      | some v => if v.isTruthy then do (← entries v).mapM (directive os) else pure []
    optionalText schema "description"
    let resolved ← os.mapM (resolve os)
    return { types := Standard.complete resolved, query, mutation, subscription, directives }
  | _ => flaw .noSchema

end Harvest.GraphQL
