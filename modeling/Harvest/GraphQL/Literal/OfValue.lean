import Harvest.Data.Number
import Harvest.Data.Value.Abridged
import Harvest.GraphQL.Literal.Leaf

/-!
# Literals from values

`Literal.ofValue?` writes a dynamic value as a literal of an input type. The type decides the form:
a list takes a list item by item and any other value as its only item, an input object takes the
members that it knows, a scalar converts what it can. A value may have no literal at all, and then it
is left out of the list or object that it was part of; a scalar that refuses a value is an error.
-/

namespace Harvest.GraphQL

/-- Why a value cannot be written as a literal; `shown` is the value in its abridged form. -/
inductive CoercionError where
  | notInteger (shown : String)
  | notInt32 (shown : String)
  | notNumeric (shown : String)
  | noString (shown : String)
  | noBoolean (shown : String)
  | noId (shown : String)
  | notInEnum (enum shown : String)
  /-- An integer is beyond the range of numbers. -/
  | beyondRange
  /-- A scalar of the schema's own has no literal for the value. -/
  | unwritable
  deriving DecidableEq, Repr

def CoercionError.message : CoercionError → String
  | notInteger t => s!"Int cannot represent non-integer value: {t}"
  | notInt32 t => s!"Int cannot represent non 32-bit signed integer value: {t}"
  | notNumeric t => s!"Float cannot represent non numeric value: {t}"
  | noString t => s!"String cannot represent value: {t}"
  | noBoolean t => s!"Boolean cannot represent a non boolean value: {t}"
  | noId t => s!"ID cannot represent value: {t}"
  | notInEnum n t => s!"Enum '{n}' cannot represent value: {t}"
  | beyondRange => "Number too large"
  | unwritable => "Cannot convert value to AST"

namespace Literal

/-- A finite number as a literal, without the fraction of an integer. -/
def ofDouble (x : Double) : Literal :=
  let text := x.display
  .float (if ".0".toList.isSuffixOf text.toList then String.ofList (text.toList.take (text.length - 2))
    else text)

def intOf (v : Value) : Except CoercionError Int :=
  let refused : CoercionError := .notInteger v.abridged
  let number : Except CoercionError Int :=
    match v with
    | .float x => if x.isIntegral then (x.truncate?.map .ok).getD (.error refused) else .error refused
    | v => match v.toInt with
      | .ok i => .ok i
      | .error _ => .error refused
  match number with
  | .error e => .error e
  | .ok i => if minInt ≤ i ∧ i ≤ maxInt then .ok i else .error (.notInt32 v.abridged)

def floatOf (v : Value) : Except CoercionError Literal :=
  match v with
  | .bool b => .ok (.int (toString b.toNat))
  | v =>
    match v.toDouble with
    | .ok x => if x.isFinite then .ok (ofDouble x) else .error (.notNumeric v.abridged)
    | .error .range => .error .beyondRange
    | .error _ => .error (.notNumeric v.abridged)

def stringOf (v : Value) : Except CoercionError String :=
  match v with
  | .str s => .ok s
  | .bool b => .ok (if b then "true" else "false")
  | .int i => .ok (toString i)
  | .float x => if x.isFinite then .ok x.display else .error (.noString v.abridged)
  | .atom (.date d) => .ok d.display
  | .atom (.time t) => .ok t.display
  | v => .error (.noString v.abridged)

def booleanOf (v : Value) : Except CoercionError Bool :=
  match v with
  | .bool b => .ok b
  | .int i => .ok (i != 0)
  | .float x => if x.isFinite then .ok (!x.isZero) else .error (.noBoolean v.abridged)
  | v => .error (.noBoolean v.abridged)

def idOf (v : Value) : Except CoercionError String :=
  match v with
  | .str s => .ok s
  | .int i => .ok (toString i)
  | .float x =>
    match x.isIntegral, x.truncate? with
    | true, some i => .ok (toString i)
    | _, _ => .error (.noId v.abridged)
  | .atom (.date d) => .ok d.display
  | .atom (.time t) => .ok t.display
  | v => .error (.noId v.abridged)

/-- Whether a text is an integer in its shortest form. One line end may follow it. -/
def isIntegerText (s : String) : Bool :=
  let cs := s.toList
  let body := match cs with
    | '-' :: ds => ds
    | ds => ds
  let digits := match body.getLast? with
    | some '\n' => body.dropLast
    | _ => body
  match digits with
  | [] => false
  | ['0'] => true
  | c :: ds => c != '0' && c.isDigit && ds.all Char.isDigit

def ofScalar (scalar : String) (v : Value) : Except CoercionError Literal :=
  match scalar with
  | "Int" => (intOf v).map fun i => .int (toString i)
  | "Float" => floatOf v
  | "String" => (stringOf v).map fun s => .string s false
  | "Boolean" => (booleanOf v).map .boolean
  | "ID" => (idOf v).map fun s => if isIntegerText s then .int s else .string s false
  | _ =>
    match v with
    | .bool b => .ok (.boolean b)
    | .int i => .ok (.int (toString i))
    | .float x => if x.isFinite then .ok (ofDouble x) else .error .unwritable
    | .str s => .ok (.string s false)
    | _ => .error .unwritable

/-- A value of an enum as a literal: the name must be one of the enum's. -/
def ofEnum (enum : String) (values : List String) (v : Value) : Except CoercionError Literal :=
  match v with
  | .str s => if values.contains s then .ok (.enum s) else .error (.notInEnum enum v.abridged)
  | v => .error (.notInEnum enum v.abridged)

/-- The literals of a list of parts, computed from the first to the last. -/
def collectM {β α : Type} (f : β → Except CoercionError (Option α)) :
    List β → Except CoercionError (List α)
  | [] => .ok []
  | b :: bs =>
    match f b with
    | .error e => .error e
    | .ok x => (collectM f bs).map fun xs => x.toList ++ xs

/-- The literal of a value at a type, if there is one. The fuel bounds the nesting of value and type;
`ofValue?` gives enough. -/
def ofValueWith (s : Schema) : Nat → TypeRef → Value → Except CoercionError (Option Literal)
  | 0, _, _ => .ok none
  | fuel + 1, t, v =>
    match t with
    | .nonNull t =>
      match ofValueWith s fuel t v with
      | .ok (some .null) => .ok none
      | r => r
    | t =>
      if v.isNull then .ok (some .null)
      else
        match t with
        | .list item =>
          match v.items? with
          | some vs => (collectM (ofValueWith s fuel item) vs).map fun ls => some (.list ls)
          | none => ofValueWith s fuel item v
        | t =>
          match s.base? t with
          | some (.input ⟨_, fields, _⟩) =>
            match v.opened with
            | .object ms =>
              let field (f : InputValue) : Except CoercionError (Option (String × Literal)) :=
                match Members.field? ms f.name with
                | none => .ok none
                | some w => (ofValueWith s fuel f.type w).map (·.map fun l => (f.name, l))
              (collectM field fields).map fun fs => some (.object fs)
            | _ => .ok none
          | some (.scalar n) => (ofScalar n v).map some
          | some (.enum n vs) => (ofEnum n vs v).map some
          | _ => .error .unwritable

/-- The number of wrappers around a type, counting its name. -/
def typeDepth : TypeRef → Nat
  | .named _ => 1
  | .list t => typeDepth t + 1
  | .nonNull t => typeDepth t + 1

def maxTypeDepth (s : Schema) : Nat :=
  (s.types.flatMap fun t => t.inputFields.map fun f => typeDepth f.type).foldl max 1

mutual

def valueDepth : Value → Nat
  | .atom _ => 1
  | .list xs => itemsDepth xs + 1
  | .object ms => membersDepth ms + 1
  | .set _ => 2
  | .pair a b => max (valueDepth a) (valueDepth b) + 1
  | .anchored _ v => valueDepth v + 1
  | .reference _ => 1

/-- The deepest nesting among items. -/
def itemsDepth : List Value → Nat
  | [] => 0
  | x :: xs => max (valueDepth x) (itemsDepth xs)

/-- The deepest nesting among members. -/
def membersDepth : List (Atom × Value) → Nat
  | [] => 0
  | (_, v) :: ms => max (valueDepth v) (membersDepth ms)

end

def ofValue? (s : Schema) (t : TypeRef) (v : Value) : Except CoercionError (Option Literal) :=
  ofValueWith s (typeDepth t + (maxTypeDepth s + 1) * (valueDepth v + 1)) t v

end Literal

end Harvest.GraphQL
