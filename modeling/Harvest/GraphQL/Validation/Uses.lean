import Harvest.GraphQL.Validation.Scope
import Harvest.GraphQL.Validation.Spreads
import Harvest.GraphQL.Validation.Values

/-!
# Uses of variables

Where the variables of an operation stand: in its own selections and in those of the fragments that it
reaches. Every use is known with the type that its place expects, and it has to be declared with a type
that fits there.
-/

namespace Harvest.GraphQL

/-- The argument that a name stands for at a place: that of the directive, if it is known, and else
that of the field. -/
def Scope.argument? (sc : Scope) (directive : Option DirectiveDef) (name : String) :
    Option InputValue :=
  match directive with
  | some d => d.args.find? (·.name == name)
  | none => sc.field.bind (·.arg? name)

/-- One use of a variable. -/
structure VariableUse where
  name : String
  /-- The type that the place expects. -/
  type : Option TypeRef
  /-- Whether the place has a value of its own where none is given. -/
  hasDefault : Bool
  deriving Repr

namespace Uses

mutual

def ofLiteral (s : Schema) (expected : Option TypeRef) (hasDefault : Bool) :
    Literal → List VariableUse
  | .variable n => [⟨n, expected, hasDefault⟩]
  | .list items => ofItems s (Values.itemType s expected) items
  | .object fields => ofFields s (Values.inputObject? s expected) fields
  | _ => []

def ofItems (s : Schema) (expected : Option TypeRef) : List Literal → List VariableUse
  | [] => []
  | v :: vs => ofLiteral s expected false v ++ ofItems s expected vs

def ofFields (s : Schema) (object : Option InputObject) :
    List (String × Literal) → List VariableUse
  | [] => []
  | (name, v) :: rest =>
    let field := object.bind fun o => o.fields.find? (·.name == name)
    ofLiteral s (field.bind fun f => s.inputOf? f.type) ((field.map InputValue.hasDefault).getD false) v
      ++ ofFields s object rest

end

def ofArguments (sc : Scope) (directive : Option DirectiveDef) (args : List Argument) :
    List VariableUse :=
  args.flatMap fun a =>
    let d := sc.argument? directive a.name
    ofLiteral sc.schema (d.bind fun d => sc.schema.inputOf? d.type)
      ((d.map InputValue.hasDefault).getD false) a.value

def ofDirectives (sc : Scope) (ds : List Directive) : List VariableUse :=
  ds.flatMap fun d => ofArguments sc (sc.schema.directive? d.name) d.arguments

mutual

def ofSelection (sc : Scope) : Selection → List VariableUse
  | .field _ name args ds inner =>
    let sc := sc.select name
    ofArguments sc none args ++ ofDirectives sc ds ++ ofSelections sc.within inner
  | .spread _ ds => ofDirectives sc ds
  | .inline on ds inner =>
    let sc := sc.inline on
    ofDirectives sc ds ++ ofSelections sc.within inner

def ofSelections (sc : Scope) : List Selection → List VariableUse
  | [] => []
  | s :: ss => ofSelection sc s ++ ofSelections sc ss

end

/-- The uses of variables in an operation and all fragments that it reaches. -/
def ofOperation (s : Schema) (d : Document) (o : Operation) : List VariableUse :=
  let sc := Scope.operation s o.kind
  ofDirectives sc o.directives ++ ofSelections sc.within o.selections
    ++ (Spreads.reached d o).flatMap fun f =>
      let sc := Scope.fragment s f.on
      ofDirectives sc f.directives ++ ofSelections sc.within f.selections

def isNull : Literal → Bool
  | .null => true
  | _ => false

/-- Whether a variable may stand at a place. One that may be null fits where null is excluded only if
the variable or the place has a value to fall back on. -/
def fits (s : Schema) (declared : TypeRef) (default : Option Literal) (use : VariableUse)
    (position : TypeRef) : Bool :=
  if position.isNonNull && !declared.isNonNull then
    let fallsBack := default.any fun l => !isNull l
    (fallsBack || use.hasDefault) && s.isSubRef declared position.nullable
  else s.isSubRef declared position

def checkPosition (s : Schema) (o : Operation) (use : VariableUse) : List Violation :=
  match o.variableDefinitions.reverse.find? (·.name == use.name), use.type with
  | some v, some position =>
    match s.known? v.type with
    | some t =>
      if fits s t v.default use position then [] else [.variablePosition use.name t position]
    | none => []
  | _, _ => []

/-- What is wrong with the use of variables in an operation: first what is not declared, then what is
not used, then what does not fit. -/
def check (s : Schema) (d : Document) (o : Operation) : List Violation :=
  let uses := ofOperation s d o
  ((uses.filter fun u => o.variableDefinitions.all (·.name != u.name)).map fun u =>
      Violation.undefinedVariable u.name o.name)
    ++ ((o.variableDefinitions.filter fun v => uses.all (·.name != v.name)).map fun v =>
      Violation.unusedVariable v.name o.name)
    ++ uses.flatMap (checkPosition s o)

end Uses

end Harvest.GraphQL
