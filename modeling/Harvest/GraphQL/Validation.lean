import Harvest.GraphQL.Validation.Overlap
import Harvest.GraphQL.Validation.Roots
import Harvest.GraphQL.Validation.Uses

/-!
# Validation

`Document.violations` holds everything that is wrong with a document of operations and fragments, in
the order of the document: what is wrong with a place itself comes first, then what is wrong within it,
and last what can only be said when all of it has been seen.

The document is walked once, by `Check`, which leaves the comparison of overlapping fields open as a
finding of its own; `settle` carries out these comparisons in order. The search ends where a condition
cannot be evaluated, which is a finding too.
-/

namespace Harvest.GraphQL

/-- What is found at a place: a violation, a selection set whose fields are to be compared, or a
condition that ends the search. -/
inductive Finding where
  | violation (v : Violation)
  | stuck (e : ConditionError)
  | compare (parent : Option TypeDef) (place : Overlap.Place) (selections : List Selection)

/-- The findings of violations that are known. -/
def Finding.ofList (vs : List Violation) : List Finding := vs.map .violation

namespace Check

open Finding

/-! ### Names of types and fields -/

/-- Checks that a type is known by its name. -/
def typeName (s : Schema) (name : String) : List Violation :=
  if (s.type? name).isSome then []
  else [.unknownType name (Suggestion.near name (s.types.map TypeDef.name))]

def countType (t : TypeDef) : List (TypeDef × Nat) → List (TypeDef × Nat)
  | [] => [(t, 1)]
  | (u, n) :: rest => if u.name == t.name then (u, n + 1) :: rest else (u, n) :: countType t rest

/-- The types behind an abstract type that have a field, and the interfaces of these types that have
it, each with the number of its appearances. -/
def typesWithField (s : Schema) (t : TypeDef) (field : String) : List (TypeDef × Nat) :=
  let has (u : TypeDef) : Bool := (u.field? field).isSome
  let objects := ((s.possibleTypes t).filterMap s.type?).filter has
  objects.foldl (fun counted o =>
    ((o.interfaces.filterMap s.type?).filter has).foldl (fun c i => countType i c)
      (countType o counted)) []

/-- Whether one counted type is suggested before another: the more frequent one, then the more general
one, then the one whose name comes first. -/
def suggestedBefore (s : Schema) (a b : TypeDef × Nat) : Bool :=
  if a.2 != b.2 then b.2 < a.2
  else if a.1.isInterface && s.isSubType a.1 b.1 then true
  else if b.1.isInterface && s.isSubType b.1 a.1 then false
  else Suggestion.naturalOrder a.1.name b.1.name == .lt

/-- The types on which a field that is missing may have been meant. -/
def suggestedTypes (s : Schema) (t : TypeDef) (field : String) : List String :=
  if t.isAbstract then
    (Suggestion.arrange (suggestedBefore s) (typesWithField s t field)).map fun c => c.1.name
  else []

/-- Checks that a field exists, and that it has sub-selections exactly if its type needs them. -/
def fieldItself (parent : Option TypeDef) (sc : Scope) (name : String) (inner : List Selection) :
    List Violation :=
  let shape := match sc.type with
    | none => []
    | some t =>
      if (sc.schema.base? t).any TypeDef.isLeaf then
        if inner.isEmpty then [] else [.leafSelection name t]
      else if inner.isEmpty then [.missingSelection name t]
      else []
  let existence := match parent, sc.field with
    | some p, none =>
      [.unknownField name p.name (suggestedTypes sc.schema p name)
        (Suggestion.near name (p.fields.map Field.name))]
    | _, _ => []
  shape ++ existence

/-! ### Arguments and directives -/

/-- Checks that a directive that may stand once at a place is not repeated. -/
def repeatedDirectives (s : Schema) (ds : List Directive) : List Violation :=
  let once := (ds.map Directive.name).filter fun n =>
    (s.lastDirective? n).any fun d => !d.repeatable
  (once.zipIdx.filter fun (n, i) => (once.take i).contains n).map fun (n, _) => .repeatedDirective n

def repeatedArguments (args : List Argument) : List Violation :=
  (Values.repeated (args.map Argument.name)).map .duplicateArgument

def placeWords (place : String) : String :=
  place.map fun c => if c = '_' then ' ' else c.toLower

/-- Checks a directive: that it is known, that it may stand here, and that its arguments exist. -/
def directiveItself (s : Schema) (place : String) (d : Directive) : List Violation :=
  let known := s.lastDirective? d.name
  let places := (known.map DirectiveDef.locations).getD []
  let placed :=
    if places.isEmpty then [.unknownDirective d.name]
    else if places.contains place then []
    else [.misplacedDirective d.name (placeWords place)]
  let named := match known with
    | none => []
    | some k =>
      let names := k.args.map InputValue.name
      (d.arguments.filter fun a => !names.contains a.name).map fun a =>
        .unknownDirectiveArgument a.name d.name (Suggestion.near a.name names)
  placed ++ named ++ repeatedArguments d.arguments

def argumentValue (sc : Scope) (directive : Option DirectiveDef) (a : Argument) : List Violation :=
  let expected := (sc.argument? directive a.name).bind fun d => sc.schema.inputOf? d.type
  Values.check sc.schema expected true a.value

def requiredOfDirective (s : Schema) (d : Directive) : List Violation :=
  match s.lastDirective? d.name with
  | none => []
  | some k =>
    (k.args.filter fun x => x.isRequired && d.arguments.all (·.name != x.name)).map fun x =>
      .missingDirectiveArgument d.name x.name x.type

def directives (sc : Scope) (place : String) (ds : List Directive) : List Violation :=
  ds.flatMap fun d =>
    directiveItself sc.schema place d
      ++ d.arguments.flatMap (argumentValue sc (sc.schema.directive? d.name))
      ++ requiredOfDirective sc.schema d

/-- Checks an argument of a field: that it exists, and its value. -/
def fieldArgument (parent : Option TypeDef) (sc : Scope) (field : String) (a : Argument) :
    List Violation :=
  let known := match parent, sc.field with
    | some p, some f =>
      if (f.arg? a.name).isSome then []
      else [.unknownArgument a.name p.name field (Suggestion.near a.name (f.args.map InputValue.name))]
    | _, _ => []
  known ++ argumentValue sc none a

def requiredOfField (sc : Scope) (field : String) (args : List Argument) : List Violation :=
  match sc.field with
  | none => []
  | some f =>
    (f.args.filter fun x => x.isRequired && args.all (·.name != x.name)).map fun x =>
      .missingArgument field x.name x.type

/-! ### Fragments -/

/-- Checks a type condition: that a known type has sub-selections. -/
def condition (s : Schema) (on : String) (v : Violation) : List Violation :=
  match s.type? on with
  | some t => if t.isComposite then [] else [v]
  | none => []

/-- Checks that an object can be of both of two types. -/
def possible (s : Schema) (parent : Option TypeDef) (type : Option TypeDef)
    (v : String → String → Violation) : List Violation :=
  match parent, type with
  | some p, some t => if s.overlaps t p then [] else [v p.name t.name]
  | _, _ => []

/-- Checks a spread: that the fragment exists and can apply here. -/
def spreadItself (sc : Scope) (d : Document) (name : String) : List Violation :=
  match Document.lastFragment? d name with
  | none => [.unknownFragment name]
  | some (_, f) => possible sc.schema sc.parent (sc.schema.composite? f.on) (.impossibleSpread name)

/-! ### Selections -/

mutual

def selection (d : Document) (sc : Scope) (place : Overlap.Place) : Selection → List Finding
  | .field _ name args ds inner =>
    let below := sc.select name
    ofList (fieldItself sc.parent below name inner ++ repeatedDirectives sc.schema ds
        ++ repeatedArguments args ++ args.flatMap (fieldArgument sc.parent below name)
        ++ directives below "FIELD" ds)
      ++ selectionSet d below.within place inner
      ++ ofList (requiredOfField below name args)
  | .spread name ds =>
    ofList (spreadItself sc d name ++ repeatedDirectives sc.schema ds
      ++ directives sc "FRAGMENT_SPREAD" ds)
  | .inline on ds inner =>
    let below := sc.inline on
    let named := match on with
      | some n => condition sc.schema n (.inlineOnLeaf n)
      | none => []
    let known := match on with
      | some n => typeName sc.schema n
      | none => []
    let applies :=
      possible sc.schema sc.parent (below.type.bind fun t => t.named?.bind sc.schema.composite?)
        .impossibleInline
    ofList (named ++ applies ++ repeatedDirectives sc.schema ds ++ known
        ++ directives below "INLINE_FRAGMENT" ds)
      ++ selections d below.within place 0 inner

/-- Checks the selections of the set at a place one by one; the first of them has number `i` there. -/
def selections (d : Document) (sc : Scope) (place : Overlap.Place) (i : Nat) :
    List Selection → List Finding
  | [] => []
  | s :: ss => selection d sc (i :: place) s ++ selections d sc place (i + 1) ss

/-- Checks the selection set at a place, first as a whole; an empty one is no set at all. -/
def selectionSet (d : Document) (sc : Scope) (place : Overlap.Place) (ss : List Selection) :
    List Finding :=
  match ss with
  | [] => []
  | s :: rest =>
    .compare sc.parent place (s :: rest)
      :: (selection d sc (0 :: place) s ++ selections d sc place 1 rest)

end

/-! ### Definitions -/

/-- Checks that the name of an operation is its own, and that only a lone one does without. -/
def operationName (d : Document) (before : Document) (o : Operation) : List Violation :=
  match o.name with
  | some n =>
    if (Document.operations before).any (·.name == some n) then [.duplicateOperation n] else []
  | none => if 1 < (Document.operations d).length then [.loneAnonymous] else []

def variableDefinition (s : Schema) (v : VariableDefinition) : List Violation :=
  let type := s.known? v.type
  let input := type.bind s.inputOf?
  let kind := match type, input with
    | some _, none => [.variableOutput v.name v.type]
    | _, _ => []
  let default := match v.default with
    | some l => Values.check s input true l
    | none => []
  kind ++ repeatedDirectives s v.directives ++ typeName s v.type.baseName ++ default
    ++ directives (Scope.outside s) "VARIABLE_DEFINITION" v.directives

def operationPlace : OperationKind → String
  | .query => "QUERY"
  | .mutation => "MUTATION"
  | .subscription => "SUBSCRIPTION"

/-- Checks an operation; `before` holds the definitions before it. -/
def operation (s : Schema) (d before : Document) (o : Operation) : List Finding :=
  let sc := Scope.operation s o.kind
  let roots := match Roots.check s d o with
    | .ok vs => ofList vs
    | .error e => [.stuck e]
  ofList (operationName d before o) ++ roots
    ++ ofList ((Values.repeated (o.variableDefinitions.map VariableDefinition.name)).map .duplicateVariable
      ++ repeatedDirectives s o.directives ++ o.variableDefinitions.flatMap (variableDefinition s)
      ++ directives sc (operationPlace o.kind) o.directives)
    ++ selectionSet d sc.within [before.length] o.selections
    ++ ofList (Uses.check s d o)

/-- Checks a fragment; `before` holds the definitions before it and `cycles` what was found when its
spreads were followed. -/
def fragment (s : Schema) (d before : Document) (cycles : List Spreads.Cycle) (f : Fragment) :
    List Finding :=
  let sc := Scope.fragment s f.on
  let name :=
    if (Document.fragments before).any (·.name == f.name) then [.duplicateFragment f.name] else []
  ofList (condition s f.on (.fragmentOnLeaf f.name f.on) ++ name
      ++ cycles.map (fun c => .cycle c.fragment c.via) ++ repeatedDirectives s f.directives
      ++ typeName s f.on ++ directives sc "FRAGMENT_DEFINITION" f.directives)
    ++ selectionSet d sc.within [before.length] f.selections

/-- Checks definitions in order; `before` holds those already checked, and `cycles` belongs to the
fragments still to come. -/
def definitions (s : Schema) (d : Document) : Document → List (List Spreads.Cycle) → Document →
    List Finding
  | _, _, [] => []
  | before, cycles, x :: xs =>
    match x with
    | .operation o => operation s d before o ++ definitions s d (before ++ [x]) cycles xs
    | .fragment f =>
      fragment s d before (cycles.headD []) f
        ++ definitions s d (before ++ [x]) (cycles.drop 1) xs
    | .typeSystem => definitions s d (before ++ [x]) cycles xs

def unusedFragments (d : Document) : List Violation :=
  let used := (Document.operations d).flatMap fun o => (Spreads.reached d o).map Fragment.name
  ((Document.fragments d).filter fun f => !used.contains f.name).map fun f => .unusedFragment f.name

/-- Everything that is found in a document. -/
def document (s : Schema) (d : Document) : List Finding :=
  definitions s d [] (Spreads.cycles d (Document.fragments d) []) d ++ ofList (unusedFragments d)

end Check

/-- Carries out the comparisons among findings, in order, up to one that ends the search. -/
def settle (s : Schema) (d : Document) :
    List Finding → Overlap.Search (List Violation × Option ConditionError)
  | [] => pure ([], none)
  | .violation v :: rest => do
    let (vs, e) ← settle s d rest
    return (v :: vs, e)
  | .stuck e :: _ => pure ([], some e)
  | .compare parent place ss :: rest => do
    let found ← Overlap.conflicts s d parent place ss
    let (vs, e) ← settle s d rest
    return (found ++ vs, e)

/-- The number of violations that are reported before the rest is given up. -/
def maxViolations : Nat := 100

/-- Everything that is wrong with a document, cut short when it is too much. Where the search ended
before that, nothing is said about the document. -/
def Document.violations (s : Schema) (d : Document) : Except ConditionError (List Violation) :=
  match (settle s d (Check.document s d)).run [] with
  | ((vs, e), _) =>
    if maxViolations < vs.length then .ok (vs.take maxViolations ++ [.tooMany])
    else match e with
      | none => .ok vs
      | some e => .error e

end Harvest.GraphQL
