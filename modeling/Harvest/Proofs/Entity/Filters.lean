import Harvest.Proofs.GraphQL.Literals
import Harvest.Proofs.Plan.Coherence

/-!
# Filters of listings

A filter that is set for the listings of a type reaches the query as one more argument, or the listings
of the type are refused. `Listing.Reaches` and `Listing.Misses` say which of the two happens in a
language, and why. A filter of the wrong shape, and one for a field that takes none, are problems of the
configuration; but a value that a scalar or an enum refuses is not reported as one: it ends the listings
with the error of that scalar or enum.

There are two lists of cases, one for success and one for failure, and the functions that make a query are
followed through both. The failure of a scalar or an enum is carried in `Misses` by the relation
`Literal.Refuses` and not by the error that it raises, so that one can see from the filter whether it
happens.
-/

namespace Harvest

open GraphQL

/-- The value of an argument of the field that a listing asks for. -/
def ListingQuery.argument? (q : ListingQuery) (name : String) : Option Literal :=
  match q.definition with
  | .operation { selections := [.field _ _ arguments _ _], .. } =>
    (arguments.find? (·.name == name)).map (·.value)
  | _ => none

namespace Listing

/-- The argument that takes the filter of the listings of a type. -/
def filterArgument? (s : Schema) (d : Descriptor) : Option InputValue :=
  (s.queryField? d.queryField).bind (·.arg? "filter")

/-! ## Outcomes of a filter

A filter reaches the query of a language or misses it. Where it misses, either the query field takes none, or
the value is refused by the type of the argument, in some part of it. -/

/-- What a query carries as its filter: nothing where none is set, else the value as a literal of the
type of the argument. -/
inductive Reaches (s : Schema) (filter : ListingFilter) (d : Descriptor) (l : String) :
    Option Literal → Prop where
  | unset (hv : (filter d l).isNull = true) : Reaches s filter d l none
  | written {arg : InputValue} {x : Literal} (hv : (filter d l).isNull = false)
      (harg : filterArgument? s d = some arg)
      (hx : Literal.ofValue? s arg.type (filter d l) = .ok (some x)) : Reaches s filter d l (some x)

/-- Why a filter that is set does not reach the query. -/
inductive Misses (s : Schema) (filter : ListingFilter) (d : Descriptor) (l : String) :
    Failure → Prop where
  /-- The field takes no filter. -/
  | unaccepted (hv : (filter d l).isNull = false) (harg : filterArgument? s d = none) :
      Misses s filter d l (.configuration (.noFilterArgument d.queryField d.typeName))
  /-- The value does not have the shape of the argument, though no part of it is refused. -/
  | misshapen {arg : InputValue} (hv : (filter d l).isNull = false)
      (harg : filterArgument? s d = some arg) (hx : Literal.ofValue? s arg.type (filter d l) = .ok none)
      (hr : ¬Literal.Refuses s arg.type (filter d l)) :
      Misses s filter d l (.configuration (.filterMismatch d.typeName arg.type.print))
  /-- A scalar or an enum refuses the value or a part of it. -/
  | refused {arg : InputValue} {e : CoercionError} (hv : (filter d l).isNull = false)
      (harg : filterArgument? s d = some arg) (hx : Literal.ofValue? s arg.type (filter d l) = .error e)
      (hr : Literal.Refuses s arg.type (filter d l)) : Misses s filter d l (.coercion e)

/-- Whether a query lists a type in a language, with the filter that is set for it. -/
structure Carries (s : Schema) (filter : ListingFilter) (d : Descriptor) (l : String)
    (q : ListingQuery) : Prop where
  typeName_eq : q.typeName = d.typeName
  isFor : q.IsFor d.typeName l
  reaches : Reaches s filter d l (q.argument? "filter")

variable {s : Schema} {filter : ListingFilter} {d : Descriptor} {l : String} {ls : List String}

/-- What reaches the query was refused in no part. -/
theorem Reaches.not_refuses {arg : InputValue} {x : Option Literal} (h : Reaches s filter d l x)
    (hv : (filter d l).isNull = false) (harg : filterArgument? s d = some arg)
    (htree : (filter d l).isTree = true) : ¬Literal.Refuses s arg.type (filter d l) := by
  intro hr
  cases h with
  | unset hv' => cases hv.symm.trans hv'
  | written _ harg' hx =>
      cases harg.symm.trans harg'
      obtain ⟨e, he⟩ := (Literal.error_ofValue?_iff htree).mpr hr
      cases hx.symm.trans he

/-! ## One listing, and all of them

The listings are made language by language, so the first language in which the filter misses decides how the
making ends. -/

theorem filterLiteral_ok {x : Option Literal} (h : filterLiteral s filter d l = .ok x) :
    Reaches s filter d l x := by
  unfold filterLiteral at h
  dsimp only at h
  split at h
  next hv =>
    cases h
    exact .unset hv
  next hv =>
    have hv := Bool.not_eq_true _ ▸ hv
    split at h
    next => cases h
    next arg harg =>
      split at h
      next => cases h
      next => cases h
      next x hx =>
        cases h
        exact .written hv harg hx

theorem filterLiteral_error {f : Failure} (htree : (filter d l).isTree = true)
    (h : filterLiteral s filter d l = .error f) : Misses s filter d l f := by
  unfold filterLiteral at h
  dsimp only at h
  split at h
  next => cases h
  next hv =>
    have hv := Bool.not_eq_true _ ▸ hv
    split at h
    next harg =>
      cases h
      exact .unaccepted hv harg
    next arg harg =>
      have hiff := Literal.error_ofValue?_iff (s := s) (t := arg.type) htree
      split at h
      next e hx =>
        cases h
        exact .refused hv harg hx (hiff.mp ⟨e, hx⟩)
      next hx =>
        cases h
        refine .misshapen hv harg hx fun hr => ?_
        obtain ⟨e, he⟩ := hiff.mpr hr
        cases hx.symm.trans he
      next => cases h

/-- The filter of an operation is the literal that it was made with. -/
theorem argument?_operation (x : Option Literal) (names : List String) :
    ListingQuery.argument? ⟨d.typeName, l, .operation (operation s d l x), names⟩ "filter" = x := by
  cases x with
  | none => rfl
  | some x => rfl

theorem query_ok {q : ListingQuery} (h : query s filter d l = .ok q) : Carries s filter d l q := by
  obtain ⟨x, hx, hq⟩ := bind_ok h
  cases hq
  refine ⟨rfl, ⟨rfl, operation s d l x, rfl, rfl⟩, ?_⟩
  rw [argument?_operation]
  exact filterLiteral_ok hx

theorem query_error {f : Failure} (htree : (filter d l).isTree = true)
    (h : query s filter d l = .error f) : Misses s filter d l f := by
  cases hx : filterLiteral s filter d l with
  | ok x =>
      rw [query, hx] at h
      cases h
  | error f' =>
      rw [query, hx] at h
      cases h
      exact filterLiteral_error htree hx

/-- **A filter reaches every query or its listings are refused**, by the first language in which it
does not. The refusal is a problem of the configuration unless a scalar or an enum refused a value. -/
theorem queries_outcome (htree : ∀ l ∈ ls, (filter d l).isTree = true) :
    (∃ qs, queries s filter d ls = .ok qs ∧ List.Forall₂ (Carries s filter d) ls qs)
      ∨ ∃ before l after f, ls = before ++ l :: after
          ∧ (∀ k ∈ before, ∃ x, Reaches s filter d k x)
          ∧ Misses s filter d l f ∧ queries s filter d ls = .error f := by
  cases h : queries s filter d ls with
  | ok qs => exact .inl ⟨qs, rfl, (mapM_ok h).imp fun l q hq => query_ok hq⟩
  | error f =>
      obtain ⟨before, l, after, rfl, hbefore, hl⟩ := mapM_error h
      refine .inr ⟨before, l, after, f, rfl, fun k hk => ?_, ?_, rfl⟩
      · obtain ⟨q, hq⟩ := hbefore k hk
        exact ⟨_, (query_ok hq).reaches⟩
      · exact query_error (htree l (List.mem_append_right _ List.mem_cons_self)) hl

end Listing

/-! ## A value that is refused

A filter in words, for an argument that takes a number. -/

namespace Sample

/-- A remote whose nodes are filtered by a number. -/
def numbered : Value :=
  .record [("__schema", .record [
    ("queryType", typeRef "OBJECT" "Query"),
    ("directives", .list []),
    ("types", .list [
      type "OBJECT" "Query" [] [field "nodeQuery" [argument "limit" "SCALAR" "Int",
        argument "offset" "SCALAR" "Int", argument "filter" "SCALAR" "Int"]
        (typeRef "OBJECT" "EntityQueryResult")],
      type "OBJECT" "EntityQueryResult" [] [field "count" [] (typeRef "SCALAR" "Int")],
      type "OBJECT" "Node" [] [field "title" [] (typeRef "SCALAR" "String")],
      typeRef "SCALAR" "Int", typeRef "SCALAR" "String"])])]

def numberedSchema : Schema := (Schema.ofIntrospection numbered).toOption.getD default

def numberedNode : Descriptor :=
  { typeName := "Node", queryField := "nodeQuery", languages := ["EN"], expanded := false,
    abstractType := none }

/-- A filter by what is no number. -/
def worded : ListingFilter := .byType [(.str "Node", .str "abc")]

/-- The refusal of a number in words is no problem of the configuration. -/
theorem filter_escapes :
    (∀ l ∈ ["EN"], (worded numberedNode l).isTree = true)
      ∧ ∃ e, Listing.queries numberedSchema worded numberedNode ["EN"] = .error (.coercion e) := by
  have htree : ∀ l ∈ ["EN"], (worded numberedNode l).isTree = true := by decide
  refine ⟨htree, ?_⟩
  have harg : Listing.filterArgument? numberedSchema numberedNode
      = some { name := "filter", type := .named "Int", hasDefault := false, isDeprecated := false } := by
    decide +kernel
  have hr : Literal.Refuses numberedSchema (.named "Int") (.str "abc") :=
    .scalar rfl (m := "Int") (by decide +kernel) rfl
  rcases Listing.queries_outcome htree with ⟨qs, -, hqs⟩ | ⟨before, l, after, f, hls, -, hm, hq⟩
  · cases hqs with
    | cons hcarries _ =>
        exact absurd hr (hcarries.reaches.not_refuses rfl harg rfl)
  · have hl : l ∈ ["EN"] := hls ▸ List.mem_append_right before List.mem_cons_self
    cases List.mem_singleton.mp hl
    cases hm with
    | unaccepted _ harg' => cases harg.symm.trans harg'
    | misshapen _ harg' _ hr' =>
        cases harg.symm.trans harg'
        exact absurd hr hr'
    | refused => exact ⟨_, hq⟩

end Sample

end Harvest
