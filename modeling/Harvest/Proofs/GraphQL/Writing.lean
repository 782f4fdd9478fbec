import Harvest.Proofs.GraphQL.Numbers
import Harvest.Proofs.GraphQL.SchemaNames

/-!
# Written documents

The tokens of a document, and that its printed text spells them. They do not depend on the layout: whether
the arguments of a field stand on one line or on several, and how deep a selection lies, is a matter of blanks
only. What a document must be like for this, `IsWritable` says part by part. It takes the condition on the
values in it as a parameter, because some results need more of them than others.

The tokens of a part are defined along the syntax, next to the printer and without its blanks, and every
part has a lemma `spells`: what the printer makes of it spells its tokens. The lemmas on single tokens are
those of `Harvest.Proofs.GraphQL.Spelling`; here they are put together with the separators of the layout, of
which only two things matter: that they are blanks or commas, and that they keep the tokens on both sides
apart.
-/

namespace Harvest.GraphQL

/-! ## Tokens

One function for each kind of syntax. For lists there is a recursive one beside it, which is the
concatenation over the list. -/

/-- Tokens between two punctuators, or nothing at all if there are none. -/
def Token.enclosed (p q : Punctuator) : List Token → List Token
  | [] => []
  | t :: ts => .punct p :: (t :: ts ++ [.punct q])

open Token (enclosed withoutLineEnd ofNumeral IsInteger IsNumeral)

mutual

/-- The tokens of a literal. -/
def Literal.tokens : Literal → List Token
  | .variable n => [.punct .dollar, .name n]
  | .int t => [.int (withoutLineEnd t)]
  | .float t => [ofNumeral t]
  | .string t block => [if block then .blockString t else .string t]
  | .boolean b => [.name (if b then "true" else "false")]
  | .null => [.name "null"]
  | .enum n => [.name n]
  | .list xs => .punct .bracketL :: (Literal.itemTokens xs ++ [.punct .bracketR])
  | .object fs => .punct .braceL :: (Literal.fieldTokens fs ++ [.punct .braceR])

def Literal.itemTokens : List Literal → List Token
  | [] => []
  | x :: xs => Literal.tokens x ++ Literal.itemTokens xs

def Literal.fieldTokens : List (String × Literal) → List Token
  | [] => []
  | (n, v) :: fs => .name n :: .punct .colon :: Literal.tokens v ++ Literal.fieldTokens fs

end

def TypeRef.tokens : TypeRef → List Token
  | .named n => [.name n]
  | .list t => .punct .bracketL :: (t.tokens ++ [.punct .bracketR])
  | .nonNull t => t.tokens ++ [.punct .bang]

def Argument.tokens (a : Argument) : List Token := .name a.name :: .punct .colon :: a.value.tokens

def argumentTokens (as : List Argument) : List Token := enclosed .parenL .parenR (as.flatMap Argument.tokens)

def Directive.tokens (d : Directive) : List Token := .punct .at :: .name d.name :: argumentTokens d.arguments

def labelTokens : Option String → List Token
  | none => []
  | some l => [.name l, .punct .colon]

def conditionTokens : Option String → List Token
  | none => []
  | some t => [.name "on", .name t]

mutual

/-- The tokens of one entry of a selection set. -/
def Selection.tokens : Selection → List Token
  | .field label name args ds inner =>
    labelTokens label ++ .name name :: (argumentTokens args ++ (ds.flatMap Directive.tokens
      ++ enclosed .braceL .braceR (Selection.allTokens inner)))
  | .spread n ds => .punct .spread :: .name n :: ds.flatMap Directive.tokens
  | .inline on ds inner =>
    .punct .spread :: (conditionTokens on ++ (ds.flatMap Directive.tokens
      ++ enclosed .braceL .braceR (Selection.allTokens inner)))

def Selection.allTokens : List Selection → List Token
  | [] => []
  | s :: ss => Selection.tokens s ++ Selection.allTokens ss

end

def selectionTokens (ss : List Selection) : List Token := enclosed .braceL .braceR (Selection.allTokens ss)

def VariableDefinition.tokens (v : VariableDefinition) : List Token :=
  .punct .dollar :: .name v.name :: .punct .colon :: v.type.tokens

def Operation.tokens (o : Operation) : List Token :=
  .name o.kind.keyword :: (o.name.toList.map .name
    ++ (enclosed .parenL .parenR (o.variableDefinitions.flatMap VariableDefinition.tokens)
      ++ (o.directives.flatMap Directive.tokens ++ selectionTokens o.selections)))

def Fragment.tokens (f : Fragment) : List Token :=
  .name "fragment" :: .name f.name :: .name "on" :: .name f.on
    :: (f.directives.flatMap Directive.tokens ++ selectionTokens f.selections)

def Definition.tokens : Definition → List Token
  | .operation o => o.tokens
  | .fragment f => f.tokens
  | .typeSystem => []

def Document.tokens (d : Document) : List Token := d.flatMap Definition.tokens

/-! ### Equations

The recursive definitions above as maps over lists, in which form they are used. -/

/-- The tokens of a field of an object. -/
def Literal.memberTokens (f : String × Literal) : List Token := .name f.1 :: .punct .colon :: f.2.tokens

theorem Literal.itemTokens_eq (xs : List Literal) : itemTokens xs = xs.flatMap tokens := by
  induction xs with
  | nil => rfl
  | cons x xs ih => rw [itemTokens, ih, List.flatMap_cons]

theorem Literal.fieldTokens_eq (fs : List (String × Literal)) :
    fieldTokens fs = fs.flatMap memberTokens := by
  induction fs with
  | nil => rfl
  | cons f fs ih => rw [fieldTokens, ih, List.flatMap_cons, memberTokens]

/-- A field has its label, its name, its arguments, its directives and its selections, in this order. -/
theorem Selection.tokens_field (label : Option String) (name : String) (args : List Argument)
    (ds : List Directive) (inner : List Selection) : (Selection.field label name args ds inner).tokens =
      labelTokens label ++ .name name :: (argumentTokens args
        ++ (ds.flatMap Directive.tokens ++ selectionTokens inner)) := by
  rw [Selection.tokens, selectionTokens]

theorem Selection.tokens_inline (on : Option String) (ds : List Directive) (inner : List Selection) :
    (Selection.inline on ds inner).tokens =
      .punct .spread :: (conditionTokens on ++ (ds.flatMap Directive.tokens ++ selectionTokens inner)) := by
  rw [Selection.tokens, selectionTokens]

theorem Selection.allTokens_eq (ss : List Selection) : allTokens ss = ss.flatMap tokens := by
  induction ss with
  | nil => rfl
  | cons s ss ih => rw [allTokens, ih, List.flatMap_cons]

/-! ## What can be written

Names have to be names, types proper, and selection sets of a field or an operation may not be empty where
the grammar wants an entry. The values have to meet a condition `P`. -/

/-- Whether a literal can be written. Its integers may end a line. -/
inductive Literal.IsWritable : Literal → Prop
  | var {n : String} (h : IsName n) : IsWritable (.variable n)
  | int {t : String} (h : IsInteger (withoutLineEnd t)) : IsWritable (.int t)
  | float {t : String} (h : IsNumeral t) : IsWritable (.float t)
  | string (t : String) : IsWritable (.string t false)
  | boolean (b : Bool) : IsWritable (.boolean b)
  | null : IsWritable .null
  | enum {n : String} (h : IsName n) : IsWritable (.enum n)
  | list {xs : List Literal} (h : ∀ x ∈ xs, IsWritable x) : IsWritable (.list xs)
  | object {fs : List (String × Literal)} (hname : ∀ f ∈ fs, IsName f.1)
      (h : ∀ f ∈ fs, IsWritable f.2) : IsWritable (.object fs)

section Writable

variable (P : Literal → Prop)

structure Argument.IsWritable (a : Argument) : Prop where
  name : IsName a.name
  value : P a.value

structure Directive.IsWritable (d : Directive) : Prop where
  name : IsName d.name
  arguments : ∀ a ∈ d.arguments, a.IsWritable P

/-- Whether a selection can be written, with values of a kind. -/
inductive Selection.IsWritable : Selection → Prop
  | field {label : Option String} {name : String} {args : List Argument} {ds : List Directive}
      {inner : List Selection} (hlabel : ∀ l ∈ label, IsName l) (hname : IsName name)
      (hargs : ∀ a ∈ args, a.IsWritable P) (hds : ∀ d ∈ ds, d.IsWritable P)
      (hinner : ∀ s ∈ inner, IsWritable s) : IsWritable (.field label name args ds inner)
  | spread {name : String} {ds : List Directive} (hname : IsName name) (hon : name ≠ "on")
      (hds : ∀ d ∈ ds, d.IsWritable P) : IsWritable (.spread name ds)
  | inline {on : Option String} {ds : List Directive} {inner : List Selection} (hon : ∀ t ∈ on, IsName t)
      (hds : ∀ d ∈ ds, d.IsWritable P) (hne : inner ≠ []) (hinner : ∀ s ∈ inner, IsWritable s) :
      IsWritable (.inline on ds inner)

/-- Whether the declaration of a variable can be written: it has a proper type and nothing else. -/
structure VariableDefinition.IsWritable (v : VariableDefinition) : Prop where
  description : v.description = none
  name : IsName v.name
  type : v.type.IsProper
  default : v.default = none
  directives : v.directives = []

/-- Whether an operation can be written: it has a name and selects something. -/
structure Operation.IsWritable (o : Operation) : Prop where
  description : o.description = none
  name : ∃ n, o.name = some n ∧ IsName n
  variableDefinitions : ∀ v ∈ o.variableDefinitions, v.IsWritable
  directives : ∀ d ∈ o.directives, d.IsWritable P
  selects : o.selections ≠ []
  selections : ∀ s ∈ o.selections, s.IsWritable P

/-- Whether a fragment can be written. -/
structure Fragment.IsWritable (f : Fragment) : Prop where
  description : f.description = none
  name : IsName f.name
  on : IsName f.on
  directives : ∀ d ∈ f.directives, d.IsWritable P
  selects : f.selections ≠ []
  selections : ∀ s ∈ f.selections, s.IsWritable P

/-- Whether a definition can be written; one of the type language cannot. -/
def Definition.IsWritable : Definition → Prop
  | .operation o => o.IsWritable P
  | .fragment f => f.IsWritable P
  | .typeSystem => False

end Writable

/-! ## Spelling

Texts that spell tokens, put side by side, spell the tokens of both if the second ends the token before it.
The lemmas here are about the pieces of a layout: brackets with and without a line of their own, separators,
and texts that are left out if there is nothing in them. -/

namespace Token

variable {α : Type} {ts us : List Token} {a b : String}

theorem Spells.append_text (h : Spells ts a.toList) (h' : Spells us b.toList) (hb : Breaks b.toList) :
    Spells (ts ++ us) (a ++ b).toList := by
  rw [String.toList_append]
  exact h.append h' hb

theorem Spells.name {n : String} (h : IsName n) : Spells [.name n] n.toList := .of_word (word_name h)

/-- Texts that stand for the parts of a list spell the tokens of the parts. -/
theorem Spells.join_map {sep : String} (hsep : IsSeparating sep) {f : α → List Token} {g : α → String}
    {xs : List α} (h : ∀ x ∈ xs, Spells (f x) (g x).toList) :
    Spells (xs.flatMap f) (Layout.join sep (xs.map g)).toList := by
  rw [List.flatMap_def]
  refine Spells.join hsep ?_
  rw [List.forall₂_map_left_iff, List.forall₂_map_right_iff, List.forall₂_same]
  exact h

/-! ### Brackets

An opening or closing text is a punctuator with blanks around it, as it is printed on one line or over
several. Empty brackets are left out altogether, which is why `Token.enclosed` has no tokens for them. -/

/-- A text that opens something: a punctuator with blanks after it. -/
def Opens (p : Punctuator) (before : String) : Prop :=
  ∃ bs, before.toList = p.text.toList ++ bs ∧ ∀ c ∈ bs, isSeparator c = true

/-- A text that closes something. -/
def Closes (q : Punctuator) (after : String) : Prop := Breaks after.toList ∧ Spells [.punct q] after.toList

/-- What stands between an opening and a closing text is spelled between its two punctuators. -/
theorem Spells.enclose {p q : Punctuator} {before after : String} (hbefore : Opens p before)
    (hafter : Closes q after) (h : Spells ts a.toList) :
    Spells (.punct p :: (ts ++ [.punct q])) (before ++ a ++ after).toList := by
  obtain ⟨bs, hbs, hblank⟩ := hbefore
  rw [String.toList_append, String.toList_append, hbs, List.append_assoc, List.append_assoc]
  exact .punct p ((h.append hafter.2 hafter.1).blanks hblank)

/-- What stands between two texts that open and close it is enclosed, unless it is empty. -/
theorem Spells.wrap {p q : Punctuator} {before after : String} (hbefore : Opens p before)
    (hafter : Closes q after) (h : Spells ts a.toList) (hempty : ts = [] → a = "") :
    Spells (enclosed p q ts) (Layout.wrap before a after).toList := by
  rw [Layout.wrap]
  cases ts with
  | nil =>
      rw [if_pos (hempty rfl)]
      exact .nil
  | cons t ts =>
      rw [if_neg]
      · exact h.enclose hbefore hafter
      · rintro rfl
        cases h.eq_nil

/-- A text that is wrapped ends the token before it if what opens it does. -/
theorem breaks_wrap {before after : String} (h : ∀ more, Breaks (before.toList ++ more)) :
    Breaks (Layout.wrap before a after).toList := by
  rw [Layout.wrap]
  split
  · exact .nil
  · rw [String.toList_append, String.toList_append, List.append_assoc]
    exact h _

/-- Every punctuator but the spread ends the token before it. -/
theorem breaks_punct {p : Punctuator} (hp : p ≠ .spread) (more : List Char) :
    Breaks (p.text.toList ++ more) := by
  cases p with
  | spread => exact absurd rfl hp
  | _ => exact .cons (by decide) (by decide) (by decide) _

/-- An opening punctuator ends the token before it, but for the spread. -/
theorem Opens.breaks {p : Punctuator} {before : String} (h : Opens p before) (hp : p ≠ .spread)
    (more : List Char) : Breaks (before.toList ++ more) := by
  obtain ⟨bs, hbs, -⟩ := h
  rw [hbs, List.append_assoc]
  exact breaks_punct hp _

/-! ### The texts that are used

What the printer puts between the parts of a document, and around them. -/

theorem comma_separates : IsSeparating ", " := .of_all (by decide) (by decide)

theorem newline_separates : IsSeparating "\n" := .of_all (by decide) (by decide)

theorem space_separates : IsSeparating " " := .of_all (by decide) (by decide)

theorem paragraph_separates : IsSeparating "\n\n" := .of_all (by decide) (by decide)

theorem opens_self (p : Punctuator) : Opens p p.text := ⟨[], (List.append_nil _).symm, nofun⟩

theorem closes_self {q : Punctuator} (hq : q ≠ .spread) : Closes q q.text := by
  refine ⟨?_, .of_punct q⟩
  have h := breaks_punct hq []
  rwa [List.append_nil] at h

theorem closes_line {q : Punctuator} {after : String} (h : after.toList = '\n' :: q.text.toList) :
    Closes q after := by
  unfold Closes
  rw [h]
  exact ⟨breaks_of_separator (by decide) _, .blank (by decide) (.of_punct q)⟩

theorem opens_parens_line : Opens .parenL "(\n" :=
  ⟨['\n'], by decide, List.forall_mem_singleton.mpr (by decide)⟩

theorem opens_braces_line : Opens .braceL "\x7b\n" :=
  ⟨['\n'], by decide, List.forall_mem_singleton.mpr (by decide)⟩

/-- A word with a blank after it. -/
theorem Spells.spaced {n : String} (hn : IsName n) (h : Spells ts a.toList) :
    Spells (.name n :: ts) (n ++ (" " ++ a)).toList := by
  rw [String.toList_append, String.toList_append]
  exact .word (word_name hn) (breaks_of_separator (by decide) _) (.blank (by decide) h)

end Token

open Token Layout

section Spelling

/-! ### Values and types

Literals are printed on one line, with a comma and a blank between their items. -/

theorem Literal.printItems_eq (xs : List Literal) : printItems xs = xs.map print := by
  induction xs with
  | nil => rfl
  | cons x xs ih => rw [printItems, ih, List.map_cons]

theorem Literal.printFields_eq (fs : List (String × Literal)) :
    printFields fs = fs.map fun f => f.1 ++ ": " ++ f.2.print := by
  induction fs with
  | nil => rfl
  | cons f fs ih => rw [printFields, ih, List.map_cons]

/-- A name, a colon and what they are for. -/
theorem Token.Spells.named {n text : String} {ts : List Token} (hn : IsName n) (h : Spells ts text.toList) :
    Spells (.name n :: .punct .colon :: ts) (n ++ ": " ++ text).toList := by
  rw [String.toList_append, String.toList_append, List.append_assoc]
  exact .word (word_name hn) (breaks_punct (p := .colon) (by decide) _) (.punct .colon (.blank (by decide) h))

/-- An integer with a line end behind it spells the integer alone. -/
theorem Token.Spells.int_text {t : String} (h : IsInteger (withoutLineEnd t)) :
    Spells [.int (withoutLineEnd t)] t.toList := by
  have hword := Spells.of_word h.word
  rcases withoutLineEnd_cases t with heq | heq
  · rwa [heq] at hword ⊢
  · rw [heq]
    exact hword.append_blank (by decide)

/-- A literal spells its tokens. -/
theorem Literal.IsWritable.spells {l : Literal} (h : l.IsWritable) : Spells l.tokens l.print.toList := by
  induction h with
  | @var n h =>
      rw [Literal.tokens, Literal.print, String.toList_append]
      exact .punct .dollar (.name h)
  | @int t h =>
      rw [Literal.tokens, Literal.print]
      exact .int_text h
  | @float t h =>
      rw [Literal.tokens, Literal.print]
      exact .of_word h.word
  | string t => exact .of_word (word_printQuoted t)
  | boolean b => cases b <;> exact .name (by decide +kernel)
  | null => exact .name (by decide +kernel)
  | @enum n h =>
      rw [Literal.tokens, Literal.print]
      exact .name h
  | @list xs h ih =>
      rw [Literal.tokens, Literal.print, itemTokens_eq, printItems_eq]
      exact (Spells.join_map comma_separates ih).enclose (opens_self .bracketL)
        (closes_self (by decide))
  | @object fs hname h ih =>
      rw [Literal.tokens, Literal.print, fieldTokens_eq, printFields_eq]
      exact (Spells.join_map comma_separates fun f hf => (ih f hf).named (hname f hf)).enclose
        (opens_self .braceL) (closes_self (by decide))

/-- A type spells its tokens. -/
theorem TypeRef.IsProper.spells {t : TypeRef} (h : t.IsProper) : Spells t.tokens t.print.toList := by
  induction t with
  | named n => exact .name h
  | list t ih =>
      rw [TypeRef.tokens, TypeRef.print]
      exact (ih h).enclose (opens_self .bracketL) (closes_self (by decide))
  | nonNull t ih =>
      rw [TypeRef.tokens, TypeRef.print]
      exact (ih h.2).append_text (.of_punct .bang) (breaks_punct (p := .bang) (by decide) [])

/-! ### Selections

The arguments of a field stand on one line if the line stays short, and else one a line. Both ways spell the
same tokens. -/

variable {P : Literal → Prop}

theorem Argument.IsWritable.spells {a : Argument} (hP : ∀ l, P l → l.IsWritable) (h : a.IsWritable P) :
    Spells a.tokens a.print.toList := (hP _ h.value).spells.named h.name

theorem argumentTokens_nil {as : List Argument} (h : as.flatMap Argument.tokens = []) : as = [] := by
  cases as with
  | nil => rfl
  | cons a as => cases h

/-- Arguments spell their tokens in every layout. -/
theorem spells_arguments {as : List Argument} {sep before after : String} (hP : ∀ l, P l → l.IsWritable)
    (has : ∀ a ∈ as, a.IsWritable P) (hsep : IsSeparating sep) (hbefore : Opens .parenL before)
    (hafter : Closes .parenR after) :
    Spells (argumentTokens as) (wrap before (join sep (as.map Argument.print)) after).toList := by
  refine (Spells.join_map hsep fun a ha => (has a ha).spells hP).wrap hbefore hafter fun hnil => ?_
  rw [argumentTokens_nil hnil]
  rfl

theorem spells_arguments_inLine {as : List Argument} (hP : ∀ l, P l → l.IsWritable)
    (has : ∀ a ∈ as, a.IsWritable P) :
    Spells (argumentTokens as) (wrap "(" (join ", " (as.map Argument.print)) ")").toList :=
  spells_arguments hP has comma_separates (opens_self .parenL) (closes_self (by decide))

/-- A directive spells its tokens, its arguments always on one line. -/
theorem Directive.IsWritable.spells {d : Directive} (hP : ∀ l, P l → l.IsWritable) (h : d.IsWritable P) :
    Spells d.tokens d.print.toList := by
  have hargs := spells_arguments_inLine hP h.arguments
  have hb : Breaks (wrap "(" (join ", " (d.arguments.map Argument.print)) ")").toList :=
    breaks_wrap (breaks_punct (p := .parenL) (by decide))
  rw [Directive.print, String.toList_append, String.toList_append, List.append_assoc]
  exact .punct .at (.word (word_name h.name) hb hargs)

theorem spells_directives {ds : List Directive} (hP : ∀ l, P l → l.IsWritable)
    (hds : ∀ d ∈ ds, d.IsWritable P) :
    Spells (ds.flatMap Directive.tokens) (printDirectives ds).toList :=
  .join_map space_separates fun d hd => (hds d hd).spells hP

theorem spells_head {label : Option String} {name : String} (hlabel : ∀ l ∈ label, IsName l) (hname : IsName name) :
    Spells (labelTokens label ++ [.name name]) (wrap "" (label.getD "") ": " ++ name).toList := by
  cases label with
  | none =>
      show Spells [.name name] ("" ++ name).toList
      rw [String.empty_append]
      exact .name hname
  | some l =>
      have hl : IsName l := hlabel l rfl
      have hne : l ≠ "" := by
        rintro rfl
        exact absurd hl (by decide)
      show Spells [.name l, .punct .colon, .name name] (wrap "" l ": " ++ name).toList
      rw [wrap, if_neg hne, String.empty_append]
      exact (Spells.name hname).named hl

/-- A field and its arguments, on one line or on several. -/
theorem spells_fieldHead {label : Option String} {name : String} {args : List Argument}
    (hP : ∀ l, P l → l.IsWritable) (hlabel : ∀ l ∈ label, IsName l) (hname : IsName name)
    (hargs : ∀ a ∈ args, a.IsWritable P) :
    Spells (labelTokens label ++ .name name :: argumentTokens args) (printFieldHead label name args).toList := by
  have hhead := spells_head hlabel hname
  rw [List.append_cons]
  unfold printFieldHead
  dsimp only
  split
  next =>
    have hspread : Spells (argumentTokens args)
        (wrap "(\n" (indent (join "\n" (args.map Argument.print))) "\n)").toList := by
      refine (Spells.join_map newline_separates fun a ha => (hargs a ha).spells hP).indent.wrap
        opens_parens_line (closes_line (by decide)) fun hnil => ?_
      rw [argumentTokens_nil hnil]
      rfl
    refine hhead.append_text hspread (breaks_wrap ?_)
    exact opens_parens_line.breaks (by decide)
  next =>
    refine hhead.append_text (spells_arguments_inLine hP hargs) (breaks_wrap ?_)
    exact breaks_punct (p := .parenL) (by decide)

theorem Selection.tokens_ne_nil (s : Selection) : s.tokens ≠ [] := by
  cases s with
  | field label name args ds inner =>
      rw [Selection.tokens]
      exact List.append_ne_nil_of_right_ne_nil _ (List.cons_ne_nil _ _)
  | spread n ds => exact List.cons_ne_nil _ _
  | inline on ds inner => exact List.cons_ne_nil _ _

theorem Selection.printAll_eq (ss : List Selection) : printAll ss = ss.map print := by
  induction ss with
  | nil => rfl
  | cons s ss ih => rw [printAll, ih, List.map_cons]

/-- Selections in their braces, one a line. -/
theorem spells_selections {ss : List Selection} (h : ∀ s ∈ ss, Spells s.tokens s.print.toList) :
    Spells (selectionTokens ss) (printSelections ss).toList := by
  rw [selectionTokens, printSelections, Selection.allTokens_eq, Selection.printAll_eq]
  refine (Spells.join_map newline_separates h).indent.wrap opens_braces_line (closes_line (by decide)) fun hnil => ?_
  cases ss with
  | nil => rfl
  | cons s ss => exact absurd (List.append_eq_nil_iff.mp hnil).1 s.tokens_ne_nil

/-- The type of a fragment in place stands after its word, if there is one. -/
theorem spells_condition {on : Option String} (h : ∀ t ∈ on, IsName t) :
    Spells (conditionTokens on) (wrap "on " (on.getD "") "").toList := by
  cases on with
  | none => exact .nil
  | some t =>
      have ht : IsName t := h t rfl
      have hne : t ≠ "" := by
        rintro rfl
        exact absurd ht (by decide)
      show Spells [.name "on", .name t] (wrap ("on" ++ " ") t "").toList
      rw [wrap, if_neg hne, String.append_empty, String.append_assoc]
      exact .spaced (by decide +kernel) (.name ht)

/-- A selection spells its tokens. The induction is on how it can be written, so that the selections below
it are known to. -/
theorem Selection.IsWritable.spells {s : Selection} (hP : ∀ l, P l → l.IsWritable) (h : s.IsWritable P) :
    Spells s.tokens s.print.toList := by
  induction h with
  | @field label name args ds inner hlabel hname hargs hds hinner ih =>
      have hjoin := Spells.join space_separates (.cons (spells_fieldHead hP hlabel hname hargs)
        (.cons (spells_directives hP hds) (.cons (spells_selections ih) .nil)))
      rw [Selection.tokens_field, Selection.print]
      simpa only [printSelections, List.flatten_cons, List.flatten_nil, List.append_nil, List.append_assoc,
        List.cons_append] using hjoin
  | @spread name ds hname hon hds =>
      have hdirectives : Spells (ds.flatMap Directive.tokens) (wrap " " (printDirectives ds) "").toList := by
        rw [wrap]
        have h := spells_directives hP hds
        split
        next hempty =>
          rw [hempty] at h
          exact h
        next =>
          rw [String.append_empty, String.toList_append]
          exact h.blanks space_separates.blank
      rw [Selection.tokens, Selection.print, String.append_assoc, String.toList_append, String.toList_append]
      exact .punct .spread (.word (word_name hname) (breaks_wrap space_separates.breaks) hdirectives)
  | @inline on ds inner hon hds hne hinner ih =>
      have hjoin := Spells.join space_separates (.cons (.of_punct .spread) (.cons (spells_condition hon)
        (.cons (spells_directives hP hds) (.cons (spells_selections ih) .nil))))
      rw [Selection.tokens_inline, Selection.print]
      simpa only [printSelections, Punctuator.text, List.flatten_cons, List.flatten_nil, List.append_nil,
        List.append_assoc, List.cons_append, List.nil_append] using hjoin

/-! ### Definitions

A definition begins with its word and has its selections at the end. -/

theorem printDescription_none : printDescription none = "" := rfl

/-- The declaration of a variable spells its tokens. -/
theorem VariableDefinition.IsWritable.spells {v : VariableDefinition} (h : v.IsWritable) :
    Spells v.tokens v.print.toList := by
  have htype := h.type.spells.named h.name
  rw [VariableDefinition.print, h.description, h.default, h.directives]
  show Spells _ ("" ++ "$" ++ v.name ++ ": " ++ v.type.print ++ "" ++ "").toList
  simp only [String.empty_append, String.append_empty, String.append_assoc, String.toList_append] at htype ⊢
  exact .punct .dollar htype

/-- The variables of an operation stand in parentheses, with commas between them. -/
theorem spells_variables {vs : List VariableDefinition} (h : ∀ v ∈ vs, v.IsWritable) :
    Spells (enclosed .parenL .parenR (vs.flatMap VariableDefinition.tokens)) (printVariables vs).toList := by
  have hempty (hnil : vs.flatMap VariableDefinition.tokens = []) : vs = [] := by
    cases vs with
    | nil => rfl
    | cons v vs => cases hnil
  unfold printVariables
  dsimp only
  split
  next =>
    refine (Spells.join_map newline_separates fun v hv => (h v hv).spells).wrap opens_parens_line
      (closes_line (by decide)) fun hnil => ?_
    rw [hempty hnil]
    rfl
  next =>
    refine (Spells.join_map comma_separates fun v hv => (h v hv).spells).wrap (opens_self .parenL)
      (closes_self (by decide)) fun hnil => ?_
    rw [hempty hnil]
    rfl

theorem breaks_selections (ss : List Selection) : Breaks (printSelections ss).toList := by
  refine breaks_wrap ?_
  exact opens_braces_line.breaks (by decide)

/-- The variables of an operation follow its name without a blank. -/
theorem spells_signature {n : String} {vs : List VariableDefinition} (hn : IsName n)
    (hvs : ∀ v ∈ vs, v.IsWritable) :
    Spells (.name n :: enclosed .parenL .parenR (vs.flatMap VariableDefinition.tokens))
      (join "" [n, printVariables vs]).toList := by
  have hne : n ≠ "" := by
    rintro rfl
    exact absurd hn (by decide)
  have hjoin : join "" [n, printVariables vs] = n ++ printVariables vs := by
    rw [join_cons, if_neg hne, join_cons, List.filter_cons]
    by_cases h : printVariables vs = ""
    · simp [h]
    · simp [h]
  have hbreaks : Breaks (printVariables vs).toList := by
    unfold printVariables
    dsimp only
    split
    · exact breaks_wrap (opens_parens_line.breaks (by decide))
    · exact breaks_wrap (breaks_punct (p := .parenL) (by decide))
  rw [hjoin, String.toList_append]
  exact .word (word_name hn) hbreaks (spells_variables hvs)

theorem isName_keyword (k : OperationKind) : IsName k.keyword := by cases k <;> decide +kernel

/-- An operation spells its tokens. -/
theorem Operation.IsWritable.spells {o : Operation} (hP : ∀ l, P l → l.IsWritable) (h : o.IsWritable P) :
    Spells o.tokens o.print.toList := by
  obtain ⟨n, hn, hname⟩ := h.name
  have hhead := Spells.join space_separates (.cons (.name (isName_keyword o.kind))
    (.cons (spells_signature hname h.variableDefinitions) (.cons (spells_directives hP h.directives) .nil)))
  have hselections := spells_selections fun s hs => (h.selections s hs).spells hP
  -- a lone `query` would be left out, but there is a name
  have hshort : join " " [o.kind.keyword, join "" [n, printVariables o.variableDefinitions],
      printDirectives o.directives] ≠ "query" := by
    intro heq
    rw [heq] at hhead
    have hscan := (scan_of_spells hhead).symm.trans (scan_of_spells (.name (n := "query") (by decide +kernel)))
    simpa using congrArg List.length hscan
  have hprint : o.print = join " " [o.kind.keyword, join "" [n, printVariables o.variableDefinitions],
      printDirectives o.directives] ++ " " ++ printSelections o.selections := by
    unfold Operation.print
    dsimp only
    rw [h.description, hn, printDescription_none, String.empty_append, Option.getD_some, if_neg hshort]
  have hspaced := hhead.append (hselections.blanks space_separates.blank) (space_separates.breaks _)
  rw [hprint, Operation.tokens, hn, String.toList_append, String.toList_append]
  simpa only [Option.toList_some, List.map_cons, List.map_nil, List.flatten_cons, List.flatten_nil,
    List.append_nil, List.append_assoc, List.cons_append, List.nil_append] using hspaced

/-- A fragment spells its tokens. -/
theorem Fragment.IsWritable.spells {f : Fragment} (hP : ∀ l, P l → l.IsWritable) (h : f.IsWritable P) :
    Spells f.tokens f.print.toList := by
  have hselections := spells_selections fun s hs => (h.selections s hs).spells hP
  have hrest : Spells (f.directives.flatMap Directive.tokens ++ selectionTokens f.selections)
      (wrap "" (printDirectives f.directives) " " ++ printSelections f.selections).toList := by
    have hdirectives := spells_directives hP h.directives
    refine Spells.append_text ?_ hselections (breaks_selections _)
    rw [wrap]
    split
    next hempty =>
      rw [hempty] at hdirectives
      exact hdirectives
    next =>
      rw [String.empty_append, String.toList_append]
      exact hdirectives.append_blank (by decide)
  have hprint : f.print = "fragment" ++ (" " ++ (f.name ++ (" " ++ ("on" ++ (" " ++ (f.on ++ (" "
      ++ (wrap "" (printDirectives f.directives) " " ++ printSelections f.selections)))))))) := by
    have hfragment : "fragment " = "fragment" ++ " " := by decide +kernel
    have hon : " on " = " " ++ ("on" ++ " ") := by decide +kernel
    rw [Fragment.print, h.description, printDescription_none, hfragment, hon]
    simp only [String.empty_append, String.append_assoc]
  rw [hprint]
  exact .spaced (by decide +kernel) (.spaced h.name (.spaced (by decide +kernel) (.spaced h.on hrest)))

/-- A definition that can be written spells its tokens. -/
theorem Definition.IsWritable.spells {d : Definition} (hP : ∀ l, P l → l.IsWritable) (h : d.IsWritable P) :
    Spells d.tokens d.print.toList := by
  cases d with
  | operation o => exact Operation.IsWritable.spells hP h
  | fragment f => exact Fragment.IsWritable.spells hP h
  | typeSystem => cases h

/-- **The printed text of a document spells its tokens.** -/
theorem Document.spells_print {d : Document} (hP : ∀ l, P l → l.IsWritable) (h : ∀ x ∈ d, x.IsWritable P) :
    Spells d.tokens d.print.toList :=
  .join_map paragraph_separates fun x hx => (h x hx).spells hP

end Spelling

end Harvest.GraphQL
