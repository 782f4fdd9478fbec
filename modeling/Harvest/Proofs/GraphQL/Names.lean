import Harvest.GraphQL.Document.Parser
import Harvest.Proofs.Basic

/-!
# Names in documents

What a document names is written in it: every name that a parser reads is one of the tokens of the text,
and a token that is a name has the form of one. `Document.isName_of_parse` draws from this that a text holds
fragments on types with proper names only, whatever type it is read for, and `Document.isNamed_of_parse` that
all its fields appear under names.

The way there has three layers. The scanner cuts the letters of a name out of the text, so that the tokens
are legible (`Token.IsLegible`). A parser looks at tokens and steps over them, and what it gives comes from
what it has seen: `Parser.Walks` says this of every parser, with one lemma for each, and `Walks.yields` that
legible tokens stay legible under all of them. For those parsers that take a name and keep it,
`Parser.Yields` says what the result is like.

The lemmas on `Walks` follow the definitions of the parsers one by one. A parser that is added needs its own
lemma and changes none of the others.
-/

namespace Harvest.GraphQL

/-- Whether a text is a name: a letter or an underscore, and then letters, digits and underscores. -/
def IsName (s : String) : Prop :=
  ∃ c cs, s.toList = c :: cs ∧ isNameStart c = true ∧ ∀ d ∈ cs, isNameContinue d = true

/-- Whether the characters of a text are those of a name. -/
def hasNameForm : List Char → Bool
  | [] => false
  | c :: cs => isNameStart c && cs.all isNameContinue

theorem hasNameForm_iff (s : String) : hasNameForm s.toList = true ↔ IsName s := by
  cases hs : s.toList with
  | nil => simp [hasNameForm, IsName, hs]
  | cons c cs => simp [hasNameForm, IsName, hs]

instance : DecidablePred IsName := fun s => decidable_of_iff _ (hasNameForm_iff s)

theorem isNameContinue_of_start {c : Char} (h : isNameStart c = true) : isNameContinue c = true := by
  rw [isNameStart, Bool.or_eq_true] at h
  rw [isNameContinue, Bool.or_eq_true]
  refine h.imp_left fun ha => ?_
  rw [Char.isAlphanum, ha]
  rfl

/-- Every character of a name may stand within a name, the first one too. -/
theorem IsName.isNameContinue {s : String} (h : IsName s) {c : Char} (hc : c ∈ s.toList) :
    isNameContinue c = true := by
  obtain ⟨start, cs, hs, hstart, hcs⟩ := h
  rw [hs] at hc
  rcases List.mem_cons.mp hc with rfl | hc
  · exact isNameContinue_of_start hstart
  · exact hcs c hc

/-- A name goes on as a name as long as only characters follow that may stand within one. -/
theorem IsName.append {s t : String} (h : IsName s) (ht : ∀ c ∈ t.toList, GraphQL.isNameContinue c = true) :
    IsName (s ++ t) := by
  obtain ⟨c, cs, hs, hc, hcs⟩ := h
  refine ⟨c, cs ++ t.toList, ?_, hc, fun d hd => (List.mem_append.mp hd).elim (hcs d) (ht d)⟩
  rw [String.toList_append, hs]
  rfl

/-! ## Named selections

A response is keyed by the labels and names of the fields, so that a path through it is a list of names.
This holds as long as every field appears under a name, at every level. -/

/-- Whether the fields of a selection appear under names, at its own level and at those below. -/
inductive Selection.IsNamed : Selection → Prop
  | field {label : Option String} {name : String} {args : List Argument} {ds : List Directive}
      {inner : List Selection} (hkey : IsName (responseKey label name)) (hinner : ∀ s ∈ inner, IsNamed s) :
      IsNamed (.field label name args ds inner)
  | spread {name : String} {ds : List Directive} : IsNamed (.spread name ds)
  | inline {on : Option String} {ds : List Directive} {inner : List Selection}
      (hinner : ∀ s ∈ inner, IsNamed s) : IsNamed (.inline on ds inner)

/-- Whether all that a definition selects appears under names. -/
def Definition.IsNamed (d : Definition) : Prop := ∀ ss ∈ d.selections?, ∀ s ∈ ss, s.IsNamed

/-! ## Tokens

Only the scanner of names makes tokens that are names. The other scanners give texts and numbers, which are
legible because they are no names at all. -/

namespace Token

variable {cs rest : List Char} {t : Token}

/-- Whether a token, if it is a name, has the form of one. -/
def IsLegible (t : Token) : Prop := ∀ n, t = .name n → IsName n

/-! ### Kinds of tokens

Each function of the scanner gives tokens of its own kind. Names come from one place only, where a letter was
seen first and everything after it that can go on with a name. -/

/-- Letters read up to the first character that goes on no name are a name. -/
theorem isName_takeWhile {c : Char} (h : isNameStart c = true) :
    IsName (String.ofList ((c :: cs).takeWhile isNameContinue)) := by
  refine ⟨c, cs.takeWhile isNameContinue, ?_, h, fun d hd => List.all_eq_true.mp List.all_takeWhile d hd⟩
  rw [String.toList_ofList, List.takeWhile_cons_of_pos (isNameContinue_of_start h)]

/-- A quoted text is read as a text. -/
theorem scanString_ok {fuel : Nat} {acc : List Char} (h : scanString fuel acc cs = .ok (t, rest)) :
    ∃ s, t = .string s := by
  induction fuel generalizing acc cs with
  | zero => cases h
  | succ fuel ih =>
      cases cs with
      | nil => cases h
      | cons c cs =>
          rw [scanString] at h
          split at h
          next =>
            cases h
            exact ⟨_, rfl⟩
          next =>
            split at h
            next =>
              split at h
              next => exact ih h
              next => cases h
            next =>
              split at h
              next => cases h
              next => exact ih h

theorem scanBlock_ok {lines : List (List Char)} {line : List Char}
    (h : scanBlock lines line cs = .ok (t, rest)) : ∃ s, t = .blockString s := by
  induction lines, line, cs using scanBlock.induct with
  | case1 lines line rest =>
      rw [scanBlock] at h
      cases h
      exact ⟨_, rfl⟩
  | case2 lines line rest ih =>
      rw [scanBlock] at h
      exact ih h
  | case3 lines line rest ih =>
      rw [scanBlock] at h
      exact ih h
  | case4 lines line c rest h1 h2 h3 hend ih =>
      rw [scanBlock, if_pos hend] at h
      · exact ih h
      all_goals assumption
  | case5 lines line c rest h1 h2 h3 hend ih =>
      rw [scanBlock, if_neg hend] at h
      · exact ih h
      all_goals assumption
  | case6 lines line =>
      rw [scanBlock] at h
      cases h

/-- What begins like a number is read as one, with or without a fraction. -/
theorem scanNumber_ok {sign : List Char} (h : scanNumber sign cs = .ok (t, rest)) :
    ∃ s, t = .int s ∨ t = .float s := by
  obtain ⟨⟨whole, cs₁⟩, -, h⟩ := bind_ok h
  obtain ⟨⟨fraction, cs₂⟩, -, h⟩ := bind_ok h
  obtain ⟨⟨exponent, cs₃⟩, -, h⟩ := bind_ok h
  have hnumber (b : Bool) (s : String) :
      ∃ s', (if b = true then Token.int s else .float s) = .int s'
        ∨ (if b = true then Token.int s else .float s) = .float s' := by
    cases b with
    | false => exact ⟨s, .inr rfl⟩
    | true => exact ⟨s, .inl rfl⟩
  dsimp only at h
  split at h
  next =>
    split at h
    next => cases h
    next =>
      cases h
      exact hnumber _ _
  next =>
    cases h
    exact hnumber _ _

/-- A token that is read at the start of a text is legible. -/
theorem scanOne_isLegible (h : scanOne cs = .ok (t, rest)) : t.IsLegible := by
  -- only one branch gives a name, the others are closed by the form of their tokens
  unfold scanOne at h
  rintro n rfl
  split at h
  next => cases h
  next => 
    obtain ⟨s, hs⟩ := scanBlock_ok h
    cases hs
  next => 
    obtain ⟨s, hs⟩ := scanString_ok h
    cases hs
  next => cases h
  next c rest' _ _ _ => 
    split at h
    next => cases h
    next =>
      split at h
      next hc =>
        cases h
        exact isName_takeWhile hc
      next =>
        split at h
        next =>
          obtain ⟨s, hs | hs⟩ := scanNumber_ok h <;> cases hs
        next =>
          split at h
          next =>
            obtain ⟨s, hs | hs⟩ := scanNumber_ok h <;> cases hs
          next =>
            split at h <;> cases h

/-- The tokens of a text are legible if those are that were read before. -/
theorem scanAll_isLegible {fuel : Nat} {acc : List Token} (hacc : ∀ t ∈ acc, t.IsLegible) :
    ∀ t ∈ scanAll fuel acc cs, t.IsLegible := by
  induction fuel generalizing acc cs with
  | zero =>
      intro t ht
      rw [scanAll, List.mem_reverse] at ht
      rcases List.mem_cons.mp ht with rfl | ht
      · exact nofun
      · exact hacc t ht
  | succ fuel ih =>
      rw [scanAll]
      split
      next =>
        intro t ht
        rcases List.mem_cons.mp (List.mem_reverse.mp ht) with rfl | ht
        · exact nofun
        · exact hacc t ht
      next t rest _ hone =>
        exact ih (List.forall_mem_cons.mpr ⟨scanOne_isLegible hone, hacc⟩)
      next =>
        intro t ht
        rcases List.mem_cons.mp (List.mem_reverse.mp ht) with rfl | ht
        · exact nofun
        · exact hacc t ht

/-- **All names among the tokens of a text have the form of names.** -/
theorem scan_isLegible (text : String) : ∀ t ∈ scan text, t.IsLegible :=
  scanAll_isLegible nofun

end Token

/-! ## Parsers

The rules by which a parser is put together from others, for what it gives and for what it leaves behind. -/

namespace Parser

variable {α β : Type} {p : Parser α} {f : α → Parser β} {P : α → Prop} {Q : β → Prop}
  {fuel : Nat} {constant : Bool}

/-- Whether a parser, on tokens that are all legible, gives results with a property and leaves
legible tokens behind. -/
def Yields (p : Parser α) (P : α → Prop) : Prop :=
  ∀ ts, (∀ t ∈ ts, t.IsLegible) → ∀ a ts', p ts = .ok (a, ts') → P a ∧ ∀ t ∈ ts', t.IsLegible

namespace Yields

theorem pure {a : α} (h : P a) : Yields (Pure.pure a) P := by
  intro ts hts b ts' hrun
  cases hrun
  exact ⟨h, hts⟩

theorem throw {e : SyntaxError} : Yields (MonadExcept.throw e : Parser α) P := by
  intro ts _ b ts' hrun
  cases hrun

/-- One parser after the other: the second may count on what the first gives. -/
theorem bind (hp : p.Yields P) (hf : ∀ a, P a → (f a).Yields Q) : (p >>= f).Yields Q := by
  intro ts hts b ts' hrun
  obtain ⟨⟨a, ts₁⟩, ha, hrun⟩ := bind_ok hrun
  obtain ⟨hPa, hts₁⟩ := hp ts hts a ts₁ ha
  exact hf a hPa ts₁ hts₁ b ts' hrun

theorem imp {Q : α → Prop} (hp : p.Yields P) (h : ∀ a, P a → Q a) : p.Yields Q := by
  intro ts hts a ts' hrun
  obtain ⟨ha, hts'⟩ := hp ts hts a ts' hrun
  exact ⟨h a ha, hts'⟩

end Yields

/-! ### Looking and stepping

What the parsers do to tokens is to look at one and to step over one. -/

theorem get_yields : Yields (get : Parser (List Token)) fun ts => ∀ t ∈ ts, t.IsLegible := by
  intro ts hts us ts' hrun
  cases hrun
  exact ⟨hts, hts⟩

/-- Beyond the end of the tokens there is the end of the text, which is no name. -/
theorem lookahead_yields (n : Nat) : Yields (lookahead n) Token.IsLegible := by
  refine get_yields.bind fun ts hts => ?_
  have hnext : (ts[n]?.getD .eof).IsLegible := by
    cases hn : ts[n]? with
    | none => exact nofun
    | some t => exact hts t (List.mem_of_getElem? hn)
  split
  · exact .throw
  · exact .pure hnext

theorem peek_yields : Yields peek Token.IsLegible := lookahead_yields 0

theorem advance_yields : Yields advance fun _ => True := by
  intro ts hts _ ts' hrun
  cases hrun
  exact ⟨trivial, fun t ht => hts t (List.mem_of_mem_drop ht)⟩

/-- A name that is expected and found is a name. -/
theorem name_yields : Yields name IsName := by
  refine peek_yields.bind fun t ht => ?_
  split
  next n => exact advance_yields.bind fun _ _ => .pure (ht n rfl)
  next => exact .throw

/-! ## Walking along tokens

All parsers are put together from looking at tokens and stepping over them, so what holds of these two
holds of every parser. -/

/-- Whether a parser does nothing but look at tokens, step over them, give a result and give up. -/
inductive Walks : {α : Type} → Parser α → Prop
  | pure {α : Type} (a : α) : Walks (Pure.pure a)
  | throw {α : Type} (e : SyntaxError) : Walks (MonadExcept.throw e : Parser α)
  | bind {α β : Type} {p : Parser α} {f : α → Parser β} (hp : Walks p) (hf : ∀ a, Walks (f a)) :
      Walks (p >>= f)
  | lookahead (n : Nat) : Walks (lookahead n)
  | advance : Walks advance

/-- Whoever walks along legible tokens leaves legible tokens behind. -/
theorem Walks.yields (h : Walks p) : Yields p fun _ => True := by
  induction h with
  | pure a => exact .pure trivial
  | throw e => exact .throw
  | bind hp hf ihp ihf => exact ihp.bind fun a _ => ihf a
  | lookahead n => exact fun ts hts a ts' hrun => ⟨trivial, (lookahead_yields n ts hts a ts' hrun).2⟩
  | advance => exact advance_yields

theorem peek_walks : Walks peek := .lookahead 0

theorem unexpected_walks : Walks (unexpected : Parser α) := peek_walks.bind fun _ => .throw _

theorem isNext_walks (q : Punctuator) : Walks (isNext q) := peek_walks.bind fun _ => .pure _

/-- A mark that has to come is looked at and stepped over. -/
theorem expect_walks (q : Punctuator) : Walks (expect q) := by
  refine peek_walks.bind fun t => ?_
  split
  · exact Walks.advance
  · exact .throw _

theorem accept_walks (q : Punctuator) : Walks (accept q) := by
  refine (isNext_walks q).bind fun b => ?_
  split
  · exact Walks.advance.bind fun _ => .pure _
  · exact .pure _

theorem expectKeyword_walks (word : String) : Walks (expectKeyword word) := by
  refine peek_walks.bind fun t => ?_
  split
  · exact Walks.advance
  · exact .throw _

theorem acceptKeyword_walks (word : String) : Walks (acceptKeyword word) := by
  refine peek_walks.bind fun t => ?_
  split
  · exact Walks.advance.bind fun _ => .pure _
  · exact .pure _

/-- A name is looked at and stepped over. -/
theorem name_walks : Walks name := by
  refine peek_walks.bind fun t => ?_
  split
  · exact Walks.advance.bind fun _ => .pure _
  · exact .throw _

/-! ### Repetition

Lists of a grammar, closed by a mark or separated by one. The induction is on the fuel of the repetition. -/

/-- Up to the mark that closes, whatever is in between walks. -/
theorem untilClosed_walks (hp : Walks p) (close : Punctuator) : Walks (untilClosed p close fuel) := by
  induction fuel with
  | zero => exact unexpected_walks
  | succ fuel ih =>
      refine (accept_walks close).bind fun b => ?_
      split
      · exact .pure _
      · exact hp.bind fun _ => ih.bind fun _ => .pure _

theorem some1_walks (hp : Walks p) (opening close : Punctuator) :
    Walks (some1 fuel opening p close) :=
  (expect_walks opening).bind fun _ => hp.bind fun _ => (untilClosed_walks hp close).bind fun _ =>
    .pure _

theorem optional1_walks (hp : Walks p) (opening close : Punctuator) :
    Walks (optional1 fuel opening p close) := by
  refine (isNext_walks opening).bind fun b => ?_
  split
  · exact some1_walks hp opening close
  · exact .pure _

theorem moreAfter_walks (hp : Walks p) (separator : Punctuator) :
    Walks (moreAfter separator p fuel) := by
  induction fuel with
  | zero => exact .pure _
  | succ fuel ih =>
      refine (accept_walks separator).bind fun b => ?_
      split
      · exact hp.bind fun _ => ih.bind fun _ => .pure _
      · exact .pure _

theorem separated_walks (hp : Walks p) (separator : Punctuator) :
    Walks (separated fuel separator p) :=
  (accept_walks separator).bind fun _ => hp.bind fun _ =>
    (moreAfter_walks hp separator).bind fun _ => .pure _

/-! ### Values, types and selections

The three recursive parts of the language of queries. Each is by induction on its fuel. -/

theorem variableName_walks : Walks (variableName constant) := by
  refine peek_walks.bind fun t => Walks.advance.bind fun _ => ?_
  split
  · refine peek_walks.bind fun u => ?_
    split <;> exact .throw _
  · exact name_walks

/-- A literal is a token, a variable, or a list or object of literals. -/
theorem literal_walks : Walks (literal constant fuel) := by
  induction fuel with
  | zero => exact unexpected_walks
  | succ fuel ih =>
      have hfield : Walks (do
          let n ← name
          expect .colon
          return (n, ← literal constant fuel) : Parser (String × Literal)) :=
        name_walks.bind fun _ => (expect_walks _).bind fun _ => ih.bind fun _ => .pure _
      refine peek_walks.bind fun t => ?_
      split
      · exact Walks.advance.bind fun _ => (untilClosed_walks ih _).bind fun _ => .pure _
      · exact Walks.advance.bind fun _ => (untilClosed_walks hfield _).bind fun _ => .pure _
      · exact variableName_walks.bind fun _ => .pure _
      · exact Walks.advance.bind fun _ => .pure _
      · exact Walks.advance.bind fun _ => .pure _
      · exact Walks.advance.bind fun _ => .pure _
      · exact Walks.advance.bind fun _ => .pure _
      · exact Walks.advance.bind fun _ => .pure _
      · exact unexpected_walks

theorem typeRef_walks : Walks (typeRef fuel) := by
  induction fuel with
  | zero => exact unexpected_walks
  | succ fuel ih =>
      have hbang (t : TypeRef) : Walks (do
          if ← accept .bang then return .nonNull t else return t : Parser TypeRef) := by
        refine (accept_walks _).bind fun b => ?_
        split <;> exact .pure _
      refine (accept_walks _).bind fun b => ?_
      split
      · exact ih.bind fun _ => (expect_walks _).bind fun _ => hbang _
      · exact name_walks.bind fun _ => hbang _

theorem argument_walks : Walks (argument fuel constant) :=
  name_walks.bind fun _ => (expect_walks _).bind fun _ => literal_walks.bind fun _ => .pure _

theorem arguments_walks : Walks (arguments fuel constant) := optional1_walks argument_walks _ _

theorem directives_walks : Walks (directives constant fuel) := by
  induction fuel with
  | zero => exact .pure _
  | succ fuel ih =>
      refine (accept_walks _).bind fun b => ?_
      split
      · exact name_walks.bind fun _ => arguments_walks.bind fun _ => ih.bind fun _ => .pure _
      · exact .pure _

theorem fragmentName_walks : Walks fragmentName := by
  refine peek_walks.bind fun t => ?_
  split
  · exact unexpected_walks
  · exact name_walks

/-- Selections and one selection call each other, so both are shown together. -/
theorem selection_walks_both : Walks (selections fuel) ∧ Walks (selection fuel) := by
  -- on the fuel, for selection sets and selections together, as they are read through each other
  induction fuel with
  | zero => exact ⟨unexpected_walks, unexpected_walks⟩
  | succ fuel ih =>
      obtain ⟨hall, hone⟩ := ih
      refine ⟨some1_walks hone _ _, ?_⟩
      refine (accept_walks _).bind fun spread => ?_
      split
      · refine (acceptKeyword_walks _).bind fun conditional => peek_walks.bind fun t => ?_
        split
        · exact fragmentName_walks.bind fun _ => directives_walks.bind fun _ => .pure _
        · have hrest (on : Option String) : Walks (do
              let ds ← directives false fuel
              return .inline on ds (← selections fuel) : Parser Selection) :=
            directives_walks.bind fun _ => hall.bind fun _ => .pure _
          split
          · exact (name_walks.bind fun _ => .pure _).bind fun on => hrest on
          · exact hrest none
      · have hrest (label : Option String) (n : String) : Walks (do
            let args ← arguments fuel false
            let ds ← directives false fuel
            let inner ← if ← isNext .braceL then selections fuel else pure []
            return .field label n args ds inner : Parser Selection) := by
          refine arguments_walks.bind fun _ => directives_walks.bind fun _ =>
            (isNext_walks _).bind fun b => ?_
          split
          · exact hall.bind fun _ => .pure _
          · exact .pure _
        refine name_walks.bind fun first => (accept_walks _).bind fun b => ?_
        split
        · exact (name_walks.bind fun _ => .pure _).bind fun x => hrest x.1 x.2
        · exact hrest none first

theorem selections_walks : Walks (selections fuel) := selection_walks_both.1

/-! ### Fields under names

The parsers that take a name for a field are followed once more, now for what they give. -/

theorem unexpected_yields : Yields (unexpected : Parser α) P := peek_yields.bind fun _ _ => .throw

/-- What holds of each element that is read holds of all. -/
theorem untilClosed_yields (hp : p.Yields P) (close : Punctuator) :
    Yields (untilClosed p close fuel) fun xs => ∀ x ∈ xs, P x := by
  induction fuel with
  | zero => exact unexpected_yields
  | succ fuel ih =>
      refine (accept_walks close).yields.bind fun b _ => ?_
      split
      · exact .pure nofun
      · exact hp.bind fun x hx => ih.bind fun xs hxs => .pure (List.forall_mem_cons.mpr ⟨hx, hxs⟩)

theorem some1_yields (hp : p.Yields P) (opening close : Punctuator) :
    Yields (some1 fuel opening p close) fun xs => ∀ x ∈ xs, P x :=
  (expect_walks opening).yields.bind fun _ _ => hp.bind fun _ hx =>
    (untilClosed_yields hp close).bind fun _ hxs => .pure (List.forall_mem_cons.mpr ⟨hx, hxs⟩)

/-- Whether a field has a label or not, it appears under the first name that is read of it. -/
theorem selection_yields_both :
    Yields (selections fuel) (fun ss => ∀ s ∈ ss, s.IsNamed)
      ∧ Yields (selection fuel) Selection.IsNamed := by
  induction fuel with
  | zero => exact ⟨unexpected_yields, unexpected_yields⟩
  | succ fuel ih =>
      obtain ⟨hall, hone⟩ := ih
      refine ⟨some1_yields hone _ _, ?_⟩
      refine (accept_walks _).yields.bind fun spread _ => ?_
      split
      · refine (acceptKeyword_walks _).yields.bind fun conditional _ => peek_yields.bind fun t _ => ?_
        split
        · exact fragmentName_walks.yields.bind fun _ _ => directives_walks.yields.bind fun _ _ =>
            .pure .spread
        · have hrest (on : Option String) : Yields (do
              let ds ← directives false fuel
              return .inline on ds (← selections fuel) : Parser Selection) Selection.IsNamed :=
            directives_walks.yields.bind fun _ _ => hall.bind fun _ hss => .pure (.inline hss)
          split
          · exact (name_walks.bind fun _ => .pure _).yields.bind fun on _ => hrest on
          · exact hrest none
      · have hrest (label : Option String) (n : String) (hkey : IsName (Selection.responseKey label n)) :
            Yields (do
              let args ← arguments fuel false
              let ds ← directives false fuel
              let inner ← if ← isNext .braceL then selections fuel else pure []
              return .field label n args ds inner : Parser Selection) Selection.IsNamed := by
          refine arguments_walks.yields.bind fun _ _ => directives_walks.yields.bind fun _ _ =>
            (isNext_walks _).yields.bind fun b _ => ?_
          split
          · exact hall.bind fun _ hss => .pure (.field hkey hss)
          · exact .pure (.field hkey nofun)
        refine name_yields.bind fun first hfirst => (accept_walks _).yields.bind fun b _ => ?_
        split
        · have hlabel : Yields (do return (some first, ← name) : Parser (Option String × String))
              fun x => IsName (Selection.responseKey x.1 x.2) :=
            name_walks.yields.bind fun _ _ => .pure hfirst
          exact hlabel.bind fun x hx => hrest x.1 x.2 hx
        · exact hrest none first hfirst

theorem selections_yields : Yields (selections fuel) fun ss => ∀ s ∈ ss, s.IsNamed := selection_yields_both.1

/-! ### Definitions -/

theorem atDescription_walks : Walks atDescription := by
  refine peek_walks.bind fun t => ?_
  split <;> exact .pure _

theorem description_walks : Walks description := by
  refine peek_walks.bind fun t => ?_
  split
  · exact Walks.advance.bind fun _ => .pure _
  · exact Walks.advance.bind fun _ => .pure _
  · exact .pure _

theorem variableDefinition_walks : Walks (variableDefinition fuel) := by
  have hrest (d : Option Description) (n : String) (t : TypeRef) (dflt : Option Literal) : Walks (do
      let ds ← directives true fuel
      return { description := d, name := n, type := t, default := dflt, directives := ds }
      : Parser VariableDefinition) :=
    directives_walks.bind fun _ => .pure _
  refine description_walks.bind fun _ => (expect_walks _).bind fun _ => name_walks.bind fun _ =>
    (expect_walks _).bind fun _ => typeRef_walks.bind fun _ => (accept_walks _).bind fun b => ?_
  split
  · exact (literal_walks.bind fun _ => .pure _).bind fun _ => hrest _ _ _ _
  · exact hrest _ _ _ none

theorem nameBeforeToken_walks : Walks nameBeforeToken :=
  name_walks.bind fun _ => peek_walks.bind fun _ => .pure _

theorem operationKind_walks : Walks operationKind := by
  refine peek_walks.bind fun t => nameBeforeToken_walks.bind fun n => ?_
  split
  · exact .pure _
  · exact .throw _

theorem operation_walks : Walks (operation fuel) := by
  have hrest (d : Option Description) (k : OperationKind) (n : Option String) : Walks (do
      let vars ← optional1 fuel .parenL (variableDefinition fuel) .parenR
      let ds ← directives false fuel
      let body ← selections fuel
      return { description := d, kind := k, name := n, variableDefinitions := vars, directives := ds,
               selections := body } : Parser Operation) :=
    (optional1_walks variableDefinition_walks _ _).bind fun _ => directives_walks.bind fun _ =>
      selections_walks.bind fun _ => .pure _
  refine (isNext_walks _).bind fun b => ?_
  split
  · exact selections_walks.bind fun _ => .pure _
  · refine description_walks.bind fun d => operationKind_walks.bind fun k =>
      peek_walks.bind fun t => ?_
    split
    · exact Walks.advance.bind fun _ => hrest _ _ _
    · exact hrest _ _ none

/-- All that an operation selects appears under names. -/
theorem operation_yields : Yields (operation fuel) fun o => Definition.IsNamed (.operation o) := by
  have hnamed {o : Operation} (h : ∀ s ∈ o.selections, s.IsNamed) : Definition.IsNamed (.operation o) :=
    fun _ hss => Option.some.inj hss ▸ h
  have hrest (d : Option Description) (k : OperationKind) (n : Option String) : Yields (do
      let vars ← optional1 fuel .parenL (variableDefinition fuel) .parenR
      let ds ← directives false fuel
      let body ← selections fuel
      return { description := d, kind := k, name := n, variableDefinitions := vars, directives := ds,
               selections := body } : Parser Operation) fun o => Definition.IsNamed (.operation o) :=
    (optional1_walks variableDefinition_walks _ _).yields.bind fun _ _ =>
      directives_walks.yields.bind fun _ _ => selections_yields.bind fun _ hss => .pure (hnamed hss)
  refine (isNext_walks _).yields.bind fun b _ => ?_
  split
  · exact selections_yields.bind fun _ hss => .pure (hnamed hss)
  · refine description_walks.yields.bind fun d _ => operationKind_walks.yields.bind fun k _ =>
      peek_yields.bind fun t _ => ?_
    split
    · exact advance_yields.bind fun _ _ => hrest _ _ _
    · exact hrest _ _ none

theorem fragment_walks : Walks (fragment fuel) :=
  description_walks.bind fun _ => (expectKeyword_walks _).bind fun _ => fragmentName_walks.bind fun _ =>
    (expectKeyword_walks _).bind fun _ => name_walks.bind fun _ => directives_walks.bind fun _ =>
      selections_walks.bind fun _ => .pure _

/-- The type of a fragment that is read has the form of a name, and all that it selects appears under
names. -/
theorem fragment_yields :
    Yields (fragment fuel) fun f => IsName f.on ∧ Definition.IsNamed (.fragment f) :=
  description_walks.yields.bind fun _ _ => (expectKeyword_walks _).yields.bind fun _ _ =>
    fragmentName_walks.yields.bind fun _ _ => (expectKeyword_walks _).yields.bind fun _ _ =>
      name_yields.bind fun _ hon => directives_walks.yields.bind fun _ _ =>
        selections_yields.bind fun _ hss => .pure ⟨hon, fun _ hs => Option.some.inj hs ▸ hss⟩

/-! ### The type language -/

theorem inputValue_walks : Walks (inputValue fuel) := by
  have hrest : Walks (do
      let _ ← directives true fuel : Parser Unit) := directives_walks.bind fun _ => .pure _
  refine description_walks.bind fun _ => name_walks.bind fun _ => (expect_walks _).bind fun _ =>
    typeRef_walks.bind fun _ => (accept_walks _).bind fun b => ?_
  split
  · exact literal_walks.bind fun _ => hrest
  · exact hrest

theorem fieldDefinition_walks : Walks (fieldDefinition fuel) :=
  description_walks.bind fun _ => name_walks.bind fun _ =>
    (optional1_walks inputValue_walks _ _).bind fun _ => (expect_walks _).bind fun _ =>
      typeRef_walks.bind fun _ => directives_walks.bind fun _ => .pure _

theorem enumValue_walks : Walks (enumValue fuel) := by
  have hrest : Walks (do
      let _ ← name
      let _ ← directives true fuel : Parser Unit) :=
    name_walks.bind fun _ => directives_walks.bind fun _ => .pure _
  refine description_walks.bind fun _ => peek_walks.bind fun t => ?_
  split
  · exact (Walks.throw _).bind fun _ => hrest
  · exact hrest

theorem rootType_walks : Walks rootType :=
  operationKind_walks.bind fun _ => (expect_walks _).bind fun _ => name_walks.bind fun _ =>
    .pure _

theorem implementsClause_walks : Walks (implementsClause fuel) := by
  refine (acceptKeyword_walks _).bind fun b => ?_
  split
  · exact (separated_walks name_walks _).bind fun _ => .pure _
  · exact .pure _

theorem unionMembers_walks : Walks (unionMembers fuel) := by
  refine (accept_walks _).bind fun b => ?_
  split
  · exact (separated_walks name_walks _).bind fun _ => .pure _
  · exact .pure _

theorem directiveLocation_walks : Walks directiveLocation := by
  refine peek_walks.bind fun t => nameBeforeToken_walks.bind fun n => ?_
  split
  · exact .pure _
  · exact .throw _

/-- What follows the keyword of a type depends on the keyword, and walks in every case. -/
theorem typeBody_walks (keyword : String) : Walks (typeBody fuel keyword) := by
  unfold typeBody
  split
  · exact directives_walks.bind fun _ => (optional1_walks rootType_walks _ _).bind fun _ =>
      .pure _
  · exact name_walks.bind fun _ => directives_walks.bind fun _ => .pure _
  · exact name_walks.bind fun _ => directives_walks.bind fun _ => unionMembers_walks.bind fun _ =>
      .pure _
  · exact name_walks.bind fun _ => directives_walks.bind fun _ =>
      (optional1_walks enumValue_walks _ _).bind fun _ => .pure _
  · exact name_walks.bind fun _ => directives_walks.bind fun _ =>
      (optional1_walks inputValue_walks _ _).bind fun _ => .pure _
  · exact name_walks.bind fun _ => implementsClause_walks.bind fun _ =>
      directives_walks.bind fun _ => (optional1_walks fieldDefinition_walks _ _).bind fun _ =>
        .pure _

theorem typeDefinition_walks (keyword : String) : Walks (typeDefinition fuel keyword) := by
  refine description_walks.bind fun _ => (expectKeyword_walks _).bind fun _ => ?_
  split
  · exact (expect_walks _).bind fun _ => name_walks.bind fun _ =>
      (optional1_walks inputValue_walks _ _).bind fun _ => (acceptKeyword_walks _).bind fun _ =>
        (expectKeyword_walks _).bind fun _ => (separated_walks directiveLocation_walks _).bind fun _ =>
          .pure _
  · exact directives_walks.bind fun _ => (some1_walks rootType_walks _ _).bind fun _ =>
      .pure _
  · exact (typeBody_walks _).bind fun _ => .pure _

theorem typeExtension_walks : Walks (typeExtension fuel) := by
  refine (Walks.lookahead 1).bind fun t => ?_
  split
  · split
    · refine Walks.advance.bind fun _ => Walks.advance.bind fun _ =>
        (typeBody_walks _).bind fun b => ?_
      split
      · exact .pure _
      · exact unexpected_walks
    · exact .throw _
  · exact .throw _

/-! ### Documents -/

theorem definition_walks : Walks (definition fuel) := by
  refine (isNext_walks _).bind fun b => ?_
  split
  · exact operation_walks.bind fun _ => .pure _
  · refine atDescription_walks.bind fun described => (Walks.lookahead _).bind fun t => ?_
    split
    · split
      · exact (typeDefinition_walks _).bind fun _ => .pure _
      · split
        · exact operation_walks.bind fun _ => .pure _
        · split
          · exact fragment_walks.bind fun _ => .pure _
          · split
            · exact .throw _
            · split
              · exact typeExtension_walks.bind fun _ => .pure _
              · exact .throw _
    · split <;> exact .throw _

/-- A document is walked along definition by definition, as often as there are rounds. -/
theorem definitions_walks {rounds : Nat} : Walks (definitions fuel rounds) := by
  induction rounds with
  | zero => exact unexpected_walks
  | succ rounds ih =>
      refine definition_walks.bind fun d => peek_walks.bind fun t => ?_
      split
      · exact .pure _
      · exact ih.bind fun _ => .pure _

/-- Whether a definition, if it is a fragment, is one on a proper name. -/
def IsOnName (d : Definition) : Prop := ∀ f, d = .fragment f → IsName f.on

/-- What holds of the operations and fragments that are read, and of the type language, holds of every
definition. -/
theorem definition_yields {P : Definition → Prop} (ho : Yields (operation fuel) fun o => P (.operation o))
    (hf : Yields (fragment fuel) fun f => P (.fragment f)) (ht : P .typeSystem) :
    Yields (definition fuel) P := by
  refine (isNext_walks _).yields.bind fun b _ => ?_
  split
  · exact ho.bind fun _ h => .pure h
  · refine atDescription_walks.yields.bind fun described _ => (lookahead_yields _).bind fun t _ => ?_
    split
    · split
      · exact (typeDefinition_walks _).yields.bind fun _ _ => .pure ht
      · split
        · exact ho.bind fun _ h => .pure h
        · split
          · exact hf.bind fun _ h => .pure h
          · split
            · exact .throw
            · split
              · exact typeExtension_walks.yields.bind fun _ _ => .pure ht
              · exact .throw
    · split <;> exact .throw

/-- What holds of one definition holds of all in the document. -/
theorem definitions_yields {P : Definition → Prop} (hd : Yields (definition fuel) P) {rounds : Nat} :
    Yields (definitions fuel rounds) fun ds => ∀ d ∈ ds, P d := by
  induction rounds with
  | zero => exact unexpected_yields
  | succ rounds ih =>
      refine hd.bind fun d hd => peek_yields.bind fun t _ => ?_
      split
      · exact .pure (List.forall_mem_singleton.mpr hd)
      · exact ih.bind fun ds hds => .pure (List.forall_mem_cons.mpr ⟨hd, hds⟩)

/-- A result of reading a whole text. -/
theorem of_runOn {p : Nat → Parser α} {text : String} {a : α} (hp : ∀ fuel, (p fuel).Yields P)
    (h : runOn p text = .ok a) : P a := by
  unfold runOn StateT.run' at h
  cases hrun : p ((Token.scan text).length + 1) (Token.scan text) with
  | error e =>
      simp only [hrun] at h
      cases h
  | ok x =>
      simp only [hrun] at h
      cases h
      exact (hp _ _ (Token.scan_isLegible text) x.1 x.2 hrun).1

end Parser

/-- **Every fragment of a text is one on a proper name.** -/
theorem Document.isName_of_parse {text : String} {d : Document} (h : Document.parse text = .ok d) :
    ∀ f ∈ Document.fragments d, IsName f.on := by
  intro f hf
  obtain ⟨x, hx, hfx⟩ := List.mem_filterMap.mp hf
  have hdefinition (fuel : Nat) : (Parser.definition fuel).Yields Parser.IsOnName :=
    Parser.definition_yields (Parser.operation_walks.yields.imp fun _ _ => nofun)
      (Parser.fragment_yields.imp fun _ hg _ heq => Definition.fragment.inj heq ▸ hg.1) nofun
  refine Parser.of_runOn (fun fuel => Parser.definitions_yields (hdefinition fuel)) h x hx f ?_
  cases x with
  | fragment g =>
      cases hfx
      rfl
  | operation o => cases hfx
  | typeSystem => cases hfx

/-- **All fields of a text appear under names.** -/
theorem Document.isNamed_of_parse {text : String} {d : Document} (h : Document.parse text = .ok d) :
    ∀ x ∈ d, x.IsNamed :=
  Parser.of_runOn (fun _ => Parser.definitions_yields (Parser.definition_yields Parser.operation_yields
    (Parser.fragment_yields.imp fun _ hf => hf.2) nofun)) h

end Harvest.GraphQL
