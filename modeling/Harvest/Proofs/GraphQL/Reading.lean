import Harvest.Proofs.GraphQL.Writing

/-!
# Reading what was written

From the tokens of a document the document is read back, part by part and whatever comes after it, as long as
that cannot go on with the part. Only some values come back as others that look the same: a number without a
fraction is an integer, three names stand for constants, and a line end after an integer is lost. `reread` says
so. With `Token.scan_of_spells` this is `Document.parse_of_spells`: a document is read from every text that
spells its tokens.

`Parser.Reads` says of a parser that it gives a result and leaves certain tokens, and composes along the
definition of the parser. What a part must not be followed by is written as `Parser.Avoids`, a list of
punctuators that the next token is none of: a field without arguments, for instance, must not be followed by
a parenthesis. A list closed by a punctuator needs this of each item with the closing one added, so the
lemmas on repetition take it as a parameter and are used for arguments, selections and definitions alike.

Fuel is counted against tokens. No part takes more rounds than it has tokens, which is why the fuel of every
lemma is bounded by a length.

One name is refused: no fragment is called like the word between its name and its type. The last section
shows that a text with such a fragment has no reading at all.
-/

namespace Harvest.GraphQL

/-! ## Values as they are read back

Reading back is the identity on selections but for the values in them, and on values but for the cases that
`Literal.reread` names. -/

mutual

/-- A literal as it is read back. -/
def Literal.reread : Literal → Literal
  | .int t => .int (Token.withoutLineEnd t)
  | .float t => if t.toList.any fun c => c = '.' ∨ c = 'e' then .float t else .int t
  | .enum n => Parser.namedLiteral n
  | .list xs => .list (Literal.rereadItems xs)
  | .object fs => .object (Literal.rereadFields fs)
  | l => l

def Literal.rereadItems : List Literal → List Literal
  | [] => []
  | x :: xs => Literal.reread x :: Literal.rereadItems xs

def Literal.rereadFields : List (String × Literal) → List (String × Literal)
  | [] => []
  | (n, v) :: fs => (n, Literal.reread v) :: Literal.rereadFields fs

end

def Argument.reread (a : Argument) : Argument := { a with value := a.value.reread }

def Directive.reread (d : Directive) : Directive := { d with arguments := d.arguments.map Argument.reread }

mutual

/-- A selection as it is read back: the same, but for the values in it. -/
def Selection.reread : Selection → Selection
  | .field label name args ds inner =>
    .field label name (args.map Argument.reread) (ds.map Directive.reread) (Selection.rereadAll inner)
  | .spread n ds => .spread n (ds.map Directive.reread)
  | .inline on ds inner => .inline on (ds.map Directive.reread) (Selection.rereadAll inner)

def Selection.rereadAll : List Selection → List Selection
  | [] => []
  | s :: ss => Selection.reread s :: Selection.rereadAll ss

end

def Operation.reread (o : Operation) : Operation :=
  { o with directives := o.directives.map Directive.reread, selections := o.selections.map Selection.reread }

def Fragment.reread (f : Fragment) : Fragment :=
  { f with directives := f.directives.map Directive.reread, selections := f.selections.map Selection.reread }

/-- A definition as it is read back: the same, but for the values in it. -/
def Definition.reread : Definition → Definition
  | .operation o => .operation o.reread
  | .fragment f => .fragment f.reread
  | .typeSystem => .typeSystem

theorem Literal.rereadItems_eq (xs : List Literal) : rereadItems xs = xs.map reread := by
  induction xs with
  | nil => rfl
  | cons x xs ih => rw [rereadItems, ih, List.map_cons]

theorem Literal.rereadFields_eq (fs : List (String × Literal)) :
    rereadFields fs = fs.map fun f => (f.1, f.2.reread) := by
  induction fs with
  | nil => rfl
  | cons f fs ih => rw [rereadFields, ih, List.map_cons]

theorem Selection.rereadAll_eq (ss : List Selection) : rereadAll ss = ss.map reread := by
  induction ss with
  | nil => rfl
  | cons s ss ih => rw [rereadAll, ih, List.map_cons]

/-- Whether a token is one, not the reason why there is none. -/
def Token.IsSound (t : Token) : Prop := ∀ e, t ≠ .bad e

theorem Token.IsSound.punct (q : Punctuator) : (Token.punct q).IsSound := nofun

theorem Token.IsSound.eof : Token.eof.IsSound := nofun

theorem Token.IsSound.name (n : String) : (Token.name n).IsSound := nofun

namespace Parser

open Token (enclosed)

variable {α β : Type} {p : Parser α} {f : α → Parser β} {ts us rest : List Token} {a : α} {b : β}
  {t : Token} {q : Punctuator} {ps : List Punctuator} {n : String} {fuel : Nat}

/-! ## Steps

What the smallest parsers do, and how they go together. A mark that is asked for is found and stepped over,
or it is refused and nothing has happened. -/

/-- Whether a parser gives a result and leaves the rest of the tokens. -/
def Reads (p : Parser α) (ts : List Token) (a : α) (rest : List Token) : Prop := p ts = .ok (a, rest)

/-! ### One token

Each parser of one token has a lemma for the token that it takes, and one for the tokens that it leaves. -/

theorem Reads.pure (a : α) (ts : List Token) : Reads (Pure.pure a) ts a ts := rfl

theorem Reads.bind (hp : Reads p ts a us) (hf : Reads (f a) us b rest) : Reads (p >>= f) ts b rest := by
  show (p ts >>= fun x => f x.1 x.2) = _
  rw [show p ts = .ok (a, us) from hp]
  exact hf

theorem peek_reads (h : t.IsSound) (ts : List Token) : Reads peek (t :: ts) t (t :: ts) := by
  cases t with
  | bad e => exact absurd rfl (h e)
  | _ => rfl

theorem advance_reads (t : Token) (ts : List Token) : Reads advance (t :: ts) () ts := rfl

theorem name_reads (n : String) (ts : List Token) : Reads name (.name n :: ts) n ts := rfl

theorem isNext_reads (q : Punctuator) (ts : List Token) :
    Reads (isNext q) (.punct q :: ts) true (.punct q :: ts) := by
  refine (peek_reads (.punct q) ts).bind ?_
  rw [beq_self_eq_true]
  exact .pure ..

theorem accept_reads (q : Punctuator) (ts : List Token) : Reads (accept q) (.punct q :: ts) true ts :=
  (isNext_reads q ts).bind ((advance_reads ..).bind (.pure ..))

theorem expect_reads (q : Punctuator) (ts : List Token) : Reads (expect q) (.punct q :: ts) () ts := by
  refine (peek_reads (.punct q) ts).bind ?_
  rw [beq_self_eq_true]
  exact advance_reads ..

theorem expectKeyword_reads (n : String) (ts : List Token) :
    Reads (expectKeyword n) (.name n :: ts) () ts := by
  refine (peek_reads (.name n) ts).bind ?_
  rw [beq_self_eq_true]
  exact advance_reads ..

theorem acceptKeyword_reads (n : String) (ts : List Token) :
    Reads (acceptKeyword n) (.name n :: ts) true ts := by
  refine (peek_reads (.name n) ts).bind ?_
  rw [beq_self_eq_true]
  exact (advance_reads ..).bind (.pure ..)

/-- A word that is not there is refused, and the token stays. -/
theorem acceptKeyword_refuses (ht : t.IsSound) (hn : t ≠ .name n) (ts : List Token) :
    Reads (acceptKeyword n) (t :: ts) false (t :: ts) := by
  refine (peek_reads ht ts).bind ?_
  rw [beq_eq_false_iff_ne.mpr hn]
  exact .pure ..

/-- Whether there are more tokens, of which the first is none of some punctuators. -/
def Avoids (ps : List Punctuator) (ts : List Token) : Prop :=
  ∃ t more, ts = t :: more ∧ t.IsSound ∧ ∀ q ∈ ps, t ≠ .punct q

theorem avoids_other (ht : t.IsSound) (hpunct : ∀ q, t ≠ .punct q) (ps : List Punctuator) (ts : List Token) :
    Avoids ps (t :: ts) := ⟨t, ts, rfl, ht, fun q _ => hpunct q⟩

theorem avoids_name (ps : List Punctuator) (n : String) (ts : List Token) : Avoids ps (.name n :: ts) :=
  avoids_other (.name n) (fun _ h => Token.noConfusion h) ps ts

theorem avoids_punct (hq : q ∉ ps) (ts : List Token) : Avoids ps (.punct q :: ts) :=
  ⟨_, _, rfl, .punct q, fun _ hp h => hq (Token.punct.inj h ▸ hp)⟩

theorem Avoids.mono {qs : List Punctuator} (h : Avoids ps ts) (hsub : qs ⊆ ps) : Avoids qs ts := by
  obtain ⟨t, more, rfl, ht, hps⟩ := h
  exact ⟨t, more, rfl, ht, fun q hq => hps q (hsub hq)⟩

/-- What stands in brackets begins with the bracket, and what is left out begins with what comes after it. -/
theorem avoids_enclosed {close : Punctuator} (hq : q ∉ ps) (h : Avoids ps rest) (ts : List Token) :
    Avoids ps (enclosed q close ts ++ rest) := by
  cases ts with
  | nil => exact h
  | cons t ts => exact avoids_punct hq _

theorem isNext_refuses (h : Avoids ps ts) (hq : q ∈ ps) : Reads (isNext q) ts false ts := by
  obtain ⟨t, more, rfl, ht, hps⟩ := h
  refine (peek_reads ht more).bind ?_
  rw [beq_eq_false_iff_ne.mpr (hps q hq)]
  exact .pure ..

theorem accept_refuses (h : Avoids ps ts) (hq : q ∈ ps) : Reads (accept q) ts false ts :=
  (isNext_refuses h hq).bind (.pure ..)

/-! ## Repetition

Lists in brackets, for any tokens and any values of their items. -/

section Repetition

variable {γ : Type} {item : Parser β} {xs : List γ} {tokens : γ → List Token} {value : γ → β}
  {opening close : Punctuator}

theorem enclosed_of_ne_nil (h : ts ≠ []) :
    enclosed opening close ts = .punct opening :: (ts ++ [.punct close]) := by
  cases ts with
  | nil => exact absurd rfl h
  | cons t ts => rfl

theorem length_enclosed (h : ts ≠ []) : (enclosed opening close ts).length = ts.length + 2 := by
  rw [enclosed_of_ne_nil h, List.length_cons, List.length_append, List.length_singleton]

theorem length_le_enclosed (opening close : Punctuator) (ts : List Token) : ts.length ≤ (enclosed opening close ts).length := by
  cases ts with
  | nil => exact Nat.le_refl _
  | cons t ts =>
      rw [length_enclosed (List.cons_ne_nil t ts)]
      exact Nat.le_add_right _ 2

theorem length_le_flatMap (tokens : γ → List Token) {x : γ} (hx : x ∈ xs) : (tokens x).length ≤ (xs.flatMap tokens).length := by
  induction xs with
  | nil => cases hx
  | cons y ys ih =>
      rw [List.flatMap_cons, List.length_append]
      rcases List.mem_cons.mp hx with rfl | hx
      · exact Nat.le_add_right _ _
      · exact (ih hx).trans (Nat.le_add_left _ _)

/-- An item has a token, since something stands in front of what comes after it. -/
theorem length_pos_of_avoids {x : γ} (h : ∀ more, Avoids ps (tokens x ++ more)) : 0 < (tokens x).length := by
  obtain ⟨t, more, htokens, -, -⟩ := h []
  rw [List.append_nil] at htokens
  rw [htokens]
  exact Nat.succ_pos _

/-! ### Lists

In a list what comes after an item is the next item or the closing punctuator. An item therefore has to be
read in front of anything that begins like one of these. -/

/-- What comes after an item: another one, or the end of the list. -/
theorem avoids_items (hclose : close ∉ ps) (hstart : ∀ x ∈ xs, ∀ more, Avoids (close :: ps) (tokens x ++ more)) :
    Avoids ps (xs.flatMap tokens ++ .punct close :: rest) := by
  cases xs with
  | nil => exact avoids_punct hclose rest
  | cons x xs =>
      rw [List.flatMap_cons, List.append_assoc]
      exact (hstart x List.mem_cons_self _).mono (List.subset_cons_self ..)

/-- Items are read up to the punctuator that closes them. -/
theorem untilClosed_reads (ps : List Punctuator) (hclose : close ∉ ps) (hfuel : (xs.flatMap tokens).length < fuel)
    (hstart : ∀ x ∈ xs, ∀ more, Avoids (close :: ps) (tokens x ++ more))
    (hitem : ∀ x ∈ xs, ∀ more, Avoids ps more → Reads item (tokens x ++ more) (value x) more) :
    Reads (untilClosed item close fuel) (xs.flatMap tokens ++ .punct close :: rest) (xs.map value) rest := by
  induction xs generalizing fuel with
  | nil =>
      obtain ⟨fuel, rfl⟩ := Nat.exists_eq_succ_of_ne_zero (Nat.ne_of_gt hfuel)
      exact (accept_reads close rest).bind (.pure ..)
  | cons x xs ih =>
      obtain ⟨fuel, rfl⟩ := Nat.exists_eq_succ_of_ne_zero (Nat.ne_of_gt (Nat.zero_lt_of_lt hfuel))
      have hx := hstart x List.mem_cons_self
      have hxs : ∀ y ∈ xs, ∀ more, Avoids (close :: ps) (tokens y ++ more) :=
        fun y hy => hstart y (List.mem_cons_of_mem x hy)
      have hpos := length_pos_of_avoids hx
      rw [List.flatMap_cons, List.length_append] at hfuel
      rw [List.flatMap_cons, List.append_assoc]
      refine (accept_refuses (hx _) List.mem_cons_self).bind ?_
      refine (hitem x List.mem_cons_self _ (avoids_items hclose hxs)).bind ?_
      exact (ih (by omega) hxs fun y hy => hitem y (List.mem_cons_of_mem x hy)).bind (.pure ..)

/-- A list in brackets is read if it has an item. -/
theorem some1_reads (opening : Punctuator) (rest : List Token) (hne : xs ≠ []) (hclose : close ∉ ps) (hfuel : (xs.flatMap tokens).length ≤ fuel)
    (hstart : ∀ x ∈ xs, ∀ more, Avoids (close :: ps) (tokens x ++ more))
    (hitem : ∀ x ∈ xs, ∀ more, Avoids ps more → Reads item (tokens x ++ more) (value x) more) :
    Reads (some1 fuel opening item close) (enclosed opening close (xs.flatMap tokens) ++ rest)
      (xs.map value) rest := by
  obtain ⟨x, xs, rfl⟩ := List.exists_cons_of_ne_nil hne
  have hx := hstart x List.mem_cons_self
  have hxs : ∀ y ∈ xs, ∀ more, Avoids (close :: ps) (tokens y ++ more) :=
    fun y hy => hstart y (List.mem_cons_of_mem x hy)
  have hpos := length_pos_of_avoids hx
  rw [List.flatMap_cons, List.length_append] at hfuel
  rw [enclosed_of_ne_nil, List.cons_append, List.flatMap_cons, List.append_assoc, List.append_assoc]
  · refine (expect_reads opening _).bind ?_
    refine (hitem x List.mem_cons_self _ (avoids_items hclose hxs)).bind ?_
    exact (untilClosed_reads ps hclose (by omega) hxs fun y hy => hitem y (List.mem_cons_of_mem x hy)).bind (.pure ..)
  · rw [← List.length_pos_iff, List.flatMap_cons, List.length_append]
    omega

/-- A list in brackets is read, and an empty one without its brackets. -/
theorem optional1_reads (ps : List Punctuator) (hclose : close ∉ ps) (hfuel : (xs.flatMap tokens).length ≤ fuel)
    (hstart : ∀ x ∈ xs, ∀ more, Avoids (close :: ps) (tokens x ++ more))
    (hitem : ∀ x ∈ xs, ∀ more, Avoids ps more → Reads item (tokens x ++ more) (value x) more)
    (hrest : Avoids [opening] rest) :
    Reads (optional1 fuel opening item close) (enclosed opening close (xs.flatMap tokens) ++ rest)
      (xs.map value) rest := by
  cases xs with
  | nil => exact (isNext_refuses hrest List.mem_cons_self).bind (.pure ..)
  | cons x xs =>
      have hsome := some1_reads opening rest (List.cons_ne_nil x xs) hclose hfuel hstart hitem
      have hpos := length_pos_of_avoids (hstart x List.mem_cons_self)
      rw [enclosed_of_ne_nil] at hsome ⊢
      · exact (isNext_reads opening _).bind hsome
      · rw [← List.length_pos_iff, List.flatMap_cons, List.length_append]
        omega
      · rw [← List.length_pos_iff, List.flatMap_cons, List.length_append]
        omega

end Repetition

/-! ## Values and types

A literal ends by itself. A type may be followed by an exclamation mark, which would belong to it. -/

/-- No literal begins like the end of a list. -/
theorem literal_avoids (l : Literal) (more : List Token) :
    Avoids [.bracketR, .braceR, .parenR] (l.tokens ++ more) := by
  have hint (text : String) (more : List Token) : Avoids [.bracketR, .braceR, .parenR] (.int text :: more) :=
    avoids_other (fun _ h => Token.noConfusion h) (fun _ h => Token.noConfusion h) ..
  cases l with
  | int t => exact hint ..
  | float t =>
      rw [Literal.tokens, Token.ofNumeral]
      split
      · exact avoids_other (fun _ h => Token.noConfusion h) (fun _ h => Token.noConfusion h) ..
      · exact hint ..
  | string t block =>
      cases block
      · exact avoids_other (fun _ h => Token.noConfusion h) (fun _ h => Token.noConfusion h) ..
      · exact avoids_other (fun _ h => Token.noConfusion h) (fun _ h => Token.noConfusion h) ..
  | boolean b => exact avoids_name ..
  | null => exact avoids_name ..
  | enum n => exact avoids_name ..
  -- a variable, a list and an object begin with a punctuator of their own
  | _ => exact avoids_punct (by decide) _

/-- A literal is read back, whatever comes after it. -/
theorem literal_reads {l : Literal} (h : l.IsWritable) (hfuel : l.tokens.length ≤ fuel) (rest : List Token) :
    Reads (literal false fuel) (l.tokens ++ rest) l.reread rest := by
  obtain ⟨fuel, rfl⟩ : ∃ m, fuel = m + 1 := by
    have hpos : 0 < l.tokens.length := length_pos_of_avoids (literal_avoids l)
    exact ⟨fuel - 1, by omega⟩
  induction h generalizing fuel rest with
  | @var n h => rfl
  | @int t h => rfl
  | @float t h =>
      rw [Literal.tokens, Token.ofNumeral, Literal.reread]
      split <;> rfl
  | string t => rfl
  | boolean b => cases b <;> rfl
  | null => rfl
  | enum h => rfl
  | @list xs h ih =>
      rw [Literal.tokens, Literal.itemTokens_eq] at hfuel ⊢
      rw [Literal.reread, Literal.rereadItems_eq, List.cons_append, List.append_assoc]
      rw [List.length_cons, List.length_append, List.length_singleton] at hfuel
      refine (peek_reads (.punct _) _).bind ((advance_reads ..).bind (Reads.bind ?_ (.pure ..)))
      refine untilClosed_reads [] List.not_mem_nil (by omega)
        (fun x _ more => (literal_avoids x more).mono (by decide)) fun x hx more _ => ?_
      have hlength := length_le_flatMap Literal.tokens hx
      obtain ⟨fuel, rfl⟩ : ∃ m, fuel = m + 1 := ⟨fuel - 1, by omega⟩
      exact ih x hx more fuel (by omega)
  | @object fs hname h ih =>
      rw [Literal.tokens, Literal.fieldTokens_eq] at hfuel ⊢
      rw [Literal.reread, Literal.rereadFields_eq, List.cons_append, List.append_assoc]
      rw [List.length_cons, List.length_append, List.length_singleton] at hfuel
      refine (peek_reads (.punct _) _).bind ((advance_reads ..).bind (Reads.bind ?_ (.pure ..)))
      refine untilClosed_reads [] List.not_mem_nil (by omega)
        (fun f _ more => avoids_name ..) fun f hf more _ => ?_
      have hlength := length_le_flatMap Literal.memberTokens hf
      have hfield : (Literal.memberTokens f).length = f.2.tokens.length + 2 := rfl
      obtain ⟨fuel, rfl⟩ : ∃ m, fuel = m + 1 := ⟨fuel - 1, by omega⟩
      refine (name_reads ..).bind ((expect_reads ..).bind (Reads.bind ?_ (.pure ..)))
      exact ih f hf more fuel (by omega)

/-- Reads a type up to an exclamation mark and goes on with it. -/
def typeRefThen (fuel : Nat) (finish : TypeRef → Parser TypeRef) : Parser TypeRef := do
  if ← accept .bracketL then
    let item ← typeRef fuel
    expect .bracketR
    finish (.list item)
  else finish (.named (← name))

theorem typeRef_succ (fuel : Nat) : typeRef (fuel + 1) = typeRefThen fuel fun inner => do
    if ← accept .bang then return .nonNull inner else return inner := rfl

theorem typeRef_pos (t : TypeRef) : 0 < t.tokens.length := by
  cases t with
  | nonNull t =>
      rw [TypeRef.tokens, List.length_append]
      exact Nat.succ_pos _
  | _ => exact Nat.succ_pos _

/-- A type is read back, and one that admits null even before the mark that would exclude it. -/
theorem typeRef_reads_both {t : TypeRef} (h : t.IsProper) :
    (∀ fuel, t.tokens.length ≤ fuel → ∀ rest, Avoids [.bang] rest →
      Reads (typeRef fuel) (t.tokens ++ rest) t rest)
      ∧ (t.isNonNull = false → ∀ fuel, t.tokens.length ≤ fuel + 1 → ∀ finish us u rest,
        Reads (finish t) us u rest → Reads (typeRefThen fuel finish) (t.tokens ++ us) u rest) := by
  have hall {t : TypeRef} (hnullable : ∀ fuel, t.tokens.length ≤ fuel + 1 → ∀ finish us u rest,
      Reads (finish t) us u rest → Reads (typeRefThen fuel finish) (t.tokens ++ us) u rest)
      (fuel : Nat) (hfuel : t.tokens.length ≤ fuel)
      (rest : List Token) (hrest : Avoids [.bang] rest) : Reads (typeRef fuel) (t.tokens ++ rest) t rest := by
    have hpos := typeRef_pos t
    obtain ⟨fuel, rfl⟩ : ∃ m, fuel = m + 1 := ⟨fuel - 1, by omega⟩
    rw [typeRef_succ]
    exact hnullable fuel hfuel _ _ _ _ ((accept_refuses hrest List.mem_cons_self).bind (.pure ..))
  induction t with
  | named n =>
      have hnamed (fuel : Nat) (finish : TypeRef → Parser TypeRef) (us : List Token) (u : TypeRef)
          (rest : List Token) (h : Reads (finish (.named n)) us u rest) :
          Reads (typeRefThen fuel finish) (.name n :: us) u rest :=
        (accept_refuses (avoids_name [.bracketL] n us) List.mem_cons_self).bind ((name_reads ..).bind h)
      exact ⟨hall fun fuel _ => hnamed fuel, fun _ fuel _ => hnamed fuel⟩
  | list t ih =>
      have hlist (fuel : Nat) (hfuel : (TypeRef.list t).tokens.length ≤ fuel + 1)
          (finish : TypeRef → Parser TypeRef) (us : List Token) (u : TypeRef) (rest : List Token)
          (hread : Reads (finish (.list t)) us u rest) :
          Reads (typeRefThen fuel finish) ((TypeRef.list t).tokens ++ us) u rest := by
        rw [TypeRef.tokens, List.length_cons, List.length_append, List.length_singleton] at hfuel
        rw [TypeRef.tokens, List.cons_append, List.append_assoc]
        refine (accept_reads ..).bind (((ih h).1 fuel (by omega) _ (avoids_punct (by decide) _)).bind ?_)
        exact (expect_reads ..).bind hread
      exact ⟨hall hlist, fun _ => hlist⟩
  | nonNull t ih =>
      refine ⟨fun fuel hfuel rest hrest => ?_, fun hnull => absurd hnull.symm Bool.false_ne_true⟩
      rw [TypeRef.tokens, List.length_append, List.length_singleton] at hfuel
      rw [TypeRef.tokens, List.append_assoc]
      obtain ⟨fuel, rfl⟩ : ∃ m, fuel = m + 1 := ⟨fuel - 1, by omega⟩
      rw [typeRef_succ]
      exact (ih h.2).2 h.1 fuel (by omega) _ _ _ _ ((accept_reads ..).bind (.pure ..))

theorem typeRef_reads {t : TypeRef} (h : t.IsProper) (hfuel : t.tokens.length ≤ fuel)
    (hrest : Avoids [.bang] rest) : Reads (typeRef fuel) (t.tokens ++ rest) t rest :=
  (typeRef_reads_both h).1 fuel hfuel rest hrest

/-! ## Selections

A field may end at its name, its arguments, its directives or its selections. So what comes after it must be
none of the four punctuators with which it would go on. -/

section Selections

variable {P : Literal → Prop}

/-- An argument is read back. -/
theorem argument_reads {a : Argument} (hP : ∀ l, P l → l.IsWritable) (h : a.IsWritable P)
    (hfuel : a.tokens.length ≤ fuel) (rest : List Token) :
    Reads (argument fuel false) (a.tokens ++ rest) a.reread rest := by
  rw [Argument.tokens, List.length_cons, List.length_cons] at hfuel
  refine (name_reads ..).bind ((expect_reads ..).bind ?_)
  exact (literal_reads (hP _ h.value) (by omega) rest).bind (.pure ..)

theorem arguments_reads {as : List Argument} (hP : ∀ l, P l → l.IsWritable) (h : ∀ a ∈ as, a.IsWritable P)
    (hfuel : (argumentTokens as).length ≤ fuel) (hrest : Avoids [.parenL] rest) :
    Reads (arguments fuel false) (argumentTokens as ++ rest) (as.map Argument.reread) rest := by
  have hlength := length_le_enclosed .parenL .parenR (as.flatMap Argument.tokens)
  rw [argumentTokens] at hfuel
  refine optional1_reads [] List.not_mem_nil (by omega) (fun a _ more => avoids_name ..)
    (fun a ha more _ => ?_) hrest
  have ha' := length_le_flatMap Argument.tokens ha
  exact argument_reads hP (h a ha) (by omega) more

/-! ### Directives

They have no brackets around them, so they end where something begins that is not their sign. -/

/-- Directives begin with their sign, and without them comes what follows. -/
theorem directives_avoids {ds : List Directive} {ps : List Punctuator} (hat : .at ∉ ps) (h : Avoids ps rest) :
    Avoids ps (ds.flatMap Directive.tokens ++ rest) := by
  cases ds with
  | nil => exact h
  | cons d ds => exact avoids_punct hat _

theorem directives_none (constant : Bool) (fuel : Nat) (hrest : Avoids ps rest) (hat : .at ∈ ps) :
    Reads (directives constant fuel) rest [] rest := by
  cases fuel with
  | zero => exact .pure ..
  | succ fuel => exact (accept_refuses hrest hat).bind (.pure ..)

/-- Directives are read back, as many as there are. -/
theorem directives_reads {ds : List Directive} (hP : ∀ l, P l → l.IsWritable) (h : ∀ d ∈ ds, d.IsWritable P)
    (hfuel : (ds.flatMap Directive.tokens).length ≤ fuel) (hrest : Avoids [.at, .parenL] rest) :
    Reads (directives false fuel) (ds.flatMap Directive.tokens ++ rest) (ds.map Directive.reread) rest := by
  induction ds generalizing fuel with
  | nil => exact directives_none false fuel hrest List.mem_cons_self
  | cons d ds ih =>
      rw [List.flatMap_cons, List.length_append, Directive.tokens, List.length_cons, List.length_cons] at hfuel
      obtain ⟨fuel, rfl⟩ : ∃ m, fuel = m + 1 := ⟨fuel - 1, by omega⟩
      have hnext : Avoids [.parenL] (ds.flatMap Directive.tokens ++ rest) :=
        directives_avoids (by decide) (hrest.mono (by decide))
      rw [List.flatMap_cons, List.append_assoc, Directive.tokens]
      refine (accept_reads ..).bind ((name_reads ..).bind ?_)
      refine (arguments_reads hP (h d List.mem_cons_self).arguments (by omega) hnext).bind ?_
      exact (ih (fun e he => h e (List.mem_cons_of_mem d he)) (by omega)).bind (.pure ..)

/-- No selection begins like the end of a set, nor like a further part of the field before it. -/
theorem selection_avoids (s : Selection) (more : List Token) :
    Avoids [.braceR, .colon, .parenL, .at, .braceL] (s.tokens ++ more) := by
  cases s with
  | field label name args ds inner =>
      rw [Selection.tokens]
      cases label with
      | none => exact avoids_name ..
      | some l => exact avoids_name ..
  | spread n ds => exact avoids_punct (by decide) _
  | inline on ds inner => exact avoids_punct (by decide) _

theorem flatMap_tokens_ne_nil {ss : List Selection} (hne : ss ≠ []) : ss.flatMap Selection.tokens ≠ [] := by
  obtain ⟨s, ss, rfl⟩ := List.exists_cons_of_ne_nil hne
  exact List.append_ne_nil_of_left_ne_nil s.tokens_ne_nil _

/-! ### Selections and their sets -/

/-- What is read of a selection set, if every selection in it is read back. -/
theorem selections_reads {ss : List Selection} (hne : ss ≠ [])
    (h : ∀ s ∈ ss, ∀ fuel rest, s.tokens.length ≤ fuel → Avoids [.colon, .parenL, .at, .braceL] rest →
      Reads (selection fuel) (s.tokens ++ rest) s.reread rest)
    (hfuel : (selectionTokens ss).length ≤ fuel) (rest : List Token) :
    Reads (selections fuel) (selectionTokens ss ++ rest) (ss.map Selection.reread) rest := by
  have hlength : (selectionTokens ss).length = (ss.flatMap Selection.tokens).length + 2 := by
    rw [selectionTokens, Selection.allTokens_eq, length_enclosed (flatMap_tokens_ne_nil hne)]
  obtain ⟨fuel, rfl⟩ : ∃ m, fuel = m + 1 := ⟨fuel - 1, by omega⟩
  rw [selectionTokens, Selection.allTokens_eq]
  refine some1_reads _ _ hne (by decide) (by omega) (fun s _ => selection_avoids s) fun s hs more hmore => ?_
  have hs' := length_le_flatMap Selection.tokens hs
  exact h s hs fuel more (by omega) hmore

/-- Reads a field after its name. -/
def fieldRest (fuel : Nat) (label : Option String) (name : String) : Parser Selection := do
  let args ← arguments fuel false
  let ds ← directives false fuel
  let inner ← if ← isNext .braceL then selections fuel else pure []
  return .field label name args ds inner

/-- What comes after the name of a field is read back, if the selections in it are. -/
theorem fieldRest_reads {label : Option String} {name : String} {args : List Argument} {ds : List Directive}
    {inner : List Selection} (hP : ∀ l, P l → l.IsWritable) (hargs : ∀ a ∈ args, a.IsWritable P)
    (hds : ∀ d ∈ ds, d.IsWritable P)
    (hinner : ∀ s ∈ inner, ∀ fuel rest, s.tokens.length ≤ fuel → Avoids [.colon, .parenL, .at, .braceL] rest →
      Reads (selection fuel) (s.tokens ++ rest) s.reread rest)
    (hfuel : (argumentTokens args ++ (ds.flatMap Directive.tokens ++ selectionTokens inner)).length ≤ fuel)
    (hrest : Avoids [.colon, .parenL, .at, .braceL] rest) :
    Reads (fieldRest fuel label name)
      (argumentTokens args ++ (ds.flatMap Directive.tokens ++ (selectionTokens inner ++ rest)))
      (Selection.field label name args ds inner).reread rest := by
  rw [List.length_append, List.length_append] at hfuel
  have hselections : Avoids [.colon, .parenL, .at] (selectionTokens inner ++ rest) :=
    avoids_enclosed (by decide) (hrest.mono (by decide)) _
  have hdirectives : Avoids [.parenL] (ds.flatMap Directive.tokens ++ (selectionTokens inner ++ rest)) :=
    directives_avoids (by decide) (hselections.mono (by decide))
  rw [Selection.reread, Selection.rereadAll_eq]
  refine (arguments_reads hP hargs (by omega) hdirectives).bind ?_
  refine (directives_reads hP hds (by omega) (hselections.mono (by decide))).bind ?_
  cases inner with
  | nil => exact (isNext_refuses hrest (by decide)).bind (.pure ..)
  | cons s ss =>
      have hnext : Reads (isNext .braceL) (selectionTokens (s :: ss) ++ rest) true
          (selectionTokens (s :: ss) ++ rest) := by
        rw [selectionTokens, Selection.allTokens_eq, enclosed_of_ne_nil (flatMap_tokens_ne_nil (List.cons_ne_nil s ss))]
        exact isNext_reads ..
      exact hnext.bind ((selections_reads (List.cons_ne_nil s ss) hinner (by omega) rest).bind (.pure ..))

/-- Reads a fragment in place after its type. -/
def inlineRest (fuel : Nat) (on : Option String) : Parser Selection := do
  let ds ← directives false fuel
  return .inline on ds (← selections fuel)

theorem fragmentName_reads (hon : n ≠ "on") (ts : List Token) : Reads fragmentName (.name n :: ts) n ts := by
  refine (peek_reads (.name n) ts).bind ?_
  rw [if_neg]
  · exact name_reads ..
  · simpa [Token.content?] using hon

/-- **A selection is read back.** -/
theorem selection_reads {s : Selection} (hP : ∀ l, P l → l.IsWritable) (h : s.IsWritable P)
    (hfuel : s.tokens.length ≤ fuel) (hrest : Avoids [.colon, .parenL, .at, .braceL] rest) :
    Reads (selection fuel) (s.tokens ++ rest) s.reread rest := by
  induction h generalizing fuel rest with
  | @field label name args ds inner hlabel hname hargs hds hinner ih =>
      rw [Selection.tokens_field, List.length_append, List.length_cons] at hfuel
      rw [Selection.tokens_field, List.append_assoc, List.cons_append, List.append_assoc, List.append_assoc]
      obtain ⟨fuel, rfl⟩ : ∃ m, fuel = m + 1 := ⟨fuel - 1, by omega⟩
      have hread (label' : Option String) : Reads (fieldRest fuel label' name)
          (argumentTokens args ++ (ds.flatMap Directive.tokens ++ (selectionTokens inner ++ rest)))
          (Selection.field label' name args ds inner).reread rest :=
        fieldRest_reads hP hargs hds (fun s hs _ _ => ih s hs) (by omega) hrest
      cases label with
      | none =>
          have hnext : Avoids [.colon]
              (argumentTokens args ++ (ds.flatMap Directive.tokens ++ (selectionTokens inner ++ rest))) :=
            avoids_enclosed (by decide) (directives_avoids (by decide)
              (avoids_enclosed (by decide) (hrest.mono (by decide)) _)) _
          refine (accept_refuses (avoids_name [.spread] ..) List.mem_cons_self).bind ((name_reads ..).bind ?_)
          exact (accept_refuses hnext List.mem_cons_self).bind ((Reads.pure ..).bind (hread none))
      | some l =>
          refine (accept_refuses (avoids_name [.spread] ..) List.mem_cons_self).bind ((name_reads ..).bind ?_)
          exact (accept_reads ..).bind (((name_reads ..).bind (.pure ..)).bind (hread (some l)))
  | @spread name ds hname hon hds =>
      rw [Selection.tokens, List.length_cons, List.length_cons] at hfuel
      rw [Selection.tokens, Selection.reread]
      obtain ⟨fuel, rfl⟩ : ∃ m, fuel = m + 1 := ⟨fuel - 1, by omega⟩
      refine (accept_reads ..).bind ((acceptKeyword_refuses (.name name) ?_ _).bind ?_)
      · exact fun h => hon (Token.name.inj h)
      · refine (peek_reads (.name name) _).bind ((fragmentName_reads hon _).bind ?_)
        exact (directives_reads hP hds (by omega) (hrest.mono (by decide))).bind (.pure ..)
  | @inline on ds inner hon hds hne hinner ih =>
      rw [Selection.tokens_inline, List.length_cons, List.length_append, List.length_append] at hfuel
      rw [Selection.tokens_inline, List.cons_append, List.append_assoc, List.append_assoc]
      obtain ⟨fuel, rfl⟩ : ∃ m, fuel = m + 1 := ⟨fuel - 1, by omega⟩
      have hselections {ps : List Punctuator} (hps : .braceL ∉ ps) : Avoids ps (selectionTokens inner ++ rest) := by
        rw [selectionTokens, Selection.allTokens_eq, enclosed_of_ne_nil (flatMap_tokens_ne_nil hne)]
        exact avoids_punct hps _
      have hread (on' : Option String) : Reads (inlineRest fuel on')
          (ds.flatMap Directive.tokens ++ (selectionTokens inner ++ rest))
          (Selection.inline on' ds inner).reread rest := by
        rw [Selection.reread, Selection.rereadAll_eq]
        refine (directives_reads hP hds (by omega) (hselections (by decide))).bind ?_
        exact (selections_reads hne (fun s hs _ _ => ih s hs) (by omega) rest).bind (.pure ..)
      cases on with
      | none =>
          -- neither a directive nor a selection set begins with a name
          obtain ⟨q, more, hq⟩ : ∃ q more, ds.flatMap Directive.tokens ++ (selectionTokens inner ++ rest)
              = .punct q :: more := by
            cases ds with
            | nil =>
                rw [selectionTokens, Selection.allTokens_eq, enclosed_of_ne_nil (flatMap_tokens_ne_nil hne)]
                exact ⟨_, _, rfl⟩
            | cons d ds => exact ⟨_, _, rfl⟩
          have hnone := hread none
          rw [hq] at hnone
          show Reads _ (.punct .spread :: (ds.flatMap Directive.tokens ++ (selectionTokens inner ++ rest))) _ _
          rw [hq]
          refine (accept_reads ..).bind ((acceptKeyword_refuses (.punct q) (fun h => Token.noConfusion h) _).bind ?_)
          refine (peek_reads (.punct q) _).bind ?_
          exact (Reads.pure none _).bind hnone
      | some t =>
          refine (accept_reads ..).bind ((acceptKeyword_reads "on" _).bind ?_)
          refine (peek_reads (.name t) _).bind ?_
          exact Reads.bind (f := inlineRest fuel) ((name_reads t _).bind (.pure (some t) _)) (hread (some t))

end Selections

/-! ## Definitions

A document is a list of definitions up to the end of the text. Each begins with a word, which decides what
it is. -/

section Definitions

variable {P : Literal → Prop}

/-! ### What stands before a definition

A definition may have a description in front of it. What is printed here has none, and begins with a word or
a brace. -/

/-- There is no description before a name, nor before a punctuator. -/
theorem description_name (n : String) (ts : List Token) : Reads description (.name n :: ts) none (.name n :: ts) :=
  (peek_reads (.name n) ts).bind (.pure ..)

theorem description_punct (q : Punctuator) (ts : List Token) :
    Reads description (.punct q :: ts) none (.punct q :: ts) :=
  (peek_reads (.punct q) ts).bind (.pure ..)

/-- A variable with its type is read back. -/
theorem variableDefinition_reads {v : VariableDefinition} (h : v.IsWritable) (hfuel : v.tokens.length ≤ fuel)
    (hrest : Avoids [.bang, .equals, .at] rest) : Reads (variableDefinition fuel) (v.tokens ++ rest) v rest := by
  obtain ⟨description, name, type, default, directives⟩ := v
  obtain ⟨hdescription, hname, htype, hdefault, hdirectives⟩ := h
  dsimp only at hdescription hname htype hdefault hdirectives
  subst hdescription hdefault hdirectives
  rw [VariableDefinition.tokens, List.length_cons, List.length_cons, List.length_cons] at hfuel
  dsimp only at hfuel
  refine (description_punct ..).bind ?_
  refine (expect_reads ..).bind ((name_reads ..).bind ((expect_reads ..).bind ?_))
  refine (typeRef_reads htype (by omega) (hrest.mono (by decide))).bind ?_
  refine (accept_refuses hrest (by decide)).bind ((Reads.pure ..).bind ?_)
  exact (directives_none true fuel hrest (by decide)).bind (.pure ..)

theorem operationKind_reads (k : OperationKind) (n : String) (ts : List Token) :
    Reads operationKind (.name k.keyword :: .name n :: ts) k (.name n :: ts) := by
  refine (peek_reads (.name _) _).bind (Reads.bind ((name_reads ..).bind ((peek_reads (.name n) ts).bind (.pure ..))) ?_)
  rw [OperationKind.ofKeyword?_keyword]
  exact .pure ..

/-- **An operation is read back.** -/
theorem operation_reads {o : Operation} (hP : ∀ l, P l → l.IsWritable) (h : o.IsWritable P)
    (hfuel : o.tokens.length ≤ fuel) (rest : List Token) :
    Reads (operation fuel) (o.tokens ++ rest) o.reread rest := by
  obtain ⟨description, kind, name, vars, ds, ss⟩ := o
  obtain ⟨hdescription, ⟨n, hn, hname⟩, hvars, hds, hne, hss⟩ := h
  dsimp only at hdescription hn hvars hds hne hss
  subst hdescription hn
  have hlength := length_le_enclosed .parenL .parenR
    (vars.flatMap VariableDefinition.tokens)
  rw [Operation.tokens] at hfuel ⊢
  simp only [Option.toList_some, List.map_cons, List.map_nil, List.length_cons, List.length_append,
    List.length_nil] at hfuel
  simp only [Option.toList_some, List.map_cons, List.map_nil, List.cons_append, List.nil_append, List.append_assoc]
  have hselections {ps : List Punctuator} (hps : .braceL ∉ ps) : Avoids ps (selectionTokens ss ++ rest) := by
    rw [selectionTokens, Selection.allTokens_eq, enclosed_of_ne_nil (flatMap_tokens_ne_nil hne)]
    exact avoids_punct hps _
  have hdirectives : Avoids [.parenL] (ds.flatMap Directive.tokens ++ (selectionTokens ss ++ rest)) :=
    directives_avoids (by decide) (hselections (by decide))
  refine (isNext_refuses (avoids_name [.braceL] ..) List.mem_cons_self).bind ?_
  refine (description_name ..).bind ?_
  refine (operationKind_reads kind n _).bind ((peek_reads (.name n) _).bind ?_)
  refine (advance_reads ..).bind ((Reads.pure ..).bind ?_)
  have hvariables : Reads (optional1 fuel .parenL (variableDefinition fuel) .parenR)
      (enclosed .parenL .parenR (vars.flatMap VariableDefinition.tokens)
        ++ (ds.flatMap Directive.tokens ++ (selectionTokens ss ++ rest)))
      (vars.map id) (ds.flatMap Directive.tokens ++ (selectionTokens ss ++ rest)) := by
    refine optional1_reads [.bang, .equals, .at] (by decide) (by omega)
      (fun v _ more => avoids_punct (by decide) _) (fun v hv more hmore => ?_) hdirectives
    have hv' := length_le_flatMap VariableDefinition.tokens hv
    exact variableDefinition_reads (hvars v hv) (by omega) hmore
  rw [List.map_id] at hvariables
  have hbody : Reads (selections fuel) (selectionTokens ss ++ rest) (ss.map Selection.reread) rest :=
    selections_reads hne (fun s hs _ _ => selection_reads hP (hss s hs)) (by omega) rest
  refine hvariables.bind ((directives_reads hP hds (by omega) (hselections (by decide))).bind ?_)
  exact hbody.bind (.pure ..)

/-- **A fragment is read back**, unless it has the name that none can have. -/
theorem fragment_reads {f : Fragment} (hP : ∀ l, P l → l.IsWritable) (h : f.IsWritable P) (hon : f.name ≠ "on")
    (hfuel : f.tokens.length ≤ fuel) (rest : List Token) :
    Reads (fragment fuel) (f.tokens ++ rest) f.reread rest := by
  obtain ⟨description, name, on, ds, ss⟩ := f
  obtain ⟨hdescription, hname, hcondition, hds, hne, hss⟩ := h
  dsimp only at hdescription hname hcondition hds hne hss hon
  subst hdescription
  rw [Fragment.tokens] at hfuel ⊢
  simp only [List.length_cons, List.length_append] at hfuel
  simp only [List.cons_append, List.append_assoc]
  have hselections : Avoids [.at, .parenL] (selectionTokens ss ++ rest) := by
    rw [selectionTokens, Selection.allTokens_eq, enclosed_of_ne_nil (flatMap_tokens_ne_nil hne)]
    exact avoids_punct (by decide) _
  have hbody : Reads (selections fuel) (selectionTokens ss ++ rest) (ss.map Selection.reread) rest :=
    selections_reads hne (fun s hs _ _ => selection_reads hP (hss s hs)) (by omega) rest
  refine (description_name ..).bind ?_
  refine (expectKeyword_reads ..).bind ((fragmentName_reads hon _).bind ?_)
  refine (expectKeyword_reads ..).bind ((name_reads ..).bind ?_)
  exact (directives_reads hP hds (by omega) hselections).bind (hbody.bind (.pure ..))

/-- Whether a definition is no fragment with the name that none can have. -/
def IsReadable (d : Definition) : Prop := ∀ f, d = .fragment f → f.name ≠ "on"

/-- A definition begins with a word. -/
theorem definition_name {d : Definition} (h : d.IsWritable P) : ∃ n ts, d.tokens = .name n :: ts := by
  cases d with
  | operation o => exact ⟨_, _, rfl⟩
  | fragment f => exact ⟨_, _, rfl⟩
  | typeSystem => cases h

/-- A definition is read back. -/
theorem definition_reads {d : Definition} (hP : ∀ l, P l → l.IsWritable) (h : d.IsWritable P)
    (hd : IsReadable d) (hfuel : d.tokens.length ≤ fuel) (rest : List Token) :
    Reads (definition fuel) (d.tokens ++ rest) d.reread rest := by
  have hdescribed (n : String) (ts : List Token) : Reads atDescription (.name n :: ts) false (.name n :: ts) :=
    (peek_reads (.name n) ts).bind (.pure ..)
  cases d with
  | typeSystem => cases h
  | operation o =>
      have hread := operation_reads hP h hfuel rest
      show Reads _ (.name o.kind.keyword :: _) _ _
      refine (isNext_refuses (avoids_name [.braceL] ..) List.mem_cons_self).bind ((hdescribed ..).bind ?_)
      refine (peek_reads (.name o.kind.keyword) _).bind ?_
      have hkeyword : ¬(o.kind.keyword = "directive" ∨ typeKeywords.contains o.kind.keyword = true) := by
        cases o.kind <;> decide
      have hkind : (OperationKind.ofKeyword? o.kind.keyword).isSome = true := by
        rw [OperationKind.ofKeyword?_keyword]
        rfl
      dsimp only
      rw [if_neg hkeyword, if_pos hkind]
      exact hread.bind (.pure ..)
  | fragment f =>
      have hread := fragment_reads hP h (hd f rfl) hfuel rest
      show Reads _ (.name "fragment" :: _) _ _
      refine (isNext_refuses (avoids_name [.braceL] ..) List.mem_cons_self).bind ((hdescribed ..).bind ?_)
      refine (peek_reads (.name "fragment") _).bind ?_
      exact hread.bind (.pure ..)

/-- Definitions are read back until the tokens are at their end. -/
theorem definitions_reads {d : Document} {rounds : Nat} (hP : ∀ l, P l → l.IsWritable) (hne : d ≠ [])
    (h : ∀ x ∈ d, x.IsWritable P) (hd : ∀ x ∈ d, IsReadable x) (hfuel : d.tokens.length ≤ fuel)
    (hrounds : d.tokens.length ≤ rounds) :
    Reads (definitions fuel rounds) (d.tokens ++ [.eof]) (d.map Definition.reread) [.eof] := by
  induction d generalizing rounds with
  | nil => exact absurd rfl hne
  | cons x xs ih =>
      have hpos : 0 < x.tokens.length := by
        obtain ⟨n, ts, hn⟩ := definition_name (h x List.mem_cons_self)
        rw [hn]
        exact Nat.succ_pos _
      rw [Document.tokens, List.flatMap_cons, List.length_append] at hfuel hrounds
      rw [Document.tokens, List.flatMap_cons, List.append_assoc]
      obtain ⟨rounds, rfl⟩ : ∃ m, rounds = m + 1 := ⟨rounds - 1, by omega⟩
      have hx (more : List Token) : Reads (definition fuel) (x.tokens ++ more) x.reread more :=
        definition_reads hP (h x List.mem_cons_self) (hd x List.mem_cons_self) (by omega) more
      have hrounds' : (Document.tokens xs).length ≤ rounds := by
        rw [Document.tokens]
        omega
      cases xs with
      | nil => exact (hx [.eof]).bind ((peek_reads .eof []).bind (.pure ..))
      | cons y ys =>
          obtain ⟨n, ts, hn⟩ := definition_name (h y (List.mem_cons_of_mem x List.mem_cons_self))
          have hys := ih (List.cons_ne_nil y ys) (fun z hz => h z (List.mem_cons_of_mem x hz))
            (fun z hz => hd z (List.mem_cons_of_mem x hz)) (Nat.le_of_add_left_le hfuel) hrounds'
          have hpeek : Reads peek (Document.tokens (y :: ys) ++ [.eof]) (.name n)
              (Document.tokens (y :: ys) ++ [.eof]) := by
            rw [Document.tokens, List.flatMap_cons, hn]
            exact peek_reads (.name n) _
          exact (hx _).bind (hpeek.bind (hys.bind (.pure ..)))

end Definitions

/-! ## The name that no fragment has

Here the point is that nothing is read. `Parser.Fails` leaves open with which complaint. -/

section Failing

/-- Whether a parser gives no result. -/
def Fails (p : Parser α) (ts : List Token) : Prop := ∃ e, p ts = .error e

/-- Whoever fails first fails altogether. -/
theorem Fails.bind (hp : Fails p ts) : Fails (p >>= f) ts := by
  obtain ⟨e, he⟩ := hp
  refine ⟨e, ?_⟩
  show (p ts >>= fun x => f x.1 x.2) = _
  rw [he]
  rfl

/-- A parser fails if it fails after its first part. -/
theorem Reads.fails (hp : Reads p ts a us) (hf : Fails (f a) us) : Fails (p >>= f) ts := by
  obtain ⟨e, he⟩ := hf
  refine ⟨e, ?_⟩
  show (p ts >>= fun x => f x.1 x.2) = _
  rw [show p ts = .ok (a, us) from hp]
  exact he

theorem fragmentName_fails (ts : List Token) : Fails fragmentName (.name "on" :: ts) :=
  (peek_reads (.name "on") ts).fails ((peek_reads (.name "on") ts).fails ⟨_, rfl⟩)

theorem fragment_fails (ts : List Token) : Fails (fragment fuel) (.name "fragment" :: .name "on" :: ts) := by
  refine (description_name ..).fails ?_
  refine (expectKeyword_reads ..).fails ?_
  exact (fragmentName_fails ts).bind

theorem definition_fails (ts : List Token) : Fails (definition fuel) (.name "fragment" :: .name "on" :: ts) := by
  refine (isNext_refuses (avoids_name [.braceL] ..) List.mem_cons_self).fails ?_
  refine ((peek_reads (.name "fragment") _).bind (.pure false _)).fails ?_
  refine (peek_reads (.name "fragment") _).fails ?_
  exact (fragment_fails ts).bind

/-- No fragment that is named like the word before its type is read. -/
theorem definitions_fails {rounds : Nat} {g : Fragment} (hname : g.name = "on") (ts : List Token) :
    Fails (definitions fuel (rounds + 1)) (g.tokens ++ ts) := by
  rw [Fragment.tokens, hname]
  exact (definition_fails _).bind

end Failing

theorem runOn_of_fails {p : Nat → Parser α} {text : String} (h : Token.Spells ts text.toList)
    (hp : ∀ fuel, Fails (p (fuel + 1)) (ts ++ [.eof])) : ∃ e, runOn p text = .error e := by
  obtain ⟨e, he⟩ := hp (ts ++ [Token.eof]).length
  refine ⟨e, ?_⟩
  unfold runOn
  rw [Token.scan_of_spells h]
  show ((p _ (ts ++ [.eof])).map Prod.fst : Except SyntaxError α) = _
  rw [he]
  rfl

/-- A text is read as the parser reads the tokens that it spells. -/
theorem runOn_of_reads {p : Nat → Parser α} {text : String} (rest : List Token)
    (h : Token.Spells ts text.toList)
    (hp : ∀ fuel, ts.length < fuel → Reads (p fuel) (ts ++ [.eof]) a rest) : runOn p text = .ok a := by
  have hread := hp ((ts ++ [Token.eof]).length + 1) (by rw [List.length_append]; omega)
  unfold runOn
  rw [Token.scan_of_spells h]
  show ((p _ (ts ++ [.eof])).map Prod.fst : Except SyntaxError α) = _
  rw [show p _ (ts ++ [.eof]) = .ok (a, rest) from hread]
  rfl

end Parser

section Documents

variable {P : Literal → Prop} {d : Document}

/-- **A document is read back from every text that spells its tokens.** -/
theorem Document.parse_of_spells (hP : ∀ l, P l → l.IsWritable) (hne : d ≠ []) (h : ∀ x ∈ d, x.IsWritable P)
    (hd : ∀ x ∈ d, Parser.IsReadable x) {text : String} (htext : Token.Spells d.tokens text.toList) :
    Document.parse text = .ok (d.map Definition.reread) := by
  refine Parser.runOn_of_reads [.eof] htext fun fuel hfuel => ?_
  exact Parser.definitions_reads hP hne h hd (Nat.le_of_lt hfuel) (Nat.le_of_lt hfuel)

/-- No text of a fragment is read if its name is the one that none can have. -/
theorem Document.parse_of_name_on {f : Fragment} (hname : f.name = "on") {text : String}
    (htext : Token.Spells f.tokens text.toList) : ∃ e, Document.parse text = .error e :=
  Parser.runOn_of_fails htext fun _ => Parser.definitions_fails hname [.eof]

end Documents

end Harvest.GraphQL
