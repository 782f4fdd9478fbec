import Harvest.Proofs.GraphQL.Reading

/-!
# Printing again

What is read back from a document is printed as the document was, unless an integer in it ends a line: there
the line end is lost. So printing, reading and printing again gives the same text, for every document whose
values stand on one line each.

The printer writes a part from the texts of its parts, and what is read back has the same parts but for the
values. So the text of a definition is the same again if those of its values are, and this is passed up from
values through arguments and directives to selections. It is the condition `IsLine` that keeps a line end
out of the integers.
-/

namespace Harvest.GraphQL

open Layout

/-- Every character of a text is one of the texts that it was joined with. -/
theorem Layout.mem_join {sep text : String} {texts : List String} {c : Char} (htext : text ∈ texts)
    (hc : c ∈ text.toList) : c ∈ (join sep texts).toList := by
  induction texts with
  | nil => cases htext
  | cons t ts ih =>
      have hne {u : String} (hu : c ∈ u.toList) : u ≠ "" := by
        rintro rfl
        cases hu
      rw [Token.join_cons]
      rcases List.mem_cons.mp htext with rfl | htext
      · rw [if_neg (hne hc)]
        split
        next => exact hc
        next =>
          rw [String.toList_append, String.toList_append]
          exact List.mem_append_left _ (List.mem_append_left _ hc)
      · split
        next => exact ih htext
        next =>
          split
          next hnone =>
            have hmem : text ∈ ts.filter (· ≠ "") := List.mem_filter.mpr ⟨htext, by simpa using hne hc⟩
            rw [hnone] at hmem
            cases hmem
          next =>
            rw [String.toList_append]
            exact List.mem_append_right _ (ih htext)

/-! ## Values

Names of constants come back as constants and are printed by the same name; a double without a fraction
comes back as an integer with the same text. -/

/-- Whether a literal can be written on one line. -/
structure Literal.IsLine (l : Literal) : Prop where
  writable : l.IsWritable
  inLine : '\n' ∉ l.print.toList

theorem Parser.print_namedLiteral (n : String) : (namedLiteral n).print = n := by
  unfold namedLiteral
  split
  next h =>
    rw [h]
    rfl
  split
  next h =>
    rw [h]
    rfl
  split
  next h =>
    rw [h]
    rfl
  next => rw [Literal.print]

theorem Literal.print_reread {l : Literal} (h : l.IsWritable) (hline : '\n' ∉ l.print.toList) :
    l.reread.print = l.print := by
  induction h with
  | var h => rfl
  | @int t h =>
      rw [Literal.print] at hline
      rw [Literal.reread, Literal.print, Literal.print]
      rcases Token.withoutLineEnd_cases t with heq | heq
      · exact heq
      · rw [heq] at hline
        exact absurd (List.mem_append_right _ List.mem_cons_self) hline
  | @float t h =>
      rw [Literal.reread]
      split <;> rfl
  | string t => rfl
  | boolean b => rfl
  | null => rfl
  | @enum n h => rw [Literal.reread, Parser.print_namedLiteral, Literal.print]
  | @list xs h ih =>
      rw [Literal.print, String.toList_append, String.toList_append, printItems_eq] at hline
      rw [Literal.reread, Literal.print, Literal.print, printItems_eq, printItems_eq, rereadItems_eq, List.map_map]
      have hitems : xs.map (print ∘ reread) = xs.map print := List.map_congr_left fun x hx => by
        refine ih x hx fun hmem => hline ?_
        exact List.mem_append_left _ (List.mem_append_right _ (mem_join (List.mem_map_of_mem hx) hmem))
      rw [hitems]
  | @object fs hname h ih =>
      rw [Literal.print, String.toList_append, String.toList_append, printFields_eq] at hline
      rw [Literal.reread, Literal.print, Literal.print, printFields_eq, printFields_eq, rereadFields_eq,
        List.map_map]
      refine congrArg (fun texts => "\x7b" ++ join ", " texts ++ "\x7d") (List.map_congr_left fun f hf => ?_)
      refine congrArg (f.1 ++ ": " ++ ·) (ih f hf fun hmem => hline ?_)
      refine List.mem_append_left _ (List.mem_append_right _ (mem_join (List.mem_map_of_mem hf) ?_))
      rw [String.toList_append]
      exact List.mem_append_right _ hmem

/-- A line end after an integer is lost. -/
example : (Literal.int "5\n").print = "5\n" ∧ (Literal.int "5\n").reread.print = "5" := by decide

theorem Literal.IsLine.print_reread {l : Literal} (h : l.IsLine) : l.reread.print = l.print :=
  Literal.print_reread h.writable h.inLine

/-! ## Documents

From arguments to documents, along the printer. -/

section Documents

variable {P : Literal → Prop}

theorem Argument.print_reread {a : Argument} (hP : ∀ l, P l → l.reread.print = l.print) (h : a.IsWritable P) :
    a.reread.print = a.print := congrArg (a.name ++ ": " ++ ·) (hP _ h.value)

theorem print_rereadArguments {as : List Argument} (hP : ∀ l, P l → l.reread.print = l.print)
    (h : ∀ a ∈ as, a.IsWritable P) : (as.map Argument.reread).map Argument.print = as.map Argument.print := by
  rw [List.map_map]
  exact List.map_congr_left fun a ha => Argument.print_reread hP (h a ha)

theorem printDirectives_reread {ds : List Directive} (hP : ∀ l, P l → l.reread.print = l.print)
    (h : ∀ d ∈ ds, d.IsWritable P) : printDirectives (ds.map Directive.reread) = printDirectives ds := by
  rw [printDirectives, printDirectives, List.map_map]
  refine congrArg (join " ") (List.map_congr_left fun d hd => ?_)
  show d.reread.print = d.print
  rw [Directive.print, Directive.print, Directive.reread, print_rereadArguments hP (h d hd).arguments]

theorem Selection.print_reread {s : Selection} (hP : ∀ l, P l → l.reread.print = l.print)
    (h : s.IsWritable P) : s.reread.print = s.print := by
  have hinner {inner : List Selection} (ih : ∀ s ∈ inner, s.reread.print = s.print) :
      printAll (rereadAll inner) = printAll inner := by
    rw [rereadAll_eq, printAll_eq, printAll_eq, List.map_map]
    exact List.map_congr_left ih
  induction h with
  | @field label name args ds inner hlabel hname hargs hds h ih =>
      have hhead : printFieldHead label name (args.map Argument.reread) = printFieldHead label name args := by
        unfold printFieldHead
        rw [print_rereadArguments hP hargs]
      rw [Selection.reread, Selection.print, Selection.print, hhead, printDirectives_reread hP hds, hinner ih]
  | @spread name ds hname hon hds =>
      rw [Selection.reread, Selection.print, Selection.print, printDirectives_reread hP hds]
  | @inline on ds inner hon hds hne h ih =>
      rw [Selection.reread, Selection.print, Selection.print, printDirectives_reread hP hds, hinner ih]

theorem printSelections_reread {ss : List Selection} (hP : ∀ l, P l → l.reread.print = l.print)
    (h : ∀ s ∈ ss, s.IsWritable P) : printSelections (ss.map Selection.reread) = printSelections ss := by
  rw [printSelections, printSelections, Selection.printAll_eq, Selection.printAll_eq, List.map_map]
  exact congrArg block (List.map_congr_left fun s hs => Selection.print_reread hP (h s hs))

theorem Definition.print_reread {d : Definition} (hP : ∀ l, P l → l.reread.print = l.print)
    (h : d.IsWritable P) : d.reread.print = d.print := by
  cases d with
  | operation o =>
      show o.reread.print = o.print
      unfold Operation.print Operation.reread
      rw [printDirectives_reread hP h.directives, printSelections_reread hP h.selections]
  | fragment f =>
      show f.reread.print = f.print
      unfold Fragment.print Fragment.reread
      rw [printDirectives_reread hP h.directives, printSelections_reread hP h.selections]
  | typeSystem => cases h

/-- **What is read back from a document is printed as the document is.** -/
theorem Document.print_reread {d : Document} (hP : ∀ l, P l → l.reread.print = l.print)
    (h : ∀ x ∈ d, x.IsWritable P) : Document.print (d.map Definition.reread) = d.print := by
  rw [Document.print, Document.print, List.map_map]
  exact congrArg (join "\n\n") (List.map_congr_left fun x hx => Definition.print_reread hP (h x hx))

end Documents

end Harvest.GraphQL
