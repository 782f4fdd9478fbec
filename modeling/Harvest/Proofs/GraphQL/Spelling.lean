import Harvest.GraphQL.Document.Printer
import Harvest.GraphQL.Token.Lexer
import Harvest.Proofs.Data.Json
import Harvest.Proofs.GraphQL.Names

/-!
# Spelling

A text spells a list of tokens if it consists of them in their order, with blanks between them wherever one
would run into the next. `scan_of_spells` says that the tokens are read from it. What a text spells does not
change when its lines are moved to the right, so the layout of a document does not matter: only the parts
that it is put together from.

A token is a name, a number, a string or a punctuator, and only the first three run on. So a text after a
token has to begin with something that does not go on with it, and `Token.Breaks` says what that is. It is
asked for where two texts are put side by side, and holds of every blank, every bracket and of the end.

`Token.Spells` has one constructor for a blank, one for a punctuator and one for a word, so that inductions
on it read the text from the left, token by token.
-/

namespace Harvest.GraphQL

namespace Token

/-! ## Words

What ends a token, and what is a token as long as such a text follows. -/

/-- Whether a text ends the token before it: no name, number or string goes on with it. -/
structure Breaks (cs : List Char) : Prop where
  name : ∀ c ∈ cs.head?, isNameContinue c = false
  point : ∀ c ∈ cs.head?, c ≠ '.'
  quote : ∀ c ∈ cs.head?, c ≠ '"'

/-- Whether characters are read as a token wherever a text follows that ends it. -/
structure Word (t : Token) (w : List Char) : Prop where
  starts : ∃ c cs, w = c :: cs ∧ isSeparator c = false ∧ c ≠ '#'
  inLine : '\n' ∉ w
  ne_eof : t ≠ .eof
  scanOne_eq : ∀ rest, Breaks rest → scanOne (w ++ rest) = .ok (t, rest)

/-- The texts that spell a list of tokens. -/
inductive Spells : List Token → List Char → Prop
  | nil : Spells [] []
  | blank {c : Char} {ts : List Token} {cs : List Char} (hc : isSeparator c = true) (h : Spells ts cs) :
      Spells ts (c :: cs)
  | punct {ts : List Token} {cs : List Char} (p : Punctuator) (h : Spells ts cs) :
      Spells (.punct p :: ts) (p.text.toList ++ cs)
  | word {t : Token} {w : List Char} {ts : List Token} {cs : List Char} (hw : Word t w) (hb : Breaks cs)
      (h : Spells ts cs) : Spells (t :: ts) (w ++ cs)

section Breaks

variable {cs ds : List Char} {c : Char}

theorem Breaks.nil : Breaks [] := ⟨nofun, nofun, nofun⟩

theorem Breaks.cons (hname : isNameContinue c = false) (hpoint : c ≠ '.') (hquote : c ≠ '"')
    (cs : List Char) : Breaks (c :: cs) :=
  ⟨fun _ h => Option.some.inj h ▸ hname, fun _ h => Option.some.inj h ▸ hpoint,
    fun _ h => Option.some.inj h ▸ hquote⟩

theorem Breaks.append (hc : Breaks cs) (hd : Breaks ds) : Breaks (cs ++ ds) := by
  cases cs with
  | nil => exact hd
  | cons c cs => exact .cons (hc.name c rfl) (hc.point c rfl) (hc.quote c rfl) _

/-- A blank, a comma or a line end ends a token. -/
theorem breaks_of_separator (h : isSeparator c = true) (cs : List Char) : Breaks (c :: cs) := by
  unfold isSeparator at h
  simp only [Bool.or_eq_true, decide_eq_true_eq] at h
  rcases h with ((((rfl | rfl) | rfl) | rfl) | rfl) | h
  · exact .cons (by decide) (by decide) (by decide) cs
  · exact .cons (by decide) (by decide) (by decide) cs
  · exact .cons (by decide) (by decide) (by decide) cs
  · exact .cons (by decide) (by decide) (by decide) cs
  · exact .cons (by decide) (by decide) (by decide) cs
  · have hc : c = Char.ofNat 0xFEFF := by rw [← h, Char.ofNat_toNat]
    subst hc
    exact .cons (by decide) (by decide) (by decide) cs

end Breaks

/-! ## Reading what is spelt

One step of the scanner for each constructor, and then the whole text by induction. -/

section Scan

variable {fuel : Nat} {acc ts : List Token} {c : Char} {cs w rest : List Char} {t : Token}

/-- Blanks are stepped over. -/
theorem scanAll_blank (hc : isSeparator c = true) (fuel : Nat) (acc : List Token) (cs : List Char) :
    scanAll fuel acc (c :: cs) = scanAll fuel acc cs := by
  cases fuel with
  | zero => rfl
  | succ fuel => rw [scanAll, scanAll, List.length_cons, skipIgnored, if_pos hc]

theorem skipIgnored_of_starts (hc : isSeparator c = false) (hcomment : c ≠ '#') (n : Nat)
    (cs : List Char) : skipIgnored n (c :: cs) = c :: cs := by
  cases n with
  | zero => rfl
  | succ n => rw [skipIgnored, if_neg (by rw [hc]; exact Bool.false_ne_true), if_neg hcomment]

/-- A token that is read is put in front of those after it. -/
theorem scanAll_of_scanOne (hc : isSeparator c = false) (hcomment : c ≠ '#') (ht : t ≠ .eof)
    (h : scanOne (c :: cs) = .ok (t, rest)) (fuel : Nat) (acc : List Token) :
    scanAll (fuel + 1) acc (c :: cs) = scanAll fuel (t :: acc) rest := by
  rw [scanAll, skipIgnored_of_starts hc hcomment, h]
  cases t with
  | eof => exact absurd rfl ht
  | _ => rfl

theorem scanOne_punct (p : Punctuator) (cs : List Char) :
    scanOne (p.text.toList ++ cs) = .ok (.punct p, cs) := by
  cases p <;> simp [Punctuator.text, scanOne, Punctuator.ofChar?]

theorem starts_punct (p : Punctuator) :
    ∃ c cs, p.text.toList = c :: cs ∧ isSeparator c = false ∧ c ≠ '#' := by
  cases p <;> exact ⟨_, _, rfl, by decide, by decide⟩

/-- From a text that spells tokens exactly these are read, with fuel for one round each. -/
theorem Spells.scanAll_eq (h : Spells ts cs) (hf : ts.length < fuel) :
    scanAll fuel acc cs = acc.reverse ++ ts ++ [.eof] := by
  induction h generalizing fuel acc with
  | nil =>
      obtain ⟨fuel, rfl⟩ := Nat.exists_eq_succ_of_ne_zero (Nat.ne_of_gt hf)
      rw [List.append_nil]
      exact List.reverse_cons
  | blank hc h ih => rw [scanAll_blank hc, ih hf]
  | @punct ts cs p h ih =>
      obtain ⟨fuel, rfl⟩ := Nat.exists_eq_succ_of_ne_zero (Nat.ne_of_gt (Nat.zero_lt_of_lt hf))
      obtain ⟨c, ds, hp, hc, hcomment⟩ := starts_punct p
      have hone := scanOne_punct p cs
      rw [hp, List.cons_append] at hone ⊢
      rw [scanAll_of_scanOne hc hcomment Token.noConfusion hone, ih (Nat.lt_of_succ_lt_succ hf),
        List.reverse_cons, List.append_assoc acc.reverse]
      rfl
  | @word t w ts cs hw hb h ih =>
      obtain ⟨fuel, rfl⟩ := Nat.exists_eq_succ_of_ne_zero (Nat.ne_of_gt (Nat.zero_lt_of_lt hf))
      obtain ⟨c, ds, rfl, hc, hcomment⟩ := hw.starts
      have hone := hw.scanOne_eq cs hb
      rw [List.cons_append] at hone ⊢
      rw [scanAll_of_scanOne hc hcomment hw.ne_eof hone, ih (Nat.lt_of_succ_lt_succ hf),
        List.reverse_cons, List.append_assoc acc.reverse]
      rfl

/-- There are no more tokens than characters. -/
theorem Spells.length_le (h : Spells ts cs) : ts.length ≤ cs.length := by
  induction h with
  | nil => exact Nat.le_refl _
  | blank hc h ih => exact Nat.le_succ_of_le ih
  | punct p h ih =>
      obtain ⟨c, ds, hp, -⟩ := starts_punct p
      rw [hp, List.length_cons, List.length_append, List.length_cons]
      omega
  | word hw hb h ih =>
      obtain ⟨c, ds, rfl, -⟩ := hw.starts
      rw [List.length_cons, List.length_append, List.length_cons]
      omega

/-- **What a text spells is read from it.** -/
theorem scan_of_spells {text : String} (h : Spells ts text.toList) : scan text = ts ++ [.eof] := by
  rw [scan, h.scanAll_eq (Nat.lt_succ_of_le h.length_le)]
  rfl

end Scan

/-! ## Putting texts together

How a text is built up: side by side, with blanks, from single words. -/

namespace Spells

variable {ts us : List Token} {cs ds : List Char}

/-- Two texts side by side spell what each of them spells, if the second ends a token. -/
theorem append (h : Spells ts cs) (h' : Spells us ds) (hb : Breaks ds) : Spells (ts ++ us) (cs ++ ds) := by
  induction h with
  | nil => exact h'
  | blank hc h ih => exact .blank hc ih
  | punct p h ih =>
      rw [List.append_assoc]
      exact .punct p ih
  | word hw hb' h ih =>
      rw [List.append_assoc]
      exact .word hw (hb'.append hb) ih

/-- Blanks after a text do not matter. -/
theorem append_blank {c : Char} (h : Spells ts cs) (hc : isSeparator c = true) : Spells ts (cs ++ [c]) := by
  have happend := h.append (.blank hc .nil) (breaks_of_separator hc [])
  rwa [List.append_nil] at happend

theorem of_word {t : Token} {w : List Char} (hw : Word t w) : Spells [t] w := by
  have h := Spells.word hw .nil .nil
  rwa [List.append_nil] at h

theorem of_punct (p : Punctuator) : Spells [.punct p] p.text.toList := by
  have h := Spells.punct p .nil
  rwa [List.append_nil] at h

/-- A text that is empty spells nothing. -/
theorem eq_nil (h : Spells ts []) : ts = [] := by
  have hlength := h.length_le
  exact List.eq_nil_of_length_eq_zero (Nat.le_zero.mp hlength)

end Spells

/-! ## Layout

Printed texts are indented and joined by separators, some of which hold line ends. Neither changes the
tokens. -/

open Layout

/-- A text with every line but the first moved to the right. -/
def shifted (cs : List Char) : List Char := cs.flatMap fun c => if c = '\n' then ['\n', ' ', ' '] else [c]

theorem shifted_append (cs ds : List Char) : shifted (cs ++ ds) = shifted cs ++ shifted ds :=
  List.flatMap_append

/-- A text on one line is not moved. -/
theorem shifted_of_inLine {cs : List Char} (h : '\n' ∉ cs) : shifted cs = cs := by
  have hsame : ∀ c ∈ cs, (if c = '\n' then ['\n', ' ', ' '] else [c]) = [c] := by
    intro c hc
    rw [if_neg]
    rintro rfl
    exact h hc
  rw [shifted, List.flatMap_congr hsame]
  exact List.flatMap_singleton' cs

theorem Breaks.shifted {cs : List Char} (h : Breaks cs) : Breaks (shifted cs) := by
  cases cs with
  | nil => exact .nil
  | cons c cs =>
      rw [Token.shifted, List.flatMap_cons]
      split
      · exact breaks_of_separator (by decide) _
      · exact .cons (h.name c rfl) (h.point c rfl) (h.quote c rfl) _

section Layout

variable {ts : List Token} {cs : List Char} {text : String}

/-- **Moving lines to the right changes nothing of what a text spells.** -/
theorem Spells.shifted (h : Spells ts cs) : Spells ts (shifted cs) := by
  induction h with
  | nil => exact .nil
  | @blank c ts cs hc h ih =>
      rw [Token.shifted, List.flatMap_cons]
      split
      · exact .blank (by decide) (.blank (by decide) (.blank (by decide) ih))
      · exact .blank hc ih
  | punct p h ih =>
      rw [shifted_append, shifted_of_inLine]
      · exact .punct p ih
      · cases p <;> decide
  | word hw hb h ih =>
      rw [shifted_append, shifted_of_inLine hw.inLine]
      exact .word hw hb.shifted ih

theorem shifted_eq_nil (h : Token.shifted cs = []) : cs = [] := by
  cases cs with
  | nil => rfl
  | cons c cs =>
      have hc := List.flatMap_eq_nil_iff.mp h c List.mem_cons_self
      split at hc <;> cases hc

/-- To indent a text is to move its first line as well, unless there is none. -/
theorem toList_indent (text : String) :
    (indent text).toList = if text = "" then [] else ' ' :: ' ' :: Token.shifted text.toList := by
  have hempty : String.ofList (Token.shifted text.toList) = "" ↔ text = "" := by
    rw [← String.toList_inj, String.toList_ofList, ← String.toList_inj]
    refine ⟨shifted_eq_nil, fun h => ?_⟩
    rw [h]
    rfl
  show (wrap "  " (String.ofList (Token.shifted text.toList)) "").toList = _
  rw [wrap]
  by_cases htext : text = ""
  · rw [if_pos (hempty.mpr htext), if_pos htext]
    rfl
  · rw [if_neg (hempty.not.mpr htext), if_neg htext]
    simp

/-- An indented text spells what it has spelt before. -/
theorem Spells.indent (h : Spells ts text.toList) : Spells ts (indent text).toList := by
  rw [toList_indent]
  split
  next htext =>
    subst htext
    rw [h.eq_nil]
    exact .nil
  next => exact .blank (by decide) (.blank (by decide) h.shifted)

/-! ### Separators

Between the parts of a list stands a blank, a comma with a blank, or a line end, and a part may be empty. -/

/-- A separator consists of blanks, one at least. -/
structure IsSeparating (sep : String) : Prop where
  ne_empty : sep ≠ ""
  blank : ∀ c ∈ sep.toList, isSeparator c = true

theorem IsSeparating.of_all {sep : String} (hne : sep ≠ "") (h : sep.toList.all isSeparator = true) :
    IsSeparating sep := ⟨hne, List.all_eq_true.mp h⟩

/-- Blanks before a text do not matter. -/
theorem Spells.blanks {ds : List Char} (h : Spells ts cs) (hd : ∀ c ∈ ds, isSeparator c = true) :
    Spells ts (ds ++ cs) := by
  induction ds with
  | nil => exact h
  | cons d ds ih =>
      exact .blank (hd d List.mem_cons_self) (ih fun c hc => hd c (List.mem_cons_of_mem d hc))

/-- A separator ends the token before it. -/
theorem IsSeparating.breaks {sep : String} (h : IsSeparating sep) (cs : List Char) :
    Breaks (sep.toList ++ cs) := by
  cases hsep : sep.toList with
  | nil => exact absurd (String.toList_eq_nil_iff.mp hsep) h.ne_empty
  | cons d ds => exact breaks_of_separator (h.blank d (hsep ▸ List.mem_cons_self)) _

/-- Empty texts are left out when texts are joined. -/
theorem join_cons (sep text : String) (texts : List String) :
    join sep (text :: texts) = if text = "" then join sep texts
      else if texts.filter (· ≠ "") = [] then text else text ++ sep ++ join sep texts := by
  rw [join, join, List.filter_cons]
  by_cases htext : text = ""
  · rw [if_neg (by simp [htext]), if_pos htext]
  · rw [if_pos (by simpa using htext), if_neg htext]
    split
    next hrest => rw [hrest, String.intercalate_singleton]
    next hrest =>
      obtain ⟨t, ts, hts⟩ := List.exists_cons_of_ne_nil hrest
      rw [hts, String.intercalate_cons_cons]

/-- Texts with separators between them spell what they spell one after the other. -/
theorem Spells.join {sep : String} (hsep : IsSeparating sep) {tss : List (List Token)}
    {texts : List String} (h : List.Forall₂ (fun ts text => Spells ts text.toList) tss texts) :
    Spells tss.flatten (join sep texts).toList := by
  induction h with
  | nil => exact .nil
  | @cons ts text tss texts htext htexts ih =>
      rw [join_cons, List.flatten_cons]
      split
      next hempty =>
        subst hempty
        rw [htext.eq_nil]
        exact ih
      next =>
        split
        next hrest =>
          have hjoin : Layout.join sep texts = "" := by rw [Layout.join, hrest, String.intercalate_nil]
          rw [hjoin] at ih
          rw [ih.eq_nil, List.append_nil]
          exact htext
        next =>
          rw [String.toList_append, String.toList_append, List.append_assoc]
          exact htext.append (ih.blanks hsep.blank) (hsep.breaks _)

end Layout

end Token

end Harvest.GraphQL
