import Harvest.Proofs.GraphQL.Spelling

/-!
# Words

The words that a printed document is made of: names, numbers and strings in quotes. Each of them is read as
its token, whatever comes after it, as long as that ends it. A string in quotes is written without line ends,
so it survives every layout.

For each kind of word there is a scanner, and for the scanner a lemma on a text that goes on in any way
after the word. What the rest must not begin with is given by the scanner: no character of a name after a
name, no digit, point or exponent after a number (`Token.Ends`). A text that ends every token,
`Token.Breaks`, satisfies all of them, and with it each lemma becomes one on `Token.Word`.

The three results are `Token.word_name`, `Token.Numeral.IsProper.word` and `Token.word_printQuoted`. What a
document is printed as is put together of such words and of punctuation.
-/

namespace Harvest.GraphQL

namespace Token

variable {w cs ds rest more : List Char} {c d : Char}

/-! ## Names

A name is the longest run of its characters. -/

/-- A run is cut off where the text goes on with another character. -/
theorem takeWhile_of_breaks {p : Char → Bool} (h : ∀ c ∈ w, p c = true) (hrest : ∀ c ∈ rest.head?, p c = false) :
    (w ++ rest).takeWhile p = w ∧ (w ++ rest).dropWhile p = rest := by
  have hnone : rest.takeWhile p = [] ∧ rest.dropWhile p = rest := by
    cases rest with
    | nil => exact ⟨rfl, rfl⟩
    | cons c rest =>
        have hc : p c = false := hrest c rfl
        simp [hc]
  rw [List.takeWhile_append_of_pos h, List.dropWhile_append_of_pos h, hnone.1, hnone.2, List.append_nil]
  exact ⟨rfl, rfl⟩

/-- A character that begins a name is no other token, and no blank either. -/
theorem ne_of_isNameStart (h : isNameStart c = true) (hd : isNameStart d = false) : c ≠ d := by
  rintro rfl
  rw [h] at hd
  cases hd

theorem starts_of_isNameStart (h : isNameStart c = true) : isSeparator c = false ∧ c ≠ '#' := by
  refine ⟨?_, ne_of_isNameStart h (by decide)⟩
  rw [Bool.eq_false_iff]
  intro hc
  cases (isNameContinue_of_start h).symm.trans ((breaks_of_separator hc []).name c rfl)

/-- What begins a name is read as a name, up to the first character that goes on with none. -/
theorem scanOne_name (h : isNameStart c = true) (cs : List Char) :
    scanOne (c :: cs) = .ok (.name (String.ofList ((c :: cs).takeWhile isNameContinue)),
      (c :: cs).dropWhile isNameContinue) := by
  have hne {d : Char} (hd : isNameStart d = false) : c ≠ d := ne_of_isNameStart h hd
  have hpunct : Punctuator.ofChar? c = none := by
    unfold Punctuator.ofChar?
    repeat rw [if_neg (hne (by decide))]
  unfold scanOne
  split
  next heq => cases heq
  next heq => exact absurd (List.cons.inj heq).1 (hne (by decide))
  next heq => exact absurd (List.cons.inj heq).1 (hne (by decide))
  next heq => exact absurd (List.cons.inj heq).1 (hne (by decide))
  next heq =>
    cases heq
    rw [hpunct]
    dsimp only
    rw [if_pos h]

/-- A name is read as such. -/
theorem word_name {n : String} (h : IsName n) : Word (.name n) n.toList := by
  obtain ⟨c, cs, hn, hc, hcs⟩ := id h
  obtain ⟨hsep, hcomment⟩ := starts_of_isNameStart hc
  refine ⟨⟨c, cs, hn, hsep, hcomment⟩, ?_, Token.noConfusion, fun rest hb => ?_⟩
  · intro hmem
    have hcontinue := h.isNameContinue hmem
    exact absurd hcontinue (by decide)
  · obtain ⟨htake, hdrop⟩ := takeWhile_of_breaks (fun c hc => h.isNameContinue hc) hb.name
    rw [hn, List.cons_append] at htake hdrop ⊢
    rw [scanOne_name hc, htake, hdrop, ← hn, String.ofList_toList]

/-! ## Numbers

A number has a sign, a whole part, a fraction and an exponent, of which all but the whole part may be
missing. Each part is read by a function of its own, and what may follow it is what the next part begins
with. -/

/-- Whether characters are digits, one at least. -/
def IsDigits (ds : List Char) : Prop := ds ≠ [] ∧ ∀ c ∈ ds, c.isDigit = true

/-- Whether characters are the whole part of a number: no other digit follows a leading zero. -/
def IsWhole (ds : List Char) : Prop := IsDigits ds ∧ (ds.head? = some '0' → ds = ['0'])

theorem isWhole_single {d : Char} (h : d.isDigit = true) : IsWhole [d] := by
  refine ⟨⟨List.cons_ne_nil _ _, fun c hc => List.mem_singleton.mp hc ▸ h⟩, fun hhead => ?_⟩
  rw [Option.some.inj hhead]

/-- The parts of a number as it is written: a sign, a whole part, digits after the point and an exponent with
its sign. -/
structure Numeral where
  negative : Bool
  whole : List Char
  fraction : Option (List Char)
  exponent : Option (Char × List Char)

namespace Numeral

/-- Whether the parts of a number are digits and signs where they have to be. -/
structure IsProper (n : Numeral) : Prop where
  whole : IsWhole n.whole
  fraction : ∀ ds ∈ n.fraction, IsDigits ds
  exponent : ∀ x ∈ n.exponent, (x.1 = '+' ∨ x.1 = '-') ∧ IsDigits x.2

def sign (n : Numeral) : List Char := if n.negative then ['-'] else []

def fractionText (n : Numeral) : List Char := (n.fraction.map ('.' :: ·)).getD []

def exponentText (n : Numeral) : List Char := (n.exponent.map fun x => 'e' :: x.1 :: x.2).getD []

/-- The characters of a number. -/
def chars (n : Numeral) : List Char := n.sign ++ n.whole ++ n.fractionText ++ n.exponentText

/-- A number is an integer if it has neither a fraction nor an exponent. -/
def token (n : Numeral) : Token :=
  if n.fraction.isNone && n.exponent.isNone then .int (String.ofList n.chars)
  else .float (String.ofList n.chars)

end Numeral

/-! ### Reading the parts

The scanner of each part stops where the next part or the end of the number begins. `Ends` collects what the
scanners look for, and what breaks every token is among that (`Breaks.ends`). -/

/-- Digits are read up to a character that is none. -/
theorem scanDigits_append (h : IsDigits ds) (hrest : ∀ c ∈ rest.head?, c.isDigit = false) :
    scanDigits (ds ++ rest) = .ok (ds, rest) := by
  obtain ⟨d, ds', rfl⟩ := List.exists_cons_of_ne_nil h.1
  obtain ⟨htake, hdrop⟩ := Json.digits_append h.2 hrest
  rw [List.cons_append] at htake hdrop ⊢
  rw [scanDigits, if_pos (h.2 d List.mem_cons_self), htake, hdrop]

/-- A zero stands alone, other digits are read to their end. -/
theorem scanWhole_append (h : IsWhole ds) (hrest : ∀ c ∈ rest.head?, c.isDigit = false) :
    scanWhole (ds ++ rest) = .ok (ds, rest) := by
  unfold scanWhole
  split
  next c cs heq =>
    -- a zero stands at the beginning, so it is the only digit
    have hzero : ds = ['0'] := by
      obtain ⟨d, ds', rfl⟩ := List.exists_cons_of_ne_nil h.1.1
      exact h.2 (congrArg some (List.cons.inj heq).1)
    subst hzero
    have hrest' : rest = c :: cs := (List.cons.inj heq).2
    subst hrest'
    rw [if_neg (by rw [hrest c rfl]; exact Bool.false_ne_true)]
  next => exact scanDigits_append h.1 hrest

/-- What may follow a number ends it wherever one of its parts could go on. -/
structure Ends (rest : List Char) : Prop where
  isDigit : ∀ c ∈ rest.head?, c.isDigit = false
  point : ∀ c ∈ rest.head?, c ≠ '.'
  isNameStart : ∀ c ∈ rest.head?, isNameStart c = false

theorem isNameContinue_of_isDigit (h : c.isDigit = true) : isNameContinue c = true := by
  rw [isNameContinue, Char.isAlphanum, h, Bool.or_true, Bool.true_or]

/-- What ends every token ends a number. -/
theorem Breaks.ends (h : Breaks rest) : Ends rest := by
  refine ⟨fun c hc => ?_, h.point, fun c hc => ?_⟩
  · rw [Bool.eq_false_iff]
    intro hd
    cases (isNameContinue_of_isDigit hd).symm.trans (h.name c hc)
  · rw [Bool.eq_false_iff]
    intro hd
    cases (isNameContinue_of_start hd).symm.trans (h.name c hc)

/-- A fraction is read if there is a point, and nothing otherwise. -/
theorem scanFraction_append {n : Numeral} (h : n.IsProper) (hdigit : ∀ c ∈ rest.head?, c.isDigit = false)
    (hpoint : ∀ c ∈ rest.head?, c ≠ '.') :
    scanFraction (n.fractionText ++ rest) = .ok (n.fractionText, rest) := by
  cases hf : n.fraction with
  | none =>
      rw [Numeral.fractionText, hf]
      show scanFraction rest = .ok ([], rest)
      unfold scanFraction
      split
      next cs => exact absurd rfl (hpoint '.' rfl)
      next => rfl
  | some ds =>
      rw [Numeral.fractionText, hf]
      show scanFraction ('.' :: (ds ++ rest)) = _
      rw [scanFraction, scanDigits_append (h.fraction ds hf) hdigit]
      rfl

/-- An exponent is read with its sign, and nothing if there is none. -/
theorem scanExponent_append {n : Numeral} (h : n.IsProper) (hrest : Ends rest) :
    scanExponent (n.exponentText ++ rest) = .ok (n.exponentText, rest) := by
  cases he : n.exponent with
  | none =>
      rw [Numeral.exponentText, he]
      show scanExponent rest = .ok ([], rest)
      cases rest with
      | nil => rfl
      | cons c rest =>
          have hc := hrest.isNameStart c rfl
          rw [scanExponent.eq_def]
          refine if_neg ?_
          rintro (rfl | rfl) <;> exact absurd hc (by decide)
  | some x =>
      obtain ⟨s, ds⟩ := x
      obtain ⟨hs, hds⟩ := h.exponent _ he
      rw [Numeral.exponentText, he]
      show scanExponent ('e' :: s :: (ds ++ rest)) = _
      rw [scanExponent.eq_def]
      dsimp only
      rw [if_pos (.inl rfl), if_pos hs, scanDigits_append hds hrest.isDigit]
      rfl

/-- The parts of a number are read as the number that has them. -/
theorem scanNumber_append {n : Numeral} (h : n.IsProper) (hrest : Ends rest) :
    scanNumber n.sign (n.whole ++ n.fractionText ++ n.exponentText ++ rest) = .ok (n.token, rest) := by
  -- where a part of the number is missing, the next one begins with neither a digit nor a point
  have hexponent : (∀ c ∈ (n.exponentText ++ rest).head?, c.isDigit = false)
      ∧ ∀ c ∈ (n.exponentText ++ rest).head?, c ≠ '.' := by
    cases he : n.exponent with
    | none =>
        rw [Numeral.exponentText, he]
        exact ⟨hrest.isDigit, hrest.point⟩
    | some x =>
        rw [Numeral.exponentText, he]
        exact ⟨by rintro c ⟨⟩; decide, by rintro c ⟨⟩; decide⟩
  have hfraction : ∀ c ∈ (n.fractionText ++ (n.exponentText ++ rest)).head?, c.isDigit = false := by
    cases hf : n.fraction with
    | none =>
        rw [Numeral.fractionText, hf]
        exact hexponent.1
    | some ds =>
        rw [Numeral.fractionText, hf]
        rintro c ⟨⟩
        decide
  have hinteger : (n.fractionText.isEmpty && n.exponentText.isEmpty)
      = (n.fraction.isNone && n.exponent.isNone) := by
    rw [Numeral.fractionText, Numeral.exponentText]
    cases n.fraction <;> cases n.exponent <;> rfl
  rw [List.append_assoc, List.append_assoc, scanNumber, scanWhole_append h.whole hfraction]
  show (scanFraction (n.fractionText ++ (n.exponentText ++ rest)) >>= _) = _
  rw [scanFraction_append h hexponent.1 hexponent.2]
  show (scanExponent (n.exponentText ++ rest) >>= _) = _
  rw [scanExponent_append h hrest]
  have htoken : (if (n.fractionText.isEmpty && n.exponentText.isEmpty) = true
      then Token.int (String.ofList n.chars) else .float (String.ofList n.chars)) = n.token := by
    rw [hinteger]
    rfl
  rw [← htoken]
  cases rest with
  | nil => rfl
  | cons c rest =>
      have hc : ¬(c = '.' ∨ isNameStart c = true) := by
        rintro (hc | hc)
        · exact hrest.point c rfl hc
        · exact absurd hc (Bool.eq_false_iff.mp (hrest.isNameStart c rfl))
      exact if_neg hc

/-! ### Reading a number

A number begins with a digit or a minus sign. Nothing else begins with these, so the scanner of tokens comes
to the scanner of numbers. -/

theorem isNameStart_of_isDigit (h : c.isDigit = true) : isNameStart c = false := by
  obtain ⟨-, hnine⟩ := Char.isDigit_iff_toNat.mp h
  -- the letters come after the digits
  have hletter (first last : Char) (hfirst : '9'.toNat < first.toNat) : ¬(first.val ≤ c.val ∧ c.val ≤ last.val) := by
    intro hc
    have hfirst' : first.toNat ≤ c.toNat := UInt32.le_iff_toNat_le.mp hc.1
    omega
  rw [isNameStart, Bool.or_eq_false_iff, decide_eq_false_iff_not]
  refine ⟨Bool.eq_false_iff.mpr fun halpha => ?_, Json.ne_of_isDigit h (by decide)⟩
  rcases (Bool.or_eq_true ..).mp halpha with hupper | hlower
  · exact hletter 'A' 'Z' (by decide) (of_decide_eq_true hupper)
  · obtain ⟨hfirst, hlast⟩ := (Bool.and_eq_true ..).mp hlower
    exact hletter 'a' 'z' (by decide) ⟨of_decide_eq_true hfirst, of_decide_eq_true hlast⟩

/-- A digit begins no other token than a number. -/
theorem scanOne_digit (h : c.isDigit = true) (cs : List Char) : scanOne (c :: cs) = scanNumber [] (c :: cs) := by
  have hne {d : Char} (hd : d.isDigit = false) : c ≠ d := Json.ne_of_isDigit h hd
  have hpunct : Punctuator.ofChar? c = none := by
    unfold Punctuator.ofChar?
    repeat rw [if_neg (hne (by decide))]
  unfold scanOne
  split
  next heq => cases heq
  next heq => exact absurd (List.cons.inj heq).1 (hne (by decide))
  next heq => exact absurd (List.cons.inj heq).1 (hne (by decide))
  next heq => exact absurd (List.cons.inj heq).1 (hne (by decide))
  next heq =>
    cases heq
    rw [hpunct]
    dsimp only
    rw [if_neg (by rw [isNameStart_of_isDigit h]; exact Bool.false_ne_true), if_pos h]

theorem scanOne_minus (cs : List Char) : scanOne ('-' :: cs) = scanNumber ['-'] cs := by
  simp [scanOne, Punctuator.ofChar?, isNameStart]

namespace Numeral

variable {n : Numeral}

/-- There is no line end in a number. -/
theorem IsProper.inLine (h : n.IsProper) : '\n' ∉ n.chars := by
  have hdigits {ds : List Char} (hds : IsDigits ds) : '\n' ∉ ds := fun hmem =>
    absurd (hds.2 _ hmem) (by decide)
  have hsign : '\n' ∉ n.sign := by
    rw [sign]
    split <;> decide
  have hfraction : '\n' ∉ n.fractionText := by
    rw [fractionText]
    cases hf : n.fraction with
    | none => exact List.not_mem_nil
    | some ds => exact List.not_mem_cons_of_ne_of_not_mem (by decide) (hdigits (h.fraction ds hf))
  have hexponent : '\n' ∉ n.exponentText := by
    rw [exponentText]
    cases he : n.exponent with
    | none => exact List.not_mem_nil
    | some x =>
        obtain ⟨hs, hds⟩ := h.exponent x he
        refine List.not_mem_cons_of_ne_of_not_mem (by decide)
          (List.not_mem_cons_of_ne_of_not_mem ?_ (hdigits hds))
        rcases hs with hs | hs <;> rw [hs] <;> decide
  simp only [chars, List.mem_append, not_or]
  exact ⟨⟨⟨hsign, hdigits h.whole.1⟩, hfraction⟩, hexponent⟩

/-- A number begins with a digit or its sign, neither of which is a blank. -/
theorem IsProper.starts (h : n.IsProper) : ∃ c cs, n.chars = c :: cs ∧ isSeparator c = false ∧ c ≠ '#' := by
  obtain ⟨d, ds, hwhole⟩ := List.exists_cons_of_ne_nil h.whole.1.1
  have hd : d.isDigit = true := h.whole.1.2 d (hwhole ▸ List.mem_cons_self)
  rw [chars, sign, hwhole]
  split
  · exact ⟨'-', _, rfl, by decide, by decide⟩
  · refine ⟨d, _, rfl, ?_, Json.ne_of_isDigit hd (by decide)⟩
    rw [Bool.eq_false_iff]
    intro hsep
    cases (isNameContinue_of_isDigit hd).symm.trans ((breaks_of_separator hsep []).name d rfl)

/-- **A number is read as such.** -/
theorem IsProper.word (h : n.IsProper) : Word n.token n.chars := by
  refine ⟨h.starts, h.inLine, ?_, fun rest hb => ?_⟩
  · rw [token]
    split <;> exact Token.noConfusion
  · have hscan := scanNumber_append h hb.ends
    obtain ⟨d, ds, hwhole⟩ := List.exists_cons_of_ne_nil h.whole.1.1
    have hd : d.isDigit = true := h.whole.1.2 d (hwhole ▸ List.mem_cons_self)
    rw [chars, List.append_assoc n.sign, List.append_assoc n.sign, List.append_assoc n.sign]
    rw [sign] at hscan ⊢
    by_cases hn : n.negative = true
    · rw [if_pos hn] at hscan ⊢
      exact (scanOne_minus _).trans hscan
    · rw [if_neg hn] at hscan ⊢
      rw [hwhole] at hscan ⊢
      exact (scanOne_digit hd _).trans hscan

end Numeral

/-! ## Strings

Every character has a form between quotes: itself, a letter after a backslash, or its code in digits. The
fuel of the scanner is counted against the characters of the string and not of the text, since an escape is
read in one step. -/

section Strings

variable {fuel : Nat} {acc : List Char}

/-- The digits of a character that is written by its number. -/
theorem hexDigits (n : Nat) (h : n < 160) :
    ∃ x y, ((Text.hex 4 n).map Char.toUpper).toList = ['0', '0', x, y] ∧ '\n' ∉ ['0', '0', x, y]
      ∧ Json.hex4? '0' '0' x y = some n := by
  have hall : ∀ m : Fin 160,
      let text := (List.replicate (4 - (Nat.toDigits 16 m).length) '0' ++ Nat.toDigits 16 m).map Char.toUpper
      Json.fourDigits? text = some m.val ∧ text.take 2 = ['0', '0'] ∧ '\n' ∉ text := by decide +kernel
  obtain ⟨hvalue, hzeros, hline⟩ := hall ⟨n, h⟩
  obtain ⟨a, b, x, y, htext, hvalue⟩ := Json.exists_of_fourDigits? hvalue
  rw [htext] at hzeros hline
  obtain ⟨rfl, hb⟩ := List.cons.inj hzeros
  obtain ⟨rfl, -⟩ := List.cons.inj hb
  refine ⟨x, y, ?_, hline, hvalue⟩
  rw [Text.hex, String.toList_map, String.toList_ofList]
  exact htext

theorem scanUnicode_hex {x y : Char} {n : Nat} (h : Json.hex4? '0' '0' x y = some n)
    (hn : isScalar n = true) (rest : List Char) :
    scanUnicode ('u' :: '0' :: '0' :: x :: y :: rest) = .ok (Char.ofNat n, rest) := by
  simp [scanUnicode, h, hn]

theorem scanString_quote (rest : List Char) :
    scanString (fuel + 1) acc ('"' :: rest) = .ok (.string (String.ofList acc.reverse), rest) := by
  rw [scanString, if_pos rfl]

/-- An escape counts as one step of reading. -/
theorem scanString_escape (h : scanEscape cs = .ok (c, rest)) :
    scanString (fuel + 1) acc ('\\' :: cs) = scanString fuel (c :: acc) rest := by
  rw [scanString, if_neg (by decide), if_pos rfl, h]

/-- A character is read back from the way it is written. -/
theorem scanString_escapeChar (c : Char) (rest : List Char) :
    scanString (fuel + 1) acc (escapeChar c ++ rest) = scanString fuel (c :: acc) rest := by
  -- one case per escape that the printer knows, in its order
  unfold escapeChar
  split
  next h =>
    subst h
    exact scanString_escape rfl
  next hquote =>
  split
  next h =>
    subst h
    exact scanString_escape rfl
  next hslash =>
  split
  next h =>
    subst h
    exact scanString_escape rfl
  next hnewline =>
  split
  next h =>
    subst h
    exact scanString_escape rfl
  next hreturn =>
  split
  next h =>
    subst h
    exact scanString_escape rfl
  split
  next h =>
    rw [show c = Char.ofNat 8 from Char.toNat_inj.mp h]
    exact scanString_escape rfl
  split
  next h =>
    rw [show c = Char.ofNat 12 from Char.toNat_inj.mp h]
    exact scanString_escape rfl
  split
  next h =>
    obtain ⟨x, y, hhex, -, hvalue⟩ := hexDigits c.toNat (by omega)
    have hscalar : isScalar c.toNat = true := by
      rw [isScalar, Bool.or_eq_true]
      exact .inl (decide_eq_true (by omega))
    rw [hhex]
    refine scanString_escape ?_
    have hread := scanUnicode_hex hvalue hscalar rest
    rw [Char.ofNat_toNat] at hread
    exact hread
  next =>
    rw [List.singleton_append, scanString, if_neg hquote, if_neg hslash, if_neg]
    rw [isLineEnd, Bool.or_eq_true, decide_eq_true_eq, decide_eq_true_eq]
    rintro (h | h)
    · exact hnewline h
    · exact hreturn h

/-- Characters that were written one by one are read one by one. -/
theorem scanString_escaped (hfuel : cs.length < fuel) (acc rest : List Char) :
    scanString fuel acc (cs.flatMap escapeChar ++ '"' :: rest)
      = .ok (.string (String.ofList (acc.reverse ++ cs)), rest) := by
  induction cs generalizing fuel acc with
  | nil =>
      obtain ⟨fuel, rfl⟩ := Nat.exists_eq_succ_of_ne_zero (Nat.ne_of_gt hfuel)
      rw [List.append_nil]
      exact scanString_quote rest
  | cons c cs ih =>
      obtain ⟨fuel, rfl⟩ := Nat.exists_eq_succ_of_ne_zero (Nat.ne_of_gt (Nat.zero_lt_of_lt hfuel))
      rw [List.flatMap_cons, List.append_assoc, scanString_escapeChar, ih (Nat.lt_of_succ_lt_succ hfuel),
        List.reverse_cons, List.append_assoc]
      rfl

/-! ### Reading a string

A string is read with as much fuel as the text has characters. This is enough, as no character is written by
less than one. Two quotes could also be the beginning of a block, of which the third quote decides. -/

theorem escapeChar_ne_nil (c : Char) : escapeChar c ≠ [] := by
  unfold escapeChar
  repeat' split
  all_goals exact List.cons_ne_nil _ _

/-- No character that is written in a string begins with a quote. -/
theorem head_escapeChar (c : Char) : (escapeChar c).head? ≠ some '"' := by
  unfold escapeChar
  split
  next => decide
  next hquote =>
    repeat' split
    all_goals first
      | exact fun h => hquote (Option.some.inj h)
      | exact fun h => absurd (Option.some.inj h) (by decide)

/-- A line end is written by an escape. -/
theorem newline_not_mem_escapeChar (c : Char) : '\n' ∉ escapeChar c := by
  unfold escapeChar
  split
  next => decide
  split
  next => decide
  split
  next => decide
  next hnewline =>
    split
    next => decide
    split
    next => decide
    split
    next => decide
    split
    next => decide
    split
    next h =>
      obtain ⟨x, y, hhex, hline, -⟩ := hexDigits c.toNat (by omega)
      rw [hhex]
      exact List.not_mem_cons_of_ne_of_not_mem (by decide)
        (List.not_mem_cons_of_ne_of_not_mem (by decide) hline)
    next => exact fun h => hnewline (List.mem_singleton.mp h).symm

/-- Writing a string makes it no shorter. -/
theorem length_le_escaped (cs : List Char) : cs.length ≤ (cs.flatMap escapeChar).length := by
  induction cs with
  | nil => exact Nat.le_refl _
  | cons c cs ih =>
      have hc := List.length_pos_of_ne_nil (escapeChar_ne_nil c)
      rw [List.flatMap_cons, List.length_append, List.length_cons]
      omega

theorem toList_printQuoted (s : String) :
    (printQuoted s).toList = '"' :: (s.toList.flatMap escapeChar ++ ['"']) := by
  simp [printQuoted]

/-- Three quotes in a row begin a string of another kind; two of them are an empty string. -/
theorem scanOne_quote (h : ∀ more, cs ≠ '"' :: '"' :: more) :
    scanOne ('"' :: cs) = scanString (cs.length + 1) [] cs := by
  unfold scanOne
  split
  next heq => cases heq
  next heq => exact absurd (List.cons.inj heq).2 (h _)
  next heq =>
    cases heq
    rfl
  next heq => exact absurd (List.cons.inj heq).1 (by decide)
  next hno _ heq => exact absurd (List.cons.inj heq).1.symm hno

/-- **A string in quotes is read as such.** -/
theorem word_printQuoted (s : String) : Word (.string s) (printQuoted s).toList := by
  rw [toList_printQuoted]
  refine ⟨⟨'"', _, rfl, by decide, by decide⟩, ?_, Token.noConfusion, fun rest hb => ?_⟩
  · simp only [List.mem_cons, List.mem_append, List.mem_flatMap, List.not_mem_nil, or_false, not_or,
      not_exists, not_and]
    exact ⟨by decide, fun c _ => newline_not_mem_escapeChar c, by decide⟩
  · rw [List.cons_append, List.append_assoc, scanOne_quote]
    · have hlength : s.toList.length < (s.toList.flatMap escapeChar ++ (['"'] ++ rest)).length + 1 := by
        have hle := length_le_escaped s.toList
        rw [List.length_append]
        omega
      have hscan := scanString_escaped hlength [] rest
      rw [List.reverse_nil, List.nil_append, String.ofList_toList] at hscan
      exact hscan
    · intro more heq
      cases hs : s.toList with
      | nil =>
          rw [hs] at heq
          have hrest : rest = '"' :: more := (List.cons.inj heq).2
          rw [hrest] at hb
          exact hb.quote '"' rfl rfl
      | cons c cs =>
          have hhead := congrArg List.head? heq
          rw [hs, List.flatMap_cons, List.append_assoc,
            List.head?_append_of_ne_nil _ (escapeChar_ne_nil c)] at hhead
          exact head_escapeChar c hhead

end Strings

end Token

end Harvest.GraphQL
