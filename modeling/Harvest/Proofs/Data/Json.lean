import Harvest.Data.Json.Parser
import Harvest.Data.Json.Printer
import Mathlib.Data.List.Basic

/-!
# JSON text can be read back

What `Json.print` writes, the reader reads as the value that was written, whatever comes after it, as long
as that does not go on with a number. This holds of every value that JSON itself has a form for
(`Json.isPlain`): doubles, dates and the like are left out. The text has no line break in it, so that a
file of such texts can be cut into its lines.

The reader has no memory but the characters before it, and each lemma is about the first piece of them: a
blank is skipped, an escape is undone, the digits of a number are taken up to a character that is none. What
may follow a number is the only place where the rest of the text matters, and `Stops` says what that is.

Lists and objects are read by a loop that keeps what it has read, so the lemmas on items and members are
stated for any such beginning. `parse_print` is the round trip as a whole, and `newline_print` keeps a text
in its line.
-/

namespace Harvest.Json

/-! ## Values that JSON has a form for -/

/-- Integers have to be within a limit on their digits, as the reader has one. -/
def atomPlain (limit : Option Nat) : Atom → Bool
  | .null => true
  | .bool _ => true
  | .int i => withinDigits limit (Nat.toDigits 10 i.natAbs)
  | .str _ => true
  | _ => false

def isText : Atom → Bool
  | .str _ => true
  | _ => false

mutual

/-- Whether a value is built from null, truth values, integers, texts, lists, and objects with distinct
texts as their keys. -/
def isPlain (limit : Option Nat) : Value → Bool
  | .atom a => atomPlain limit a
  | .list xs => allPlain limit xs
  | .object ms => (Members.keys ms).Nodup && membersPlain limit ms
  | _ => false

def allPlain (limit : Option Nat) : List Value → Bool
  | [] => true
  | x :: xs => isPlain limit x && allPlain limit xs

def membersPlain (limit : Option Nat) : List (Atom × Value) → Bool
  | [] => true
  | (k, v) :: ms => isText k && isPlain limit v && membersPlain limit ms

end

theorem exists_text {a : Atom} (h : isText a = true) : ∃ s, a = .str s := by
  cases a <;> simp [isText] at h ⊢

/-! ## Blanks

Blanks may stand before a value, an item and a member. The readers skip them first of all. -/

def Blank (bs : List Char) : Prop := ∀ c ∈ bs, isBlank c = true

theorem skipBlanks_append {bs : List Char} (h : Blank bs) (cs : List Char) :
    skipBlanks (bs ++ cs) = skipBlanks cs := List.dropWhile_append_of_pos h

theorem skipBlanks_cons {c : Char} (h : isBlank c = false) (cs : List Char) :
    skipBlanks (c :: cs) = c :: cs := by
  rw [skipBlanks, List.dropWhile_cons_of_neg]
  simp [h]

variable {limit : Option Nat}

/-- A value is read alike with blanks before it. -/
theorem readValue_blanks {bs : List Char} (h : Blank bs) (fuel : Nat) (cs : List Char) :
    readValue limit fuel (bs ++ cs) = readValue limit fuel cs := by
  cases fuel with
  | zero => simp only [readValue]
  | succ fuel => simp only [readValue, skipBlanks_append h]

theorem readItems_blanks {bs : List Char} (h : Blank bs) (fuel : Nat) (acc : List Value)
    (cs : List Char) : readItems limit fuel acc (bs ++ cs) = readItems limit fuel acc cs := by
  cases fuel with
  | zero => simp only [readItems]
  | succ fuel => simp only [readItems, readValue_blanks h]

theorem readMembers_blanks {bs : List Char} (h : Blank bs) (fuel : Nat) (acc : Members)
    (cs : List Char) : readMembers limit fuel acc (bs ++ cs) = readMembers limit fuel acc cs := by
  cases fuel with
  | zero => simp only [readMembers]
  | succ fuel => simp only [readMembers, skipBlanks_append h]

/-! ## Texts

A text is read character by character until its closing quote. Control characters are written by the digits
of their code, all others as themselves or after a backslash. -/

theorem charOf_toNat (c : Char) : Text.charOf c.toNat = c := by
  have hvalid : c.toNat.isValidChar := c.valid
  rw [Text.charOf, if_pos hvalid]
  exact Char.ofNat_toNat c

/-- The number of four digits, if there are no more and no less. -/
def fourDigits? : List Char → Option Nat
  | [a, b, c, d] => hex4? a b c d
  | _ => none

/-- Four digits are four characters that have a number. -/
theorem exists_of_fourDigits? {cs : List Char} {n : Nat} (h : fourDigits? cs = some n) :
    ∃ a b c d, cs = [a, b, c, d] ∧ hex4? a b c d = some n := by
  unfold fourDigits? at h
  split at h
  · exact ⟨_, _, _, _, rfl, h⟩
  · cases h

/-! ### Escapes

The printer escapes what is not plain, by a letter if there is one for it and by the digits of its code
else. -/

/-- An escape by digits stands for the character of that code, as long as this is no half of a pair. -/
theorem readString_hex {a b c d : Char} {n : Nat} (acc rest : List Char)
    (h : hex4? a b c d = some n) (hn : n < 0xD800) :
    readString acc ('\\' :: 'u' :: a :: b :: c :: d :: rest) =
      readString (Text.charOf n :: acc) rest := by
  have hlow : ¬0xD800 ≤ n := by omega
  rw [readString.eq_def]
  split
  case h_2 e f g i rest' heq =>
    -- another escape follows, but the two are no pair
    obtain ⟨rfl, rfl, rfl, rfl, rfl⟩ :
        a = _ ∧ b = _ ∧ c = _ ∧ d = _ ∧ rest = '\\' :: 'u' :: e :: f :: g :: i :: rest' := by
      simpa using heq
    rw [h]
    cases hex4? e f g i <;> simp [hlow]
  case h_4 hno heq =>
    injection heq with _ heq
    injection heq with hu hrest
    exact absurd hrest.symm (hno _ _ _ _ _ hu.symm)
  case h_5 hno heq =>
    injection heq with hslash hrest
    exact absurd hrest.symm (hno _ _ hslash.symm)
  all_goals simp_all

/-- Four digits are enough for every control character. -/
theorem hex_escape (n : Nat) (h : n < 32) :
    ∃ a b c d, (Text.hex 4 n).toList = [a, b, c, d] ∧ hex4? a b c d = some n := by
  have hall : ∀ m : Fin 32, fourDigits? (List.replicate (4 - (Nat.toDigits 16 m).length) '0' ++
      Nat.toDigits 16 m) = some m.val := by decide +kernel
  rw [Text.hex, String.toList_ofList]
  exact exists_of_fourDigits? (hall ⟨n, h⟩)

/-- A character is read back from the way it is written. -/
theorem readString_escapeChar (acc rest : List Char) (c : Char) :
    readString acc (escapeChar c ++ rest) = readString (c :: acc) rest := by
  -- one case per escape that the printer knows; the last two are code points and plain characters
  unfold escapeChar
  split
  next h => simp [h, readString, escaped?]
  next hquote =>
  split
  next h => simp [h, readString, escaped?]
  next hslash =>
  split
  next h => simp [h, readString, escaped?]
  split
  next h => simp [h, readString, escaped?]
  split
  next h => simp [h, readString, escaped?]
  split
  next h =>
    rw [show c = Char.ofNat 8 from Char.toNat_inj.mp h]
    simp [readString, escaped?]
  split
  next h =>
    rw [show c = Char.ofNat 12 from Char.toNat_inj.mp h]
    simp [readString, escaped?]
  split
  next h =>
    obtain ⟨x, y, z, w, hhex, hval⟩ := hex_escape c.toNat h
    rw [hhex]
    show readString acc ('\\' :: 'u' :: x :: y :: z :: w :: rest) = _
    rw [readString_hex acc rest hval (by omega), charOf_toNat]
  next h => simp [readString, *]

/-- Characters that were written one by one are read one by one. -/
theorem readString_escaped (cs acc rest : List Char) :
    readString acc (cs.flatMap escapeChar ++ '"' :: rest) =
      some (String.ofList (acc.reverse ++ cs), rest) := by
  induction cs generalizing acc with
  | nil => simp [readString]
  | cons c cs ih =>
    rw [List.flatMap_cons, List.append_assoc, readString_escapeChar, ih]
    simp

/-- What is between the quotes of a text that was written, and the quote after it. -/
theorem toList_printString (s : String) :
    (printString s).toList = '"' :: (s.toList.flatMap escapeChar ++ ['"']) := by
  simp [printString]

theorem readString_print (s : String) (rest : List Char) :
    readString [] (s.toList.flatMap escapeChar ++ '"' :: rest) = some (s, rest) := by
  rw [readString_escaped]
  simp

/-! ## Integers

A number is written by its decimal digits, and the reader takes as many as there are. So it matters what
comes next: a digit, a point or an exponent would go on with the number. -/

/-- What may come after a number without changing it. -/
def Stops (cs : List Char) : Prop :=
  ∀ c rest, cs = c :: rest → c.isDigit = false ∧ c ≠ '.' ∧ c ≠ 'e' ∧ c ≠ 'E'

theorem Stops.nil : Stops [] := by
  intro c rest h
  cases h

/-- A separator, a bracket or a line break ends a number. -/
theorem Stops.cons {c : Char} (hdigit : c.isDigit = false) (hdot : c ≠ '.') (he : c ≠ 'e')
    (hE : c ≠ 'E') (rest : List Char) : Stops (c :: rest) := by
  intro c' rest' h
  cases h
  exact ⟨hdigit, hdot, he, hE⟩

/-! ### Digits

An integer is printed in decimal digits without a leading zero. The reader takes all digits that there are,
so something else has to come after them: it must not be a point, an exponent or a digit. -/

/-- The decimal digits of a number have the number as their value. -/
theorem natOf_toDigits (n : Nat) : natOf (Nat.toDigits 10 n) = n := by
  have hfold : natOf (Nat.toDigits 10 n) = Nat.ofDigitChars 10 (Nat.toDigits 10 n) 0 := by
    simp only [natOf, Nat.ofDigitChars, Nat.mul_comm 10]
    rfl
  rw [hfold, Nat.ofDigitChars_ten_toDigits]

theorem isDigit_toDigits (n : Nat) : ∀ c ∈ Nat.toDigits 10 n, c.isDigit = true :=
  fun _ h => Nat.isDigit_of_mem_toDigits (by decide) (by decide) h

theorem toDigits_zero : Nat.toDigits 10 0 = ['0'] := rfl

/-- A number other than zero does not begin with a zero. -/
theorem head?_toDigits_ne_zero {n : Nat} (h : 0 < n) : (Nat.toDigits 10 n).head? ≠ some '0' := by
  induction n using Nat.strongRecOn with
  | ind n ih =>
    rw [Nat.toDigits_eq_if (by decide)]
    split
    · have hdigit : ∀ m : Fin 10, 0 < m.val → Nat.digitChar m.val ≠ '0' := by decide
      simpa using hdigit ⟨n, by omega⟩ h
    · have hpos : 0 < n / 10 := by omega
      have hhead : (Nat.toDigits 10 (n / 10)).head? ≠ some '0' := ih _ (by omega) hpos
      have hne : Nat.toDigits 10 (n / 10) ≠ [] := Nat.toDigits_ne_nil
      rw [List.head?_append_of_ne_nil _ hne]
      exact hhead

theorem Stops.isDigit_head {rest : List Char} (h : Stops rest) : ∀ c ∈ rest.head?, c.isDigit = false := by
  intro c hc
  cases rest with
  | nil => cases hc
  | cons d rest =>
    cases hc
    exact (h c rest rfl).1

/-- Digits are cut off at the first character that is none. -/
theorem digits_append {ds rest : List Char} (h : ∀ c ∈ ds, c.isDigit = true)
    (hrest : ∀ c ∈ rest.head?, c.isDigit = false) :
    digits (ds ++ rest) = ds ∧ afterDigits (ds ++ rest) = rest := by
  have hnone : rest.takeWhile Char.isDigit = [] ∧ rest.dropWhile Char.isDigit = rest := by
    cases rest with
    | nil => exact ⟨rfl, rfl⟩
    | cons c rest =>
      have hc : c.isDigit = false := hrest c rfl
      simp [hc]
  rw [digits, afterDigits, List.takeWhile_append_of_pos h, List.dropWhile_append_of_pos h, hnone.1,
    hnone.2]
  simp

/-- There is no fraction where the number stops. -/
theorem readFraction_stops {rest : List Char} (h : Stops rest) : readFraction rest = ([], rest) := by
  cases rest with
  | nil => rfl
  | cons c rest =>
    have hdot : c ≠ '.' := (h c rest rfl).2.1
    simp [readFraction, hdot]

theorem readExponent_stops {rest : List Char} (h : Stops rest) : readExponent rest = (none, rest) := by
  cases rest with
  | nil => rfl
  | cons c rest =>
    have he : ¬(c = 'e' ∨ c = 'E') := not_or.mpr (h c rest rfl).2.2
    simp [readExponent, he]

/-- The digits of a number are read as the number. -/
theorem readNumber_toDigits (negative : Bool) {n : Nat} {rest : List Char}
    (hlimit : withinDigits limit (Nat.toDigits 10 n) = true) (hrest : Stops rest) :
    readNumber limit negative (Nat.toDigits 10 n ++ rest) =
      some (.int (Double.signed negative n), rest) := by
  have hds := digits_append (isDigit_toDigits n) hrest.isDigit_head
  rcases Nat.eq_zero_or_pos n with rfl | hpos
  · rw [toDigits_zero] at hlimit
    simp [readNumber, readFraction_stops hrest, readExponent_stops hrest, hlimit, natOf]
  · have hhead := head?_toDigits_ne_zero hpos
    have hnat := natOf_toDigits n
    have hdigit := isDigit_toDigits n
    have hne : Nat.toDigits 10 n ≠ [] := Nat.toDigits_ne_nil
    generalize Nat.toDigits 10 n = ds at *
    cases ds with
    | nil => exact absurd rfl hne
    | cons d ds =>
      have hd : d.isDigit = true := hdigit d (List.mem_cons_self ..)
      have hzero : d ≠ '0' := by simpa using hhead
      rw [List.cons_append] at hds
      simp [readNumber, hd, hzero, hds, readFraction_stops hrest, readExponent_stops hrest, hlimit, hnat]

theorem toList_natRepr (n : Nat) : (toString n).toList = Nat.toDigits 10 n := by
  show n.repr.toList = _
  rw [Nat.repr_eq_ofList_toDigits, String.toList_ofList]

theorem toList_ofNat (n : Nat) : (toString (Int.ofNat n)).toList = Nat.toDigits 10 n :=
  toList_natRepr n

theorem toList_negSucc (n : Nat) :
    (toString (Int.negSucc n)).toList = '-' :: Nat.toDigits 10 (n + 1) := by
  have hrepr : toString (Int.negSucc n) = "-" ++ toString (n + 1) := rfl
  rw [hrepr, String.toList_append, toList_natRepr]
  rfl

/-- A number has a first digit. -/
theorem exists_toDigits (n : Nat) : ∃ d ds, Nat.toDigits 10 n = d :: ds ∧ d.isDigit = true := by
  have hne : Nat.toDigits 10 n ≠ [] := Nat.toDigits_ne_nil
  obtain ⟨d, ds, hds⟩ := List.exists_cons_of_ne_nil hne
  refine ⟨d, ds, hds, isDigit_toDigits n d ?_⟩
  rw [hds]
  exact List.mem_cons_self ..

/-! ### Reading an integer

The reader looks at the first character of a value. No value but a number begins with a digit or a minus
sign. -/

/-- Digits are no word, and no other value than a number begins with one. -/
theorem ne_of_isDigit {d c : Char} (hd : d.isDigit = true) (hc : c.isDigit = false) : d ≠ c := by
  intro h
  rw [h, hc] at hd
  cases hd

theorem isBlank_of_isDigit {d : Char} (h : d.isDigit = true) : isBlank d = false := by
  have hspace := ne_of_isDigit h (c := ' ') rfl
  have hline := ne_of_isDigit h (c := '\n') rfl
  have hreturn := ne_of_isDigit h (c := '\r') rfl
  have htab := ne_of_isDigit h (c := '\t') rfl
  simp [isBlank, hspace, hline, hreturn, htab]

/-- No word begins with a digit. -/
theorem readWord_digit {d : Char} (h : d.isDigit = true) (cs : List Char) :
    readWord (d :: cs) = none := by
  have hn := (ne_of_isDigit h (c := 'n') rfl).symm
  have ht := (ne_of_isDigit h (c := 't') rfl).symm
  have hf := (ne_of_isDigit h (c := 'f') rfl).symm
  have hN := (ne_of_isDigit h (c := 'N') rfl).symm
  have hI := (ne_of_isDigit h (c := 'I') rfl).symm
  have hminus := (ne_of_isDigit h (c := '-') rfl).symm
  simp [readWord, hn, ht, hf, hN, hI, hminus]

theorem readWord_minus {d : Char} (h : d.isDigit = true) (cs : List Char) :
    readWord ('-' :: d :: cs) = none := by
  have hI := (ne_of_isDigit h (c := 'I') rfl).symm
  simp [readWord, hI]

/-- A number without a sign is read as an integer. -/
theorem readValue_digits (fuel : Nat) {n : Nat} {rest : List Char}
    (hlimit : withinDigits limit (Nat.toDigits 10 n) = true) (hrest : Stops rest) :
    readValue limit (fuel + 1) (Nat.toDigits 10 n ++ rest) = some (.int n, rest) := by
  have hread := readNumber_toDigits false hlimit hrest
  obtain ⟨d, ds, hds, hd⟩ := exists_toDigits n
  rw [hds, List.cons_append] at hread ⊢
  rw [readValue, skipBlanks_cons (isBlank_of_isDigit hd)]
  split
  next h => exact absurd (List.cons.inj h).1 (ne_of_isDigit hd rfl)
  next h => exact absurd (List.cons.inj h).1 (ne_of_isDigit hd rfl)
  next h => exact absurd (List.cons.inj h).1 (ne_of_isDigit hd rfl)
  rw [readWord_digit hd, Option.none_or]
  split
  next h => exact absurd (List.cons.inj h).1 (ne_of_isDigit hd rfl)
  rw [hread]
  rfl

/-- A number after a minus sign is read as a negative integer. -/
theorem readValue_minus (fuel : Nat) {n : Nat} {rest : List Char}
    (hlimit : withinDigits limit (Nat.toDigits 10 n) = true) (hrest : Stops rest) :
    readValue limit (fuel + 1) ('-' :: (Nat.toDigits 10 n ++ rest)) = some (.int (-n), rest) := by
  have hread := readNumber_toDigits true hlimit hrest
  obtain ⟨d, ds, hds, hd⟩ := exists_toDigits n
  rw [hds, List.cons_append] at hread ⊢
  rw [readValue, skipBlanks_cons (by decide)]
  show (readWord ('-' :: d :: (ds ++ rest))).or (readNumber limit true (d :: (ds ++ rest))) = _
  rw [readWord_minus hd, Option.none_or, hread]
  rfl

/-! ## Values without parts

Words, numbers and texts, put together from the sections before. -/

/-- A value without parts is read back from its text. -/
theorem readValue_atom (fuel : Nat) {a : Atom} {rest : List Char} (h : atomPlain limit a = true)
    (hrest : Stops rest) :
    readValue limit (fuel + 1) ((printAtom a).toList ++ rest) = some (.atom a, rest) := by
  match a with
  | .null =>
    simp [printAtom, readValue, skipBlanks, isBlank, readWord]
    rfl
  | .bool true =>
    simp [printAtom, readValue, skipBlanks, isBlank, readWord]
    rfl
  | .bool false =>
    simp [printAtom, readValue, skipBlanks, isBlank, readWord]
    rfl
  | .int (.ofNat n) =>
    rw [printAtom, toList_ofNat]
    exact readValue_digits fuel h hrest
  | .int (.negSucc n) =>
    rw [printAtom, toList_negSucc]
    exact readValue_minus fuel h hrest
  | .str s =>
    have htext : (printAtom (.str s)).toList = '"' :: (s.toList.flatMap escapeChar ++ ['"']) :=
      toList_printString s
    rw [htext, List.cons_append, List.append_assoc, readValue, skipBlanks_cons (by decide)]
    simp [readString_print]

/-! ## Members

The reader adds the members of an object one by one; distinct texts stay in the order of the text. -/

theorem sameKey_str (k : Atom) (s : String) : k.sameKey (.str s) = true ↔ k = .str s := by
  have htext : (Atom.str s).asInt? = none := rfl
  cases hk : k.asInt? with
  | some i => cases k <;> simp_all [Atom.sameKey, Atom.same, Atom.asInt?]
  | none => cases k <;> simp_all [Atom.sameKey, Atom.same]

/-- A key that comes later is none of the earlier ones if all are distinct. -/
theorem notMem_of_nodup {acc ms : Members} {k : Atom} {v : Value}
    (h : (Members.keys (acc ++ (k, v) :: ms)).Nodup) : k ∉ Members.keys acc := by
  rw [Members.keys, List.map_append, List.map_cons, List.nodup_append] at h
  intro hmem
  exact h.2.2 k hmem k (List.mem_cons_self ..) rfl

/-- A member with a new key is added at the end. -/
theorem insert_of_notMem {key : String} (v : Value) {ms : Members}
    (h : .str key ∉ Members.keys ms) : Members.insert (.str key) v ms = ms ++ [(.str key, v)] := by
  induction ms with
  | nil => rfl
  | cons m ms ih =>
    obtain ⟨k, w⟩ := m
    rw [Members.keys, List.map_cons, List.mem_cons, not_or] at h
    have hk : ¬k.sameKey (.str key) = true := by
      rw [sameKey_str]
      exact fun hk => h.1 hk.symm
    rw [Members.insert, if_neg hk, ih h.2]
    rfl

/-! ## Lists and objects

One step of the loops at a time: what is read after an item or a member that others follow, and what after
the last one. The steps need that a value never begins like the end of its list. -/

/-- The separators of a spacing are the comma and the colon, with nothing but blanks after them. -/
structure Spacing.Separates (sp : Spacing) : Prop where
  item : ∃ bs, Blank bs ∧ sp.item.toList = ',' :: bs
  member : ∃ bs, Blank bs ∧ sp.member.toList = ':' :: bs

variable {sp : Spacing}

/-- The text of the items of a list, without its brackets. -/
def itemsText (sp : Spacing) (xs : List Value) : List Char :=
  (sp.item.intercalate (printItems sp xs)).toList

/-- The text of the members of an object, without its braces. -/
def membersText (sp : Spacing) (ms : Members) : List Char :=
  (sp.item.intercalate (printMembers sp ms)).toList

/-! ### Texts of lists and objects

A list is printed as its items with separators between them, and an object as its members. The texts are
taken apart at the first item, as the reader does. -/

theorem toList_list (xs : List Value) :
    (print sp (.list xs)).toList = '[' :: (itemsText sp xs ++ [']']) := by
  simp [print, itemsText]

theorem toList_object (ms : Members) :
    (print sp (.object ms)).toList = '\x7b' :: (membersText sp ms ++ ['\x7d']) := by
  simp [print, membersText]

theorem itemsText_single (x : Value) : itemsText sp [x] = (print sp x).toList := by
  simp [itemsText, printItems]

theorem itemsText_cons (x y : Value) (ys : List Value) :
    itemsText sp (x :: y :: ys) =
      (print sp x).toList ++ (sp.item.toList ++ itemsText sp (y :: ys)) := by
  simp [itemsText, printItems, String.intercalate_cons_cons]

/-- The text of one member. -/
def memberText (sp : Spacing) (key : String) (v : Value) : List Char :=
  (printString key).toList ++ (sp.member.toList ++ (print sp v).toList)

theorem membersText_single (key : String) (v : Value) :
    membersText sp [(.str key, v)] = memberText sp key v := by
  simp [membersText, memberText, printMembers, printKey]

theorem membersText_cons (key : String) (v : Value) (m : Atom × Value) (ms : Members) :
    membersText sp ((.str key, v) :: m :: ms) =
      memberText sp key v ++ (sp.item.toList ++ membersText sp (m :: ms)) := by
  obtain ⟨k, w⟩ := m
  simp [membersText, memberText, printMembers, printKey, String.intercalate_cons_cons]

/-! ### The first item

An empty list is told by the bracket that closes it, so that an item must not begin like one. -/

/-- What a value can begin with: neither a blank nor the end of a list. -/
def Begins (cs : List Char) : Prop := ∃ c rest, cs = c :: rest ∧ isBlank c = false ∧ c ≠ ']'

theorem begins_digits (n : Nat) : Begins (Nat.toDigits 10 n) := by
  obtain ⟨d, ds, hds, hd⟩ := exists_toDigits n
  exact ⟨d, ds, hds, isBlank_of_isDigit hd, ne_of_isDigit hd rfl⟩

/-- The text of a plain value begins a value. -/
theorem begins_print (sp : Spacing) {v : Value} (h : isPlain limit v = true) : Begins (print sp v).toList := by
  match v with
  | .null => exact ⟨'n', ['u', 'l', 'l'], by simp [print, printAtom], by decide, by decide⟩
  | .bool true => exact ⟨'t', ['r', 'u', 'e'], by simp [print, printAtom], by decide, by decide⟩
  | .bool false => exact ⟨'f', ['a', 'l', 's', 'e'], by simp [print, printAtom], by decide, by decide⟩
  | .int (.ofNat n) =>
    rw [print, printAtom, toList_ofNat]
    exact begins_digits n
  | .int (.negSucc n) =>
    rw [print, printAtom, toList_negSucc]
    exact ⟨'-', _, rfl, by decide, by decide⟩
  | .str s => exact ⟨'"', _, toList_printString s, by decide, by decide⟩
  | .list xs => exact ⟨'[', _, toList_list xs, by decide, by decide⟩
  | .object ms => exact ⟨'\x7b', _, toList_object ms, by decide, by decide⟩

theorem begins_itemsText (sp : Spacing) {x : Value} (xs : List Value) (h : isPlain limit x = true) :
    Begins (itemsText sp (x :: xs)) := by
  obtain ⟨c, rest, hrest, hblank, hc⟩ := begins_print sp h
  cases xs with
  | nil => exact ⟨c, rest, by rw [itemsText_single, hrest], hblank, hc⟩
  | cons y ys => exact ⟨c, _, by rw [itemsText_cons, hrest, List.cons_append], hblank, hc⟩

/-- The members of an object begin with the quote of their first key. -/
theorem begins_membersText {key : String} {v : Value} {ms : Members} :
    ∃ rest, membersText sp ((.str key, v) :: ms) = '"' :: rest := by
  cases ms with
  | nil => exact ⟨_, by rw [membersText_single, memberText, toList_printString, List.cons_append]⟩
  | cons m ms =>
    exact ⟨_, by rw [membersText_cons, memberText, toList_printString, List.cons_append,
      List.cons_append]⟩

/-- The first item of a list is not taken for the end of the list. -/
theorem readValue_open {cs : List Char} (h : Begins cs) (fuel : Nat) :
    readValue limit (fuel + 1) ('[' :: cs) = readItems limit fuel [] cs := by
  obtain ⟨c, rest, rfl, hblank, hc⟩ := h
  rw [readValue, skipBlanks_cons (by decide)]
  simp [skipBlanks_cons hblank, hc]

theorem readValue_openObject (fuel : Nat) (cs : List Char) :
    readValue limit (fuel + 1) ('\x7b' :: '"' :: cs) = readMembers limit fuel [] ('"' :: cs) := by
  rw [readValue, skipBlanks_cons (by decide)]
  simp [skipBlanks, isBlank]

/-! ### One item and the rest -/

/-- After an item the list goes on with the next one. -/
theorem readItems_next {fuel : Nat} {acc : List Value} {cs rest : List Char} {v : Value}
    (hsp : sp.Separates) (h : readValue limit fuel cs = some (v, sp.item.toList ++ rest)) :
    readItems limit (fuel + 1) acc cs = readItems limit fuel (v :: acc) rest := by
  obtain ⟨bs, hblank, hitem⟩ := hsp.item
  rw [hitem, List.cons_append] at h
  simp only [readItems, h, skipBlanks_cons (show isBlank ',' = false by decide)]
  exact readItems_blanks hblank fuel _ rest

theorem readItems_last {fuel : Nat} {acc : List Value} {cs rest : List Char} {v : Value}
    (h : readValue limit fuel cs = some (v, ']' :: rest)) :
    readItems limit (fuel + 1) acc cs = some (.list (acc.reverse ++ [v]), rest) := by
  simp [readItems, h, skipBlanks_cons (show isBlank ']' = false by decide)]

/-- A member is followed by a comma and further members, or by the brace that ends its object. -/
theorem readMembers_member {fuel : Nat} {acc : Members} {key : String} {v : Value}
    {cs rest : List Char} {c : Char} {after : List Char} {found : Option (Value × List Char)}
    (hsp : sp.Separates) (h : readValue limit fuel cs = some (v, rest))
    (hafter : skipBlanks rest = c :: after)
    (hfound : c = ',' ∧ readMembers limit fuel (Members.insert (.str key) v acc) after = found
      ∨ c = '\x7d' ∧ some (.object (Members.insert (.str key) v acc), after) = found) :
    readMembers limit (fuel + 1) acc ((printString key).toList ++ (sp.member.toList ++ cs)) = found := by
  obtain ⟨bs, hblank, hmember⟩ := hsp.member
  have hvalue : readValue limit fuel (bs ++ cs) = some (v, rest) := by
    rw [readValue_blanks hblank, h]
  rw [toList_printString, List.cons_append, List.append_assoc, hmember, readMembers,
    skipBlanks_cons (by decide)]
  simp only [readString_print, List.cons_append, List.nil_append,
    skipBlanks_cons (show isBlank ':' = false by decide), hvalue, hafter]
  rcases hfound with ⟨rfl, hnext⟩ | ⟨rfl, hlast⟩
  · exact hnext
  · exact hlast

/-- After a member the object goes on with the next one. -/
theorem readMembers_next {fuel : Nat} {acc : Members} {key : String} {v : Value}
    {cs rest : List Char} (hsp : sp.Separates)
    (h : readValue limit fuel cs = some (v, sp.item.toList ++ rest)) :
    readMembers limit (fuel + 1) acc ((printString key).toList ++ (sp.member.toList ++ cs)) =
      readMembers limit fuel (Members.insert (.str key) v acc) rest := by
  obtain ⟨bs, hblank, hitem⟩ := hsp.item
  have hafter : skipBlanks (sp.item.toList ++ rest) = ',' :: (bs ++ rest) := by
    rw [hitem, List.cons_append, skipBlanks_cons (by decide)]
  exact readMembers_member hsp h hafter (.inl ⟨rfl, readMembers_blanks hblank fuel _ rest⟩)

/-- After the last member the object is closed with all that was read. -/
theorem readMembers_last {fuel : Nat} {acc : Members} {key : String} {v : Value}
    {cs rest : List Char} (hsp : sp.Separates)
    (h : readValue limit fuel cs = some (v, '\x7d' :: rest)) :
    readMembers limit (fuel + 1) acc ((printString key).toList ++ (sp.member.toList ++ cs)) =
      some (.object (Members.insert (.str key) v acc), rest) :=
  readMembers_member hsp h (skipBlanks_cons (by decide) rest) (.inr ⟨rfl, rfl⟩)

theorem Spacing.Separates.item_stops (hsp : sp.Separates) (rest : List Char) :
    Stops (sp.item.toList ++ rest) := by
  obtain ⟨bs, -, hitem⟩ := hsp.item
  rw [hitem]
  exact Stops.cons (by decide) (by decide) (by decide) (by decide) _

theorem Spacing.Separates.item_pos (hsp : sp.Separates) : 0 < sp.item.toList.length := by
  obtain ⟨bs, -, hitem⟩ := hsp.item
  simp [hitem]

/-! ## The round trip

By recursion over the value. The fuel is counted against the length of the text: every step of the reader
takes at least one character of it. -/

mutual

/-- A value is read from its text, with enough fuel for the length of the text. -/
theorem readValue_print (hsp : sp.Separates) : ∀ (v : Value) (fuel : Nat) (rest : List Char),
    isPlain limit v = true → (print sp v).toList.length ≤ fuel → Stops rest →
    readValue limit fuel ((print sp v).toList ++ rest) = some (v, rest)
  | .atom a, fuel, rest, h, hfuel, hrest => by
    have hpos : 0 < fuel := by
      obtain ⟨c, cs, hcs, -⟩ := begins_print sp h
      rw [hcs, List.length_cons] at hfuel
      omega
    obtain ⟨fuel, rfl⟩ := Nat.exists_eq_add_one.mpr hpos
    exact readValue_atom fuel h hrest
  | .list [], fuel, rest, _, hfuel, _ => by
    rw [toList_list] at hfuel ⊢
    obtain ⟨fuel, rfl⟩ : ∃ n, fuel = n + 1 := ⟨fuel - 1, by simp at hfuel; omega⟩
    simp [readValue, itemsText, printItems, skipBlanks, isBlank]
  -- an opened list or object hands over to the functions for the parts, with less fuel
  | .list (x :: xs), fuel, rest, h, hfuel, _ => by
    rw [toList_list] at hfuel ⊢
    obtain ⟨fuel, rfl⟩ : ∃ n, fuel = n + 1 := ⟨fuel - 1, by simp at hfuel; omega⟩
    have hbegins : Begins (itemsText sp (x :: xs) ++ ([']'] ++ rest)) := by
      rw [isPlain, allPlain, Bool.and_eq_true] at h
      obtain ⟨c, cs, hcs, hblank, hc⟩ := begins_itemsText sp xs h.1
      exact ⟨c, _, by rw [hcs, List.cons_append], hblank, hc⟩
    rw [List.cons_append, List.append_assoc, readValue_open hbegins]
    exact readItems_print hsp (x :: xs) fuel [] rest (List.cons_ne_nil _ _) h (by simp at hfuel; omega)
  | .object [], fuel, rest, _, hfuel, _ => by
    rw [toList_object] at hfuel ⊢
    obtain ⟨fuel, rfl⟩ : ∃ n, fuel = n + 1 := ⟨fuel - 1, by simp at hfuel; omega⟩
    simp [readValue, membersText, printMembers, skipBlanks, isBlank]
  | .object (m :: ms), fuel, rest, h, hfuel, _ => by
    rw [toList_object] at hfuel ⊢
    obtain ⟨fuel, rfl⟩ : ∃ n, fuel = n + 1 := ⟨fuel - 1, by simp at hfuel; omega⟩
    rw [isPlain, Bool.and_eq_true, decide_eq_true_eq] at h
    have hopen : ∃ cs, membersText sp (m :: ms) = '"' :: cs := by
      obtain ⟨k, v⟩ := m
      rw [membersPlain, Bool.and_eq_true, Bool.and_eq_true] at h
      obtain ⟨key, rfl⟩ := exists_text h.2.1.1
      exact begins_membersText
    obtain ⟨cs, hcs⟩ := hopen
    have hread := readMembers_print hsp (m :: ms) fuel [] rest (List.cons_ne_nil _ _) h.2 h.1
      (by simp at hfuel; omega)
    rw [hcs, List.cons_append] at hread
    rw [hcs, List.cons_append, List.append_assoc, List.cons_append, readValue_openObject]
    exact hread

/-- The items of a list are read behind those that were read before. -/
theorem readItems_print (hsp : sp.Separates) : ∀ (xs : List Value) (fuel : Nat) (acc : List Value)
    (rest : List Char), xs ≠ [] → allPlain limit xs = true → (itemsText sp xs).length + 1 ≤ fuel →
    readItems limit fuel acc (itemsText sp xs ++ ']' :: rest) = some (.list (acc.reverse ++ xs), rest)
  | [], _, _, _, h, _, _ => absurd rfl h
  | [x], fuel, acc, rest, _, h, hfuel => by
    rw [allPlain, Bool.and_eq_true] at h
    rw [itemsText_single] at hfuel ⊢
    obtain ⟨fuel, rfl⟩ : ∃ n, fuel = n + 1 := ⟨fuel - 1, by omega⟩
    have hstops : Stops (']' :: rest) :=
      Stops.cons (by decide) (by decide) (by decide) (by decide) rest
    exact readItems_last (readValue_print hsp x fuel _ h.1 (by omega) hstops)
  | x :: y :: ys, fuel, acc, rest, _, h, hfuel => by
    rw [allPlain, Bool.and_eq_true] at h
    rw [itemsText_cons] at hfuel ⊢
    obtain ⟨fuel, rfl⟩ : ∃ n, fuel = n + 1 := ⟨fuel - 1, by omega⟩
    have hsep := hsp.item_pos
    simp only [List.length_append] at hfuel
    have hx := readValue_print hsp x fuel _ h.1 (by omega)
      (hsp.item_stops (itemsText sp (y :: ys) ++ ']' :: rest))
    have hys := readItems_print hsp (y :: ys) fuel (x :: acc) rest (List.cons_ne_nil _ _) h.2
      (by omega)
    rw [List.append_assoc, List.append_assoc, readItems_next hsp hx, hys]
    simp

/-- The members of an object are read behind those that were read before, if all keys are distinct. -/
theorem readMembers_print (hsp : sp.Separates) : ∀ (ms : List (Atom × Value)) (fuel : Nat)
    (acc : Members) (rest : List Char), ms ≠ [] → membersPlain limit ms = true →
    (Members.keys (acc ++ ms)).Nodup → (membersText sp ms).length + 1 ≤ fuel →
    readMembers limit fuel acc (membersText sp ms ++ '\x7d' :: rest) =
      some (.object (acc ++ ms), rest)
  | [], _, _, _, h, _, _, _ => absurd rfl h
  | [(k, v)], fuel, acc, rest, _, h, hkeys, hfuel => by
    rw [membersPlain, Bool.and_eq_true, Bool.and_eq_true] at h
    obtain ⟨key, rfl⟩ := exists_text h.1.1
    rw [membersText_single, memberText] at hfuel ⊢
    obtain ⟨fuel, rfl⟩ : ∃ n, fuel = n + 1 := ⟨fuel - 1, by omega⟩
    have hstops : Stops ('\x7d' :: rest) :=
      Stops.cons (by decide) (by decide) (by decide) (by decide) rest
    -- the keys are distinct, so that reading a member adds it at the end and replaces none
    have hnew := notMem_of_nodup hkeys
    simp only [List.length_append] at hfuel
    have hv := readValue_print hsp v fuel _ h.1.2 (by omega) hstops
    rw [List.append_assoc, List.append_assoc, readMembers_last hsp hv, insert_of_notMem v hnew]
  | (k, v) :: m :: ms, fuel, acc, rest, _, h, hkeys, hfuel => by
    rw [membersPlain, Bool.and_eq_true, Bool.and_eq_true] at h
    obtain ⟨key, rfl⟩ := exists_text h.1.1
    rw [membersText_cons, memberText] at hfuel ⊢
    obtain ⟨fuel, rfl⟩ : ∃ n, fuel = n + 1 := ⟨fuel - 1, by omega⟩
    have hsep := hsp.item_pos
    have hnew := notMem_of_nodup hkeys
    simp only [List.length_append] at hfuel
    have hv := readValue_print hsp v fuel _ h.1.2 (by omega)
      (hsp.item_stops (membersText sp (m :: ms) ++ '\x7d' :: rest))
    have hms := readMembers_print hsp (m :: ms) fuel (acc ++ [(.str key, v)]) rest
      (List.cons_ne_nil _ _) h.2 (by simpa using hkeys) (by omega)
    simp only [List.append_assoc] at hms ⊢
    rw [readMembers_next hsp hv, insert_of_notMem v hnew, hms]
    simp

end

/-- **What is written is read back**: the text of a plain value is read as that value, with any spacing. -/
theorem parse_print (hsp : sp.Separates) {v : Value} (h : isPlain limit v = true) :
    parseWithin? limit (print sp v).toList = some v := by
  have hread := readValue_print hsp v (2 * (print sp v).toList.length + 2) [] h (by omega) Stops.nil
  rw [List.append_nil] at hread
  simp [parseWithin?, hread, skipBlanks]

/-! ## One line

A line break in a text is escaped, and nothing else that is written can hold one. -/

theorem newline_escapeChar (c : Char) : '\n' ∉ escapeChar c := by
  unfold escapeChar
  split
  · decide
  split
  · decide
  split
  · decide
  split
  · decide
  split
  · decide
  split
  · decide
  split
  · decide
  split
  next h =>
    have hall : ∀ m : Fin 32, '\n' ∉ List.replicate (4 - (Nat.toDigits 16 m).length) '0' ++
        Nat.toDigits 16 m := by decide +kernel
    have hhex : '\n' ∉ (Text.hex 4 c.toNat).toList := by
      rw [Text.hex, String.toList_ofList]
      exact hall ⟨c.toNat, h⟩
    simp [hhex]
  next => simp [*, eq_comm]

theorem newline_printString (s : String) : '\n' ∉ (printString s).toList := by
  rw [toList_printString]
  simp [newline_escapeChar]

theorem newline_toDigits (n : Nat) : '\n' ∉ Nat.toDigits 10 n := by
  intro h
  exact ne_of_isDigit (isDigit_toDigits n '\n' h) (c := '\n') rfl rfl

theorem newline_printAtom {a : Atom} (h : atomPlain limit a = true) : '\n' ∉ (printAtom a).toList := by
  match a with
  | .null => simp [printAtom]
  | .bool true => simp [printAtom]
  | .bool false => simp [printAtom]
  | .int (.ofNat n) =>
    rw [printAtom, toList_ofNat]
    exact newline_toDigits n
  | .int (.negSucc n) =>
    rw [printAtom, toList_negSucc]
    simp [newline_toDigits]
  | .str s => exact newline_printString s

/-- Separators without a line break. -/
def Spacing.InLine (sp : Spacing) : Prop := '\n' ∉ sp.item.toList ∧ '\n' ∉ sp.member.toList

mutual

/-- The text of a plain value has no line break in it. -/
theorem newline_print (hsp : sp.InLine) : ∀ v : Value, isPlain limit v = true →
    '\n' ∉ (print sp v).toList
  | .atom _, h => newline_printAtom h
  | .list xs, h => by
    rw [toList_list]
    simp [newline_items hsp xs h]
  | .object ms, h => by
    rw [isPlain, Bool.and_eq_true] at h
    rw [toList_object]
    simp [newline_members hsp ms h.2]

theorem newline_items (hsp : sp.InLine) : ∀ xs : List Value, allPlain limit xs = true →
    '\n' ∉ itemsText sp xs
  | [], _ => by simp [itemsText, printItems]
  | [x], h => by
    rw [allPlain, Bool.and_eq_true] at h
    rw [itemsText_single]
    exact newline_print hsp x h.1
  | x :: y :: ys, h => by
    rw [allPlain, Bool.and_eq_true] at h
    have hx := newline_print hsp x h.1
    have hys := newline_items hsp (y :: ys) h.2
    simp [itemsText_cons, hx, hsp.1, hys]

theorem newline_members (hsp : sp.InLine) : ∀ ms : List (Atom × Value), membersPlain limit ms = true →
    '\n' ∉ membersText sp ms
  | [], _ => by simp [membersText, printMembers]
  | [(k, v)], h => by
    rw [membersPlain, Bool.and_eq_true, Bool.and_eq_true] at h
    obtain ⟨key, rfl⟩ := exists_text h.1.1
    have hv := newline_print hsp v h.1.2
    simp [membersText_single, memberText, newline_printString, hsp.2, hv]
  | (k, v) :: m :: ms, h => by
    rw [membersPlain, Bool.and_eq_true, Bool.and_eq_true] at h
    obtain ⟨key, rfl⟩ := exists_text h.1.1
    have hv := newline_print hsp v h.1.2
    have hms := newline_members hsp (m :: ms) h.2
    simp [membersText_cons, memberText, newline_printString, hsp.1, hsp.2, hv, hms]

end

end Harvest.Json
