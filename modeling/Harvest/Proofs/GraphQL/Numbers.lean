import Mathlib.Data.List.Basic
import Harvest.GraphQL.Literal.OfValue
import Harvest.Proofs.Data.Decimals
import Harvest.Proofs.GraphQL.Words

/-!
# Texts of numbers

Every number that is written into a document has the form of a number of the query language: integers in base
ten, integers that were given as texts, and finite doubles by their shortest decimal. A double loses the
fraction `.0` on the way and is then read as an integer; a text that is taken for an integer may end its line,
and the line end is no part of the number.

A numeral is taken apart into a sign, a whole part, a fraction and an exponent (`Token.Numeral`). For
integers in base ten the parts are at hand. For doubles they are found along the way in which the shortest
decimal is displayed: with zeros after its digits, with a point among them, with zeros before them, or with
an exponent. `exists_numeral_of_decimal` has one case for each, and needs only that the digits are no row of
zeros.
-/

namespace Harvest.GraphQL

namespace Token

/-! ## Numerals

Texts that are numbers, and the tokens that they are. -/

/-- Whether a text is a number. -/
def IsNumeral (text : String) : Prop := ∃ n : Numeral, n.IsProper ∧ n.chars = text.toList

/-- Whether a text is a number with neither a fraction nor an exponent. -/
def IsInteger (text : String) : Prop :=
  ∃ n : Numeral, n.IsProper ∧ n.fraction = none ∧ n.exponent = none ∧ n.chars = text.toList

/-- The token of a number: one without a point and without an exponent is an integer. -/
def ofNumeral (text : String) : Token :=
  if text.toList.any fun c => c = '.' ∨ c = 'e' then .float text else .int text

section Numeral

variable {n : Numeral} {ds : List Char} {text : String}

theorem IsDigits.not_mem (h : IsDigits ds) {c : Char} (hc : c.isDigit = false) : c ∉ ds := by
  intro hmem
  rw [h.2 c hmem] at hc
  cases hc

theorem Numeral.not_mem_sign {c : Char} (hc : c ≠ '-') (n : Numeral) : c ∉ n.sign := by
  rw [Numeral.sign]
  split
  · exact fun h => hc (List.mem_singleton.mp h)
  · exact List.not_mem_nil

/-- Which token a number is can be told from its text. -/
theorem Numeral.IsProper.token_eq (h : n.IsProper) : n.token = ofNumeral (String.ofList n.chars) := by
  have hdigits : ∀ c ∈ n.whole, (decide (c = '.' ∨ c = 'e')) = false := by
    intro c hc
    have hdigit := h.whole.1.2 c hc
    rw [decide_eq_false_iff_not]
    rintro (rfl | rfl) <;> exact absurd hdigit (by decide)
  have hsign : n.sign.any (fun c => c = '.' ∨ c = 'e') = false := by
    rw [Numeral.sign]
    split <;> decide
  have hwhole : n.whole.any (fun c => c = '.' ∨ c = 'e') = false := by
    rw [List.any_eq_false]
    exact fun c hc => Bool.eq_false_iff.mp (hdigits c hc)
  rw [Numeral.token, ofNumeral, String.toList_ofList, Numeral.chars]
  simp only [List.any_append, hsign, hwhole, Bool.false_or]
  rw [Numeral.fractionText, Numeral.exponentText]
  cases n.fraction <;> cases n.exponent <;> simp

/-- **A text that is a number is read as one.** -/
theorem IsNumeral.word (h : IsNumeral text) : Word (ofNumeral text) text.toList := by
  obtain ⟨n, hn, hchars⟩ := h
  have hword := hn.word
  rwa [hn.token_eq, hchars, String.ofList_toList] at hword

theorem IsInteger.isNumeral (h : IsInteger text) : IsNumeral text := by
  obtain ⟨n, hn, -, -, hchars⟩ := h
  exact ⟨n, hn, hchars⟩

/-- The token of an integer is an integer. -/
theorem IsInteger.ofNumeral_eq (h : IsInteger text) : ofNumeral text = .int text := by
  obtain ⟨n, hn, hfraction, hexponent, hchars⟩ := h
  have htoken := hn.token_eq
  rw [Numeral.token, hfraction, hexponent, hchars, String.ofList_toList] at htoken
  exact htoken.symm

theorem IsInteger.word (h : IsInteger text) : Word (.int text) text.toList :=
  h.ofNumeral_eq ▸ h.isNumeral.word

theorem isInteger_of_whole (negative : Bool) (h : IsWhole ds)
    (htext : text.toList = (if negative then ['-'] else []) ++ ds) : IsInteger text := by
  refine ⟨⟨negative, ds, none, none⟩, ⟨h, by rintro _ ⟨⟩, by rintro _ ⟨⟩⟩, rfl, rfl, ?_⟩
  rw [htext, Numeral.chars, Numeral.sign]
  simp [Numeral.fractionText, Numeral.exponentText]

end Numeral

/-! ## Integers

Integers come from the numbers of the language in which a filter is given, or from texts that look like
integers. Only the latter may have a line end after them. -/

section Integers

variable {text : String} {n : Nat}

theorem isDigits_toDigits (n : Nat) : IsDigits (Nat.toDigits 10 n) :=
  ⟨Nat.toDigits_ne_nil, Json.isDigit_toDigits n⟩

/-- The decimal digits of a number begin with a zero only if there is no other digit. -/
theorem isWhole_toDigits (n : Nat) : IsWhole (Nat.toDigits 10 n) := by
  refine ⟨isDigits_toDigits n, fun hzero => ?_⟩
  rcases Nat.eq_zero_or_pos n with rfl | hn
  · rfl
  · exact absurd hzero (Json.head?_toDigits_ne_zero hn)

theorem isInteger_natRepr (n : Nat) : IsInteger (toString n) :=
  isInteger_of_whole false (isWhole_toDigits n) (Json.toList_natRepr n)

theorem isInteger_intRepr (i : Int) : IsInteger (toString i) := by
  cases i with
  | ofNat n => exact isInteger_natRepr n
  | negSucc n => exact isInteger_of_whole true (isWhole_toDigits (n + 1)) (Json.toList_negSucc n)

/-! ### Texts that are taken for integers

A text stands for an integer if its digits do, and the test for this passes over a line end behind them. The
printed text keeps the line end, while reading leaves it out. -/

/-- Characters without a line end after them. -/
def withoutEnd (cs : List Char) : List Char := if cs.getLast? = some '\n' then cs.dropLast else cs

/-- The text of an integer as it is read: a line end after it is no part of it. -/
def withoutLineEnd (text : String) : String := String.ofList (withoutEnd text.toList)

/-- A text is its integer, or its integer with a line end after it. -/
theorem withoutLineEnd_cases (text : String) :
    withoutLineEnd text = text ∨ text.toList = (withoutLineEnd text).toList ++ ['\n'] := by
  unfold withoutLineEnd withoutEnd
  split
  next h =>
    right
    rw [String.toList_ofList]
    exact (List.dropLast_append_getLast? '\n' h).symm
  next => exact .inl String.ofList_toList

theorem IsInteger.withoutLineEnd_eq (h : IsInteger text) : withoutLineEnd text = text := by
  unfold withoutLineEnd withoutEnd
  rw [if_neg fun hlast => h.word.inLine (List.mem_of_getLast? hlast), String.ofList_toList]

/-- The digits of an integer are what follows its sign. -/
def unsigned : List Char → List Char
  | '-' :: ds => ds
  | ds => ds

theorem withoutEnd_eq (cs : List Char) : withoutEnd cs = match cs.getLast? with
    | some '\n' => cs.dropLast
    | _ => cs := by
  unfold withoutEnd
  split
  next hlast =>
    split
    next => rfl
    next hno => exact absurd hlast hno
  next hlast =>
    split
    next hnewline => exact absurd hnewline hlast
    next => rfl

/-- Whether a text is taken for an integer is seen from its digits alone. -/
theorem isIntegerText_eq (text : String) : Literal.isIntegerText text =
    match withoutEnd (unsigned text.toList) with
    | [] => false
    | ['0'] => true
    | c :: ds => c != '0' && c.isDigit && ds.all Char.isDigit := by
  rw [withoutEnd_eq]
  rfl

/-- A text that is taken for an integer is one up to a line end. -/
theorem isInteger_of_isIntegerText (h : Literal.isIntegerText text = true) :
    IsInteger (withoutLineEnd text) := by
  rw [isIntegerText_eq] at h
  -- the digits behind the sign and before the line end are a whole number
  have hwhole : IsWhole (withoutEnd (unsigned text.toList)) := by
    split at h
    next => cases h
    next hzero =>
      rw [hzero]
      exact isWhole_single (by decide)
    next c ds _ hcons =>
      simp only [Bool.and_eq_true, bne_iff_ne, List.all_eq_true] at h
      obtain ⟨⟨hc, hdigit⟩, hds⟩ := h
      rw [hcons]
      refine ⟨⟨List.cons_ne_nil _ _, ?_⟩, fun hhead => absurd (Option.some.inj hhead) hc⟩
      intro d hd
      rcases List.mem_cons.mp hd with rfl | hd
      · exact hdigit
      · exact hds d hd
  unfold unsigned at hwhole
  split at hwhole
  next ds hsign =>
    refine isInteger_of_whole true hwhole ?_
    rw [withoutLineEnd, String.toList_ofList, hsign]
    have hds : ds ≠ [] := by
      rintro rfl
      exact hwhole.1.1 rfl
    unfold withoutEnd
    rw [List.getLast?_cons_of_ne_nil hds, List.dropLast_cons_of_ne_nil hds]
    split <;> rfl
  next => exact isInteger_of_whole false hwhole String.toList_ofList

end Integers

/-! ## Doubles

The display of a decimal puts the point and the zeros where they belong; the parts stay digits throughout. -/

section Doubles

open Double (Decimal)

/-- Digits with digits after them are digits. -/
theorem IsDigits.append {ds es : List Char} (h : IsDigits ds) (he : ∀ c ∈ es, c.isDigit = true) :
    IsDigits (ds ++ es) := by
  refine ⟨List.append_ne_nil_of_left_ne_nil h.1 es, fun c hc => ?_⟩
  rcases List.mem_append.mp hc with hc | hc
  · exact h.2 c hc
  · exact he c hc

theorem isDigit_zeros {n : Nat} : ∀ c ∈ List.replicate n '0', c.isDigit = true := by
  intro c hc
  rw [List.eq_of_mem_replicate hc]
  rfl

/-- Digits padded with zeros are a whole part, unless they are a zero themselves. -/
theorem IsWhole.pad {ds : List Char} {n : Nat} (h : IsWhole ds) (hn : n ≠ 0 → ds ≠ ['0']) :
    IsWhole (ds ++ List.replicate n '0') := by
  refine ⟨h.1.append isDigit_zeros, fun hhead => ?_⟩
  rw [List.head?_append_of_ne_nil _ h.1.1] at hhead
  have hzero : ds = ['0'] := h.2 hhead
  have hn0 : n = 0 := by
    by_contra hne
    exact hn hne hzero
  rw [hn0, hzero]
  rfl

/-- The first digits of a whole part are a whole part. -/
theorem IsWhole.take {ds : List Char} {n : Nat} (h : IsWhole ds) (hn : 0 < n) : IsWhole (ds.take n) := by
  obtain ⟨d, ds', rfl⟩ := List.exists_cons_of_ne_nil h.1.1
  obtain ⟨n, rfl⟩ := Nat.exists_eq_succ_of_ne_zero (Nat.ne_of_gt hn)
  refine ⟨⟨List.cons_ne_nil _ _, fun c hc => h.1.2 c (List.mem_of_mem_take hc)⟩, fun hhead => ?_⟩
  rw [h.2 hhead]
  exact List.take_of_length_le (Nat.succ_le_succ (Nat.zero_le n))

/-- What is left of digits is digits, if something is left. -/
theorem IsDigits.drop {ds : List Char} {n : Nat} (h : IsDigits ds) (hn : n < ds.length) :
    IsDigits (ds.drop n) := by
  refine ⟨?_, fun c hc => h.2 c (List.mem_of_mem_drop hc)⟩
  rw [← List.length_pos_iff, List.length_drop]
  omega

/-! ### Displayed doubles

A double is displayed with a point or an exponent, depending on where its point falls among its digits. The
cases below are those of the display: zeros before the digits, zeros after them, a point between them, or an
exponent. -/

/-- A decimal is a number, unless its digits are a row of zeros. -/
theorem exists_numeral_of_decimal {d : Decimal} (h : 2 ≤ d.point → d.point ≤ 16 → d.digits ≠ 0) :
    ∃ n : Numeral, n.IsProper ∧ n.negative = false ∧ n.chars = d.display.toList := by
  obtain ⟨ds, hds⟩ : ∃ ds, Nat.toDigits 10 d.digits = ds := ⟨_, rfl⟩
  have hwhole : IsWhole ds := hds ▸ isWhole_toDigits d.digits
  have hpos : 0 < ds.length := List.length_pos_of_ne_nil hwhole.1.1
  have htext : (Double.digitsOf d.digits).toList = ds := hds ▸ Json.toList_natRepr d.digits
  have hlength : (Double.digitsOf d.digits).length = ds.length := by rw [← String.length_toList, htext]
  unfold Decimal.display
  dsimp only
  rw [hlength, htext]
  split
  next hplace =>
    split
    next hsmall =>
      refine ⟨⟨false, ['0'], some (List.replicate (-d.point).toNat '0' ++ ds), none⟩,
        ⟨isWhole_single rfl, ?_, by rintro _ ⟨⟩⟩, rfl, ?_⟩
      · rintro es ⟨⟩
        refine ⟨List.append_ne_nil_of_right_ne_nil _ hwhole.1.1, fun c hc => ?_⟩
        exact (List.mem_append.mp hc).elim (isDigit_zeros c) (hwhole.1.2 c)
      · simp [Numeral.chars, Numeral.sign, Numeral.fractionText, Numeral.exponentText, Double.zeros, htext]
    next hlarge =>
      split
      next hcount =>
        refine ⟨⟨false, ds ++ List.replicate (d.point - ds.length).toNat '0', some ['0'], none⟩,
          ⟨hwhole.pad ?_, ?_, by rintro _ ⟨⟩⟩, rfl, ?_⟩
        · -- digits that are a zero alone need no padding: the point stands right behind them
          intro hzeros hzero
          have hne : d.digits ≠ 0 := h (by omega) hplace.2
          refine absurd ?_ (Json.head?_toDigits_ne_zero (Nat.pos_of_ne_zero hne))
          rw [hds, hzero]
          rfl
        · rintro es ⟨⟩
          exact (isWhole_single (by decide)).1
        · simp [Numeral.chars, Numeral.sign, Numeral.fractionText, Numeral.exponentText, Double.zeros, htext]
      next hcount =>
        refine ⟨⟨false, ds.take d.point.toNat, some (ds.drop d.point.toNat), none⟩,
          ⟨hwhole.take (by omega), ?_, by rintro _ ⟨⟩⟩, rfl, ?_⟩
        · rintro es ⟨⟩
          exact hwhole.1.drop (by omega)
        · simp [Numeral.chars, Numeral.sign, Numeral.fractionText, Numeral.exponentText]
  next =>
    obtain ⟨e, he⟩ : ∃ e, d.point - 1 = e := ⟨_, rfl⟩
    obtain ⟨es, hes⟩ : ∃ es, ds.drop 1 = es := ⟨_, rfl⟩
    have hexponent : (Double.digitsOf e.natAbs).toList = Nat.toDigits 10 e.natAbs := Json.toList_natRepr _
    rw [he, hes]
    refine ⟨⟨false, ds.take 1, if es.isEmpty then none else some es,
        some (if e < 0 then '-' else '+', List.replicate (2 - (Double.digitsOf e.natAbs).length) '0'
          ++ Nat.toDigits 10 e.natAbs)⟩, ⟨hwhole.take Nat.one_pos, ?_, ?_⟩, rfl, ?_⟩
    · intro fs hfs
      split at hfs
      next => cases hfs
      next hne =>
        cases hfs
        exact ⟨fun h => hne (List.isEmpty_iff.mpr h), fun c hc => hwhole.1.2 c (List.mem_of_mem_drop (hes ▸ hc))⟩
    · rintro x ⟨⟩
      refine ⟨?_, List.append_ne_nil_of_right_ne_nil _ (isDigits_toDigits _).1, fun c hc => ?_⟩
      · by_cases hneg : e < 0 <;> simp [hneg]
      · exact (List.mem_append.mp hc).elim (isDigit_zeros c) ((isDigits_toDigits _).2 c)
    · by_cases hneg : e < 0 <;> cases es <;>
        simp [Numeral.chars, Numeral.sign, Numeral.fractionText, Numeral.exponentText, Double.zeros, hexponent,
          hneg]

/-- There is no point in a number but the one before its fraction. -/
theorem Numeral.IsProper.point_not_mem {n : Numeral} (h : n.IsProper) :
    '.' ∉ n.sign ++ n.whole ∧ '.' ∉ n.exponentText := by
  refine ⟨fun hmem => ?_, ?_⟩
  · rcases List.mem_append.mp hmem with hmem | hmem
    · exact n.not_mem_sign (by decide) hmem
    · exact h.whole.1.not_mem (by decide) hmem
  · rw [Numeral.exponentText]
    cases he : n.exponent with
    | none => exact List.not_mem_nil
    | some x =>
        obtain ⟨hs, hds⟩ := h.exponent x he
        refine List.not_mem_cons_of_ne_of_not_mem (by decide)
          (List.not_mem_cons_of_ne_of_not_mem ?_ (hds.not_mem (by decide)))
        rcases hs with hs | hs <;> rw [hs] <;> decide

/-- What stands before the point of a number is one too. -/
theorem Numeral.IsProper.before_point {n : Numeral} (h : n.IsProper) {cs ds : List Char}
    (hchars : n.chars = cs ++ '.' :: ds) : ∃ m : Numeral, m.IsProper ∧ m.chars = cs := by
  obtain ⟨hwhole, hexponent⟩ := h.point_not_mem
  refine ⟨⟨n.negative, n.whole, none, none⟩, ⟨h.whole, by rintro _ ⟨⟩, by rintro _ ⟨⟩⟩, ?_⟩
  suffices hcs : n.sign ++ n.whole = cs by
    rw [← hcs]
    simp [Numeral.chars, Numeral.sign, Numeral.fractionText, Numeral.exponentText]
  rw [Numeral.chars, Numeral.fractionText] at hchars
  cases hf : n.fraction with
  | none =>
      have hmem : '.' ∈ n.sign ++ n.whole ++ n.exponentText := by
        rw [hf] at hchars
        have hchars' : n.sign ++ n.whole ++ n.exponentText = cs ++ '.' :: ds := by simpa using hchars
        rw [hchars']
        exact List.mem_append_right cs List.mem_cons_self
      exact absurd hmem (List.not_mem_append hwhole hexponent)
  | some es =>
      have hes : '.' ∉ es ++ n.exponentText :=
        List.not_mem_append ((h.fraction es hf).not_mem (by decide)) hexponent
      rw [hf] at hchars
      have hchars' : n.sign ++ n.whole ++ '.' :: (es ++ n.exponentText) = cs ++ '.' :: ds := by
        simpa using hchars
      exact ((List.append_cons_inj_of_notMem hwhole hes).mp hchars').1

/-- A finite double is displayed as a number. -/
theorem isNumeral_display {x : Double} (hformat : x.InFormat) (hfinite : x.isFinite = true) :
    IsNumeral x.display := by
  cases x with
  | nan => cases hfinite
  | infinity s => cases hfinite
  | finite s m e =>
      obtain ⟨n, hn, hnegative, hchars⟩ : ∃ n : Numeral, n.IsProper ∧ n.negative = false
          ∧ n.chars = (if m = 0 then "0.0" else (Double.shortest m e).display).toList := by
        split
        next =>
          refine ⟨⟨false, ['0'], some ['0'], none⟩, ⟨isWhole_single rfl, ?_, by rintro _ ⟨⟩⟩, rfl, rfl⟩
          rintro ds ⟨⟩
          exact (isWhole_single rfl).1
        next hm =>
          exact exists_numeral_of_decimal
            (Double.shortest_ne_zero (Nat.pos_of_ne_zero hm) hformat e)
      refine ⟨{ n with negative := s }, ⟨hn.whole, hn.fraction, hn.exponent⟩, ?_⟩
      rw [Double.display, String.toList_append, ← hchars]
      cases s <;> simp [Numeral.chars, Numeral.sign, Numeral.fractionText, Numeral.exponentText, hnegative]

/-- **The literal of a finite double is a number.** -/
theorem exists_numeral_of_double {x : Double} (hformat : x.InFormat) (hfinite : x.isFinite = true) :
    ∃ text, Literal.ofDouble x = .float text ∧ IsNumeral text := by
  have hdisplay := isNumeral_display hformat hfinite
  unfold Literal.ofDouble
  dsimp only
  split
  next hsuffix =>
    obtain ⟨n, hn, hchars⟩ := hdisplay
    obtain ⟨cs, hcs⟩ := List.isSuffixOf_iff_suffix.mp hsuffix
    have hpoint : n.chars = cs ++ '.' :: ['0'] := hchars.trans hcs.symm
    obtain ⟨m, hm, hmchars⟩ := hn.before_point hpoint
    refine ⟨_, rfl, m, hm, ?_⟩
    have hlength : x.display.length - 2 = cs.length := by
      rw [← String.length_toList, ← hcs, List.length_append]
      rfl
    rw [String.toList_ofList, hlength, ← hcs, List.take_left, hmchars]
  next => exact ⟨_, rfl, hdisplay⟩

end Doubles

end Token

end Harvest.GraphQL
