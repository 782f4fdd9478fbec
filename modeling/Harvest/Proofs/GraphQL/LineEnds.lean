import Harvest.Proofs.GraphQL.Words
import Harvest.Storage.Disk

/-!
# Line ends

A file gives a text back with its line ends unified. No token can tell: in a block string a line end of
any kind ends a line, and in no other token can one stand. `Unifies` says of a reader of characters that it
finds the same in a text with its line ends unified, and each function that reads a part of a token is one
of these readers: a number (`scanNumber_unifies`), a string (`scanString_unify`) or a block string
(`scanBlock_unifies`).

What is amiss may be another character when the text is read back. So the readings of a text are compared
up to their errors.

A carriage return alone, a line feed alone and both together are one line end each. Unifying them changes
the length of a text, and so the fuel with which it is read; the lemmas on strings therefore speak of any
fuel that is enough for each of the two texts.

`Unifies` is closed under the ways in which readers are put together: one after the other, one or the other,
and a choice by the first character, as long as no line end is of the kind that is asked for. Each scanner
is then shown to be such a reader along its definition.
-/

namespace Harvest.GraphQL

open Disk (unifyLineEnds)

namespace Token

variable {α β : Type} {c : Char} {cs rest : List Char} {p : Char → Bool}

/-! ## Characters

What unifying does at the beginning of a text. Only a carriage return is changed, and whether a line feed
comes after it decides how. -/

/-- Any character but a carriage return stays as it is. -/
theorem unify_cons (hc : c ≠ '\r') (cs : List Char) :
    unifyLineEnds (c :: cs) = c :: unifyLineEnds cs := by
  rw [unifyLineEnds]
  · exact fun cs' hc' => absurd hc' hc
  · exact hc

theorem unify_return_feed (cs : List Char) :
    unifyLineEnds ('\r' :: '\n' :: cs) = unifyLineEnds ('\n' :: cs) := by
  rw [unifyLineEnds, unify_cons (by decide)]

theorem unify_return (h : ∀ cs', cs ≠ '\n' :: cs') :
    unifyLineEnds ('\r' :: cs) = '\n' :: unifyLineEnds cs := by
  rw [unifyLineEnds]
  exact fun cs' hcs => h cs' hcs

/-- A carriage return is read back as a line feed, with whatever follows. -/
theorem exists_unify_return (cs : List Char) : ∃ ds, unifyLineEnds ('\r' :: cs) = '\n' :: ds := by
  by_cases h : ∀ cs', cs ≠ '\n' :: cs'
  · exact ⟨_, unify_return h⟩
  · push Not at h
    obtain ⟨cs', rfl⟩ := h
    exact ⟨_, (unify_return_feed cs').trans (unify_cons (by decide) cs')⟩

/-- A text that is read back with a character in front which is no line feed had it there. -/
theorem of_unify_eq_cons {ds : List Char} (hc : c ≠ '\n') (h : unifyLineEnds cs = c :: ds) :
    ∃ cs', cs = c :: cs' ∧ unifyLineEnds cs' = ds := by
  cases cs with
  | nil => cases h
  | cons d cs =>
      by_cases hd : d = '\r'
      · obtain ⟨ds', hds⟩ := exists_unify_return cs
        rw [hd, hds] at h
        exact absurd (List.head_eq_of_cons_eq h).symm hc
      · rw [unify_cons hd] at h
        obtain ⟨rfl, rfl⟩ := List.cons.inj h
        exact ⟨cs, rfl, rfl⟩

/-- A text that is read back with a word in front that has no line feed had it there. -/
theorem of_unify_eq_append {w ds : List Char} (hw : '\n' ∉ w) (h : unifyLineEnds cs = w ++ ds) :
    ∃ cs', cs = w ++ cs' ∧ unifyLineEnds cs' = ds := by
  induction w generalizing cs with
  | nil => exact ⟨cs, rfl, h⟩
  | cons c w ih =>
      obtain ⟨hc, hw⟩ := not_or.mp (List.mem_cons.not.mp hw)
      obtain ⟨cs₁, rfl, h₁⟩ := of_unify_eq_cons (Ne.symm hc) h
      obtain ⟨cs₂, rfl, h₂⟩ := ih hw h₁
      exact ⟨cs₂, rfl, h₂⟩

/-- A run of characters that are no line ends is not changed. -/
theorem takeWhile_unify (hfeed : p '\n' = false) (hreturn : p '\r' = false) (cs : List Char) :
    (unifyLineEnds cs).takeWhile p = cs.takeWhile p := by
  induction cs with
  | nil => rfl
  | cons c cs ih =>
      by_cases hc : c = '\r'
      · obtain ⟨ds, hds⟩ := exists_unify_return cs
        rw [hc, hds, List.takeWhile_cons_of_neg (by simp [hfeed]),
          List.takeWhile_cons_of_neg (by simp [hreturn])]
      · rw [unify_cons hc, List.takeWhile_cons, List.takeWhile_cons, ih]

/-- After such a run the line ends are unified as before it. -/
theorem dropWhile_unify (hfeed : p '\n' = false) (hreturn : p '\r' = false) (cs : List Char) :
    (unifyLineEnds cs).dropWhile p = unifyLineEnds (cs.dropWhile p) := by
  induction cs with
  | nil => rfl
  | cons c cs ih =>
      by_cases hc : c = '\r'
      · obtain ⟨ds, hds⟩ := exists_unify_return cs
        rw [hc, hds, List.dropWhile_cons_of_neg (by simp [hfeed]),
          List.dropWhile_cons_of_neg (by simp [hreturn]), hds]
      · rw [unify_cons hc, List.dropWhile_cons, List.dropWhile_cons, ih]
        split
        next => rfl
        next => exact (unify_cons hc cs).symm

/-! ## Readers

The rules by which readers are put together. -/

/-- What a reader makes of a text, and what it leaves of it, unless it fails. -/
abbrev Reader (α : Type) := List Char → Option (α × List Char)

/-- Whether a reader finds the same in a text that is read back, leaves the same of it but for the line
ends, and never leaves more than there was. -/
structure Unifies (F : Reader α) : Prop where
  eq (cs : List Char) : F (unifyLineEnds cs) = (F cs).map (Prod.map id unifyLineEnds)
  length_le {cs rest : List Char} {a : α} (h : F cs = some (a, rest)) : rest.length ≤ cs.length

namespace Unifies

/-! ### Putting readers together

The scanners are sequences and cases of smaller readers. A case may look at the first character only if it is
no line end; `Unifies.head` is the lemma for that. -/

theorem none : Unifies (fun _ => .none : Reader α) := ⟨fun _ => rfl, nofun⟩

theorem some (a : α) : Unifies fun cs => some (a, cs) where
  eq _ := rfl
  length_le := by
    rintro cs rest b ⟨⟩
    exact Nat.le_refl _

theorem congr {F G : Reader α} (hF : Unifies F) (h : ∀ cs, G cs = F cs) : Unifies G :=
  (funext h : G = F) ▸ hF

/-- Readers one after the other. -/
theorem bind {F : Reader α} {G : α → Reader β} (hF : Unifies F) (hG : ∀ a, Unifies (G a)) :
    Unifies fun cs => (F cs).bind fun x => G x.1 x.2 where
  eq cs := by
    rw [hF.eq]
    cases F cs with
    | none => rfl
    | some x => exact (hG x.1).eq x.2
  length_le := by
    intro cs rest b h
    obtain ⟨⟨a, cs₁⟩, ha, hb⟩ := Option.bind_eq_some_iff.mp h
    exact Nat.le_trans ((hG a).length_le hb) (hF.length_le ha)

/-- One reader or the other, by a condition that does not look at the text. -/
theorem ite {F G : Reader α} {q : Prop} [Decidable q] (hF : Unifies F) (hG : Unifies G) :
    Unifies fun cs => if q then F cs else G cs := by
  by_cases hq : q
  · simpa only [if_pos hq] using hF
  · simpa only [if_neg hq] using hG

/-- A reader that goes on in one way when the first character is of a kind that no line end is of, and in
another when it is not. -/
theorem head {F H : Reader α} {G : Char → Reader α} (q : Char → Prop) (hfeed : ¬q '\n')
    (hreturn : ¬q '\r') (hcons : ∀ c cs, q c → F (c :: cs) = G c cs)
    (helse : ∀ c cs, ¬q c → F (c :: cs) = H (c :: cs))
    (hG : ∀ c, q c → Unifies (G c)) (hH : Unifies H) (hnil : F [] = H []) : Unifies F where
  eq cs := by
    cases cs with
    | nil =>
        rw [hnil]
        exact hnil.trans (hH.eq [])
    | cons c cs =>
        by_cases hq : q c
        · have hc : c ≠ '\r' := fun hc => hreturn (hc ▸ hq)
          rw [unify_cons hc, hcons c _ hq, hcons c cs hq]
          exact (hG c hq).eq cs
        · have heq : F (unifyLineEnds (c :: cs)) = H (unifyLineEnds (c :: cs)) := by
            by_cases hc : c = '\r'
            · obtain ⟨ds, hds⟩ := exists_unify_return cs
              rw [hc, hds]
              exact helse '\n' ds hfeed
            · rw [unify_cons hc]
              exact helse c _ hq
          rw [heq, helse c cs hq]
          exact hH.eq (c :: cs)
  length_le := by
    intro cs rest a h
    cases cs with
    | nil => exact hH.length_le (hnil.symm.trans h)
    | cons c cs =>
        by_cases hq : q c
        · exact Nat.le_succ_of_le ((hG c hq).length_le ((hcons c cs hq).symm.trans h))
        · exact hH.length_le ((helse c cs hq).symm.trans h)

end Unifies

/-! ## Numbers

A number is read digit by digit; no line end is a digit, a point or an exponent. -/

/-- What a function that reads a text comes to, unless it fails. -/
abbrev reader (F : List Char → Except LexicalError (α × List Char)) : Reader α := fun cs =>
  (F cs).toOption

theorem toOption_bind {x : Except LexicalError α} {f : α → Except LexicalError β} :
    (x >>= f).toOption = x.toOption.bind fun a => (f a).toOption := by
  cases x <;> rfl

theorem toOption_ite {q : Prop} [Decidable q] (x y : Except LexicalError α) :
    (if q then x else y).toOption = if q then x.toOption else y.toOption :=
  apply_ite Except.toOption q x y

/-! ### Parts of a number -/

/-- Looking at digits and stepping over them. -/
theorem digits_unifies : Unifies fun cs => some (Json.digits cs, Json.afterDigits cs) where
  eq cs := by
    rw [Json.digits, Json.afterDigits, takeWhile_unify (by decide) (by decide),
      dropWhile_unify (by decide) (by decide)]
    rfl
  length_le := by
    rintro cs rest a ⟨⟩
    exact (List.dropWhile_suffix _).length_le

theorem toOption_scanDigits (c : Char) (cs : List Char) : (scanDigits (c :: cs)).toOption
    = if c.isDigit then some (Json.digits (c :: cs), Json.afterDigits (c :: cs)) else none :=
  toOption_ite ..

/-- One digit at least, and then as many as there are. -/
theorem scanDigits_unifies : Unifies (reader scanDigits) where
  eq cs := by
    cases cs with
    | nil => rfl
    | cons c cs =>
        by_cases hc : c = '\r'
        · obtain ⟨ds, hds⟩ := exists_unify_return cs
          rw [hc, hds]
          rfl
        · rw [reader, reader, unify_cons hc, toOption_scanDigits, toOption_scanDigits]
          split
          · rw [← unify_cons hc]
            exact digits_unifies.eq (c :: cs)
          · rfl
  length_le := by
    intro cs rest a h
    cases cs with
    | nil => cases h
    | cons c cs =>
        rw [reader, toOption_scanDigits] at h
        split at h
        · exact digits_unifies.length_le h
        · cases h

theorem scanWhole_unifies : Unifies (reader scanWhole) := by
  -- what stands after the zero is looked at once more: no digit may follow it
  have hzero : Unifies fun cs => reader scanWhole ('0' :: cs) := by
    refine .head (fun c => c.isDigit = true) (G := fun _ _ => none) (by decide) (by decide)
      (fun c cs hc => ?_) (fun c cs hc => ?_) (fun _ _ => .none) (.some ['0']) rfl
    · exact congrArg Except.toOption (if_pos hc)
    · exact congrArg Except.toOption (if_neg hc)
  refine .head (fun c => c = '0') (G := fun _ cs => reader scanWhole ('0' :: cs)) (by decide) (by decide)
    (fun c cs hc => ?_) (fun c cs hc => ?_) (fun _ _ => hzero) scanDigits_unifies rfl
  · rw [hc]
  · rw [reader, reader, scanWhole]
    exact fun _ _ h => absurd (List.head_eq_of_cons_eq h) hc

/-- A point and digits, if there is a point. -/
theorem scanFraction_unifies : Unifies (reader scanFraction) := by
  refine .head (fun c => c = '.')
    (G := fun _ cs => (reader scanDigits cs).bind fun x => some ('.' :: x.1, x.2)) (by decide) (by decide)
    (fun c cs hc => ?_) (fun c cs hc => ?_)
    (fun _ _ => scanDigits_unifies.bind fun ds => .some ('.' :: ds)) (.some []) rfl
  · subst hc
    exact toOption_bind
  · rw [reader, scanFraction]
    · rfl
    · exact fun _ h => absurd (List.head_eq_of_cons_eq h) hc

/-- An exponent with its sign, if there is one. -/
theorem scanExponent_unifies : Unifies (reader scanExponent) := by
  have hdigits (before : List Char) : Unifies fun cs =>
      (reader scanDigits cs).bind fun x => some (before ++ x.1, x.2) :=
    scanDigits_unifies.bind fun ds => .some (before ++ ds)
  -- a sign may stand before the digits
  have hsigned (e : Char) (he : e = 'e' ∨ e = 'E') : Unifies fun cs => reader scanExponent (e :: cs) := by
    refine .head (fun s => s = '+' ∨ s = '-') (G := fun s cs =>
        (reader scanDigits cs).bind fun x => some ([e, s] ++ x.1, x.2))
      (by decide) (by decide) (fun s cs hs => ?_) (fun s cs hs => ?_) (fun s _ => hdigits [e, s])
      (hdigits [e]) (congrArg Except.toOption (if_pos he))
    · rw [reader, scanExponent, if_pos he]
      exact (congrArg Except.toOption (if_pos hs)).trans toOption_bind
    · rw [reader, scanExponent, if_pos he]
      exact (congrArg Except.toOption (if_neg hs)).trans toOption_bind
  refine .head (fun e => e = 'e' ∨ e = 'E') (G := fun e cs => reader scanExponent (e :: cs)) (by decide)
    (by decide) (fun _ _ _ => rfl) (fun e cs he => ?_) hsigned (.some []) rfl
  exact congrArg Except.toOption (if_neg he)

/-- A number, unless a point or a name follows it. -/
def endNumber (t : Token) (cs : List Char) : Except LexicalError (Token × List Char) :=
  match cs with
  | c :: _ => if c = '.' ∨ isNameStart c then .error (.digitExpected (some c)) else return (t, cs)
  | [] => return (t, cs)

theorem endNumber_unifies (t : Token) : Unifies (reader (endNumber t)) := by
  refine .head (fun c => c = '.' ∨ isNameStart c = true) (G := fun _ _ => none) (by decide) (by decide)
    (fun c cs hc => ?_) (fun c cs hc => ?_) (fun _ _ => .none) (.some t) rfl
  · exact congrArg Except.toOption (if_pos hc)
  · exact congrArg Except.toOption (if_neg hc)

/-- A number is read alike before and after its line ends are unified. -/
theorem scanNumber_unifies (sign : List Char) : Unifies (reader (scanNumber sign)) := by
  have hall := scanWhole_unifies.bind fun whole => scanFraction_unifies.bind fun fraction =>
    scanExponent_unifies.bind fun exponent =>
      endNumber_unifies (if fraction.isEmpty && exponent.isEmpty then
        .int (String.ofList (sign ++ whole ++ fraction ++ exponent))
      else .float (String.ofList (sign ++ whole ++ fraction ++ exponent)))
  refine hall.congr fun cs => ?_
  simp only [reader, scanNumber, toOption_bind]
  rfl

/-! ## Strings

A string ends at its quote and may not hold a line end. Its escapes are read by the digits after them. -/

theorem bracedCode_unifies (limit count value : Nat) :
    Unifies fun cs => (bracedCode limit count value cs).1.map fun x => ((x.1, x.2.1), x.2.2) := by
  induction limit generalizing count value with
  | zero =>
      refine Unifies.none.congr fun cs => ?_
      cases cs <;> rfl
  | succ limit ih =>
      refine .head (fun c => c = '\x7d' ∨ (Text.hexValue? c).isSome = true)
        (G := fun c cs => if c = '\x7d' then some ((value, count + 1), cs) else
          (bracedCode limit (count + 1) (value * 16 + (Text.hexValue? c).getD 0) cs).1.map
            fun x => ((x.1, x.2.1), x.2.2))
        (by decide) (by decide) (fun c cs hc => ?_) (fun c cs hc => ?_)
        (fun c _ => .ite (.some _) (ih _ _)) .none rfl
      · rw [bracedCode]
        split
        next => rfl
        next hne =>
          obtain ⟨d, hd⟩ := Option.isSome_iff_exists.mp (hc.resolve_left hne)
          rw [hd]
          rfl
      · obtain ⟨hne, hhex⟩ := not_or.mp hc
        rw [bracedCode, if_neg hne, Option.not_isSome_iff_eq_none.mp hhex]
        rfl

/-- Reads a hexadecimal digit. -/
def scanHexDigit : Reader Nat
  | c :: cs => (Text.hexValue? c).map (·, cs)
  | [] => none

theorem scanHexDigit_unifies : Unifies scanHexDigit := by
  refine .head (fun c => (Text.hexValue? c).isSome = true)
    (G := fun c cs => some ((Text.hexValue? c).getD 0, cs)) (by decide) (by decide) (fun c cs hc => ?_)
    (fun c cs hc => ?_) (fun c _ => .some _) .none rfl
  · obtain ⟨d, hd⟩ := Option.isSome_iff_exists.mp hc
    rw [scanHexDigit, hd]
    rfl
  · rw [scanHexDigit, Option.not_isSome_iff_eq_none.mp hc]
    rfl

/-- Reads four hexadecimal digits. -/
def scanHex4 : Reader Nat
  | a :: b :: c :: d :: rest => (Json.hex4? a b c d).map (·, rest)
  | _ => none

theorem scanHex4_eq_none (h : ∀ a b c d rest, cs ≠ a :: b :: c :: d :: rest) : scanHex4 cs = none := by
  rw [scanHex4]
  exact fun a b c d rest hcs => h a b c d rest hcs

theorem scanHex4_unifies : Unifies scanHex4 := by
  have hall := scanHexDigit_unifies.bind fun a => scanHexDigit_unifies.bind fun b =>
    scanHexDigit_unifies.bind fun c => scanHexDigit_unifies.bind fun d =>
      .some (((a * 16 + b) * 16 + c) * 16 + d)
  refine hall.congr fun cs => ?_
  rcases cs with _ | ⟨a, _ | ⟨b, _ | ⟨c, _ | ⟨d, rest⟩⟩⟩⟩
  · rfl
  · cases ha : Text.hexValue? a <;> simp [scanHex4, scanHexDigit, ha]
  · cases ha : Text.hexValue? a <;> cases hb : Text.hexValue? b <;>
      simp [scanHex4, scanHexDigit, ha, hb]
  · cases ha : Text.hexValue? a <;> cases hb : Text.hexValue? b <;> cases hc : Text.hexValue? c <;>
      simp [scanHex4, scanHexDigit, ha, hb, hc]
  · cases ha : Text.hexValue? a <;> cases hb : Text.hexValue? b <;> cases hc : Text.hexValue? c <;>
      cases hd : Text.hexValue? d <;> simp [scanHex4, scanHexDigit, Json.hex4?, ha, hb, hc, hd]

/-- Reads the second of a pair of escapes, whose first one stands for the number `hi`. -/
def scanLowHalf (hi : Nat) : Reader Char
  | '\\' :: 'u' :: rest => (scanHex4 rest).bind fun x =>
      if 0xDC00 ≤ x.1 ∧ x.1 ≤ 0xDFFF then
        some (Char.ofNat (0x10000 + (hi - 0xD800) * 1024 + (x.1 - 0xDC00)), x.2)
      else none
  | _ => none

theorem scanLowHalf_unifies (hi : Nat) : Unifies (scanLowHalf hi) := by
  have hlow := scanHex4_unifies.bind fun lo => Unifies.ite (q := 0xDC00 ≤ lo ∧ lo ≤ 0xDFFF)
    (.some (Char.ofNat (0x10000 + (hi - 0xD800) * 1024 + (lo - 0xDC00)))) .none
  have hescape : Unifies fun cs => scanLowHalf hi ('\\' :: cs) := by
    refine .head (fun c => c = 'u') (G := fun _ => _) (by decide) (by decide) (fun c cs hc => ?_)
      (fun c cs hc => ?_) (fun _ _ => hlow) .none rfl
    · rw [hc]
      rfl
    · rw [scanLowHalf]
      exact fun _ h => absurd (List.head_eq_of_cons_eq (List.cons.inj h).2) hc
  refine .head (fun c => c = '\\') (G := fun _ => _) (by decide) (by decide) (fun c cs hc => ?_)
    (fun c cs hc => ?_) (fun _ _ => hescape) .none rfl
  · rw [hc]
  · rw [scanLowHalf]
    exact fun _ h => absurd (List.head_eq_of_cons_eq h) hc

/-- The second of a pair is read as the scanner does it, but for the complaint. -/
theorem scanLowHalf_eq (hi : Nat) (rest : List Char) (error : LexicalError) :
    (match rest with
      | '\\' :: 'u' :: e :: f :: g :: h :: rest =>
        match Json.hex4? e f g h with
        | some lo =>
          if 0xDC00 ≤ lo ∧ lo ≤ 0xDFFF then
            .ok (Char.ofNat (0x10000 + (hi - 0xD800) * 1024 + (lo - 0xDC00)), rest)
          else .error error
        | none => .error error
      | _ => .error error : Except LexicalError (Char × List Char)).toOption = scanLowHalf hi rest := by
  split
  next e f g h rest =>
    rw [scanLowHalf, scanHex4]
    cases Json.hex4? e f g h with
    | none => rfl
    | some lo => exact toOption_ite ..
  next hlow =>
    unfold scanLowHalf
    split
    next rest =>
      rw [scanHex4_eq_none]
      · rfl
      · rintro e f g h rest' rfl
        exact hlow e f g h rest' rfl
    next => rfl

/-! ### Escapes and strings -/

theorem scanUnicode_unifies (u : Char) : Unifies (reader fun cs => scanUnicode (u :: cs)) := by
  have hbraced := (bracedCode_unifies 9 2 0).bind fun x =>
    Unifies.ite (q := 4 ≤ x.2 ∧ isScalar x.1) (.some (Char.ofNat x.1)) .none
  have hplain := scanHex4_unifies.bind fun hi => Unifies.ite (q := isScalar hi = true)
    (.some (Char.ofNat hi)) (.ite (q := 0xDC00 ≤ hi) .none (scanLowHalf_unifies hi))
  -- a brace decides between the two forms of an escaped code point
  refine .head (fun c => c = '\x7b') (G := fun _ => _) (by decide) (by decide) (fun c cs hc => ?_)
    (fun c cs hc => ?_) (fun _ _ => hbraced) hplain rfl
  · subst hc
    rw [reader, scanUnicode]
    rcases bracedCode 9 2 0 cs with ⟨_ | ⟨n, count, rest⟩, k⟩
    · rfl
    · exact toOption_ite ..
  · unfold reader scanUnicode
    dsimp only
    split
    next h => exact absurd (List.cons.inj (List.cons.inj h).2).1 hc
    next a b d e rest _ h =>
      rw [(List.cons.inj h).2, scanHex4]
      cases Json.hex4? a b d e with
      | none => rfl
      | some hi =>
          dsimp only
          rw [toOption_ite, toOption_ite]
          exact ite_congr rfl (fun _ => rfl) fun _ => ite_congr rfl (fun _ => rfl) fun _ =>
            scanLowHalf_eq hi rest _
    next _ hshort =>
      rw [scanHex4_eq_none]
      · rfl
      · rintro a b d e rest heq
        exact hshort u a b d e rest (congrArg (List.cons u) heq)

/-- An escape is read alike, by whichever letter it begins with. -/
theorem scanEscape_unifies : Unifies (reader scanEscape) := by
  have hmap (x : Option Char) : Unifies fun cs => x.map (·, cs) := by
    cases x with
    | none => exact .none
    | some y => exact .some y
  refine .head (fun c => c = 'u' ∨ (Json.escaped? c).isSome = true)
    (G := fun c cs => if c = 'u' then (scanUnicode ('u' :: cs)).toOption else
      (Json.escaped? c).map (·, cs)) (by decide) (by decide) (fun c cs hc => ?_)
    (fun c cs hc => ?_) (fun c _ => .ite (scanUnicode_unifies 'u') (hmap _)) .none rfl
  · by_cases hu : c = 'u'
    · rw [if_pos hu, hu]
      rfl
    · rw [if_neg hu, reader, scanEscape]
      · cases Json.escaped? c <;> rfl
      · exact hu
  · obtain ⟨hu, hnone⟩ := not_or.mp hc
    rw [reader, scanEscape]
    · rw [Option.not_isSome_iff_eq_none.mp hnone]
      rfl
    · exact hu

/-- A string is read alike: a line end of either kind makes it fail. -/
theorem scanString_unify {fuel fuel' : Nat} {acc : List Char} (hfuel : cs.length < fuel)
    (hfuel' : (unifyLineEnds cs).length < fuel') :
    (scanString fuel' acc (unifyLineEnds cs)).toOption
      = (scanString fuel acc cs).toOption.map (Prod.map id unifyLineEnds) := by
  -- on the fuel: every step drops a character of both texts, an escape the same characters of both
  induction fuel generalizing fuel' acc cs with
  | zero => exact absurd hfuel (Nat.not_lt_zero _)
  | succ fuel ih =>
      obtain ⟨fuel', rfl⟩ := Nat.exists_eq_succ_of_ne_zero (Nat.ne_zero_of_lt hfuel')
      cases cs with
      | nil => rfl
      | cons c cs =>
          by_cases hc : c = '\r'
          · obtain ⟨ds, hds⟩ := exists_unify_return cs
            rw [hc, hds]
            rfl
          · rw [unify_cons hc] at hfuel' ⊢
            have hrest : cs.length < fuel := Nat.lt_of_succ_lt_succ hfuel
            have hrest' : (unifyLineEnds cs).length < fuel' := Nat.lt_of_succ_lt_succ hfuel'
            rw [scanString, scanString]
            split
            next => rfl
            next =>
              split
              next =>
                have heq := scanEscape_unifies.eq cs
                cases he : scanEscape cs with
                | error e =>
                    cases he' : scanEscape (unifyLineEnds cs) with
                    | error e' => rfl
                    | ok x =>
                        rw [reader, reader, he, he'] at heq
                        cases heq
                | ok x =>
                    rw [reader, reader, he] at heq
                    have he' := eq_ok_of_toOption heq
                    rw [he']
                    exact ih (Nat.lt_of_le_of_lt (scanEscape_unifies.length_le (congrArg _ he)) hrest)
                      (Nat.lt_of_le_of_lt (scanEscape_unifies.length_le heq) hrest')
              next =>
                split
                next => rfl
                next => exact ih hrest hrest'

/-- A string takes characters and gives none back. -/
theorem scanString_length_le {fuel : Nat} {acc : List Char} {t : Token}
    (h : scanString fuel acc cs = .ok (t, rest)) : rest.length ≤ cs.length := by
  induction fuel generalizing acc cs with
  | zero => cases h
  | succ fuel ih =>
      cases cs with
      | nil => cases h
      | cons c cs =>
          rw [scanString] at h
          refine Nat.le_succ_of_le ?_
          split at h
          next =>
            cases h
            exact Nat.le_refl _
          next =>
            split at h
            next =>
              split at h
              next he =>
                exact Nat.le_trans (ih h) (scanEscape_unifies.length_le (congrArg Except.toOption he))
              next => cases h
            next =>
              split at h
              next => cases h
              next => exact ih h

/-! ## Block strings

Here line ends are allowed. Each of the three forms ends the line that is being read. -/

theorem scanBlock_feed (lines : List (List Char)) (line cs : List Char) :
    scanBlock lines line ('\n' :: cs) = scanBlock (line.reverse :: lines) [] cs := by
  rw [scanBlock]
  · rfl
  all_goals rintro _ ⟨⟩

/-- A block string has the same lines before and after its line ends are unified. -/
theorem scanBlock_unifies (lines : List (List Char)) (line : List Char) :
    Unifies (reader (scanBlock lines line)) where
  eq cs := by
    dsimp only [reader]
    induction lines, line, cs using scanBlock.induct with
    | case1 lines line rest =>
        repeat rw [unify_cons (by decide)]
        rw [scanBlock, scanBlock]
        rfl
    | case2 lines line rest ih =>
        repeat rw [unify_cons (by decide)]
        rw [scanBlock, scanBlock]
        exact ih
    | case3 lines line rest ih =>
        rw [unify_return_feed, unify_cons (by decide), scanBlock_feed, scanBlock]
        exact ih
    | case4 lines line c rest h1 h2 h3 hend ih =>
        have hunify : unifyLineEnds (c :: rest) = '\n' :: unifyLineEnds rest := by
          by_cases hc : c = '\r'
          · rw [hc, unify_return fun cs' hcs => h3 cs' hc hcs]
          · obtain rfl : c = '\n' := by simpa [isLineEnd, hc] using hend
            exact unify_cons (by decide) rest
        rw [hunify, scanBlock_feed, scanBlock, if_pos hend]
        · exact ih
        all_goals assumption
    | case5 lines line c rest h1 h2 h3 hend ih =>
        have hc : c ≠ '\r' := by
          rintro rfl
          exact hend rfl
        -- what does not end the string does not end it when it is read back
        rw [unify_cons hc, scanBlock, scanBlock, if_neg hend, if_neg hend]
        · exact ih
        · exact h1
        · exact h2
        · exact h3
        · intro ds hquote h
          obtain ⟨rest', rfl, -⟩ := of_unify_eq_append (w := ['"', '"']) (by decide) h
          exact h1 rest' hquote rfl
        · intro ds hslash h
          obtain ⟨rest', rfl, -⟩ := of_unify_eq_append (w := ['"', '"', '"']) (by decide) h
          exact h2 rest' hslash rfl
        · exact fun _ hreturn _ => hc hreturn
    | case6 lines line =>
        rfl
  length_le := by
    intro cs rest t h
    dsimp only [reader] at h
    induction lines, line, cs using scanBlock.induct with
    | case1 lines line rest' =>
        rw [scanBlock] at h
        cases h
        simp only [List.length_cons]
        omega
    | case2 lines line rest' ih =>
        rw [scanBlock] at h
        have hrest := ih h
        simp only [List.length_cons]
        omega
    | case3 lines line rest' ih =>
        rw [scanBlock] at h
        have hrest := ih h
        simp only [List.length_cons]
        omega
    | case4 lines line c rest' h1 h2 h3 hend ih =>
        rw [scanBlock, if_pos hend] at h
        · exact Nat.le_succ_of_le (ih h)
        all_goals assumption
    | case5 lines line c rest' h1 h2 h3 hend ih =>
        rw [scanBlock, if_neg hend] at h
        · exact Nat.le_succ_of_le (ih h)
        all_goals assumption
    | case6 lines line => cases h

end Token

end Harvest.GraphQL
