import Harvest.Proofs.GraphQL.LineEnds

/-!
# Reading texts back

A text that is kept in a file is read back with its line ends unified. `Token.scan_unifyLineEnds` says
that it has the same tokens then, and `Document.parse_unifyLineEnds` that it holds the same document.

Where a token is amiss the reason for it may change, as a message shows the character that is in the way.
So tokens are compared as `Token.blurred` shows them, which no successful parser tells from what they are.

Scanning takes one token after the other, so the two texts are compared token by token: the same token, and
what is left of the second text is what is left of the first with its line ends unified (`scanOne_unify`).
What is passed over between tokens may hold line ends and comments, and is shorter in the second text. Both
scans need fuel for their own text, which is why each lemma has two numbers.

From tokens to documents it is enough that parsers look at tokens one at a time: `Walks.blurred` is by
induction on how a parser is put together.

The proof of `Token.scanAll_unify` runs both scanners side by side with fuel of their own, since the text that
is read back can be shorter. Each of them has enough: a token takes at least one character
(`Token.scanOne_length_lt`).
-/

namespace Harvest.GraphQL

open Disk (unifyLineEnds)

namespace Token

variable {c : Char} {cs rest : List Char}

/-! ## Tokens

Strings were treated before; all other tokens hold no line end. -/

/-- A token that is no string starts with a character that says what it is. -/
theorem scanOne_plain (hquote : c ≠ '"') (hpoints : ∀ more, c :: cs ≠ '.' :: '.' :: '.' :: more) :
    scanOne (c :: cs) = match Punctuator.ofChar? c with
      | some p => .ok (.punct p, cs)
      | none =>
        if isNameStart c then
          .ok (.name (String.ofList ((c :: cs).takeWhile isNameContinue)),
            (c :: cs).dropWhile isNameContinue)
        else if c.isDigit then scanNumber [] (c :: cs)
        else if c = '-' then scanNumber ['-'] cs
        else if c = '\'' then .error .singleQuote
        else .error (.unexpectedCharacter c) :=
  scanOne.eq_5 c cs (fun _ h => absurd h hquote) hquote fun more h h' => hpoints more (by rw [h, h'])

theorem scanOne_unify (cs : List Char) :
    (scanOne (unifyLineEnds cs)).toOption = (scanOne cs).toOption.map (Prod.map id unifyLineEnds) := by
  cases cs with
  | nil => rfl
  | cons c cs =>
      by_cases hc : c = '\r'
      · obtain ⟨ds, hds⟩ := exists_unify_return cs
        rw [hc, hds]
        rfl
      · rw [unify_cons hc]
        -- the cases follow the scanner: quoted texts, the three points, and what one character decides
        by_cases hquote : c = '"'
        · subst hquote
          by_cases hblock : ∃ more, cs = '"' :: '"' :: more
          · obtain ⟨more, rfl⟩ := hblock
            rw [unify_cons (by decide), unify_cons (by decide)]
            exact (scanBlock_unifies [] []).eq more
          · rw [scanOne_quote fun more h => hblock ⟨more, h⟩, scanOne_quote]
            · exact scanString_unify (Nat.lt_succ_self _) (Nat.lt_succ_self _)
            · intro more h
              obtain ⟨more', hmore, -⟩ := of_unify_eq_append (w := ['"', '"']) (by decide) h
              exact hblock ⟨more', hmore⟩
        · by_cases hpoints : ∃ more, c :: cs = '.' :: '.' :: '.' :: more
          · obtain ⟨more, h⟩ := hpoints
            obtain ⟨rfl, rfl⟩ := List.cons.inj h
            rw [unify_cons (by decide), unify_cons (by decide)]
            rfl
          · have hsame : c :: unifyLineEnds cs = unifyLineEnds (c :: cs) := (unify_cons hc cs).symm
            rw [scanOne_plain hquote fun more h => hpoints ⟨more, h⟩, scanOne_plain hquote]
            · cases Punctuator.ofChar? c with
              | some p => rfl
              | none =>
                  dsimp only
                  split
                  next =>
                    rw [hsame, takeWhile_unify (by decide) (by decide),
                      dropWhile_unify (by decide) (by decide)]
                    rfl
                  next =>
                    split
                    next =>
                      rw [hsame]
                      exact (scanNumber_unifies []).eq (c :: cs)
                    next =>
                      split
                      next => exact (scanNumber_unifies ['-']).eq cs
                      next => split <;> rfl
            · intro more h
              rw [hsame] at h
              obtain ⟨more', hmore, -⟩ := of_unify_eq_append (w := ['.', '.', '.']) (by decide) h
              exact hpoints ⟨more', hmore⟩

/-! ### Lengths

A token takes characters from the text. Most of the cases follow from readers that leave no more than they
were given. -/

theorem scanDigits_length_lt {ds : List Char} (h : scanDigits cs = .ok (ds, rest)) :
    rest.length < cs.length := by
  cases cs with
  | nil => cases h
  | cons c cs =>
      rw [scanDigits] at h
      split at h
      next hc =>
        cases h
        rw [Json.afterDigits, List.dropWhile_cons_of_pos hc]
        exact Nat.lt_succ_of_le (List.dropWhile_suffix _).length_le
      next => cases h

theorem scanWhole_length_lt {ds : List Char} (h : scanWhole cs = .ok (ds, rest)) :
    rest.length < cs.length := by
  unfold scanWhole at h
  split at h
  next =>
    split at h
    next => cases h
    next =>
      cases h
      exact Nat.lt_succ_self _
  next => exact scanDigits_length_lt h

theorem scanNumber_length_lt {sign : List Char} {t : Token} (h : scanNumber sign cs = .ok (t, rest)) :
    rest.length < cs.length := by
  obtain ⟨⟨whole, cs₁⟩, h₁, h⟩ := bind_ok h
  obtain ⟨⟨fraction, cs₂⟩, h₂, h⟩ := bind_ok h
  obtain ⟨⟨exponent, cs₃⟩, h₃, h⟩ := bind_ok h
  have hlt := scanWhole_length_lt h₁
  have hfraction := scanFraction_unifies.length_le (congrArg Except.toOption h₂)
  have hexponent := scanExponent_unifies.length_le (congrArg Except.toOption h₃)
  have hrest : rest = cs₃ := by
    dsimp only at h
    split at h
    next =>
      split at h
      next => cases h
      next =>
        cases h
        rfl
    next =>
      cases h
      rfl
  rw [hrest]
  omega

theorem scanOne_length_lt {t : Token} (ht : t ≠ .eof) (h : scanOne cs = .ok (t, rest)) :
    rest.length < cs.length := by
  -- in every branch that gives a token at least one character has been taken
  unfold scanOne at h
  split at h
  next =>
    cases h
    exact absurd rfl ht
  next rest' =>
    have hle := (scanBlock_unifies [] []).length_le (congrArg Except.toOption h)
    simp only [List.length_cons]
    omega
  next rest' _ => exact Nat.lt_succ_of_le (scanString_length_le h)
  next rest' =>
    cases h
    simp only [List.length_cons]
    omega
  next c cs _ _ _ =>
    split at h
    next =>
      cases h
      exact Nat.lt_succ_self _
    next =>
      split at h
      next hc =>
        cases h
        rw [List.dropWhile_cons_of_pos (isNameContinue_of_start hc)]
        exact Nat.lt_succ_of_le (List.dropWhile_suffix _).length_le
      next =>
        split at h
        next => exact scanNumber_length_lt h
        next =>
          split at h
          next => exact Nat.lt_succ_of_le ((scanNumber_unifies _).length_le (congrArg Except.toOption h))
          next => split at h <;> cases h

/-! ### Whole texts -/

theorem skipIgnored_length_le (fuel : Nat) (cs : List Char) :
    (skipIgnored fuel cs).length ≤ cs.length := by
  induction fuel generalizing cs with
  | zero => exact Nat.le_refl _
  | succ fuel ih =>
      cases cs with
      | nil => exact Nat.le_refl _
      | cons c cs =>
          rw [skipIgnored]
          split
          next => exact Nat.le_succ_of_le (ih cs)
          next =>
            split
            next =>
              exact Nat.le_succ_of_le (Nat.le_trans (ih _) (List.dropWhile_suffix _).length_le)
            next => exact Nat.le_refl _

/-- What stands before a token is passed over when it is read back. -/
theorem skipIgnored_unify {fuel fuel' : Nat} (hfuel : cs.length ≤ fuel)
    (hfuel' : (unifyLineEnds cs).length ≤ fuel') :
    skipIgnored fuel' (unifyLineEnds cs) = unifyLineEnds (skipIgnored fuel cs) := by
  induction fuel generalizing fuel' cs with
  | zero =>
      rw [List.eq_nil_of_length_eq_zero (Nat.le_zero.mp hfuel)]
      cases fuel' <;> rfl
  | succ fuel ih =>
      cases cs with
      | nil => cases fuel' <;> rfl
      | cons c cs =>
          have hrest : cs.length ≤ fuel := Nat.le_of_succ_le_succ hfuel
          by_cases hc : c = '\r'
          · subst hc
            rw [skipIgnored, if_pos (by decide)]
            by_cases h : ∀ cs', cs ≠ '\n' :: cs'
            · rw [unify_return h] at hfuel' ⊢
              obtain ⟨fuel', rfl⟩ := Nat.exists_eq_add_of_le' (Nat.one_le_of_lt hfuel')
              rw [skipIgnored, if_pos (by decide)]
              exact ih hrest (Nat.le_of_succ_le_succ hfuel')
            · -- a line end of two characters is read back as one
              push Not at h
              obtain ⟨cs', rfl⟩ := h
              rw [unify_return_feed] at hfuel' ⊢
              exact ih hrest hfuel'
          · rw [unify_cons hc] at hfuel' ⊢
            obtain ⟨fuel', rfl⟩ := Nat.exists_eq_add_of_le' (Nat.one_le_of_lt hfuel')
            have hrest' : (unifyLineEnds cs).length ≤ fuel' := Nat.le_of_succ_le_succ hfuel'
            rw [skipIgnored, skipIgnored]
            split
            next => exact ih hrest hrest'
            next =>
              split
              next =>
                have hdrop := dropWhile_unify (p := fun c => !isLineEnd c) (by decide) (by decide) cs
                rw [hdrop]
                refine ih (Nat.le_trans (List.dropWhile_suffix _).length_le hrest) ?_
                rw [← hdrop]
                exact Nat.le_trans (List.dropWhile_suffix _).length_le hrest'
              next => exact (unify_cons hc cs).symm

/-- A token, without the reason why it is none. -/
def blurred : Token → Token
  | .bad _ => .bad .singleQuote
  | t => t

theorem scanAll_unify {fuel fuel' : Nat} {acc : List Token} (hfuel : cs.length < fuel)
    (hfuel' : (unifyLineEnds cs).length < fuel') :
    (scanAll fuel' acc (unifyLineEnds cs)).map blurred = (scanAll fuel acc cs).map blurred := by
  -- on the fuel of one side; both sides take the same number of tokens
  induction fuel generalizing fuel' acc cs with
  | zero => exact absurd hfuel (Nat.not_lt_zero _)
  | succ fuel ih =>
      obtain ⟨fuel', rfl⟩ := Nat.exists_eq_succ_of_ne_zero (Nat.ne_zero_of_lt hfuel')
      have hstart := skipIgnored_length_le cs.length cs
      have hstart' := skipIgnored_length_le (unifyLineEnds cs).length (unifyLineEnds cs)
      have hskip := skipIgnored_unify (Nat.le_refl cs.length) (Nat.le_refl (unifyLineEnds cs).length)
      have hone := scanOne_unify (skipIgnored cs.length cs)
      rw [hskip] at hstart'
      rw [scanAll, scanAll, hskip]
      cases h : scanOne (skipIgnored cs.length cs) with
      | error e =>
          cases h' : scanOne (unifyLineEnds (skipIgnored cs.length cs)) with
          | error e' => simp [blurred]
          | ok x =>
              rw [h, h'] at hone
              cases hone
      | ok x =>
          obtain ⟨t, rest⟩ := x
          rw [h] at hone
          have h' := eq_ok_of_toOption hone
          rw [h']
          by_cases ht : t = .eof
          · rw [ht]
            rfl
          · have hlt := scanOne_length_lt ht h
            have hlt' := scanOne_length_lt ht h'
            cases t with
            | eof => exact absurd rfl ht
            | _ => exact ih (by omega) (by omega)

/-- **The tokens of a text are those of the text that is read back.** -/
theorem scan_unifyLineEnds (text : String) :
    (scan (String.ofList (unifyLineEnds text.toList))).map blurred = (scan text).map blurred := by
  unfold scan
  rw [String.toList_ofList]
  exact scanAll_unify (Nat.lt_succ_self _) (Nat.lt_succ_self _)

end Token

/-! ## Documents

No parser can tell the two lists of tokens apart while it succeeds. -/

namespace Parser

variable {α : Type} {p : Parser α} {ts us ts' : List Token} {a : α}

theorem lookahead_iff {n : Nat} {t : Token} : lookahead n ts = .ok (t, ts')
    ↔ ts[n]?.getD .eof = t ∧ (∀ e, t ≠ .bad e) ∧ ts' = ts := by
  have heq : lookahead n ts = match ts[n]?.getD .eof with
      | .bad e => .error (.lexical e)
      | u => .ok (u, ts) := by
    unfold lookahead
    show (match ts[n]?.getD .eof with
      | .bad e => throw (.lexical e)
      | u => return u : Parser Token) ts = _
    cases ts[n]?.getD .eof <;> rfl
  rw [heq]
  cases ts[n]?.getD .eof with
  | bad e =>
      refine ⟨nofun, ?_⟩
      rintro ⟨rfl, hbad, -⟩
      exact absurd rfl (hbad e)
  | _ =>
      constructor
      · rintro ⟨⟩
        exact ⟨rfl, nofun, rfl⟩
      · rintro ⟨rfl, -, rfl⟩
        rfl

/-- A token that is one is known without the reasons why others are none. -/
theorem blurred_inj {t u : Token} (ht : ∀ e, t ≠ .bad e) (h : t.blurred = u.blurred) : u = t := by
  cases t with
  | bad e => exact absurd rfl (ht e)
  | _ =>
      cases u <;> cases h
      rfl

/-- A parser that walks along tokens goes the same way wherever it meets the same tokens. -/
theorem Walks.blurred (hp : Walks p) (h : p ts = .ok (a, ts'))
    (hts : ts.map Token.blurred = us.map Token.blurred) :
    ∃ us', p us = .ok (a, us') ∧ ts'.map Token.blurred = us'.map Token.blurred := by
  -- on how the parser is put together: only `lookahead` sees a token, and it refuses the blurred ones
  induction hp generalizing ts us ts' with
  | pure b =>
      cases h
      exact ⟨us, rfl, hts⟩
  | throw e => cases h
  | @bind _ _ p f hp hf ihp ihf =>
      obtain ⟨⟨b, ts₁⟩, hb, h⟩ := bind_ok h
      obtain ⟨us₁, hb', hts₁⟩ := ihp hb hts
      obtain ⟨us', h', hts'⟩ := ihf b h hts₁
      refine ⟨us', ?_, hts'⟩
      show (p us >>= fun x => f x.1 x.2) = _
      rw [hb']
      exact h'
  | lookahead n =>
      obtain ⟨hnext, hgood, rfl⟩ := lookahead_iff.mp h
      have hmap (vs : List Token) :
          (vs[n]?.getD .eof).blurred = (vs.map Token.blurred)[n]?.getD .eof := by
        rw [List.getElem?_map]
        exact (Option.getD_map Token.blurred .eof _).symm
      have hsame : a.blurred = (us[n]?.getD .eof).blurred := by
        rw [← hnext, hmap, hmap, hts]
      exact ⟨us, lookahead_iff.mpr ⟨blurred_inj hgood hsame, hgood, rfl⟩, hts⟩
  | advance =>
      cases h
      refine ⟨us.drop 1, rfl, ?_⟩
      rw [List.map_drop, List.map_drop, hts]

/-- What is read of a whole text is read of it when it is read back. -/
theorem runOn_unifyLineEnds {p : Nat → Parser α} (hp : ∀ fuel, Walks (p fuel)) {text : String}
    (h : runOn p text = .ok a) :
    runOn p (String.ofList (unifyLineEnds text.toList)) = .ok a := by
  have hscan := Token.scan_unifyLineEnds text
  have hlength : (Token.scan (String.ofList (unifyLineEnds text.toList))).length
      = (Token.scan text).length := by
    rw [← List.length_map Token.blurred, hscan, List.length_map]
  unfold runOn StateT.run' at h ⊢
  dsimp only
  rw [hlength]
  cases hrun : p ((Token.scan text).length + 1) (Token.scan text) with
  | error e =>
      simp only [hrun] at h
      cases h
  | ok x =>
      simp only [hrun] at h
      cases h
      obtain ⟨us', hrun', -⟩ := (hp _).blurred hrun hscan.symm
      rw [hrun']
      rfl

end Parser

/-- **A text that holds a document holds the same one when it is read back.** -/
theorem Document.parse_unifyLineEnds {text : String} {d : Document} (h : Document.parse text = .ok d) :
    Document.parse (String.ofList (unifyLineEnds text.toList)) = .ok d :=
  Parser.runOn_unifyLineEnds (fun _ => Parser.definitions_walks) h

end Harvest.GraphQL
