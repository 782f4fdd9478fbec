import Harvest.Data.Yaml.Printer
import Harvest.Proofs.Data.Json
import Mathlib.Data.List.SplitBy

/-!
# The characters of rendered texts

Whatever an object holds, `Yaml.render` writes printable ASCII characters and line feeds: all others have
an escape, and a text that needs one is written between double quotes. So a rendered text has line feeds
as its only line ends.

The argument follows the renderer. A piece of text is `Ordinary` if all its characters may stand as they
are, a page is `Page.IsOrdinary` if what has been written on it so far is, and every operation of the page
keeps this. What remains is that each piece is ordinary by itself: numbers, dates and bytes by what their
digits are, texts because the style that is chosen for them either needs no escape or writes all of them.

The last theorem, `render_ordinary`, is what reading back relies on: a text without carriage returns is not
changed by a file that unifies line ends.
-/

namespace Harvest.Yaml

open Text

/-- Whether characters may stand in a rendered text as they are. -/
def Ordinary (cs : List Char) : Prop := ∀ c ∈ cs, Scalar.isSpecial c = false

instance (cs : List Char) : Decidable (Ordinary cs) := List.decidableBAll _ cs

section Ordinary

variable {c : Char} {cs ds : List Char}

theorem ordinary_nil : Ordinary [] := nofun

theorem ordinary_cons : Ordinary (c :: cs) ↔ Scalar.isSpecial c = false ∧ Ordinary cs :=
  List.forall_mem_cons

theorem ordinary_append : Ordinary (cs ++ ds) ↔ Ordinary cs ∧ Ordinary ds := List.forall_mem_append

theorem Ordinary.of_subset (h : Ordinary ds) (hs : cs ⊆ ds) : Ordinary cs := fun c hc => h c (hs hc)

theorem ordinary_replicate (n : Nat) (h : Scalar.isSpecial c = false) :
    Ordinary (List.replicate n c) := fun _ hd => List.eq_of_mem_replicate hd ▸ h

theorem isSpecial_of_printable (h : (' ' ≤ c && c ≤ '~') = true) : Scalar.isSpecial c = false := by
  rw [Scalar.isSpecial, h]
  exact Bool.and_false _

theorem Ordinary.no_return (h : Ordinary cs) : '\r' ∉ cs := fun hr => nomatch h _ hr

end Ordinary

/-! ### Numbers, dates and bytes

All that is written of them are digits, signs and letters of ASCII. -/

/-- The digits of a number come from the digits of its base. -/
theorem mem_toDigits {b : Nat} (hb : 1 < b) {n : Nat} {c : Char} (h : c ∈ Nat.toDigits b n) :
    ∃ m < b, c = Nat.digitChar m := by
  induction n using Nat.strongRecOn with
  | ind n ih =>
      rw [Nat.toDigits_eq_if hb] at h
      split at h
      next hn => exact ⟨n, hn, List.mem_singleton.mp h⟩
      next hn =>
        rcases List.mem_append.mp h with h | h
        · exact ih _ (Nat.div_lt_self (by omega) hb) h
        · exact ⟨n % b, Nat.mod_lt n (by omega), List.mem_singleton.mp h⟩

/-- The digits of a number are ordinary, in every base up to sixteen. -/
theorem ordinary_toDigits {b : Nat} (hb : 1 < b) (hb16 : b ≤ 16) (n : Nat) :
    Ordinary (Nat.toDigits b n) := by
  intro c hc
  obtain ⟨m, hm, rfl⟩ := mem_toDigits hb hc
  have hall : ∀ m : Fin 16, Scalar.isSpecial (Nat.digitChar m) = false := by decide
  exact hall ⟨m, by omega⟩

theorem ordinary_natRepr (n : Nat) : Ordinary (toString n).toList := by
  rw [Json.toList_natRepr]
  exact ordinary_toDigits (by decide) (by decide) n

/-- An integer is written with digits and perhaps a sign. -/
theorem ordinary_intRepr (i : Int) : Ordinary (toString i).toList := by
  have hdigits := ordinary_toDigits (b := 10) (by decide) (by decide)
  cases i with
  | ofNat n =>
      rw [Json.toList_ofNat]
      exact hdigits n
  | negSucc n =>
      rw [Json.toList_negSucc]
      exact ordinary_cons.mpr ⟨by decide, hdigits (n + 1)⟩

theorem ordinary_hex (width n : Nat) : Ordinary (hex width n).toList := by
  rw [hex, String.toList_ofList]
  exact ordinary_append.mpr
    ⟨ordinary_replicate _ (by decide), ordinary_toDigits (by decide) (by decide) n⟩

/-- The number of a character, after what introduces it. -/
theorem ordinary_append_hex {s : String} (hs : Ordinary s.toList) (width n : Nat) :
    Ordinary (s ++ hex width n).toList := by
  rw [String.toList_append]
  exact ordinary_append.mpr ⟨hs, ordinary_hex width n⟩

theorem ordinary_capitalHex (width n : Nat) : Ordinary (capitalHex width n) := by
  intro c hc
  obtain ⟨d, hd, rfl⟩ := List.mem_map.mp hc
  rw [hex, String.toList_ofList] at hd
  rcases List.mem_append.mp hd with hd | hd
  · rw [List.eq_of_mem_replicate hd]
    decide
  · obtain ⟨m, hm, rfl⟩ := mem_toDigits (by decide) hd
    have hall : ∀ m : Fin 16, Scalar.isSpecial (Nat.digitChar m).toUpper = false := by decide
    exact hall ⟨m, hm⟩

theorem ordinary_zeros (n : Nat) : Ordinary (Double.zeros n).toList := by
  rw [Double.zeros, String.toList_ofList]
  exact ordinary_replicate n (by decide)

/-- A decimal is written with digits, a point, and an exponent where it needs one. -/
theorem ordinary_decimal (d : Double.Decimal) : Ordinary d.display.toList := by
  have hds := ordinary_natRepr d.digits
  have htake (n : Nat) := hds.of_subset (List.take_subset n _)
  have hdrop (n : Nat) := hds.of_subset (List.drop_subset n _)
  have hexp := ordinary_natRepr (d.point - 1).natAbs
  unfold Double.Decimal.display Double.digitsOf
  dsimp only
  split
  · split
    · simp only [String.toList_append, ordinary_append]
      exact ⟨⟨by decide, ordinary_zeros _⟩, hds⟩
    · split
      · simp only [String.toList_append, ordinary_append]
        exact ⟨⟨hds, ordinary_zeros _⟩, by decide⟩
      · simp only [String.toList_append, String.toList_ofList, ordinary_append]
        exact ⟨⟨htake _, by decide⟩, hdrop _⟩
  · simp only [String.toList_append, String.toList_ofList, ordinary_append]
    refine ⟨⟨⟨⟨htake 1, ?_⟩, ?_⟩, ordinary_zeros _⟩, hexp⟩
    · split
      · exact ordinary_nil
      · simp only [String.toList_append, String.toList_ofList, ordinary_append]
        exact ⟨by decide, hdrop 1⟩
    · split <;> decide

/-- A double is written as its decimal or as one of three words. -/
theorem ordinary_double (x : Double) : Ordinary x.display.toList := by
  match x with
  | .nan => decide
  | .infinity false => decide
  | .infinity true => decide
  | .finite s m e =>
    rw [Double.display, String.toList_append, ordinary_append]
    refine ⟨by cases s <;> decide, ?_⟩
    split
    · decide
    · exact ordinary_decimal _

theorem ordinary_padded (width n : Nat) : Ordinary (padded width n).toList := by
  rw [padded, String.toList_append, ordinary_append]
  exact ⟨ordinary_zeros _, ordinary_natRepr n⟩

theorem ordinary_date (d : Date) : Ordinary d.display.toList := by
  simp only [Date.display, String.toList_append, ordinary_append, ordinary_padded, true_and, and_true]
  decide

theorem ordinary_zone (minutes : Int) : Ordinary (Timestamp.displayZone minutes).toList := by
  simp only [Timestamp.displayZone, String.toList_append, ordinary_append, ordinary_padded, and_true]
  exact ⟨by split <;> decide, by decide⟩

/-- A point in time is written with digits and the signs between them. -/
theorem ordinary_time (t : Timestamp) : Ordinary t.display.toList := by
  simp only [Timestamp.display, String.toList_append, ordinary_append, ordinary_padded, ordinary_date,
    true_and, and_true]
  refine ⟨⟨⟨⟨by decide, by decide⟩, by decide⟩, ?_⟩, ?_⟩
  · split
    · exact ordinary_nil
    · rw [String.toList_append, ordinary_append]
      exact ⟨by decide, ordinary_padded 6 _⟩
  · cases t.zone with
    | none => exact ordinary_nil
    | some z => exact ordinary_zone z

/-! ### Characters in quotes

Bytes are displayed as a text in quotes, whose characters are of ASCII. -/

/-- A graphic character or a space. -/
theorem isSpecial_of_ascii {c : Char} (low : 32 ≤ c.toNat) (high : c.toNat < 127) :
    Scalar.isSpecial c = false := by
  have hlow : ' ' ≤ c := UInt32.le_iff_toNat_le.mpr low
  have hhigh : c ≤ '~' := UInt32.le_iff_toNat_le.mpr (Nat.le_of_lt_succ high)
  exact isSpecial_of_printable (by simp [hlow, hhigh])

theorem ordinary_toString {c : Char} (h : Scalar.isSpecial c = false) : Ordinary c.toString.toList := by
  rw [Char.toString, String.toList_singleton]
  exact ordinary_cons.mpr ⟨h, ordinary_nil⟩

/-- A character between quotes is written as itself or by an escape. -/
theorem ordinary_quotedChar {q c : Char} (hq : Scalar.isSpecial q = false) (hc : c.toNat < 127) :
    Ordinary (quotedChar q c).toList := by
  unfold quotedChar
  split
  next hsame =>
    rw [String.toList_append, ordinary_append]
    refine ⟨by decide, ordinary_toString ?_⟩
    obtain rfl | rfl := hsame
    · exact hq
    · decide
  split
  · decide
  split
  · decide
  split
  · decide
  split
  next hprint =>
    rw [isPrintable, if_pos hc] at hprint
    exact ordinary_toString (isSpecial_of_ascii (of_decide_eq_true hprint) hc)
  -- what has no printed form is written by its number
  split
  · exact ordinary_append_hex (by decide) 2 _
  split
  · exact ordinary_append_hex (by decide) 4 _
  · exact ordinary_append_hex (by decide) 8 _

theorem isSpecial_quoteOf (s : String) : Scalar.isSpecial (quoteOf s) = false := by
  unfold quoteOf
  split <;> decide

/-- Bytes are written between quotes, each as a character of ASCII or by an escape. -/
theorem ordinary_bytes (bs : List UInt8) : Ordinary (quotedBytes bs).toList := by
  have hq := isSpecial_quoteOf (String.ofList (bs.map fun b => Char.ofNat b.toNat))
  unfold quotedBytes
  generalize quoteOf _ = q at hq ⊢
  have hquote := ordinary_toString hq
  simp only [String.toList_append, String.toList_join, ordinary_append]
  refine ⟨⟨⟨by decide, hquote⟩, ?_⟩, hquote⟩
  intro c hc
  obtain ⟨s, hs, hc⟩ := List.mem_flatMap.mp hc
  obtain ⟨b, -, rfl⟩ := List.mem_map.mp hs
  split at hc
  next hb =>
    have hascii : (Char.ofNat b.toNat).toNat = b.toNat := by
      rw [Char.ofNat, dif_pos (Or.inl (by omega))]
      rfl
    exact ordinary_quotedChar hq (hascii.symm ▸ hb) c hc
  next => exact ordinary_append_hex (by decide) 2 _ c hc

theorem ordinary_float (x : Double) : Ordinary (floatText x).toList := by
  have hx := ordinary_double x
  unfold floatText
  split
  · decide
  · decide
  · decide
  · dsimp only
    split
    · exact hx
    · rw [String.toList_ofList]
      simp only [ordinary_append]
      exact ⟨⟨hx.of_subset ((List.takeWhile_sublist _).subset), by split <;> decide⟩,
        hx.of_subset ((List.dropWhile_sublist _).subset)⟩

/-- The text of anything but a text is made of ordinary characters. -/
theorem ordinary_atomText {a : Atom} (h : ∀ s, a ≠ .str s) : Ordinary (atomText a).1.toList := by
  match a with
  | .null => decide
  | .bool true => decide
  | .bool false => decide
  | .int i => exact ordinary_intRepr i
  | .float x => exact ordinary_float x
  | .str s => exact absurd rfl (h s)
  | .bytes bs => exact ordinary_bytes bs
  | .date d => exact ordinary_date d
  | .time t => exact ordinary_time t

/-! ### Pages

A page is what has been written so far. Its operations add a piece, begin a line, indent it, or set a sign. -/

/-- Whether a page holds ordinary characters only. -/
def Page.IsOrdinary (p : Page) : Prop := Ordinary p.text.toList

namespace Page.IsOrdinary

variable {p : Page} {cs : List Char} {c : Char}

theorem write (hp : p.IsOrdinary) (hcs : Ordinary cs) : (p.write cs).IsOrdinary := by
  rw [Page.IsOrdinary, Page.write, String.toList_append, String.toList_ofList]
  exact ordinary_append.mpr ⟨hp, hcs⟩

theorem newline (hp : p.IsOrdinary) : p.newline.IsOrdinary := by
  rw [Page.IsOrdinary, Page.newline, String.toList_append]
  exact ordinary_append.mpr ⟨hp, by decide⟩

theorem indentTo (hp : p.IsOrdinary) (column : Nat) : (p.indentTo column).IsOrdinary := by
  have hblanks (q : Page) (hq : q.IsOrdinary) : IsOrdinary
      (if q.column < column then { q.write (List.replicate (column - q.column) ' ') with isSpaced := true }
        else q) := by
    split
    · exact hq.write (ordinary_replicate _ (by decide))
    · exact hq
  unfold Page.indentTo
  dsimp only
  split
  · exact hblanks _ hp.newline
  · exact hblanks _ hp

/-- A sign may have a blank before it. -/
theorem sign (hp : p.IsOrdinary) (hc : Scalar.isSpecial c = false) (apart : Bool) :
    (p.sign c apart).IsOrdinary := by
  unfold Page.sign
  split
  · exact hp.write (ordinary_cons.mpr ⟨hc, ordinary_nil⟩)
  · exact hp.write (ordinary_cons.mpr ⟨by decide, ordinary_cons.mpr ⟨hc, ordinary_nil⟩⟩)

theorem mark (hp : p.IsOrdinary) (hc : Scalar.isSpecial c = false) : (p.mark c).IsOrdinary :=
  hp.sign hc true

end Page.IsOrdinary

theorem Page.blank_isOrdinary : Page.blank.IsOrdinary := ordinary_nil

/-! ### Texts

A text is written plainly, between single quotes or between double quotes. Only the last way has escapes,
and it is taken whenever one is needed. -/

namespace Scalar

variable {p : Page} {cs : List Char} {c : Char}

/-- An escape is written in ordinary characters. -/
theorem ordinary_of_escaped? {e : List Char} (h : escaped? c = some e) : Ordinary e := by
  unfold escaped? at h
  split at h
  next d hd =>
    have hd : isSpecial d = false := by
      unfold shortEscape? at hd
      split at hd <;> first | (cases hd; decide) | cases hd
    cases h
    exact ordinary_cons.mpr ⟨by decide, ordinary_cons.mpr ⟨hd, ordinary_nil⟩⟩
  next =>
    have hnumber (d : Char) (hd : isSpecial d = false) (width : Nat) :
        Ordinary ('\\' :: d :: capitalHex width c.toNat) :=
      ordinary_cons.mpr ⟨by decide, ordinary_cons.mpr ⟨hd, ordinary_capitalHex width _⟩⟩
    split at h
    · cases h
    split at h
    · cases h
      exact hnumber 'x' (by decide) 2
    split at h
    · cases h
      exact hnumber 'u' (by decide) 4
    · cases h
      exact hnumber 'U' (by decide) 8

/-- What needs no escape is a printable character. -/
theorem isSpecial_of_escaped? (h : escaped? c = none) : isSpecial c = false := by
  unfold escaped? at h
  split at h
  · cases h
  split at h
  next hc => exact isSpecial_of_printable hc
  split at h
  · cases h
  · split at h <;> cases h

theorem ordinary_backslash : Ordinary ['\\'] := by decide

/-! ### Styles of a text

A text may be written as it is, between single quotes or between double quotes. Only the last style can have
any character, and the choice of the style depends on that. -/

theorem foldDouble_isOrdinary (hp : p.IsOrdinary) (indent : Nat) : (foldDouble indent p).IsOrdinary :=
  (hp.write ordinary_backslash).indentTo indent

/-- **Between double quotes, any text is written in ordinary characters.** -/
theorem writeDouble_isOrdinary (hp : p.IsOrdinary) (indent : Nat) (split : Bool) (cs : List Char)
    (inside afterEscape : Bool) : (writeDouble indent split inside afterEscape cs p).IsOrdinary := by
  -- the flags decide only where a line is folded, so the page is all that the induction carries
  induction cs generalizing p inside afterEscape with
  | nil => exact hp
  | cons c cs ih =>
      rw [writeDouble]
      split
      next e he =>
        have hwritten := hp.write (ordinary_of_escaped? he)
        refine ih ?_ _ _
        split
        · dsimp only
          split
          · exact (foldDouble_isOrdinary hwritten indent).write ordinary_backslash
          · exact foldDouble_isOrdinary hwritten indent
        · exact hwritten
      next he =>
        have hc : Ordinary [c] := ordinary_cons.mpr ⟨isSpecial_of_escaped? he, ordinary_nil⟩
        refine ih (Page.IsOrdinary.write ?_ hc) _ _
        split
        · dsimp only
          split
          · exact (foldDouble_isOrdinary hp indent).write ordinary_backslash
          · exact foldDouble_isOrdinary hp indent
        · exact hp

/-- A text without escapes is written run by run, broken at its blanks. -/
theorem writeRuns_isOrdinary (hp : p.IsOrdinary) (indent : Nat) (split : Bool) {rs : List (List Char)}
    (hrs : ∀ run ∈ rs, Ordinary run) (inside : Bool) :
    (writeRuns indent split inside rs p).IsOrdinary := by
  have hlines (run : List Char) {q : Page} (hq : q.IsOrdinary) :
      (run.foldl (fun p _ => p.newline) q).IsOrdinary := by
    induction run generalizing q with
    | nil => exact hq
    | cons c run ih => exact ih hq.newline
  induction rs generalizing p inside with
  | nil => exact hp
  | cons run rs ih =>
      obtain ⟨hrun, hrs⟩ := List.forall_mem_cons.mp hrs
      rw [writeRuns]
      refine ih ?_ hrs true
      split
      · exact hp.indentTo indent
      · split
        · exact (hlines run hp.newline).indentTo indent
        · exact hp.write hrun

/-- The runs of an ordinary text are ordinary. -/
theorem ordinary_runs (h : Ordinary cs) : ∀ run ∈ runs cs, Ordinary run := by
  intro run hrun c hc
  -- the runs put together are the text again
  have hmem : c ∈ (runs cs).flatten := List.mem_flatten_of_mem hrun hc
  rw [runs, List.flatten_splitBy] at hmem
  exact h c hmem

theorem ordinary_doubled (h : Ordinary cs) : Ordinary (doubled cs) := by
  intro d hd
  obtain ⟨c, hc, hd⟩ := List.mem_flatMap.mp hd
  have hsame : d = c := by
    split at hd
    · simpa using hd
    · exact List.mem_singleton.mp hd
  exact hsame ▸ h c hc

/-- A text is written in ordinary characters if it has no others, or stands between double quotes. -/
theorem write_isOrdinary (hp : p.IsOrdinary) (indent : Nat) (split : Bool) {style : Style}
    {text : String} (h : style = .double ∨ Ordinary text.toList) :
    (write indent split style text p).IsOrdinary := by
  cases style with
  | plain =>
      have hruns := ordinary_runs (h.resolve_left nofun)
      have hspaced : Page.IsOrdinary (if p.isSpaced then p else p.write [' ']) := by
        split
        · exact hp
        · exact hp.write (by decide)
      exact writeRuns_isOrdinary (p := { (if p.isSpaced then p else p.write [' ']) with
        isSpaced := false, isFresh := false }) hspaced indent split hruns false
  | single =>
      have hruns := ordinary_runs (h.resolve_left nofun)
      have hdoubled : ∀ run ∈ (runs text.toList).map doubled, Ordinary run := by
        intro run hrun
        obtain ⟨r, hr, rfl⟩ := List.mem_map.mp hrun
        exact ordinary_doubled (hruns r hr)
      exact (writeRuns_isOrdinary (hp.sign (by decide) true) indent split hdoubled false).sign
        (by decide) false
  | double =>
      exact (writeDouble_isOrdinary (hp.sign (by decide) true) indent split _ false false).sign
        (by decide) false

/-- The style of a text is chosen so that it can be written. -/
theorem style_fits (isKey : Bool) (text : String) :
    style isKey text = .double ∨ Ordinary text.toList := by
  unfold style
  dsimp only
  split
  next h =>
    refine .inr fun c hc => ?_
    simp only [allowsPlain, Bool.and_eq_true, Bool.not_eq_true', Bool.or_eq_false_iff,
      List.any_eq_false, Bool.not_eq_true] at h
    exact (h.2.1.1.1.1 c hc).1
  next =>
    split
    next h =>
      refine .inr fun c hc => ?_
      simp only [allowsSingle, Bool.and_eq_true, Bool.not_eq_true', Bool.or_eq_false_iff,
        List.any_eq_false, Bool.not_eq_true] at h
      exact h.1.1.1 c hc
    next => exact .inl rfl

end Scalar

/-! ### Values

By recursion over the value, for lists and objects together with their items and members. -/

section Values

variable {p : Page}

/-- A value without parts is written in ordinary characters, in whatever style. -/
theorem writeAtom_isOrdinary (hp : p.IsOrdinary) (indent : Nat) (isKey : Bool) (a : Atom) :
    (writeAtom indent isKey a p).IsOrdinary := by
  unfold writeAtom
  split
  next s => exact Scalar.write_isOrdinary hp indent (!isKey) (Scalar.style_fits isKey s)
  next h => exact Scalar.write_isOrdinary hp indent (!isKey) (.inr (ordinary_atomText h))

theorem writeNothing_isOrdinary (hp : p.IsOrdinary) : (writeNothing p).IsOrdinary :=
  (hp.sign (by decide) true).sign (by decide) false

/-- An item of a list begins with a dash. -/
theorem dash_isOrdinary (hp : p.IsOrdinary) (indent : Nat) : ((p.indentTo indent).mark '-').IsOrdinary :=
  (hp.indentTo indent).mark (by decide)

/-- A key, on the line of its value or on one of its own, and the colon after it. -/
theorem writeKey_isOrdinary (hp : p.IsOrdinary) (indent : Nat) (k : Atom) :
    Page.IsOrdinary (if isSimpleKey k then (writeAtom (indent + 2) true k p).sign ':' false
      else ((writeAtom (indent + 2) false k (p.mark '?')).indentTo indent).mark ':') := by
  split
  · exact (writeAtom_isOrdinary hp _ true k).sign (by decide) false
  · exact ((writeAtom_isOrdinary (hp.mark (by decide)) _ false k).indentTo indent).mark (by decide)

mutual

/-- **Every value is written in ordinary characters.** -/
theorem writeValue_isOrdinary (indent : Nat) (isMember : Bool) :
    ∀ (v : Value) {p : Page}, p.IsOrdinary → (writeValue indent isMember v p).IsOrdinary
  | .atom a, _, hp => writeAtom_isOrdinary hp _ false a
  | .list [], _, hp => writeNothing_isOrdinary hp
  | .list (x :: xs), _, hp => writeItems_isOrdinary _ (x :: xs) hp
  | .set [], _, hp => writeNothing_isOrdinary hp
  | .set (e :: es), p, hp => by
    rw [writeValue]
    generalize itemIndent indent isMember p = inner
    -- a set is written by a loop over its elements, not by the recursion on values
    generalize e :: es = fs
    induction fs generalizing p with
    | nil => exact hp
    | cons f fs ih => exact ih _ (writeAtom_isOrdinary (dash_isOrdinary hp inner) _ false f)
  | .pair a b, p, hp => by
    rw [writeValue]
    exact writeValue_isOrdinary _ false b
      (dash_isOrdinary (writeValue_isOrdinary _ false a (dash_isOrdinary hp _)) _)
  | .anchored _ v, _, hp => writeValue_isOrdinary indent isMember v hp
  | .reference _, _, hp => writeAtom_isOrdinary hp _ false .null
  | .object [], _, hp => (hp.sign (by decide) true).sign (by decide) false
  | .object (m :: ms), _, hp => writeMembers_isOrdinary _ (m :: ms) hp

/-- The items of a list are written in ordinary characters. -/
theorem writeItems_isOrdinary (indent : Nat) :
    ∀ (xs : List Value) {p : Page}, p.IsOrdinary → (writeItems indent xs p).IsOrdinary
  | [], _, hp => hp
  | x :: xs, _, hp =>
    writeItems_isOrdinary indent xs (writeValue_isOrdinary indent false x (dash_isOrdinary hp indent))

/-- The members of an object are written in ordinary characters. -/
theorem writeMembers_isOrdinary (indent : Nat) :
    ∀ (ms : List (Atom × Value)) {p : Page}, p.IsOrdinary → (writeMembers indent ms p).IsOrdinary
  | [], _, hp => hp
  | (k, v) :: ms, _, hp =>
    writeMembers_isOrdinary indent ms
      (writeValue_isOrdinary indent true v (writeKey_isOrdinary (hp.indentTo indent) indent k))

end

end Values

/-- **A rendered text consists of ordinary characters**, whatever the object holds. -/
theorem render_ordinary (ms : Members) : Ordinary (render ms).toList := by
  unfold render
  refine Page.IsOrdinary.indentTo ?_ 0
  cases ms with
  | nil => exact (Page.blank_isOrdinary.sign (by decide) true).sign (by decide) false
  | cons m ms => exact writeMembers_isOrdinary 0 (m :: ms) Page.blank_isOrdinary

end Harvest.Yaml
