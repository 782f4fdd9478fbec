/-!
# Raw texts

A text from outside is a list of code points, and among them halves of pairs may stand alone, as in JSON
that spells `\ud83d` without its other half. Such a half is no character and has no bytes, so that a raw
text can be kept in memory but not in every file: `FileText.encode?` says which texts can be written.
-/

namespace Harvest

/-- A text of code points, which need not all be characters. -/
structure RawText where
  points : List (Fin 0x110000)
  deriving DecidableEq, Repr, Inhabited

namespace RawText

/-- The number of a character as a code point. -/
def pointOf (c : Char) : Fin 0x110000 :=
  ⟨c.toNat, c.valid.elim (fun h => Nat.lt_trans h (by decide)) fun h => h.2⟩

/-- The character of a code point. Halves of pairs have none. -/
def charAt? (n : Fin 0x110000) : Option Char :=
  if n.val.isValidChar then some (Char.ofNat n.val) else none

def ofString (s : String) : RawText := ⟨s.toList.map pointOf⟩

/-- Half of a pair, which JSON spells `\ud83d`: a text of one code point and no character. -/
def half : RawText := ⟨[0xD83D]⟩

/-- The text of characters that a raw text is, if it is one. -/
def encode? (t : RawText) : Option String := (t.points.mapM charAt?).map String.ofList

@[simp] theorem charAt?_pointOf (c : Char) : charAt? (pointOf c) = some c := by
  have hvalid : c.toNat.isValidChar := c.valid
  show (if c.toNat.isValidChar then some (Char.ofNat c.toNat) else none) = some c
  rw [if_pos hvalid, Char.ofNat_toNat]

@[simp] theorem encode?_ofString (s : String) : (ofString s).encode? = some s := by
  have hchars (cs : List Char) : (cs.map pointOf).mapM charAt? = some cs := by
    induction cs with
    | nil => rfl
    | cons c cs ih => rw [List.map_cons, List.mapM_cons, charAt?_pointOf, ih]; rfl
  rw [encode?, ofString, hchars, Option.map_some, String.ofList_toList]

end RawText

/-- Texts that a file may be asked to hold. Some of them may have no bytes. -/
class FileText (τ : Type) where
  encode? : τ → Option String
  ofString : String → τ
  encode?_ofString : ∀ s, encode? (ofString s) = some s

instance : FileText String := ⟨some, id, fun _ => rfl⟩

instance : FileText RawText := ⟨RawText.encode?, RawText.ofString, RawText.encode?_ofString⟩

namespace FileText

variable {τ : Type} [FileText τ]

/-- What a file holds after an attempt to write a text into it. -/
def kept (text : τ) : String := (encode? text).getD ""

/-- Whether a text can be written. -/
def isWritable (text : τ) : Bool := (encode? text).isSome

@[simp] theorem kept_string (text : String) : kept text = text := rfl

@[simp] theorem isWritable_string (text : String) : isWritable text = true := rfl

@[simp] theorem kept_ofString (s : String) : kept (ofString s : τ) = s := by
  rw [kept, encode?_ofString, Option.getD_some]

end FileText

end Harvest
