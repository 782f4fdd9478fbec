/-!
# Punycode

A text is written in ASCII: first its characters of ASCII, then digits that say which other characters
are put between them, and where. The characters are put in by their numbers, equal ones from the front.
Each is given by the distance from the one before, counted in places that a character could have been
put in.
-/

namespace Harvest.Text.Punycode

/-- How far a text has come: the number of the character put in last, the place after it, the size of
the text, and what the next digits depend on. -/
structure Progress where
  code : Nat
  place : Nat
  size : Nat
  bias : Nat
  isFirst : Bool
  deriving Repr

/-- The beginning, with a number of characters of ASCII. -/
def Progress.start (size : Nat) : Progress := ⟨128, 0, size, 72, true⟩

/-- Divides a distance until it is small, and counts thirty-six for each division. -/
def scaled (distance count : Nat) : Nat × Nat :=
  if 455 < distance then scaled (distance / 35) (count + 36) else (distance, count)
termination_by distance
decreasing_by exact Nat.div_lt_self (by omega) (by omega)

def adapted (distance size : Nat) (isFirst : Bool) : Nat :=
  let d := if isFirst then distance / 700 else distance / 2
  let (d, count) := scaled (d + d / size) 0
  count + 36 * d / (d + 38)

def Progress.distance (p : Progress) (code place : Nat) : Nat :=
  (code - p.code) * (p.size + 1) + place - p.place

/-- How far a text has come once a character is put in. -/
def Progress.after (p : Progress) (distance code place : Nat) : Progress :=
  { code, place := place + 1, size := p.size + 1
    bias := adapted distance (p.size + 1) p.isFirst, isFirst := false }

/-- The least value of a digit after which more follow; `weight` grows by thirty-six with each digit. -/
def threshold (bias weight : Nat) : Nat := min 26 (max 1 (weight - bias))

theorem threshold_pos (bias weight : Nat) : 1 ≤ threshold bias weight := by
  simp only [threshold]
  omega

/-! ### Writing -/

/-- The digit of a value below thirty-six. -/
def digit (n : Nat) : Char := Char.ofNat (if n < 26 then 97 + n else 22 + n)

/-- The digits of a distance, the least significant one first. -/
def digits (bias weight n : Nat) : List Char :=
  let t := threshold bias weight
  if n < t then [digit n]
  else digit (t + (n - t) % (36 - t)) :: digits bias (weight + 36) ((n - t) / (36 - t))
termination_by n
decreasing_by
  have := threshold_pos bias weight
  have := Nat.div_le_self (n - threshold bias weight) (36 - threshold bias weight)
  omega

/-- The places at which a character is put in: before it are the characters with smaller numbers, and
those with the same number that come earlier. -/
def placesOf (code : Nat) (place : Nat) : List Char → List Nat
  | [] => []
  | c :: cs =>
    if c.toNat = code then place :: placesOf code (place + 1) cs
    else placesOf code (if c.toNat < code then place + 1 else place) cs

def isBeyond (c : Char) : Bool := 128 ≤ c.toNat

/-- The characters beyond ASCII in the order in which they are put in, each with its place. -/
def insertions (cs : List Char) : List (Nat × Nat) :=
  let codes := ((cs.filter isBeyond).map Char.toNat).eraseDups.mergeSort
  codes.flatMap fun code => (placesOf code 0 cs).map (code, ·)

def extension (p : Progress) : List (Nat × Nat) → List Char
  | [] => []
  | (code, place) :: rest =>
    let d := p.distance code place
    digits p.bias 36 d ++ extension (p.after d code place) rest

def encode (cs : List Char) : List Char :=
  let basic := cs.filter (!isBeyond ·)
  basic ++ (if basic.isEmpty then [] else ['-'])
    ++ extension (.start basic.length) (insertions cs)

/-! ### Reading -/

def digitValue? (c : Char) : Option Nat :=
  if c.isLower then some (c.toNat - 97)
  else if c.isUpper then some (c.toNat - 65)
  else if c.isDigit then some (c.toNat - 22)
  else none

/-- Reads a distance; `unit` is what the next digit counts. -/
def distance? (bias weight unit : Nat) : List Char → Option (Nat × List Char)
  | [] => none
  | c :: cs =>
    match digitValue? c with
    | none => none
    | some n =>
      let t := threshold bias weight
      if n < t then some (n * unit, cs)
      else (distance? bias (weight + 36) (unit * (36 - t)) cs).map fun r => (n * unit + r.1, r.2)

/-- Puts in the characters that digits tell of. Each takes at least one digit, which `fuel` counts. -/
def insertAll (fuel : Nat) (p : Progress) (text : List Char) (ds : List Char) : Option (List Char) :=
  if ds.isEmpty then some text
  else
    match fuel with
    | 0 => none
    | fuel + 1 =>
      match distance? p.bias 36 1 ds with
      | none => none
      | some (d, ds) =>
        let total := p.place + d
        let code := p.code + total / (p.size + 1)
        let place := total % (p.size + 1)
        if code.isValidChar then
          insertAll fuel (p.after d code place) (text.insertIdx place (Char.ofNat code)) ds
        else none

def decode? (cs : List Char) : Option (List Char) :=
  let tail := cs.reverse.takeWhile (· ≠ '-')
  let basic := cs.take (cs.length - tail.length - 1)
  insertAll cs.length (.start basic.length) basic tail.reverse

@[simp] theorem encode_nil : encode [] = [] := by
  simp [encode, insertions, extension, List.eraseDups]

end Harvest.Text.Punycode
