/-!
# Suggestions

What the writer of a misspelt name may have meant: the known names within a distance that grows with
the length of the name, nearest first. The distance counts insertions, deletions, substitutions and
swaps of neighbours; a mere change of case counts once.
-/

namespace Harvest.GraphQL.Suggestion

/-- The next row of the table of distances. `above` and `aboveThat` are the two rows before, `x` is
the character of this row and `before` the one of the row above. -/
def nextRow (target : List Char) (x : Char) (before : Option Char) (above aboveThat : List Nat)
    (start : Nat) : List Nat :=
  -- walks along the target with the cell to the left and the cells above
  let rec go (left : Nat) (last : Option Char) : List Char → List Nat → List Nat → List Nat
    | y :: ys, diagonal :: up :: ups, diagonals =>
      let base := min (min (up + 1) (left + 1)) (diagonal + if x = y then 0 else 1)
      let cell :=
        match diagonals with
        | d :: _ => if last = some x ∧ before = some y then min base (d + 1) else base
        | [] => base
      let diagonals' := match last with
        | none => diagonals
        | some _ => diagonals.drop 1
      cell :: go cell (some y) ys (up :: ups) diagonals'
    | _, _, _ => []
  start :: go start none target above aboveThat

/-- The edit distance of two lists of characters. -/
def distance (source target : List Char) : Nat :=
  let rec go (i : Nat) (before : Option Char) (above aboveThat : List Nat) : List Char → Nat
    | [] => above.getLast?.getD 0
    | x :: xs =>
      let row := nextRow target x before above aboveThat i
      go (i + 1) (some x) row above xs
  go 1 none (List.range (target.length + 1)) [] source

/-- Lower case. Names are ASCII; of all other characters only the Kelvin sign has an ASCII form. -/
def lower (s : String) : String := s.map fun c => if c.toNat = 0x212A then 'k' else c.toLower

/-- The distance of a name from an option, counting a change of case once. -/
def measure (name option : String) : Nat :=
  if name = option then 0
  else if lower name = lower option then 1
  else distance (lower name).toList (lower option).toList

/-- The greatest distance at which an option is still suggested. -/
def threshold (name : String) : Nat := name.length * 2 / 5 + 1

/-- A part of a name in natural order: a number compares by its value before its text. -/
inductive Part where
  | text (s : String)
  | number (value : Nat) (s : String)

/-- Whether one part comes before another, and whether they are equal. -/
def Part.compare : Part → Part → Ordering
  | .text a, .text b => compareOfLessAndEq a b
  | .number m a, .number n b => (Ord.compare m n).then (compareOfLessAndEq a b)
  | .text _, .number .. => .lt
  | .number .., .text _ => .gt

/-- The parts of a name: text and numbers in turn, starting with text. -/
def parts : Nat → List Char → List Part
  | 0, _ => []
  | fuel + 1, cs =>
    let text := cs.takeWhile fun c => !c.isDigit
    let rest := cs.dropWhile fun c => !c.isDigit
    let digits := rest.takeWhile Char.isDigit
    .text (String.ofList text) ::
      if digits.isEmpty then []
      else
        .number (digits.foldl (fun n d => n * 10 + (d.toNat - 48)) 0) (String.ofList digits)
          :: parts fuel (rest.dropWhile Char.isDigit)

def compareParts : List Part → List Part → Ordering
  | [], [] => .eq
  | [], _ :: _ => .lt
  | _ :: _, [] => .gt
  | p :: ps, q :: qs => (p.compare q).then (compareParts ps qs)

def naturalOrder (a b : String) : Ordering :=
  compareParts (parts (a.length + 1) a.toList) (parts (b.length + 1) b.toList)

/-- The options near a name, nearest first and in natural order at equal distance. -/
def near (name : String) (options : List String) : List String :=
  let close := options.eraseDups.filter fun o => measure name o ≤ threshold name
  close.mergeSort fun a b =>
    match (Ord.compare (measure name a) (measure name b)).then (naturalOrder a b) with
    | .gt => false
    | _ => true

/-! ### Arranging options

Where one option comes before another for more than one reason, three of them may come before each other
in a circle. So it is said how a list is arranged, and not only that it is in order.
-/

/-- The longest beginning of a list, after an element, in which each stands in a relation to the next; and
what follows it. -/
def chain {α : Type} (r : α → α → Bool) (x : α) : List α → List α × List α
  | [] => ([x], [])
  | y :: ys =>
    if r x y then
      let (run, rest) := chain r y ys
      (x :: run, rest)
    else ([x], y :: ys)

/-- The beginning of a list that is in order as it is or backwards, put in order, and what follows it. -/
def firstRun {α : Type} (before : α → α → Bool) : List α → List α × List α
  | [] => ([], [])
  | [x] => ([x], [])
  | x :: y :: ys =>
    if before y x then
      let (run, rest) := chain (fun a b => before b a) x (y :: ys)
      (run.reverse, rest)
    else chain (fun a b => !before b a) x (y :: ys)

/-- Puts an element into a list that is in order: before or after its middle, and so on in that half. -/
def place {α : Type} (before : α → α → Bool) (x : α) (xs : List α) : List α :=
  match _h : xs.drop (xs.length / 2) with
  | [] => [x]
  | m :: upper =>
    if before x m then place before x (xs.take (xs.length / 2)) ++ m :: upper
    else xs.take (xs.length / 2) ++ m :: place before x upper
termination_by xs.length
decreasing_by
  all_goals
    have h := congrArg List.length _h
    simp only [List.length_drop, List.length_cons, List.length_take] at *
    omega

/-- Arranges a list: what follows its first run is put into that run one by one. -/
def arrange {α : Type} (before : α → α → Bool) (xs : List α) : List α :=
  let (run, rest) := firstRun before xs
  rest.foldl (fun sorted x => place before x sorted) run

/-- The question whether one of at most five names was meant; `kind` says what they are. -/
def question (names : List String) (kind : String) : String :=
  let quoted := (names.take 5).map fun n => "'" ++ n ++ "'"
  let list :=
    match quoted.reverse with
    | [] => ""
    | [a] => a
    | [b, a] => a ++ " or " ++ b
    | last :: others => ", ".intercalate others.reverse ++ ", or " ++ last
  if names.isEmpty then ""
  else " Did you mean " ++ (if kind = "" then "" else kind ++ " ") ++ list ++ "?"

end Harvest.GraphQL.Suggestion
