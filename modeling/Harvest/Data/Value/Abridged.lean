import Harvest.Data.Value.Display

/-!
# The abridged text of a value

Messages about a value show it in full only when it is small: long texts lose their middle, long
containers all but their first and last entries, and containers are opened two levels deep.
-/

namespace Harvest

namespace Text

/-- A text of at most 240 characters: a longer one loses its middle. -/
def abridged (s : String) : String :=
  if 240 < s.length then
    String.ofList (s.toList.take 118) ++ "..." ++ String.ofList (s.toList.drop (s.length - 119))
  else s

/-- At most ten entries: of more, the first five and the last four around an ellipsis. -/
def abridgedList (entries : List String) : String :=
  ", ".intercalate <|
    if 10 < entries.length then
      entries.take 5 ++ ["..."] ++ entries.drop (entries.length - 4)
    else entries

end Text

namespace Atom

def abridged : Atom → String
  | .null => "None"
  | .bool b => (Atom.bool b).quoted
  | .float x => x.display
  | .date _ => "<date instance>"
  | .time _ => "<datetime instance>"
  | a => Text.abridged a.quoted

end Atom

namespace Value

mutual

/-- The form of a value with containers opened to the given depth. A collection that is being written
already is not shown again. -/
def abridgedTo (shown : Shown) (depth : Nat) : Value → String
  | .atom a => a.abridged
  | .list [] => "[]"
  | .object [] => "\x7b\x7d"
  | .set [] => "set()"
  | .list (x :: xs) =>
    match depth with
    | 0 => "[...]"
    | d + 1 => "[" ++ Text.abridgedList (abridgedItems shown d (x :: xs)) ++ "]"
  | .object (m :: ms) =>
    match depth with
    | 0 => "\x7b...\x7d"
    | d + 1 => "\x7b" ++ Text.abridgedList (abridgedMembers shown d (m :: ms)) ++ "\x7d"
  | .set (e :: es) =>
    match depth with
    | 0 => "set(...)"
    | _ + 1 => "\x7b" ++ Text.abridgedList ((e :: es).map Atom.abridged) ++ "\x7d"
  | .pair a b =>
    match depth with
    | 0 => "(...)"
    | d + 1 => "(" ++ abridgedTo shown d a ++ ", " ++ abridgedTo shown d b ++ ")"
  | .anchored l v =>
    match shown.lookup l with
    | some short => short
    | none => abridgedTo ((l, v.ellipsis) :: shown) depth v
  | .reference l => (shown.lookup l).getD "..."

def abridgedItems (shown : Shown) (depth : Nat) : List Value → List String
  | [] => []
  | x :: xs => abridgedTo shown depth x :: abridgedItems shown depth xs

def abridgedMembers (shown : Shown) (depth : Nat) : List (Atom × Value) → List String
  | [] => []
  | (k, v) :: ms =>
    (k.abridged ++ ": " ++ abridgedTo shown depth v) :: abridgedMembers shown depth ms

end

def abridged (v : Value) : String := abridgedTo [] 2 v

end Value

end Harvest
