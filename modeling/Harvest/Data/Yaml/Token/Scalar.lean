import Harvest.Data.Json.Parser
import Harvest.Data.Yaml.Cursor

/-!
# Scalars as written

A scalar is written plainly, between single or double quotes, or as an indented block. In all forms but
the literal block a single line end counts as a blank, and further ones are kept.
-/

namespace Harvest.Yaml

/-- A reader of a part of a text. -/
abbrev Reading (α : Type) := Except Problem α

def malformed {α : Type} : Reading α := .error .malformed

namespace Scalar

/-- The line ends and the text that stand for a line end with further line ends after it. -/
def folded (first : Char) (more : List Char) : List Char :=
  if first ≠ '\n' then first :: more else if more.isEmpty then [' '] else more

/-! ### Quoted scalars -/

/-- Passes over blanks and line ends; a document marker must not stand among them. -/
def quotedBreaks : Nat → List Char → Cursor → Reading (List Char × Cursor)
  | 0, _, _ => malformed
  | fuel + 1, acc, c =>
    if c.atSeparator then malformed
    else
      let c := c.skip fun x => x = ' ' || x = '\t'
      match c.lineBreak? with
      | some (b, c) => quotedBreaks fuel (acc ++ [b]) c
      | none => .ok (acc, c)

/-- What an escaped character stands for. -/
def replacement? (c : Char) : Option Char :=
  match c with
  | '0' => some '\x00'
  | 'a' => some '\x07'
  | 'b' => some '\x08'
  | 't' => some '\t'
  | '\t' => some '\t'
  | 'n' => some '\n'
  | 'v' => some '\x0b'
  | 'f' => some '\x0c'
  | 'r' => some '\r'
  | 'e' => some '\x1b'
  | ' ' => some ' '
  | '"' => some '"'
  | '\\' => some '\\'
  | '/' => some '/'
  | 'N' => some '\u0085'
  | '_' => some '\u00a0'
  | 'L' => some '\u2028'
  | 'P' => some '\u2029'
  | _ => none

/-- The number of digits after an escape by code. -/
def codeLength? (c : Char) : Option Nat :=
  match c with
  | 'x' => some 2
  | 'u' => some 4
  | 'U' => some 8
  | _ => none

def ofCode (digits : List Char) (length : Nat) : Reading Char :=
  match digits.mapM Text.hexValue? with
  | none => malformed
  | some ds =>
    let n := ds.foldl (fun n d => n * 16 + d) 0
    if ds.length < length then malformed
    else if n ≤ 0x10FFFF then .ok (if h : n.isValidChar then Char.ofNatAux n h else '\ufffd')
    else if n < 0x80000000 then .error (.fault .content)
    else .error (.fault .range)

def escape (fuel : Nat) (c : Cursor) : Reading (List Char × Cursor) :=
  match replacement? c.peek, codeLength? c.peek, c.lineBreak? with
  | some x, _, _ => .ok ([x], c.forward)
  | none, some n, _ => do
    let c := c.forward
    return ([← ofCode (c.rest.take n) n], c.forwardBy n)
  | none, none, some (_, c) => quotedBreaks fuel [] c
  | none, none, none => malformed

/-- Reads blanks or line ends within a quoted scalar. -/
def quotedSpaces (fuel : Nat) (c : Cursor) : Reading (List Char × Cursor) :=
  let (blanks, c) := c.span fun x => x = ' ' || x = '\t'
  match c.lineBreak? with
  | some (b, c) => do
    let (more, c) ← quotedBreaks fuel [] c
    return (folded b more, c)
  | none => if c.peek = endMark then malformed else .ok (blanks, c)

def quoted (quote : Char) : Nat → List Char → Cursor → Reading (List Char × Cursor)
  | 0, _, _ => malformed
  | fuel + 1, acc, c =>
    let x := c.peek
    if x = '\'' && quote = '\'' then
      if c.peekAt 1 = '\'' then quoted quote fuel (acc ++ ['\'']) (c.forwardBy 2)
      else .ok (acc, c.forward)
    else if x = quote then .ok (acc, c.forward)
    else if x = '\\' && quote = '"' then do
      let (text, c) ← escape fuel c.forward
      quoted quote fuel (acc ++ text) c
    else if isSpaceOrEnd x then do
      let (text, c) ← quotedSpaces fuel c
      quoted quote fuel (acc ++ text) c
    else
      let (text, c) := c.span fun y =>
        !isSpaceOrEnd y && y ≠ quote && y ≠ '\\'
      if text.isEmpty then quoted quote fuel (acc ++ [x]) c.forward
      else quoted quote fuel (acc ++ text) c

/-! ### Block scalars -/

/-- What is done with the line ends after a block: none is kept, one is, or all are. -/
inductive Chomping where
  | strip
  | clip
  | keep
  deriving DecidableEq, Repr

def chomping? (c : Char) : Option Chomping :=
  if c = '+' then some .keep else if c = '-' then some .strip else none

/-- The number of spaces that a digit asks for. -/
def increment? (c : Char) : Option Nat :=
  if c.isDigit && c ≠ '0' then some (c.toNat - 48) else none

/-- Reads what follows the sign of a block: chomping and indentation in any order. -/
def blockHeader (c : Cursor) : Reading (Chomping × Option Nat × Cursor) :=
  let x := c.peek
  let y := c.peekAt 1
  let result :=
    match chomping? x, increment? x with
    | some k, _ =>
      match increment? y with
      | some n => (k, some n, c.forwardBy 2)
      | none => (k, none, c.forward)
    | none, some n =>
      match chomping? y with
      | some k => (k, some n, c.forwardBy 2)
      | none => (.clip, some n, c.forward)
    | none, none => (.clip, none, c)
  if isPlainSpaceOrEnd result.2.2.peek then .ok result else malformed

/-- Passes over the rest of a line, which may hold a comment. -/
def restOfLine (c : Cursor) : Reading Cursor :=
  let c := c.skipSpaces
  let c := if c.peek = '#' then c.skip (fun x => !isBreakOrEnd x) else c
  match c.lineBreak? with
  | some (_, c) => .ok c
  | none => if c.peek = endMark then .ok c else malformed

/-- Passes over empty lines before a block and finds its indentation. -/
def blockStart : Nat → List Char → Nat → Cursor → List Char × Nat × Cursor
  | 0, acc, widest, c => (acc, widest, c)
  | fuel + 1, acc, widest, c =>
    if c.peek = ' ' then
      let c := c.forward
      blockStart fuel acc (max widest c.column) c
    else
      match c.lineBreak? with
      | some (b, c) => blockStart fuel (acc ++ [b]) widest c
      | none => (acc, widest, c)

def toColumn (indent : Nat) : Nat → Cursor → Cursor
  | 0, c => c
  | fuel + 1, c => if c.column < indent && c.peek = ' ' then toColumn indent fuel c.forward else c

/-- Passes over empty lines within a block. -/
def blockBreaks (indent : Nat) : Nat → List Char → Cursor → List Char × Cursor
  | 0, acc, c => (acc, c)
  | fuel + 1, acc, c =>
    let c := toColumn indent indent c
    match c.lineBreak? with
    | some (b, c) => blockBreaks indent fuel (acc ++ [b]) c
    | none => (acc, c)

def goesOn (indent : Nat) (c : Cursor) : Bool := c.column = indent && c.peek ≠ endMark

/-- Reads the lines of a block: its text, the last line end and the line ends after that. -/
def blockLines (fold : Bool) (indent : Nat) : Nat → List Char → List Char → Cursor →
    List Char × List Char × List Char × Cursor
  | 0, acc, breaks, c => (acc, [], breaks, c)
  | fuel + 1, acc, breaks, c =>
    let isBlank (x : Char) : Bool := x = ' ' || x = '\t'
    let indented := isBlank c.peek
    let (line, c) := c.span fun x => !isBreakOrEnd x
    let acc := acc ++ breaks ++ line
    let (ending, c) := match c.lineBreak? with
      | some (b, c) => ([b], c)
      | none => ([], c)
    let (breaks, c) := blockBreaks indent (c.rest.length + 1) [] c
    if goesOn indent c then
      let joint :=
        if fold && ending == ['\n'] && !indented && !isBlank c.peek then
          if breaks.isEmpty then [' '] else []
        else ending
      blockLines fold indent fuel (acc ++ joint) breaks c
    else (acc, ending, breaks, c)

/-- Reads a block scalar after its sign; `around` is the indentation around it. -/
def block (fold : Bool) (around : Int) (c : Cursor) : Reading (List Char × Cursor) := do
  let (chomping, increment, c) ← blockHeader c
  let c ← restOfLine c
  let least := max 1 (around + 1).toNat
  let fuel := c.rest.length + 1
  let (breaks, indent, c) := match increment with
    | none =>
      let (breaks, widest, c) := blockStart fuel [] 0 c
      (breaks, max least widest, c)
    | some n =>
      let indent := least + n - 1
      let (breaks, c) := blockBreaks indent fuel [] c
      (breaks, indent, c)
  let (text, ending, after, c) :=
    if goesOn indent c then blockLines fold indent fuel [] breaks c else ([], [], breaks, c)
  let tail := match chomping with
    | .strip => []
    | .clip => ending
    | .keep => ending ++ after
  return (text ++ tail, c)

/-! ### Plain scalars -/

def endsPlain (inFlow : Bool) (c : Cursor) : Bool :=
  let x := c.peek
  isSpaceOrEnd x
    || (x = ':' && (isSpaceOrEnd (c.peekAt 1) || (inFlow && ",[]\x7b\x7d".toList.contains (c.peekAt 1))))
    || (inFlow && ",?[]\x7b\x7d".toList.contains x)

def plainRun (inFlow : Bool) : Nat → Cursor → List Char × Cursor
  | 0, c => ([], c)
  | fuel + 1, c =>
    if endsPlain inFlow c then ([], c)
    else
      let (more, after) := plainRun inFlow fuel c.forward
      (c.peek :: more, after)

/-- Passes over spaces and line ends after a plain scalar; nothing when a document marker ends it. -/
def plainBreaks : Nat → List Char → Cursor → Option (List Char) × Cursor
  | 0, acc, c => (some acc, c)
  | fuel + 1, acc, c =>
    if c.peek = ' ' then plainBreaks fuel acc c.forward
    else
      match c.lineBreak? with
      | some (b, c) => if c.atSeparator then (none, c) else plainBreaks fuel (acc ++ [b]) c
      | none => (some acc, c)

/-- What follows a run of a plain scalar: blanks that belong to it if it goes on, whether a line ended,
and the place after them. -/
def plainSpaces (c : Cursor) : List Char × Bool × Cursor :=
  let (blanks, c) := c.span (· = ' ')
  match c.lineBreak? with
  | none => (blanks, false, c)
  | some (b, c) =>
    if c.atSeparator then ([], true, c)
    else
      match plainBreaks (c.rest.length + 1) [] c with
      | (some more, c) => (folded b more, true, c)
      | (none, c) => ([], true, c)

/-- Reads a plain scalar, and says whether a line ended after it. `around` is the indentation around
it. -/
def plain (inFlow : Bool) (around : Int) :
    Nat → List Char → List Char → Bool → Cursor → List Char × Bool × Cursor
  | 0, acc, _, ended, c => (acc, ended, c)
  | fuel + 1, acc, blanks, ended, c =>
    if c.peek = '#' then (acc, ended, c)
    else
      let (run, c) := plainRun inFlow (c.rest.length + 1) c
      if run.isEmpty then (acc, ended, c)
      else
        let acc := acc ++ blanks ++ run
        let (blanks, ended, c) := plainSpaces c
        if blanks.isEmpty || c.peek = '#' || (!inFlow && (c.column : Int) < around + 1) then
          (acc, ended, c)
        else plain inFlow around fuel acc blanks ended c

end Scalar

end Harvest.Yaml
