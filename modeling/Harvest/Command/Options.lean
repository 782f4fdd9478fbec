import Harvest.Data.Number

/-!
# Command lines

A command line is a list of words: options of the program, a command, and options of that command. A
long option may be shortened as long as only one option begins so, and takes its value from the next
word or after an equals sign; a short option may have its value, or further short options, attached.

A form that several options begin with is refused wherever it stands, before any option takes effect.
-/

namespace Harvest

inductive Verb where
  | init
  | compile
  | source
  deriving DecidableEq, Repr

/-- What options may be given for: the program, or one of its commands. -/
inductive Level where
  | program
  | verb (v : Verb)
  deriving DecidableEq, Repr

inductive CommandOption where
  | help
  | version
  | config
  | verbose
  | url
  | language
  | force
  | outputDir
  | output
  | concurrency
  deriving DecidableEq, Repr

namespace Verb

def word : Verb → String
  | init => "init"
  | compile => "compile"
  | source => "source"

def ofWord? (w : String) : Option Verb := [init, compile, source].find? (·.word = w)

end Verb

namespace CommandOption

def long : CommandOption → String
  | help => "--help"
  | version => "--version"
  | config => "--config"
  | verbose => "--verbose"
  | url => "--url"
  | language => "--language"
  | force => "--force"
  | outputDir => "--output-dir"
  | output => "--output"
  | concurrency => "--concurrency"

def letter? : CommandOption → Option Char
  | help => some 'h'
  | config => some 'c'
  | verbose => some 'v'
  | language => some 'l'
  | force => some 'f'
  | outputDir => some 'o'
  | output => some 'o'
  | _ => none

def takesValue : CommandOption → Bool
  | help => false
  | version => false
  | verbose => false
  | force => false
  | _ => true

end CommandOption

namespace Level

def options : Level → List CommandOption
  | program => [.help, .version, .config, .verbose]
  | verb .init => [.help, .url, .language, .force]
  | verb .compile => [.help, .url, .language, .outputDir]
  | verb .source => [.help, .url, .language, .output, .concurrency]

def usage : Level → String
  | program => "usage: graphsource [-h] [--version] [--config CONFIG] [--verbose]"
  | verb .init => "usage: graphsource init [-h] [--url URL] [--language LANGUAGE] [--force]"
  | verb .compile => "usage: graphsource compile [-h] [--url URL] [--language LANGUAGE]"
  | verb .source => "usage: graphsource source [-h] [--url URL] [--language LANGUAGE]"

def withLetter? (l : Level) (c : Char) : Option CommandOption :=
  l.options.find? fun o => o.letter? = some c

/-- The option that a long form stands for: the one with just this form, or else the only one that
begins so. -/
def withLong? (l : Level) (form : String) : Option CommandOption :=
  match l.options.find? (·.long = form) with
  | some o => some o
  | none =>
    match l.options.filter fun o => form.toList.isPrefixOf o.long.toList with
    | [o] => some o
    | _ => none

end Level

namespace CommandLine

/-! ### Words -/

/-- Whether characters are digits with at most one point, which needs a digit after it. -/
def isNumberTail (cs : List Char) : Bool :=
  let isDigit (c : Char) : Bool := (Text.digitValue? c).isSome
  match cs.dropWhile isDigit with
  | [] => !cs.isEmpty
  | '.' :: rest => !rest.isEmpty && rest.all isDigit
  | _ => false

def isNegative (cs : List Char) : Bool :=
  match cs with
  | '-' :: rest => isNumberTail rest || (rest.getLast? = some '\n' && isNumberTail rest.dropLast)
  | _ => false

inductive Word where
  | plain
  /-- Two dashes alone: no option follows, and there is nothing else that could. -/
  | separator
  /-- An option, and the value that an equals sign attaches to it. -/
  | option (o : CommandOption) (value : Option String)
  /-- A short option and the characters attached to it. -/
  | letters (o : CommandOption) (attached : List Char)
  /-- A long form that could be completed in several ways. -/
  | ambiguous
  | unknown
  deriving Repr

/-- What a word that looks like an option but is none stands for. -/
def other (cs : List Char) : Word := if isNegative cs || cs.contains ' ' then .plain else .unknown

/-- Whether a long form could be completed in several ways. -/
def isAmbiguous (level : Level) (form : String) : Bool :=
  1 < (level.options.filter fun o => form.toList.isPrefixOf o.long.toList).length

def longWord (level : Level) (cs : List Char) : Word :=
  let form := String.ofList (cs.takeWhile (· ≠ '='))
  let value := match cs.dropWhile (· ≠ '=') with
    | _ :: v => some (String.ofList v)
    | [] => none
  match level.withLong? form with
  | some o => .option o value
  | none => if isAmbiguous level form then .ambiguous else other cs

def word (level : Level) (w : String) : Word :=
  match w.toList with
  | ['-', '-'] => .separator
  | '-' :: '-' :: cs => longWord level ('-' :: '-' :: cs)
  | ['-'] => .plain
  | '-' :: c :: cs =>
    match level.withLetter? c, cs with
    | some o, '=' :: v =>
      if o.takesValue || v.isEmpty then .option o (some (String.ofList v)) else .letters o v
    | some o, cs => .letters o cs
    | none, cs => other ('-' :: c :: cs)
  | _ => .plain

/-- Whether none of some words is ambiguous. Words after a separator are not looked at. -/
def isClear (level : Level) (words : List String) : Bool :=
  (words.takeWhile (· ≠ "--")).all fun w =>
    match word level w with
    | .ambiguous => false
    | _ => true

/-! ### Options -/

/-- Why a command line is not carried out. -/
inductive Refusal where
  | misused
  /-- Help on a level is asked for. -/
  | help (level : Level)
  /-- The version is asked for. -/
  | version
  deriving DecidableEq, Repr

abbrev Given := CommandOption × String

/-- The options that a short one and the characters attached to it stand for, and the one among them
that takes its value from the next word. -/
def lettersOptions (level : Level) : CommandOption → List Char →
    Option (List Given × Option CommandOption)
  | o, [] => if o.takesValue then some ([], some o) else some ([(o, "")], none)
  | o, c :: cs =>
    if o.takesValue then some ([(o, String.ofList (c :: cs))], none)
    else
      match level.withLetter? c with
      | none => none
      | some p => (lettersOptions level p cs).map fun (given, last) => ((o, "") :: given, last)

def refusal? (level : Level) (g : Given) : Option Refusal :=
  match g.1 with
  | .help => some (.help level)
  | .version => some .version
  | .concurrency => if (Numeral.int? g.2).isSome then none else some .misused
  | _ => none

def give (level : Level) (before given : List Given) : Except Refusal (List Given) :=
  match given.findSome? (refusal? level) with
  | some r => .error r
  | none => .ok (before ++ given)

/-- The options at the beginning of some words, whether a word among them was none of the level's, and
the words from the first plain one on. `stops` says whether a plain word ends the options or is itself
out of place. -/
def options (level : Level) (stops : Bool) :
    List Given → Bool → List String → Except Refusal (List Given × Bool × List String)
  | given, stray, [] => .ok (given, stray, [])
  | given, stray, w :: ws =>
    match word level w with
    | .plain => if stops then .ok (given, stray, w :: ws) else options level stops given true ws
    | .separator => .ok (given, true, [])
    | .ambiguous => .error .misused
    | .unknown => options level stops given true ws
    | .option o value =>
      match o.takesValue, value with
      | true, some v => do options level stops (← give level given [(o, v)]) stray ws
      | true, none => withNext o given [] stray ws
      | false, none => do options level stops (← give level given [(o, "")]) stray ws
      | false, some _ => .error .misused
    | .letters o attached =>
      match lettersOptions level o attached with
      | none => .error .misused
      | some (more, none) => do options level stops (← give level given more) stray ws
      | some (more, some last) => withNext last given more stray ws
where
  /-- Gives an option the next word as its value. The options before it in its word take effect with
  it. -/
  withNext (o : CommandOption) (given more : List Given) (stray : Bool) :
      List String → Except Refusal (List Given × Bool × List String)
    | [] => .error .misused
    | v :: ws =>
      match word level v with
      | .plain => do options level stops (← give level given (more ++ [(o, v)])) stray ws
      | _ => .error .misused

end CommandLine

/-- What a command line asks for. -/
structure CommandLine where
  /-- The options of the program and of the command, in order. -/
  given : List CommandLine.Given
  /-- The command, if there is one. -/
  verb : Option Verb
  deriving Repr

namespace CommandLine

/-- The last value of an option. -/
def value? (c : CommandLine) (o : CommandOption) : Option String :=
  (c.given.reverse.find? (·.1 = o)).map (·.2)

def values (c : CommandLine) (o : CommandOption) : List String :=
  (c.given.filter (·.1 = o)).map (·.2)

def has (c : CommandLine) (o : CommandOption) : Bool := c.given.any (·.1 = o)

def parse (words : List String) : Except Refusal CommandLine := do
  unless isClear .program words do throw .misused
  let (given, stray, rest) ← options .program true [] false words
  match rest with
  | [] => if stray then throw .misused else return { given, verb := none }
  | w :: ws =>
    match Verb.ofWord? w with
    | none => throw .misused
    | some v =>
      unless isClear (.verb v) ws do throw .misused
      let (more, strayMore, _) ← options (.verb v) false [] false ws
      if stray || strayMore then throw .misused else return { given := given ++ more, verb := some v }

end CommandLine

end Harvest
