import Harvest.Data.Number
import Harvest.Remote.Host
import Harvest.Text.Base64
import Harvest.Text.Bytes

/-!
# Addresses

`Url.parse?` takes an address apart and brings its parts into their written form: letters of the scheme
and the host are small, a socket that the scheme implies is left out, steps back in the path are taken,
and what cannot stand for itself is percent-encoded. `Url.display` puts the parts together again.
-/

namespace Harvest

/-- An address in parts, each in its written form. -/
structure Url where
  scheme : String
  /-- A user and a password. -/
  userinfo : String
  host : String
  /-- The number of the socket at the host. -/
  socket : Option Int
  path : String
  query : Option String
  fragment : Option String
  deriving DecidableEq, Repr, Inhabited

namespace Url

/-! ### Taking an address apart -/

/-- The most characters of an address, and of each of its parts. -/
def maxLength : Nat := 65536

def isAdmitted (c : Char) : Bool := 32 ≤ c.toNat && c.toNat ≠ 127

def isSchemeChar (c : Char) : Bool := c.isAlphanum || c = '+' || c = '.' || c = '-'

/-- The scheme of an address and what comes after it. -/
def splitScheme (cs : List Char) : List Char × List Char :=
  let name := cs.takeWhile isSchemeChar
  match cs.drop name.length with
  | ':' :: rest => if name.head?.all Char.isAlpha then (name, rest) else ([], cs)
  | _ => ([], cs)

def endsAuthority (c : Char) : Bool := c = '/' || c = '?' || c = '#'

/-- The authority after two slashes, and what comes after it. -/
def splitAuthority : List Char → List Char × List Char
  | '/' :: '/' :: cs => (cs.takeWhile (!endsAuthority ·), cs.dropWhile (!endsAuthority ·))
  | cs => ([], cs)

/-- What stands before the first character of a kind, and what stands after it. -/
def splitAt? (mark : Char) (cs : List Char) : List Char × Option (List Char) :=
  match cs.dropWhile (· ≠ mark) with
  | _ :: rest => (cs.takeWhile (· ≠ mark), some rest)
  | [] => (cs, none)

/-- The part up to the last character of a kind, without that character, and the rest. -/
def splitLast (mark : Char) (cs : List Char) : List Char × List Char :=
  let tail := cs.reverse.takeWhile (· ≠ mark)
  (cs.take (cs.length - tail.length - 1), tail.reverse)

/-- The host of an authority without its user, and the number of the socket. A host between brackets may
hold colons. -/
def splitSocket (cs : List Char) : List Char × List Char :=
  let host :=
    if cs.head? == some '[' && cs.contains ']' then (splitLast ']' cs).1 ++ [']']
    else cs.takeWhile (· ≠ ':')
  match cs.drop host.length with
  | ':' :: socket => (host, socket)
  | socket => (host, socket)

/-- The socket that a scheme implies. -/
def impliedSocket? (scheme : String) : Option Int :=
  match scheme with
  | "ftp" => some 21
  | "http" => some 80
  | "https" => some 443
  | "ws" => some 80
  | "wss" => some 443
  | _ => none

/-- The socket of an address, nothing inside if the scheme implies it. -/
def socket? (scheme : String) (socket : List Char) : Option (Option Int) :=
  if socket.isEmpty then some none
  else (Numeral.int? (String.ofList socket)).map fun n =>
    if some n = impliedSocket? scheme then none else some n

/-! ### Written forms -/

/-- Whether a character is one of ASCII with a form of its own, other than some. -/
def isVisible (excluded : String) (c : Char) : Bool :=
  32 < c.toNat && c.toNat < 127 && !excluded.toList.contains c

def isInFragment : Char → Bool := isVisible "\"<>\x60"

def isInQuery : Char → Bool := isVisible "\"#<>"

def isInPath : Char → Bool := isVisible "\"#<>?\x60\x7b\x7d"

/-- What a user and a password keep. -/
def isInUserinfo : Char → Bool := isVisible "\"#<>?\x60\x7b\x7d/;=@[\\]^|"

def written (keeps : Char → Bool) (cs : List Char) : String :=
  String.ofList (Text.percentEncode keeps cs)

/-- The names of a path after all steps are taken. A step back never leaves the root. -/
def steps (taken : List String) : List String → List String
  | [] => taken
  | "." :: rest => steps taken rest
  | ".." :: rest => steps (if taken = [""] then taken else taken.dropLast) rest
  | name :: rest => steps (taken ++ [name]) rest

/-- A path without steps to where it is already and steps back. -/
def straightened (path : String) : String := "/".intercalate (steps [] (path.splitOn "/"))

/-- Whether a path can follow what stands before it. -/
def isPathAfter (hasScheme hasAuthority : Bool) (path : List Char) : Bool :=
  if hasAuthority then path.isEmpty || path.head? == some '/'
  else hasScheme || (path.head? != some ':' && path.take 2 != ['/', '/'])

def parse? (s : String) : Option Url := do
  let cs := s.toList
  if maxLength < cs.length || !cs.all isAdmitted then none
  else
    let (scheme, cs) := splitScheme cs
    let (authority, cs) := splitAuthority cs
    let (cs, fragment) := splitAt? '#' cs
    let (path, query) := splitAt? '?' cs
    let (userinfo, cs) := splitLast '@' authority
    let (host, socket) := splitSocket cs
    let userinfo := written isInUserinfo userinfo
    let host ← Host.write? (String.ofList host)
    let socket ← socket? (String.ofList scheme) socket
    let scheme := String.ofList (scheme.map Char.toLower)
    let hasScheme := scheme ≠ ""
    let hasAuthority := userinfo ≠ "" || host ≠ "" || socket.isSome
    if !isPathAfter hasScheme hasAuthority path then none
    else
      let path := String.ofList path
      let path := if hasScheme || hasAuthority then straightened path else path
      return {
        scheme, userinfo, host, socket
        path := written isInPath path.toList
        query := query.map (written isInQuery)
        fragment := fragment.map (written isInFragment) }

/-! ### Putting an address together -/

def location (u : Url) : String :=
  (if u.host.contains ':' then "[" ++ u.host ++ "]" else u.host)
    ++ (u.socket.map fun n => s!":{n}").getD ""

/-- The host with its socket and its user. -/
def authority (u : Url) : String :=
  (if u.userinfo = "" then "" else u.userinfo ++ "@") ++ u.location

def display (u : Url) : String :=
  (if u.scheme = "" then "" else u.scheme ++ ":")
    ++ (if u.authority = "" then "" else "//" ++ u.authority)
    ++ u.path
    ++ (u.query.map ("?" ++ ·)).getD ""
    ++ (u.fragment.map ("#" ++ ·)).getD ""

/-- Whether an address names a place to connect to. -/
def isAbsolute (u : Url) : Bool := u.scheme ≠ "" && u.host ≠ ""

/-- Where a request to an address goes. Without a place to connect to, that is a path below the root. -/
def target? (u : Url) : Option Url :=
  if u.isAbsolute then some u
  else
    let path := String.ofList ('/' :: u.path.toList.dropWhile (· = '/'))
    if maxLength < path.length || u.query.any (maxLength < ·.length) then none
    else some { scheme := "", userinfo := "", host := "", socket := none, path, query := u.query,
                fragment := none }

/-- What a user and a password are sent as. -/
def credentials? (u : Url) : Option String :=
  let (user, password) := splitAt? ':' u.userinfo.toList
  let user := Text.toUtf8 (Text.ofUtf8 (Text.percentDecode user))
  let password := Text.toUtf8 (Text.ofUtf8 (Text.percentDecode (password.getD [])))
  if user.isEmpty && password.isEmpty then none
  else some ("Basic " ++ String.ofList (Text.base64 (user ++ 58 :: password)))

end Url

end Harvest
