import Harvest.Data.Json.Encoding
import Harvest.Data.Json.Printer
import Harvest.Failure
import Harvest.Remote.Url

/-!
# Requests over HTTP

A request is posted as a JSON object, and an answer counts only with the status 200 and a body that is a
JSON object with `data` and `errors` of the right kinds. Everything else is an error of transport,
which carries what was received instead. `Http.connect` prepares the address and the headers once, and
`Http.message` is what is sent for a request. A connection is not opened here: `Http.executor` is given
the exchange of one message.
-/

namespace Harvest

namespace Request

def payload (r : Request) : Value :=
  .record (("query", .str r.query)
    :: (r.operationName.map fun n => ("operationName", Value.str n)).toList
    ++ [("variables", .object r.variableValues)])

def optionalText? : Value → Option (Option String)
  | .null => some none
  | .str s => some (some s)
  | _ => none

/-- The request with the given parts. The name of the operation may be given under two names, of which
`operationName` counts first. -/
def ofFields (fields : Value) : Except Failure Request :=
  let name := ((fields.field? "operationName").or (fields.field? "operation_name")).getD .null
  let given := (fields.field? "variables").getD (.object [])
  match fields.field "query", optionalText? name, given with
  | .str query, some operationName, .object variableValues =>
    .ok { query, operationName, variableValues }
  | _, _, _ => .error .invalidRequest

end Request

/-- What comes back for a posted request. -/
inductive HttpAnswer where
  | response (status : Int) (body : String)
  /-- No connection came about. -/
  | unreachable (text : String)
  deriving Repr, Inhabited

/-- A connection: where requests go and which headers they carry. -/
structure HttpEndpoint where
  /-- The address as it was given. -/
  given : String
  target : Url
  headers : List (String × String)
  deriving Repr, Inhabited

structure HttpMessage where
  url : Url
  headers : List (String × String)
  body : Value
  deriving Repr, Inhabited

namespace Http

/-- The status of an answer that can be used. -/
def okStatus : Int := 200

/-- The clause about a body that is no answer. -/
def invalidBody : String := "Invalid GraphQL response body"

/-- The errors that a body reports: none, or a list of objects. -/
def errorsOf? : Value → Option (List Value)
  | .null => some []
  | .list es => if es.all RemoteError.isObject then some es else none
  | _ => none

def decode? (body : String) : Option (Value × List Value) :=
  match Json.parseBytes? body with
  | some (.object ms) =>
    match Members.field ms "data", errorsOf? (Members.field ms "errors") with
    | .null, some es => some (.object [], es)
    | .object d, some es => some (.object d, es)
    | _, _ => none
  | _ => none

/-- What a posted request was answered with. -/
def answerOf (url : String) : HttpAnswer → Answer
  | .unreachable text => .failed (.transport url 0 text)
  | .response status body =>
    if status ≠ okStatus then .failed (.transport url status body)
    else
      match decode? body with
      | none => .failed (.transport url status invalidBody)
      | some (data, []) => .data data
      | some (_, errors) =>
        match RemoteError.ofObjects errors with
        | .ok e => .failed e
        | .error f => .broken f

/-! ### Headers -/

def isNamed (name : String) (header : String × String) : Bool :=
  header.1.map Char.toLower == name.map Char.toLower

/-- The value of a header; the values of several with one name are joined. -/
def header? (headers : List (String × String)) (name : String) : Option String :=
  match headers.filter (isNamed name) with
  | [] => none
  | found => some (", ".intercalate (found.map (·.2)))

/-- Headers with a further one, unless there is one of that name. -/
def withDefault (headers : List (String × String)) (header : String × String) :
    List (String × String) :=
  if headers.any (isNamed header.1) then headers else headers ++ [header]

/-- Headers with one in place of all others of its name. -/
def withOnly (headers : List (String × String)) (header : String × String) : List (String × String) :=
  headers.filter (!isNamed header.1 ·) ++ [header]

/-- The headers that a connection has unless others are given. -/
def ownHeaders : List (String × String) :=
  [("Accept", "*/*"), ("Accept-Encoding", "gzip, deflate"), ("Connection", "keep-alive")]

def asciiOf : Value → Except Fault String
  | .str s => if s.toList.all fun c => c.toNat < 128 then .ok s else .error .beyondAscii
  | _ => .error .kind

/-- The given headers of a connection. Every name and value has to be a text of ASCII. -/
def headersOf (headers : Members) : Except Fault (List (String × String)) :=
  headers.mapM fun (k, v) =>
    match k with
    | .str name => do return (← asciiOf (.str name), ← asciiOf v)
    | _ => .error .part

/-! ### Connections -/

def connect (url : Value) (headers : Members) : Except Fault HttpEndpoint := do
  let headers ← headersOf headers
  match url with
  | .str given =>
    match (Url.parse? given).bind Url.target? with
    | some target => return { given, target, headers := ownHeaders.foldl withDefault headers }
    | none => throw .address
  | _ => throw .kind

def hostHeader (u : Url) : Except Fault (List (String × String)) :=
  match Host.problem? u.host with
  | some f => .error (.label f)
  | none =>
    if u.host = "" then .ok []
    else do return [("Host", ← asciiOf (.str u.location))]

/-- What is sent for a body. Numbers that JSON lacks go out by their names. -/
def message (e : HttpEndpoint) (body : Value) : Except Fault HttpMessage := do
  let length := (Json.print .compact body).utf8ByteSize
  let headers := withDefault (withDefault e.headers ("Content-Length", toString length))
    ("Content-Type", "application/json")
  let host ← if headers.any (isNamed "Host") then pure [] else hostHeader e.target
  let headers := host ++ headers
  return {
    url := e.target, body
    headers := match e.target.credentials? with
      | some c => withOnly headers ("Authorization", c)
      | none => headers }

/-- Answers requests over a connection; `post` exchanges one message. A response counts only if there is
a place that it came from. -/
def executor {σ : Type} (e : HttpEndpoint) (post : HttpMessage → StateM σ HttpAnswer) :
    Executor σ := fun r =>
  match message e r.payload with
  | .error f => return .broken f
  | .ok m => do
    match ← post m with
    | .unreachable text => return answerOf e.given (.unreachable text)
    | .response status body =>
      return if e.target.isAbsolute then answerOf e.given (.response status body)
        else .broken .content

/-- A header that replaces others is found with its value. -/
theorem header?_withOnly (headers : List (String × String)) (name value : String) :
    header? (withOnly headers (name, value)) name = some value := by
  have none (hs : List (String × String)) : hs.filter (fun _ => false) = [] := by
    induction hs <;> simp [*]
  simp [header?, withOnly, List.filter_append, List.filter_filter, isNamed, none]

end Http

end Harvest
