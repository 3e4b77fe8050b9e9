import ScriptEngine.Base64
import ScriptEngine.Builtin
import ScriptEngine.Builtin.Document
import ScriptEngine.Host.Address
/-!
# Builtins on the network

Requests to web servers, connections that carry messages both ways, and mail.
-/

namespace ScriptEngine

namespace Web.Request

/-- Whether a byte may stand in a header name. -/
def isKeyByte (b : UInt8) : Bool := Address.isAlphanumeric b || Address.isOneOf "!#$%&'*+-.^_`|~" b

/-- The bytes of a name with the first letter, and those behind a dash, in upper case. -/
def capitalize : Bool → List UInt8 → List UInt8
  | _, [] => []
  | start, b :: rest =>
    (if start then Text.upperByte b else Text.lowerByte b) :: capitalize (b = 0x2D) rest

/-- The usual spelling of a header name; a name with bytes that can not stand in one is left alone. -/
def canonicalKey (key : Text) : Text :=
  if key.bytes.all isKeyByte then ⟨capitalize true key.bytes⟩ else key

/-- A header with a name set to a value. -/
def setHeader (key value : Text) (headers : List (Text × Text)) : List (Text × Text) :=
  Json.insert (canonicalKey key) value headers

end Web.Request

/-- The verb of a method, for messages. -/
def Web.verb (method : Text) : Text :=
  method.take 1 ++ (method.drop 1).lowerAscii

/-- Makes a request, which is kept in memory, and gives the answer of the server, if there is one. -/
def Host.request (h : Host) (r : Web.Request) : Option Web.Response × Host :=
  (h.web.routes.lookup (r.method ++ " " ++ r.url),
    { h with web := { h.web with seen := r :: h.web.seen } })

namespace HttpOp

/-- The headers that a user in an address asks for. -/
def authorization (a : Address) (headers : List (Text × Text)) : List (Text × Text) :=
  match a.user with
  | some u =>
    if (Json.lookup "Authorization" headers).any (!·.isEmpty) then headers
    else
      let pair := u.name ++ ":" ++ u.password.getD ""
      Web.Request.setHeader "Authorization" ("Basic " ++ ⟨Base64.standard.encode pair.bytes⟩) headers
  | none => headers

/-- The headers that json data gives: the entries of an object. -/
def headersOf (j : Json) (headers : List (Text × Text)) : List (Text × Text) :=
  match j with
  | .object entries => entries.foldl (fun hs (k, v) => Web.Request.setHeader k v.plain hs) headers
  | _ => headers

/-- Makes a request and gives the body of the answer. A status of 400 and above is a fault. -/
def fetch (method url body : Text) (contentType : Option Text) (headers : Value) : Exec Text := do
  match Address.parse url with
  | .error e =>
    throw (Fault.raised Fault.validationError ("invalid request: " ++ Address.failure e))
  | .ok a =>
    let a := a.withoutEmptyPort
    let given ← if headers.isNull then pure Json.null else do Exec.tree (← StoreM.toNode headers)
    let hs : List (Text × Text) := contentType.elim [] fun t => [("Content-Type", t)]
    let hs := authorization a (headersOf given hs)
    let failure (why : Text) : Fault :=
      Fault.raised Fault.networkError (method ++ " " ++ url ++ ": " ++ why)
    let (answer, h) := (← Exec.host).request ⟨method, a.render false, hs, body⟩
    Exec.onHost fun _ => h
    match answer with
    | none => throw (failure (Web.verb method ++ " " ++ (a.render true).quoted ++ ": no route"))
    | some r => if r.status ≥ 400 then throw (failure ("HTTP " ++ toString r.status)) else pure r.body

/-- Runs an operation. -/
def run (op : HttpOp) (args : Args) : Exec Value := do
  let url ← args.text 0
  match op with
  | .getText => do pure (.string (← fetch "GET" url "" none (args.value 1)))
  | .getJson => do
    let t ← fetch "GET" url "" none (args.value 1)
    StoreM.parseJson t
  | .postText =>
    let body ← args.text 1
    pure (.string (← fetch "POST" url body (some "text/plain; charset=utf-8") (args.value 2)))
  | .postJson =>
    let j ← Exec.tree (← args.node 1)
    match j.encode with
    | .error e => throw (Fault.raised Fault.validationError ("cannot encode body: " ++ e))
    | .ok body =>
      let t ← fetch "POST" url body (some "application/json") (args.value 2)
      if t.trim.isEmpty then pure .null else StoreM.parseJson t

end HttpOp

namespace SocketOp

/-- Whether an address leads to the peer that answers messages with an echo. -/
def isEcho (a : Address) : Bool :=
  a.scheme = "ws" && (a.host = some "echo" || a.host = some "echo:80")

/-- Connects to the peer of an address. -/
def connectTo (url : Text) : Exec Value := do
  let failure (why : Text) : Fault :=
    Fault.raised Fault.networkError ("websocket dial " ++ url ++ ": " ++ why)
  match Address.parse url with
  | .error e => throw (failure (Address.failure e))
  | .ok a =>
    if (a.scheme ≠ "ws" && a.scheme ≠ "wss") || a.user.isSome then
      throw (failure "malformed ws or wss URL")
    if !isEcho a then throw (failure "no route")
    let (handle, sockets) := (← Exec.host).sockets.add ⟨url, [], true⟩
    Exec.onHost fun h => { h with sockets := sockets }
    Exec.log .debug "websocket connected" [("handle", .text handle), ("url", .text url)]
    pure (.string handle)

/-- The socket after a message was sent: the peer answers, or hangs up. -/
def sent (s : Socket) (message : Text) : Socket :=
  if !s.connected then s
  else if message = "bye" then { s with connected := false }
  else { s with incoming := s.incoming ++ ["echo:" ++ message] }

/-- Runs an operation. -/
def run (op : SocketOp) (args : Args) : Exec Value := do
  let name ← args.text 0
  match op with
  | .connect => connectTo name
  | .send =>
    let s ← Exec.ofExcept ((← Exec.host).sockets.get name)
    let s := sent s (← args.text 1)
    Exec.onHost fun h => { h with sockets := h.sockets.set name s }
    pure (.bool true)
  | .read =>
    let s ← Exec.ofExcept ((← Exec.host).sockets.get name)
    match s.incoming with
    | message :: rest =>
      Exec.onHost fun h => { h with sockets := h.sockets.set name { s with incoming := rest } }
      pure (.string message)
    | [] => pure .null
  | .close =>
    let (s, sockets) := (← Exec.host).sockets.remove name
    Exec.onHost fun h => { h with sockets := sockets }
    pure (.bool s.isSome)

end SocketOp

namespace MailOp

/-- Runs an operation. No mail server is in reach. -/
def run (op : MailOp) (_ : Args) : Exec Value := do
  match op with
  | .send =>
    let settings := (← Exec.host).mail
    if settings.host.isEmpty || settings.port = 0 then
      throw (Fault.raised Fault.validationError
        "mail is not configured: set SMTP_HOST and SMTP_PORT")
    throw (Fault.raised Fault.networkError
      ("failed to send email: dial tcp " ++ settings.host ++ ":" ++ toString settings.port
        ++ ": connect: network is unreachable"))

end MailOp

end ScriptEngine
