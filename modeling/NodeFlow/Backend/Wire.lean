import NodeFlow.Backend.Report
import NodeFlow.Backend.Status
import NodeFlow.Json.Encoding
import NodeFlow.Outside
import NodeFlow.Prompt.Basic
import NodeFlow.Url.Basic

/-!
# The backend over the wire

A client that talks to the backend by requests.  What the other side answers is a list of
replies.

Main results:

- Types `WireReply` and `WireClient`; definition `WireClient.connect`: a client for a base address.
- Definitions `WireClient.submit`, `WireClient.definitions` and `WireClient.status`.
-/

namespace NodeFlow

/-- The answer to a request. -/
inductive WireReply where
  | answer (status : Nat) (text : String)
  | noConnection
  deriving Inhabited

namespace WireReply

/-- What is answered when nothing else has been laid down. -/
def standard : WireReply :=
  answer 200 "\x7b\"prompt_id\":\"p\",\"number\":1,\"node_errors\":\x7b\x7d\x7d"

end WireReply

/-- A client of the backend: the replies to come, and the definitions if they are known. -/
structure WireClient where
  base : Url
  clientId : String
  replies : List WireReply := []
  known : Option Json := none
  /-- How often a request lets others run before it is answered. -/
  ticks : Nat := 0
  isClosed : Bool := false
  deriving Inhabited

/-- What a request brought back: the answer of the server, or a value known beforehand. -/
inductive WireAnswer where
  | reply (status : Nat) (text : String)
  | known (v : Json)

namespace WireClient

/-- A client for a base address, which has to be one. -/
def connect (baseUrl clientId : String) (replies : List WireReply) (known : Option Json) :
    Except Fault WireClient :=
  match Url.base? baseUrl with
  | some base => .ok { base, clientId, replies, known }
  | none => .error .badAddress

/-- The address of a path. -/
def url (c : WireClient) (path : String) : Except Fault Url :=
  match c.base.join? path with
  | some u => .ok u
  | none => .error .badAddress

/-- Where the definitions are asked for. -/
def definitionsPath : String := "/object_info"

/-- Take the next reply, unless the definitions are asked for and known. -/
def receive (u : Url) : Act (WireClient × Outside) WireAnswer := do
  let c := (← get).1
  match (if u.path.endsWith definitionsPath then c.known else none) with
  | some v => pure (.known v)
  | none => do
    modify fun s => ({ s.1 with replies := s.1.replies.drop 1 }, s.2)
    match c.replies.headD .standard with
    | .answer status text => pure (.reply status text)
    | .noConnection => throw (.unreachable "refused")

/-- Send a request.  A closed client sends none, and a body that is no JSON is not sent.  An answer
counts only if the address names its kind. -/
def request (method path : String) (body : Json) : Act (WireClient × Outside) WireAnswer := do
  let c := (← get).1
  let u ← Act.lift (c.url path)
  let body ← Act.lift (Fault.portableOnly body)
  if c.isClosed then
    throw (.raised ⟨.runtime, "Cannot send a request, as the client has been closed."⟩)
  else do
    modify fun s => (s.1, s.2.record (.request method u.render body))
    let answer ← receive u
    if Url.namesKind u.render then pure answer else throw (.unknownKind u.render)

/-- The value of a text of the server. -/
def decode (text : String) : Except Fault Json :=
  match Json.readBytes text with
  | .ok v => .ok v
  | .error flaw => .error (.ofFlaw flaw)

/-- How an answer to a submission with a status other than 200 is reported.  An answer nested too
deep cannot be reported. -/
def refusal (status : Nat) (text : String) : Fault :=
  match Json.readBytes text with
  | .ok (.obj ms) =>
    .rejected ("Backend rejected prompt (" ++ toString status ++ ")") (.obj ms) (.int status)
  | .error (.tooDeep isObject) => .ofFlaw (.tooDeep isObject)
  | _ =>
    .rejected (toString status ++ " " ++ reasonPhrase status ++ ": " ++
      String.ofList (text.toList.take 500)) .null (.int status)

/-- Submit a prompt. -/
def submit (number : Int) (p : Prompt) : Act (WireClient × Outside) QueueResponse := do
  let c := (← get).1
  let body ← Act.lift (p.body c.clientId number)
  match ← request "POST" "/prompt" body with
  | .known v => Act.lift (QueueResponse.read v)
  | .reply status text =>
    if status = 200 then do
      let v ← Act.lift (decode text)
      Act.lift (QueueResponse.read v)
    else throw (refusal status text)

/-- Ask for a value; any status outside the 200s is a failure. -/
def ask (path : String) : Act (WireClient × Outside) Json := do
  let c := (← get).1
  match ← request "GET" path .null with
  | .known v => pure v
  | .reply status text =>
    if 200 ≤ status && status < 300 then Act.lift (decode text)
    else do
      let u ← Act.lift (c.url path)
      throw (.badStatus status (reasonPhrase status) u.render)

/-- The definitions that the backend knows. -/
def definitions : Act (WireClient × Outside) Json := ask definitionsPath

/-- The state of the backend's queue. -/
def status : Act (WireClient × Outside) Json := ask "/prompt"

end WireClient

end NodeFlow
