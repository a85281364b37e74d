import Runbook.Http
import Runbook.Json.Reader
import Runbook.Model.Basic

/-!
# Where models answer

An endpoint of a provider has an address and one of two dialects. In the one for messages, the
instructions stand beside the messages and an answer is a list of blocks, of which those with text
count. In the one for chats, the instructions are the first message and the first choice of an
answer counts.

An answer that is not a success becomes an error by its status alone. What a server asks for in
seconds is passed on in milliseconds of 64 bits.
-/

set_option autoImplicit false

namespace Runbook.Model

inductive Dialect where
  | messages
  | chat
  deriving DecidableEq, Repr, Inhabited

structure Endpoint where
  name : String
  baseUrl : String
  dialect : Dialect
  deriving DecidableEq, Repr, Inhabited

namespace Endpoint

/-- The endpoint for chats that every provider has. -/
def chatOf (p : Provider) : Endpoint :=
  { name := p.name
    baseUrl := match p with
      | .anthropic => "https://api.anthropic.com/v1"
      | .openai => "https://api.openai.com/v1"
      | .gemini => "https://generativelanguage.googleapis.com/v1beta/openai"
      | .deepseek => "https://api.deepseek.com/v1"
      | .mistral => "https://api.mistral.ai/v1"
    dialect := .chat }

/-- The endpoint that is used for a provider. -/
def ofProvider : Provider → Endpoint
  | .anthropic =>
      { name := Provider.anthropic.name, baseUrl := "https://api.anthropic.com"
        dialect := .messages }
  | p => chatOf p

/-! ## Requests -/

/-- Without the slashes at the end. -/
def trimSlashes (s : String) : String :=
  String.ofList (s.toList.reverse.dropWhile (· = '/')).reverse

def url (e : Endpoint) : String :=
  trimSlashes e.baseUrl ++ match e.dialect with
    | .messages => "/v1/messages"
    | .chat => "/chat/completions"

/-- The headers that carry the key. -/
def keyHeaders (e : Endpoint) (key : String) : List (String × String) :=
  match e.dialect with
  | .messages => [("x-api-key", key), ("anthropic-version", "2023-06-01")]
  | .chat => [("authorization", "Bearer " ++ key)]

def messageText (role content : String) : String :=
  Json.tableText [("role", Json.quote role), ("content", Json.quote content)]

def listText (items : List String) : String := "[" ++ Text.join "," items ++ "]"

/-- The text of a request. -/
def bodyText (e : Endpoint) (r : Request) : String :=
  let user := messageText "user" r.prompt
  let temperature := [("temperature", singleText r.temperature)]
  let limit := [("max_tokens", toString r.maxTokens)]
  match e.dialect with
  | .messages =>
      Json.tableText ([("model", Json.quote r.model)] ++ limit ++
        (r.system.map fun s => ("system", Json.quote s)).toList ++ temperature ++
        [("messages", listText [user])])
  | .chat =>
      let system := (r.system.map (messageText "system")).toList
      Json.tableText ([("model", Json.quote r.model),
        ("messages", listText (system ++ [user]))] ++ limit ++ temperature)

/-- What is sent for a request. -/
def request (e : Endpoint) (key : String) (r : Request) : Http.Request :=
  { url := e.url
    headers := e.keyHeaders key ++ [("content-type", "application/json")]
    body := e.bodyText r }

/-! ## Answers -/

/-- The text of a block; none of a block of another kind. -/
def decodeBlock : Decoder (Option String) := fun v => do
  let (tag, fields) ← Decode.tagged "type" v
  if tag = "text" then
    let fs ← Decode.record "text block" [Decode.field "text" Decode.text] fields
    return some (← Decode.required "text" Decode.text fs)
  else return none

/-- Reads an answer in the dialect for messages. -/
def decodeMessage : Decoder Response := fun v => do
  let blocks := Decode.list decodeBlock
  let fs ← Decode.record "message answer"
    [Decode.field "model" Decode.text, Decode.field "content" blocks,
      Decode.field "stop_reason" (Decode.option Decode.text),
      Decode.field "usage" Usage.decode] v
  let model ← Decode.required "model" Decode.text fs
  let content ← Decode.required "content" blocks fs
  return {
    content := Text.join "" (content.filterMap id)
    model
    stopReason := ← Decode.optional "stop_reason" Decode.text fs
    usage := ← Decode.required "usage" Usage.decode fs }

def decodeChatUsage : Decoder Usage := fun v => do
  let fs ← Decode.record "chat usage"
    [Decode.field "prompt_tokens" Decode.word32, Decode.field "completion_tokens" Decode.word32] v
  return {
    inputTokens := ← Decode.required "prompt_tokens" Decode.word32 fs
    outputTokens := ← Decode.required "completion_tokens" Decode.word32 fs }

/-- The text of a chat message, if it has one. -/
def decodeChatText : Decoder (Option String) := fun v => do
  let fs ← Decode.record "chat message"
    [Decode.spare "content" (Decode.option Decode.text)] v
  Decode.optional "content" Decode.text fs

/-- The text of a choice and why it ends there. -/
def decodeChoice : Decoder (Option String × Option String) := fun v => do
  let fs ← Decode.record "chat choice"
    [Decode.field "message" decodeChatText,
      Decode.field "finish_reason" (Decode.option Decode.text)] v
  return (← Decode.required "message" decodeChatText fs,
    ← Decode.optional "finish_reason" Decode.text fs)

/-- Reads an answer in the dialect for chats; it may have no choice to offer. -/
def decodeChat : Decoder (Option Response) := fun v => do
  let choices := Decode.list decodeChoice
  let fs ← Decode.record "chat answer"
    [Decode.field "model" Decode.text, Decode.field "choices" choices,
      Decode.spare "usage" (Decode.option decodeChatUsage)] v
  let model ← Decode.required "model" Decode.text fs
  let found ← Decode.required "choices" choices fs
  let usage ← Decode.optional "usage" decodeChatUsage fs
  return found.head?.map fun choice =>
    { content := choice.1.getD "", model, stopReason := choice.2, usage := usage.getD {} }

/-- Seconds in milliseconds, both of 64 bits. -/
def milliseconds (secs : Nat) : Nat := (secs.toUInt64 * 1000).toNat

/-- The error for an answer that is not a success. -/
def statusError (a : Http.Answer) : Error :=
  let text := s!"HTTP {Http.statusText a.status}: {a.text}"
  match a.status with
  | 401 | 403 => .authentication
  | 429 => .rateLimited ((Http.retryAfter? a.headers).map milliseconds)
  | 503 | 529 => .overloaded a.text
  | 400 | 404 | 422 => .invalidRequest text
  | _ => .provider text

/-- The text of an answer is not what it should be. -/
def unreadable : Error :=
  .deserialization "failed to parse response: error decoding response body"

/-- What the text of a success says. -/
def readBody (e : Endpoint) (body : String) : Except Error Response :=
  match Json.parse? body with
  | none => .error unreadable
  | some v =>
      match e.dialect with
      | .messages => (decodeMessage v).mapError fun _ => unreadable
      | .chat =>
          match decodeChat v with
          | .error _ => .error unreadable
          | .ok none => .error (.deserialization "response has no choices")
          | .ok (some r) => .ok r

/-- What an answer says. -/
def read (e : Endpoint) (a : Http.Answer) : Except Error Response :=
  if Http.isSuccess a.status then e.readBody a.content else .error (statusError a)

/-- The answer to a request, given how to send one; a server may not answer at all. A key that
cannot stand in a header is not sent. -/
def complete (e : Endpoint) (send : Http.Request → Option Http.Answer) (key : String)
    (r : Request) : Except Error Response :=
  let q := e.request key r
  if q.isSendable then
    match send q with
    | some a => e.read a
    | none =>
        .error (.provider s!"HTTP request failed: error sending request for url ({q.url})")
  else .error (.provider "HTTP request failed: builder error")

end Endpoint
end Runbook.Model
