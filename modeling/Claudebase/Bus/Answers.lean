import Claudebase.Base.Json
import Claudebase.Base.Run

/-!
# The answers on a connection

`src/daemon/server.rs:574–896,1089–1114`, `src/daemon/ipc.rs:19–67`. The request loop of a
connection puts an answer to each request on a channel, forwarders put notifications there, and a
writer at its end writes one frame after another, until one is too large.
-/

namespace Claudebase.Bus
open Claudebase.Base

/-- `MAX_FRAME_SIZE`. -/
def maxFrameSize : Nat := 16 * 1024 * 1024

/-! ### Answers -/

/-- What the handler of a tool comes back with: a result, or the code and the text of an error. -/
inductive Outcome where
  | result (payload : Json)
  | error (code : Int) (message : String)

/-- What an answer says: the tools there are, a text, an error, or `pong`. -/
inductive Reply where
  | tools
  | text (text : List Char)
  | error (code : Int) (message : String)
  | pong (n : Nat)

/-- `build_tools_list_response`, of the tools it lists. -/
def buildToolsListResponse (listing : List Json) (id : Json) : Json :=
  .obj [("id", id), ("jsonrpc", .str "2.0"), ("result", .obj [("tools", .arr listing)])]

/-- `tool_error_response`. -/
def toolErrorResponse (id : Json) (code : Int) (message : String) : Json :=
  .obj [("error", .obj [("code", .int code), ("message", .str message)]), ("id", id),
    ("jsonrpc", .str "2.0")]

/-- `tool_text_response`, of the text of its payload. -/
def toolTextResponse (id : Json) (text : List Char) : Json :=
  .obj [("id", id), ("jsonrpc", .str "2.0"), ("result", .obj [("content",
    .arr [.obj [("text", .str (String.ofList text)), ("type", .str "text")]])])]

/-- The frame of an answer. -/
def Reply.frame (listing : List Json) (id : Json) : Reply → Json
  | .tools => buildToolsListResponse listing id
  | .text s => toolTextResponse id s
  | .error code message => toolErrorResponse id code message
  | .pong n => .obj [("pong", .int n)]

/-- An answer to a tool call. -/
def Outcome.reply : Outcome → Reply
  | .result payload => .text payload.render
  | .error code message => .error code message

/-- `remote_may_call`. -/
def remoteMayCall (tool : String) : Bool :=
  ["claudebase_daemon_status", "chat_post", "chat_reply", "chat_subscribe", "chat_list",
    "chat_list_threads", "chat_ask", "chat_list_pending_asks", "agent_register", "agent_rename",
    "agent_bind_session", "agent_describe", "agent_send", "agent_set_dnd", "agent_unregister",
    "agent_list_alive"].contains tool ||
  ((stripPrefix "journal_" tool).isSome && tool != "journal_feedback") ||
  (stripPrefix "session_" tool).isSome ||
  ["auth_set_token", "auth_status", "auth_clear_token"].contains tool ||
  ["pool_job", "pool_reply", "pool_fail", "pool_ready", "pool_cleared"].contains tool

/-- A tool that has a handler. -/
def hasHandler (tool : String) : Bool :=
  ["chat_post", "chat_reply", "chat_subscribe", "chat_list", "chat_list_threads", "agent_register",
    "agent_rename", "agent_bind_session", "agent_describe", "agent_send", "agent_set_dnd",
    "agent_unregister", "agent_list_alive", "agent_reap", "chat_ask",
    "chat_list_pending_asks"].contains tool ||
  ["pool_", "auth_", "session_", "journal_"].any fun pat ↦ (stripPrefix pat tool).isSome

/-- What is said to a client on another machine. -/
def notRemote (tool : String) : String :=
  "`" ++ tool ++ "` is not available over a remote connection; run it on the daemon's machine"

/-- The answer to `tools/call`. -/
def callReply (remote : Bool) (inbound : Json) (outcome : Outcome) : Reply :=
  let params := (inbound.get? "params").getD .null
  let tool := (params.str? "name").getD ""
  if remote = true ∧ remoteMayCall tool = false then .error (-32601) (notRemote tool)
  else if tool = "claudebase_daemon_status" then
    .text (Json.obj [("status", .str "up")]).render
  else if hasHandler tool = true then outcome.reply
  else .error (-32601) "Method not found"

/-- `Value::as_u64`. -/
def asU64? : Json → Option Nat
  | .int n => if 0 ≤ n ∧ n < 18446744073709551616 then some n.toNat else none
  | _ => none

section

-- `serde_json::from_slice`, the tools that are listed, and whether the peer is on another machine
variable (parse : List UInt8 → Option Json) (listing : List Json) (remote : Bool)

/-- The id an answer carries. -/
def echoId (body : List UInt8) : Json := ((parse body).bind (·.get? "id")).getD .null

/-- `method` of a request. -/
def methodOf (inbound : Json) : String := (inbound.str? "method").getD ""

/-- What the loop answers, where a call comes back with `outcome`. -/
def reply (body : List UInt8) (outcome : Outcome) : Reply :=
  match parse body with
  | none => .error (-32700) "Parse error"
  | some inbound =>
    if methodOf inbound = "tools/list" then .tools
    else if methodOf inbound = "tools/call" then callReply remote inbound outcome
    else .pong (((inbound.get? "ping").bind asU64?).getD 0)

/-- The frame with the answer to a request. -/
def respond (body : List UInt8) (outcome : Outcome) : Json :=
  (reply parse remote body outcome).frame listing (echoId parse body)

/-- A frame that a forwarder passes on. -/
def notification (params : Json) : Json :=
  .obj [("jsonrpc", .str "2.0"), ("method", .str "notifications/claude/channel"),
    ("params", params)]

/-! ### The channel and its writer -/

/-- A connection: whether its loop reads, the frames on the channel, none once the writer has ended,
and the frames that have been written. -/
structure Line where
  reading : Bool
  outbound : Option (List Json)
  wire : List Json

/-- What happens: a frame is read and answered, a forwarder passes a notification on, or the writer
takes a frame. -/
inductive LineAct where
  | request (body : List UInt8) (outcome : Outcome)
  | notify (params : Json)
  | write

namespace Line

/-- A connection that has been accepted. -/
def accepted : Line := ⟨true, some [], []⟩

/-- A frame goes on the channel, as long as somebody is at its end. -/
def send (s : Line) (frame : Json) : Line := { s with outbound := s.outbound.map (· ++ [frame]) }

/-- `write_frame`, and the end of the writer when it fails. -/
def write (s : Line) : Line :=
  match s.outbound with
  | some (frame :: rest) =>
    if maxFrameSize < frame.toBytes.length then { s with outbound := none }
    else { s with outbound := some rest, wire := s.wire ++ [frame] }
  | _ => s

/-- One step. -/
def next (s : Line) : LineAct → Line
  | .request body outcome =>
    if s.reading = false then s
    -- `read_frame` refuses it, and the loop is over
    else if maxFrameSize < body.length then { s with reading := false }
    else s.send (respond parse listing remote body outcome)
  | .notify params => s.send (notification params)
  | .write => s.write

end Line

/-! ### Lengths -/

/-- How long an answer is, by what it says and the id it carries. -/
def Reply.length (listing : List Json) (id : Json) : Reply → Nat
  | .tools => 43 + id.size + (Json.arr listing).size
  | .text s => 70 + id.size + byteCount (jsonQuote s)
  | .error code message =>
    52 + id.size + byteCount (decimal code) + byteCount (jsonQuote message.toList)
  | .pong n => 9 + byteCount (decimal n)

/-- The length of a frame is that of what varies in it, and of its fixed parts. -/
theorem length_frame (listing : List Json) (id : Json) (r : Reply) :
    (r.frame listing id).toBytes.length = r.length listing id := by
  have hid : byteCount (jsonQuote "id".toList) = 4 := by decide
  have hjsonrpc : byteCount (jsonQuote "jsonrpc".toList) = 9 := by decide
  have hversion : byteCount (jsonQuote "2.0".toList) = 5 := by decide
  have hresult : byteCount (jsonQuote "result".toList) = 8 := by decide
  rw [Json.length_toBytes]
  cases r with
  | tools =>
    have htools : byteCount (jsonQuote "tools".toList) = 7 := by decide
    rw [Reply.frame, Reply.length, buildToolsListResponse, Json.size_obj_cons, Json.size_obj_cons,
      Json.size_obj_one, Json.size_obj_one, Json.size_str, hid, hjsonrpc, hversion, hresult, htools]
    omega
  | text s =>
    have hcontent : byteCount (jsonQuote "content".toList) = 9 := by decide
    have htext : byteCount (jsonQuote "text".toList) = 6 := by decide
    have htype : byteCount (jsonQuote "type".toList) = 6 := by decide
    have hs : (String.ofList s).toList = s := String.toList_ofList
    rw [Reply.frame, Reply.length, toolTextResponse, Json.size_obj_cons, Json.size_obj_cons,
      Json.size_obj_one, Json.size_obj_one, Json.size_arr_one, Json.size_obj_cons,
      Json.size_obj_one, Json.size_str, Json.size_str, Json.size_str, hs, hid,
      hjsonrpc, hversion, hresult, hcontent, htext, htype]
    omega
  | error code message =>
    have herror : byteCount (jsonQuote "error".toList) = 7 := by decide
    have hcode : byteCount (jsonQuote "code".toList) = 6 := by decide
    have hmessage : byteCount (jsonQuote "message".toList) = 9 := by decide
    rw [Reply.frame, Reply.length, toolErrorResponse, Json.size_obj_cons, Json.size_obj_cons,
      Json.size_obj_one, Json.size_obj_cons, Json.size_obj_one, Json.size_str, Json.size_str,
      Json.size_int, hid, hjsonrpc, hversion, herror, hcode, hmessage]
    omega
  | pong n =>
    have hpong : byteCount (jsonQuote "pong".toList) = 6 := by decide
    rw [Reply.frame, Reply.length, Json.size_obj_one, Json.size_int, hpong]
    omega

theorem length_notification (params : Json) :
    (notification params).toBytes.length = 67 + params.size := by
  have hjsonrpc : byteCount (jsonQuote "jsonrpc".toList) = 9 := by decide
  have hversion : byteCount (jsonQuote "2.0".toList) = 5 := by decide
  have hmethod : byteCount (jsonQuote "method".toList) = 8 := by decide
  have hchannel : byteCount (jsonQuote "notifications/claude/channel".toList) = 30 := by decide
  have hparams : byteCount (jsonQuote "params".toList) = 8 := by decide
  rw [Json.length_toBytes, notification, Json.size_obj_cons, Json.size_obj_cons,
    Json.size_obj_one, Json.size_str, Json.size_str, hjsonrpc, hversion, hmethod, hchannel,
    hparams]
  omega

/-! ### Requests and their answers -/

/-- A frame that answers a request; a notification names a method. -/
def isAnswer (frame : Json) : Bool := (frame.get? "method").isNone

/-- The requests among what happens. -/
def requests : List LineAct → List (List UInt8)
  | [] => []
  | .request body _ :: acts => body :: requests acts
  | _ :: acts => requests acts

/-- The frames that go on the channel. -/
def sent : List LineAct → List Json
  | [] => []
  | .request body outcome :: acts => respond parse listing remote body outcome :: sent acts
  | .notify params :: acts => notification params :: sent acts
  | .write :: acts => sent acts

/-- A body that is no JSON, or asks for the tools or for a call. -/
def Asks (body : List UInt8) : Prop :=
  ∀ inbound, parse body = some inbound →
    methodOf inbound = "tools/list" ∨ methodOf inbound = "tools/call"

/-- What goes on the channel is not too large. -/
def LineAct.Fits : LineAct → Prop
  | .request body outcome =>
    (reply parse remote body outcome).length listing (echoId parse body) ≤ maxFrameSize
  | .notify params => 67 + params.size ≤ maxFrameSize
  | .write => True

/-- The ids of the answers that have been written. -/
def answered (frames : List Json) : List (Option Json) :=
  (frames.filter isAnswer).map (·.get? "id")

/-- The ids of the requests. -/
def due (acts : List LineAct) : List (Option Json) :=
  (requests acts).map fun body ↦ some (echoId parse body)

end

end Claudebase.Bus
