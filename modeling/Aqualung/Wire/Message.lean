/-
# Messages

`wire.rs` without its framing (which is `Wire/Frame.lean`): the leader's two message enums,
the JSON-RPC texts inside them, and the questions the hub asks of a JSON-RPC object.

A JSON-RPC text is known here by what `serde_json` makes of it, a value and whether anything
but blanks follows it; `parse_rpc_text` decides from there.  A text the hub itself writes is
`to_string` of an object, and is represented by that object.

The hub tells three kinds of object apart, and it does so by two fields: a request has a method
and an id, a notification a method and no id, and an answer an id and no method.  Section 5 puts
the objects that the hub makes itself into these kinds; the proofs about who is sent an answer
use nothing else of them.
-/
import Aqualung.Wire.Json

namespace Aqualung

/-! ## 1. The leader's messages -/

def LEADER_PROTOCOL_VERSION : Nat := 1

/-- What the deserializer makes of a text: nothing, or a value and whether the text goes on
after it. -/
inductive RpcText
  | malformed
  | value (v : Json) (trailing : Bool)
  deriving DecidableEq

structure ClientCapabilities where
  terminal : Bool
  fs_read : Bool
  fs_write : Bool
  deriving DecidableEq

/-- `LeaderClient`: what goes to a leader. -/
inductive LeaderClient
  | register (clientType mode : String) (capabilities : ClientCapabilities)
  | acp (payload : Obj)
  | ping
  deriving DecidableEq

/-- `LeaderClient::register`. -/
def LeaderClient.registerFrame : LeaderClient :=
  .register "aqualung-topside" "stdio" { terminal := false, fs_read := false, fs_write := false }

/-- `LeaderServer`: what comes from a leader.  A frame that is none of the named ones is
`unknown`. -/
inductive LeaderServer
  | registered (ready : Bool) (leaderProtocolVersion : Nat)
  | leaderReady
  | acp (payload : RpcText)
  | pong
  | error (message : String)
  | unknown
  deriving DecidableEq

/-! ## 2. Texts -/

inductive RpcError
  | invalid
  deriving DecidableEq

/-- `parse_rpc_text`: one JSON object and nothing after it. -/
def parseRpcText : RpcText → Except RpcError Obj
  | .value (.obj fields) false => .ok fields
  | _ => .error .invalid

/-- The text that holds just the object. -/
def RpcText.ofObj (o : Obj) : RpcText := .value (.obj o) false

@[simp] theorem parseRpcText_ofObj (o : Obj) : parseRpcText (.ofObj o) = .ok o := rfl

theorem parseRpcText_eq_ok {text : RpcText} {o : Obj} :
    parseRpcText text = .ok o ↔ text = .ofObj o := by
  unfold parseRpcText RpcText.ofObj
  split <;> simp_all

/-! ## 3. The texts topside writes -/

def hostAwayNote (away : Bool) : Obj :=
  Obj.ofFields [("jsonrpc", .str "2.0"), ("method", .str "aqualung/host_away"),
    ("params", .obj (Obj.ofFields [("away", .bool away)]))]

def initializeResult (id : Json) : Obj :=
  Obj.ofFields [("jsonrpc", .str "2.0"), ("id", id),
    ("result", .obj (Obj.ofFields [("protocolVersion", .ofU64 1), ("authMethods", .arr [])]))]

def followerInitialize (id : Nat) : Obj :=
  Obj.ofFields [("jsonrpc", .str "2.0"), ("id", .ofU64 id), ("method", .str "initialize"),
    ("params", .obj (Obj.ofFields [("protocolVersion", .ofU64 1), ("clientCapabilities", .obj [])]))]

def sessionLoad (id : Nat) (session : String) : Obj :=
  Obj.ofFields [("jsonrpc", .str "2.0"), ("id", .ofU64 id), ("method", .str "session/load"),
    ("params", .obj (Obj.ofFields [("sessionId", .str session)]))]

def rpcError (id : Json) (code : Int) (message : String) : Obj :=
  Obj.ofFields [("jsonrpc", .str "2.0"), ("id", id),
    ("error", .obj (Obj.ofFields [("code", .num (.negInt code)), ("message", .str message)]))]

/-! ## 4. Reading a JSON-RPC object -/

namespace Obj

/-- The method, where the object has one that is a string. -/
def method (o : Obj) : Option String := (o.get "method").bind Json.asStr

def id (o : Obj) : Option Json := o.get "id"

/-- A request: a method and an id. -/
def isRequest (o : Obj) : Bool := o.method.isSome && o.id.isSome

/-- An answer to a request: an id and no method. -/
def isAnswer (o : Obj) : Bool := o.method.isNone && o.id.isSome

/-- The object with another id. -/
abbrev withId (o : Obj) (v : Json) : Obj := o.set "id" v

@[simp] theorem id_withId (o : Obj) (v : Json) : (o.withId v).id = some v := by
  simp [id]

@[simp] theorem method_withId (o : Obj) (v : Json) : (o.withId v).method = o.method := by
  simp [method]

/-- Of two ids the second counts. -/
@[simp] theorem withId_withId (o : Obj) (v w : Json) : (o.withId v).withId w = o.withId w :=
  Lib.binsert_binsert_self "id" v w o

end Obj

/-- `method_of`: the method without one leading underscore. -/
def methodOf (method : String) : String :=
  match method.toList with
  | '_' :: rest => String.ofList rest
  | _ => method

def isInteraction (method : String) : Bool :=
  methodOf method ∈
    ["session/request_permission", "x.ai/ask_user_question", "x.ai/exit_plan_mode",
      "x.ai/mcp/elicit"]

/-- `method.starts_with("session/")`. -/
def isSessionMethod (method : String) : Bool := "session/".toList.isPrefixOf method.toList

/-- `session_id_in`: the string `params.sessionId`, or else the string `result.sessionId`. -/
def sessionIdIn (o : Obj) : Option String :=
  (((o.get "params").bind (·.get "sessionId")).bind Json.asStr).or
    (((o.get "result").bind (·.get "sessionId")).bind Json.asStr)

/-! ## 5. The ids and methods of the texts topside writes -/

@[simp] theorem id_followerInitialize (id : Nat) :
    (followerInitialize id).id = some (.ofU64 id) := by
  simp [followerInitialize, Obj.ofFields, Obj.id]

@[simp] theorem method_followerInitialize (id : Nat) :
    (followerInitialize id).method = some "initialize" := by
  simp [followerInitialize, Obj.ofFields, Obj.method, Json.asStr]

@[simp] theorem id_sessionLoad (id : Nat) (session : String) :
    (sessionLoad id session).id = some (.ofU64 id) := by
  simp [sessionLoad, Obj.ofFields, Obj.id]

@[simp] theorem method_sessionLoad (id : Nat) (session : String) :
    (sessionLoad id session).method = some "session/load" := by
  simp [sessionLoad, Obj.ofFields, Obj.method, Json.asStr]

@[simp] theorem sessionIdIn_sessionLoad (id : Nat) (session : String) :
    sessionIdIn (sessionLoad id session) = some session := by
  have hparams : (sessionLoad id session).get "params"
      = some (.obj (Obj.ofFields [("sessionId", .str session)])) := by
    simp [sessionLoad, Obj.ofFields]
  simp [sessionIdIn, hparams, Json.get_obj, Obj.ofFields, Json.asStr]

@[simp] theorem id_hostAwayNote (away : Bool) : (hostAwayNote away).id = none := by
  simp [hostAwayNote, Obj.ofFields, Obj.id]

@[simp] theorem method_hostAwayNote (away : Bool) :
    (hostAwayNote away).method = some "aqualung/host_away" := by
  simp [hostAwayNote, Obj.ofFields, Obj.method, Json.asStr]

@[simp] theorem method_initializeResult (id : Json) : (initializeResult id).method = none := by
  simp [initializeResult, Obj.ofFields, Obj.method]

@[simp] theorem method_rpcError (id : Json) (code : Int) (message : String) :
    (rpcError id code message).method = none := by
  simp [rpcError, Obj.ofFields, Obj.method]

@[simp] theorem isRequest_hostAwayNote (away : Bool) : (hostAwayNote away).isRequest = false := by
  simp [Obj.isRequest]

@[simp] theorem isRequest_initializeResult (id : Json) :
    (initializeResult id).isRequest = false := by
  simp [Obj.isRequest]

@[simp] theorem isRequest_rpcError (id : Json) (code : Int) (message : String) :
    (rpcError id code message).isRequest = false := by
  simp [Obj.isRequest]

example : isInteraction "_session/request_permission" = true := by decide

end Aqualung
