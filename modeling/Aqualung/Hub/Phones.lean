/-
# The phone side of the hub

What `hub.rs` does with what phones send, in the order of the file, and the helpers both
sides use: sending to a phone, the mux link, the allocators and the session tables.

A function that changes the hub and sends something returns both; one that only sends returns
the effects, one that only changes the hub returns the hub.  Sending to a phone that the hub does
not know has no effect, and neither has sending home without a serving link, except where the
source answers the phone instead.
-/
import Aqualung.Hub.State

namespace Aqualung

open Lib

namespace Hub

/-! ## 1. Helpers -/

def muxLink (h : Hub) : Option Link :=
  match h.home with
  | .sole live => some live.link
  | .dual rep => some rep.incumbent.link
  | _ => none

/-- `send_phone`: a phone the hub does not know gets nothing. -/
def sendPhone (h : Hub) (phone : PhoneId) (text : Obj) : List Effect :=
  match h.phones.lookup phone with
  | some _ => [.toPhone phone text]
  | none => []

/-- `broadcast_away`: the note goes to every phone that has been answered `initialize`. -/
def broadcastAway (h : Hub) (away : Bool) : List Effect :=
  h.phones.entries.filterMap fun slot =>
    match slot.2 with
    | .ready => some (.toPhone slot.1 (hostAwayNote away))
    | .connected => none

def phoneReady (h : Hub) (phone : PhoneId) : Bool :=
  h.phones.lookup phone = some .ready

def awayError (h : Hub) (id : Json) : Obj :=
  let message := match h.refusedVersion with
    | some version => "host is away (unsupported leader protocol version " ++ toString version ++ ")"
    | none => "host is away"
  rpcError id (-32003) message

def allocReq (h : Hub) : HomeReqId × Hub :=
  (h.nextReq + 1, { h with nextReq := h.nextReq + 1 })

/-- The id a reverse sequence number stands for. -/
def reverseId (n : Nat) : JsonId := .str ("aq:" ++ toString n)

def allocReverseId (h : Hub) : JsonId × Hub :=
  (reverseId (h.reverseSeq + 1), { h with reverseSeq := h.reverseSeq + 1 })

/-! ## 2. The session tables -/

/-- `watch`.  Both callers ignore the `Err` of a phone that is not ready. -/
def watch (h : Hub) (phone : PhoneId) (session : SessionId) : Hub :=
  match h.phones.lookup phone with
  | some .ready =>
    { h with
      watchers := h.watchers.insert session (insert phone ((h.watchers.lookup session).getD ∅))
      driver := match h.driver.lookup session with
        | some _ => h.driver
        | none => h.driver.insert session phone }
  | _ => h

/-- `unwatch`.  The next driver is the first watcher in iteration order. -/
def unwatch (order : IterOrder) (h : Hub) (phone : PhoneId) (session : SessionId) : Hub :=
  match h.watchers.lookup session with
  | none => h
  | some set =>
    let set := set.erase phone
    if set = ∅ then
      { h with watchers := h.watchers.erase session, driver := h.driver.erase session }
    else
      let h := { h with watchers := h.watchers.insert session set }
      if h.driver.lookup session = some phone then
        match (order.list session set).head? with
        | some next => { h with driver := h.driver.insert session next }
        | none => h
      else h

/-! ## 3. Messages from phones -/

def onPhoneHello (h : Hub) : Hub × List Effect :=
  let id := h.nextPhone + 1
  ({ h with nextPhone := id, phones := h.phones.insert id .connected }, [.bindPhone id])

def answerInitialize (h : Hub) (phone : PhoneId) (id : Json) : Hub × List Effect :=
  match h.phones.lookup phone with
  | none => (h, [])
  | some _ =>
    let note := if h.home.isAway then [.toPhone phone (hostAwayNote true)] else []
    ({ h with phones := (h.phones.erase phone).insert phone .ready },
      .toPhone phone (initializeResult id) :: note)

def forwardRequest (h : Hub) (phone : PhoneId) (origin : Json) (obj : Obj) :
    Hub × List Effect :=
  match h.muxLink with
  | none => (h, h.sendPhone phone (h.awayError origin))
  | some link =>
    let (homeId, h) := h.allocReq
    ({ h with outstanding := h.outstanding.insert homeId (.forwarded phone origin) },
      [.toHome link.homeGen (.acp (obj.withId (.ofU64 homeId)))])

def forwardNotification (h : Hub) (obj : Obj) : List Effect :=
  match h.muxLink with
  | none => []
  | some link => [.toHome link.homeGen (.acp obj)]

def onPhoneReply (h : Hub) (phone : PhoneId) (origin : JsonId) (obj : Obj) :
    Hub × List Effect :=
  match h.reverse.lookup (phone, origin) with
  | none => (h, [])
  | some claimKey =>
    let h := { h with reverse := h.reverse.erase (phone, origin) }
    match h.claims.lookup claimKey with
    | none => (h, [])
    | some claim =>
      let h := { h with claims := h.claims.insert claimKey claim.take.2 }
      match claim.take.1 with
      | none => (h, [])
      | some homeId => (h, h.forwardNotification (obj.withId homeId))

def onPhoneRequest (order : IterOrder) (h : Hub) (phone : PhoneId) (method : String) (id : Json)
    (obj : Obj) : Hub × List Effect :=
  if method = "initialize" then h.answerInitialize phone id
  else if method = "authenticate" then
    (h, h.sendPhone phone (rpcError id (-32601) "Method not found"))
  else if method = "session/load" ∨ method = "session/resume" then
    if ¬ h.phoneReady phone then
      (h, h.sendPhone phone (rpcError id (-32600) "phone has not initialized"))
    else
      let h := match sessionIdIn obj with
        | some session => h.watch phone session
        | none => h
      h.forwardRequest phone id obj
  else if method = "session/close" then
    let h := match sessionIdIn obj with
      | some session => h.unwatch order phone session
      | none => h
    h.forwardRequest phone id obj
  else if isSessionMethod method ∧ ¬ h.phoneReady phone then
    (h, h.sendPhone phone (rpcError id (-32600) "phone has not initialized"))
  else h.forwardRequest phone id obj

def onRpc (order : IterOrder) (h : Hub) (phone : PhoneId) (obj : Obj) : Hub × List Effect :=
  match obj.method with
  | some method =>
    match obj.id with
    | some id => h.onPhoneRequest order phone method id obj
    | none => (h, h.forwardNotification obj)
  | none =>
    if (obj.get "result").isSome ∨ (obj.get "error").isSome then
      match obj.id with
      | some id => h.onPhoneReply phone id obj
      | none => (h, [])
    else (h, [])

def onPhoneText (order : IterOrder) (h : Hub) (phone : PhoneId) (text : RpcText) :
    Hub × List Effect :=
  match h.phones.lookup phone with
  | none => (h, [])
  | some _ =>
    match parseRpcText text with
    | .ok obj => h.onRpc order phone obj
    | .error _ => (h, h.sendPhone phone (rpcError .null (-32700) "Parse error"))

/-- `on_phone_eof`.  A session the phone drove gets the first remaining watcher in iteration
order, or no driver. -/
def onPhoneEof (order : IterOrder) (h : Hub) (phone : PhoneId) : Hub :=
  let h := { h with
    phones := h.phones.erase phone
    watchers := h.watchers.retain fun _ set =>
      let set := set.erase phone
      if set = ∅ then none else some set }
  let orphaned := h.driver.entries.filterMap fun e => if e.2 = phone then some e.1 else none
  let next := fun session =>
    (h.watchers.lookup session).bind fun set => (order.list session set).head?
  { h with
    driver := h.driver.assign next orphaned
    reverse := h.reverse.retain fun key claim => if key.1 ≠ phone then some claim else none }

end Hub

end Aqualung
