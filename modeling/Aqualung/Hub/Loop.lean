/-
# The home side of the hub, and the loop

What `hub.rs` does with what home links send, then `handle` and the loop of `Hub::run` as a
machine.  Dropping a `Link` fires its halt (`impl Drop for Link`), so every place where the
source lets go of one shows an `Effect.halt` here.

`Replace`, `Armed` and `CandidateSlot` are the values that the source passes by ownership while it
takes a candidate out of `Home` and puts it back.  They are kept, with the same functions on them,
although between `take_candidate` and `put_candidate` the field `home` is `Away` and nobody looks:
that nobody looks is one of the things to be checked.
-/
import Aqualung.Hub.Phones
import Aqualung.Lib.Machine

namespace Aqualung

open Lib

/-! ## 1. Letting go of a link -/

/-- `impl Drop for Link`. -/
def Link.drop (link : Link) : List Effect := [.halt link.homeGen]

def Replace.abort (rep : Replace) : Live × List Effect :=
  (rep.incumbent, rep.incoming.link.drop)

def Replace.arm (rep : Replace) : Except Replace Armed :=
  match rep.incoming.intoLive with
  | .ok successor => .ok ⟨rep.incumbent, successor⟩
  | .error incoming => .error ⟨rep.incumbent, incoming⟩

def Armed.cutover (armed : Armed) : Live × List Effect :=
  (armed.successor, armed.incumbent.link.drop)

namespace Hub

/-! ## 2. Roles and the candidate slot -/

def role (h : Hub) (g : HomeGen) : Role :=
  match h.home with
  | .sole live => if live.link.homeGen = g then .mux else .unknown
  | .bringingUp incoming => if incoming.link.homeGen = g then .candidate else .unknown
  | .dual rep =>
    if rep.incumbent.link.homeGen = g then .mux
    else if rep.incoming.link.homeGen = g then .candidate
    else .unknown
  | .away => .unknown

/-- `take_candidate`: when it succeeds, `home` is left `Away`. -/
def takeCandidate (h : Hub) (g : HomeGen) : Option (Incoming × CandidateSlot) × Hub :=
  match h.home with
  | .bringingUp incoming =>
    if incoming.link.homeGen = g then (some (incoming, ⟨none⟩), { h with home := .away })
    else (none, h)
  | .dual rep =>
    if rep.incoming.link.homeGen = g then
      (some (rep.incoming, ⟨some rep.incumbent⟩), { h with home := .away })
    else (none, h)
  | _ => (none, h)

def putCandidate (h : Hub) (incoming : Incoming) (slot : CandidateSlot) : Hub :=
  match slot.incumbent with
  | none => { h with home := .bringingUp incoming }
  | some incumbent => { h with home := .dual ⟨incumbent, incoming⟩ }

def currentDeadline (h : Hub) : Option Instant :=
  match h.home with
  | .bringingUp incoming => incoming.deadline
  | .dual rep => rep.incoming.deadline
  | _ => none

/-! ## 3. Links come and go -/

def onAccepted (now : Instant) (h : Hub) : Hub × List Effect :=
  let g := h.nextGen + 1
  let incoming := Incoming.waitRegistered ⟨g⟩ (now + REGISTER_WAIT)
  let h := { h with nextGen := g }
  match h.home with
  | .away => ({ h with home := .bringingUp incoming }, [.bindGen g])
  | .sole incumbent => ({ h with home := .dual ⟨incumbent, incoming⟩ }, [.bindGen g])
  | .dual rep =>
    let (incumbent, out) := rep.abort
    ({ h with home := .dual ⟨incumbent, incoming⟩ }, .bindGen g :: out)
  | .bringingUp old => ({ h with home := .bringingUp incoming }, .bindGen g :: old.link.drop)

def failIncoming (h : Hub) (g : HomeGen) : Hub × List Effect :=
  match h.home with
  | .bringingUp incoming =>
    if incoming.link.homeGen = g then ({ h with home := .away }, incoming.link.drop) else (h, [])
  | .dual rep =>
    if rep.incoming.link.homeGen = g then
      let (incumbent, out) := rep.abort
      ({ h with home := .sole incumbent }, out)
    else (h, [])
  | _ => (h, [])

def onHomeEof (h : Hub) (g : HomeGen) : Hub × List Effect :=
  match h.role g with
  | .unknown => (h, [])
  | .mux =>
    match h.home with
    | .sole live =>
      if live.link.homeGen = g then
        let h := { h with home := .away }
        (h, live.link.drop ++ h.broadcastAway true)
      else (h, [])
    | .dual rep =>
      if rep.incumbent.link.homeGen = g then
        let h := { h with home := .bringingUp rep.incoming }
        (h, rep.incumbent.link.drop ++ h.broadcastAway true)
      else (h, [])
    | _ => (h, [])
  | .candidate => h.failIncoming g

def onDeadline (h : Hub) : Hub × List Effect :=
  match h.home with
  | .bringingUp incoming =>
    if incoming.deadline.isSome then ({ h with home := .away }, incoming.link.drop) else (h, [])
  | .dual rep =>
    if rep.incoming.deadline.isSome then
      let (incumbent, out) := rep.abort
      ({ h with home := .sole incumbent }, out)
    else (h, [])
  | _ => (h, [])

def finishSuccessor (h : Hub) (successor : Live) (slot : CandidateSlot) : Hub × List Effect :=
  match slot.incumbent with
  | none =>
    let h := { h with home := .sole successor }
    (h, h.broadcastAway false)
  | some incumbent =>
    match Replace.arm ⟨incumbent, .ready successor.link⟩ with
    | .ok armed =>
      let (live, out) := armed.cutover
      ({ h with home := .sole live }, out)
    | .error rep => ({ h with home := .dual rep }, [])

/-! ## 4. The follower handshake -/

def sendFollowerInitialize (h : Hub) (link : Link) : Hub × List Effect :=
  let (id, h) := h.allocReq
  ({ h with outstanding := h.outstanding.insert id .hubInitialize },
    [.toHome link.homeGen (.acp (followerInitialize id))])

def onRegistered (now : Instant) (h : Hub) (g : HomeGen) (ready : Bool) (version : Nat) :
    Hub × List Effect :=
  if version ≠ LEADER_PROTOCOL_VERSION then
    failIncoming { h with refusedVersion := some version } g
  else
    match takeCandidate { h with refusedVersion := none } g with
    | (none, h) => (h, [])
    | (some (.waitRegistered link _, slot), h) =>
      if ready then
        let (h, out) := h.sendFollowerInitialize link
        (h.putCandidate (.waitInitialize link) slot, out)
      else (h.putCandidate (.waitReady link (now + READY_WAIT)) slot, [])
    | (some (incoming, slot), h) => (h.putCandidate incoming slot, [])

def onLeaderReady (h : Hub) (g : HomeGen) : Hub × List Effect :=
  match h.takeCandidate g with
  | (none, h) => (h, [])
  | (some (.waitReady link _, slot), h) =>
    let (h, out) := h.sendFollowerInitialize link
    (h.putCandidate (.waitInitialize link) slot, out)
  | (some (incoming, slot), h) => (h.putCandidate incoming slot, [])

def afterFollowerInitialize (h : Hub) (g : HomeGen) : Hub × List Effect :=
  match h.takeCandidate g with
  | (none, h) => (h, [])
  | (some (.waitInitialize link, slot), h) =>
    let (pending, nextReq) := PendingLoads.start h.watchers.keys PendingLoads.countUp h.nextReq
    let h := { h with nextReq }
    match pending with
    | none => h.finishSuccessor ⟨link⟩ slot
    | some pending =>
      let outstanding :=
        pending.requests.foldl (fun m e => m.insert e.1 Wait.hubLoad) h.outstanding
      (putCandidate { h with outstanding } (.waitLoads link pending) slot,
        pending.requests.map fun e => .toHome link.homeGen (.acp (sessionLoad e.1 e.2)))
  | (some (incoming, slot), h) => (h.putCandidate incoming slot, [])

def afterLoadResult (h : Hub) (g : HomeGen) (id : HomeReqId) : Hub × List Effect :=
  match h.takeCandidate g with
  | (none, h) => (h, [])
  | (some (.waitLoads link pending, slot), h) =>
    match pending.loaded id with
    | .more pending | .ignore pending => (h.putCandidate (.waitLoads link pending) slot, [])
    | .done => h.finishSuccessor ⟨link⟩ slot
  | (some (incoming, slot), h) => (h.putCandidate incoming slot, [])

/-! ## 5. What comes over a link -/

def onHomeResult (h : Hub) (g : HomeGen) (obj : Obj) : Hub × List Effect :=
  match obj.id.bind Json.asU64 with
  | none => (h, [])
  | some id =>
    match h.outstanding.lookup id with
    | none => (h, [])
    | some wait =>
      let h := { h with outstanding := h.outstanding.erase id }
      match wait with
      | .forwarded phone origin =>
        if h.role g ≠ .mux then (h, [])
        else
          let h := match sessionIdIn obj with
            | some session => h.watch phone session
            | none => h
          (h, h.sendPhone phone (obj.withId origin))
      | .hubInitialize =>
        if h.role g ≠ .candidate then (h, [])
        else if (obj.get "error").isSome then h.failIncoming g
        else h.afterFollowerInitialize g
      | .hubLoad =>
        if h.role g ≠ .candidate then (h, [])
        else h.afterLoadResult g id

def onHomeNotification (order : IterOrder) (h : Hub) (obj : Obj) : List Effect :=
  match obj.method with
  | none => []
  | some method =>
    if methodOf method ≠ "session/update" then []
    else
      match sessionIdIn obj with
      | none => []
      | some session =>
        match h.watchers.lookup session with
        | none => []
        | some set => (order.list session set).flatMap fun phone => h.sendPhone phone obj

/-- The phones a request from home is put to: all watchers of its session for an interaction,
its driver otherwise. -/
def targets (order : IterOrder) (h : Hub) (method : String) (session : SessionId) :
    List PhoneId :=
  if isInteraction method then
    match h.watchers.lookup session with
    | some set => order.list session set
    | none => []
  else (h.driver.lookup session).toList

/-- The loop of `on_reverse_request` over its targets. -/
def askPhones (claimKey : HomeReqId) (obj : Obj) : Hub → List PhoneId → Hub × List Effect
  | h, [] => (h, [])
  | h, phone :: rest =>
    let (phoneId, h) := h.allocReverseId
    let h := { h with reverse := h.reverse.insert (phone, phoneId) claimKey }
    let out := h.sendPhone phone (obj.withId phoneId)
    let (h, outs) := askPhones claimKey obj h rest
    (h, out ++ outs)

def onReverseRequest (order : IterOrder) (h : Hub) (obj : Obj) : Hub × List Effect :=
  match obj.method with
  | none => (h, [])
  | some method =>
    match obj.id with
    | none => (h, [])
    | some homeId =>
      match sessionIdIn obj with
      | none => (h, [])
      | some session =>
        let targets := h.targets order method session
        if targets = [] then (h, [])
        else
          let (claimKey, h) := h.allocReq
          let h := { h with claims := h.claims.insert claimKey (.opened homeId) }
          askPhones claimKey obj h targets

def onHomeAcp (order : IterOrder) (h : Hub) (g : HomeGen) (payload : RpcText) :
    Hub × List Effect :=
  match parseRpcText payload with
  | .error _ => (h, [])
  | .ok obj =>
    if obj.method.isSome ∧ obj.id.isSome then
      if h.role g = .mux then h.onReverseRequest order obj else (h, [])
    else if obj.method.isSome then
      if h.role g = .mux then (h, h.onHomeNotification order obj) else (h, [])
    else if obj.id.isSome then h.onHomeResult g obj
    else (h, [])

def onHomeFrame (t : Turn) (h : Hub) (g : HomeGen) (msg : LeaderServer) : Hub × List Effect :=
  match h.role g with
  | .unknown => (h, [])
  | .mux | .candidate =>
    match msg with
    | .registered ready version =>
      if h.role g = .candidate then h.onRegistered t.now g ready version else (h, [])
    | .leaderReady => if h.role g = .candidate then h.onLeaderReady g else (h, [])
    | .acp payload => h.onHomeAcp t.order g payload
    | .pong | .unknown => (h, [])
    | .error _ => if h.role g = .candidate then h.failIncoming g else h.onHomeEof g

/-! ## 6. The loop -/

def shutdown (h : Hub) : Hub × List Effect :=
  let out := match h.home with
    | .away => []
    | .bringingUp incoming => incoming.link.drop
    | .sole live => live.link.drop
    | .dual rep =>
      let (incumbent, out) := rep.abort
      out ++ incumbent.link.drop
  ({ h with home := .away, phones := ∅ }, out)

def handle (t : Turn) (h : Hub) : ToHub → Hub × List Effect
  | .accepted => h.onAccepted t.now
  | .homeFrame g msg => h.onHomeFrame t g msg
  | .homeEof g => h.onHomeEof g
  | .phoneHello => h.onPhoneHello
  | .phoneText phone text => h.onPhoneText t.order phone text
  | .phoneEof phone => (h.onPhoneEof t.order phone, [])
  | .shutdown => h.shutdown

end Hub

/-- Where `Hub::run` stands: its hub, and whether it has left its loop. -/
structure Loop where
  hub : Hub
  stopped : Bool

/-- One turn of the loop in `Hub::run`.  The sleep ends at the current deadline and not
before; without a deadline it never does. -/
def Loop.turn (l : Loop) (t : Turn) : Loop × List Effect :=
  if l.stopped then (l, [])
  else
    match t.input with
    | .closed | .recv .shutdown =>
      let (hub, out) := l.hub.shutdown
      (⟨hub, true⟩, out)
    | .recv msg =>
      let (hub, out) := l.hub.handle t msg
      (⟨hub, false⟩, out)
    | .deadline =>
      match l.hub.currentDeadline with
      | none => (l, [])
      | some deadline =>
        if deadline ≤ t.now then
          let (hub, out) := l.hub.onDeadline
          (⟨hub, false⟩, out)
        else (l, [])

/-- `Hub::run` on `Hub::new`. -/
def Hub.run : Machine Loop Turn Effect where
  init := ⟨Hub.new, false⟩
  step := Loop.turn

/-- A line of the hub's history. -/
abbrev Line := Entry Loop Turn Effect

end Aqualung
