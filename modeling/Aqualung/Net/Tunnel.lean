/-
# From the leader to the hub and back

The leader of the home writes its frames to a unix socket; a session of snorkel copies them to a TLS
connection, and at its other end topside has the task of a home connection.  What the hub says goes
the same way back.  Here the three are one system: topside, the session, and the bytes on their way
between them, each moving when it can.

On the way a byte may wait in many places, and none of the three sees where a frame ends in what it
is given.  The session and topside are components of the system (`sessionAt`, `serveAt`), and the
pipes between them are mailboxes of bytes; from the equations of the two come the accounts of the
way up and of the way down (`up_account`, `down_account`), which name every place in order.

A frame that cannot be written may have gone out in part, so the event says how much of it has;
it is the last thing that goes out.  What the accounts mean for frames is `Net/EndToEnd.lean`.
-/
import Aqualung.Net.Ledger
import Aqualung.Snorkel.Relay
import Aqualung.Wire.Codec

namespace Aqualung

open Lib

variable {P : Type*}

/-! ## 1. The system -/

/-- The message whose frame cannot be written in the move; a part of it may have gone out. -/
def HomeTask.broken (task : HomeTask) (ev : HomeEvent P) : Option LeaderClient :=
  match ev, task.phase with
  | .registered false, .registering _ => some .registerFrame
  | .recv false, .looping _ => task.out.head?
  | .tick false, .looping _ => some .ping
  | _, _ => none

/-- The first `part` bytes of the frame that cannot be written. -/
def HomeTask.scrap (setup : Setup P) (task : HomeTask) (part : Nat) : HomeInput P → Bytes
  | .move _ ev =>
    (((task.broken ev).bind fun msg => writeFrame (msg.toVec setup.floatText)).getD []).take part
  | _ => []

/-- Bytes arrive at the home connection `k`. -/
def ServeEvent.ArrivesAt (k : Nat) : ServeEvent P → Prop
  | .home k' (.arrived _) => k' = k
  | _ => False

instance (k : Nat) (ev : ServeEvent P) : Decidable (ev.ArrivesAt k) := by
  unfold ServeEvent.ArrivesAt
  split <;> infer_instance

/-- What goes out on the socket of the home connection `k`. -/
def ServeOut.wireOf (k : Nat) (o : ServeOut) : Option Bytes := (o.ofHome k).bind HomeOut.wire

/-- The session reads bytes, and not the end of a stream. -/
def SessionEvent.Brings (ev : SessionEvent) : Prop :=
  match ev.event with
  | .read chunk => chunk ≠ []
  | _ => False

instance (ev : SessionEvent) : Decidable ev.Brings := by
  unfold SessionEvent.Brings
  split <;> infer_instance

/-- topside, a session of snorkel, and the bytes that the leader, snorkel and topside have sent and
that have not been read. -/
structure Tunnel where
  serve : Serve := {}
  session : Session := {}
  fromLeader : Bytes := []
  toServer : Bytes := []
  toSnorkel : Bytes := []

/-- What can happen next. -/
inductive TunnelEvent (P : Type*)
  /-- The leader writes a frame. -/
  | leader (json : Bytes)
  /-- The session reads up to `n` of the bytes that are there for it on the side. -/
  | read (side : Side) (n : Nat)
  /-- Something else happens at an end of the session. -/
  | session (ev : SessionEvent)
  /-- Up to `n` of the bytes on their way arrive at topside. -/
  | arrive (n : Nat)
  /-- Something else happens in topside; of a frame that cannot be written, `part` bytes go out. -/
  | serve (ev : ServeEvent P) (part : Nat)

/-- What goes out: of the session on a side, and of topside. -/
inductive TunnelOut
  | session (side : Side) (byte : UInt8)
  | serve (o : ServeOut)

namespace TunnelOut

@[simp] def ofSession : TunnelOut → Option (Side × UInt8)
  | session side byte => some (side, byte)
  | serve _ => none

@[simp] def ofServe : TunnelOut → Option ServeOut
  | session _ _ => none
  | serve o => some o

theorem filterMap_ofSession (out : List (Side × UInt8)) :
    (out.map fun o => session o.1 o.2).filterMap ofSession = out := by
  simp [List.filterMap_map, Function.comp_def]

theorem filterMap_ofServe (out : List ServeOut) : (out.map serve).filterMap ofServe = out := by
  simp [List.filterMap_map, Function.comp_def]

theorem ofSession_serve (out : List ServeOut) : (out.map serve).filterMap ofSession = [] := by
  simp

theorem ofServe_session (out : List (Side × UInt8)) :
    (out.map fun o => session o.1 o.2).filterMap ofServe = [] := by
  simp

end TunnelOut

namespace Tunnel

/-- What is there for the session to read on a side. -/
def inbox (s : Tunnel) : Side → Bytes
  | .localSide => s.fromLeader
  | .remoteSide => s.toSnorkel

/-- What the session reads from a side in an event. -/
def readIn (s : Tunnel) (side : Side) (ev : SessionEvent) : Bytes :=
  SessionLine.readFrom side ⟨s.session, ev, []⟩

/-- The session moves. -/
def moveSession (s : Tunnel) (ev : SessionEvent) : Tunnel × List TunnelOut :=
  let (session, out) := Session.run.step s.session ev
  ({ s with
      session
      fromLeader := s.fromLeader.drop (s.readIn .localSide ev).length
      toSnorkel := s.toSnorkel.drop (s.readIn .remoteSide ev).length
      toServer := s.toServer ++ reached .remoteSide [⟨s.session, ev, out⟩] },
    out.map fun o => .session o.1 o.2)

variable (setup : Setup P) (k : Nat)

/-- What topside sends on the connection `k` in an event. -/
def sent (s : Tunnel) (ev : ServeEvent P) (part : Nat) : Bytes :=
  (((Serve.run setup).step s.serve ev).2.filterMap (ServeOut.wireOf k)).flatten ++
    (s.serve.homeTakes k ev).flatMap ((s.serve.homes k).scrap setup part)

/-- topside moves. -/
def moveServe (s : Tunnel) (ev : ServeEvent P) (part : Nat) : Tunnel × List TunnelOut :=
  let (serve, out) := (Serve.run setup).step s.serve ev
  ({ s with serve, toSnorkel := s.toSnorkel ++ s.sent setup k ev part }, out.map .serve)

/-- What happens next. -/
def step (s : Tunnel) : TunnelEvent P → Tunnel × List TunnelOut
  | .leader json => ({ s with fromLeader := s.fromLeader ++ (writeFrame json).getD [] }, [])
  | .read side n =>
    if (s.inbox side).take n = [] then (s, [])
    else s.moveSession ⟨side, .read ((s.inbox side).take n)⟩
  | .session ev => if ev.Brings then (s, []) else s.moveSession ev
  | .arrive n =>
    if (s.serve.homes k).Connected then
      let (s', out) := s.moveServe setup k (.home k (.arrived (s.toServer.take n))) 0
      ({ s' with toServer := s.toServer.drop n }, out)
    else (s, [])
  | .serve ev part => if ev.ArrivesAt k then (s, []) else s.moveServe setup k ev part

/-- The system as a machine; the session ends at the connection `k` of topside. -/
def run : Machine Tunnel (TunnelEvent P) TunnelOut where
  init := {}
  step := step setup k

/-! ## 2. The machines at work -/

/-- What the session takes in an event. -/
def sessionTakes (s : Tunnel) : TunnelEvent P → List SessionEvent
  | .read side n =>
    if (s.inbox side).take n = [] then [] else [⟨side, .read ((s.inbox side).take n)⟩]
  | .session ev => if ev.Brings then [] else [ev]
  | _ => []

/-- What topside takes in an event. -/
def serveTakes (s : Tunnel) : TunnelEvent P → List (ServeEvent P)
  | .arrive n =>
    if (s.serve.homes k).Connected then [.home k (.arrived (s.toServer.take n))] else []
  | .serve ev _ => if ev.ArrivesAt k then [] else [ev]
  | _ => []

/-- The steps of the system. -/
inductive Step (s : Tunnel) : TunnelEvent P → Tunnel → List TunnelOut → Prop
  /-- Nothing happens. -/
  | idle {ev : TunnelEvent P} (hsession : s.sessionTakes ev = []) (hserve : s.serveTakes k ev = [])
      (hev : ∀ json, ev ≠ .leader json) : Step s ev s []
  | leader {json : Bytes} :
      Step s (.leader json)
        { s with fromLeader := s.fromLeader ++ (writeFrame json).getD [] } []
  | session {ev : TunnelEvent P} {ev' : SessionEvent} (hsession : s.sessionTakes ev = [ev'])
      (hserve : s.serveTakes k ev = []) (hev : ∀ json, ev ≠ .leader json)
      (hread : ∀ side, s.readIn side ev' <+: s.inbox side) :
      Step s ev (s.moveSession ev').1 (s.moveSession ev').2
  | arrive {n : Nat} (hconn : (s.serve.homes k).Connected) :
      Step s (.arrive n)
        { (s.moveServe setup k (.home k (.arrived (s.toServer.take n))) 0).1 with
          toServer := s.toServer.drop n }
        (s.moveServe setup k (.home k (.arrived (s.toServer.take n))) 0).2
  | serve {ev : ServeEvent P} {part : Nat} (hev : ¬ ev.ArrivesAt k) :
      Step s (.serve ev part) (s.moveServe setup k ev part).1 (s.moveServe setup k ev part).2

/-- The session reads no bytes but those that an event brings. -/
theorem readIn_of_not_brings (s : Tunnel) (side : Side) {ev : SessionEvent} (hev : ¬ ev.Brings) :
    s.readIn side ev = [] := by
  obtain ⟨side', ev⟩ := ev
  unfold readIn SessionLine.readFrom
  split
  · cases ev with
    | read chunk =>
      obtain rfl : chunk = [] := by simpa [SessionEvent.Brings] using hev
      unfold CopyLine.bytesRead
      split
      · rename_i hevent
        rw [← CopyEvent.read.inj hevent, List.take_nil]
      · rfl
    | _ => exact CopyLine.bytesRead_of_not_read _ (by simp) _ _
  · rfl

/-- The session reads from the front of what is there. -/
theorem readIn_prefix (s : Tunnel) (side : Side) (n : Nat) (side' : Side) :
    s.readIn side' ⟨side, .read ((s.inbox side).take n)⟩ <+: s.inbox side' := by
  unfold readIn SessionLine.readFrom
  split
  · rename_i h
    obtain ⟨-, rfl⟩ := h
    unfold CopyLine.bytesRead
    split
    · rename_i hevent
      rw [← CopyEvent.read.inj hevent]
      exact (List.take_prefix _ _).trans (List.take_prefix _ _)
    · exact List.nil_prefix
  · exact List.nil_prefix

/-- **The system takes these steps and no others.** -/
theorem step_spec (s : Tunnel) (ev : TunnelEvent P) :
    Step setup k s ev ((run setup k).step s ev).1 ((run setup k).step s ev).2 := by
  change Step setup k s ev (step setup k s ev).1 (step setup k s ev).2
  cases ev with
  | leader json => exact .leader
  | read side n =>
    by_cases hnil : (s.inbox side).take n = []
    · simp only [step, if_pos hnil]
      exact .idle (if_pos hnil) rfl (by simp)
    · simp only [step, if_neg hnil]
      exact .session (if_neg hnil) rfl (by simp) (s.readIn_prefix side n)
  | session ev =>
    by_cases hev : ev.Brings
    · simp only [step, if_pos hev]
      exact .idle (if_pos hev) rfl (by simp)
    · simp only [step, if_neg hev]
      refine .session (if_neg hev) rfl (by simp) fun side => ?_
      rw [s.readIn_of_not_brings side hev]
      exact List.nil_prefix
  | arrive n =>
    by_cases hconn : (s.serve.homes k).Connected
    · simp only [step, if_pos hconn]
      exact .arrive hconn
    · simp only [step, if_neg hconn]
      exact .idle rfl (if_neg hconn) (by simp)
  | serve ev part =>
    by_cases hev : ev.ArrivesAt k
    · simp only [step, if_pos hev]
      exact .idle rfl (if_pos hev) (by simp)
    · simp only [step, if_neg hev]
      exact .serve hev

/-- **The session is at work in the system.** -/
def sessionAt : Component (run setup k) Session.run where
  state := session
  takes := sessionTakes
  gives := TunnelOut.ofSession
  state_init := rfl
  state_step s ev := by
    have hs := s.step_spec setup k ev
    generalize (run setup k).step s ev = next at hs ⊢
    obtain ⟨s', out⟩ := next
    cases hs with
    | idle hsession => rw [hsession]; rfl
    | session hsession => rw [hsession]; rfl
    | _ => rfl
  gives_step s ev := by
    have hs := s.step_spec setup k ev
    generalize (run setup k).step s ev = next at hs ⊢
    obtain ⟨s', out⟩ := next
    cases hs with
    | idle hsession => rw [hsession]; rfl
    | session hsession =>
      rw [hsession, Machine.historyFrom, Machine.historyFrom, List.flatMap_singleton]
      exact TunnelOut.filterMap_ofSession _
    | leader => rfl
    | arrive => exact TunnelOut.ofSession_serve _
    | serve => exact TunnelOut.ofSession_serve _

/-- **topside is at work in the system.** -/
def serveAt : Component (run setup k) (Serve.run setup) where
  state := serve
  takes := serveTakes k
  gives := TunnelOut.ofServe
  state_init := rfl
  state_step s ev := by
    have hs := s.step_spec setup k ev
    generalize (run setup k).step s ev = next at hs ⊢
    obtain ⟨s', out⟩ := next
    cases hs with
    | idle hsession hserve => rw [hserve]; rfl
    | leader => rfl
    | session hsession hserve => rw [hserve]; rfl
    | arrive hconn => rw [serveTakes, if_pos hconn]; rfl
    | serve hev => rw [serveTakes, if_neg hev]; rfl
  gives_step s ev := by
    have hs := s.step_spec setup k ev
    generalize (run setup k).step s ev = next at hs ⊢
    obtain ⟨s', out⟩ := next
    cases hs with
    | idle hsession hserve => rw [hserve]; rfl
    | leader => rfl
    | session hsession hserve =>
      rw [hserve]
      exact TunnelOut.ofServe_session _
    | arrive hconn =>
      rw [serveTakes, if_pos hconn, Machine.historyFrom, Machine.historyFrom,
        List.flatMap_singleton]
      exact TunnelOut.filterMap_ofServe _
    | serve hev =>
      rw [serveTakes, if_neg hev, Machine.historyFrom, Machine.historyFrom,
        List.flatMap_singleton]
      exact TunnelOut.filterMap_ofServe _

/-! ## 3. The bytes on their way -/

/-- What a line reads does not depend on its outputs. -/
theorem readFrom_singleton (s : Tunnel) (side : Side) (ev : SessionEvent)
    (out : List (Side × UInt8)) : readFrom side [⟨s.session, ev, out⟩] = s.readIn side ev :=
  List.append_nil _

theorem take_readIn {s : Tunnel} {side : Side} {ev : SessionEvent} {bytes : Bytes}
    (h : s.readIn side ev <+: bytes) :
    s.readIn side ev ++ bytes.drop (s.readIn side ev).length = bytes := by
  obtain ⟨rest, rfl⟩ := h
  rw [List.drop_left]

/-- What the leader writes in an event. -/
def written : TunnelEvent P → Bytes
  | .leader json => (writeFrame json).getD []
  | _ => []

/-- What of the frame of a failed write goes out. -/
def part : TunnelEvent P → Nat
  | .serve _ part => part
  | _ => 0

/-- **The bytes between the leader and snorkel.** -/
def leaderPipe : Mailbox (run setup k) UInt8 where
  queue := fromLeader
  puts _ ev := written ev
  takes s ev := readFrom .localSide (Session.run.historyFrom s.session (s.sessionTakes ev))
  queue_init := rfl
  queue_step s ev := by
    have hs := s.step_spec setup k ev
    generalize (run setup k).step s ev = next at hs ⊢
    obtain ⟨s', out⟩ := next
    have hnone : ∀ {ev : TunnelEvent P}, (∀ json, ev ≠ .leader json) → written ev = [] := by
      intro ev hev
      cases ev <;> first | rfl | exact absurd rfl (hev _)
    cases hs with
    | idle hsession hserve hev => simp [hsession, hnone hev, Machine.historyFrom, readFrom]
    | leader => rfl
    | session hsession hserve hev hread =>
      rw [hsession, hnone hev, List.append_nil, Machine.historyFrom, Machine.historyFrom,
        readFrom_singleton]
      exact (take_readIn (hread .localSide)).symm
    | arrive => exact List.append_nil _
    | serve => exact List.append_nil _

/-- **The bytes between snorkel and topside.** -/
def serverPipe : Mailbox (run setup k) UInt8 where
  queue := toServer
  puts s ev := reached .remoteSide (Session.run.historyFrom s.session (s.sessionTakes ev))
  takes s ev :=
    match ev with
    | .arrive n => if (s.serve.homes k).Connected then s.toServer.take n else []
    | _ => []
  queue_init := rfl
  queue_step s ev := by
    have hs := s.step_spec setup k ev
    generalize (run setup k).step s ev = next at hs ⊢
    obtain ⟨s', out⟩ := next
    cases hs with
    | idle hsession hserve =>
      rw [hsession]
      cases ev with
      | arrive n =>
        have hconn : ¬ (s'.serve.homes k).Connected := by simpa [serveTakes] using hserve
        simp [hconn, Machine.historyFrom, reached]
      | _ => simp [Machine.historyFrom, reached]
    | leader => simp [sessionTakes, Machine.historyFrom, reached]
    | session hsession hserve =>
      rw [hsession]
      cases ev with
      | arrive n => cases hsession
      | _ => rfl
    | @arrive n hconn =>
      simp [hconn, sessionTakes, Machine.historyFrom, reached]
    | serve => simp [sessionTakes, Machine.historyFrom, reached]

/-- **The bytes between topside and snorkel.** -/
def snorkelPipe : Mailbox (run setup k) UInt8 where
  queue := toSnorkel
  puts s ev := (s.serveTakes k ev).flatMap fun ev' => s.sent setup k ev' (part ev)
  takes s ev := readFrom .remoteSide (Session.run.historyFrom s.session (s.sessionTakes ev))
  queue_init := rfl
  queue_step s ev := by
    have hs := s.step_spec setup k ev
    generalize (run setup k).step s ev = next at hs ⊢
    obtain ⟨s', out⟩ := next
    cases hs with
    | idle hsession hserve => simp [hsession, hserve, Machine.historyFrom, readFrom]
    | leader => simp [sessionTakes, serveTakes, Machine.historyFrom, readFrom]
    | session hsession hserve hev hread =>
      rw [hsession, hserve, List.flatMap_nil, List.append_nil, Machine.historyFrom,
        Machine.historyFrom, readFrom_singleton]
      exact (take_readIn (hread .remoteSide)).symm
    | arrive hconn =>
      rw [serveTakes, if_pos hconn, List.flatMap_singleton]
      rfl
    | serve hev =>
      rw [serveTakes, if_neg hev, List.flatMap_singleton]
      rfl

/-- What the session has read from a side is what it has taken from there. -/
theorem taken_leaderPipe (evs : List (TunnelEvent P)) :
    (leaderPipe setup k).taken ((run setup k).history evs)
      = readFrom .localSide (Session.run.history
          ((sessionAt setup k).inputs ((run setup k).history evs))) := by
  rw [(sessionAt setup k).history_inputs, readFrom, List.flatMap_assoc]
  rfl

theorem taken_snorkelPipe (evs : List (TunnelEvent P)) :
    (snorkelPipe setup k).taken ((run setup k).history evs)
      = readFrom .remoteSide (Session.run.history
          ((sessionAt setup k).inputs ((run setup k).history evs))) := by
  rw [(sessionAt setup k).history_inputs, readFrom, List.flatMap_assoc]
  rfl

/-- What has reached the server is what has been put on the way to topside. -/
theorem put_serverPipe (evs : List (TunnelEvent P)) :
    (serverPipe setup k).put ((run setup k).history evs)
      = reached .remoteSide (Session.run.history
          ((sessionAt setup k).inputs ((run setup k).history evs))) := by
  rw [(sessionAt setup k).history_inputs, reached, collect, List.flatMap_assoc, List.filterMap_flatMap]
  rfl

/-- The frames that the leader has written; `write_frame` writes no others. -/
def said : TunnelEvent P → Option Bytes
  | .leader json => if json.length ≤ MAX_FRAME then some json else none
  | _ => none

theorem put_leaderPipe (evs : List (TunnelEvent P)) :
    (leaderPipe setup k).put ((run setup k).history evs) = framing.stream (evs.filterMap said) := by
  rw [(leaderPipe setup k).put_history (f := written) fun _ _ => rfl]
  induction evs with
  | nil => rfl
  | cons ev evs ih =>
    rw [List.flatMap_cons, ih, List.filterMap_cons]
    cases ev with
    | leader json =>
      by_cases hjson : json.length ≤ MAX_FRAME
      · simp [written, said, hjson, writeFrame_of_valid hjson]
      · simp [written, said, hjson, writeFrame, not_le.mp hjson]
    | _ => rfl

/-- **Where the bytes of the leader are**, at every moment: they have arrived at topside, or are on
their way there, or held by the writer of the session, or still to be accepted by it, or unread. -/
theorem up_account (evs : List (TunnelEvent P)) :
    (serverPipe setup k).taken ((run setup k).history evs) ++ ((run setup k).final evs).toServer ++
        ((run setup k).final evs).session.up.held ++
        ((run setup k).final evs).session.up.phase.rest ++ ((run setup k).final evs).fromLeader
      = framing.stream (evs.filterMap said) := by
  have hserver := (serverPipe setup k).put_eq evs
  have hleader := (leaderPipe setup k).put_eq evs
  have hsession := session_account ((sessionAt setup k).inputs ((run setup k).history evs))
    .localSide
  rw [← (sessionAt setup k).state_final, ← taken_leaderPipe, Side.opposite, ← put_serverPipe,
    hserver] at hsession
  rw [← put_leaderPipe setup k, hleader, ← hsession]
  rfl

/-- **Where the bytes for the leader are**: they have reached it, or are held by the writer of the
session, or still to be accepted by it, or on their way to snorkel. -/
theorem down_account (evs : List (TunnelEvent P)) :
    reached .localSide (Session.run.history
          ((sessionAt setup k).inputs ((run setup k).history evs))) ++
        ((run setup k).final evs).session.down.held ++
        ((run setup k).final evs).session.down.phase.rest ++ ((run setup k).final evs).toSnorkel
      = (snorkelPipe setup k).put ((run setup k).history evs) := by
  have hsnorkel := (snorkelPipe setup k).put_eq evs
  have hsession := session_account ((sessionAt setup k).inputs ((run setup k).history evs))
    .remoteSide
  rw [← (sessionAt setup k).state_final, ← taken_snorkelPipe] at hsession
  rw [hsnorkel, ← hsession]
  rfl

end Tunnel

end Aqualung
