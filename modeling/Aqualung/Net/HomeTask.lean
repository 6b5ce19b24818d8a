/-
# The task of a home connection

`home_connection` in full: the TLS handshake, the message that asks the hub for a generation, the
wait for it, the registration with the leader, and then the loop.  The loop is the machine
`HomeConnection.run`; here it takes its messages from the queue the hub fills, and what it reports
is sent to a hub that may be gone.

The task is a machine of its own.  What the hub does to it (`bind`, `queue`, `drop`) comes in
between its own moves (`move`), in any order.

A move is everything up to the next point at which the task waits, and in the loop it is the whole
body of the branch of `select!` that wins, placed where the body ENDS.  So a message of the hub is
in the queue until its frame has been written or the write has failed: to take it and to write it
is one move.  In between the source polls neither `halt_rx` nor `read_frame`, and what the hub and
the leader do meanwhile are inputs before the move; they only add to the queue and to the socket, or
set `halted`, and the end of the body looks at none of these.  A write that never ends is a move
that is never made, and then the task makes no other move of its own either.

Three things are kept through every run, and the rest of the development uses nothing else:

* `mailbox`: what the hub has queued has been taken in turn, or is in the queue;
* `wire_kept`: what goes out is the registration, then the messages that were taken, and pings;
* `reported`: what the hub is told is that the connection was accepted, then its frames in turn,
  and at most once, at the end, that it has ended.
-/
import Aqualung.Net.HomeConnection
import Aqualung.Wire.Print
import Aqualung.Lib.Component

namespace Aqualung

open Lib

/-! ## 1. The task -/

/-- What comes from outside: how the TLS handshake ends with a peer, the token of the
configuration, how floats are written, and `serde_json::from_slice`. -/
structure Setup (P : Type*) where
  accept : P → Bool
  token : Bytes
  floatText : UInt64 → Bytes
  fromSlice : Bytes → Option LeaderServer

/-- How far `home_connection` has come. -/
inductive HomePhase
  /-- There is no connection yet. -/
  | idle
  /-- `acceptor.accept(tcp).await`. -/
  | accepting
  /-- `bind_rx.await`. -/
  | binding
  /-- `write_frame` of the registration. -/
  | registering (homeGen : HomeGen)
  | looping (homeGen : HomeGen)
  | ended
  deriving DecidableEq

/-- The state of the task: its phase, what has come on `bind_rx`, what waits in `out_rx`, whether
the hub has dropped the link (then `halt_rx` is ready, and `out_rx` closes), and the loop. -/
structure HomeTask where
  phase : HomePhase := .idle
  bound : Option HomeGen := none
  out : List LeaderClient := []
  halted : Bool := false
  conn : HomeConnection := {}

/-- A move of the task: what it awaits next is ready. -/
inductive HomeEvent (P : Type*)
  /-- The TLS handshake is over. -/
  | handshake (peer : P)
  /-- `bind_rx` is ready. -/
  | bound
  /-- The registration has been written, or cannot be. -/
  | registered (written : Bool)
  /-- Bytes arrive from the leader. -/
  | arrived (bytes : Bytes)
  /-- No more bytes will arrive. -/
  | finished
  /-- The branches of `select!` in the loop. -/
  | readFrame
  | recv (written : Bool)
  | tick (written : Bool)
  | halt

/-- What can happen to the task. -/
inductive HomeInput (P : Type*)
  /-- `snorkel_accept` spawns it. -/
  | spawn
  /-- The hub answers on `bind`. -/
  | bind (homeGen : HomeGen)
  /-- The hub queues a message on the link. -/
  | queue (msg : LeaderClient)
  /-- The hub drops the link. -/
  | drop
  /-- The task moves; `gone` is whether the hub has ended. -/
  | move (gone : Bool) (ev : HomeEvent P)

/-- What the task does. -/
inductive HomeOut
  /-- It asks the hub for a generation. -/
  | accepted
  /-- The registration goes out. -/
  | registered (bytes : Bytes)
  /-- The registration does not go out, and the link is gone. -/
  | unregistered (homeGen : HomeGen)
  /-- The loop hands over a frame, or the end of the link, or writes. -/
  | conn (homeGen : HomeGen) (o : ConnOut)

/-- The message to the hub. -/
def HomeOut.toHub (fromSlice : Bytes → Option LeaderServer) : HomeOut → Option ToHub
  | .accepted => some .accepted
  | .registered _ => none
  | .unregistered g => some (.homeEof g)
  | .conn g o => o.toHub fromSlice g

def HomeOut.wire : HomeOut → Option Bytes
  | .registered bytes | .conn _ (.wrote bytes) => some bytes
  | _ => none

def HomeOut.loop : HomeOut → Option ConnOut
  | .conn _ o => some o
  | _ => none

def HomeOut.frame (o : HomeOut) : Option Bytes := o.loop.bind ConnOut.frame

namespace HomeTask

variable {P : Type*}

/-- TLS is up, and the task goes on. -/
def Connected (task : HomeTask) : Prop :=
  match task.phase with
  | .binding | .registering _ | .looping _ => True
  | _ => False

instance (task : HomeTask) : Decidable task.Connected := by
  unfold Connected
  split <;> infer_instance

/-- The message goes to the hub. -/
def reports : ConnOut → Bool
  | .wrote _ => false
  | _ => true

/-- One turn of the loop.  It is the last if the loop ends, or if there is something to send to a
hub that has ended. -/
def turn (gone : Bool) (task : HomeTask) (g : HomeGen) (ev : ConnEvent) :
    HomeTask × List HomeOut :=
  let (conn, out) := HomeConnection.run.step task.conn ev
  let goesOn := conn.running && !(gone && out.any reports)
  ({ task with conn, phase := if goesOn then .looping g else .ended }, out.map (.conn g))

/-- The socket changes: more arrives, or no more will. -/
def socket (task : HomeTask) (ev : ConnEvent) : HomeTask × List HomeOut :=
  if task.Connected then ({ task with conn := (HomeConnection.run.step task.conn ev).1 }, [])
  else (task, [])

/-- The handshake is over: the hub is asked for a generation. -/
def handshake (setup : Setup P) (gone : Bool) (task : HomeTask) (peer : P) :
    HomeTask × List HomeOut :=
  if ¬ setup.accept peer ∨ gone then ({ task with phase := .ended }, [])
  else ({ task with phase := .binding }, [.accepted])

/-- The registration is written. -/
def register (setup : Setup P) (task : HomeTask) (g : HomeGen) (written : Bool) :
    HomeTask × List HomeOut :=
  match writeFrame (LeaderClient.registerFrame.toVec setup.floatText) with
  | some bytes =>
    if written then ({ task with phase := .looping g }, [.registered bytes])
    else ({ task with phase := .ended }, [.unregistered g])
  | none => ({ task with phase := .ended }, [.unregistered g])

/-- One move of the task. -/
def move (setup : Setup P) (gone : Bool) (task : HomeTask) (ev : HomeEvent P) :
    HomeTask × List HomeOut :=
  match ev, task.phase with
  | .handshake peer, .accepting => task.handshake setup gone peer
  | .bound, .binding =>
    match task.bound with
    | some g => ({ task with phase := .registering g }, [])
    | none => if gone then ({ task with phase := .ended }, []) else (task, [])
  | .registered written, .registering g => task.register setup g written
  | .arrived bytes, _ => task.socket (.arrived bytes)
  | .finished, _ => task.socket .finished
  | .readFrame, .looping g => task.turn gone g .readFrame
  | .recv written, .looping g =>
    match task.out with
    | msg :: out =>
      turn gone { task with out } g (.recv (some (msg.toVec setup.floatText)) written)
    | [] => if task.halted then task.turn gone g (.recv none written) else (task, [])
  | .tick written, .looping g => task.turn gone g (.tick written)
  | .halt, .looping g => if task.halted then task.turn gone g .halt else (task, [])
  | _, _ => (task, [])

/-- What can happen to the task, and what it does. -/
def step (setup : Setup P) (task : HomeTask) : HomeInput P → HomeTask × List HomeOut
  | .spawn => (if task.phase = .idle then { task with phase := .accepting } else task, [])
  | .bind g => ({ task with bound := task.bound.or (some g) }, [])
  | .queue msg => ({ task with out := task.out ++ [msg] }, [])
  | .drop => ({ task with halted := true }, [])
  | .move gone ev => task.move setup gone ev

/-- The task as a machine. -/
def run (setup : Setup P) : Machine HomeTask (HomeInput P) HomeOut where
  init := {}
  step := step setup

/-! ## 2. What one input does -/

/-- What the loop of the task takes from an input. -/
def loopEvents (setup : Setup P) (task : HomeTask) : HomeInput P → List ConnEvent
  | .move _ ev =>
    match ev, task.phase with
    | .arrived bytes, _ => if task.Connected then [.arrived bytes] else []
    | .finished, _ => if task.Connected then [.finished] else []
    | .readFrame, .looping _ => [.readFrame]
    | .recv written, .looping _ =>
      match task.out with
      | msg :: _ => [.recv (some (msg.toVec setup.floatText)) written]
      | [] => if task.halted then [.recv none written] else []
    | .tick written, .looping _ => [.tick written]
    | .halt, .looping _ => if task.halted then [.halt] else []
    | _, _ => []
  | _ => []

/-- What the loop can take, and what it leaves in the queue. -/
inductive Command (setup : Setup P) (task : HomeTask) : ConnEvent → List LeaderClient → Prop
  | readFrame : Command setup task .readFrame task.out
  | recv {msg : LeaderClient} {out : List LeaderClient} {written : Bool}
      (hout : task.out = msg :: out) :
      Command setup task (.recv (some (msg.toVec setup.floatText)) written) out
  | closed {written : Bool} (hhalt : task.halted) (hout : task.out = []) :
      Command setup task (.recv none written) []
  | tick {written : Bool} : Command setup task (.tick written) task.out
  | halt (hhalt : task.halted) : Command setup task .halt task.out

/-- The steps of the task, with what its loop takes. -/
inductive Step (setup : Setup P) (task : HomeTask) :
    HomeInput P → List ConnEvent → HomeTask → List HomeOut → Prop
  /-- What the task is not waiting for. -/
  | ignored {i : HomeInput P} (hi : i = .spawn ∨ ∃ gone ev, i = .move gone ev) :
      Step setup task i [] task []
  | spawned (hphase : task.phase = .idle) :
      Step setup task .spawn [] { task with phase := .accepting } []
  | bind {g : HomeGen} :
      Step setup task (.bind g) [] { task with bound := task.bound.or (some g) } []
  | queue {msg : LeaderClient} :
      Step setup task (.queue msg) [] { task with out := task.out ++ [msg] } []
  | drop : Step setup task .drop [] { task with halted := true } []
  /-- The handshake fails, or there is no hub to tell. -/
  | refused {gone : Bool} {peer : P} (hphase : task.phase = .accepting)
      (hno : setup.accept peer = false ∨ gone) :
      Step setup task (.move gone (.handshake peer)) [] { task with phase := .ended } []
  | accepted {peer : P} (hphase : task.phase = .accepting) (hpeer : setup.accept peer) :
      Step setup task (.move false (.handshake peer)) [] { task with phase := .binding } [.accepted]
  | bound {gone : Bool} {g : HomeGen} (hphase : task.phase = .binding)
      (hbound : task.bound = some g) :
      Step setup task (.move gone .bound) [] { task with phase := .registering g } []
  /-- The hub has ended without an answer. -/
  | abandoned (hphase : task.phase = .binding) (hbound : task.bound = none) :
      Step setup task (.move true .bound) [] { task with phase := .ended } []
  | registered {gone : Bool} {g : HomeGen} (hphase : task.phase = .registering g) :
      Step setup task (.move gone (.registered true)) [] { task with phase := .looping g }
        [.registered (frameOf (LeaderClient.registerFrame.toVec setup.floatText))]
  | unregistered {gone : Bool} {g : HomeGen} (hphase : task.phase = .registering g) :
      Step setup task (.move gone (.registered false)) [] { task with phase := .ended }
        [.unregistered g]
  | socket {gone : Bool} {ev : HomeEvent P} {ev' : ConnEvent} (hconn : task.Connected)
      (hev : ev' = .finished ∨ ∃ bytes, ev' = .arrived bytes) :
      Step setup task (.move gone ev) [ev']
        { task with conn := (HomeConnection.run.step task.conn ev').1 } []
  /-- A turn of the loop. -/
  | turn {gone : Bool} {ev : HomeEvent P} {g : HomeGen} {ev' : ConnEvent}
      {out : List LeaderClient} (hphase : task.phase = .looping g)
      (hcmd : Command setup task ev' out)
      (hrun : (HomeConnection.run.step task.conn ev').1.running)
      (hsent : gone → ∀ o ∈ (HomeConnection.run.step task.conn ev').2, reports o = false) :
      Step setup task (.move gone ev) [ev']
        { task with out, conn := (HomeConnection.run.step task.conn ev').1 }
        ((HomeConnection.run.step task.conn ev').2.map (.conn g))
  /-- The last turn of the loop. -/
  | last {gone : Bool} {ev : HomeEvent P} {g : HomeGen} {ev' : ConnEvent}
      {out : List LeaderClient} (hphase : task.phase = .looping g)
      (hcmd : Command setup task ev' out)
      (hend : (HomeConnection.run.step task.conn ev').1.running = false ∨ gone) :
      Step setup task (.move gone ev) [ev']
        { task with out, conn := (HomeConnection.run.step task.conn ev').1, phase := .ended }
        ((HomeConnection.run.step task.conn ev').2.map (.conn g))

variable {setup : Setup P}

theorem registerFrame_le (floatText : UInt64 → Bytes) :
    (LeaderClient.registerFrame.toVec floatText).length ≤ MAX_FRAME := by
  change (LeaderClient.toVec (fun _ => []) .registerFrame).length ≤ MAX_FRAME
  decide +kernel

theorem handshake_step (task : HomeTask) (hphase : task.phase = .accepting) (gone : Bool)
    (peer : P) :
    Step setup task (.move gone (.handshake peer)) [] (task.handshake setup gone peer).1
      (task.handshake setup gone peer).2 := by
  unfold handshake
  split
  · rename_i hno
    exact .refused hphase (by simpa using hno)
  · rename_i hno
    rw [not_or, not_not] at hno
    obtain rfl : gone = false := by simpa using hno.2
    exact .accepted hphase hno.1

theorem register_step (task : HomeTask) {g : HomeGen} (hphase : task.phase = .registering g)
    (gone written : Bool) :
    Step setup task (.move gone (.registered written)) [] (task.register setup g written).1
      (task.register setup g written).2 := by
  unfold register
  rw [writeFrame_of_valid (registerFrame_le setup.floatText)]
  cases written with
  | true => exact .registered hphase
  | false => exact .unregistered hphase

theorem socket_step (task : HomeTask) (gone : Bool) (ev : HomeEvent P) {ev' : ConnEvent}
    (hev : ev' = .finished ∨ ∃ bytes, ev' = .arrived bytes) :
    Step setup task (.move gone ev) (if task.Connected then [ev'] else []) (task.socket ev').1
      (task.socket ev').2 := by
  unfold socket
  split
  · rename_i hconn
    exact .socket hconn hev
  · exact .ignored (.inr ⟨_, _, rfl⟩)

theorem turn_step (task : HomeTask) {gone : Bool} {ev : HomeEvent P} {g : HomeGen}
    {ev' : ConnEvent} {out : List LeaderClient} (hphase : task.phase = .looping g)
    (hcmd : Command setup task ev' out) :
    Step setup task (.move gone ev) [ev'] (turn gone { task with out } g ev').1
      (turn gone { task with out } g ev').2 := by
  unfold turn
  by_cases hend : (HomeConnection.run.step task.conn ev').1.running &&
      !(gone && (HomeConnection.run.step task.conn ev').2.any reports)
  · simp only [hend, if_true, ← hphase]
    simp only [Bool.and_eq_true, Bool.not_eq_true', Bool.and_eq_false_iff] at hend
    refine .turn hphase hcmd hend.1 fun hgone o ho => ?_
    obtain hno | hno := hend.2
    · rw [hgone] at hno
      cases hno
    · simpa using List.any_eq_false.mp hno o ho
  · simp only [hend]
    refine .last hphase hcmd ?_
    cases hrun : (HomeConnection.run.step task.conn ev').1.running with
    | false => exact .inl rfl
    | true =>
      rw [hrun] at hend
      refine .inr ?_
      cases gone with
      | true => rfl
      | false => simp at hend

/-- **The task takes these steps and no others.** -/
theorem step_spec (setup : Setup P) (task : HomeTask) (i : HomeInput P) :
    Step setup task i (task.loopEvents setup i) ((run setup).step task i).1
      ((run setup).step task i).2 := by
  change Step setup task i (task.loopEvents setup i) (step setup task i).1 (step setup task i).2
  cases i with
  | spawn =>
    by_cases hphase : task.phase = .idle
    · simp only [step, if_pos hphase]
      exact .spawned hphase
    · simp only [step, if_neg hphase]
      exact .ignored (.inl rfl)
  | bind g => exact .bind
  | queue msg => exact .queue
  | drop => exact .drop
  | move gone ev =>
    obtain ⟨phase, bound, out, halted, conn⟩ := task
    cases ev with
    | handshake peer =>
      cases phase with
      | accepting => exact handshake_step ⟨.accepting, bound, out, halted, conn⟩ rfl gone peer
      | _ => exact .ignored (.inr ⟨_, _, rfl⟩)
    | bound =>
      cases phase with
      | binding =>
        cases bound with
        | some g => exact .bound rfl rfl
        | none =>
          cases gone with
          | true => exact .abandoned rfl rfl
          | false => exact .ignored (.inr ⟨_, _, rfl⟩)
      | _ => exact .ignored (.inr ⟨_, _, rfl⟩)
    | registered written =>
      cases phase with
      | registering g =>
        exact register_step ⟨.registering g, bound, out, halted, conn⟩ rfl gone written
      | _ => exact .ignored (.inr ⟨_, _, rfl⟩)
    | arrived bytes =>
      exact socket_step ⟨phase, bound, out, halted, conn⟩ gone _ (.inr ⟨bytes, rfl⟩)
    | finished => exact socket_step ⟨phase, bound, out, halted, conn⟩ gone _ (.inl rfl)
    | readFrame =>
      cases phase with
      | looping g => exact turn_step _ rfl .readFrame
      | _ => exact .ignored (.inr ⟨_, _, rfl⟩)
    | recv written =>
      cases phase with
      | looping g =>
        cases out with
        | cons msg out => exact turn_step ⟨.looping g, bound, msg :: out, halted, conn⟩ rfl (.recv rfl)
        | nil =>
          cases halted with
          | true => exact turn_step _ rfl (.closed rfl rfl)
          | false => exact .ignored (.inr ⟨_, _, rfl⟩)
      | _ => exact .ignored (.inr ⟨_, _, rfl⟩)
    | tick written =>
      cases phase with
      | looping g => exact turn_step _ rfl .tick
      | _ => exact .ignored (.inr ⟨_, _, rfl⟩)
    | halt =>
      cases phase with
      | looping g =>
        cases halted with
        | true => exact turn_step _ rfl (.halt rfl)
        | false => exact .ignored (.inr ⟨_, _, rfl⟩)
      | _ => exact .ignored (.inr ⟨_, _, rfl⟩)

/-! ## 3. The loop and the queue in the task -/

theorem socket_silent (c : HomeConnection) {ev : ConnEvent}
    (hev : ev = .finished ∨ ∃ bytes, ev = .arrived bytes) :
    (HomeConnection.run.step c ev).2 = [] := by
  change (c.step ev).2 = []
  unfold HomeConnection.step
  split
  · rfl
  · obtain rfl | ⟨bytes, rfl⟩ := hev <;> rfl

/-- **The loop is at work in the task.** -/
def loop (setup : Setup P) : Component (run setup) HomeConnection.run where
  state := conn
  takes task i := task.loopEvents setup i
  gives := HomeOut.loop
  state_init := rfl
  state_step task i := by
    have hs := task.step_spec setup i
    revert hs
    generalize task.loopEvents setup i = evs
    generalize (run setup).step task i = next
    obtain ⟨task', out⟩ := next
    intro hs
    cases hs <;> rfl
  gives_step task i := by
    have hs := task.step_spec setup i
    revert hs
    generalize task.loopEvents setup i = evs
    generalize (run setup).step task i = next
    obtain ⟨task', out⟩ := next
    intro hs
    have hloop : ∀ (g : HomeGen) (os : List ConnOut),
        (os.map (HomeOut.conn g)).filterMap HomeOut.loop = os := fun g os => by
      simp [List.filterMap_map, Function.comp_def, HomeOut.loop]
    cases hs with
    | socket hconn hev => simp [Machine.historyFrom, socket_silent _ hev]
    | turn hphase hcmd hrun hsent => simp [Machine.historyFrom, hloop]
    | last hphase hcmd hend => simp [Machine.historyFrom, hloop]
    | _ => simp [Machine.historyFrom, HomeOut.loop]

/-- The messages taken from the queue. -/
def taken (setup : Setup P) (task : HomeTask) (i : HomeInput P) : List LeaderClient :=
  match task.loopEvents setup i with
  | [.recv (some _) _] => task.out.take 1
  | _ => []

/-- The messages put in the queue. -/
def queued : HomeInput P → List LeaderClient
  | .queue msg => [msg]
  | _ => []

theorem Command.taken {task : HomeTask} {i : HomeInput P} {ev : ConnEvent}
    {out : List LeaderClient} (hcmd : Command setup task ev out)
    (hi : task.loopEvents setup i = [ev]) : task.out = task.taken setup i ++ out := by
  unfold HomeTask.taken
  rw [hi]
  cases hcmd with
  | recv hout => simp [hout]
  | closed hhalt hout => simp [hout]
  | _ => rfl

/-- **The queue of the link.** -/
def mailbox (setup : Setup P) : Mailbox (run setup) LeaderClient where
  queue := out
  puts _ i := queued i
  takes task i := task.taken setup i
  queue_init := rfl
  queue_step task i := by
    have hs := task.step_spec setup i
    have htaken : task.loopEvents setup i = [] → task.taken setup i = [] := fun hnil => by
      rw [taken, hnil]
    revert hs
    generalize hevs : task.loopEvents setup i = evs at htaken ⊢
    generalize (run setup).step task i = next
    obtain ⟨task', out⟩ := next
    intro hs
    cases hs with
    | ignored hi =>
      obtain rfl | ⟨gone, ev, rfl⟩ := hi <;> simp [queued, htaken rfl]
    | socket hconn hev =>
      obtain rfl | ⟨bytes, rfl⟩ := hev <;> simp [queued, taken, hevs]
    | turn hphase hcmd hrun hsent => simpa [queued] using hcmd.taken hevs
    | last hphase hcmd hend => simpa [queued] using hcmd.taken hevs
    | _ => simp [queued, htaken rfl]

end HomeTask

/-! ## 4. What goes to the leader -/

theorem HomeConnection.write_out (c : HomeConnection) (json : Bytes) (written : Bool) :
    (c.write json written).2 = [.wrote (frameOf json)] ∧
        (c.write json written).1.running = c.running ∨
      (c.write json written).2 = [.homeEof] ∧ (c.write json written).1.running = false := by
  unfold write
  by_cases hmax : json.length ≤ MAX_FRAME
  · simp only [writeFrame_of_valid hmax]
    cases written with
    | true => exact .inl ⟨rfl, rfl⟩
    | false => exact .inr ⟨rfl, rfl⟩
  · rw [not_le] at hmax
    simp [writeFrame, if_pos hmax, stop]

theorem HomeConnection.read_out (c : HomeConnection) (g : HomeGen) :
    (c.read.2.map (HomeOut.conn g)).filterMap HomeOut.wire = [] := by
  unfold read
  split
  · rfl
  · rfl
  · split <;> rfl

namespace HomeTask

/-- The frame that carries a message. -/
def frameFor (setup : Setup P) (msg : LeaderClient) : Bytes := frameOf (msg.toVec setup.floatText)

/-- The messages that are not pings. -/
def spoken (ms : List LeaderClient) : List LeaderClient := ms.filter (· ≠ .ping)

@[simp] theorem spoken_append (ms ms' : List LeaderClient) :
    spoken (ms ++ ms') = spoken ms ++ spoken ms' :=
  List.filter_append ..

/-- What a turn of the loop writes: the message it has taken, or a ping, unless it is the last. -/
theorem Command.wire {task : HomeTask} {ev : ConnEvent} {i : HomeInput P} {out : List LeaderClient}
    (hcmd : Command setup task ev out) (hi : task.loopEvents setup i = [ev])
    (hrun : task.conn.running) (g : HomeGen) :
    ∃ ms, ((HomeConnection.run.step task.conn ev).2.map (HomeOut.conn g)).filterMap HomeOut.wire
        = ms.map (frameFor setup) ∧
      (spoken ms = spoken (task.taken setup i) ∨
        spoken ms = [] ∧ (HomeConnection.run.step task.conn ev).1.running = false) := by
  have hstep : HomeConnection.run.step task.conn ev = task.conn.step ev := rfl
  unfold HomeTask.taken
  rw [hstep, hi]
  cases hcmd with
  | readFrame =>
    have hread : task.conn.step .readFrame = task.conn.read := by
      simp [HomeConnection.step, hrun]
    exact ⟨[], by rw [hread, task.conn.read_out g]; rfl, .inl rfl⟩
  | @recv msg _ written hout =>
    have hwrite : task.conn.step (.recv (some (msg.toVec setup.floatText)) written)
        = task.conn.write (msg.toVec setup.floatText) written := by
      simp [HomeConnection.step, hrun]
    rw [hwrite]
    obtain ⟨hwrote, -⟩ | ⟨heof, hstop⟩ := task.conn.write_out (msg.toVec setup.floatText) written
    · exact ⟨[msg], by rw [hwrote]; rfl, .inl (by rw [hout]; rfl)⟩
    · exact ⟨[], by rw [heof]; rfl, .inr ⟨rfl, hstop⟩⟩
  | @tick written =>
    have hwrite : task.conn.step (.tick written) = task.conn.write pingJson written := by
      simp [HomeConnection.step, hrun]
    rw [hwrite]
    obtain ⟨hwrote, -⟩ | ⟨heof, hstop⟩ := task.conn.write_out pingJson written
    · exact ⟨[.ping], by rw [hwrote]; rfl, .inl (by simp [spoken])⟩
    · exact ⟨[], by rw [heof]; rfl, .inl rfl⟩
  | closed hhalt hout => exact ⟨[], by simp [HomeConnection.step, hrun], .inl rfl⟩
  | halt hhalt => exact ⟨[], by simp [HomeConnection.step, hrun], .inl rfl⟩

/-- A loop that ends by itself reports the end of the link, unless the hub has dropped it. -/
theorem Command.ends {task : HomeTask} {ev : ConnEvent} {out : List LeaderClient}
    (hcmd : Command setup task ev out) (hrun : task.conn.running)
    (hend : (HomeConnection.run.step task.conn ev).1.running = false) :
    .homeEof ∈ (HomeConnection.run.step task.conn ev).2 ∨ task.halted := by
  have hwrite : ∀ json written, (task.conn.write json written).1.running = false →
      .homeEof ∈ (task.conn.write json written).2 := fun json written hend => by
    obtain ⟨-, hsame⟩ | ⟨heof, -⟩ := task.conn.write_out json written
    · rw [hsame, hrun] at hend
      cases hend
    · rw [heof]
      exact List.mem_singleton_self _
  have hstep : HomeConnection.run.step task.conn ev = task.conn.step ev := rfl
  rw [hstep] at hend ⊢
  cases hcmd with
  | readFrame =>
    have hread := HomeConnection.read_step hrun
    have hstep : task.conn.step .readFrame = task.conn.read := by
      simp [HomeConnection.step, hrun]
    rw [hstep] at hend ⊢
    generalize task.conn.read = next at hread hend ⊢
    obtain ⟨c', out⟩ := next
    cases hread with
    | failed => exact .inl (List.mem_singleton_self _)
    | idle hidle => rw [hrun] at hidle; cases hidle
    | wrote _ hev => exact hev.elim
    | ended _ hev => exact hev.elim
    | _ => rw [show task.conn.running = false from hend] at hrun; cases hrun
  | @recv msg _ written hout =>
    refine .inl ?_
    have hstep : task.conn.step (.recv (some (msg.toVec setup.floatText)) written)
        = task.conn.write (msg.toVec setup.floatText) written := by
      simp [HomeConnection.step, hrun]
    rw [hstep] at hend ⊢
    exact hwrite _ _ hend
  | @tick written =>
    refine .inl ?_
    have hstep : task.conn.step (.tick written) = task.conn.write pingJson written := by
      simp [HomeConnection.step, hrun]
    rw [hstep] at hend ⊢
    exact hwrite _ _ hend
  | closed hhalt hout => exact .inr hhalt
  | halt hhalt => exact .inr hhalt

/-- `ms` are the messages that have gone to the leader, after `taken` have been taken from the
queue: the registration comes first, and the others are pings and what was taken. -/
def Wrote (task : HomeTask) (taken ms : List LeaderClient) : Prop :=
  match task.phase with
  | .looping _ => ∃ ms', ms = .registerFrame :: ms' ∧ spoken ms' = spoken taken
  | .ended => ms = [] ∨ ∃ ms', ms = .registerFrame :: ms' ∧ spoken ms' <+: spoken taken
  | _ => ms = [] ∧ taken = []

/-- What is true of the wire after every run of the task. -/
structure WireKept (setup : Setup P) (task : HomeTask) (taken : List LeaderClient)
    (wire : List Bytes) : Prop where
  running : task.phase ≠ .ended → task.conn.running
  wrote : ∃ ms, wire = ms.map (frameFor setup) ∧ task.Wrote taken ms

theorem running_of_socket {c : HomeConnection} {ev : ConnEvent} (hrun : c.running)
    (hev : ev = .finished ∨ ∃ bytes, ev = .arrived bytes) :
    (HomeConnection.run.step c ev).1.running := by
  change (c.step ev).1.running
  obtain rfl | ⟨bytes, rfl⟩ := hev <;> simp [HomeConnection.step, hrun]

theorem WireKept.step {task task' : HomeTask} {i : HomeInput P} {outs : List HomeOut}
    {ms : List LeaderClient} {wire : List Bytes} (hk : WireKept setup task ms wire)
    (hs : Step setup task i (task.loopEvents setup i) task' outs) :
    WireKept setup task' (ms ++ task.taken setup i) (wire ++ outs.filterMap HomeOut.wire) := by
  have htaken : task.loopEvents setup i = [] → task.taken setup i = [] := fun hnil => by
    rw [taken, hnil]
  obtain ⟨hrun, sent, rfl, hwrote⟩ := hk
  revert hs
  generalize hevs : task.loopEvents setup i = evs at htaken ⊢
  intro hs
  unfold Wrote at hwrote
  cases hs with
  | ignored hi => exact ⟨hrun, sent, by simp, by simpa [Wrote, htaken rfl] using hwrote⟩
  | spawned hphase =>
    rw [hphase] at hrun hwrote
    exact ⟨fun _ => hrun (by simp), sent, by simp, by simpa [Wrote, htaken rfl] using hwrote⟩
  | bind => exact ⟨hrun, sent, by simp, by simpa [Wrote, htaken rfl] using hwrote⟩
  | queue => exact ⟨hrun, sent, by simp, by simpa [Wrote, htaken rfl] using hwrote⟩
  | drop => exact ⟨hrun, sent, by simp, by simpa [Wrote, htaken rfl] using hwrote⟩
  | refused hphase hno =>
    rw [hphase] at hwrote
    exact ⟨fun h => absurd rfl h, sent, by simp, .inl hwrote.1⟩
  | accepted hphase hpeer =>
    rw [hphase] at hrun hwrote
    exact ⟨fun _ => hrun (by simp), sent, by simp [HomeOut.wire],
      by simpa [Wrote, htaken rfl] using hwrote⟩
  | bound hphase hbound =>
    rw [hphase] at hrun hwrote
    exact ⟨fun _ => hrun (by simp), sent, by simp, by simpa [Wrote, htaken rfl] using hwrote⟩
  | abandoned hphase hbound =>
    rw [hphase] at hwrote
    exact ⟨fun h => absurd rfl h, sent, by simp, .inl hwrote.1⟩
  | registered hphase =>
    rw [hphase] at hrun hwrote
    obtain ⟨rfl, rfl⟩ := hwrote
    exact ⟨fun _ => hrun (by simp), [.registerFrame], rfl, [], rfl, by rw [htaken rfl]; rfl⟩
  | unregistered hphase =>
    rw [hphase] at hwrote
    exact ⟨fun h => absurd rfl h, sent, by simp [HomeOut.wire], .inl hwrote.1⟩
  | @socket gone ev ev' hconn hev =>
    have hnone : task.taken setup (.move gone ev) = [] := by
      unfold taken
      rw [hevs]
      obtain rfl | ⟨bytes, rfl⟩ := hev <;> rfl
    exact ⟨fun h => running_of_socket (hrun h) hev, sent, by simp,
      by simpa [Wrote, hnone] using hwrote⟩
  | @turn gone ev g ev' out hphase hcmd hrun' hsent =>
    rw [hphase] at hrun hwrote
    obtain ⟨sent, rfl, hsame⟩ := hwrote
    obtain ⟨new, hwire, hnew | ⟨-, hstop⟩⟩ := hcmd.wire hevs (hrun (by simp)) g
    · refine ⟨fun _ => hrun', .registerFrame :: (sent ++ new), ?_, ?_⟩
      · rw [hwire]
        simp
      · simp only [Wrote, hphase]
        exact ⟨sent ++ new, rfl, by rw [spoken_append, spoken_append, hsame, hnew]⟩
    · rw [hrun'] at hstop
      cases hstop
  | @last gone ev g ev' out hphase hcmd hend =>
    rw [hphase] at hrun hwrote
    obtain ⟨sent, rfl, hsame⟩ := hwrote
    obtain ⟨new, hwire, hnew⟩ := hcmd.wire hevs (hrun (by simp)) g
    refine ⟨fun h => absurd rfl h, .registerFrame :: (sent ++ new), ?_, .inr ⟨_, rfl, ?_⟩⟩
    · rw [hwire]
      simp
    · rw [spoken_append, spoken_append, hsame, List.prefix_append_right_inj]
      obtain hnew | ⟨hnew, -⟩ := hnew
      · rw [hnew]
      · rw [hnew]
        exact List.nil_prefix

/-- **What goes to the leader**, after every run of the task. -/
theorem wire_kept (setup : Setup P) (is : List (HomeInput P)) :
    WireKept setup ((run setup).final is) ((mailbox setup).taken ((run setup).history is))
      (collect HomeOut.wire ((run setup).history is)) := by
  refine (run setup).run_induction (P := fun hist task =>
    WireKept setup task ((mailbox setup).taken hist) (collect HomeOut.wire hist))
    ⟨fun _ => rfl, [], rfl, rfl, rfl⟩ (fun is i ih => ?_) is
  rw [Mailbox.taken_append, Mailbox.taken_singleton, collect_append, collect_singleton]
  exact ih.step (step_spec setup _ i)

/-! ## 5. What the hub is told -/

def homeFrame (setup : Setup P) (g : HomeGen) (json : Bytes) : ToHub :=
  .homeFrame g ((setup.fromSlice json).getD .unknown)

/-- `posts` is what the hub has been told, after the loop has read the frames `fs`. -/
def Reported (setup : Setup P) (task : HomeTask) (fs : List Bytes) (posts : List ToHub) : Prop :=
  match task.phase with
  | .idle | .accepting => fs = [] ∧ posts = []
  | .binding => fs = [] ∧ posts = [.accepted]
  | .registering g => task.bound = some g ∧ fs = [] ∧ posts = [.accepted]
  | .looping g => task.bound = some g ∧ posts = .accepted :: fs.map (homeFrame setup g)
  | .ended =>
    fs = [] ∧ posts <+: [.accepted] ∨
      ∃ g last, task.bound = some g ∧ (last = [] ∨ last = [.homeEof g]) ∧
        posts = .accepted :: (fs.map (homeFrame setup g) ++ last)

/-- The frames and the messages of a turn of the loop. -/
theorem turn_posts (setup : Setup P) {c c' : HomeConnection} {ev : ConnEvent} {out : List ConnOut}
    (hs : ConnStep c ev c' out) (g : HomeGen) :
    ∃ last, (last = [] ∨ last = [ToHub.homeEof g]) ∧ (c'.running → last = []) ∧
      (out.map (HomeOut.conn g)).filterMap (HomeOut.toHub setup.fromSlice)
        = ((out.map (HomeOut.conn g)).filterMap HomeOut.frame).map (homeFrame setup g) ++ last := by
  have hnone : ∀ {out : List ConnOut}, (∀ o ∈ out, ∃ bytes, o = .wrote bytes) →
      (out.map (HomeOut.conn g)).filterMap (HomeOut.toHub setup.fromSlice)
        = ((out.map (HomeOut.conn g)).filterMap HomeOut.frame).map (homeFrame setup g) ++ [] := by
    intro out hout
    induction out with
    | nil => rfl
    | cons o out ih =>
      obtain ⟨bytes, rfl⟩ := hout o List.mem_cons_self
      exact ih fun o ho => hout o (List.mem_cons_of_mem _ ho)
  cases hs with
  | handed hrun hframe => exact ⟨[], .inl rfl, fun _ => rfl, rfl⟩
  | failed hrun hfail => exact ⟨[.homeEof g], .inr rfl, (fun h => by cases h), rfl⟩
  | ended hrun hev hstop hout =>
    obtain rfl | rfl := hout
    · exact ⟨[], .inl rfl, fun _ => rfl, rfl⟩
    · exact ⟨[.homeEof g], .inr rfl, (fun h => by rw [hstop] at h; cases h), rfl⟩
  | _ => exact ⟨[], .inl rfl, fun _ => rfl, hnone (by simp)⟩

theorem Reported.step {task task' : HomeTask} {i : HomeInput P} {evs : List ConnEvent}
    {outs : List HomeOut} {fs : List Bytes} {posts : List ToHub}
    (hr : Reported setup task fs posts) (hs : Step setup task i evs task' outs) :
    Reported setup task' (fs ++ outs.filterMap HomeOut.frame)
      (posts ++ outs.filterMap (HomeOut.toHub setup.fromSlice)) := by
  unfold Reported at hr
  cases hs with
  | ignored hi => simpa [Reported] using hr
  | spawned hphase =>
    rw [hphase] at hr
    simpa [Reported] using hr
  | @bind g =>
    have hkeep : ∀ g', task.bound = some g' → task.bound.or (some g) = some g' := by
      intro g' hg'
      rw [hg', Option.some_or]
    simp only [Reported, List.filterMap_nil, List.append_nil]
    cases hphase : task.phase <;> simp only [hphase] at hr ⊢
    case registering => exact ⟨hkeep _ hr.1, hr.2⟩
    case looping => exact ⟨hkeep _ hr.1, hr.2⟩
    case ended => exact hr.imp_right fun ⟨g', last, hbound, h⟩ => ⟨g', last, hkeep _ hbound, h⟩
    all_goals exact hr
  | queue => simpa [Reported] using hr
  | drop => simpa [Reported] using hr
  | refused hphase hno =>
    rw [hphase] at hr
    simp [Reported, hr]
  | accepted hphase hpeer =>
    rw [hphase] at hr
    simp [Reported, hr, HomeOut.toHub, HomeOut.frame, HomeOut.loop]
  | bound hphase hbound =>
    rw [hphase] at hr
    simp [Reported, hr, hbound]
  | abandoned hphase hbound =>
    rw [hphase] at hr
    simp [Reported, hr]
  | registered hphase =>
    rw [hphase] at hr
    obtain ⟨hbound, rfl, rfl⟩ := hr
    exact ⟨hbound, rfl⟩
  | unregistered hphase =>
    rw [hphase] at hr
    obtain ⟨hbound, rfl, rfl⟩ := hr
    exact .inr ⟨_, [.homeEof _], hbound, .inr rfl, rfl⟩
  | socket hconn hev => simpa [Reported] using hr
  | @turn gone ev g ev' out hphase hcmd hrun hsent =>
    rw [hphase] at hr
    obtain ⟨hbound, rfl⟩ := hr
    obtain ⟨last, -, hlast, hposts⟩ := turn_posts setup (task.conn.step_conn ev') g
    rw [hposts, hlast hrun]
    simp [Reported, hphase, hbound]
  | @last gone ev g ev' out hphase hcmd hend =>
    rw [hphase] at hr
    obtain ⟨hbound, rfl⟩ := hr
    obtain ⟨last, hlast, -, hposts⟩ := turn_posts setup (task.conn.step_conn ev') g
    rw [hposts]
    exact .inr ⟨g, last, hbound, hlast, by simp⟩

/-- **What the hub is told**, after every run of the task: first that the connection is accepted,
then the frames as they are read, and at the end, if anything, that the link is gone. -/
theorem reported (setup : Setup P) (is : List (HomeInput P)) :
    Reported setup ((run setup).final is) (collect HomeOut.frame ((run setup).history is))
      (collect (HomeOut.toHub setup.fromSlice) ((run setup).history is)) := by
  refine (run setup).run_induction (P := fun hist task =>
    Reported setup task (collect HomeOut.frame hist)
      (collect (HomeOut.toHub setup.fromSlice) hist)) ⟨rfl, rfl⟩ (fun is i ih => ?_) is
  rw [collect_append, collect_singleton, collect_append, collect_singleton]
  exact ih.step (step_spec setup _ i)

end HomeTask

end Aqualung
