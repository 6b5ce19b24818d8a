/-
# The connection to home

`home_connection` is a loop around `select!`.  In each turn of the loop one of four branches
wins, and the futures of the others are dropped: among them the call of `read_frame`, with the
bytes it has taken from the stream.  The next turn starts a new call, which takes the next
byte for the first of a length.

`frames_intact` says that the frames of home arrive as they were sent exactly if no message to
home and no ping goes out while a frame has been read in part.  `frame_lost_to_ping` is a run
in which one does.

* As long as nothing is interrupted (section 4), what has arrived has been handed over, or is held
  by the call, or waits in the socket: `OnTrack`.  A reader that stands at the beginning of a frame
  finds the frame when it is there (`OnTrack.reads`), so the hub gets the first of the frames at any
  time, and all of them as soon as they are read.
* An interruption costs the bytes that the call held (section 5), and nothing brings them back:
  what is handed over, what is lost and what can still be read are together at most what has
  arrived (`lost_add_le`).  So a connection that has lost a byte cannot hand over everything that
  was sent, whatever it makes of the rest.

A branch that wins is one event, with its body: the frame is written, or the write has failed, when
the event takes place.  Bytes that arrive meanwhile are events before it.
-/
import Aqualung.Lib.Machine
import Aqualung.Wire.Frame
import Aqualung.Hub.Loop

namespace Aqualung

open Lib

/-! ## 1. The loop -/

/-- The state of the connection: what has arrived and has not been read, whether more can
come, the call of `read_frame` in this turn of the loop, and whether the loop goes on. -/
structure HomeConnection where
  socket : Bytes := []
  eof : Bool := false
  reading : ReadFrame := .start
  running : Bool := true

/-- What can happen next. -/
inductive ConnEvent
  /-- Bytes arrive. -/
  | arrived (bytes : Bytes)
  /-- No more bytes will arrive. -/
  | finished
  /-- The call of `read_frame` is polled. -/
  | readFrame
  /-- `out_rx.recv()` wins, with the JSON of a message or because the hub has dropped the link;
  `written` is whether the socket takes the frame. -/
  | recv (cmd : Option Bytes) (written : Bool)
  /-- `ping.tick()` wins. -/
  | tick (written : Bool)
  /-- `halt_rx` wins. -/
  | halt

/-- What the connection does: it hands the hub a frame or the end of the link, or writes. -/
inductive ConnOut
  | homeFrame (json : Bytes)
  | homeEof
  | wrote (bytes : Bytes)
  deriving DecidableEq

/-- The JSON of `LeaderClient::Ping`. -/
def pingJson : Bytes := "\x7b\"type\":\"ping\"\x7d".toList.map fun c => UInt8.ofNat c.toNat

namespace HomeConnection

/-- The loop ends. -/
def stop (c : HomeConnection) : HomeConnection := { c with running := false }

/-- A branch that writes has won: the call of `read_frame` is dropped, and the frame goes out or
the link ends. -/
def write (c : HomeConnection) (json : Bytes) (written : Bool) : HomeConnection × List ConnOut :=
  let c := { c with reading := .start }
  match writeFrame json with
  | some bytes => if written then (c, [.wrote bytes]) else (c.stop, [.homeEof])
  | none => (c.stop, [.homeEof])

/-- The branch of `read_frame` is polled.  It wins if the call is finished. -/
def read (c : HomeConnection) : HomeConnection × List ConnOut :=
  match c.reading.poll c.socket with
  | .ready json rest => ({ c with socket := rest, reading := .start }, [.homeFrame json])
  | .failed => (c.stop, [.homeEof])
  | .pending call =>
    if c.eof then (c.stop, [.homeEof]) else ({ c with socket := [], reading := call }, [])

/-- The loop of `home_connection`. -/
def step (c : HomeConnection) (ev : ConnEvent) : HomeConnection × List ConnOut :=
  if ¬ c.running then (c, [])
  else
    match ev with
    | .arrived bytes => ({ c with socket := c.socket ++ bytes }, [])
    | .finished => ({ c with eof := true }, [])
    | .readFrame => c.read
    | .recv (some json) written => c.write json written
    | .recv none _ => (c.stop, [])
    | .tick written => c.write pingJson written
    | .halt => (c.stop, [])

/-- The connection as a machine. -/
def run : Machine HomeConnection ConnEvent ConnOut where
  init := {}
  step := step

end HomeConnection

/-- A line of the history of a connection. -/
abbrev ConnLine := Entry HomeConnection ConnEvent ConnOut

/-! ## 2. What comes in and what the hub gets -/

def ConnOut.frame : ConnOut → Option Bytes
  | .homeFrame json => some json
  | _ => none

@[simp] theorem ConnOut.frame_homeFrame (json : Bytes) : (homeFrame json).frame = some json := rfl

@[simp] theorem ConnOut.frame_homeEof : homeEof.frame = none := rfl

@[simp] theorem ConnOut.frame_wrote (bytes : Bytes) : (wrote bytes).frame = none := rfl

/-- The frames handed to the hub, in order. -/
def frames (hist : List ConnLine) : List Bytes := collect ConnOut.frame hist

theorem frames_append (hist hist' : List ConnLine) :
    frames (hist ++ hist') = frames hist ++ frames hist' :=
  collect_append _ _ _

/-- The message to the hub, for the link `g`; `fromSlice` is `serde_json::from_slice`. -/
def ConnOut.toHub (fromSlice : Bytes → Option LeaderServer) (g : HomeGen) : ConnOut → Option ToHub
  | .homeFrame json => some (.homeFrame g ((fromSlice json).getD .unknown))
  | .homeEof => some (.homeEof g)
  | .wrote _ => none

namespace ConnEvent

/-- The bytes the event brings. -/
def bytes : ConnEvent → Bytes
  | arrived bytes => bytes
  | _ => []

/-- Another branch than that of `read_frame` wins, and the loop goes on. -/
def Interrupts : ConnEvent → Prop
  | recv (some json) written => json.length ≤ MAX_FRAME ∧ written
  | tick written => written
  | _ => False

instance (ev : ConnEvent) : Decidable ev.Interrupts := by
  unfold Interrupts
  split <;> infer_instance

/-- The event ends the connection: by the peer, the hub, or a frame that cannot be written. -/
def Closes : ConnEvent → Prop
  | finished => True
  | recv (some json) written => MAX_FRAME < json.length ∨ written = false
  | recv none _ => True
  | tick written => written = false
  | halt => True
  | _ => False

instance (ev : ConnEvent) : Decidable ev.Closes := by
  unfold Closes
  split <;> infer_instance

end ConnEvent

/-- All the bytes that have arrived. -/
def arrivedBytes (evs : List ConnEvent) : Bytes := evs.flatMap ConnEvent.bytes

@[simp] theorem arrivedBytes_append (evs evs' : List ConnEvent) :
    arrivedBytes (evs ++ evs') = arrivedBytes evs ++ arrivedBytes evs' := by
  simp [arrivedBytes]

@[simp] theorem arrivedBytes_singleton (ev : ConnEvent) : arrivedBytes [ev] = ev.bytes := by
  simp [arrivedBytes]

/-- The frames that home has sent arrive at the hub as they were sent. -/
structure FramesIntact (sent : List Bytes) (evs : List ConnEvent) : Prop where
  /-- At every point the hub has got the first of the frames, in order. -/
  in_order : ∀ js, js <+: evs → frames (HomeConnection.run.history js) <+: sent
  /-- When all bytes have arrived, and the connection has not been ended, the hub gets all of
  the frames as soon as they are read. -/
  complete : (∀ ev ∈ evs, ¬ ev.Closes) → arrivedBytes evs = framing.stream sent →
    frames (HomeConnection.run.history (evs ++ List.replicate sent.length .readFrame)) = sent

/-- No message to home and no ping goes out while a frame has been read in part. -/
def Unbroken (evs : List ConnEvent) : Prop :=
  ∀ e ∈ HomeConnection.run.history evs, e.before.running → e.input.Interrupts →
    e.before.reading.held = []

instance (evs : List ConnEvent) : Decidable (Unbroken evs) := by
  unfold Unbroken
  infer_instance

/-! ## 3. What one event does -/

/-- The steps of the loop. -/
inductive ConnStep (c : HomeConnection) : ConnEvent → HomeConnection → List ConnOut → Prop
  /-- The loop has ended. -/
  | idle {ev : ConnEvent} (hrun : c.running = false) : ConnStep c ev c []
  | arrived {bytes : Bytes} (hrun : c.running) :
      ConnStep c (.arrived bytes) { c with socket := c.socket ++ bytes } []
  | finished (hrun : c.running) : ConnStep c .finished { c with eof := true } []
  /-- A frame is read. -/
  | handed {json rest : Bytes} (hrun : c.running)
      (h : decodeFrame (c.reading.held ++ c.socket) = .frame json rest) :
      ConnStep c .readFrame { c with socket := rest, reading := .start } [.homeFrame json]
  /-- The call of `read_frame` takes what there is. -/
  | waiting {call : ReadFrame} (hrun : c.running) (heof : c.eof = false)
      (h : decodeFrame (c.reading.held ++ c.socket) = .more)
      (hheld : call.held = c.reading.held ++ c.socket) :
      ConnStep c .readFrame { c with socket := [], reading := call } []
  /-- `read_frame` fails: there is no frame, or not enough of one. -/
  | failed (hrun : c.running)
      (h : decodeFrame (c.reading.held ++ c.socket) = .bad ∨
        (c.eof ∧ decodeFrame (c.reading.held ++ c.socket) = .more)) :
      ConnStep c .readFrame c.stop [.homeEof]
  /-- Another branch wins, and the call of `read_frame` is dropped. -/
  | wrote {ev : ConnEvent} {bytes : Bytes} (hrun : c.running) (hev : ev.Interrupts) :
      ConnStep c ev { c with reading := .start } [.wrote bytes]
  /-- The connection is ended. -/
  | ended {ev : ConnEvent} {c' : HomeConnection} {out : List ConnOut} (hrun : c.running)
      (hev : ev.Closes) (hstop : c'.running = false) (hout : out = [] ∨ out = [.homeEof]) :
      ConnStep c ev c' out

namespace HomeConnection

theorem read_step {c : HomeConnection} (hrun : c.running) :
    ConnStep c .readFrame c.read.1 c.read.2 := by
  have hreads := c.reading.poll_reads c.socket
  unfold read
  cases hpoll : c.reading.poll c.socket with
  | ready json rest =>
    rw [hpoll] at hreads
    exact .handed hrun hreads
  | failed =>
    rw [hpoll] at hreads
    exact .failed hrun (.inl hreads)
  | pending call =>
    rw [hpoll] at hreads
    obtain ⟨hmore, hheld⟩ := hreads
    by_cases heof : c.eof
    · simp only [if_pos heof]
      exact .failed hrun (.inr ⟨heof, hmore⟩)
    · simp only [if_neg heof]
      exact .waiting hrun (by simpa using heof) hmore hheld

theorem write_step {c : HomeConnection} {ev : ConnEvent} {json : Bytes} {written : Bool}
    (hrun : c.running) (hint : json.length ≤ MAX_FRAME → written = true → ev.Interrupts)
    (hclose : MAX_FRAME < json.length ∨ written = false → ev.Closes) :
    ConnStep c ev (c.write json written).1 (c.write json written).2 := by
  unfold write
  by_cases hmax : json.length ≤ MAX_FRAME
  · simp only [writeFrame_of_valid hmax]
    cases written with
    | true => exact .wrote hrun (hint hmax rfl)
    | false => exact .ended hrun (hclose (.inr rfl)) rfl (.inr rfl)
  · rw [not_le] at hmax
    simp only [writeFrame, if_pos hmax]
    exact .ended hrun (hclose (.inl hmax)) rfl (.inr rfl)

theorem pingJson_le : pingJson.length ≤ MAX_FRAME := by decide

/-- **The loop takes these steps and no others.** -/
theorem step_conn (c : HomeConnection) (ev : ConnEvent) :
    ConnStep c ev (run.step c ev).1 (run.step c ev).2 := by
  change ConnStep c ev (c.step ev).1 (c.step ev).2
  unfold step
  split
  · rename_i hrun
    exact .idle (by simpa using hrun)
  rename_i hrun
  rw [not_not] at hrun
  split
  · exact .arrived hrun
  · exact .finished hrun
  · exact read_step hrun
  · exact write_step hrun (fun hmax hw => ⟨hmax, hw⟩) id
  · exact .ended hrun trivial rfl (.inl rfl)
  · refine write_step hrun (fun _ hw => hw) fun hno => ?_
    exact hno.resolve_left (not_lt.mpr pingJson_le)
  · exact .ended hrun trivial rfl (.inl rfl)

end HomeConnection

/-- **What the hub gets from a connection** is a message for each frame, and at the end it may
be told that the link is gone. -/
theorem toHub_eq (fromSlice : Bytes → Option LeaderServer) (g : HomeGen) (evs : List ConnEvent) :
    ∃ last, (last = [] ∨ last = [ToHub.homeEof g]) ∧
      collect (ConnOut.toHub fromSlice g) (HomeConnection.run.history evs)
        = (frames (HomeConnection.run.history evs)).map
            (fun json => .homeFrame g ((fromSlice json).getD .unknown)) ++ last ∧
      ((HomeConnection.run.final evs).running → last = []) := by
  induction evs using List.reverseRecOn with
  | nil => exact ⟨[], .inl rfl, rfl, fun _ => rfl⟩
  | append_singleton evs ev ih =>
    obtain ⟨last, hlast, heq, hrunning⟩ := ih
    have hstep := (HomeConnection.run.final evs).step_conn ev
    rw [HomeConnection.run.history_snoc, HomeConnection.run.final_snoc, collect_append,
      frames_append, heq, frames, frames, collect_singleton, collect_singleton]
    generalize HomeConnection.run.step (HomeConnection.run.final evs) ev = next at hstep ⊢
    obtain ⟨c', out⟩ := next
    cases hstep with
    | idle hrun => exact ⟨last, hlast, by simp, hrunning⟩
    | arrived hrun => exact ⟨[], .inl rfl, by simp [hrunning hrun], fun _ => rfl⟩
    | finished hrun => exact ⟨[], .inl rfl, by simp [hrunning hrun], fun _ => rfl⟩
    | handed hrun hframe =>
      exact ⟨[], .inl rfl, by simp [hrunning hrun, ConnOut.toHub], fun _ => rfl⟩
    | waiting hrun => exact ⟨[], .inl rfl, by simp [hrunning hrun], fun _ => rfl⟩
    | failed hrun hfail =>
      exact ⟨[.homeEof g], .inr rfl, by simp [hrunning hrun, List.filterMap_cons, ConnOut.toHub],
        fun hrun' => by cases hrun'⟩
    | wrote hrun hev =>
      exact ⟨[], .inl rfl, by simp [hrunning hrun, List.filterMap_cons, ConnOut.toHub],
        fun _ => rfl⟩
    | ended hrun hev hstop hout =>
      refine ⟨out.filterMap (ConnOut.toHub fromSlice g), ?_, ?_, fun hrun' => ?_⟩
      · rcases hout with rfl | rfl
        · exact .inl rfl
        · exact .inr rfl
      · rcases hout with rfl | rfl <;> simp [hrunning hrun, List.filterMap_cons]
      · rw [hstop] at hrun'
        cases hrun'

/-! ## 4. Connections that lose nothing -/

/-- A connection in which everything is accounted for: `handed` is what the hub has got, and
`arrived` what has come in. -/
structure OnTrack (sent : List Bytes) (c : HomeConnection) (handed : List Bytes)
    (arrived : Bytes) : Prop where
  in_order : handed <+: sent
  /-- What has arrived has been handed over, or is held by the call, or waits in the socket. -/
  account : c.running → framing.stream handed ++ (c.reading.held ++ c.socket) = arrived

namespace OnTrack

variable {sent handed : List Bytes} {c c' : HomeConnection} {arrived : Bytes} {ev : ConnEvent}
  {out : List ConnOut}

/-- What is left of the stream, and what a reader makes of what is there of it. -/
theorem reads (h : OnTrack sent c handed arrived)
    (hsent : ∀ json ∈ sent, json.length ≤ MAX_FRAME) (hrun : c.running)
    (harr : arrived <+: framing.stream sent) :
    ∃ todo, sent = handed ++ todo ∧ (decodeFrame (c.reading.held ++ c.socket) = .more ∨
      ∃ json todo' rest, todo = json :: todo' ∧
        decodeFrame (c.reading.held ++ c.socket) = .frame json rest ∧
        c.reading.held ++ c.socket = framing.encode json ++ rest) := by
  obtain ⟨todo, rfl, hpre⟩ := framing.stream_append_prefix hsent
    (fun json hjson => hsent json (h.in_order.subset hjson)) (h.account hrun ▸ harr)
  refine ⟨todo, rfl, ?_⟩
  rcases framing.decode_of_prefix (fun json hjson => hsent json (List.mem_append_right _ hjson))
    hpre with hmore | ⟨json, todo', rest, rfl, hframe, heq, -⟩
  · exact .inl hmore
  · exact .inr ⟨json, todo', rest, rfl, hframe, heq⟩

/-- A step keeps everything accounted for, unless it drops a call that holds bytes. -/
theorem step (h : OnTrack sent c handed arrived)
    (hsent : ∀ json ∈ sent, json.length ≤ MAX_FRAME)
    (harr : arrived ++ ev.bytes <+: framing.stream sent) (hs : ConnStep c ev c' out)
    (hheld : c.running → ev.Interrupts → c.reading.held = []) :
    OnTrack sent c' (handed ++ out.filterMap ConnOut.frame) (arrived ++ ev.bytes) := by
  cases hs with
  | idle hrun =>
    refine ⟨by simpa using h.in_order, fun hrun' => ?_⟩
    rw [hrun] at hrun'
    cases hrun'
  | arrived hrun =>
    refine ⟨by simpa using h.in_order, fun _ => ?_⟩
    simp only [ConnEvent.bytes, ← h.account hrun, List.filterMap_nil, List.append_nil,
      List.append_assoc]
  | finished hrun => exact ⟨by simpa using h.in_order, by simpa [ConnEvent.bytes] using h.account⟩
  | @handed json rest hrun hframe =>
    have hnil : ConnEvent.readFrame.bytes = [] := rfl
    rw [hnil, List.append_nil] at harr ⊢
    obtain ⟨todo, rfl, hmore | ⟨json', todo', rest', rfl, hframe', heq⟩⟩ :=
      h.reads hsent hrun harr
    · rw [hframe] at hmore
      cases hmore
    · rw [hframe] at hframe'
      cases hframe'
      have hone : [ConnOut.homeFrame json].filterMap ConnOut.frame = [json] := rfl
      refine ⟨?_, fun _ => ?_⟩
      · rw [hone, List.prefix_append_right_inj]
        exact ⟨todo', rfl⟩
      · rw [hone, ← h.account hrun, heq]
        simp
  | waiting hrun heof hmore hheld' =>
    refine ⟨by simpa using h.in_order, fun _ => ?_⟩
    simpa [ConnEvent.bytes, hheld'] using h.account hrun
  | failed hrun hfail =>
    exact ⟨by simpa [List.filterMap_cons] using h.in_order, fun hrun' => by cases hrun'⟩
  | wrote hrun hev =>
    have hnil : ev.bytes = [] := by
      cases ev <;> first | rfl | exact hev.elim
    refine ⟨by simpa [List.filterMap_cons] using h.in_order, fun _ => ?_⟩
    simpa [hnil, List.filterMap_cons, hheld hrun hev] using h.account hrun
  | ended hrun hev hstop hout =>
    refine ⟨?_, fun hrun' => ?_⟩
    · rcases hout with rfl | rfl <;> simpa [List.filterMap_cons] using h.in_order
    · rw [hstop] at hrun'
      cases hrun'

/-- A connection on track goes on until something ends it. -/
theorem goes_on (h : OnTrack sent c handed arrived)
    (hsent : ∀ json ∈ sent, json.length ≤ MAX_FRAME) (harr : arrived <+: framing.stream sent)
    (hs : ConnStep c ev c' out) (hev : ¬ ev.Closes) (hrun : c.running) (heof : c.eof = false) :
    c'.running ∧ c'.eof = false := by
  cases hs with
  | idle hidle =>
    rw [hrun] at hidle
    cases hidle
  | finished => exact absurd trivial hev
  | failed _ hfail =>
    obtain ⟨todo, -, hreads⟩ := h.reads hsent hrun harr
    rcases hfail with hbad | ⟨heof', -⟩
    · rw [hbad] at hreads
      rcases hreads with hmore | ⟨_, _, _, -, hframe, -⟩
      · cases hmore
      · cases hframe
    · rw [heof] at heof'
      cases heof'
  | ended _ hev' => exact absurd hev' hev
  | arrived => exact ⟨hrun, heof⟩
  | handed => exact ⟨hrun, heof⟩
  | waiting => exact ⟨hrun, heof⟩
  | wrote => exact ⟨hrun, heof⟩

end OnTrack

theorem Unbroken.of_append {evs evs' : List ConnEvent} (h : Unbroken (evs ++ evs')) :
    Unbroken evs := fun e he =>
  h e (by rw [HomeConnection.run.history_append]; exact List.mem_append_left _ he)

/-- **A connection in which no branch interrupts a read loses nothing**, and goes on until
something ends it. -/
theorem Unbroken.onTrack {sent : List Bytes} (hsent : ∀ json ∈ sent, json.length ≤ MAX_FRAME)
    (evs : List ConnEvent) (harr : arrivedBytes evs <+: framing.stream sent) (hun : Unbroken evs) :
    OnTrack sent (HomeConnection.run.final evs) (frames (HomeConnection.run.history evs))
        (arrivedBytes evs) ∧
      ((∀ ev ∈ evs, ¬ ev.Closes) →
        (HomeConnection.run.final evs).running ∧ (HomeConnection.run.final evs).eof = false) := by
  induction evs using List.reverseRecOn with
  | nil => exact ⟨⟨List.nil_prefix, fun _ => rfl⟩, fun _ => ⟨rfl, rfl⟩⟩
  | append_singleton evs ev ih =>
    rw [arrivedBytes_append, arrivedBytes_singleton] at harr ⊢
    have harr' : arrivedBytes evs <+: framing.stream sent := (List.prefix_append _ _).trans harr
    obtain ⟨htrack, hgoes⟩ := ih harr' hun.of_append
    have hstep := (HomeConnection.run.final evs).step_conn ev
    have hheld := hun _ (by rw [HomeConnection.run.history_snoc]; exact List.mem_concat_self)
    rw [HomeConnection.run.history_snoc, HomeConnection.run.final_snoc, frames_append]
    refine ⟨?_, fun hno => ?_⟩
    · rw [frames, frames, collect_singleton]
      exact htrack.step hsent harr hstep hheld
    · obtain ⟨hrun, heof⟩ := hgoes fun ev' hev' => hno ev' (List.mem_append_left _ hev')
      exact htrack.goes_on hsent harr' hstep (hno ev List.mem_concat_self) hrun heof

/-- A poll of a connection that has the rest of the stream before it takes the next frame. -/
theorem ConnStep.read_next {c c' : HomeConnection} {out : List ConnOut}
    (hs : ConnStep c .readFrame c' out) (hrun : c.running) (heof : c.eof = false)
    {todo : List Bytes} (htodo : ∀ json ∈ todo, json.length ≤ MAX_FRAME)
    (hrest : c.reading.held ++ c.socket = framing.stream todo) :
    c'.running ∧ c'.eof = false ∧ out.filterMap ConnOut.frame = todo.take 1 ∧
      c'.reading.held ++ c'.socket = framing.stream todo.tail := by
  have hdecode := framing.decode_stream htodo
  rw [← hrest] at hdecode
  change decodeFrame _ = _ at hdecode
  cases hs with
  | idle hidle =>
    rw [hrun] at hidle
    cases hidle
  | handed _ hframe =>
    rw [hframe] at hdecode
    cases todo with
    | nil => cases hdecode
    | cons json todo =>
      cases hdecode
      exact ⟨hrun, heof, rfl, rfl⟩
  | waiting _ _ hmore hheld =>
    rw [hmore] at hdecode
    cases todo with
    | nil => exact ⟨hrun, heof, rfl, by simpa [hheld] using hrest⟩
    | cons json todo => cases hdecode
  | failed _ hfail =>
    rcases hfail with hbad | ⟨heof', -⟩
    · rw [hbad] at hdecode
      cases todo <;> cases hdecode
    · rw [heof] at heof'
      cases heof'
  | wrote _ hev => exact hev.elim
  | ended _ hev => exact hev.elim

/-- A connection that has the rest of the stream before it hands it over, frame by frame. -/
theorem read_rest {c : HomeConnection} (hrun : c.running) (heof : c.eof = false)
    {todo : List Bytes} (htodo : ∀ json ∈ todo, json.length ≤ MAX_FRAME)
    (hrest : c.reading.held ++ c.socket = framing.stream todo) (n : Nat) :
    frames (HomeConnection.run.historyFrom c (List.replicate n .readFrame)) = todo.take n := by
  induction n generalizing c todo with
  | zero => rfl
  | succ n ih =>
    obtain ⟨hrun', heof', hout, hrest'⟩ :=
      (c.step_conn .readFrame).read_next hrun heof htodo hrest
    have htail := ih hrun' heof' (fun json hjson => htodo json (List.mem_of_mem_tail hjson)) hrest'
    rw [List.replicate_succ, Machine.historyFrom, frames, collect_cons]
    calc (HomeConnection.run.step c .readFrame).2.filterMap ConnOut.frame
          ++ frames (HomeConnection.run.historyFrom (HomeConnection.run.step c .readFrame).1
            (List.replicate n .readFrame))
        = todo.take 1 ++ todo.tail.take n := by rw [hout, htail]
      _ = todo.take (n + 1) := by cases todo <;> simp

/-! ## 5. What an interruption costs -/

/-- The bytes that are lost in the line: those that the dropped call had taken. -/
def lostIn (e : ConnLine) : Nat :=
  if e.before.running ∧ e.input.Interrupts then e.before.reading.held.length else 0

/-- The number of bytes lost in a history. -/
def lost (hist : List ConnLine) : Nat := (hist.map lostIn).sum

/-- A history is unbroken if no byte is lost in it. -/
theorem unbroken_of_lost {evs : List ConnEvent}
    (h : lost (HomeConnection.run.history evs) = 0) : Unbroken evs := by
  intro e he hrun hev
  have hzero := List.sum_eq_zero_iff_forall_eq_nat.mp h (lostIn e) (List.mem_map_of_mem he)
  rw [lostIn, if_pos ⟨hrun, hev⟩, List.length_eq_zero_iff] at hzero
  exact hzero

/-- The number of bytes that can still be handed over. -/
def HomeConnection.unread (c : HomeConnection) : Nat :=
  if c.running then c.reading.held.length + c.socket.length else 0

theorem HomeConnection.unread_of_running {c : HomeConnection} (h : c.running) :
    c.unread = c.reading.held.length + c.socket.length :=
  if_pos h

theorem HomeConnection.unread_of_stopped {c : HomeConnection} (h : c.running = false) :
    c.unread = 0 :=
  if_neg (by simp [h])

theorem lostIn_of_not {e : ConnLine} (h : ¬ e.input.Interrupts) : lostIn e = 0 :=
  if_neg fun h' => h h'.2

theorem lostIn_le (e : ConnLine) : lostIn e ≤ e.before.unread := by
  unfold lostIn
  split
  · rename_i h
    rw [HomeConnection.unread_of_running h.1]
    omega
  · exact Nat.zero_le _

/-- What a step hands over, loses and keeps was there before it or comes with it. -/
theorem ConnStep.cost {c c' : HomeConnection} {ev : ConnEvent} {out : List ConnOut}
    (hs : ConnStep c ev c' out) (out' : List ConnOut) :
    (framing.stream (out.filterMap ConnOut.frame)).length + lostIn ⟨c, ev, out'⟩ + c'.unread
      ≤ c.unread + ev.bytes.length := by
  have hread : lostIn ⟨c, .readFrame, out'⟩ = 0 := lostIn_of_not id
  cases hs with
  | idle hrun =>
    have hlost : lostIn ⟨c, ev, out'⟩ ≤ c.unread := lostIn_le _
    rw [HomeConnection.unread_of_stopped hrun] at hlost ⊢
    simp only [List.filterMap_nil, framing.stream_nil, List.length_nil]
    omega
  | @arrived bytes hrun =>
    have hlost : lostIn ⟨c, .arrived bytes, out'⟩ = 0 := lostIn_of_not id
    rw [HomeConnection.unread_of_running hrun, HomeConnection.unread_of_running (by exact hrun)]
    simp only [List.filterMap_nil, framing.stream_nil, List.length_nil, List.length_append,
      ConnEvent.bytes]
    omega
  | finished hrun =>
    have hlost : lostIn ⟨c, .finished, out'⟩ = 0 := lostIn_of_not id
    rw [HomeConnection.unread_of_running hrun, HomeConnection.unread_of_running (by exact hrun)]
    simp only [List.filterMap_nil, framing.stream_nil, List.length_nil]
    omega
  | @handed json rest hrun hframe =>
    have hsound := congrArg List.length (framing.decode_sound _ _ _ hframe).1
    rw [HomeConnection.unread_of_running hrun, HomeConnection.unread_of_running (by exact hrun)]
    simp only [List.length_append] at hsound
    simp only [List.filterMap_cons, ConnOut.frame_homeFrame, List.filterMap_nil,
      framing.stream_cons, framing.stream_nil, List.append_nil, ReadFrame.held_start,
      List.length_nil]
    omega
  | waiting hrun heof hmore hheld =>
    rw [HomeConnection.unread_of_running hrun, HomeConnection.unread_of_running (by exact hrun)]
    simp only [hheld, List.filterMap_nil, framing.stream_nil, List.length_nil, List.length_append]
    omega
  | failed hrun hfail =>
    rw [HomeConnection.unread_of_stopped (c := c.stop) rfl]
    simp only [List.filterMap_cons, ConnOut.frame_homeEof, List.filterMap_nil, framing.stream_nil,
      List.length_nil]
    omega
  | wrote hrun hev =>
    have hlost : lostIn ⟨c, ev, out'⟩ = c.reading.held.length := if_pos ⟨hrun, hev⟩
    rw [HomeConnection.unread_of_running hrun, HomeConnection.unread_of_running (by exact hrun)]
    simp only [List.filterMap_cons, ConnOut.frame_wrote, List.filterMap_nil, framing.stream_nil,
      ReadFrame.held_start, List.length_nil]
    omega
  | ended hrun hev hstop hout =>
    have hlost : lostIn ⟨c, ev, out'⟩ ≤ c.unread := lostIn_le _
    have hnone : out.filterMap ConnOut.frame = [] := by
      rcases hout with rfl | rfl <;> rfl
    rw [HomeConnection.unread_of_stopped hstop, hnone, framing.stream_nil, List.length_nil]
    omega

/-- **What is lost is not handed over**: frames, lost bytes and what is not yet read make up no
more than what has arrived. -/
theorem lost_add_le (evs : List ConnEvent) :
    (framing.stream (frames (HomeConnection.run.history evs))).length
        + lost (HomeConnection.run.history evs) + (HomeConnection.run.final evs).unread
      ≤ (arrivedBytes evs).length := by
  induction evs using List.reverseRecOn with
  | nil => exact le_rfl
  | append_singleton evs ev ih =>
    have hcost := ((HomeConnection.run.final evs).step_conn ev).cost
      (HomeConnection.run.step (HomeConnection.run.final evs) ev).2
    simp only [lost, frames] at ih
    simp only [HomeConnection.run.history_snoc, HomeConnection.run.final_snoc, frames, lost,
      collect_append, collect_singleton, framing.stream_append, List.map_append, List.sum_append,
      arrivedBytes_append, arrivedBytes_singleton, List.length_append, List.map_singleton,
      List.sum_singleton]
    omega

/-! ## 6. The frames arrive as they were sent -/

/-- **The frames of home arrive at the hub as they were sent**, each once and in order, if no
message to home and no ping goes out while a frame has been read in part; and in a connection
that has brought all of them and goes on, only then.  The first part is `Unbroken.onTrack`, the
second counts bytes: an interruption loses at least one, and a connection that has lost one cannot
hand over as many as were sent. -/
theorem frames_intact (sent : List Bytes) (evs : List ConnEvent)
    (hsent : ∀ json ∈ sent, json.length ≤ MAX_FRAME)
    (harr : arrivedBytes evs <+: framing.stream sent) :
    (Unbroken evs → FramesIntact sent evs) ∧
      ((∀ ev ∈ evs, ¬ ev.Closes) → arrivedBytes evs = framing.stream sent →
        FramesIntact sent evs → Unbroken evs) := by
  constructor
  · intro hun
    refine ⟨fun js hjs => ?_, fun hno hall => ?_⟩
    · obtain ⟨ks, rfl⟩ := hjs
      rw [arrivedBytes_append] at harr
      exact (hun.of_append.onTrack hsent js ((List.prefix_append _ _).trans harr)).1.in_order
    · obtain ⟨htrack, hgoes⟩ := hun.onTrack hsent evs harr
      obtain ⟨hrun, heof⟩ := hgoes hno
      obtain ⟨todo, htodo⟩ := htrack.in_order
      have haccount := htrack.account hrun
      rw [hall, ← htodo, framing.stream_append, List.append_cancel_left_eq] at haccount
      have hread := read_rest hrun heof
        (fun json hjson => hsent json (htodo ▸ List.mem_append_right _ hjson)) haccount sent.length
      have hle : todo.length ≤ sent.length := by
        rw [← htodo, List.length_append]
        omega
      rw [HomeConnection.run.history_append, frames_append, hread, List.take_of_length_le hle,
        htodo]
  · intro hno hall hintact
    have hcost := lost_add_le (evs ++ List.replicate sent.length .readFrame)
    have hreads : arrivedBytes (List.replicate sent.length .readFrame) = [] := by
      simp [arrivedBytes, List.flatMap_replicate, ConnEvent.bytes]
    rw [hintact.complete hno hall, arrivedBytes_append, hreads, List.append_nil, hall] at hcost
    have hnone : lost (HomeConnection.run.history (evs ++ List.replicate sent.length .readFrame))
        = 0 := by omega
    exact (unbroken_of_lost hnone).of_append

/-- A frame that arrives in two pieces, with a ping before them and one after. -/
theorem frames_intact_of_pieces :
    FramesIntact [[65]] [.tick true, .arrived [0, 0], .readFrame, .arrived [0, 1, 65], .readFrame,
      .tick true] :=
  (frames_intact _ _ (by decide) (by decide)).1 (by decide)

/-- **A frame is lost to a ping** that goes out when its length has been read. -/
theorem frame_lost_to_ping :
    ¬ FramesIntact [[65]] [.arrived [0, 0, 0, 1], .readFrame, .tick true, .arrived [65]] := by
  intro h
  exact absurd (h.complete (by decide) (by decide)) (by decide)

end Aqualung
