/-
# Messages that are too large for home

A phone's message goes home as a string in a frame, and the frame can be longer than
`MAX_FRAME` although the message is not.  `write_frame` refuses it, and `home_connection` takes
that for the end of the link: the host is away, for all phones.

Here the hub, the connection of the serving link and `serde_json` are put together.  `deliver`
is one message on its way: the hub's turn, the connection with a transport that takes
everything, and the hub's turns for what the connection reports.  `message_harmless` says that
the size of the frame is all that matters: a frame of the right size is written and the connection
goes on (`deliver_written`), and one that is too large ends the link, whatever the message says
(`deliver_refused`).

The text of the message is escaped once more in the frame, which at most doubles it, so messages of
less than half the limit are harmless (`harmless_of_short`).  `quotes_take_home_away` is a message
within the limit that is not: it consists of quotation marks, which are doubled twice.
-/
import Aqualung.Net.HomeConnection
import Aqualung.Wire.Print
import Aqualung.Hub.Admission

namespace Aqualung

open Lib

/-! ## 1. What the hub sends -/

/-- A message that goes home is all that the hub sends in its turn. -/
theorem Hub.ForwardsAs.out_eq {h : Hub} {p : PhoneId} {obj m : Obj} (hf : h.ForwardsAs p obj m)
    {t : Turn} (ht : t.PhoneSays p obj) {g : HomeGen} (hm : h.home.mux = some g) :
    (Loop.turn ⟨h, false⟩ t).2 = [.toHome g (.acp m)] := by
  cases hf with
  | request hp hmethod hid hf =>
    obtain ⟨phone, hp⟩ := Table.mem_iff_exists.mp hp
    rw [turn_forwardable ht hp hmethod hid hf, hm]
  | notification hp hmethod hid =>
    obtain ⟨phone, hp⟩ := Table.mem_iff_exists.mp hp
    obtain ⟨method, hmethod⟩ := Option.isSome_iff_exists.mp hmethod
    rw [turn_rpc ht hp]
    simp [Hub.onRpc, hmethod, hid, Hub.forwardNotification_eq, hm]
  | reply hp hmethod hreply hid hkey hopen =>
    have hrep : Replies ⟨⟨h, false⟩, t, []⟩ p obj _ := ⟨rfl, ht, hp, hmethod, hreply, hid⟩
    rw [turn_reply hrep,
      (h.onPhoneReply_spec p _ obj).out, hkey, Option.bind_some, hopen, hm]
    rfl

/-! ## 2. One message on its way -/

section

variable (floatText : UInt64 → Bytes) (fromSlice : Bytes → Option LeaderServer)

/-- What an effect of the hub is for the connection of the link `g`, with a transport that takes
every frame. -/
def command (g : HomeGen) : Effect → Option ConnEvent
  | .toHome g' msg => if g' = g then some (.recv (some (msg.toVec floatText)) true) else none
  | .halt g' => if g' = g then some .halt else none
  | _ => none

/-- What there is when a turn of the hub has run its course: the loop, the connection, and
everything that the hub has sent. -/
structure Delivery where
  loop : Loop
  conn : HomeConnection
  out : List Effect

/-- The turn `t` of the loop, then the connection `c` of the link `g` with what the hub has
queued for it, then the hub with what the connection reports. -/
def deliver (l : Loop) (g : HomeGen) (c : HomeConnection) (t : Turn) : Delivery :=
  let evs := (Hub.run.step l t).2.filterMap (command floatText g)
  let reports := (collect (ConnOut.toHub fromSlice g) (HomeConnection.run.historyFrom c evs)).map
    Turn.get
  { loop := Hub.run.finalFrom (Hub.run.step l t).1 reports
    conn := HomeConnection.run.finalFrom c evs
    out := (Hub.run.step l t).2 ++
      (Hub.run.historyFrom (Hub.run.step l t).1 reports).flatMap Entry.out }

/-- The connection of the link `g` goes on, the link is still serving, and no phone but `p` has
been told anything. -/
structure Unharmed (d : Delivery) (g : HomeGen) (p : PhoneId) : Prop where
  running : d.conn.running
  serving : d.loop.hub.home.mux = some g
  others : ∀ q m, q ≠ p → .toPhone q m ∉ d.out

/-- The promise: a phone's message, whatever it is, does not take the serving link away, nor is
it noticed by other phones. -/
def Harmless (ts : List Turn) (t : Turn) : Prop :=
  ∀ p text g c, t.input = .recv (.phoneText p text) → (Hub.run.final ts).hub.home.mux = some g →
    c.running → Unharmed (deliver floatText fromSlice (Hub.run.final ts) g c t) g p

end

section

variable {floatText : UInt64 → Bytes} {fromSlice : Bytes → Option LeaderServer}

theorem conn_writes {c : HomeConnection} (hc : c.running) {json : Bytes}
    (hjson : json.length ≤ MAX_FRAME) :
    HomeConnection.run.step c (.recv (some json) true)
      = ({ c with reading := .start }, [.wrote (frameOf json)]) := by
  change c.step (.recv (some json) true) = _
  simp [HomeConnection.step, hc, HomeConnection.write, writeFrame_of_valid hjson, framing]

/-- A frame that is too large ends the connection, and the hub is told that the link has
ended. -/
theorem conn_ends {c : HomeConnection} (hc : c.running) {json : Bytes}
    (hjson : MAX_FRAME < json.length) :
    HomeConnection.run.step c (.recv (some json) true)
      = (HomeConnection.stop { c with reading := .start }, [.homeEof]) := by
  change c.step (.recv (some json) true) = _
  simp [HomeConnection.step, hc, HomeConnection.write, writeFrame, hjson]

/-- A turn with nothing for the connection of the link. -/
theorem deliver_silent {l : Loop} {g : HomeGen} {c : HomeConnection} {t : Turn}
    (hsilent : (Hub.run.step l t).2.filterMap (command floatText g) = []) :
    deliver floatText fromSlice l g c t
      = { loop := (Hub.run.step l t).1, conn := c, out := (Hub.run.step l t).2 } := by
  simp [deliver, hsilent, Machine.historyFrom, Machine.finalFrom]

/-- A turn with one message for the serving link, of the right size. -/
theorem deliver_written {l : Loop} {g : HomeGen} {c : HomeConnection} {t : Turn} {m : Obj}
    (hc : c.running) (hout : (Hub.run.step l t).2 = [.toHome g (.acp m)])
    (hsize : (LeaderClient.toVec floatText (.acp m)).length ≤ MAX_FRAME) :
    deliver floatText fromSlice l g c t
      = { loop := (Hub.run.step l t).1
          conn := { c with reading := .start }
          out := [.toHome g (.acp m)] } := by
  have hconn := conn_writes hc hsize
  simp only [deliver, hout, List.filterMap_cons, command, if_true, List.filterMap_nil,
    Machine.historyFrom, Machine.finalFrom, hconn, collect, List.flatMap_cons, List.flatMap_nil,
    List.append_nil, ConnOut.toHub, List.map_nil]

/-- A turn with one message for the serving link that is too large: the link is lost. -/
theorem deliver_refused {l : Loop} {g : HomeGen} {c : HomeConnection} {t : Turn} {m : Obj}
    (hc : c.running) (hout : (Hub.run.step l t).2 = [.toHome g (.acp m)])
    (hsize : MAX_FRAME < (LeaderClient.toVec floatText (.acp m)).length)
    (hm : (Hub.run.step l t).1.hub.home.mux = some g)
    (hrunning : (Hub.run.step l t).1.stopped = false) :
    (deliver floatText fromSlice l g c t).loop.hub.home.mux = none ∧
      (deliver floatText fromSlice l g c t).conn.running = false := by
  have hconn := conn_ends hc hsize
  simp only [deliver, hout, List.filterMap_cons, command, if_true, List.filterMap_nil,
    Machine.historyFrom, Machine.finalFrom, hconn, collect, List.flatMap_cons, List.flatMap_nil,
    List.append_nil, ConnOut.toHub, List.map_cons, List.map_nil]
  refine ⟨?_, rfl⟩
  generalize (Hub.run.step l t).1 = l' at hm hrunning ⊢
  obtain ⟨h, stopped⟩ := l'
  obtain rfl : stopped = false := hrunning
  have hlost : (Hub.run.step ⟨h, false⟩ (.get (.homeEof g))).1.hub = (h.onHomeEof g).1 := rfl
  rw [hlost, Hub.onHomeEof_of_mux hm, Home.mux_ofParts]

/-! ## 3. Harmless messages -/

/-- The hub's turn for a phone's text: it keeps the links, and no other phone is sent
anything. -/
theorem text_confined {ts : List Turn} {t : Turn} {p : PhoneId} {text : RpcText} {g : HomeGen}
    (ht : t.input = .recv (.phoneText p text)) (hm : (Hub.run.final ts).hub.home.mux = some g) :
    ∃ h' out, Hub.run.step (Hub.run.final ts) t = (⟨h', false⟩, out) ∧
      HubStep t (Hub.run.final ts).hub h' out ∧ h'.home.mux = some g ∧
      Confined p (Hub.run.final ts).hub h' out := by
  obtain ⟨h', out, heq, hs⟩ := text_step (running_of_holds (.inl hm)) ht
  have hconf := hs.confined ⟨_, ht, rfl⟩
  exact ⟨h', out, heq, hs, by rw [hconf.home, hm], hconf⟩

/-- A message that goes home: what the hub sends in its turn. -/
theorem out_of_forwardsAs {ts : List Turn} {t : Turn} {p : PhoneId} {obj m : Obj} {g : HomeGen}
    (ht : t.PhoneSays p obj) (hm : (Hub.run.final ts).hub.home.mux = some g)
    (hf : (Hub.run.final ts).hub.ForwardsAs p obj m) :
    (Hub.run.step (Hub.run.final ts) t).2 = [.toHome g (.acp m)] := by
  have hrunning := running_of_holds (.inl hm)
  generalize Hub.run.final ts = l at hm hf hrunning ⊢
  obtain ⟨h, stopped⟩ := l
  obtain rfl : stopped = false := hrunning
  exact hf.out_eq ht hm

/-- A message that is harmless has a frame of the right size. -/
theorem Harmless.size {ts : List Turn} {t : Turn} (hharm : Harmless floatText fromSlice ts t)
    {p : PhoneId} {obj m : Obj} {g : HomeGen} (ht : t.PhoneSays p obj)
    (hm : (Hub.run.final ts).hub.home.mux = some g)
    (hf : (Hub.run.final ts).hub.ForwardsAs p obj m) :
    (LeaderClient.toVec floatText (.acp m)).length ≤ MAX_FRAME := by
  by_contra hsize
  have hout := out_of_forwardsAs ht hm hf
  obtain ⟨h', out, heq, hs, hm', -⟩ := text_confined ht hm
  have hrun : ({} : HomeConnection).running := rfl
  have hserving := (hharm p _ g {} ht hm hrun).serving
  have hlost : (deliver floatText fromSlice (Hub.run.final ts) g {} t).loop.hub.home.mux = none :=
    (deliver_refused hrun hout (not_le.mp hsize) (by rw [heq]; exact hm') (by rw [heq])).1
  rw [hlost] at hserving
  cases hserving

/-- Messages whose frames have the right size are harmless. -/
theorem harmless_of_size {ts : List Turn} {t : Turn}
    (hsize : ∀ p obj m, t.PhoneSays p obj → (Hub.run.final ts).hub.home.mux.isSome →
      (Hub.run.final ts).hub.ForwardsAs p obj m →
      (LeaderClient.toVec floatText (.acp m)).length ≤ MAX_FRAME) :
    Harmless floatText fromSlice ts t := by
  intro p text g c ht hm hc
  obtain ⟨h', out, heq, hs, hm', hconf⟩ := text_confined ht hm
  have hothers : ∀ q m, q ≠ p → .toPhone q m ∉ out := fun q m hq hmem =>
    hq (hconf.phone_eq hmem)
  by_cases hforward : ∃ obj m, t.PhoneSays p obj ∧ (Hub.run.final ts).hub.ForwardsAs p obj m
  · obtain ⟨obj, m, hsaid, hf⟩ := hforward
    have hout := out_of_forwardsAs hsaid hm hf
    rw [deliver_written hc hout (hsize p obj m hsaid (by simp [hm]) hf)]
    refine ⟨hc, ?_, fun q m' _ hmem => ?_⟩
    · rw [heq]
      exact hm'
    · simp at hmem
  · have hsilent : (Hub.run.step (Hub.run.final ts) t).2.filterMap (command floatText g) = [] := by
      rw [heq, List.filterMap_eq_nil_iff]
      intro eff heff
      rcases hconf.sent eff heff with rfl | ⟨m', rfl⟩ | ⟨g', msg, rfl⟩
      · rfl
      · rfl
      · -- Only an object goes home, and it goes as `ForwardsAs` says.
        obtain ⟨-, obj, m, rfl, -, hf⟩ := hs.forwards_of_text ht heff
        exact absurd ⟨obj, m, ht, hf⟩ hforward
    rw [deliver_silent hsilent, heq]
    exact ⟨hc, hm', hothers⟩

/-- **A phone's message takes the serving link away exactly if its frame is larger than
`MAX_FRAME`**, for every message, every state of the hub that a run leads to, and every state of the
connection that is still in its loop. -/
theorem message_harmless (floatText : UInt64 → Bytes) (fromSlice : Bytes → Option LeaderServer)
    (ts : List Turn) (t : Turn) :
    Harmless floatText fromSlice ts t ↔
      ∀ p obj m, t.PhoneSays p obj → (Hub.run.final ts).hub.home.mux.isSome →
        (Hub.run.final ts).hub.ForwardsAs p obj m →
        (LeaderClient.toVec floatText (.acp m)).length ≤ MAX_FRAME := by
  constructor
  · intro hharm p obj m ht hm hf
    obtain ⟨g, hm⟩ := Option.isSome_iff_exists.mp hm
    exact hharm.size ht hm hf
  · exact harmless_of_size

/-- Messages of less than half the limit are harmless, whatever is in them. -/
theorem harmless_of_short (hfloat : ∀ bits, Plain (floatText bits)) {ts : List Turn} {t : Turn}
    (hshort : ∀ p obj m, t.PhoneSays p obj → (Hub.run.final ts).hub.ForwardsAs p obj m →
      2 * (Json.toText floatText (.obj m)).length + 27 ≤ MAX_FRAME) :
    Harmless floatText fromSlice ts t :=
  harmless_of_size fun p obj m ht _ hf =>
    (length_toVec_le hfloat m).trans (hshort p obj m ht hf)

end

/-! ## 4. Quotes -/

def noFloats (_ : UInt64) : Bytes := []

def noFrames (_ : Bytes) : Option LeaderServer := none

/-- A notification about a session whose name is `n` quotation marks. -/
def quoteNote (n : Nat) : Obj :=
  [("method", .str "session/cancel"),
    ("params", .obj [("sessionId", .str (String.ofList (List.replicate n '"')))])]

theorem method_quoteNote (n : Nat) : (quoteNote n).method = some "session/cancel" := by
  simp [Obj.method, Obj.get, quoteNote, bget, Json.asStr]

theorem id_quoteNote (n : Nat) : (quoteNote n).id = none := by
  simp [Obj.id, Obj.get, quoteNote, bget]

/-- The text of it: every quotation mark takes two bytes. -/
theorem toText_quoteNote (n : Nat) :
    ∃ front back, Json.toText noFloats (.obj (quoteNote n))
        = front ++ (List.replicate n 0x22).flatMap escapeByte ++ back ∧
      front.length + back.length = 53 := by
  have hquotes : utf8 (String.ofList (List.replicate n '"')) = List.replicate n 0x22 := by
    rw [utf8, String.toList_ofList]
    induction n with
    | zero => rfl
    | succ n ih =>
      rw [List.replicate_succ, List.flatMap_cons, ih]
      rfl
  refine ⟨ascii "\x7b\"method\":\"session/cancel\",\"params\":\x7b\"sessionId\":\"",
    ascii "\"\x7d\x7d", ?_, by decide⟩
  have hmethod : quote (utf8 "method") = ascii "\"method\"" := by decide
  have hcancel : quote (utf8 "session/cancel") = ascii "\"session/cancel\"" := by decide
  have hparams : quote (utf8 "params") = ascii "\"params\"" := by decide
  have hsession : quote (utf8 "sessionId") = ascii "\"sessionId\"" := by decide
  simp only [quoteNote, Json.toText, fieldsText, comma, hmethod, hcancel, hparams, hsession,
    hquotes]
  simp [ascii, quote]

/-- Escaped once, a quotation mark takes two bytes, and escaped twice, four. -/
theorem length_escaped_quotes (n : Nat) :
    ((List.replicate n 0x22).flatMap escapeByte).length = 2 * n ∧
      (((List.replicate n 0x22).flatMap escapeByte).flatMap escapeByte).length = 4 * n := by
  have honce : escapeByte 0x22 = [0x5c, 0x22] := rfl
  have htwice : ([0x5c, 0x22] : Bytes).flatMap escapeByte = [0x5c, 0x5c, 0x5c, 0x22] := rfl
  induction n with
  | zero => exact ⟨rfl, rfl⟩
  | succ n ih =>
    obtain ⟨ih, ih'⟩ := ih
    rw [List.replicate_succ, List.flatMap_cons, List.flatMap_append, honce, htwice,
      List.length_append, List.length_append, ih, ih', List.length_cons, List.length_cons,
      List.length_cons, List.length_cons, List.length_cons, List.length_cons, List.length_nil]
    omega

/-- **A message of 32 MiB takes home away**: 2^24 quotation marks are less than the 64 MiB that
a phone may send, and too many for a frame. -/
theorem quotes_take_home_away :
    (Json.toText noFloats (.obj (quoteNote (2 ^ 24)))).length ≤ 64 * 1024 * 1024 ∧
      ¬ Harmless noFloats noFrames Turn.bringUp (.phone 1 (quoteNote (2 ^ 24))) := by
  obtain ⟨front, back, htext, hrest⟩ := toText_quoteNote (2 ^ 24)
  obtain ⟨honce, htwice⟩ := length_escaped_quotes (2 ^ 24)
  constructor
  · rw [htext, List.length_append, List.length_append, honce]
    omega
  · intro hharm
    have hf : (Hub.run.final Turn.bringUp).hub.ForwardsAs 1 (quoteNote (2 ^ 24))
        (quoteNote (2 ^ 24)) :=
      .notification (by decide +kernel) (by rw [method_quoteNote]; rfl) (id_quoteNote _)
    have hsize := hharm.size (p := 1) (g := 1) rfl (by decide +kernel) hf
    rw [length_toVec_acp, htext, List.flatMap_append, List.flatMap_append, List.length_append,
      List.length_append, htwice, MAX_FRAME] at hsize
    omega

end Aqualung
