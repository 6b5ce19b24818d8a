/-
# How connections come to their numbers

A connection from home and a phone come to the hub in the same way.  When its handshake is over the
task sends a message that asks for a number, a generation or a phone id, and waits; the hub reads
`rx` in turn and answers each such message with the next number it has not used; the task takes the
answer and goes on.  Between the message and the answer the number belongs to nobody, and the
message stands in `rx` among all others.

So `rx` is the mail of a desk (`Lib.Desk`) and the hub sits at it, once for each of the two kinds.
This module says for any kind what the moves of `Serve` are to the desk: a task of the kind moves
(`ConnKind.Kept.moves`), somebody else sends (`ConnKind.Kept.others`), the hub takes a turn
(`ConnKind.Kept.turns`).

What is special about a kind is in `ConnKind`: how its tasks show where they are, the message, the
counter, and that the hub gives a number in the turns that read the message and in no others.  The
two kinds are `homeConns` and `phoneConns`.
-/
import Aqualung.Net.Serve
import Aqualung.Lib.Register

namespace Aqualung

open Lib

/-! ## 1. What is in `rx` -/

namespace Serve

variable {P : Type*}

/-- What a task sends is put at the end of `rx`, if the hub has not ended. -/
theorem mem_post {s : Serve} {sender : Sender} {msgs : List ToHub} {letter : Letter}
    (h : letter ∈ s.post sender msgs) :
    letter ∈ s.rx ∨ letter.sender = sender ∧ letter.msg ∈ msgs := by
  unfold post at h
  split at h
  · exact .inl h
  · refine (List.mem_append.mp h).imp_right fun hnew => ?_
    obtain ⟨msg, hmsg, rfl⟩ := List.mem_map.mp hnew
    exact ⟨rfl, hmsg⟩

theorem mem_post_of_mem {s : Serve} {sender : Sender} {msgs : List ToHub} {letter : Letter}
    (h : letter ∈ s.rx) : letter ∈ s.post sender msgs := by
  unfold post
  split
  · exact h
  · exact List.mem_append_left _ h

theorem post_of_running {s : Serve} (hrun : s.loop.stopped = false) (sender : Sender)
    (msgs : List ToHub) : s.post sender msgs = s.rx ++ msgs.map (⟨sender, ·⟩) := by
  simp [post, hrun]

theorem post_of_stopped {s : Serve} (hstop : s.loop.stopped = true) (sender : Sender)
    (msgs : List ToHub) : s.post sender msgs = s.rx := by
  simp [post, hstop]

@[simp] theorem post_nil (s : Serve) (sender : Sender) : s.post sender [] = s.rx := by
  unfold post
  split <;> simp

/-- What the hub wakes up for is the first letter, or its deadline. -/
theorem wake_spec {s : Serve} {ev : ServeEvent P} {w : Wake} (hw : s.wake ev = some w) :
    s.loop.stopped = false ∧
      ((∃ letter, s.rx = letter :: w.rx ∧ w.sender = some letter.sender ∧
          w.turn.input = .recv letter.msg) ∨
        (w.rx = s.rx ∧ w.sender = none ∧ w.turn.input = .deadline)) := by
  unfold wake at hw
  split at hw
  · cases hw
  · rename_i hstop
    refine ⟨by simpa using hstop, ?_⟩
    split at hw
    · rename_i letter rx hrx
      cases hw
      exact .inl ⟨letter, hrx, rfl, rfl⟩
    · cases hw
      exact .inr ⟨rfl, rfl, rfl⟩
    · cases hw

theorem mem_of_mem_wake {s : Serve} {ev : ServeEvent P} {w : Wake} (hw : s.wake ev = some w)
    {letter : Letter} (h : letter ∈ w.rx) : letter ∈ s.rx := by
  rcases (wake_spec hw).2 with ⟨first, hrx, -, -⟩ | ⟨hrx, -, -⟩
  · exact hrx ▸ List.mem_cons_of_mem _ h
  · exact hrx ▸ h

end Serve

/-! ## 2. Kinds of connections -/

/-- A kind of connections, with tasks in states `T`. -/
structure ConnKind (T : Type) where
  number : T → Option Nat
  Early : T → Prop
  Waits : T → Prop
  sender : Nat → Sender
  /-- The message that asks for a number. -/
  hello : ToHub
  client : Letter → Option Nat
  /-- The number that the effect answers with. -/
  binds : Effect → Option Nat
  /-- The last number that the hub has used. -/
  next : Hub → Nat
  client_iff : ∀ letter k, client letter = some k ↔ letter = ⟨sender k, hello⟩
  binds_turn : ∀ {l : Loop}, l.stopped = false → ∀ t : Turn,
    (t.input = .recv hello ∧ (Hub.run.step l t).2.findSome? binds = some (next l.hub + 1) ∧
        next (Hub.run.step l t).1.hub = next l.hub + 1) ∨
      (t.input ≠ .recv hello ∧ (Hub.run.step l t).2.findSome? binds = none ∧
        next (Hub.run.step l t).1.hub = next l.hub)

namespace ConnKind

variable {T : Type}

/-- The connections as clients of the hub. -/
def clients (κ : ConnKind T) : Client Nat Letter T where
  number := κ.number
  Early := κ.Early
  Waits := κ.Waits
  Asks letter := letter.msg = κ.hello
  client := κ.client

/-- The hub keeps its desk, for the tasks `tasks` of the kind. -/
def Kept (κ : ConnKind T) (l : Loop) (rx : List Letter) (tasks : Nat → T) : Prop :=
  Desk κ.clients (l.stopped = false) rx tasks (κ.next l.hub)

variable {κ : ConnKind T}

theorem client_hello (κ : ConnKind T) (k : Nat) : κ.client ⟨κ.sender k, κ.hello⟩ = some k :=
  (κ.client_iff _ k).mpr rfl

theorem client_of_ne {letter : Letter} (h : letter.msg ≠ κ.hello) : κ.client letter = none := by
  rw [Option.eq_none_iff_forall_ne_some]
  intro k hk
  exact h (congrArg Letter.msg ((κ.client_iff letter k).mp hk))

theorem sender_inj {k k' : Nat} : κ.sender k = κ.sender k' ↔ k = k' := by
  refine ⟨fun h => ?_, congrArg κ.sender⟩
  have hsame := κ.client_hello k'
  rw [← h, κ.client_hello k] at hsame
  exact Option.some.inj hsame

/-- The task asks in its move, or it does not. -/
def Says (κ : ConnKind T) (asks : Bool) (msgs : List ToHub) : Prop :=
  if asks then msgs = [κ.hello] else κ.hello ∉ msgs

namespace Kept

variable {s : Serve} {tasks tasks' : Nat → T}

/-- Somebody else sends what is not for the desk. -/
theorem others (h : κ.Kept s.loop s.rx tasks) {sender : Sender} {msgs : List ToHub}
    (hmsgs : κ.hello ∉ msgs) : κ.Kept s.loop (s.post sender msgs) tasks := by
  unfold Serve.post
  split
  · exact h
  · refine h.mail_append fun letter hmem => ?_
    obtain ⟨msg, hmsg, rfl⟩ := List.mem_map.mp hmem
    have hne : msg ≠ κ.hello := fun heq => hmsgs (heq ▸ hmsg)
    exact ⟨hne, client_of_ne hne⟩

/-- A task of the kind moves. -/
theorem moves (h : κ.Kept s.loop s.rx tasks) {k : Nat} {t : T} {asks : Bool} {msgs : List ToHub}
    (hnumber : κ.number t = κ.number (tasks k))
    (hm : κ.clients.Move (s.loop.stopped = false) (tasks k) t asks) (hsaid : κ.Says asks msgs) :
    κ.Kept s.loop (s.post (κ.sender k) msgs) (Function.update tasks k t) := by
  have hnew : ∀ new, s.post (κ.sender k) msgs = s.rx ++ new →
      new.filterMap κ.client = (if asks then [k] else []) →
      (∀ l ∈ new, l.sender = κ.sender k) →
      κ.Kept s.loop (s.post (κ.sender k) msgs) (Function.update tasks k t) := by
    intro new hpost hline hsenders
    rw [hpost]
    refine Desk.move h hnumber hm hline fun letter hmem hasks => ⟨k, (κ.client_iff _ _).mpr ?_⟩
    obtain ⟨sender, msg⟩ := letter
    obtain rfl : sender = κ.sender k := hsenders _ hmem
    obtain rfl : msg = κ.hello := hasks
    rfl
  have hmap : ∀ l ∈ msgs.map (Letter.mk (κ.sender k)), l.sender = κ.sender k := by
    intro l hl
    obtain ⟨msg, -, rfl⟩ := List.mem_map.mp hl
    rfl
  unfold Says at hsaid
  cases hm with
  | asks hopen =>
    rw [if_pos rfl] at hsaid
    refine hnew _ (Serve.post_of_running hopen _ _) ?_ hmap
    rw [hsaid, List.map_singleton, List.filterMap_cons_some (κ.client_hello k)]
    rfl
  | stays =>
    rw [if_neg (by simp)] at hsaid
    cases hstop : s.loop.stopped with
    | true =>
      refine hnew [] ?_ rfl (by simp)
      rw [Serve.post_of_stopped hstop, List.append_nil]
    | false =>
      refine hnew _ (Serve.post_of_running hstop _ _) ?_ hmap
      rw [if_neg (by simp), List.filterMap_eq_nil_iff]
      intro l hl
      obtain ⟨msg, hmsg, rfl⟩ := List.mem_map.mp hl
      exact client_of_ne fun heq => hsaid (heq ▸ hmsg)

/-- What a turn of the hub is to the desk. -/
theorem turn {P : Type*} (h : κ.Kept s.loop s.rx tasks) {ev : ServeEvent P} {w : Serve.Wake}
    (hw : s.wake ev = some w)
    (hbound : ∀ k, κ.number (tasks' k) = (κ.number (tasks k)).or
      (if w.sender = some (κ.sender k) then (Hub.run.step s.loop w.turn).2.findSome? κ.binds
        else none)) :
    κ.clients.Turn s.rx tasks tasks' (κ.next s.loop.hub) w.rx
      (κ.next (Hub.run.step s.loop w.turn).1.hub) := by
  obtain ⟨hrun, hread⟩ := Serve.wake_spec hw
  obtain ⟨hin, hfirst, hnext⟩ | ⟨hin, hfirst, hnext⟩ := κ.binds_turn hrun w.turn
  · obtain ⟨letter, hletter, hsender, hmsg⟩ | ⟨-, -, hdeadline⟩ := hread
    · -- The letter asks, and the number goes to its sender.
      have hasks : letter.msg = κ.hello := by simpa [hin, eq_comm] using hmsg
      obtain ⟨k, hk⟩ := h.signed letter (hletter ▸ List.mem_cons_self) hasks
      obtain rfl : letter = ⟨κ.sender k, κ.hello⟩ := (κ.client_iff letter k).mp hk
      rw [hnext]
      refine .gives hletter hk ?_ fun k' hne => ?_
      · refine (hbound k).trans ?_
        rw [if_pos hsender, hfirst]
        rfl
      · refine (hbound k').trans ?_
        rw [if_neg, Option.or_none]
        · rfl
        · rw [hsender, Option.some_inj, sender_inj]
          exact Ne.symm hne
    · rw [hin] at hdeadline
      cases hdeadline
  · rw [hnext]
    refine .other (fun l hl => Serve.mem_of_mem_wake hw hl) ?_ fun k => ?_
    · obtain ⟨letter, hletter, -, hmsg⟩ | ⟨hsame, -, -⟩ := hread
      · have hne : letter.msg ≠ κ.hello := fun heq => hin (by rw [hmsg, heq])
        rw [hletter]
        exact (List.filterMap_cons_none (client_of_ne hne)).symm
      · rw [hsame]
    · refine (hbound k).trans ?_
      rw [hfirst, ite_self, Option.or_none]
      rfl

/-- **The hub takes a turn.** -/
theorem turns {P : Type*} (h : κ.Kept s.loop s.rx tasks) {ev : ServeEvent P} {w : Serve.Wake}
    (hw : s.wake ev = some w)
    (hbound : ∀ k, κ.number (tasks' k) = (κ.number (tasks k)).or
      (if w.sender = some (κ.sender k) then (Hub.run.step s.loop w.turn).2.findSome? κ.binds
        else none))
    (hearly : ∀ k, κ.Early (tasks' k) → κ.Early (tasks k))
    (hwaits : ∀ k, κ.Waits (tasks k) → κ.Waits (tasks' k)) :
    κ.Kept (Hub.run.step s.loop w.turn).1 w.rx tasks' :=
  Desk.turn h (h.turn hw hbound) (fun _ => (Serve.wake_spec hw).1) hearly hwaits

end Kept

end ConnKind

end Aqualung
