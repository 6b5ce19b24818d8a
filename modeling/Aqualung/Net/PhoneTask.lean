/-
# The task of a phone

`phone_connection`: the WebSocket upgrade with its check of the token, the message that asks the
hub for a phone id, the wait for it, and the loop that carries texts both ways.

A move is again the whole body of the branch of `select!` that wins, placed where the body ends
(`Net/HomeTask.lean`): a text of the hub is in the queue until the sink has taken it or has failed,
and a send that never ends is a move that is never made.  A ping is answered in the move that reads
it, and whether that succeeds makes no difference to the source.

What a WebSocket message is made of is left to the library; a text is known by what `serde_json`
makes of it, since the hub looks at nothing else.
-/
import Aqualung.Net.Bearer
import Aqualung.Net.HomeTask

namespace Aqualung

open Lib

/-! ## 1. The task -/

/-- `Message` of the WebSocket.  A text is known by what `serde_json` makes of it. -/
inductive WsMessage
  | text (text : RpcText)
  | binary (bytes : Bytes)
  | ping (payload : Bytes)
  | pong (payload : Bytes)
  | close
  | frame
  deriving DecidableEq

/-- How far `phone_connection` has come. -/
inductive PhonePhase
  /-- There is no connection yet. -/
  | idle
  /-- `accept_hdr_async(tcp, callback).await`. -/
  | upgrading
  /-- `bind_rx.await`. -/
  | binding
  /-- The loop. -/
  | talking (phone : PhoneId)
  | ended
  deriving DecidableEq

/-- The state of the task: its phase, what has come on `bind_rx`, what waits in `out_rx`, and
whether the hub has dropped its end of that queue. -/
structure PhoneTask where
  phase : PhonePhase := .idle
  bound : Option PhoneId := none
  out : List Obj := []
  dropped : Bool := false

/-- A move of the task: what it awaits next is ready. -/
inductive PhoneEvent
  /-- The upgrade is over: the request, if one could be read, with its `Authorization` header, and
  whether the rest of the handshake succeeds. -/
  | upgrade (request : Option (Option HeaderValue)) (rest : Bool)
  /-- `bind_rx` is ready. -/
  | bound
  /-- `stream.next()` wins. -/
  | incoming (msg : Option (Except Unit WsMessage))
  /-- `out_rx.recv()` wins; `sent` is whether the socket takes the text. -/
  | outgoing (sent : Bool)

/-- What can happen to the task. -/
inductive PhoneInput
  /-- `phone_accept` spawns it. -/
  | spawn
  /-- The hub answers on `bind`. -/
  | bind (phone : PhoneId)
  /-- The hub queues a text for the phone. -/
  | queue (text : Obj)
  /-- The hub drops its end of the queue. -/
  | drop
  /-- The task moves; `gone` is whether the hub has ended. -/
  | move (gone : Bool) (ev : PhoneEvent)

/-- What the task does. -/
inductive PhoneOut
  /-- It refuses the upgrade. -/
  | refused (response : ErrorResponse)
  /-- It asks the hub for a phone id. -/
  | hello
  /-- It hands over a text of the phone. -/
  | said (phone : PhoneId) (text : RpcText)
  /-- It reports the end of the phone. -/
  | left (phone : PhoneId)
  /-- A text goes to the phone. -/
  | text (text : Obj)
  | pong (payload : Bytes)

namespace PhoneOut

/-- The message to the hub. -/
@[simp] def toHub : PhoneOut → Option ToHub
  | hello => some .phoneHello
  | said p t => some (.phoneText p t)
  | left p => some (.phoneEof p)
  | _ => none

@[simp] def sent : PhoneOut → Option Obj
  | text m => some m
  | _ => none

@[simp] def heard : PhoneOut → Option RpcText
  | said _ t => some t
  | _ => none

end PhoneOut

namespace PhoneTask

variable {P : Type*}

/-- The upgrade is over: the hub is asked for a phone id. -/
def upgrade (setup : Setup P) (gone : Bool) (task : PhoneTask)
    (request : Option (Option HeaderValue)) (rest : Bool) : PhoneTask × List PhoneOut :=
  match request with
  | none => ({ task with phase := .ended }, [])
  | some header =>
    match callback setup.token header () with
    | .error response => ({ task with phase := .ended }, [.refused response])
    | .ok () =>
      if ¬ rest ∨ gone then ({ task with phase := .ended }, [])
      else ({ task with phase := .binding }, [.hello])

/-- The branch of `stream.next()`. -/
def incoming (gone : Bool) (task : PhoneTask) (p : PhoneId) :
    Option (Except Unit WsMessage) → PhoneTask × List PhoneOut
  | some (.ok (.text text)) =>
    (if gone then { task with phase := .ended } else task, [.said p text])
  | some (.ok (.ping payload)) => (task, [.pong payload])
  | some (.ok (.pong _)) | some (.ok .frame) => (task, [])
  | some (.ok (.binary _)) => (task, [])
  | some (.ok .close) | some (.error ()) | none => ({ task with phase := .ended }, [.left p])

/-- The branch of `out_rx.recv()`. -/
def outgoing (task : PhoneTask) (p : PhoneId) (sent : Bool) : PhoneTask × List PhoneOut :=
  match task.out with
  | text :: out =>
    if sent then ({ task with out }, [.text text])
    else ({ task with out, phase := .ended }, [.left p])
  | [] => if task.dropped then ({ task with phase := .ended }, []) else (task, [])

/-- One move of the task. -/
def move (setup : Setup P) (gone : Bool) (task : PhoneTask) (ev : PhoneEvent) :
    PhoneTask × List PhoneOut :=
  match ev, task.phase with
  | .upgrade request rest, .upgrading => task.upgrade setup gone request rest
  | .bound, .binding =>
    match task.bound with
    | some p => ({ task with phase := .talking p }, [])
    | none => if gone then ({ task with phase := .ended }, []) else (task, [])
  | .incoming msg, .talking p => task.incoming gone p msg
  | .outgoing sent, .talking p => task.outgoing p sent
  | _, _ => (task, [])

/-- What can happen to the task, and what it does. -/
def step (setup : Setup P) (task : PhoneTask) : PhoneInput → PhoneTask × List PhoneOut
  | .spawn => (if task.phase = .idle then { task with phase := .upgrading } else task, [])
  | .bind p => ({ task with bound := task.bound.or (some p) }, [])
  | .queue text => ({ task with out := task.out ++ [text] }, [])
  | .drop => ({ task with dropped := true }, [])
  | .move gone ev => task.move setup gone ev

/-- The task as a machine. -/
def run (setup : Setup P) : Machine PhoneTask PhoneInput PhoneOut where
  init := {}
  step := step setup

/-! ## 2. What one input does -/

/-- The texts taken from the queue. -/
def taken (task : PhoneTask) : PhoneInput → List Obj
  | .move _ (.outgoing _) =>
    match task.phase with
    | .talking _ => task.out.take 1
    | _ => []
  | _ => []

/-- The texts put in the queue. -/
def queued : PhoneInput → List Obj
  | .queue text => [text]
  | _ => []

/-- The steps of the task, with what it takes from its queue. -/
inductive Step (setup : Setup P) (task : PhoneTask) :
    PhoneInput → List Obj → PhoneTask → List PhoneOut → Prop
  /-- What the task is not waiting for, or takes no notice of. -/
  | ignored {i : PhoneInput} (hi : i = .spawn ∨ ∃ gone ev, i = .move gone ev) :
      Step setup task i [] task []
  | spawned (hphase : task.phase = .idle) :
      Step setup task .spawn [] { task with phase := .upgrading } []
  | bind {p : PhoneId} :
      Step setup task (.bind p) [] { task with bound := task.bound.or (some p) } []
  | queue {text : Obj} :
      Step setup task (.queue text) [] { task with out := task.out ++ [text] } []
  | drop : Step setup task .drop [] { task with dropped := true } []
  /-- There is no upgrade, or no hub to tell of it. -/
  | refused {gone rest : Bool} {request : Option (Option HeaderValue)} {out : List PhoneOut}
      (hphase : task.phase = .upgrading) (hout : out = [] ∨ out = [.refused unauthorized]) :
      Step setup task (.move gone (.upgrade request rest)) [] { task with phase := .ended } out
  | hello {header : Option HeaderValue} (hphase : task.phase = .upgrading)
      (hheader : Upgrades setup.token header) :
      Step setup task (.move false (.upgrade (some header) true)) []
        { task with phase := .binding } [.hello]
  | bound {gone : Bool} {p : PhoneId} (hphase : task.phase = .binding)
      (hbound : task.bound = some p) :
      Step setup task (.move gone .bound) [] { task with phase := .talking p } []
  /-- The hub has ended without an answer. -/
  | abandoned (hphase : task.phase = .binding) (hbound : task.bound = none) :
      Step setup task (.move true .bound) [] { task with phase := .ended } []
  | said {p : PhoneId} {text : RpcText} (hphase : task.phase = .talking p) :
      Step setup task (.move false (.incoming (some (.ok (.text text))))) [] task [.said p text]
  /-- A text for a hub that has ended. -/
  | unheard {p : PhoneId} {text : RpcText} (hphase : task.phase = .talking p) :
      Step setup task (.move true (.incoming (some (.ok (.text text))))) []
        { task with phase := .ended } [.said p text]
  | pong {gone : Bool} {p : PhoneId} {payload : Bytes} (hphase : task.phase = .talking p) :
      Step setup task (.move gone (.incoming (some (.ok (.ping payload))))) [] task [.pong payload]
  /-- The phone goes, or cannot be written to. -/
  | left {gone : Bool} {ev : PhoneEvent} {p : PhoneId} {texts out : List Obj}
      (hphase : task.phase = .talking p) (hout : task.out = texts ++ out) :
      Step setup task (.move gone ev) texts { task with out, phase := .ended } [.left p]
  | sent {gone : Bool} {p : PhoneId} {text : Obj} {out : List Obj}
      (hphase : task.phase = .talking p) (hout : task.out = text :: out) :
      Step setup task (.move gone (.outgoing true)) [text] { task with out } [.text text]
  /-- The hub has dropped its end. -/
  | closed {gone sent : Bool} {p : PhoneId} (hphase : task.phase = .talking p)
      (hdrop : task.dropped) (hout : task.out = []) :
      Step setup task (.move gone (.outgoing sent)) [] { task with out := [], phase := .ended } []

variable {setup : Setup P}

theorem upgrade_step (task : PhoneTask) (hphase : task.phase = .upgrading) (gone : Bool)
    (request : Option (Option HeaderValue)) (rest : Bool) :
    Step setup task (.move gone (.upgrade request rest)) []
      (task.upgrade setup gone request rest).1 (task.upgrade setup gone request rest).2 := by
  unfold upgrade
  cases request with
  | none => exact .refused hphase (.inl rfl)
  | some header =>
    cases hcall : callback setup.token header () with
    | error response =>
      have hresponse : response = unauthorized := by
        unfold callback at hcall
        simp only at hcall
        split at hcall
        · split at hcall <;> cases hcall
          rfl
        · cases hcall
          rfl
      simp only [hcall, hresponse]
      exact .refused hphase (.inr rfl)
    | ok _ =>
      simp only [hcall]
      by_cases hno : ¬ rest ∨ gone
      · simp only [if_pos hno]
        exact .refused hphase (.inl rfl)
      · simp only [if_neg hno]
        rw [not_or, not_not] at hno
        obtain ⟨rfl, hgone⟩ := hno
        obtain rfl : gone = false := by simpa using hgone
        exact .hello hphase hcall

theorem incoming_step (task : PhoneTask) {p : PhoneId} (hphase : task.phase = .talking p)
    (gone : Bool) (msg : Option (Except Unit WsMessage)) :
    Step setup task (.move gone (.incoming msg)) [] (task.incoming gone p msg).1
      (task.incoming gone p msg).2 := by
  unfold incoming
  split
  · cases gone with
    | true => exact .unheard hphase
    | false => exact .said hphase
  · exact .pong hphase
  · exact .ignored (.inr ⟨_, _, rfl⟩)
  · exact .ignored (.inr ⟨_, _, rfl⟩)
  · exact .ignored (.inr ⟨_, _, rfl⟩)
  · exact .left hphase rfl
  · exact .left hphase rfl
  · exact .left hphase rfl

theorem outgoing_step (task : PhoneTask) {p : PhoneId} (hphase : task.phase = .talking p)
    (gone sent : Bool) :
    Step setup task (.move gone (.outgoing sent)) (task.out.take 1) (task.outgoing p sent).1
      (task.outgoing p sent).2 := by
  unfold outgoing
  cases hout : task.out with
  | cons text out =>
    cases sent with
    | true => exact .sent hphase hout
    | false => exact .left hphase hout
  | nil =>
    by_cases hdrop : task.dropped
    · simp only [if_pos hdrop]
      exact .closed hphase hdrop hout
    · simp only [if_neg hdrop]
      exact .ignored (.inr ⟨_, _, rfl⟩)

/-- **The task takes these steps and no others.** -/
theorem step_spec (setup : Setup P) (task : PhoneTask) (i : PhoneInput) :
    Step setup task i (task.taken i) ((run setup).step task i).1 ((run setup).step task i).2 := by
  change Step setup task i (task.taken i) (step setup task i).1 (step setup task i).2
  cases i with
  | spawn =>
    by_cases hphase : task.phase = .idle
    · simp only [step, if_pos hphase]
      exact .spawned hphase
    · simp only [step, if_neg hphase]
      exact .ignored (.inl rfl)
  | bind p => exact .bind
  | queue text => exact .queue
  | drop => exact .drop
  | move gone ev =>
    obtain ⟨phase, bound, out, dropped⟩ := task
    cases ev with
    | upgrade request rest =>
      cases phase with
      | upgrading => exact upgrade_step ⟨.upgrading, bound, out, dropped⟩ rfl gone request rest
      | _ => exact .ignored (.inr ⟨_, _, rfl⟩)
    | bound =>
      cases phase with
      | binding =>
        cases bound with
        | some p => exact .bound rfl rfl
        | none =>
          cases gone with
          | true => exact .abandoned rfl rfl
          | false => exact .ignored (.inr ⟨_, _, rfl⟩)
      | _ => exact .ignored (.inr ⟨_, _, rfl⟩)
    | incoming msg =>
      cases phase with
      | talking p => exact incoming_step ⟨.talking p, bound, out, dropped⟩ rfl gone msg
      | _ => exact .ignored (.inr ⟨_, _, rfl⟩)
    | outgoing sent =>
      cases phase with
      | talking p => exact outgoing_step ⟨.talking p, bound, out, dropped⟩ rfl gone sent
      | _ => exact .ignored (.inr ⟨_, _, rfl⟩)

/-! ## 3. Texts to the phone -/

/-- **The queue of the phone.** -/
def mailbox (setup : Setup P) : Mailbox (run setup) Obj where
  queue := out
  puts _ i := queued i
  takes task i := task.taken i
  queue_init := rfl
  queue_step task i := by
    have hs := task.step_spec setup i
    revert hs
    generalize task.taken i = texts
    generalize (run setup).step task i = next
    obtain ⟨task', out⟩ := next
    intro hs
    cases hs with
    | ignored hi => obtain rfl | ⟨gone, ev, rfl⟩ := hi <;> simp [queued]
    | left hphase hout => simp [queued, hout]
    | sent hphase hout => simp [queued, hout]
    | closed hphase hdrop hout => simp [queued, hout]
    | _ => simp [queued]

/-- What has gone to the phone is what has been taken from the queue, but for the last text when
the socket fails. -/
def Sent (task : PhoneTask) (taken sent : List Obj) : Prop :=
  match task.phase with
  | .ended => sent <+: taken
  | _ => sent = taken

theorem Sent.step {task task' : PhoneTask} {i : PhoneInput} {texts : List Obj}
    {outs : List PhoneOut} {taken sent : List Obj} (hw : Sent task taken sent)
    (hs : Step setup task i texts task' outs) :
    Sent task' (taken ++ texts) (sent ++ outs.filterMap PhoneOut.sent) := by
  have hpart : sent <+: taken := by
    unfold Sent at hw
    split at hw
    · exact hw
    · exact hw ▸ List.prefix_rfl
  have hactive : task.phase ≠ .ended → sent = taken := fun hne => by
    unfold Sent at hw
    split at hw
    · rename_i hphase
      exact absurd hphase hne
    · exact hw
  cases hs with
  | refused hphase hout =>
    obtain rfl | rfl := hout <;> simpa [Sent, List.filterMap_cons] using hpart
  | left hphase hout =>
    simpa [Sent, List.filterMap_cons] using hpart.trans (List.prefix_append _ _)
  | sent hphase hout =>
    rw [hactive (by simp [hphase])]
    simp [Sent, hphase]
  | abandoned => simpa [Sent, List.filterMap_cons] using hpart
  | unheard => simpa [Sent, List.filterMap_cons] using hpart
  | closed => simpa [Sent, List.filterMap_cons] using hpart
  | ignored => simpa [List.filterMap_cons] using hw
  | spawned hphase => simpa [Sent, List.filterMap_cons] using hactive (by simp [hphase])
  | hello hphase => simpa [Sent, List.filterMap_cons] using hactive (by simp [hphase])
  | bound hphase => simpa [Sent, List.filterMap_cons] using hactive (by simp [hphase])
  | said hphase => simpa [List.filterMap_cons] using hw
  | pong hphase => simpa [List.filterMap_cons] using hw
  | bind => simpa [Sent, List.filterMap_cons] using hw
  | queue => simpa [Sent, List.filterMap_cons] using hw
  | drop => simpa [Sent, List.filterMap_cons] using hw

/-- **What goes to the phone**, after every run of the task. -/
theorem sent_kept (setup : Setup P) (is : List PhoneInput) :
    Sent ((run setup).final is) ((mailbox setup).taken ((run setup).history is))
      (collect PhoneOut.sent ((run setup).history is)) := by
  refine (run setup).run_induction (P := fun hist task =>
    Sent task ((mailbox setup).taken hist) (collect PhoneOut.sent hist)) rfl (fun is i ih => ?_) is
  rw [Mailbox.taken_append, Mailbox.taken_singleton, collect_append, collect_singleton]
  exact ih.step (step_spec setup _ i)

/-! ## 4. What the hub is told -/

/-- `posts` is what the hub has been told, after the phone has said `texts`. -/
def Reported (task : PhoneTask) (texts : List RpcText) (posts : List ToHub) : Prop :=
  match task.phase with
  | .idle | .upgrading => texts = [] ∧ posts = []
  | .binding => texts = [] ∧ posts = [.phoneHello]
  | .talking p => task.bound = some p ∧ posts = .phoneHello :: texts.map (.phoneText p)
  | .ended =>
    texts = [] ∧ posts <+: [.phoneHello] ∨
      ∃ p last, task.bound = some p ∧ (last = [] ∨ last = [.phoneEof p]) ∧
        posts = .phoneHello :: (texts.map (.phoneText p) ++ last)

theorem Reported.step {task task' : PhoneTask} {i : PhoneInput} {taken : List Obj}
    {outs : List PhoneOut} {texts : List RpcText} {posts : List ToHub}
    (hr : Reported task texts posts) (hs : Step setup task i taken task' outs) :
    Reported task' (texts ++ outs.filterMap PhoneOut.heard)
      (posts ++ outs.filterMap PhoneOut.toHub) := by
  unfold Reported at hr
  cases hs with
  | ignored hi => simpa [Reported] using hr
  | spawned hphase =>
    rw [hphase] at hr
    simpa [Reported] using hr
  | @bind p =>
    have hkeep : ∀ p', task.bound = some p' → task.bound.or (some p) = some p' := by
      intro p' hp'
      rw [hp', Option.some_or]
    simp only [Reported, List.filterMap_nil, List.append_nil]
    cases hphase : task.phase <;> simp only [hphase] at hr ⊢
    case talking => exact ⟨hkeep _ hr.1, hr.2⟩
    case ended => exact hr.imp_right fun ⟨p', last, hbound, h⟩ => ⟨p', last, hkeep _ hbound, h⟩
    all_goals exact hr
  | queue => simpa [Reported] using hr
  | drop => simpa [Reported] using hr
  | refused hphase hout =>
    rw [hphase] at hr
    obtain ⟨rfl, rfl⟩ := hr
    obtain rfl | rfl := hout
    · exact .inl ⟨rfl, List.nil_prefix⟩
    · exact .inl ⟨rfl, List.nil_prefix⟩
  | hello hphase hheader =>
    rw [hphase] at hr
    obtain ⟨rfl, rfl⟩ := hr
    exact ⟨rfl, rfl⟩
  | bound hphase hbound =>
    rw [hphase] at hr
    simp [Reported, hr, hbound]
  | abandoned hphase hbound =>
    rw [hphase] at hr
    simp [Reported, hr]
  | said hphase =>
    rw [hphase] at hr
    simp [Reported, hphase, hr]
  | unheard hphase =>
    rw [hphase] at hr
    obtain ⟨hbound, rfl⟩ := hr
    exact .inr ⟨_, [], hbound, .inl rfl, by simp⟩
  | pong hphase =>
    rw [hphase] at hr
    simp [Reported, hphase, hr, List.filterMap_cons]
  | left hphase hout =>
    rw [hphase] at hr
    obtain ⟨hbound, rfl⟩ := hr
    exact .inr ⟨_, [.phoneEof _], hbound, .inr rfl, by simp [List.filterMap_cons]⟩
  | sent hphase hout =>
    rw [hphase] at hr
    simp [Reported, hphase, hr, List.filterMap_cons]
  | closed hphase hdrop hout =>
    rw [hphase] at hr
    obtain ⟨hbound, rfl⟩ := hr
    exact .inr ⟨_, [], hbound, .inl rfl, by simp⟩

/-- **What the hub is told**, after every run of the task: first that there is a phone, then its
texts as it says them, and at the end, if anything, that it is gone. -/
theorem reported (setup : Setup P) (is : List PhoneInput) :
    Reported ((run setup).final is) (collect PhoneOut.heard ((run setup).history is))
      (collect PhoneOut.toHub ((run setup).history is)) := by
  refine (run setup).run_induction (P := fun hist task =>
    Reported task (collect PhoneOut.heard hist) (collect PhoneOut.toHub hist)) ⟨rfl, rfl⟩
    (fun is i ih => ?_) is
  rw [collect_append, collect_singleton, collect_append, collect_singleton]
  exact ih.step (step_spec setup _ i)

end PhoneTask

end Aqualung
