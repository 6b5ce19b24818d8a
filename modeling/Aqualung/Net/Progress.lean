/-
# What waits gets on

In topside a message waits in a queue twice: what a task says in `rx`, until the hub reads it, and
what the hub says in the queue of the task it is for, until the task writes it.  `gets_on` says that
it does not wait for ever: as many moves of the receiver as there are messages before it take it
on, whatever else happens in between, if only the receiver goes on.

The hub and both kinds of task are servers of their queues (`Lib.Server`): once in its loop a task
stays there until it ends (`step_phase`), and the branch of `out_rx.recv()` takes the first message
whenever there is one.  The moves that count are those of that branch which have been made to their
end; a write that never ends is a move that is not made, so a leader or a phone that does not read
keeps its own queue waiting, and nobody else's.
-/
import Aqualung.Net.Shutdown
import Aqualung.Net.Delivery

namespace Aqualung

open Lib

variable {P : Type*} {setup : Setup P}

/-! ## 1. The tasks serve their queues -/

namespace HomeTask

/-- In its loop a task stays where it is until it ends, and then it stays there. -/
theorem step_phase (task : HomeTask) (i : HomeInput P) :
    ((run setup).step task i).1.phase = task.phase ∨
      task.phase ≠ .ended ∧
        ((¬ ∃ g, task.phase = .looping g) ∨ ((run setup).step task i).1.phase = .ended) := by
  have hs := task.step_spec setup i
  generalize (run setup).step task i = next at hs ⊢
  generalize task.loopEvents setup i = evs at hs
  obtain ⟨task', out⟩ := next
  cases hs with
  | spawned hphase => exact .inr (by simp [hphase])
  | refused hphase => exact .inr (by simp [hphase])
  | accepted hphase => exact .inr (by simp [hphase])
  | bound hphase => exact .inr (by simp [hphase])
  | abandoned hphase => exact .inr (by simp [hphase])
  | registered hphase => exact .inr (by simp [hphase])
  | unregistered hphase => exact .inr (by simp [hphase])
  | last hphase => exact .inr (by simp [hphase])
  | _ => exact .inl rfl

/-- The branch of `out_rx.recv()` wins. -/
def servesQueue : HomeInput P → Bool
  | .move _ (.recv _) => true
  | _ => false

/-- **The loop of the task serves its queue.** -/
def server (setup : Setup P) : Server (run setup) LeaderClient :=
  (mailbox setup).phased phase (fun φ => ∃ g, φ = .looping g) .ended servesQueue step_phase
    fun task i hloop hserves hne => by
      obtain ⟨g, hphase⟩ := hloop
      change task.out ≠ [] at hne
      change task.taken setup i ≠ []
      cases i with
      | move gone ev =>
        cases ev with
        | recv written =>
          cases hqueue : task.out with
          | nil => exact absurd hqueue hne
          | cons msg out => simp [taken, loopEvents, hphase, hqueue]
        | _ => cases hserves
      | _ => cases hserves

end HomeTask

namespace PhoneTask

/-- In its loop a task stays where it is until it ends, and then it stays there. -/
theorem step_phase (task : PhoneTask) (i : PhoneInput) :
    ((run setup).step task i).1.phase = task.phase ∨
      task.phase ≠ .ended ∧
        ((¬ ∃ p, task.phase = .talking p) ∨ ((run setup).step task i).1.phase = .ended) := by
  have hs := task.step_spec setup i
  generalize (run setup).step task i = next at hs ⊢
  generalize task.taken i = texts at hs
  obtain ⟨task', out⟩ := next
  cases hs with
  | spawned hphase => exact .inr (by simp [hphase])
  | refused hphase => exact .inr (by simp [hphase])
  | hello hphase => exact .inr (by simp [hphase])
  | bound hphase => exact .inr (by simp [hphase])
  | abandoned hphase => exact .inr (by simp [hphase])
  | unheard hphase => exact .inr (by simp [hphase])
  | left hphase => exact .inr (by simp [hphase])
  | closed hphase => exact .inr (by simp [hphase])
  | _ => exact .inl rfl

/-- The branch of `out_rx.recv()` wins. -/
def servesQueue : PhoneInput → Bool
  | .move _ (.outgoing _) => true
  | _ => false

/-- **The loop of the task serves its queue.** -/
def server (setup : Setup P) : Server (run setup) Obj :=
  (mailbox setup).phased phase (fun φ => ∃ p, φ = .talking p) .ended servesQueue step_phase
    fun task i hloop hserves hne => by
      obtain ⟨p, hphase⟩ := hloop
      change task.out ≠ [] at hne
      change task.taken i ≠ []
      cases i with
      | move gone ev =>
        cases ev with
        | outgoing sent =>
          cases hqueue : task.out with
          | nil => exact absurd hqueue hne
          | cons text out => simp [taken, hphase, hqueue]
        | _ => cases hserves
      | _ => cases hserves

end PhoneTask

/-! ## 2. The tasks in topside -/

/-- The branch of `out_rx.recv()` wins in the task of the home connection `k`. -/
def ServeEvent.servesHome (k : Nat) : ServeEvent P → Bool
  | .home k' (.recv _) => k' = k
  | _ => false

/-- The branch of `out_rx.recv()` wins in the task of the phone connection `k`. -/
def ServeEvent.servesPhone (k : Nat) : ServeEvent P → Bool
  | .phone k' (.outgoing _) => k' = k
  | _ => false

namespace Serve

/-- The tasks serve their queues in topside. -/
def homeServer (setup : Setup P) (k : Nat) : Server (run setup) LeaderClient :=
  (homeTask setup k).server (HomeTask.server setup) (ServeEvent.servesHome k) fun s ev hserves => by
    cases ev with
    | home k' move =>
      cases move with
      | recv written =>
        obtain rfl : k' = k := by simpa [ServeEvent.servesHome] using hserves
        exact ⟨.move s.loop.stopped (.recv written), [], if_pos rfl, rfl⟩
      | _ => cases hserves
    | _ => cases hserves

def phoneServer (setup : Setup P) (k : Nat) : Server (run setup) Obj :=
  (phoneTask setup k).server (PhoneTask.server setup) (ServeEvent.servesPhone k)
    fun s ev hserves => by
      cases ev with
      | phone k' move =>
        cases move with
        | outgoing sent =>
          obtain rfl : k' = k := by simpa [ServeEvent.servesPhone] using hserves
          exact ⟨.move s.loop.stopped (.outgoing sent), [], if_pos rfl, rfl⟩
        | _ => cases hserves
      | _ => cases hserves

end Serve

/-! ## 3. What waits gets on -/

variable (setup)

/-- What waits after the events `evs` and what has become of it after the events `evs'`. -/
structure GetsOn (evs evs' : List (ServeEvent P)) : Prop where
  /-- The hub has read all that the tasks had told it. -/
  hub : ((Serve.run setup).final evs).rx.length ≤ evs'.countP ServeEvent.isRecv →
    ((Serve.run setup).final (evs ++ evs')).loop.stopped = false →
    toldHub setup evs <+: (readLetters setup (evs ++ evs')).filter Letter.ofTask
  /-- The leader has been written all that the hub had said on its link. -/
  leader : ∀ k g, (((Serve.run setup).final evs).homes k).phase = .looping g →
    (((Serve.run setup).final evs).homes k).out.length
      ≤ evs'.countP (ServeEvent.servesHome k) →
    (((Serve.run setup).final (evs ++ evs')).homes k).phase ≠ .ended →
    ∃ ms, writtenHome setup (evs ++ evs') k
        = (LeaderClient.registerFrame :: ms).map (HomeTask.frameFor setup) ∧
      (queued g (Hub.run.history (hubTurns setup evs))).map .acp <+: HomeTask.spoken ms
  /-- The phone has been written all that the hub had sent it. -/
  phone : ∀ k p, (((Serve.run setup).final evs).phones k).phase = .talking p →
    (((Serve.run setup).final evs).phones k).out.length
      ≤ evs'.countP (ServeEvent.servesPhone k) →
    (((Serve.run setup).final (evs ++ evs')).phones k).phase ≠ .ended →
    received p (Hub.run.history (hubTurns setup evs)) <+: writtenPhone setup (evs ++ evs') k

/-- The hub has read all that it has been told. -/
theorem told_read {evs evs' : List (ServeEvent P)}
    (hcount : ((Serve.run setup).final evs).rx.length ≤ evs'.countP ServeEvent.isRecv)
    (hrun : ((Serve.run setup).final (evs ++ evs')).loop.stopped = false) :
    toldHub setup evs <+: (readLetters setup (evs ++ evs')).filter Letter.ofTask := by
  rw [Machine.final_append] at hrun
  have hbefore : ((Serve.run setup).final evs).loop.stopped = false :=
    (Bool.not_eq_true _).mp ((Serve.reader setup).not_ended ((Bool.not_eq_true _).mpr hrun))
  rw [← (HubTold.final setup evs).lossless hbefore, readLetters, readLetters,
    Machine.history_append, Mailbox.taken_append]
  exact ((List.prefix_append_right_inj _).mpr (Serve.rx_read hrun hcount)).filter _

/-- The leader has been written all that was on its link. -/
theorem queued_written {evs evs' : List (ServeEvent P)} {k : Nat} {g : HomeGen}
    (hphase : (((Serve.run setup).final evs).homes k).phase = .looping g)
    (hcount : (((Serve.run setup).final evs).homes k).out.length
      ≤ evs'.countP (ServeEvent.servesHome k))
    (hlive : (((Serve.run setup).final (evs ++ evs')).homes k).phase ≠ .ended) :
    ∃ ms, writtenHome setup (evs ++ evs') k
        = (LeaderClient.registerFrame :: ms).map (HomeTask.frameFor setup) ∧
      (queued g (Hub.run.history (hubTurns setup evs))).map .acp <+: HomeTask.spoken ms := by
  have hspoken := spoken_taken setup evs k (bound_of_phase setup evs (.inr hphase))
  have hlive' := hlive
  rw [Machine.final_append] at hlive'
  have hloops : ∃ g, (((Serve.run setup).final evs).homes k).phase = .looping g := ⟨g, hphase⟩
  have hserved := (Serve.homeServer setup k).served hloops hlive' hcount
  obtain ⟨g', hphase'⟩ :
      ∃ g', (((Serve.run setup).final (evs ++ evs')).homes k).phase = .looping g' := by
    rw [Machine.final_append]
    exact (Serve.homeServer setup k).live_final hloops hlive'
  have hwire := HomeTask.wire_kept setup
    ((Serve.homeTask setup k).inputs ((Serve.run setup).history (evs ++ evs')))
  have hwritten : writtenHome setup (evs ++ evs') k = collect HomeOut.wire
      ((HomeTask.run setup).history
        ((Serve.homeTask setup k).inputs ((Serve.run setup).history (evs ++ evs')))) :=
    (Serve.homeTask setup k).collect_bind HomeOut.wire (evs ++ evs')
  rw [← (Serve.homeTask setup k).state_final, ← hwritten,
    Component.taken_run] at hwire
  change HomeTask.WireKept setup (((Serve.run setup).final (evs ++ evs')).homes k) _ _ at hwire
  obtain ⟨ms, hms, hwrote⟩ := hwire.wrote
  unfold HomeTask.Wrote at hwrote
  rw [hphase'] at hwrote
  obtain ⟨ms', rfl, hsame⟩ := hwrote
  refine ⟨ms', hms, ?_⟩
  rw [hsame, HomeTask.spoken_append, ← hspoken]
  exact (List.prefix_append_right_inj _).mpr (hserved.filter _)

/-- The phone has been written all that was for it. -/
theorem received_written {evs evs' : List (ServeEvent P)} {k : Nat} {p : PhoneId}
    (hphase : (((Serve.run setup).final evs).phones k).phase = .talking p)
    (hcount : (((Serve.run setup).final evs).phones k).out.length
      ≤ evs'.countP (ServeEvent.servesPhone k))
    (hlive : (((Serve.run setup).final (evs ++ evs')).phones k).phase ≠ .ended) :
    received p (Hub.run.history (hubTurns setup evs)) <+: writtenPhone setup (evs ++ evs') k := by
  have hput := phone_queued setup evs k
  rw [(PhonesKept.final setup evs).talking k p hphase, collect_forPhone] at hput
  have hmail := (PhoneTask.mailbox setup).put_eq
    ((Serve.phoneTask setup k).inputs ((Serve.run setup).history evs))
  rw [(PhoneTask.mailbox setup).put_history (fun _ _ => rfl), hput,
    ← (Serve.phoneTask setup k).state_final] at hmail
  have hlive' := hlive
  rw [Machine.final_append] at hlive'
  have htalks : ∃ p, (((Serve.run setup).final evs).phones k).phase = .talking p := ⟨p, hphase⟩
  have hserved := (Serve.phoneServer setup k).served htalks hlive' hcount
  have hsent := PhoneTask.sent_kept setup
    ((Serve.phoneTask setup k).inputs ((Serve.run setup).history (evs ++ evs')))
  have hwritten : writtenPhone setup (evs ++ evs') k = collect PhoneOut.sent
      ((PhoneTask.run setup).history
        ((Serve.phoneTask setup k).inputs ((Serve.run setup).history (evs ++ evs')))) :=
    (Serve.phoneTask setup k).collect_bind PhoneOut.sent (evs ++ evs')
  rw [← (Serve.phoneTask setup k).state_final, ← hwritten,
    Component.taken_run] at hsent
  change PhoneTask.Sent (((Serve.run setup).final (evs ++ evs')).phones k) _ _ at hsent
  unfold PhoneTask.Sent at hsent
  split at hsent
  · exact absurd ‹_› hlive
  · rw [hsent, hmail]
    exact (List.prefix_append_right_inj _).mpr hserved

/-- **What waits gets on**, whatever the order of events: what a task has said is read by the hub,
and what the hub has said is written on the socket it is for, as soon as the receiver has taken as
many messages as waited before it.

For a socket, to take a message is to have written it: the moves that count have come to the end of
the branch of `out_rx.recv()`.  A peer that does not read makes its task stop in the middle of one,
and then nothing is promised to it; the others are not concerned. -/
theorem gets_on (evs evs' : List (ServeEvent P)) : GetsOn setup evs evs' where
  hub hcount hrun := told_read setup hcount hrun
  leader _ _ hphase hcount hlive := queued_written setup hphase hcount hlive
  phone _ _ hphase hcount hlive := received_written setup hphase hcount hlive

end Aqualung
