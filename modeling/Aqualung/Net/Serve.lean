/-
# topside

`serve`: the hub, the two accept loops and the tasks of all connections, each moving when it can.
A task sends to the hub through one queue (`tx`, `rx`); the hub answers on channels of the sender,
and the state says where these lead: what the hub does to a link or a phone comes to the task that
was bound to it.  `oneshot` and `mpsc` channels lose nothing and keep the order; a send to a
receiver that is gone fails, and the source ignores it or ends.

Any order of moves is a run.  An event is one turn of the hub or one move of a task, which are the
whole body of a branch of `select!` (`Net/HomeTask.lean`); tasks run in parallel, but they share
nothing except the queues, so a run of the program is one of these.  A connection is known by its
number `k`; a listener never hands out one connection twice.

The machine of the hub and that of each task are at work in it (`Serve.hub`, `Serve.homeTask`,
`Serve.phoneTask`), so what is known of their runs is known here, in every run of topside:

* what the modules under `Hub` say of `Hub.run` holds of the turns that the hub takes;
* what `Net/HomeTask.lean` and `Net/PhoneTask.lean` say of a task holds of each connection;
* `rx` is a mailbox, in which what the tasks say comes to the hub in order.
-/
import Aqualung.Net.PhoneTask
import Aqualung.Hub.Sessions
import Aqualung.Hub.Links

namespace Aqualung

open Lib

/-! ## 1. The system -/

/-- Who has sent a message to the hub. -/
inductive Sender
  | home (k : Nat)
  | phone (k : Nat)
  | serve
  deriving DecidableEq

/-- A message in `rx`, with its sender, to whom the channels in it belong. -/
structure Letter where
  sender : Sender
  msg : ToHub
  deriving DecidableEq

/-- The state of topside: the loop of the hub, what waits in `rx`, the tasks of the connections,
the shutdown flag, whether the accept loops run, and whether `serve` waits for the shutdown. -/
structure Serve where
  loop : Loop := ⟨Hub.new, false⟩
  rx : List Letter := []
  homes : Nat → HomeTask := fun _ => {}
  phones : Nat → PhoneTask := fun _ => {}
  shutdown : Bool := false
  snorkelAccept : Bool := true
  phoneAccept : Bool := true
  waiting : Bool := true

/-- What can happen next. -/
inductive ServeEvent (P : Type*)
  /-- `snorkel_accept` and `phone_accept` accept a connection. -/
  | dialHome (k : Nat)
  | dialPhone (k : Nat)
  /-- A task moves. -/
  | home (k : Nat) (ev : HomeEvent P)
  | phone (k : Nat) (ev : PhoneEvent)
  /-- In the loop of the hub, `rx.recv()` or the sleep wins. -/
  | recv (now : Instant) (order : IterOrder)
  | deadline (now : Instant) (order : IterOrder)
  /-- The shutdown flag is set, or nobody is left who could set it. -/
  | signal
  /-- An accept loop, or `serve`, sees the flag. -/
  | snorkelEnds
  | phoneEnds
  | serveEnds

/-- The events of the shutdown. -/
def ServeEvent.OfShutdown {P : Type*} : ServeEvent P → Prop
  | .signal | .snorkelEnds | .phoneEnds | .serveEnds => True
  | _ => False

/-- What goes out. -/
inductive ServeOut
  | hub (eff : Effect)
  | home (k : Nat) (o : HomeOut)
  | phone (k : Nat) (o : PhoneOut)

namespace HomeTask

variable {P : Type*}

/-- The generation of the task after a turn of the hub; `mine` is whether the hub has read a
message of the task. -/
def boundAfter (task : HomeTask) (mine : Bool) (out : List Effect) : Option HomeGen :=
  task.bound.or (if mine then out.findSome? Effect.bound else none)

/-- What an effect of the hub is for a task with the generation `bound`. -/
def hear (mine : Bool) (bound : Option HomeGen) : Effect → Option (HomeInput P)
  | .bindGen g => if mine then some (.bind g) else none
  | .toHome g msg => if bound = some g then some (.queue msg) else none
  | .halt g => if bound = some g then some .drop else none
  | _ => none

/-- What a turn of the hub is for the task. -/
def hears (task : HomeTask) (mine : Bool) (out : List Effect) : List (HomeInput P) :=
  out.filterMap (hear mine (task.boundAfter mine out))

end HomeTask

namespace PhoneTask

/-- The id of the task after a turn of the hub; `mine` is whether the hub has read a message of
the task. -/
def boundAfter (task : PhoneTask) (mine : Bool) (out : List Effect) : Option PhoneId :=
  task.bound.or (if mine then out.findSome? Effect.boundPhone else none)

/-- What an effect of the hub is for a task with the id `bound`. -/
def hear (mine : Bool) (bound : Option PhoneId) : Effect → Option PhoneInput
  | .bindPhone p => if mine then some (.bind p) else none
  | .toPhone p text => if bound = some p then some (.queue text) else none
  | _ => none

/-- What a turn of the hub is for the task.  The hub has the end of its queue as long as it has
the phone. -/
def hears (task : PhoneTask) (mine : Bool) (out : List Effect) (before after : Hub) :
    List PhoneInput :=
  out.filterMap (hear mine (task.boundAfter mine out)) ++
  match task.bound with
  | some p => if p ∈ before.phones ∧ p ∉ after.phones then [.drop] else []
  | none => []

end PhoneTask

namespace Serve

variable {P : Type*}

/-- What a task has sent is in `rx`, unless the hub has ended. -/
def post (s : Serve) (sender : Sender) (msgs : List ToHub) : List Letter :=
  if s.loop.stopped then s.rx else s.rx ++ msgs.map (⟨sender, ·⟩)

/-- What the loop of the hub wakes up for: a message, with its sender and what is left in `rx`, or
its deadline. -/
structure Wake where
  turn : Turn
  sender : Option Sender
  rx : List Letter

/-- What the loop of the hub wakes up for, if it has not ended. -/
def wake (s : Serve) (ev : ServeEvent P) : Option Wake :=
  if s.loop.stopped then none
  else
    match ev, s.rx with
    | .recv now order, letter :: rx =>
      some ⟨{ input := .recv letter.msg, now, order }, letter.sender, rx⟩
    | .deadline now order, rx => some ⟨{ input := .deadline, now, order }, none, rx⟩
    | _, _ => none

/-- What the task hears of a turn of the hub. -/
def toHome (s : Serve) (w : Wake) (k : Nat) : List (HomeInput P) :=
  (s.homes k).hears (w.sender = some (.home k)) (Hub.run.step s.loop w.turn).2

def toPhone (s : Serve) (w : Wake) (k : Nat) : List PhoneInput :=
  (s.phones k).hears (w.sender = some (.phone k)) (Hub.run.step s.loop w.turn).2 s.loop.hub
    (Hub.run.step s.loop w.turn).1.hub

/-- A turn of the hub. -/
def turn (setup : Setup P) (s : Serve) (w : Wake) : Serve × List ServeOut :=
  ({ s with
      loop := (Hub.run.step s.loop w.turn).1
      rx := w.rx
      homes := fun k => (HomeTask.run setup).finalFrom (s.homes k) (s.toHome w k)
      phones := fun k => (PhoneTask.run setup).finalFrom (s.phones k) (s.toPhone w k) },
    (Hub.run.step s.loop w.turn).2.map .hub)

/-- What happens next. -/
def step (setup : Setup P) (s : Serve) : ServeEvent P → Serve × List ServeOut
  | .dialHome k =>
    let task := ((HomeTask.run setup).step (s.homes k) .spawn).1
    (if s.snorkelAccept then { s with homes := Function.update s.homes k task } else s, [])
  | .dialPhone k =>
    let task := ((PhoneTask.run setup).step (s.phones k) .spawn).1
    (if s.phoneAccept then { s with phones := Function.update s.phones k task } else s, [])
  | .home k ev =>
    let (task, out) := (HomeTask.run setup).step (s.homes k) (.move s.loop.stopped ev)
    ({ s with
        homes := Function.update s.homes k task
        rx := s.post (.home k) (out.filterMap (HomeOut.toHub setup.fromSlice)) },
      out.map (.home k))
  | .phone k ev =>
    let (task, out) := (PhoneTask.run setup).step (s.phones k) (.move s.loop.stopped ev)
    ({ s with
        phones := Function.update s.phones k task
        rx := s.post (.phone k) (out.filterMap PhoneOut.toHub) },
      out.map (.phone k))
  | .recv now order =>
    match s.wake (.recv now order : ServeEvent P) with
    | some w => s.turn setup w
    | none => (s, [])
  | .deadline now order =>
    match s.wake (.deadline now order : ServeEvent P) with
    | some w => s.turn setup w
    | none => (s, [])
  | .signal => ({ s with shutdown := true }, [])
  | .snorkelEnds => (if s.shutdown then { s with snorkelAccept := false } else s, [])
  | .phoneEnds => (if s.shutdown then { s with phoneAccept := false } else s, [])
  | .serveEnds =>
    (if s.shutdown ∧ s.waiting then
      { s with
        snorkelAccept := false, phoneAccept := false, waiting := false
        rx := s.post .serve [.shutdown] }
      else s, [])

/-- `serve` as a machine. -/
def run (setup : Setup P) : Machine Serve (ServeEvent P) ServeOut where
  init := {}
  step := step setup

/-! ## 2. What one event does -/

/-- What the hub takes in an event. -/
def hubTakes (s : Serve) (ev : ServeEvent P) : List Turn := (s.wake ev).toList.map Wake.turn

/-- What the task of the home connection `k` takes in an event. -/
def homeTakes (k : Nat) (s : Serve) (ev : ServeEvent P) : List (HomeInput P) :=
  match ev with
  | .dialHome k' => if k' = k ∧ s.snorkelAccept then [.spawn] else []
  | .home k' ev => if k' = k then [.move s.loop.stopped ev] else []
  | ev => (s.wake ev).toList.flatMap (s.toHome · k)

/-- What the task of the phone connection `k` takes in an event. -/
def phoneTakes (k : Nat) (s : Serve) (ev : ServeEvent P) : List PhoneInput :=
  match ev with
  | .dialPhone k' => if k' = k ∧ s.phoneAccept then [.spawn] else []
  | .phone k' ev => if k' = k then [.move s.loop.stopped ev] else []
  | ev => (s.wake ev).toList.flatMap (s.toPhone · k)

/-- The steps of topside. -/
inductive Step (setup : Setup P) (s : Serve) : ServeEvent P → Serve → List ServeOut → Prop
  /-- Nothing happens but to the flags. -/
  | flags {ev : ServeEvent P} {shutdown snorkelAccept phoneAccept waiting : Bool}
      (hwake : s.wake ev = none) (hhome : ∀ k, s.homeTakes k ev = [])
      (hphone : ∀ k, s.phoneTakes k ev = []) :
      Step setup s ev { s with shutdown, snorkelAccept, phoneAccept, waiting } []
  | dialHome {k : Nat} (hacc : s.snorkelAccept) :
      Step setup s (.dialHome k)
        { s with
          homes := Function.update s.homes k ((HomeTask.run setup).step (s.homes k) .spawn).1 } []
  | dialPhone {k : Nat} (hacc : s.phoneAccept) :
      Step setup s (.dialPhone k)
        { s with
          phones := Function.update s.phones k ((PhoneTask.run setup).step (s.phones k) .spawn).1 }
        []
  | home {k : Nat} {ev : HomeEvent P} {task : HomeTask} {out : List HomeOut}
      (h : (HomeTask.run setup).step (s.homes k) (.move s.loop.stopped ev) = (task, out)) :
      Step setup s (.home k ev)
        { s with
          homes := Function.update s.homes k task
          rx := s.post (.home k) (out.filterMap (HomeOut.toHub setup.fromSlice)) }
        (out.map (.home k))
  | phone {k : Nat} {ev : PhoneEvent} {task : PhoneTask} {out : List PhoneOut}
      (h : (PhoneTask.run setup).step (s.phones k) (.move s.loop.stopped ev) = (task, out)) :
      Step setup s (.phone k ev)
        { s with
          phones := Function.update s.phones k task
          rx := s.post (.phone k) (out.filterMap PhoneOut.toHub) }
        (out.map (.phone k))
  /-- The hub takes a turn. -/
  | turn {ev : ServeEvent P} {w : Wake} (hw : s.wake ev = some w)
      (hhome : ∀ k, s.homeTakes k ev = s.toHome w k)
      (hphone : ∀ k, s.phoneTakes k ev = s.toPhone w k) :
      Step setup s ev (s.turn setup w).1 (s.turn setup w).2
  /-- `serve` tells the hub to end. -/
  | ends :
      Step setup s .serveEnds
        { s with
          snorkelAccept := false, phoneAccept := false, waiting := false
          rx := s.post .serve [.shutdown] } []

/-- The hub does not wake up for what is not its own. -/
theorem wake_eq_none (s : Serve) (ev : ServeEvent P) (hrecv : ∀ now order, ev ≠ .recv now order)
    (hdeadline : ∀ now order, ev ≠ .deadline now order) : s.wake ev = none := by
  cases ev with
  | recv now order => exact absurd rfl (hrecv now order)
  | deadline now order => exact absurd rfl (hdeadline now order)
  | _ => simp [wake]

variable {setup : Setup P} {s : Serve}

theorem flags_step (ev : ServeEvent P) (hev : ev.OfShutdown)
    {shutdown snorkelAccept phoneAccept waiting : Bool} :
    Step setup s ev { s with shutdown, snorkelAccept, phoneAccept, waiting } [] := by
  have hwake : s.wake ev = none := by
    cases ev with
    | recv now order => exact hev.elim
    | deadline now order => exact hev.elim
    | _ => exact s.wake_eq_none _ (by simp) (by simp)
  refine .flags hwake (fun k => ?_) fun k => ?_
  · cases ev <;> first | exact hev.elim | simp [homeTakes, hwake]
  · cases ev <;> first | exact hev.elim | simp [phoneTakes, hwake]

theorem wake_step {ev : ServeEvent P}
    (hev : ∀ k, s.homeTakes k ev = (s.wake ev).toList.flatMap (s.toHome · k))
    (hev' : ∀ k, s.phoneTakes k ev = (s.wake ev).toList.flatMap (s.toPhone · k)) :
    Step setup s ev
      (match s.wake ev with
        | some w => s.turn setup w
        | none => (s, [])).1
      (match s.wake ev with
        | some w => s.turn setup w
        | none => (s, [])).2 := by
  cases hw : s.wake ev with
  | none => exact .flags hw (fun k => by simp [hev, hw]) fun k => by simp [hev', hw]
  | some w => exact .turn hw (fun k => by simp [hev, hw]) fun k => by simp [hev', hw]

/-- **topside takes these steps and no others.** -/
theorem step_spec (setup : Setup P) (s : Serve) (ev : ServeEvent P) :
    Step setup s ev ((run setup).step s ev).1 ((run setup).step s ev).2 := by
  change Step setup s ev (step setup s ev).1 (step setup s ev).2
  cases ev with
  | dialHome k =>
    by_cases hacc : s.snorkelAccept
    · simp only [step, if_pos hacc]
      exact .dialHome hacc
    · simp only [step, if_neg hacc]
      have hw := s.wake_eq_none (.dialHome k : ServeEvent P) (by simp) (by simp)
      exact .flags hw (fun k' => by simp [homeTakes, hacc]) fun k' => by simp [phoneTakes, hw]
  | dialPhone k =>
    by_cases hacc : s.phoneAccept
    · simp only [step, if_pos hacc]
      exact .dialPhone hacc
    · simp only [step, if_neg hacc]
      have hw := s.wake_eq_none (.dialPhone k : ServeEvent P) (by simp) (by simp)
      exact .flags hw (fun k' => by simp [homeTakes, hw]) fun k' => by simp [phoneTakes, hacc]
  | home k ev => exact .home rfl
  | phone k ev => exact .phone rfl
  | recv now order => exact wake_step (fun _ => rfl) fun _ => rfl
  | deadline now order => exact wake_step (fun _ => rfl) fun _ => rfl
  | signal => exact flags_step .signal trivial
  | snorkelEnds =>
    by_cases hset : s.shutdown
    · simp only [step, if_pos hset]
      exact flags_step .snorkelEnds trivial
    · simp only [step, if_neg hset]
      exact flags_step .snorkelEnds trivial
  | phoneEnds =>
    by_cases hset : s.shutdown
    · simp only [step, if_pos hset]
      exact flags_step .phoneEnds trivial
    · simp only [step, if_neg hset]
      exact flags_step .phoneEnds trivial
  | serveEnds =>
    by_cases hset : s.shutdown ∧ s.waiting
    · simp only [step, if_pos hset]
      exact .ends
    · simp only [step, if_neg hset]
      exact flags_step .serveEnds trivial

end Serve

/-! ## 3. The machines at work -/

namespace ServeOut

@[simp] def ofHub : ServeOut → Option Effect
  | hub eff => some eff
  | _ => none

@[simp] def ofHome (k : Nat) : ServeOut → Option HomeOut
  | home k' o => if k' = k then some o else none
  | _ => none

@[simp] def ofPhone (k : Nat) : ServeOut → Option PhoneOut
  | phone k' o => if k' = k then some o else none
  | _ => none

end ServeOut

variable {P : Type*} (setup : Setup P)

theorem HomeTask.hears_silent {task : HomeTask} {mine : Bool} {out : List Effect} {i : HomeInput P}
    (hi : i ∈ task.hears mine out) (task' : HomeTask) :
    ((HomeTask.run setup).step task' i).2 = [] := by
  obtain ⟨eff, -, heff⟩ := List.mem_filterMap.mp hi
  cases i with
  | move gone ev => cases eff <;> simp [HomeTask.hear] at heff
  | _ => rfl

theorem PhoneTask.hears_silent {task : PhoneTask} {mine : Bool} {out : List Effect}
    {before after : Hub} {i : PhoneInput} (hi : i ∈ task.hears mine out before after)
    (task' : PhoneTask) : ((PhoneTask.run setup).step task' i).2 = [] := by
  cases i with
  | move gone ev =>
    obtain hi | hi := List.mem_append.mp hi
    · obtain ⟨eff, -, heff⟩ := List.mem_filterMap.mp hi
      cases eff <;> simp [PhoneTask.hear] at heff
    · split at hi
      · split at hi <;> simp at hi
      · cases hi
  | _ => rfl

namespace Serve

/-- **The hub is at work in topside.** -/
def hub : Component (run setup) Hub.run where
  state := loop
  takes := hubTakes
  gives := ServeOut.ofHub
  state_init := rfl
  state_step s ev := by
    have hs := s.step_spec setup ev
    generalize (run setup).step s ev = next at hs ⊢
    obtain ⟨s', out⟩ := next
    unfold hubTakes
    cases hs with
    | flags hwake => rw [hwake]; rfl
    | turn hw => rw [hw]; rfl
    | _ => rw [wake_eq_none _ _ (by simp) (by simp)]; rfl
  gives_step s ev := by
    have hs := s.step_spec setup ev
    generalize (run setup).step s ev = next at hs ⊢
    obtain ⟨s', out⟩ := next
    unfold hubTakes
    cases hs with
    | flags hwake => rw [hwake]; rfl
    | turn hw =>
      rw [hw]
      simp [Machine.historyFrom, List.filterMap_map, Function.comp_def]
    | home h =>
      rw [wake_eq_none _ _ (by simp) (by simp)]
      simp [Machine.historyFrom, List.filterMap_map, Function.comp_def]
    | phone h =>
      rw [wake_eq_none _ _ (by simp) (by simp)]
      simp [Machine.historyFrom, List.filterMap_map, Function.comp_def]
    | _ => rw [wake_eq_none _ _ (by simp) (by simp)]; rfl

/-- **The task of the home connection `k` is at work in topside.** -/
def homeTask (k : Nat) : Component (run setup) (HomeTask.run setup) where
  state s := s.homes k
  takes := homeTakes k
  gives := ServeOut.ofHome k
  state_init := rfl
  state_step s ev := by
    have hs := s.step_spec setup ev
    generalize (run setup).step s ev = next at hs ⊢
    obtain ⟨s', out⟩ := next
    cases hs with
    | flags hwake hhome => rw [hhome]; rfl
    | turn hw hhome => rw [hhome]
    | @dialHome k' hacc =>
      by_cases hk : k' = k
      · subst hk
        simp [homeTakes, hacc, Machine.finalFrom]
      · simp [homeTakes, hk, Function.update_of_ne (Ne.symm hk), Machine.finalFrom]
    | @home k' ev task outs h =>
      by_cases hk : k' = k
      · subst hk
        simp [homeTakes, Machine.finalFrom, h]
      · simp [homeTakes, hk, Function.update_of_ne (Ne.symm hk), Machine.finalFrom]
    | _ => simp [homeTakes, wake_eq_none, Machine.finalFrom]
  gives_step s ev := by
    have hs := s.step_spec setup ev
    generalize (run setup).step s ev = next at hs ⊢
    obtain ⟨s', out⟩ := next
    cases hs with
    | flags hwake hhome => rw [hhome]; rfl
    | @turn ev w hw hhome =>
      rw [hhome, toHome, Machine.silent _ fun i hi => HomeTask.hears_silent setup hi]
      simp [List.filterMap_map, Function.comp_def]
    | @dialHome k' hacc =>
      by_cases hk : k' = k
      · subst hk
        simp only [homeTakes, hacc, and_self, if_true]
        rfl
      · simp [homeTakes, hk, Machine.historyFrom]
    | @home k' ev task outs h =>
      by_cases hk : k' = k
      · subst hk
        simp [homeTakes, Machine.historyFrom, h, List.filterMap_map, Function.comp_def]
      · simp [homeTakes, hk, Machine.historyFrom, List.filterMap_map, Function.comp_def]
    | phone h =>
      simp [homeTakes, wake_eq_none, Machine.historyFrom, List.filterMap_map, Function.comp_def]
    | _ => simp [homeTakes, wake_eq_none, Machine.historyFrom]

/-- **The task of the phone connection `k` is at work in topside.** -/
def phoneTask (k : Nat) : Component (run setup) (PhoneTask.run setup) where
  state s := s.phones k
  takes := phoneTakes k
  gives := ServeOut.ofPhone k
  state_init := rfl
  state_step s ev := by
    have hs := s.step_spec setup ev
    generalize (run setup).step s ev = next at hs ⊢
    obtain ⟨s', out⟩ := next
    cases hs with
    | flags hwake hhome hphone => rw [hphone]; rfl
    | turn hw hhome hphone => rw [hphone]
    | @dialPhone k' hacc =>
      by_cases hk : k' = k
      · subst hk
        simp [phoneTakes, hacc, Machine.finalFrom]
      · simp [phoneTakes, hk, Function.update_of_ne (Ne.symm hk), Machine.finalFrom]
    | @phone k' ev task outs h =>
      by_cases hk : k' = k
      · subst hk
        simp [phoneTakes, Machine.finalFrom, h]
      · simp [phoneTakes, hk, Function.update_of_ne (Ne.symm hk), Machine.finalFrom]
    | _ => simp [phoneTakes, wake_eq_none, Machine.finalFrom]
  gives_step s ev := by
    have hs := s.step_spec setup ev
    generalize (run setup).step s ev = next at hs ⊢
    obtain ⟨s', out⟩ := next
    cases hs with
    | flags hwake hhome hphone => rw [hphone]; rfl
    | @turn ev w hw hhome hphone =>
      rw [hphone, toPhone, Machine.silent _ fun i hi => PhoneTask.hears_silent setup hi]
      simp [List.filterMap_map, Function.comp_def]
    | @dialPhone k' hacc =>
      by_cases hk : k' = k
      · subst hk
        simp only [phoneTakes, hacc, and_self, if_true]
        rfl
      · simp [phoneTakes, hk, Machine.historyFrom]
    | @phone k' ev task outs h =>
      by_cases hk : k' = k
      · subst hk
        simp [phoneTakes, Machine.historyFrom, h, List.filterMap_map, Function.comp_def]
      · simp [phoneTakes, hk, Machine.historyFrom, List.filterMap_map, Function.comp_def]
    | home h =>
      simp [phoneTakes, wake_eq_none, Machine.historyFrom, List.filterMap_map, Function.comp_def]
    | _ => simp [phoneTakes, wake_eq_none, Machine.historyFrom]

/-- The letters posted in an event. -/
def posts (s : Serve) (ev : ServeEvent P) : List Letter :=
  if s.loop.stopped then []
  else
    match ev with
    | .home k ev =>
      (((HomeTask.run setup).step (s.homes k) (.move s.loop.stopped ev)).2.filterMap
        (HomeOut.toHub setup.fromSlice)).map (⟨.home k, ·⟩)
    | .phone k ev =>
      (((PhoneTask.run setup).step (s.phones k) (.move s.loop.stopped ev)).2.filterMap
        PhoneOut.toHub).map (⟨.phone k, ·⟩)
    | .serveEnds => if s.shutdown ∧ s.waiting then [⟨.serve, .shutdown⟩] else []
    | _ => []

/-- The letter read in an event. -/
def reads (s : Serve) (ev : ServeEvent P) : List Letter :=
  match ev with
  | .recv _ _ => if s.loop.stopped then [] else s.rx.take 1
  | _ => []

/-- **The queue `rx`.** -/
def mailbox : Mailbox (run setup) Letter where
  queue := rx
  puts := posts setup
  takes := reads
  queue_init := rfl
  queue_step s ev := by
    change s.rx ++ s.posts setup ev = s.reads ev ++ (s.step setup ev).1.rx
    cases ev with
    | home k ev => by_cases hstop : s.loop.stopped <;> simp [step, posts, reads, post, hstop]
    | phone k ev => by_cases hstop : s.loop.stopped <;> simp [step, posts, reads, post, hstop]
    | recv now order =>
      by_cases hstop : s.loop.stopped
      · simp [step, posts, reads, wake, hstop]
      · cases hrx : s.rx <;> simp [step, posts, reads, wake, turn, hstop, hrx]
    | deadline now order =>
      by_cases hstop : s.loop.stopped <;> simp [step, posts, reads, wake, turn, hstop]
    | serveEnds =>
      by_cases hstop : s.loop.stopped <;> by_cases hset : s.shutdown ∧ s.waiting <;>
        simp [step, posts, reads, post, hstop, hset]
    | signal => simp [step, posts, reads]
    | _ =>
      simp only [step, posts, reads, ite_self, List.append_nil, List.nil_append]
      split <;> rfl

end Serve

end Aqualung
