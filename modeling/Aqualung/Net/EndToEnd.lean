/-
# What the leader and the hub hear of each other

The frames that the leader writes go through a session of snorkel, cut into other pieces at every
station, to the task of a home connection, and the messages of the hub go back.  The stations are
known one by one; here the way as a whole is put together.

* `leader_heard`: as long as no branch of the loop of the task interrupts a frame that is read in
  part, the hub is handed the first of the frames that the leader has written, whole and in order.
  The bytes that arrive are the beginning of the stream of those frames, whatever the cuts
  (`arrivedBytes_eq`, `up_account`), and from there on it is `Unbroken.onTrack` of the connection.
* `hub_heard`: the leader is given the registration and then what the hub has said on the link, in
  order, and what it is given is always the beginning of a stream of frames that it can read.

The second has a case more than delivery inside topside: a write may fail with a part of the frame
gone out.  The part is the beginning of the frame of the message that was due (`broken_step`), and
nothing follows it, since the loop ends with it (`Tail`).  So the leader reads the frames before it
and then waits for the rest of one that does not come.
-/
import Aqualung.Net.Tunnel

namespace Aqualung

open Lib

variable {P : Type*} (setup : Setup P)

/-! ## 1. What the task is given -/

/-- Only the task itself moves. -/
theorem HomeTask.hears_passive {task : HomeTask} {mine : Bool} {out : List Effect}
    {i : HomeInput P} (hi : i ∈ task.hears mine out) (gone : Bool) (ev : HomeEvent P) :
    i ≠ .move gone ev := by
  rintro rfl
  obtain ⟨eff, -, heff⟩ := List.mem_filterMap.mp hi
  cases eff <;> simp [hear] at heff

/-- What happens to a task in an event is one move of its own, or what others do to it. -/
theorem Serve.homeTakes_cases (s : Serve) (ev : ServeEvent P) (k : Nat) :
    (∃ ev', ev = .home k ev' ∧ s.homeTakes k ev = [.move s.loop.stopped ev']) ∨
      ∀ i ∈ s.homeTakes k ev, ∀ gone ev', i ≠ .move gone ev' := by
  have hwake : ∀ i ∈ (s.wake ev).toList.flatMap (s.toHome · k), ∀ gone (ev' : HomeEvent P),
      i ≠ .move gone ev' := by
    intro i hi
    obtain ⟨w, -, hi⟩ := List.mem_flatMap.mp hi
    exact HomeTask.hears_passive hi
  cases ev with
  | dialHome k' =>
    refine .inr fun i hi gone ev' => ?_
    simp only [homeTakes] at hi
    split at hi
    · rw [List.mem_singleton.mp hi]
      exact nofun
    · cases hi
  | home k' ev =>
    by_cases hk : k' = k
    · subst hk
      exact .inl ⟨ev, rfl, if_pos rfl⟩
    · refine .inr fun i hi => ?_
      rw [homeTakes, if_neg hk] at hi
      cases hi
  | _ => exact .inr hwake

/-- All that has happened to the task of the home connection `k`. -/
def taskInputs (evs : List (ServeEvent P)) (k : Nat) : List (HomeInput P) :=
  (Serve.homeTask setup k).inputs ((Serve.run setup).history evs)

/-- All that has happened to its loop. -/
def loopInputs (evs : List (ServeEvent P)) (k : Nat) : List ConnEvent :=
  (HomeTask.loop setup).inputs ((HomeTask.run setup).history (taskInputs setup evs k))

theorem taskInputs_snoc (evs : List (ServeEvent P)) (ev : ServeEvent P) (k : Nat) :
    taskInputs setup (evs ++ [ev]) k
      = taskInputs setup evs k ++ ((Serve.run setup).final evs).homeTakes k ev := by
  rw [taskInputs, Machine.history_snoc, Component.inputs_append, Component.inputs_singleton]
  rfl

theorem task_final (evs : List (ServeEvent P)) (k : Nat) :
    ((Serve.run setup).final evs).homes k = (HomeTask.run setup).final (taskInputs setup evs k) :=
  (Serve.homeTask setup k).state_final evs

theorem conn_final (evs : List (ServeEvent P)) (k : Nat) :
    (((Serve.run setup).final evs).homes k).conn
      = HomeConnection.run.final (loopInputs setup evs k) := by
  rw [task_final]
  exact (HomeTask.loop setup).state_final _

/-- The frames that the loop has read are those that the connection has handed over. -/
theorem framesOf_eq (evs : List (ServeEvent P)) (k : Nat) :
    framesOf setup evs k = frames (HomeConnection.run.history (loopInputs setup evs k)) := by
  have hserve : framesOf setup evs k
      = collect HomeOut.frame ((HomeTask.run setup).history (taskInputs setup evs k)) :=
    (Serve.homeTask setup k).collect_bind HomeOut.frame evs
  rw [hserve]
  exact (HomeTask.loop setup).collect_bind ConnOut.frame _

/-! ## 2. What arrives -/

namespace HomeTask

/-- The bytes that an input brings to the loop. -/
theorem arrivedBytes_loopEvents (task : HomeTask) (i : HomeInput P) :
    arrivedBytes (task.loopEvents setup i) = match i with
      | .move _ (.arrived bytes) => if task.Connected then bytes else []
      | _ => [] := by
  cases i with
  | move gone ev =>
    cases ev with
    | arrived bytes =>
      by_cases hconn : task.Connected <;> simp [loopEvents, hconn, arrivedBytes, ConnEvent.bytes]
    | finished =>
      by_cases hconn : task.Connected <;> simp [loopEvents, hconn, arrivedBytes, ConnEvent.bytes]
    | recv written =>
      cases hphase : task.phase with
      | looping g =>
        cases hout : task.out with
        | nil =>
          by_cases hhalt : task.halted <;>
            simp [loopEvents, hphase, hout, hhalt, arrivedBytes, ConnEvent.bytes]
        | cons msg out => simp [loopEvents, hphase, hout, ConnEvent.bytes]
      | _ => simp [loopEvents, hphase, arrivedBytes]
    | halt =>
      cases hphase : task.phase with
      | looping g =>
        by_cases hhalt : task.halted <;>
          simp [loopEvents, hphase, hhalt, arrivedBytes, ConnEvent.bytes]
      | _ => simp [loopEvents, hphase, arrivedBytes]
    | _ => cases hphase : task.phase <;> simp [loopEvents, hphase, arrivedBytes, ConnEvent.bytes]
  | _ => rfl

theorem loop_passive (task : HomeTask) {is : List (HomeInput P)}
    (his : ∀ i ∈ is, ∀ gone ev, i ≠ .move gone ev) :
    (loop setup).inputs ((run setup).historyFrom task is) = [] := by
  induction is generalizing task with
  | nil => rfl
  | cons i is ih =>
    have hi := his i List.mem_cons_self
    have htail := ih ((run setup).step task i).1 fun j hj => his j (List.mem_cons_of_mem _ hj)
    rw [Machine.historyFrom, Component.inputs, List.flatMap_cons]
    change task.loopEvents setup i ++ (loop setup).inputs _ = []
    rw [htail, List.append_nil]
    cases i with
    | move gone ev => exact absurd rfl (hi gone ev)
    | _ => rfl

end HomeTask

/-- The bytes that an event brings to the home connection `k`. -/
theorem arrivedBytes_snoc (evs : List (ServeEvent P)) (ev : ServeEvent P) (k : Nat) :
    arrivedBytes (loopInputs setup (evs ++ [ev]) k)
      = arrivedBytes (loopInputs setup evs k) ++ match ev with
        | .home k' (.arrived bytes) =>
          if k' = k ∧ (((Serve.run setup).final evs).homes k).Connected then bytes else []
        | _ => [] := by
  have hinputs : loopInputs setup (evs ++ [ev]) k = loopInputs setup evs k ++
      (HomeTask.loop setup).inputs ((HomeTask.run setup).historyFrom
        (((Serve.run setup).final evs).homes k) (((Serve.run setup).final evs).homeTakes k ev)) := by
    rw [loopInputs, taskInputs_snoc, Machine.history_append, Component.inputs_append, task_final]
    rfl
  rw [hinputs, arrivedBytes_append, List.append_cancel_left_eq]
  generalize (Serve.run setup).final evs = s
  obtain ⟨ev', rfl, htakes⟩ | hpassive := s.homeTakes_cases ev k
  · rw [htakes, Machine.historyFrom, Machine.historyFrom, Component.inputs_singleton]
    change arrivedBytes ((s.homes k).loopEvents setup (.move s.loop.stopped ev')) = _
    rw [HomeTask.arrivedBytes_loopEvents]
    cases ev' with
    | arrived bytes => simp
    | _ => rfl
  · rw [HomeTask.loop_passive setup _ hpassive]
    cases ev with
    | home k' ev' =>
      have hk : k' ≠ k := fun hk => by
        subst hk
        exact hpassive (.move s.loop.stopped ev') (by simp [Serve.homeTakes]) _ _ rfl
      cases ev' with
      | arrived bytes => simp [hk, arrivedBytes]
      | _ => rfl
    | _ => rfl

namespace Tunnel

variable (k : Nat)

/-- What has happened to topside. -/
def serveEvents (evs : List (TunnelEvent P)) : List (ServeEvent P) :=
  (serveAt setup k).inputs ((run setup k).history evs)

theorem serveEvents_snoc (evs : List (TunnelEvent P)) (ev : TunnelEvent P) :
    serveEvents setup k (evs ++ [ev])
      = serveEvents setup k evs ++ ((run setup k).final evs).serveTakes k ev := by
  rw [serveEvents, Machine.history_snoc, Component.inputs_append, Component.inputs_singleton]
  rfl

theorem serve_final (evs : List (TunnelEvent P)) :
    ((run setup k).final evs).serve = (Serve.run setup).final (serveEvents setup k evs) :=
  (serveAt setup k).state_final evs

/-- **What has arrived at the loop of the task** is what has been taken from the way there. -/
theorem arrivedBytes_eq (evs : List (TunnelEvent P)) :
    arrivedBytes (loopInputs setup (serveEvents setup k evs) k)
      = (serverPipe setup k).taken ((run setup k).history evs) := by
  induction evs using List.reverseRecOn with
  | nil => rfl
  | append_singleton evs ev ih =>
    have hserve := serve_final setup k evs
    rw [serveEvents_snoc, Machine.history_snoc, Mailbox.taken_append, Mailbox.taken_singleton, ← ih]
    generalize (run setup k).final evs = s at hserve ⊢
    have hquiet : ∀ ev' : ServeEvent P, ¬ ev'.ArrivesAt k →
        arrivedBytes (loopInputs setup (serveEvents setup k evs ++ [ev']) k)
          = arrivedBytes (loopInputs setup (serveEvents setup k evs) k) := by
      intro ev' hev
      rw [arrivedBytes_snoc]
      cases ev' with
      | home k' ev'' =>
        cases ev'' with
        | arrived bytes =>
          have hk : k' ≠ k := hev
          simp [hk]
        | _ => exact List.append_nil _
      | _ => exact List.append_nil _
    cases ev with
    | arrive n =>
      by_cases hconn : (s.serve.homes k).Connected
      · rw [serveTakes, if_pos hconn, arrivedBytes_snoc, ← hserve]
        simp [serverPipe, hconn]
      · simp [serveTakes, serverPipe, hconn]
    | serve ev' part =>
      by_cases hev : ev'.ArrivesAt k
      · simp [serveTakes, serverPipe, hev]
      · rw [serveTakes, if_neg hev, hquiet ev' hev]
        exact (List.append_nil _).symm
    | _ => simp [serveTakes, serverPipe]

/-! ## 3. From the leader to the hub -/

/-- What comes of the frames that the leader has written. -/
structure LeaderHeard (evs : List (TunnelEvent P)) : Prop where
  /-- What has arrived at topside is the beginning of the frames that the leader has written. -/
  arrived : arrivedBytes (loopInputs setup (serveEvents setup k evs) k)
    <+: framing.stream (evs.filterMap said)
  /-- The loop of the task reads the first of them. -/
  in_order : Unbroken (loopInputs setup (serveEvents setup k evs) k) →
    framesOf setup (serveEvents setup k evs) k <+: evs.filterMap said
  /-- While it runs, what is missing is held by it or waits in its socket, is on the way to topside,
  is held by the writer of the session or still to be accepted by it, or is unread. -/
  lossless : Unbroken (loopInputs setup (serveEvents setup k evs) k) →
    (((run setup k).final evs).serve.homes k).phase ≠ .ended →
    framing.stream (framesOf setup (serveEvents setup k evs) k) ++
        ((((run setup k).final evs).serve.homes k).conn.reading.held ++
          (((run setup k).final evs).serve.homes k).conn.socket) ++
        ((run setup k).final evs).toServer ++ ((run setup k).final evs).session.up.held ++
        ((run setup k).final evs).session.up.phase.rest ++ ((run setup k).final evs).fromLeader
      = framing.stream (evs.filterMap said)
  /-- The task tells the hub of the connection, then of the frames it has read, each as what
  `serde_json` makes of it, and at the end, if anything, that the link is gone. -/
  told : Unbroken (loopInputs setup (serveEvents setup k evs) k) →
    ∀ g, (((run setup k).final evs).serve.homes k).bound = some g →
    ∃ fs last, fs <+: evs.filterMap said ∧ (last = [] ∨ last = [.homeEof g]) ∧
      (toldHub setup (serveEvents setup k evs)).filterMap (Letter.from (.home k))
        <+: .accepted :: (fs.map (HomeTask.homeFrame setup g) ++ last)

theorem said_le (evs : List (TunnelEvent P)) :
    ∀ json ∈ evs.filterMap said, json.length ≤ MAX_FRAME := by
  intro json hjson
  obtain ⟨ev, -, hev⟩ := List.mem_filterMap.mp hjson
  cases ev with
  | leader json' =>
    simp only [said] at hev
    split at hev
    · rename_i hle
      cases hev
      exact hle
    · cases hev
  | _ => cases hev

/-- **What the leader says is heard by the hub**, however its bytes are cut on the way and whatever
else happens: the hub is told of the first of its frames, whole and in order.  The condition is
that of `frames_intact`, on what the loop of the task has been given; the bytes arrive in order
without it. -/
theorem leader_heard (evs : List (TunnelEvent P)) : LeaderHeard setup k evs := by
  have haccount := up_account setup k evs
  have harrived : arrivedBytes (loopInputs setup (serveEvents setup k evs) k)
      <+: framing.stream (evs.filterMap said) := by
    rw [arrivedBytes_eq, ← haccount]
    simp only [List.append_assoc]
    exact List.prefix_append _ _
  have htrack := fun hun => (Unbroken.onTrack (said_le evs) _ harrived hun).1
  have horder : Unbroken (loopInputs setup (serveEvents setup k evs) k) →
      framesOf setup (serveEvents setup k evs) k <+: evs.filterMap said := by
    intro hun
    rw [framesOf_eq]
    exact (htrack hun).in_order
  refine ⟨harrived, horder, fun hun hphase => ?lossless, fun hun g hg => ?told⟩
  case lossless =>
    have hrun : (((run setup k).final evs).serve.homes k).conn.running := by
      rw [serve_final] at hphase ⊢
      rw [task_final] at hphase ⊢
      exact (HomeTask.wire_kept setup _).running hphase
    have hread := (htrack hun).account
    rw [← framesOf_eq, ← conn_final, ← serve_final, arrivedBytes_eq] at hread
    rw [hread hrun, haccount]
  case told =>
    have htold := told_home setup (serveEvents setup k evs) k
    rw [← serve_final] at htold
    have hmap := horder hun
    generalize framesOf setup (serveEvents setup k evs) k = fs at htold hmap
    have hnone : ∀ {posts : List ToHub}, posts <+: [.accepted] → ∃ fs last,
        fs <+: evs.filterMap said ∧ (last = [] ∨ last = [.homeEof g]) ∧
          posts <+: .accepted :: (fs.map (HomeTask.homeFrame setup g) ++ last) :=
      fun hposts => ⟨[], [], List.nil_prefix, .inl rfl, hposts⟩
    unfold HomeTask.Reported at htold
    split at htold
    · exact hnone (htold.2 ▸ List.nil_prefix)
    · exact hnone (htold.2 ▸ List.nil_prefix)
    · exact hnone (htold.2 ▸ List.prefix_rfl)
    · exact hnone (htold.2.2 ▸ List.prefix_rfl)
    · obtain ⟨hbound, hposts⟩ := htold
      obtain rfl := Option.some.inj (hg.symm.trans hbound)
      exact ⟨fs, [], hmap, .inl rfl, by rw [hposts, List.append_nil]⟩
    · obtain ⟨-, hposts⟩ | ⟨g', last, hbound, hlast, hposts⟩ := htold
      · exact hnone hposts
      · obtain rfl := Option.some.inj (hg.symm.trans hbound)
        exact ⟨fs, last, hmap, hlast, by rw [hposts]⟩

end Tunnel

/-! ## 4. What is written is frames -/

theorem HomeConnection.wrote_frame (c : HomeConnection) (ev : ConnEvent) {bytes : Bytes}
    (h : .wrote bytes ∈ (run.step c ev).2) :
    ∃ json : Bytes, json.length ≤ MAX_FRAME ∧ bytes = frameOf json := by
  have hwrite : ∀ json written, .wrote bytes ∈ (c.write json written).2 →
      ∃ json : Bytes, json.length ≤ MAX_FRAME ∧ bytes = frameOf json := by
    intro json written h
    unfold write at h
    by_cases hmax : json.length ≤ MAX_FRAME
    · simp only [writeFrame_of_valid hmax] at h
      cases written with
      | true => exact ⟨json, hmax, ConnOut.wrote.inj (List.mem_singleton.mp h)⟩
      | false => cases List.mem_singleton.mp h
    · simp only [writeFrame, if_pos (not_le.mp hmax)] at h
      cases List.mem_singleton.mp h
  change .wrote bytes ∈ (c.step ev).2 at h
  unfold step at h
  split at h
  · cases h
  split at h
  · cases h
  · cases h
  · unfold read at h
    split at h
    · cases List.mem_singleton.mp h
    · cases List.mem_singleton.mp h
    · split at h
      · cases List.mem_singleton.mp h
      · cases h
  · exact hwrite _ _ h
  · cases h
  · exact hwrite _ _ h
  · cases h

theorem frameOf_inj {json json' : Bytes} (h : frameOf json = frameOf json') : json = json' :=
  (List.append_inj h (by rw [length_toBeBytes, length_toBeBytes])).2

namespace HomeTask

/-- The message can be sent in a frame. -/
def Fits (msg : LeaderClient) : Prop := (msg.toVec setup.floatText).length ≤ MAX_FRAME

/-- A move writes frames that can be read. -/
theorem Step.wire_frame {setup : Setup P} {task task' : HomeTask} {i : HomeInput P}
    {evs : List ConnEvent} {outs : List HomeOut} (hs : Step setup task i evs task' outs)
    {bytes : Bytes} (h : bytes ∈ outs.filterMap HomeOut.wire) :
    ∃ json : Bytes, json.length ≤ MAX_FRAME ∧ bytes = frameOf json := by
  have hconn : ∀ {g ev}, bytes ∈ ((HomeConnection.run.step task.conn ev).2.map
      (HomeOut.conn g)).filterMap HomeOut.wire →
      ∃ json : Bytes, json.length ≤ MAX_FRAME ∧ bytes = frameOf json := by
    intro g ev h
    obtain ⟨o, ho, hwire⟩ := List.mem_filterMap.mp h
    obtain ⟨o', ho', rfl⟩ := List.mem_map.mp ho
    cases o' with
    | wrote bytes' =>
      cases hwire
      exact task.conn.wrote_frame ev ho'
    | _ => cases hwire
  cases hs with
  | registered hphase =>
    obtain rfl := List.mem_singleton.mp h
    exact ⟨_, registerFrame_le _, rfl⟩
  | turn => exact hconn h
  | last => exact hconn h
  | _ => cases h

theorem wire_frames (is : List (HomeInput P)) :
    ∀ bytes ∈ collect HomeOut.wire ((run setup).history is),
      ∃ json : Bytes, json.length ≤ MAX_FRAME ∧ bytes = frameOf json := by
  induction is using List.reverseRecOn with
  | nil => exact nofun
  | append_singleton is i ih =>
    intro bytes h
    rw [Machine.history_snoc, collect_append, collect_singleton, List.mem_append] at h
    rcases h with h | h
    · exact ih bytes h
    · exact (step_spec setup _ i).wire_frame h

/-- The messages whose frames can be read fit. -/
theorem fits_of_frames {wire : List Bytes}
    (hwire : ∀ bytes ∈ wire, ∃ json : Bytes, json.length ≤ MAX_FRAME ∧ bytes = frameOf json)
    {ms : List LeaderClient} (hms : wire = ms.map (frameFor setup)) : ∀ m ∈ ms, Fits setup m := by
  intro m hm
  obtain ⟨json, hle, hjson⟩ := hwire (frameFor setup m) (hms ▸ List.mem_map_of_mem hm)
  rw [Fits, frameOf_inj hjson]
  exact hle

end HomeTask

/-! ## 5. The frame that is not written -/

namespace HomeTask

/-- `tail` is what has gone out of a frame that could not be written, after the frames `wire` and
with the messages `taken` taken from the queue: nothing while the task runs, and then at most the
beginning of the frame that is due. -/
structure Tail (task : HomeTask) (taken : List LeaderClient) (wire : List Bytes) (tail : Bytes) :
    Prop where
  clean : task.phase ≠ .ended → tail = []
  due : tail = [] ∨ ∃ g m ms, task.bound = some g ∧ Fits setup m ∧ tail <+: frameFor setup m ∧
    wire ++ [frameFor setup m] = (LeaderClient.registerFrame :: ms).map (frameFor setup) ∧
    spoken ms <+: spoken taken

theorem Step.of_ended {setup : Setup P} {task task' : HomeTask} {i : HomeInput P}
    {evs : List ConnEvent} {outs : List HomeOut} (hs : Step setup task i evs task' outs)
    (hphase : task.phase = .ended) : task'.phase = .ended ∧ outs = [] ∧ evs = [] := by
  cases hs with
  | ignored => exact ⟨hphase, rfl, rfl⟩
  | bind => exact ⟨hphase, rfl, rfl⟩
  | queue => exact ⟨hphase, rfl, rfl⟩
  | drop => exact ⟨hphase, rfl, rfl⟩
  | socket hconn =>
    simp only [Connected, hphase] at hconn
  | spawned h | refused h | accepted h | bound h | abandoned h | registered h | unregistered h
  | turn h | last h =>
    rw [hphase] at h
    cases h

theorem Step.bound_of_some {setup : Setup P} {task task' : HomeTask} {i : HomeInput P}
    {evs : List ConnEvent} {outs : List HomeOut} {g : HomeGen}
    (hs : Step setup task i evs task' outs) (hg : task.bound = some g) : task'.bound = some g := by
  cases hs with
  | bind =>
    change task.bound.or _ = some g
    rw [hg, Option.some_or]
  | _ => exact hg

/-- The writes that can fail. -/
theorem broken_cases {task : HomeTask} {ev : HomeEvent P} {m : LeaderClient}
    (hb : task.broken ev = some m) :
    (∃ g, task.phase = .registering g ∧ ev = .registered false ∧ m = .registerFrame) ∨
      (∃ g out, task.phase = .looping g ∧ ev = .recv false ∧ task.out = m :: out) ∨
      ∃ g, task.phase = .looping g ∧ ev = .tick false ∧ m = .ping := by
  unfold broken at hb
  split at hb
  · rename_i g hphase
    cases hb
    exact .inl ⟨g, hphase, rfl, rfl⟩
  · rename_i g hphase
    cases hout : task.out with
    | nil =>
      rw [hout] at hb
      cases hb
    | cons m' out =>
      rw [hout] at hb
      cases hb
      exact .inr (.inl ⟨g, out, hphase, rfl, rfl⟩)
  · rename_i g hphase
    cases hb
    exact .inr (.inr ⟨g, hphase, rfl, rfl⟩)
  · cases hb

/-- A write that fails ends the loop. -/
theorem turn_broken (gone : Bool) (task : HomeTask) (g : HomeGen) {ev : ConnEvent} {json : Bytes}
    (hev : task.conn.step ev = task.conn.write json false) :
    (turn gone task g ev).1.phase = .ended ∧
      (turn gone task g ev).2.filterMap HomeOut.wire = [] := by
  have hfails : task.conn.write json false
      = ({ task.conn with reading := .start, running := false }, [.homeEof]) := by
    unfold HomeConnection.write
    cases writeFrame json <;> rfl
  have hstep : HomeConnection.run.step task.conn ev = _ := hev.trans hfails
  rw [turn, hstep]
  exact ⟨rfl, rfl⟩

/-- A task whose write fails has ended; the frame is that of the message that was due. -/
theorem broken_step (task : HomeTask) {ev : HomeEvent P} {m : LeaderClient}
    (hb : task.broken ev = some m) (hrun : task.phase ≠ .ended → task.conn.running) (gone : Bool) :
    (task.move setup gone ev).1.phase = .ended ∧
      (task.move setup gone ev).2.filterMap HomeOut.wire = [] ∧
      ((∃ g, task.phase = .registering g) ∧ m = .registerFrame ∨
        (∃ g, task.phase = .looping g) ∧
          spoken [m] = spoken (task.taken setup (.move gone ev))) := by
  rcases broken_cases hb with ⟨g, hphase, rfl, hm⟩ | ⟨g, out, hphase, rfl, hout⟩ | ⟨g, hphase, rfl, hm⟩
  · have hmove : task.move setup gone (.registered false) = task.register setup g false := by
      unfold move
      rw [hphase]
    have hregister : task.register setup g false
        = ({ task with phase := .ended }, [.unregistered g]) := by
      unfold register
      rw [writeFrame_of_valid (registerFrame_le setup.floatText)]
      simp
    rw [hmove, hregister]
    exact ⟨rfl, rfl, .inl ⟨⟨g, hphase⟩, hm⟩⟩
  · have hstep : task.conn.step (.recv (some (m.toVec setup.floatText)) false)
        = task.conn.write (m.toVec setup.floatText) false := by
      simp [HomeConnection.step, hrun (by simp [hphase])]
    have hturn := turn_broken gone { task with out } g hstep
    have hmove : task.move setup gone (.recv false)
        = turn gone { task with out } g (.recv (some (m.toVec setup.floatText)) false) := by
      unfold move
      rw [hphase, hout]
    rw [hmove]
    exact ⟨hturn.1, hturn.2, .inr ⟨⟨g, hphase⟩, by simp [taken, loopEvents, hphase, hout]⟩⟩
  · subst hm
    have hstep : task.conn.step (.tick false) = task.conn.write pingJson false := by
      simp [HomeConnection.step, hrun (by simp [hphase])]
    have hturn := turn_broken gone task g hstep
    have hmove : task.move setup gone (.tick false) = turn gone task g (.tick false) := by
      unfold move
      rw [hphase]
    rw [hmove]
    exact ⟨hturn.1, hturn.2, .inr ⟨⟨g, hphase⟩, by simp [taken, loopEvents, hphase, spoken]⟩⟩

/-- A step of the task, and `part` bytes of the frame that cannot be written in it. -/
theorem Tail.step {task : HomeTask} {ms : List LeaderClient} {wire fs : List Bytes}
    {posts : List ToHub} {tail : Bytes} (ht : Tail setup task ms wire tail)
    (hk : WireKept setup task ms wire) (hr : Reported setup task fs posts) (i : HomeInput P)
    (part : Nat) :
    Tail setup ((run setup).step task i).1 (ms ++ task.taken setup i)
        (wire ++ ((run setup).step task i).2.filterMap HomeOut.wire)
        (tail ++ task.scrap setup part i) ∧
      (tail = [] ∨ ((run setup).step task i).2.filterMap HomeOut.wire = []) := by
  have hs := task.step_spec setup i
  by_cases hend : task.phase = .ended
  · obtain ⟨hphase, hout, hevs⟩ := hs.of_ended hend
    have hscrap : task.scrap setup part i = [] := by
      cases i with
      | move gone ev => cases ev <;> simp [scrap, broken, hend]
      | _ => rfl
    have htaken : task.taken setup i = [] := by rw [taken, hevs]
    rw [hout, hscrap, htaken, List.append_nil, List.append_nil, List.filterMap_nil, List.append_nil]
    refine ⟨⟨fun hlive => absurd hphase hlive, ?_⟩, .inr rfl⟩
    obtain hnil | ⟨g, m, ms', hg, hdue⟩ := ht.due
    · exact .inl hnil
    · exact .inr ⟨g, m, ms', hs.bound_of_some hg, hdue⟩
  · obtain rfl := ht.clean hend
    refine ⟨?_, .inl rfl⟩
    rw [List.nil_append]
    by_cases hscrap : task.scrap setup part i = []
    · rw [hscrap]
      exact ⟨fun _ => rfl, .inl rfl⟩
    cases i with
    | move gone ev =>
      cases hb : task.broken ev with
      | none => exact absurd (by simp [scrap, hb]) hscrap
      | some m =>
        by_cases hfit : Fits setup m
        · have hbytes : task.scrap setup part (.move gone ev) = (frameFor setup m).take part := by
            simp only [scrap, hb, Option.bind_some, writeFrame_of_valid hfit, Option.getD_some]
            rfl
          obtain ⟨hphase, hwire, hcase⟩ := broken_step setup task hb hk.running gone
          obtain ⟨-, sent, rfl, hwrote⟩ := hk
          unfold Wrote at hwrote
          unfold Reported at hr
          change Tail setup (task.move setup gone ev).1 _
            (_ ++ (task.move setup gone ev).2.filterMap HomeOut.wire) _
          rw [hbytes, hwire, List.append_nil]
          refine ⟨fun hlive => absurd hphase hlive, .inr ?_⟩
          have hbound : ∀ g, task.bound = some g → (task.move setup gone ev).1.bound = some g :=
            fun g hg => hs.bound_of_some hg
          obtain ⟨⟨g, hregistering⟩, rfl⟩ | ⟨⟨g, hlooping⟩, hspoken⟩ := hcase
          · rw [hregistering] at hwrote hr
            obtain ⟨rfl, rfl⟩ := hwrote
            exact ⟨g, _, [], hbound g hr.1, hfit, List.take_prefix _ _, rfl, List.nil_prefix⟩
          · rw [hlooping] at hwrote hr
            obtain ⟨sent', rfl, hsame⟩ := hwrote
            refine ⟨g, m, sent' ++ [m], hbound g hr.1, hfit, List.take_prefix _ _, ?_, ?_⟩
            · simp
            · rw [spoken_append, spoken_append, hsame, hspoken]
        · exact absurd (by simp [scrap, hb, writeFrame, not_le.mp hfit]) hscrap
    | _ => exact absurd rfl hscrap

/-- The tail after a run of the task. -/
def TailAt (is : List (HomeInput P)) (tail : Bytes) : Prop :=
  Tail setup ((run setup).final is) ((mailbox setup).taken ((run setup).history is))
    (collect HomeOut.wire ((run setup).history is)) tail

theorem TailAt.snoc {is : List (HomeInput P)} {tail : Bytes} (ht : TailAt setup is tail)
    (i : HomeInput P) (part : Nat) :
    TailAt setup (is ++ [i]) (tail ++ ((run setup).final is).scrap setup part i) ∧
      (tail = [] ∨ ((run setup).step ((run setup).final is) i).2.filterMap HomeOut.wire = []) := by
  rw [TailAt, Machine.final_snoc, Machine.history_snoc, Mailbox.taken_append,
    Mailbox.taken_singleton, collect_append, collect_singleton]
  exact Tail.step setup ht (wire_kept setup is) (reported setup is) i part

/-- What others do to the task changes nothing of it. -/
theorem TailAt.append {is : List (HomeInput P)} {tail : Bytes} (ht : TailAt setup is tail)
    {js : List (HomeInput P)} (hjs : ∀ j ∈ js, ∀ gone ev, j ≠ .move gone ev) :
    TailAt setup (is ++ js) tail := by
  induction js using List.reverseRecOn with
  | nil => rwa [List.append_nil]
  | append_singleton js j ih =>
    have hbefore := ih fun i hi => hjs i (List.mem_append_left _ hi)
    have hafter := (TailAt.snoc setup hbefore j 0).1
    have hscrap : ((run setup).final (is ++ js)).scrap setup 0 j = [] := by
      cases j with
      | move gone ev => exact absurd rfl (hjs _ List.mem_concat_self gone ev)
      | _ => rfl
    rw [hscrap, List.append_nil, List.append_assoc] at hafter
    exact hafter

end HomeTask

theorem writtenHome_eq (evs : List (ServeEvent P)) (k : Nat) :
    writtenHome setup evs k
      = collect HomeOut.wire ((HomeTask.run setup).history (taskInputs setup evs k)) :=
  (Serve.homeTask setup k).collect_bind HomeOut.wire evs

theorem writtenHome_snoc (evs : List (ServeEvent P)) (ev : ServeEvent P) (k : Nat) :
    writtenHome setup (evs ++ [ev]) k = writtenHome setup evs k ++
      ((Serve.run setup).step ((Serve.run setup).final evs) ev).2.filterMap (ServeOut.wireOf k) := by
  rw [writtenHome, Machine.history_snoc, collect_append, collect_singleton]
  rfl

/-- What an event writes on the connection `k` is what the task writes. -/
theorem Serve.wireOf_step (s : Serve) (ev : ServeEvent P) (k : Nat) :
    ((Serve.run setup).step s ev).2.filterMap (ServeOut.wireOf k)
      = collect HomeOut.wire ((HomeTask.run setup).historyFrom (s.homes k) (s.homeTakes k ev)) := by
  have hgives := congrArg (List.filterMap HomeOut.wire) ((Serve.homeTask setup k).gives_step s ev)
  rw [List.filterMap_filterMap] at hgives
  exact hgives

namespace Tunnel

variable (k : Nat)

theorem serveTakes_cases (s : Tunnel) (ev : TunnelEvent P) :
    s.serveTakes k ev = [] ∨ ∃ ev', s.serveTakes k ev = [ev'] := by
  cases ev with
  | arrive n =>
    simp only [serveTakes]
    split
    · exact .inr ⟨_, rfl⟩
    · exact .inl rfl
  | serve ev' part =>
    simp only [serveTakes]
    split
    · exact .inl rfl
    · exact .inr ⟨_, rfl⟩
  | _ => exact .inl rfl

/-- **What goes to snorkel** is the frames that are written, and at the end perhaps a part of the
one that is due. -/
theorem put_snorkelPipe (evs : List (TunnelEvent P)) :
    ∃ tail, (snorkelPipe setup k).put ((run setup k).history evs)
        = (writtenHome setup (serveEvents setup k evs) k).flatten ++ tail ∧
      HomeTask.TailAt setup (taskInputs setup (serveEvents setup k evs) k) tail := by
  induction evs using List.reverseRecOn with
  | nil => exact ⟨[], rfl, fun _ => rfl, .inl rfl⟩
  | append_singleton evs ev ih =>
    obtain ⟨tail, hput, htail⟩ := ih
    have hserve := serve_final setup k evs
    rw [Machine.history_snoc, Mailbox.put_append, Mailbox.put_singleton, hput, serveEvents_snoc]
    change ∃ tail', _ ++ (((run setup k).final evs).serveTakes k ev).flatMap
      (fun ev' => ((run setup k).final evs).sent setup k ev' (part ev)) = _ ∧ _
    generalize (run setup k).final evs = s at hserve ⊢
    obtain hnone | ⟨ev', hone⟩ := s.serveTakes_cases k ev
    · rw [hnone, List.append_nil]
      exact ⟨tail, List.append_nil _, htail⟩
    rw [hone, List.flatMap_singleton, taskInputs_snoc, writtenHome_snoc, ← hserve, sent,
      List.flatten_append]
    have htask : s.serve.homes k
        = (HomeTask.run setup).final (taskInputs setup (serveEvents setup k evs) k) := by
      rw [hserve, task_final]
    have hwire := s.serve.wireOf_step setup ev' k
    obtain ⟨ev'', rfl, htakes⟩ | hpassive := s.serve.homeTakes_cases ev' k
    · rw [htakes] at hwire ⊢
      rw [hwire, List.flatMap_singleton, htask]
      obtain ⟨hsnoc, hor⟩ :=
        HomeTask.TailAt.snoc setup htail (.move s.serve.loop.stopped ev'') (part ev)
      refine ⟨_, ?_, hsnoc⟩
      rw [Machine.historyFrom, Machine.historyFrom, collect_singleton]
      obtain rfl | hsilent := hor
      · simp
      · rw [hsilent]
        simp
    · have hsilent : collect HomeOut.wire ((HomeTask.run setup).historyFrom (s.serve.homes k)
          (s.serve.homeTakes k ev')) = [] := by
        rw [collect, Machine.silent _ fun i hi task => ?_, List.filterMap_nil]
        cases i with
        | move gone ev'' => exact absurd rfl (hpassive _ hi gone ev'')
        | _ => rfl
      have hscrap : (s.serve.homeTakes k ev').flatMap ((s.serve.homes k).scrap setup (part ev))
          = [] := by
        refine List.flatMap_eq_nil_iff.mpr fun i hi => ?_
        cases i with
        | move gone ev'' => exact absurd rfl (hpassive _ hi gone ev'')
        | _ => rfl
      rw [hwire, hsilent, hscrap]
      exact ⟨tail, by simp, HomeTask.TailAt.append setup htail hpassive⟩

/-! ## 6. From the hub to the leader -/

/-- What the leader has been given by the session. -/
def given (evs : List (TunnelEvent P)) : Bytes :=
  reached .localSide (Session.run.history ((sessionAt setup k).inputs ((run setup k).history evs)))

def jsons (ms : List LeaderClient) : List Bytes := ms.map (LeaderClient.toVec setup.floatText)

theorem flatten_frames (ms : List LeaderClient) :
    (ms.map (HomeTask.frameFor setup)).flatten = framing.stream (jsons setup ms) := by
  rw [jsons, Framing.stream, List.flatMap_map, ← List.flatMap_def]
  rfl

/-- What comes to the leader of what the hub has said. -/
structure HubHeard (evs : List (TunnelEvent P)) : Prop where
  /-- The leader is given the beginning of a stream of frames: of the registration, and then, with
  pings in between, of what the hub has said on the link.  It reads the first of them, each whole,
  however it is cut. -/
  in_order : ∃ ms, (∀ m ∈ ms, HomeTask.Fits setup m) ∧
    given setup k evs <+: framing.stream (jsons setup ms) ∧
    (ms = [] ∨ ∃ g ms', (((run setup k).final evs).serve.homes k).bound = some g ∧
      ms = .registerFrame :: ms' ∧ HomeTask.spoken ms' <+:
        (queued g (Hub.run.history (hubTurns setup (serveEvents setup k evs)))).map .acp) ∧
    ∀ pieces : List Bytes, pieces.flatten = given setup k evs → ∃ n, n ≤ ms.length ∧
      reads (n + 1) pieces = ((jsons setup ms).take n).map .ok ++ [.error .io]
  /-- While the loop of the task runs, what is missing waits in the queue of the task, or is on the
  way to snorkel, or is held by the writer of the session or still to be accepted by it. -/
  lossless : ∀ g, (((run setup k).final evs).serve.homes k).phase = .looping g → ∃ ms,
    given setup k evs ++ ((run setup k).final evs).session.down.held ++
        ((run setup k).final evs).session.down.phase.rest ++ ((run setup k).final evs).toSnorkel
      = framing.stream (jsons setup (.registerFrame :: ms)) ∧
    HomeTask.spoken ms ++ HomeTask.spoken (((run setup k).final evs).serve.homes k).out
      = (queued g (Hub.run.history (hubTurns setup (serveEvents setup k evs)))).map .acp

/-- **What the hub says is heard by the leader**, however its bytes are cut on the way and whatever
else happens: whole and in order, with nothing in between but pings.

What waits in the queue of the task includes the message that it is writing, as in `sockets_told`.
Of a frame whose write fails a part may have gone out, and the leader may have been given it: it is
the last thing that it is given, and it does not read it. -/
theorem hub_heard (evs : List (TunnelEvent P)) : HubHeard setup k evs := by
  have haccount := down_account setup k evs
  obtain ⟨tail, hput, htail⟩ := put_snorkelPipe setup k evs
  rw [hput] at haccount
  have hgiven : given setup k evs
      <+: (writtenHome setup (serveEvents setup k evs) k).flatten ++ tail := by
    rw [← haccount]
    simp only [List.append_assoc]
    exact List.prefix_append _ _
  have hwritten := writtenHome_eq setup (serveEvents setup k evs) k
  have hstate : ((run setup k).final evs).serve.homes k
      = (HomeTask.run setup).final (taskInputs setup (serveEvents setup k evs) k) := by
    rw [serve_final, task_final]
  have htaken := fun g => spoken_taken setup (serveEvents setup k evs) k (g := g)
  rw [← serve_final] at htaken
  constructor
  case in_order =>
    -- The messages: those that have been written, and the one of which a part is.
    obtain ⟨ms, hfits, hpart, hms⟩ : ∃ ms, (∀ m ∈ ms, HomeTask.Fits setup m) ∧
        given setup k evs <+: framing.stream (jsons setup ms) ∧
        (ms = [] ∨ ∃ g ms', (((run setup k).final evs).serve.homes k).bound = some g ∧
          ms = .registerFrame :: ms' ∧ HomeTask.spoken ms' <+:
            (queued g (Hub.run.history (hubTurns setup (serveEvents setup k evs)))).map .acp) := by
      obtain rfl | ⟨g, m, ms, hg, hfit, hscrap, hall, hspoken⟩ := htail.due
      · rw [List.append_nil] at hgiven
        obtain ⟨hnone, hsome⟩ := LeaderTold.final setup (serveEvents setup k evs) k
        rw [← serve_final] at hnone hsome
        cases hg : (((run setup k).final evs).serve.homes k).bound with
        | none =>
          rw [hnone hg] at hgiven
          exact ⟨[], nofun, hgiven, .inl rfl⟩
        | some g =>
          obtain hnil | ⟨ms, hms, hspoken⟩ := (hsome g hg).order
          · rw [hnil] at hgiven
            exact ⟨[], nofun, hgiven, .inl rfl⟩
          · refine ⟨_, HomeTask.fits_of_frames setup (HomeTask.wire_frames setup _)
              (hwritten.symm.trans hms), ?_, .inr ⟨g, ms, rfl, rfl, hspoken⟩⟩
            rw [← flatten_frames, ← hms]
            exact hgiven
      · rw [← hstate] at hg
        refine ⟨_, HomeTask.fits_of_frames setup ?_ hall, ?_, .inr ⟨g, ms, hg, rfl, ?_⟩⟩
        · intro bytes hbytes
          rcases List.mem_append.mp hbytes with hbytes | hbytes
          · exact HomeTask.wire_frames setup _ bytes hbytes
          · exact ⟨_, hfit, List.mem_singleton.mp hbytes⟩
        · rw [← flatten_frames, ← hall, List.flatten_append, ← hwritten, List.flatten_singleton]
          exact hgiven.trans ((List.prefix_append_right_inj _).mpr hscrap)
        · exact htaken g hg ▸ hspoken.trans (List.prefix_append _ _)
    refine ⟨ms, hfits, hpart, hms, fun pieces hpieces => ?_⟩
    have hvalid : ∀ json ∈ jsons setup ms, json.length ≤ MAX_FRAME := by
      intro json hjson
      obtain ⟨m, hm, rfl⟩ := List.mem_map.mp hjson
      exact hfits m hm
    obtain ⟨n, hle, hreads, -⟩ := reads_of_prefix hvalid (hpieces ▸ hpart)
    exact ⟨n, by simpa [jsons] using hle, hreads⟩
  case lossless =>
    intro g hphase
    have htold := told_home setup (serveEvents setup k evs) k
    rw [← serve_final, HomeTask.Reported, hphase] at htold
    have hleader := (LeaderTold.final setup (serveEvents setup k evs) k).2 g
    rw [← serve_final] at hleader
    have hlossless := (hleader htold.1).lossless
    rw [← serve_final] at hlossless
    obtain ⟨ms, hspoken, ⟨-, hms⟩ | ⟨hnot, -, -⟩⟩ := hlossless (by simp [hphase])
    case inr => exact absurd hphase hnot
    rw [htail.clean (by rw [← hstate, hphase]; simp), List.append_nil, hms, flatten_frames]
      at haccount
    exact ⟨ms, haccount, hspoken⟩

end Tunnel

end Aqualung
