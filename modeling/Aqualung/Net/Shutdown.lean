/-
# The shutdown of topside

A signal sets a flag; `serve` sees it, stops both accept loops, and sends the hub a last message,
which ends its loop when it comes to it in the queue.  The hub drops its links and its phones with
that, and this is what ends the tasks of the connections: a link that is dropped is halted, and a
phone's queue is closed.

`shuts_down` says that nothing else ends the hub, that it ends when it has read what was in the
queue, and that then every task ends that moves, whatever the peers do.  There are three steps:

* the flags and the last message belong together (`FlagsKept`), and the message is where the
  mailbox says it is, so as many reads as there were letters bring the hub to it
  (`stopped_of_told`);
* an ended hub has halted every link and dropped every phone (`halted_of_stopped`,
  `dropped_of_stopped`), so no task waits for it in vain: the state is `Over`;
* from then on every move that a task waits for takes it on, and no other takes it back
  (`movesLeft_lt`, `movesLeft_le`; for a phone also the texts that are left in its queue).  With
  `Machine.progress` the moves may come at any time, with anything in between.

The moves that are counted are bodies of branches made to their end.  A task whose peer has stopped
reading in the middle of a write does not poll `halt_rx`, so it has not made the move; the source
leaves it to the transport to end such a write.
-/
import Aqualung.Net.LinkRegister
import Aqualung.Net.PhoneRegister

namespace Aqualung

open Lib

variable {P : Type*} {setup : Setup P}

/-! ## 1. What ends the hub -/

theorem HomeOut.toHub_ne_shutdown (fromSlice : Bytes → Option LeaderServer) (o : HomeOut) :
    o.toHub fromSlice ≠ some .shutdown := by
  cases o with
  | conn g o => cases o <;> simp [toHub, ConnOut.toHub]
  | _ => simp [toHub]

theorem PhoneOut.toHub_ne_shutdown (o : PhoneOut) : o.toHub ≠ some .shutdown := by
  cases o <;> simp

/-- The shutdown in `rx` is that of `serve`, and it is there when `serve` has seen the flag. -/
structure FlagsKept (s : Serve) : Prop where
  stopped : s.loop.stopped = true → s.waiting = false
  letters : ∀ letter ∈ s.rx, letter.msg = .shutdown → letter.sender = .serve ∧ s.waiting = false
  closed : s.waiting = false → s.snorkelAccept = false ∧ s.phoneAccept = false ∧ s.shutdown = true
  told : s.waiting = false → s.loop.stopped = true ∨ ⟨.serve, .shutdown⟩ ∈ s.rx

theorem Serve.stopped_turn {s : Serve} {ev : ServeEvent P} {w : Serve.Wake}
    (hw : s.wake ev = some w) :
    (s.turn setup w).1.loop.stopped = true ↔ w.turn.input = .recv .shutdown := by
  obtain ⟨hrun, hread⟩ := Serve.wake_spec hw
  change (Loop.turn s.loop w.turn).1.stopped = true ↔ _
  by_cases hstops : w.turn.Stops
  · rw [Loop.turn_stops hrun hstops]
    rcases hstops with hclosed | hshutdown
    · rcases hread with ⟨letter, -, -, hin⟩ | ⟨-, -, hin⟩
      · rw [hin] at hclosed
        cases hclosed
      · rw [hin] at hclosed
        cases hclosed
    · simp [hshutdown]
  · obtain ⟨h', out, heq, -⟩ := Loop.turn_step hrun hstops
    rw [heq]
    constructor
    · intro h
      cases h
    · intro h
      exact absurd (.inr h) hstops

/-- What a task sends adds no shutdown. -/
theorem FlagsKept.post {s s' : Serve} (hk : FlagsKept s) (sender : Sender) {msgs : List ToHub}
    (hmsgs : .shutdown ∉ msgs) (hloop : s'.loop = s.loop) (hwaiting : s'.waiting = s.waiting)
    (hclosed : s'.snorkelAccept = s.snorkelAccept ∧ s'.phoneAccept = s.phoneAccept ∧
      s'.shutdown = s.shutdown) (hrx : s'.rx = s.post sender msgs) : FlagsKept s' where
  stopped h := by
    rw [hloop] at h
    rw [hwaiting]
    exact hk.stopped h
  letters letter hletter hmsg := by
    rw [hrx] at hletter
    rw [hwaiting]
    rcases Serve.mem_post hletter with hletter | ⟨-, hnew⟩
    · exact hk.letters letter hletter hmsg
    · exact absurd (hmsg ▸ hnew) hmsgs
  closed h := by
    rw [hwaiting] at h
    rw [hclosed.1, hclosed.2.1, hclosed.2.2]
    exact hk.closed h
  told h := by
    rw [hwaiting] at h
    rw [hloop, hrx]
    exact (hk.told h).imp_right Serve.mem_post_of_mem

theorem FlagsKept.turn {s : Serve} (hk : FlagsKept s) {ev : ServeEvent P} {w : Serve.Wake}
    (hw : s.wake ev = some w) : FlagsKept (s.turn setup w).1 := by
  obtain ⟨hrun, hread⟩ := Serve.wake_spec hw
  have hrx : ∀ letter ∈ w.rx, letter ∈ s.rx := by
    rcases hread with ⟨letter, hrx, -, -⟩ | ⟨hrx, -, -⟩
    · exact fun letter' h => hrx ▸ List.mem_cons_of_mem _ h
    · exact fun letter h => hrx ▸ h
  refine ⟨fun hstop => ?stopped, fun letter h => hk.letters letter (hrx letter h), hk.closed,
    fun hwaiting => ?told⟩
  case stopped =>
    have hin := (Serve.stopped_turn hw).mp hstop
    rcases hread with ⟨letter, hqueue, -, hmsg⟩ | ⟨-, -, hdeadline⟩
    · rw [hin] at hmsg
      have hmem : letter ∈ s.rx := hqueue ▸ List.mem_cons_self
      exact (hk.letters letter hmem (Input.recv.inj hmsg).symm).2
    · rw [hin] at hdeadline
      cases hdeadline
  case told =>
    rcases hk.told hwaiting with hstop | htold
    · rw [hrun] at hstop
      cases hstop
    · rcases hread with ⟨letter, hqueue, -, hmsg⟩ | ⟨hqueue, -, -⟩
      · rw [hqueue] at htold
        rcases List.mem_cons.mp htold with rfl | htold
        · exact .inl ((Serve.stopped_turn hw).mpr hmsg)
        · exact .inr htold
      · exact .inr (show _ ∈ w.rx from hqueue ▸ htold)

theorem FlagsKept.step {s : Serve} (hk : FlagsKept s) (ev : ServeEvent P) :
    FlagsKept ((Serve.run setup).step s ev).1 := by
  change FlagsKept (Serve.step setup s ev).1
  have hsilent : ∀ {s' : Serve}, s'.loop = s.loop → s'.waiting = s.waiting →
      (s'.snorkelAccept = s.snorkelAccept ∧ s'.phoneAccept = s.phoneAccept ∧
        s'.shutdown = s.shutdown) → s'.rx = s.rx → FlagsKept s' := by
    intro s' hloop hwaiting hclosed hrx
    refine hk.post .serve List.not_mem_nil hloop hwaiting hclosed ?_
    simp [hrx, Serve.post]
  cases ev with
  | dialHome k =>
    simp only [Serve.step]
    split
    · exact hsilent rfl rfl ⟨rfl, rfl, rfl⟩ rfl
    · exact hk
  | dialPhone k =>
    simp only [Serve.step]
    split
    · exact hsilent rfl rfl ⟨rfl, rfl, rfl⟩ rfl
    · exact hk
  | home k ev =>
    refine hk.post (.home k) (fun hmem => ?_) rfl rfl ⟨rfl, rfl, rfl⟩ rfl
    obtain ⟨o, -, ho⟩ := List.mem_filterMap.mp hmem
    exact o.toHub_ne_shutdown _ ho
  | phone k ev =>
    refine hk.post (.phone k) (fun hmem => ?_) rfl rfl ⟨rfl, rfl, rfl⟩ rfl
    obtain ⟨o, -, ho⟩ := List.mem_filterMap.mp hmem
    exact o.toHub_ne_shutdown ho
  | recv now order =>
    simp only [Serve.step]
    split
    · rename_i w hw
      exact hk.turn hw
    · exact hk
  | deadline now order =>
    simp only [Serve.step]
    split
    · rename_i w hw
      exact hk.turn hw
    · exact hk
  | signal =>
    refine ⟨hk.stopped, hk.letters, fun h => ?_, hk.told⟩
    obtain ⟨hsnorkel, hphone, -⟩ := hk.closed h
    exact ⟨hsnorkel, hphone, rfl⟩
  | snorkelEnds =>
    simp only [Serve.step]
    split
    · refine ⟨hk.stopped, hk.letters, fun h => ?_, hk.told⟩
      obtain ⟨-, hphone, hset⟩ := hk.closed h
      exact ⟨rfl, hphone, hset⟩
    · exact hk
  | phoneEnds =>
    simp only [Serve.step]
    split
    · refine ⟨hk.stopped, hk.letters, fun h => ?_, hk.told⟩
      obtain ⟨hsnorkel, -, hset⟩ := hk.closed h
      exact ⟨hsnorkel, rfl, hset⟩
    · exact hk
  | serveEnds =>
    simp only [Serve.step]
    split
    · rename_i hset
      refine ⟨fun _ => rfl, fun letter hletter hmsg => ⟨?_, rfl⟩, fun _ => ⟨rfl, rfl, hset.1⟩,
        fun _ => ?_⟩
      · rcases Serve.mem_post hletter with hletter | ⟨hsender, -⟩
        · exact (hk.letters letter hletter hmsg).1
        · exact hsender
      · unfold Serve.post
        split
        · exact .inl (by assumption)
        · exact .inr (List.mem_append_right _ (List.mem_singleton_self _))
    · exact hk

theorem FlagsKept.final (setup : Setup P) (evs : List (ServeEvent P)) :
    FlagsKept ((Serve.run setup).final evs) := by
  refine (Serve.run setup).run_induction (P := fun _ s => FlagsKept s) ?_
    (fun evs ev ih => ih.step ev) evs
  exact
    { stopped := fun h => by cases h
      letters := fun _ h => absurd h List.not_mem_nil
      closed := fun h => by cases h
      told := fun h => by cases h }

/-- The flag is set by the signal and by nothing else. -/
theorem signal_of_shutdown (setup : Setup P) (evs : List (ServeEvent P))
    (hset : ((Serve.run setup).final evs).shutdown = true) : .signal ∈ evs := by
  induction evs using List.reverseRecOn with
  | nil => cases hset
  | append_singleton evs ev ih =>
    rw [Machine.final_snoc] at hset
    generalize (Serve.run setup).final evs = s at ih hset
    have hkeep : (Serve.step setup s ev).1.shutdown = true → ev = .signal ∨ s.shutdown = true := by
      cases ev with
      | signal => exact fun _ => .inl rfl
      | home k ev => exact .inr
      | phone k ev => exact .inr
      | _ =>
        simp only [Serve.step]
        split <;> exact .inr
    rcases hkeep hset with rfl | hset
    · exact List.mem_append_right _ (List.mem_singleton_self _)
    · exact List.mem_append_left _ (ih hset)

/-! ## 2. The hub ends when it has read what was in the queue -/

/-- The branch of `rx.recv()` wins. -/
def ServeEvent.isRecv : ServeEvent P → Bool
  | .recv _ _ => true
  | _ => false

/-- **The hub serves `rx`**, until it ends. -/
def Serve.reader (setup : Setup P) : Server (run setup) Letter where
  toMailbox := mailbox setup
  Live s := s.loop.stopped = false
  Ended s := s.loop.stopped = true
  serves := ServeEvent.isRecv
  live_step s ev _ := by cases ((run setup).step s ev).1.loop.stopped <;> simp
  ended_step s ev hstop := stopped_step setup ev hstop
  serves_takes s ev hrun hrecv hne := by
    change s.rx ≠ [] at hne
    change s.reads ev ≠ []
    cases ev with
    | recv now order => simpa [reads, hrun] using hne
    | _ => cases hrecv

/-- What is in `rx` is read, if the hub does not end before. -/
theorem Serve.rx_read {s : Serve} {evs : List (ServeEvent P)}
    (hrun : ((run setup).finalFrom s evs).loop.stopped = false)
    (hcount : s.rx.length ≤ evs.countP ServeEvent.isRecv) :
    s.rx <+: (mailbox setup).taken ((run setup).historyFrom s evs) := by
  have hend : ¬ (reader setup).Ended ((run setup).finalFrom s evs) := (Bool.not_eq_true _).mpr hrun
  exact (reader setup).served ((Bool.not_eq_true _).mp ((reader setup).not_ended hend)) hend hcount

/-- A shutdown that is read is the last message that is. -/
theorem Serve.stopped_of_reads (setup : Setup P) {s : Serve} {ev : ServeEvent P} {sender : Sender}
    (h : ⟨sender, .shutdown⟩ ∈ s.reads ev) :
    ((run setup).step s ev).1.loop.stopped = true := by
  cases ev with
  | recv now order =>
    cases hstop : s.loop.stopped with
    | true => simp [reads, hstop] at h
    | false =>
      cases hrx : s.rx with
      | nil => simp [reads, hstop, hrx] at h
      | cons letter rx =>
        obtain rfl : (⟨sender, .shutdown⟩ : Letter) = letter := by
          simpa [reads, hstop, hrx] using h
        let w : Wake := ⟨{ input := .recv .shutdown, now, order }, sender, rx⟩
        have hw : s.wake (.recv now order : ServeEvent P) = some w := by
          simp [wake, hstop, hrx, w]
        have hstep : (run setup).step s (.recv now order) = s.turn setup w := by
          change s.step setup (.recv now order) = _
          simp only [step, hw]
        rw [hstep]
        exact (stopped_turn hw).mpr rfl
  | _ => cases h

/-- **The hub ends** when it has read what was in `rx` when it was told to, whatever is sent in the
meantime. -/
theorem stopped_of_told {s : Serve} {evs : List (ServeEvent P)} {sender : Sender}
    (htold : ⟨sender, .shutdown⟩ ∈ s.rx) (hcount : s.rx.length ≤ evs.countP ServeEvent.isRecv) :
    ((Serve.run setup).finalFrom s evs).loop.stopped = true := by
  by_contra hrun
  rw [Bool.not_eq_true] at hrun
  have hread := (Serve.rx_read hrun hcount).subset htold
  obtain ⟨e, he, hletter⟩ := List.mem_flatMap.mp hread
  obtain ⟨pre, post, hsplit⟩ := List.append_of_mem he
  obtain ⟨js, ev, ks, rfl, -, rfl⟩ := (Serve.run setup).historyFrom_eq_append hsplit
  rw [Machine.finalFrom_append] at hrun
  have hstop : ((Serve.run setup).finalFrom _ ks).loop.stopped = true :=
    (Serve.reader setup).ended_final (Serve.stopped_of_reads setup hletter) ks
  change ((Serve.run setup).finalFrom _ ks).loop.stopped = false at hrun
  rw [hstop] at hrun
  cases hrun

/-! ## 3. No connection is accepted any more -/

theorem HomeTask.move_idle (setup : Setup P) {task : HomeTask} (hphase : task.phase = .idle)
    (gone : Bool) (ev : HomeEvent P) : ((run setup).step task (.move gone ev)).1.phase = .idle := by
  have hs := task.step_spec setup (.move gone ev)
  generalize (run setup).step task (.move gone ev) = next at hs ⊢
  generalize task.loopEvents setup (.move gone ev) = evs at hs
  obtain ⟨task', out⟩ := next
  cases hs with
  | ignored => exact hphase
  | socket => exact hphase
  | accepted hphase' => cases hphase.symm.trans hphase'
  | refused hphase' => cases hphase.symm.trans hphase'
  | bound hphase' => cases hphase.symm.trans hphase'
  | abandoned hphase' => cases hphase.symm.trans hphase'
  | registered hphase' => cases hphase.symm.trans hphase'
  | unregistered hphase' => cases hphase.symm.trans hphase'
  | turn hphase' => cases hphase.symm.trans hphase'
  | last hphase' => cases hphase.symm.trans hphase'

theorem PhoneTask.move_idle (setup : Setup P) {task : PhoneTask} (hphase : task.phase = .idle)
    (gone : Bool) (ev : PhoneEvent) : ((run setup).step task (.move gone ev)).1.phase = .idle := by
  change (task.move setup gone ev).1.phase = .idle
  unfold move
  cases ev <;> simp [hphase]

/-- When `serve` has seen the flag, it waits no more, and no connection is accepted. -/
theorem FlagsKept.idle_step (setup : Setup P) {s : Serve} (hk : FlagsKept s)
    (hwaiting : s.waiting = false) (ev : ServeEvent P) :
    ((Serve.run setup).step s ev).1.waiting = false ∧
      (∀ k, (s.homes k).phase = .idle →
        (((Serve.run setup).step s ev).1.homes k).phase = .idle) ∧
      ∀ k, (s.phones k).phase = .idle →
        (((Serve.run setup).step s ev).1.phones k).phase = .idle := by
  obtain ⟨hsnorkel, hphone, -⟩ := hk.closed hwaiting
  refine ⟨?_, ?_⟩
  · change (Serve.step setup s ev).1.waiting = false
    cases ev with
    | home k ev => exact hwaiting
    | phone k ev => exact hwaiting
    | signal => exact hwaiting
    | serveEnds =>
      simp only [Serve.step]
      split
      · rfl
      · exact hwaiting
    | _ =>
      simp only [Serve.step]
      split <;> exact hwaiting
  · have hs := s.step_spec setup ev
    generalize (Serve.run setup).step s ev = next at hs ⊢
    obtain ⟨s', out⟩ := next
    cases hs with
    | dialHome hacc =>
      rw [hsnorkel] at hacc
      cases hacc
    | dialPhone hacc =>
      rw [hphone] at hacc
      cases hacc
    | turn hw =>
      refine ⟨fun k hidle => ?_, fun k hidle => ?_⟩
      · exact (congrArg HomeTask.phase (s.homes_turn _ k)).trans hidle
      · exact (Serve.phones_turn s _ k).1.trans hidle
    | @home k' move task out hmove =>
      refine ⟨fun k hidle => ?_, fun _ => id⟩
      by_cases hne : k = k'
      · subst hne
        have hstay := HomeTask.move_idle setup hidle s.loop.stopped move
        rw [hmove] at hstay
        simpa only [Function.update_self] using hstay
      · simpa only [Function.update_of_ne hne] using hidle
    | @phone k' move task out hmove =>
      refine ⟨fun _ => id, fun k hidle => ?_⟩
      by_cases hne : k = k'
      · subst hne
        have hstay := PhoneTask.move_idle setup hidle s.loop.stopped move
        rw [hmove] at hstay
        simpa only [Function.update_self] using hstay
      · simpa only [Function.update_of_ne hne] using hidle
    | _ => exact ⟨fun _ => id, fun _ => id⟩

/-- What is not there when the accept loops have ended will not be there. -/
theorem idle_of_closed (setup : Setup P) {evs : List (ServeEvent P)}
    (hwaiting : ((Serve.run setup).final evs).waiting = false) (evs' : List (ServeEvent P)) :
    ((Serve.run setup).final (evs ++ evs')).waiting = false ∧
      ∀ k, ((((Serve.run setup).final evs).homes k).phase = .idle →
          (((Serve.run setup).final (evs ++ evs')).homes k).phase = .idle) ∧
        ((((Serve.run setup).final evs).phones k).phase = .idle →
          (((Serve.run setup).final (evs ++ evs')).phones k).phase = .idle) := by
  induction evs' using List.reverseRecOn with
  | nil => simp [hwaiting]
  | append_singleton evs' ev ih =>
    obtain ⟨hclosed, hidle⟩ := ih
    rw [← List.append_assoc, Machine.final_snoc]
    obtain ⟨hwaiting', hhomes, hphones⟩ :=
      (FlagsKept.final setup (evs ++ evs')).idle_step setup hclosed ev
    exact ⟨hwaiting', fun k => ⟨fun h => hhomes k ((hidle k).1 h),
      fun h => hphones k ((hidle k).2 h)⟩⟩

/-! ## 4. The hub lets go of every connection -/

variable (setup)

/-- A hub that has ended has halted the links of all tasks. -/
theorem halted_of_stopped (evs : List (ServeEvent P))
    (hstop : ((Serve.run setup).final evs).loop.stopped = true) {k : Nat} {g : HomeGen}
    (hg : (((Serve.run setup).final evs).homes k).bound = some g) :
    (((Serve.run setup).final evs).homes k).halted = true := by
  rw [← Bool.not_eq_false, ← holds_iff setup evs hg, loop_final]
  intro hholds
  rw [loop_final, running_of_holds hholds] at hstop
  cases hstop

/-- The last turn of the hub drops its end of the queue of every phone that is still there. -/
theorem PhonesKept.dropped_turn {s : Serve} (hk : PhonesKept s) {ev : ServeEvent P}
    {w : Serve.Wake} (hw : s.wake ev = some w)
    (hstop : (s.turn setup w).1.loop.stopped = true)
    (hempty : (s.turn setup w).1.loop.hub.phones = ∅) {k : Nat} {p : PhoneId}
    (hp : ((s.turn setup w).1.phones k).bound = some p)
    (hlive : ((s.turn setup w).1.phones k).phase ≠ .ended) :
    ((s.turn setup w).1.phones k).dropped = true := by
  have hrun := (Serve.wake_spec hw).1
  have hin := (Serve.stopped_turn hw).mp hstop
  obtain ⟨hphase, -, -, hdropped⟩ := s.phones_turn w k
  rw [hphase] at hlive
  rcases hk.bound_turn setup hw hp with hp | ⟨-, -, hhello⟩
  · refine hdropped.mpr (.inr ⟨p, hp, hk.known hrun k p hp hlive, ?_⟩)
    change p ∉ (s.turn setup w).1.loop.hub.phones
    rw [hempty]
    exact AList.notMem_empty p
  · rw [hin] at hhello
    cases hhello

/-- A hub that has ended has dropped its end of the queue of every phone that is still there. -/
theorem dropped_of_stopped (evs : List (ServeEvent P))
    (hstop : ((Serve.run setup).final evs).loop.stopped = true) {k : Nat} {p : PhoneId}
    (hp : (((Serve.run setup).final evs).phones k).bound = some p)
    (hlive : (((Serve.run setup).final evs).phones k).phase ≠ .ended) :
    (((Serve.run setup).final evs).phones k).dropped = true := by
  induction evs using List.reverseRecOn with
  | nil => cases hstop
  | append_singleton evs ev ih =>
    have hkept := PhonesKept.final setup evs
    have hempty : ((Serve.run setup).final (evs ++ [ev])).loop.stopped = true →
        ((Serve.run setup).final (evs ++ [ev])).loop.hub.phones = ∅ := by
      rw [loop_final]
      exact phones_of_stopped
    have hs := ((Serve.run setup).final evs).step_spec setup ev
    rw [Machine.final_snoc] at hstop hp hlive hempty ⊢
    generalize (Serve.run setup).step ((Serve.run setup).final evs) ev = next at *
    obtain ⟨s', out⟩ := next
    generalize (Serve.run setup).final evs = s at *
    cases hs with
    | flags => exact ih hstop hp hlive
    | dialHome => exact ih hstop hp hlive
    | home => exact ih hstop hp hlive
    | ends => exact ih hstop hp hlive
    | @dialPhone k' =>
      by_cases hne : k = k'
      · subst hne
        simp only [Function.update_self] at hp hlive ⊢
        by_cases hidle : (s.phones k).phase = .idle
        · have hnone := (hkept.early k (.inl hidle)).2
          simp [PhoneTask.run, PhoneTask.step, hidle, hnone] at hp
        · simp only [PhoneTask.run, PhoneTask.step, if_neg hidle] at hp hlive ⊢
          exact ih hstop hp hlive
      · simp only [Function.update_of_ne hne] at hp hlive ⊢
        exact ih hstop hp hlive
    | @phone k' ev task out h =>
      by_cases hne : k = k'
      · subst hne
        simp only [Function.update_self] at hp hlive ⊢
        have hgoes := PhoneTask.move_asks h
        rw [hgoes.bound_eq] at hp
        rw [hgoes.dropped_eq]
        exact ih hstop hp fun hend => hlive (hgoes.ended hend)
      · simp only [Function.update_of_ne hne] at hp hlive ⊢
        exact ih hstop hp hlive
    | turn hw => exact hkept.dropped_turn setup hw hstop (hempty hstop) hp hlive

/-! ## 5. The tasks end -/

/-- A state of topside in which the hub has ended. -/
structure Over (s : Serve) : Prop where
  reached : ∃ evs, s = (Serve.run setup).final evs
  stopped : s.loop.stopped = true

variable {setup} {s : Serve}

theorem Over.closed (h : Over setup s) : s.snorkelAccept = false ∧ s.phoneAccept = false := by
  obtain ⟨evs, rfl⟩ := h.reached
  have hk := FlagsKept.final setup evs
  obtain ⟨hsnorkel, hphone, -⟩ := hk.closed (hk.stopped h.stopped)
  exact ⟨hsnorkel, hphone⟩

theorem Over.halted (h : Over setup s) {k : Nat} {g : HomeGen}
    (hphase : (s.homes k).phase = .looping g) : (s.homes k).halted = true := by
  obtain ⟨evs, rfl⟩ := h.reached
  exact halted_of_stopped setup evs h.stopped (bound_of_phase setup evs (.inr hphase))

theorem Over.running (h : Over setup s) {k : Nat} (hlive : (s.homes k).phase ≠ .ended) :
    (s.homes k).conn.running = true := by
  obtain ⟨evs, rfl⟩ := h.reached
  have hwire := HomeTask.wire_kept setup
    ((Serve.homeTask setup k).inputs ((Serve.run setup).history evs))
  rw [← (Serve.homeTask setup k).state_final] at hwire
  exact hwire.running hlive

theorem Over.dropped (h : Over setup s) {k : Nat} {p : PhoneId}
    (hphase : (s.phones k).phase = .talking p) : (s.phones k).dropped = true := by
  obtain ⟨evs, rfl⟩ := h.reached
  exact dropped_of_stopped setup evs h.stopped ((PhonesKept.final setup evs).talking k p hphase)
    (by simp [hphase])

/-- Then only the moves of a task change it. -/
theorem Over.step (h : Over setup s) (ev : ServeEvent P) :
    Over setup ((Serve.run setup).step s ev).1 ∧
      (∀ k, ((Serve.run setup).step s ev).1.homes k = s.homes k ∨
        ∃ move, ev = .home k move ∧ ((Serve.run setup).step s ev).1.homes k
          = ((HomeTask.run setup).step (s.homes k) (.move true move)).1) ∧
      ∀ k, ((Serve.run setup).step s ev).1.phones k = s.phones k ∨
        ∃ move, ev = .phone k move ∧ ((Serve.run setup).step s ev).1.phones k
          = ((PhoneTask.run setup).step (s.phones k) (.move true move)).1 := by
  have hreached : ∃ evs, ((Serve.run setup).step s ev).1 = (Serve.run setup).final evs := by
    obtain ⟨evs, rfl⟩ := h.reached
    exact ⟨evs ++ [ev], ((Serve.run setup).final_snoc evs ev).symm⟩
  have hclosed := h.closed
  have hstop := h.stopped
  have hs := s.step_spec setup ev
  generalize (Serve.run setup).step s ev = next at hs hreached ⊢
  obtain ⟨s', out⟩ := next
  cases hs with
  | flags => exact ⟨⟨hreached, hstop⟩, fun _ => .inl rfl, fun _ => .inl rfl⟩
  | ends => exact ⟨⟨hreached, hstop⟩, fun _ => .inl rfl, fun _ => .inl rfl⟩
  | dialHome hacc =>
    rw [hclosed.1] at hacc
    cases hacc
  | dialPhone hacc =>
    rw [hclosed.2] at hacc
    cases hacc
  | turn hw =>
    rw [(Serve.wake_spec hw).1] at hstop
    cases hstop
  | @home k' move task out hmove =>
    refine ⟨⟨hreached, hstop⟩, fun k => ?_, fun _ => .inl rfl⟩
    by_cases hne : k = k'
    · subst hne
      refine .inr ⟨move, rfl, ?_⟩
      rw [← hstop, hmove]
      exact Function.update_self ..
    · exact .inl (Function.update_of_ne hne ..)
  | @phone k' move task out hmove =>
    refine ⟨⟨hreached, hstop⟩, fun _ => .inl rfl, fun k => ?_⟩
    by_cases hne : k = k'
    · subst hne
      refine .inr ⟨move, rfl, ?_⟩
      rw [← hstop, hmove]
      exact Function.update_self ..
    · exact .inl (Function.update_of_ne hne ..)

theorem Over.home_move (h : Over setup s) (k : Nat) (move : HomeEvent P) :
    ((Serve.run setup).step s (.home k move)).1.homes k
      = ((HomeTask.run setup).step (s.homes k) (.move true move)).1 := by
  rw [← h.stopped]
  exact Function.update_self ..

theorem Over.phone_move (h : Over setup s) (k : Nat) (move : PhoneEvent) :
    ((Serve.run setup).step s (.phone k move)).1.phones k
      = ((PhoneTask.run setup).step (s.phones k) (.move true move)).1 := by
  rw [← h.stopped]
  exact Function.update_self ..

/-- How many moves a task of a home connection has left when the hub has ended. -/
def HomePhase.movesLeft : HomePhase → Nat
  | .idle | .ended => 0
  | .accepting => 4
  | .binding => 3
  | .registering _ => 2
  | .looping _ => 1

/-- The moves themselves. -/
def HomeEvent.movesLeft : HomeEvent P → Nat
  | .handshake _ => 4
  | .bound => 3
  | .registered _ => 2
  | .halt => 1
  | _ => 0

theorem HomePhase.eq_of_movesLeft {phase : HomePhase} (h : phase.movesLeft = 0) :
    phase = .idle ∨ phase = .ended := by
  cases phase with
  | idle => exact .inl rfl
  | ended => exact .inr rfl
  | _ => cases h

namespace HomeTask

theorem movesLeft_le (setup : Setup P) (task : HomeTask) (gone : Bool) (ev : HomeEvent P) :
    ((run setup).step task (.move gone ev)).1.phase.movesLeft ≤ task.phase.movesLeft := by
  have hs := task.step_spec setup (.move gone ev)
  generalize (run setup).step task (.move gone ev) = next at hs ⊢
  generalize task.loopEvents setup (.move gone ev) = evs at hs
  obtain ⟨task', out⟩ := next
  cases hs with
  | ignored => exact le_rfl
  | socket => exact le_rfl
  | turn => exact le_rfl
  | accepted hphase => simp [hphase, HomePhase.movesLeft]
  | bound hphase => simp [hphase, HomePhase.movesLeft]
  | registered hphase => simp [hphase, HomePhase.movesLeft]
  | _ => exact Nat.zero_le _

/-- The registration is the start of the loop, or the end. -/
theorem register_phase (setup : Setup P) (task : HomeTask) (g : HomeGen) (written : Bool) :
    (task.register setup g written).1.phase = .looping g ∨
      (task.register setup g written).1.phase = .ended := by
  unfold register
  generalize writeFrame (LeaderClient.registerFrame.toVec setup.floatText) = frame
  cases frame with
  | none => exact .inr rfl
  | some bytes =>
    cases written with
    | true => exact .inl rfl
    | false => exact .inr rfl

/-- Without the hub, the move that a task waits for takes it on. -/
theorem movesLeft_lt (setup : Setup P) {task : HomeTask} {ev : HomeEvent P}
    (hev : ev.movesLeft = task.phase.movesLeft) (hlive : 0 < task.phase.movesLeft)
    (hhalt : ∀ g, task.phase = .looping g → task.halted = true)
    (hrun : task.phase ≠ .ended → task.conn.running = true) :
    ((run setup).step task (.move true ev)).1.phase.movesLeft < task.phase.movesLeft := by
  change (task.move setup true ev).1.phase.movesLeft < _
  cases hphase : task.phase with
  | idle => simp [hphase, HomePhase.movesLeft] at hlive
  | ended => simp [hphase, HomePhase.movesLeft] at hlive
  | accepting =>
    have hmove : ev.movesLeft = 4 := by simp [hev, hphase, HomePhase.movesLeft]
    cases ev <;> cases hmove
    unfold move
    simp [hphase, handshake, HomePhase.movesLeft]
  | binding =>
    have hmove : ev.movesLeft = 3 := by simp [hev, hphase, HomePhase.movesLeft]
    cases ev <;> cases hmove
    unfold move
    cases hbound : task.bound <;> simp [hphase, HomePhase.movesLeft]
  | registering g =>
    have hmove : ev.movesLeft = 2 := by simp [hev, hphase, HomePhase.movesLeft]
    cases ev <;> cases hmove
    rename_i written
    unfold move
    simp only [hphase]
    rcases register_phase setup task g written with h | h
    · simp [h, HomePhase.movesLeft]
    · simp [h, HomePhase.movesLeft]
  | looping g =>
    have hmove : ev.movesLeft = 1 := by simp [hev, hphase, HomePhase.movesLeft]
    cases ev <;> cases hmove
    unfold move
    simp [hphase, hhalt g hphase, turn, HomeConnection.run, HomeConnection.step,
      HomeConnection.stop, hrun (by simp [hphase]), HomePhase.movesLeft]

end HomeTask

/-- The moves after which a task of a home connection has ended. -/
def homeMoves (k : Nat) (peer : P) (written : Bool) : List (ServeEvent P) :=
  [.home k (.handshake peer), .home k .bound, .home k (.registered written), .home k .halt]

/-- **The task of a home connection ends** when the hub has ended. -/
theorem Over.home_ends (h : Over setup s) {k : Nat} {peer : P} {written : Bool}
    {evs : List (ServeEvent P)} (hevs : (homeMoves k peer written).Sublist evs) :
    (((Serve.run setup).finalFrom s evs).homes k).phase = .idle ∨
      (((Serve.run setup).finalFrom s evs).homes k).phase = .ended := by
  have hkeep : ∀ (s : Serve) (ev : ServeEvent P), Over setup s →
      (((Serve.run setup).step s ev).1.homes k).phase.movesLeft ≤ (s.homes k).phase.movesLeft := by
    intro s ev h
    rcases (h.step ev).2.1 k with hsame | ⟨move, -, hmove⟩
    · rw [hsame]
    · rw [hmove]
      exact HomeTask.movesLeft_le setup (s.homes k) true move
  have hend := (Serve.run setup).progress (P := fun todo s => Over setup s ∧
      todo <:+ homeMoves k peer written ∧ (s.homes k).phase.movesLeft ≤ todo.length)
    (fun todo s ev ⟨h, htodo, hleft⟩ => ⟨(h.step ev).1, htodo, (hkeep s ev h).trans hleft⟩)
    (fun todo s ev ⟨h, htodo, hleft⟩ => ⟨(h.step ev).1, ?suffix, ?left⟩)
    ⟨h, List.suffix_rfl, ?start⟩ hevs
  case suffix => exact (List.suffix_cons ev todo).trans htodo
  case start => cases (s.homes k).phase <;> simp [HomePhase.movesLeft, homeMoves]
  case left =>
    obtain ⟨move, hev, hnumber⟩ : ∃ move : HomeEvent P, ev = .home k move ∧
        move.movesLeft = todo.length + 1 := by
      simp only [homeMoves, List.suffix_cons_iff, List.suffix_nil, List.cons.injEq,
        reduceCtorEq, or_false] at htodo
      rcases htodo with ⟨rfl, rfl⟩ | ⟨rfl, rfl⟩ | ⟨rfl, rfl⟩ | ⟨rfl, rfl⟩
      · exact ⟨_, rfl, rfl⟩
      · exact ⟨_, rfl, rfl⟩
      · exact ⟨_, rfl, rfl⟩
      · exact ⟨_, rfl, rfl⟩
    by_cases hlast : (s.homes k).phase.movesLeft = todo.length + 1
    · have hless := HomeTask.movesLeft_lt setup (hnumber.trans hlast.symm)
        (by omega) (fun g => h.halted) h.running
      rw [hev, h.home_move]
      omega
    · have := hkeep s ev h
      rw [List.length_cons] at hleft
      omega
  exact HomePhase.eq_of_movesLeft (Nat.le_zero.mp hend.2.2)

/-- How many moves a task of a phone has left before its loop. -/
def PhonePhase.movesLeft : PhonePhase → Nat
  | .upgrading => 2
  | .binding => 1
  | _ => 0

namespace PhoneTask

/-- A move takes the task no step back, and puts nothing in its queue. -/
theorem movesLeft_le (setup : Setup P) (task : PhoneTask) (gone : Bool) (ev : PhoneEvent) :
    ((run setup).step task (.move gone ev)).1.phase.movesLeft ≤ task.phase.movesLeft ∧
      ((run setup).step task (.move gone ev)).1.out.length ≤ task.out.length := by
  have hs := task.step_spec setup (.move gone ev)
  generalize (run setup).step task (.move gone ev) = next at hs ⊢
  generalize task.taken (.move gone ev) = texts at hs
  obtain ⟨task', out⟩ := next
  cases hs with
  | hello hphase => simp [hphase, PhonePhase.movesLeft]
  | left hphase hout => simp [hphase, hout, PhonePhase.movesLeft]
  | sent hphase hout => simp [hout]
  | closed hphase hdrop hout => simp [hphase, hout, PhonePhase.movesLeft]
  | _ => simp [PhonePhase.movesLeft]

/-- Without the hub, there is no upgrade. -/
theorem upgrade_gone {task : PhoneTask} (hphase : task.phase = .upgrading)
    (request : Option (Option HeaderValue)) (rest : Bool) :
    ((run setup).step task (.move true (.upgrade request rest))).1.phase = .ended := by
  have hmove : (run setup).step task (.move true (.upgrade request rest))
      = task.upgrade setup true request rest := by
    change task.move setup true (.upgrade request rest) = _
    unfold move
    rw [hphase]
  rw [hmove]
  unfold upgrade
  cases request with
  | none => rfl
  | some header =>
    simp only
    split
    · rfl
    · simp

/-- The id has come, or will not come. -/
theorem bound_gone {task : PhoneTask} (hphase : task.phase = .binding) :
    ((run setup).step task (.move true .bound)).1.phase.movesLeft = 0 := by
  change (task.move setup true .bound).1.phase.movesLeft = 0
  unfold move
  cases hbound : task.bound <;> simp [hphase, PhonePhase.movesLeft]

/-- A loop without the hub ends when its queue is empty. -/
theorem outgoing_phase {task : PhoneTask} {p : PhoneId} (hphase : task.phase = .talking p)
    (hdrop : task.dropped = true) (sent : Bool) :
    (task.outgoing p sent).1.phase = .ended ∨
      (task.outgoing p sent).1.phase = .talking p ∧
        (task.outgoing p sent).1.out.length + 1 = task.out.length := by
  unfold outgoing
  cases hout : task.out with
  | nil => exact .inl (by simp [hdrop])
  | cons text out =>
    cases sent with
    | true => exact .inr ⟨hphase, rfl⟩
    | false => exact .inl rfl

end PhoneTask

/-- The moves after which a phone is in its loop, and those that empty its queue. -/
def upgradeMoves (k : Nat) (request : Option (Option HeaderValue)) (rest : Bool) :
    List (ServeEvent P) :=
  [.phone k (.upgrade request rest), .phone k .bound]

def outgoingMoves (k : Nat) (sents : List Bool) : List (ServeEvent P) :=
  sents.map fun sent => .phone k (.outgoing sent)

/-- No event takes a phone a step back, puts anything in its queue, or takes it back to its loop. -/
theorem Over.phone_le (h : Over setup s) (ev : ServeEvent P) (k : Nat) :
    (((Serve.run setup).step s ev).1.phones k).phase.movesLeft ≤ (s.phones k).phase.movesLeft ∧
      (((Serve.run setup).step s ev).1.phones k).out.length ≤ (s.phones k).out.length ∧
      ∀ p, (((Serve.run setup).step s ev).1.phones k).phase = .talking p →
        (s.phones k).phase.movesLeft = 0 → (s.phones k).phase = .talking p := by
  rcases (h.step ev).2.2 k with hsame | ⟨move, -, hmove⟩
  · rw [hsame]
    exact ⟨le_rfl, le_rfl, fun p hp _ => hp⟩
  · rw [hmove]
    obtain ⟨hleft, hout⟩ := PhoneTask.movesLeft_le setup (s.phones k) true move
    refine ⟨hleft, hout, fun p hp hzero => ?_⟩
    rcases hstep : (PhoneTask.run setup).step (s.phones k) (.move true move) with ⟨task, out⟩
    rw [hstep] at hp
    rcases (PhoneTask.move_asks hstep).talking p hp with hphase | ⟨hphase, -⟩
    · exact hphase
    · rw [hphase] at hzero
      cases hzero

/-- A phone comes to its loop, or ends before. -/
theorem Over.phone_talks (h : Over setup s) {k : Nat} {request : Option (Option HeaderValue)}
    {rest : Bool} {evs : List (ServeEvent P)} (hevs : (upgradeMoves k request rest).Sublist evs) :
    Over setup ((Serve.run setup).finalFrom s evs) ∧
      (((Serve.run setup).finalFrom s evs).phones k).phase.movesLeft = 0 ∧
      (((Serve.run setup).finalFrom s evs).phones k).out.length ≤ (s.phones k).out.length := by
  have hend := (Serve.run setup).progress (P := fun todo s' => Over setup s' ∧
      todo <:+ upgradeMoves k request rest ∧ (s'.phones k).phase.movesLeft ≤ todo.length ∧
      (s'.phones k).out.length ≤ (s.phones k).out.length)
    (fun todo s ev ⟨h, htodo, hleft, hout⟩ => ⟨(h.step ev).1, htodo,
      (h.phone_le ev k).1.trans hleft, (h.phone_le ev k).2.1.trans hout⟩)
    (fun todo s ev ⟨h, htodo, hleft, hout⟩ => ⟨(h.step ev).1, ?suffix, ?left,
      (h.phone_le ev k).2.1.trans hout⟩)
    ⟨h, List.suffix_rfl, ?start, le_rfl⟩ hevs
  case suffix => exact (List.suffix_cons ev todo).trans htodo
  case start => cases (s.phones k).phase <;> simp [PhonePhase.movesLeft, upgradeMoves]
  case left =>
    by_cases hlast : (s.phones k).phase.movesLeft = todo.length + 1
    · simp only [upgradeMoves, List.suffix_cons_iff, List.suffix_nil, List.cons.injEq,
        reduceCtorEq, or_false] at htodo
      rcases htodo with ⟨rfl, rfl⟩ | ⟨rfl, rfl⟩
      · have hphase : (s.phones k).phase = .upgrading := by
          cases hphase : (s.phones k).phase <;> simp [hphase, PhonePhase.movesLeft] at hlast ⊢
        rw [h.phone_move, PhoneTask.upgrade_gone hphase]
        exact Nat.zero_le _
      · have hphase : (s.phones k).phase = .binding := by
          cases hphase : (s.phones k).phase <;> simp [hphase, PhonePhase.movesLeft] at hlast ⊢
        rw [h.phone_move, PhoneTask.bound_gone hphase]
        exact Nat.zero_le _
    · have := (h.phone_le ev k).1
      rw [List.length_cons] at hleft
      omega
  exact ⟨hend.1, Nat.le_zero.mp hend.2.2.1, hend.2.2.2⟩

/-- **The task of a phone ends** when the hub has ended. -/
theorem Over.phone_ends (h : Over setup s) {k : Nat} {request : Option (Option HeaderValue)}
    {rest : Bool} {sents : List Bool} (hout : (s.phones k).out.length < sents.length)
    {evs : List (ServeEvent P)}
    (hevs : (upgradeMoves k request rest ++ outgoingMoves k sents).Sublist evs) :
    (((Serve.run setup).finalFrom s evs).phones k).phase = .idle ∨
      (((Serve.run setup).finalFrom s evs).phones k).phase = .ended := by
  obtain ⟨evs, evs', rfl, hupgrade, houtgoing⟩ := List.append_sublist_iff.mp hevs
  obtain ⟨hover, hzero, hqueue⟩ := h.phone_talks hupgrade
  rw [Machine.finalFrom_append]
  generalize (Serve.run setup).finalFrom s evs = s' at hover hzero hqueue ⊢
  have hend := (Serve.run setup).progress (P := fun todo s => Over setup s ∧
      (∀ ev ∈ todo, ∃ sent, ev = .phone k (.outgoing sent)) ∧
      (s.phones k).phase.movesLeft = 0 ∧
      ∀ p, (s.phones k).phase = .talking p → (s.phones k).out.length < todo.length)
    (fun todo s ev ⟨h, htodo, hleft, hout⟩ => ⟨(h.step ev).1, htodo, ?zero, fun p hp => ?keep⟩)
    (fun todo s ev ⟨h, htodo, hleft, hout⟩ => ⟨(h.step ev).1, ?rest, ?zero', fun p hp => ?less⟩)
    ⟨hover, ?moves, hzero, fun p hp => ?start⟩ houtgoing
  case zero => exact Nat.le_zero.mp ((h.phone_le ev k).1.trans hleft.le)
  case zero' => exact Nat.le_zero.mp ((h.phone_le ev k).1.trans hleft.le)
  case keep =>
    obtain ⟨-, hle, hback⟩ := h.phone_le ev k
    exact hle.trans_lt (hout p (hback p hp hleft))
  case rest => exact fun ev' hmem => htodo ev' (List.mem_cons_of_mem _ hmem)
  case moves =>
    intro ev hmem
    obtain ⟨sent, -, rfl⟩ := List.mem_map.mp hmem
    exact ⟨sent, rfl⟩
  case start =>
    rw [outgoingMoves, List.length_map]
    omega
  case less =>
    have hphase := (h.phone_le ev k).2.2 p hp hleft
    have hlen := hout p hphase
    obtain ⟨sent, rfl⟩ := htodo ev List.mem_cons_self
    rw [h.phone_move] at hp ⊢
    have hmove : (PhoneTask.run setup).step (s.phones k) (.move true (.outgoing sent))
        = (s.phones k).outgoing p sent := by
      change (s.phones k).move setup true (.outgoing sent) = _
      unfold PhoneTask.move
      rw [hphase]
    rw [hmove] at hp ⊢
    rcases PhoneTask.outgoing_phase hphase (h.dropped hphase) sent with hended | ⟨-, hless⟩
    · rw [hended] at hp
      cases hp
    · rw [List.length_cons] at hlen
      omega
  obtain ⟨-, -, hleft, hnone⟩ := hend
  cases hphase : (((Serve.run setup).finalFrom s' evs').phones k).phase with
  | idle => exact .inl rfl
  | ended => exact .inr rfl
  | talking p => exact absurd (hnone p hphase) (Nat.not_lt_zero _)
  | _ =>
    rw [hphase] at hleft
    cases hleft

/-! ## 6. The shutdown -/

/-- What the shutdown does in topside after the events `evs`; `evs'` are any events after them. -/
structure ShutsDown (setup : Setup P) (evs : List (ServeEvent P)) : Prop where
  /-- The hub ends by the shutdown of `serve`, which follows a signal, and by nothing else. -/
  only : ((Serve.run setup).final evs).loop.stopped = true →
    .signal ∈ evs ∧ ((Serve.run setup).final evs).waiting = false
  /-- When `serve` has seen the flag, there are no new connections. -/
  closed : ((Serve.run setup).final evs).waiting = false → ∀ evs' k,
    ((((Serve.run setup).final evs).homes k).phase = .idle →
      (((Serve.run setup).final (evs ++ evs')).homes k).phase = .idle) ∧
    ((((Serve.run setup).final evs).phones k).phase = .idle →
      (((Serve.run setup).final (evs ++ evs')).phones k).phase = .idle)
  /-- The hub ends when it has read what was in `rx` by then. -/
  drains : ((Serve.run setup).final evs).waiting = false → ∀ evs' : List (ServeEvent P),
    ((Serve.run setup).final evs).rx.length ≤ evs'.countP ServeEvent.isRecv →
    ((Serve.run setup).final (evs ++ evs')).loop.stopped = true
  /-- Then the task of a home connection ends, whatever the peer does: its handshake is over, the
  hub answers or is gone, the registration is written or not, and the link is halted. -/
  homes : ((Serve.run setup).final evs).loop.stopped = true → ∀ k peer written evs',
    (homeMoves k peer written).Sublist evs' →
    (((Serve.run setup).final (evs ++ evs')).homes k).phase = .idle ∨
      (((Serve.run setup).final (evs ++ evs')).homes k).phase = .ended
  /-- And that of a phone, when it has taken all texts from its queue. -/
  phones : ((Serve.run setup).final evs).loop.stopped = true → ∀ k request rest sents evs',
    (((Serve.run setup).final evs).phones k).out.length < sents.length →
    (upgradeMoves k request rest ++ outgoingMoves k sents).Sublist evs' →
    (((Serve.run setup).final (evs ++ evs')).phones k).phase = .idle ∨
      (((Serve.run setup).final (evs ++ evs')).phones k).phase = .ended

/-- **topside shuts down**: only on a signal, and then all of it.  The hub needs as many turns as
there were letters in `rx`, a home connection four moves, and a phone those of its upgrade and one
for each text in its queue and one more; the moves may come at any time, and each has come to its
end. -/
theorem shuts_down (setup : Setup P) (evs : List (ServeEvent P)) : ShutsDown setup evs := by
  have hk := FlagsKept.final setup evs
  constructor
  case only =>
    intro hstop
    have hwaiting := hk.stopped hstop
    exact ⟨signal_of_shutdown setup evs (hk.closed hwaiting).2.2, hwaiting⟩
  case closed => exact fun hwaiting evs' => (idle_of_closed setup hwaiting evs').2
  case drains =>
    intro hwaiting evs' hcount
    rw [Machine.final_append]
    rcases hk.told hwaiting with hstop | htold
    · exact (Serve.run setup).keeps (P := fun s => s.loop.stopped = true)
        (fun s ev h => Serve.stopped_step setup ev h) hstop evs'
    · exact stopped_of_told htold hcount
  case homes =>
    intro hstop k peer written evs' hmoves
    rw [Machine.final_append]
    exact Over.home_ends ⟨⟨evs, rfl⟩, hstop⟩ hmoves
  case phones =>
    intro hstop k request rest sents evs' hout hmoves
    rw [Machine.final_append]
    exact Over.phone_ends ⟨⟨evs, rfl⟩, hstop⟩ hout hmoves

end Aqualung
