/-
# Who gets in

topside lets a leader in after a TLS handshake with the pinned certificate, and a phone after an
upgrade with the token.  Both checks are made by the task of the connection, once, before it says
anything to the hub.  `access_controlled` says what comes of this for topside as a whole: whatever
the order of events, nothing is read from, written to or known of a connection that has not passed.

To have passed is a fact about the events: there was a handshake that the acceptor accepts, at a
moment when the task was waiting for one (`CameInAs`, `UpgradedWith`).  The proof goes back from the
effect to this cause.  What the hub knows of a connection it has read in `rx`; what is in `rx` a
task has said; and a task that says anything has asked to be let in first (`Reported.asked`), which
it does in the move in which the handshake is over (`HomeTask.accepted_cause`).  What is written on
a socket goes the same way round, since a task without a number writes nothing.
-/
import Aqualung.Net.Ledger

namespace Aqualung

open Lib

variable {P : Type*} (setup : Setup P)

/-! ## 1. Coming in -/

/-- The peer has passed the handshake of the home connection `k`. -/
def CameInAs (evs : List (ServeEvent P)) (k : Nat) (peer : P) : Prop :=
  ∃ pre post, evs = pre ++ .home k (.handshake peer) :: post ∧ setup.accept peer ∧
    (((Serve.run setup).final pre).homes k).phase = .accepting

/-- The phone connection `k` has passed the upgrade with the header. -/
def UpgradedWith (evs : List (ServeEvent P)) (k : Nat) (header : Option HeaderValue) : Prop :=
  ∃ pre post, evs = pre ++ .phone k (.upgrade (some header) true) :: post ∧
    Upgrades setup.token header ∧ (((Serve.run setup).final pre).phones k).phase = .upgrading

/-- The home connection `k` has passed the handshake. -/
def CameIn (evs : List (ServeEvent P)) (k : Nat) : Prop := ∃ peer, CameInAs setup evs k peer

/-- The phone connection `k` has passed the upgrade. -/
def Upgraded (evs : List (ServeEvent P)) (k : Nat) : Prop :=
  ∃ header, UpgradedWith setup evs k header

variable {setup}

theorem CameIn.append {evs : List (ServeEvent P)} {k : Nat} (h : CameIn setup evs k)
    (evs' : List (ServeEvent P)) : CameIn setup (evs ++ evs') k := by
  obtain ⟨peer, pre, post, rfl, haccept, hphase⟩ := h
  exact ⟨peer, pre, post ++ evs', by simp, haccept, hphase⟩

theorem Upgraded.append {evs : List (ServeEvent P)} {k : Nat} (h : Upgraded setup evs k)
    (evs' : List (ServeEvent P)) : Upgraded setup (evs ++ evs') k := by
  obtain ⟨header, pre, post, rfl, hheader, hphase⟩ := h
  exact ⟨header, pre, post ++ evs', by simp, hheader, hphase⟩

/-- A task asks for a generation in the move in which the handshake is over. -/
theorem HomeTask.accepted_cause {task : HomeTask} {gone : Bool} {ev : HomeEvent P}
    (h : .accepted ∈ ((run setup).step task (.move gone ev)).2) :
    ∃ peer, ev = .handshake peer ∧ setup.accept peer ∧ task.phase = .accepting := by
  have hs := task.step_spec setup (.move gone ev)
  generalize task.loopEvents setup (.move gone ev) = evs at hs
  generalize (run setup).step task (.move gone ev) = next at hs h
  obtain ⟨task', outs⟩ := next
  have hturn : ∀ (g : HomeGen) (os : List ConnOut), HomeOut.accepted ∉ os.map (HomeOut.conn g) := by
    simp
  cases hs with
  | accepted hphase hpeer => exact ⟨_, rfl, hpeer, hphase⟩
  | turn => exact absurd h (hturn _ _)
  | last => exact absurd h (hturn _ _)
  | _ => simp at h

/-- A task asks for a phone id in the move in which the upgrade is over. -/
theorem PhoneTask.hello_cause {task : PhoneTask} {gone : Bool} {ev : PhoneEvent}
    (h : .hello ∈ ((run setup).step task (.move gone ev)).2) :
    ∃ header, ev = .upgrade (some header) true ∧ Upgrades setup.token header ∧
      task.phase = .upgrading := by
  have hs := task.step_spec setup (.move gone ev)
  generalize task.taken (.move gone ev) = taken at hs
  generalize (run setup).step task (.move gone ev) = next at hs h
  obtain ⟨task', outs⟩ := next
  cases hs with
  | hello hphase hheader => exact ⟨_, rfl, hheader, hphase⟩
  | refused hphase hout => rcases hout with rfl | rfl <;> simp at h
  | _ => simp at h

/-- What the hub is told, a task says in a move. -/
theorem told_cause {evs : List (ServeEvent P)} {letter : Letter} (h : letter ∈ toldHub setup evs) :
    (∃ pre k ev post, ∃ o ∈ ((HomeTask.run setup).step (((Serve.run setup).final pre).homes k)
        (.move ((Serve.run setup).final pre).loop.stopped ev)).2,
      evs = pre ++ .home k ev :: post ∧ letter.sender = .home k ∧
        o.toHub setup.fromSlice = some letter.msg) ∨
      ∃ pre k ev post, ∃ o ∈ ((PhoneTask.run setup).step (((Serve.run setup).final pre).phones k)
        (.move ((Serve.run setup).final pre).loop.stopped ev)).2,
      evs = pre ++ .phone k ev :: post ∧ letter.sender = .phone k ∧ o.toHub = some letter.msg := by
  obtain ⟨e, he, o, ho, hletter⟩ := mem_collect.mp h
  obtain ⟨pre, post, hsplit⟩ := List.append_of_mem he
  obtain ⟨js, ev, ks, rfl, -, rfl⟩ := (Serve.run setup).history_eq_append hsplit
  have hs := ((Serve.run setup).final js).step_spec setup ev
  simp only at ho
  generalize (Serve.run setup).step ((Serve.run setup).final js) ev = next at hs ho
  obtain ⟨s', out⟩ := next
  cases hs with
  | home hstep =>
    obtain ⟨o', ho', rfl⟩ := List.mem_map.mp ho
    obtain ⟨msg, hmsg, rfl⟩ := Option.map_eq_some_iff.mp hletter
    exact .inl ⟨js, _, _, ks, o', by rw [hstep]; exact ho', rfl, rfl, hmsg⟩
  | phone hstep =>
    obtain ⟨o', ho', rfl⟩ := List.mem_map.mp ho
    obtain ⟨msg, hmsg, rfl⟩ := Option.map_eq_some_iff.mp hletter
    exact .inr ⟨js, _, _, ks, o', by rw [hstep]; exact ho', rfl, rfl, hmsg⟩
  | turn hw =>
    obtain ⟨eff, -, rfl⟩ := List.mem_map.mp ho
    cases hletter
  | _ => cases ho

/-- Only a connection that has passed asks the hub to be let in. -/
theorem cameIn_of_asked {evs : List (ServeEvent P)} {k : Nat}
    (h : ⟨.home k, .accepted⟩ ∈ toldHub setup evs) : CameIn setup evs k := by
  rcases told_cause h with ⟨pre, k', ev, post, o, ho, rfl, hk, hmsg⟩ | ⟨_, _, _, _, _, _, _, hk, _⟩
  · cases hk
    have haccepted : o = .accepted := by
      cases o with
      | accepted => rfl
      | conn g o' => cases o' <;> simp [HomeOut.toHub, ConnOut.toHub] at hmsg
      | _ => simp [HomeOut.toHub] at hmsg
    subst haccepted
    obtain ⟨peer, rfl, haccept, hphase⟩ := HomeTask.accepted_cause ho
    exact ⟨peer, pre, post, rfl, haccept, hphase⟩
  · cases hk

theorem upgraded_of_asked {evs : List (ServeEvent P)} {k : Nat}
    (h : ⟨.phone k, .phoneHello⟩ ∈ toldHub setup evs) : Upgraded setup evs k := by
  rcases told_cause h with ⟨_, _, _, _, _, _, _, hk, _⟩ | ⟨pre, k', ev, post, o, ho, rfl, hk, hmsg⟩
  · cases hk
  · cases hk
    have hhello : o = .hello := by
      cases o <;> simp at hmsg
      rfl
    subst hhello
    obtain ⟨header, rfl, hheader, hphase⟩ := PhoneTask.hello_cause ho
    exact ⟨header, pre, post, rfl, hheader, hphase⟩

/-! ## 2. What a task says -/

theorem mem_of_prefix_singleton {α : Type*} {a : α} {l : List α} (h : l <+: [a]) (hne : l ≠ []) :
    a ∈ l := by
  cases l with
  | nil => exact absurd rfl hne
  | cons b l =>
    obtain rfl := (List.cons_prefix_cons.mp h).1
    exact List.mem_cons_self

theorem HomeTask.Reported.asked {task : HomeTask} {fs : List Bytes} {posts : List ToHub}
    (hr : Reported setup task fs posts) (hsome : fs ≠ [] ∨ posts ≠ []) : .accepted ∈ posts := by
  have hnone : ¬ ((fs = [] ∧ posts = []) : Prop) := fun h => by
    rcases hsome with hfs | hposts
    · exact hfs h.1
    · exact hposts h.2
  unfold Reported at hr
  split at hr
  · exact absurd hr hnone
  · exact absurd hr hnone
  · rw [hr.2]
    exact List.mem_singleton_self _
  · rw [hr.2.2]
    exact List.mem_singleton_self _
  · rw [hr.2]
    exact List.mem_cons_self
  · obtain ⟨hfs, hposts⟩ | ⟨g, last, -, -, rfl⟩ := hr
    · exact mem_of_prefix_singleton hposts fun hnil => hnone ⟨hfs, hnil⟩
    · exact List.mem_cons_self

theorem PhoneTask.Reported.asked {task : PhoneTask} {texts : List RpcText} {posts : List ToHub}
    (hr : Reported task texts posts) (hsome : texts ≠ [] ∨ posts ≠ []) : .phoneHello ∈ posts := by
  have hnone : ¬ ((texts = [] ∧ posts = []) : Prop) := fun h => by
    rcases hsome with htexts | hposts
    · exact htexts h.1
    · exact hposts h.2
  unfold Reported at hr
  split at hr
  · exact absurd hr hnone
  · exact absurd hr hnone
  · rw [hr.2]
    exact List.mem_singleton_self _
  · rw [hr.2]
    exact List.mem_cons_self
  · obtain ⟨htexts, hposts⟩ | ⟨p, last, -, -, rfl⟩ := hr
    · exact mem_of_prefix_singleton hposts fun hnil => hnone ⟨htexts, hnil⟩
    · exact List.mem_cons_self

/-- What the hub has read or is going to read, a task has told it. -/
theorem told_of_letter (evs : List (ServeEvent P)) {letter : Letter}
    (h : letter ∈ readLetters setup evs ++ ((Serve.run setup).final evs).rx)
    (hsender : letter.sender ≠ .serve) : letter ∈ toldHub setup evs :=
  (HubTold.final setup evs).order.subset (List.mem_filter.mpr ⟨h, by simpa [Letter.ofTask]⟩)

theorem shutdown_of_serve (evs : List (ServeEvent P)) {letter : Letter}
    (h : letter ∈ readLetters setup evs ++ ((Serve.run setup).final evs).rx)
    (hsender : letter.sender = .serve) : letter.msg = .shutdown := by
  rw [readLetters] at h
  change letter ∈ (Serve.mailbox setup).taken _ ++ (Serve.mailbox setup).queue _ at h
  rw [← (Serve.mailbox setup).put_eq] at h
  obtain ⟨e, -, hmem⟩ := List.mem_flatMap.mp h
  change letter ∈ e.before.posts setup e.input at hmem
  unfold Serve.posts at hmem
  split at hmem
  · cases hmem
  split at hmem
  · obtain ⟨msg, -, rfl⟩ := List.mem_map.mp hmem
    cases hsender
  · obtain ⟨msg, -, rfl⟩ := List.mem_map.mp hmem
    cases hsender
  · split at hmem
    · rw [List.mem_singleton.mp hmem]
    · cases hmem
  · cases hmem

/-! ## 3. What the hub gives -/

/-- A generation is given to a task that has asked for it. -/
theorem cameIn_of_bound (evs : List (ServeEvent P)) (k : Nat) :
    (((Serve.run setup).final evs).homes k).bound ≠ none → CameIn setup evs k := by
  induction evs using List.reverseRecOn with
  | nil => exact fun h => absurd rfl h
  | append_singleton evs ev ih =>
    intro hbound
    have hs := ((Serve.run setup).final evs).step_spec setup ev
    have htold : ⟨.home k, .accepted⟩ ∈ readLetters setup evs ++ ((Serve.run setup).final evs).rx →
        CameIn setup evs k := fun h => cameIn_of_asked (told_of_letter evs h (by simp))
    rw [Machine.final_snoc] at hbound
    generalize (Serve.run setup).step ((Serve.run setup).final evs) ev = next at hs hbound
    obtain ⟨s', out⟩ := next
    refine CameIn.append ?_ [ev]
    generalize (Serve.run setup).final evs = s at hs hbound htold ih
    obtain ⟨w, hw, rfl⟩ | ⟨-, -, hsame⟩ := hs.quiet
    · by_cases hbefore : (s.homes k).bound = none
      · -- The task is bound in this turn, and so the hub has read its question.
        obtain ⟨hrun, hread⟩ := Serve.wake_spec hw
        rw [Serve.homes_turn, HomeTask.boundAfter, hbefore, Option.none_or] at hbound
        split at hbound
        · rename_i hmine
          obtain ⟨hin, -⟩ | ⟨-, hnone, -⟩ := turn_binds hrun w.turn
          · obtain ⟨letter, hrx, hsender, hmsg⟩ | ⟨-, -, hdeadline⟩ := hread
            · rw [hin] at hmsg
              rw [decide_eq_true_eq, hsender] at hmine
              obtain ⟨sender, msg⟩ := letter
              cases hmsg
              cases hmine
              refine htold ?_
              rw [hrx]
              exact List.mem_append_right _ List.mem_cons_self
            · rw [hin] at hdeadline
              cases hdeadline
          · exact absurd hnone hbound
        · exact absurd rfl hbound
      · exact ih hbefore
    · rw [(hsame k).1] at hbound
      exact ih hbound

/-- A phone id is given to a task that has asked for it. -/
theorem upgraded_of_bound (evs : List (ServeEvent P)) (k : Nat) :
    (((Serve.run setup).final evs).phones k).bound ≠ none → Upgraded setup evs k := by
  induction evs using List.reverseRecOn with
  | nil => exact fun h => absurd rfl h
  | append_singleton evs ev ih =>
    intro hbound
    have hs := ((Serve.run setup).final evs).step_spec setup ev
    have htold : ⟨.phone k, .phoneHello⟩ ∈ readLetters setup evs ++ ((Serve.run setup).final evs).rx →
        Upgraded setup evs k := fun h => upgraded_of_asked (told_of_letter evs h (by simp))
    rw [Machine.final_snoc] at hbound
    generalize (Serve.run setup).step ((Serve.run setup).final evs) ev = next at hs hbound
    obtain ⟨s', out⟩ := next
    refine Upgraded.append ?_ [ev]
    generalize (Serve.run setup).final evs = s at hs hbound htold ih
    obtain ⟨w, hw, rfl⟩ | ⟨hw, -, -⟩ := hs.quiet
    · by_cases hbefore : (s.phones k).bound = none
      · obtain ⟨hrun, hread⟩ := Serve.wake_spec hw
        rw [(Serve.phones_turn s w k).2.1, PhoneTask.boundAfter, hbefore, Option.none_or] at hbound
        split at hbound
        · rename_i hmine
          obtain ⟨hin, -⟩ | ⟨-, hnone, -⟩ := turn_bindsPhone hrun w.turn
          · obtain ⟨letter, hrx, hsender, hmsg⟩ | ⟨-, -, hdeadline⟩ := hread
            · rw [hin] at hmsg
              rw [decide_eq_true_eq, hsender] at hmine
              obtain ⟨sender, msg⟩ := letter
              cases hmsg
              cases hmine
              refine htold ?_
              rw [hrx]
              exact List.mem_append_right _ List.mem_cons_self
            · rw [hin] at hdeadline
              cases hdeadline
          · exact absurd hnone hbound
        · exact absurd rfl hbound
      · exact ih hbefore
    · have hsame := hs.quiet_phones hw k
      change (s'.phones k).bound ≠ none at hbound
      rw [hsame] at hbound
      exact ih hbound

/-! ## 4. topside as a whole -/

theorem mem_told_of_from {evs : List (ServeEvent P)} {sender : Sender} {msg : ToHub}
    (h : msg ∈ (toldHub setup evs).filterMap (Letter.from sender)) :
    ⟨sender, msg⟩ ∈ toldHub setup evs := by
  obtain ⟨letter, hletter, hfrom⟩ := List.mem_filterMap.mp h
  unfold Letter.from at hfrom
  split at hfrom
  · rename_i hsender
    cases hsender
    cases hfrom
    exact hletter
  · cases hfrom

theorem from_ne_nil {evs : List (ServeEvent P)} {letter : Letter} (h : letter ∈ toldHub setup evs) :
    (toldHub setup evs).filterMap (Letter.from letter.sender) ≠ [] :=
  List.ne_nil_of_mem (List.mem_filterMap.mpr ⟨letter, h, if_pos rfl⟩)

/-- A home connection that is bound, written to or read from has passed. -/
theorem cameIn_of_traffic {evs : List (ServeEvent P)} {k : Nat}
    (h : (((Serve.run setup).final evs).homes k).bound ≠ none ∨
      writtenHome setup evs k ≠ [] ∨ framesOf setup evs k ≠ []) : CameIn setup evs k := by
  rcases h with hbound | hwritten | hframes
  · exact cameIn_of_bound evs k hbound
  · refine cameIn_of_bound evs k fun hnone => hwritten ?_
    exact (LeaderTold.final setup evs k).1 hnone
  · exact cameIn_of_asked (mem_told_of_from ((told_home setup evs k).asked (.inl hframes)))

/-- A phone connection that is bound, written to or read from has passed. -/
theorem upgraded_of_traffic {evs : List (ServeEvent P)} {k : Nat}
    (h : (((Serve.run setup).final evs).phones k).bound ≠ none ∨
      writtenPhone setup evs k ≠ [] ∨ textsOf setup evs k ≠ []) : Upgraded setup evs k := by
  rcases h with hbound | hwritten | htexts
  · exact upgraded_of_bound evs k hbound
  · refine upgraded_of_bound evs k fun hnone => hwritten ?_
    exact (PhoneTold.final setup evs k).1 hnone
  · exact upgraded_of_asked (mem_told_of_from ((told_phone setup evs k).asked (.inl htexts)))

theorem cameIn_of_letter {evs : List (ServeEvent P)} {letter : Letter} {k : Nat}
    (h : letter ∈ readLetters setup evs ++ ((Serve.run setup).final evs).rx)
    (hsender : letter.sender = .home k) : CameIn setup evs k := by
  have hmem := from_ne_nil (told_of_letter evs h (by simp [hsender]))
  rw [hsender] at hmem
  exact cameIn_of_asked (mem_told_of_from ((told_home setup evs k).asked (.inr hmem)))

theorem upgraded_of_letter {evs : List (ServeEvent P)} {letter : Letter} {k : Nat}
    (h : letter ∈ readLetters setup evs ++ ((Serve.run setup).final evs).rx)
    (hsender : letter.sender = .phone k) : Upgraded setup evs k := by
  have hmem := from_ne_nil (told_of_letter evs h (by simp [hsender]))
  rw [hsender] at hmem
  exact upgraded_of_asked (mem_told_of_from ((told_phone setup evs k).asked (.inr hmem)))

/-- A link is that of a connection that has passed. -/
theorem cameIn_of_link {evs : List (ServeEvent P)} {g : HomeGen}
    (hg : ((Serve.run setup).final evs).loop.hub.home.Holds g) :
    ∃ k, (((Serve.run setup).final evs).homes k).bound = some g ∧ CameIn setup evs k := by
  obtain ⟨k, hk, -⟩ := task_of_link setup evs hg
  exact ⟨k, hk, cameIn_of_bound evs k (by simp [hk])⟩

/-- A phone that the hub knows is that of a connection that has passed. -/
theorem upgraded_of_phone {evs : List (ServeEvent P)} {p : PhoneId}
    (hp : p ∈ ((Serve.run setup).final evs).loop.hub.phones) :
    ∃ k, (((Serve.run setup).final evs).phones k).bound = some p ∧ Upgraded setup evs k := by
  obtain ⟨-, k, hk⟩ := task_of_phone setup evs hp
  exact ⟨k, hk, upgraded_of_bound evs k (by simp [hk])⟩

/-- Only those who have passed are read from, written to, and known. -/
structure AccessControlled (setup : Setup P) (evs : List (ServeEvent P)) : Prop where
  home : ∀ k, (((Serve.run setup).final evs).homes k).bound ≠ none ∨
    writtenHome setup evs k ≠ [] ∨ framesOf setup evs k ≠ [] → CameIn setup evs k
  phone : ∀ k, (((Serve.run setup).final evs).phones k).bound ≠ none ∨
    writtenPhone setup evs k ≠ [] ∨ textsOf setup evs k ≠ [] → Upgraded setup evs k
  /-- What the hub has read, or is going to read, is of those who have passed, or the shutdown. -/
  letters : ∀ letter ∈ readLetters setup evs ++ ((Serve.run setup).final evs).rx,
    match letter.sender with
    | .home k => CameIn setup evs k
    | .phone k => Upgraded setup evs k
    | .serve => letter.msg = .shutdown
  links : ∀ g, ((Serve.run setup).final evs).loop.hub.home.Holds g →
    ∃ k, (((Serve.run setup).final evs).homes k).bound = some g ∧ CameIn setup evs k
  phones : ∀ p ∈ ((Serve.run setup).final evs).loop.hub.phones,
    ∃ k, (((Serve.run setup).final evs).phones k).bound = some p ∧ Upgraded setup evs k

/-- **Nobody gets in without passing**, whatever the order of events: not to be read from, not to be
written to, not into `rx`, not as a link and not as a phone. -/
theorem access_controlled (setup : Setup P) (evs : List (ServeEvent P)) :
    AccessControlled setup evs := by
  refine ⟨fun k => cameIn_of_traffic, fun k => upgraded_of_traffic, fun letter h => ?letters,
    fun g => cameIn_of_link, fun p => upgraded_of_phone⟩
  case letters =>
    split
    · exact cameIn_of_letter h (by assumption)
    · exact upgraded_of_letter h (by assumption)
    · exact shutdown_of_serve evs h (by assumption)

end Aqualung
