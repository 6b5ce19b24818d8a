/-
# After a close

A phone attaches to a session in two places: when it asks for it, and again when any answer that
names the session is relayed to it.  So an answer that was under way when the phone closed the
session attaches it once more.

`close_sticks` says that nothing else does: from the close on until the phone asks again, it
stays detached exactly if no line brings such a late answer.  It is an induction on the turns after
the close, with `attached_of_turn` for one of them: who is attached was attached before or has just
attached, and to attach without asking takes an answer to something that was asked before the
close.  While it is detached the phone hears nothing of the session (`silent_of_detached`).

`close_undone` is a run in which the answer to the load comes after the close.
-/
import Aqualung.Hub.Fanout

namespace Aqualung

open Lib

/-! ## 1. The promise -/

/-- The phone `p` is among the watchers of the session, or drives it. -/
def Hub.Attached (h : Hub) (p : PhoneId) (s : SessionId) : Prop :=
  h.Watches p s ∨ h.driver.lookup s = some p

/-- In this line the serving link answers the request `n` of the phone `p` with something that
names the session. -/
def AnsweredWith (e : Line) (p : PhoneId) (s : SessionId) (n : HomeReqId) : Prop :=
  ∃ g r origin, Settles e.input (hubOf e) g n r (.forwarded p origin) ∧
    (hubOf e).home.mux = some g ∧ sessionIdIn r = some s

/-- The lines of the turns `js` after the turns `ts` and the turn `c`. -/
def linesAfter (ts : List Turn) (c : Turn) (js : List Turn) : List Line :=
  Hub.run.historyFrom (Hub.run.final (ts ++ [c])) js

/-- In the line `e` of `lines` the phone `p` attaches to the session by a request that `lines`
hold: by the request itself, or by the answer to it. -/
def AsksAgain (lines : List Line) (e : Line) (p : PhoneId) (s : SessionId) : Prop :=
  (∃ obj, e.input.PhoneSays p obj ∧ obj.id.isSome ∧
      (obj.method = some "session/load" ∨ obj.method = some "session/resume") ∧
      sessionIdIn obj = some s) ∨
    ∃ n, AnsweredWith e p s n ∧ ∃ e₀ ∈ lines, ∃ obj, Forwards e₀ n p obj

/-- The line brings the answer to a request that the phone `p` sent in `hist`, with the name of
the session, while the phone is ready. -/
def LateAnswer (hist : List Line) (e : Line) (p : PhoneId) (s : SessionId) : Prop :=
  (hubOf e).phones.lookup p = some .ready ∧
    ∃ n, AnsweredWith e p s n ∧ ∃ e₀ ∈ hist, ∃ obj, Forwards e₀ n p obj

/-- After the turns `ts` the phone `p`, which is ready, closes the session in the turn `c`, and
it does not ask for it again in the turns `js`. -/
structure ClosedFor (ts : List Turn) (c : Turn) (js : List Turn) (p : PhoneId) (s : SessionId) :
    Prop where
  closes : Closes c p s
  ready : (Hub.run.final ts).hub.phones.lookup p = some .ready
  asks : ∀ e ∈ linesAfter ts c js, ¬ AsksAgain (linesAfter ts c js) e p s

/-- The promise: all through `js` the phone is detached, and it gets no update of the session
and no request from home about it. -/
structure Sticks (ts : List Turn) (c : Turn) (js : List Turn) (p : PhoneId) (s : SessionId) :
    Prop where
  detached : ∀ ks ls, js = ks ++ ls → ¬ (Hub.run.final (ts ++ [c] ++ ks)).hub.Attached p s
  silent : ∀ e ∈ linesAfter ts c js, ∀ g obj m, e.input.HomeSays g obj → obj.method.isSome →
    sessionIdIn obj = some s → .toPhone p m ∉ e.out

/-! ## 2. What the close does -/

/-- The session tables after a phone's session request, whether or not there is a link. -/
theorem Hub.forwardRequest_tables (h : Hub) (p : PhoneId) (origin : Json) (obj : Obj) :
    (h.forwardRequest p origin obj).1.watchers = h.watchers ∧
      (h.forwardRequest p origin obj).1.driver = h.driver := by
  unfold forwardRequest
  split
  · exact ⟨rfl, rfl⟩
  · exact ⟨rfl, rfl⟩

/-- A driver watches what it drives. -/
theorem Hub.WellKept.watches_of_attached {h : Hub} (hw : h.WellKept) {p : PhoneId} {s : SessionId}
    (hp : h.Attached p s) : h.Watches p s := by
  obtain ⟨r, hr⟩ := hw.roster
  rcases hp with hp | hp
  · exact hp
  · rw [hr.driver] at hp
    exact hr.watches.mpr (Roster.member_of_leader hp)

/-- **A close detaches its phone.** -/
theorem Closes.detaches {t : Turn} {h h' : Hub} {out : List Effect} {p : PhoneId} {s : SessionId}
    (hc : Closes t p s) (hp : h.phones.lookup p = some .ready) (hw : h.WellKept) (hw' : h'.WellKept)
    (heq : Loop.turn ⟨h, false⟩ t = (⟨h', false⟩, out)) : ¬ h'.Attached p s := by
  obtain ⟨obj, ht, hid, hmethod, hs⟩ := hc
  obtain ⟨id, hid⟩ := Option.isSome_iff_exists.mp hid
  obtain ⟨r, hr⟩ := hw.roster
  obtain ⟨o, hleft, htracks⟩ := hr.unwatch t.order p s
  have hready : h.phoneReady p := by simp [Hub.phoneReady, hp]
  have hprepare : h.prepare t.order p "session/close" obj = h.unwatch t.order p s := by
    simp [Hub.prepare, Hub.detach, hs]
  have hrpc : h.onRpc t.order p obj = (h.unwatch t.order p s).forwardRequest p id obj := by
    rw [← hprepare, ← Hub.onPhoneRequest_of_forwardable id
      ⟨by decide, by decide, fun _ _ => hready⟩]
    simp only [Hub.onRpc, hmethod, hid]
  rw [turn_rpc ht hp, hrpc] at heq
  have hh' : ((h.unwatch t.order p s).forwardRequest p id obj).1 = h' :=
    congrArg (fun x => x.1.hub) heq
  intro hattached
  have hwatches := hw'.watches_of_attached hattached
  unfold Hub.Watches at hwatches
  rw [← hh', (Hub.forwardRequest_tables _ p id obj).1] at hwatches
  have hmem := htracks.watches.mp hwatches
  rw [Function.update_self] at hmem
  exact (hleft.member.mp hmem).1 rfl

/-- After the turn of a close the phone is detached. -/
theorem Closes.detached_after {ts : List Turn} {c : Turn} {p : PhoneId} {s : SessionId}
    (hc : Closes c p s) (hp : (Hub.run.final ts).hub.phones.lookup p = some .ready) :
    ¬ (Hub.run.final (ts ++ [c])).hub.Attached p s := by
  have hrunning := running_of_phone hp
  have ⟨obj, ht, _⟩ := hc
  obtain ⟨h', out, heq, -⟩ := text_step hrunning ht
  have hr' : Run (Hub.run.history (ts ++ [c])) (Hub.run.final (ts ++ [c])).hub :=
    running (by rw [Hub.run.final_snoc, heq])
  have hbefore := Loop.eq_of_running hrunning
  rw [Hub.run.final_snoc, heq] at hr' ⊢
  rw [hbefore] at heq
  exact hc.detaches hp (running hrunning).wellKept hr'.wellKept heq

/-! ## 3. What can undo it -/

/-- Who is attached after a turn was attached before, or has attached in the turn. -/
theorem attached_of_turn (ts : List Turn) (t : Turn) {p : PhoneId} {s : SessionId}
    (hp : (Hub.run.final (ts ++ [t])).hub.Attached p s) :
    (Hub.run.final ts).hub.Attached p s ∨
      ((Hub.run.final ts).stopped = false ∧ Attaches t (Hub.run.final ts).hub p s) := by
  rw [Hub.run.final_snoc] at hp
  obtain ⟨-, heq⟩ | ⟨-, -, heq⟩ | ⟨hr, h', out, heq, hs⟩ := turn_cases ts t
  · rw [heq] at hp
    exact .inl hp
  · rw [heq, Hub.shutdown_eq] at hp
    exact .inl hp
  · rw [heq] at hp
    have hr' : Run (Hub.run.history (ts ++ [t])) (Hub.run.final (ts ++ [t])).hub :=
      running (by rw [Hub.run.final_snoc, heq])
    rw [Hub.run.final_snoc, heq] at hr'
    rcases hs.watches hr.wellKept (hr'.wellKept.watches_of_attached hp) with hold | hatt
    · exact .inl (.inl hold)
    · exact .inr ⟨Loop.stopped_of_turn heq, hatt⟩

theorem turn_request_ignored {t : Turn} {h : Hub} {g : HomeGen} {r : Obj}
    (hm : h.home.mux ≠ some g) (ht : t.HomeSays g r) (hreq : r.isRequest) :
    (Loop.turn ⟨h, false⟩ t).2 = [] := by
  have hinput : t.input = .recv (.homeFrame g (.acp (.ofObj r))) := ht
  have hparts : r.method.isSome ∧ r.id.isSome := by
    simpa [Obj.isRequest] using hreq
  have hframe : h.onHomeFrame t g (.acp (.ofObj r)) = (h, []) := by
    unfold Hub.onHomeFrame
    cases hrole : h.role g with
    | mux => exact absurd (Hub.role_eq_mux.mp hrole) hm
    | candidate => simp [Hub.onHomeAcp, hparts, hrole]
    | unknown => rfl
  simp [Loop.turn, hinput, Hub.handle, hframe]

/-- Nobody but those attached to a session hears of it. -/
theorem silent_of_detached {ts : List Turn} {pre post : List Line} {e : Line}
    (hsplit : Hub.run.history ts = pre ++ e :: post) {p : PhoneId} {s : SessionId}
    (hp : ¬ (hubOf e).Attached p s) {g : HomeGen} {obj m : Obj} (ht : e.input.HomeSays g obj)
    (hmethod : obj.method.isSome) (hs : sessionIdIn obj = some s) : .toPhone p m ∉ e.out := by
  intro hmem
  cases hid : obj.id with
  | none =>
    obtain ⟨-, ⟨-, -, -, ps, -, hps, hout⟩ | ⟨-, hout⟩⟩ := notification_line hsplit ht hmethod hid
    · rw [hout, List.mem_map] at hmem
      obtain ⟨q, hq, heq⟩ := hmem
      obtain ⟨rfl, -⟩ := Effect.toPhone.inj heq
      obtain ⟨s', hs', hwatches⟩ := Hub.mem_audience.mp ((hps q).mp hq).2
      obtain rfl := Option.some.inj (hs.symm.trans hs')
      exact hp (.inl hwatches)
    · rw [hout] at hmem
      exact absurd hmem List.not_mem_nil
  | some id =>
    obtain ⟨method, hmethod⟩ := Option.isSome_iff_exists.mp hmethod
    obtain ⟨hr, -, h', hturn, hstep⟩ := step_of_line hsplit hmem fun _ heq => by cases heq
    have hm : (hubOf e).home.mux = some g := by
      by_contra hm
      have hnone := turn_request_ignored hm ht (Obj.isRequest_of hmethod hid)
      rw [hturn] at hnone
      rw [show e.out = [] from hnone] at hmem
      exact absurd hmem List.not_mem_nil
    obtain ⟨cs, -, hcs, -, -, hout⟩ := hr.fan_out hm ht hmethod hid
    rw [hturn] at hout
    rw [show e.out = _ from hout, List.mem_map] at hmem
    obtain ⟨copy, hcopy, heq⟩ := hmem
    obtain ⟨rfl, -⟩ := Effect.toPhone.inj heq
    have haddressed := (hcs copy.1).mp (List.mem_map_of_mem hcopy)
    refine hp ?_
    simp only [Hub.addressed, hs] at haddressed
    split at haddressed
    · exact .inl haddressed
    · exact .inr (by simpa using haddressed)

/-- An answer that names the session attaches a phone that is ready. -/
theorem AnsweredWith.attaches {js : List Turn} {t : Turn} {out : List Effect} {p : PhoneId}
    {s : SessionId} {n : HomeReqId} (hans : AnsweredWith ⟨Hub.run.final js, t, out⟩ p s n)
    (hp : (Hub.run.final js).hub.phones.lookup p = some .ready) :
    (Hub.run.final (js ++ [t])).hub.Attached p s := by
  obtain ⟨g, r, origin, hset, hm, hs⟩ := hans
  have hset : Settles t (Hub.run.final js).hub g n r (.forwarded p origin) := hset
  have hrunning := running_of_holds hset.held
  obtain ⟨roster, hr⟩ := (running hrunning).wellKept.roster
  have hm : (Hub.run.final js).hub.home.mux = some g := hm
  rw [Hub.run.final_snoc]
  generalize Hub.run.final js = l at hset hp hrunning hr hm ⊢
  obtain ⟨h, stopped⟩ := l
  obtain rfl : stopped = false := hrunning
  have hturn : Hub.run.step ⟨h, false⟩ t = _ := turn_answer hset.held hset.said hset.answer
  rw [hturn]
  have hready : h.phoneReady p := by simpa [Hub.phoneReady] using hp
  have hattach : (h.onHomeResult g r).1.watchers = (h.watch p s).watchers := by
    have hparse : r.id.bind Json.asU64 = some n := by
      rw [hset.id_eq]
      rfl
    have hrole : Hub.role { h with outstanding := h.outstanding.erase n } g = .mux :=
      Hub.role_eq_mux.mpr hm
    have hwaits : h.outstanding.lookup n = _ := hset.waits
    unfold Hub.onHomeResult
    simp only [hparse, hwaits, hrole, ne_eq, not_true_eq_false, if_false]
    change (Hub.attach { h with outstanding := h.outstanding.erase n } p r).watchers = _
    rw [Hub.attach_outstanding]
    simp only [Hub.attach, hs]
  refine .inl ?_
  have hjoined := (hr.watch hready s).watches (p := p) (s := s)
  rw [Roster.join, Function.update_self, Roster.member_join] at hjoined
  have hwatches := hjoined.mpr (.inl rfl)
  unfold Hub.Watches at hwatches ⊢
  rwa [show (Loop.hub (_, _).1).watchers = _ from hattach]

/-! ## 4. When a close sticks -/

theorem linesAfter_append (ts : List Turn) (c : Turn) (ks : List Turn) (t : Turn) (ls : List Turn) :
    ∃ rest, linesAfter ts c (ks ++ t :: ls) = linesAfter ts c ks ++
      ⟨Hub.run.final (ts ++ [c] ++ ks), t,
        (Hub.run.step (Hub.run.final (ts ++ [c] ++ ks)) t).2⟩ :: rest := by
  rw [linesAfter, Hub.run.historyFrom_append, ← Hub.run.final_append]
  exact ⟨_, rfl⟩

theorem mem_linesAfter {ts : List Turn} {c : Turn} {js : List Turn} {e : Line}
    (he : e ∈ linesAfter ts c js) : ∃ ks t ls, js = ks ++ t :: ls ∧
      e = ⟨Hub.run.final (ts ++ [c] ++ ks), t,
        (Hub.run.step (Hub.run.final (ts ++ [c] ++ ks)) t).2⟩ := by
  obtain ⟨pre, post, hsplit⟩ := List.append_of_mem he
  obtain ⟨ks, t, ls, hjs, -, heq⟩ := Hub.run.historyFrom_eq_append hsplit
  rw [← Hub.run.final_append (ts ++ [c])] at heq
  exact ⟨ks, t, ls, hjs, heq⟩

/-- Without a late answer the phone stays detached. -/
theorem ClosedFor.detached {ts : List Turn} {c : Turn} {js : List Turn} {p : PhoneId}
    {s : SessionId} (hc : ClosedFor ts c js p s)
    (hlate : ∀ e ∈ linesAfter ts c js, ¬ LateAnswer (Hub.run.history (ts ++ [c])) e p s) :
    ∀ ks ls, js = ks ++ ls → ¬ (Hub.run.final (ts ++ [c] ++ ks)).hub.Attached p s := by
  intro ks
  induction ks using List.reverseRecOn with
  | nil =>
    rintro ls -
    rw [List.append_nil]
    exact hc.closes.detached_after hc.ready
  | append_singleton ks t ih =>
    intro ls hjs hattached
    rw [List.append_assoc, List.singleton_append] at hjs
    rw [← List.append_assoc] at hattached
    rcases attached_of_turn _ t hattached with hold | ⟨hrunning, hatt⟩
    · exact ih (t :: ls) hjs hold
    -- The line of the turn `t`, among the lines after the close.
    obtain ⟨rest, hlines⟩ := linesAfter_append ts c ks t ls
    rw [← hjs] at hlines
    have he : (⟨Hub.run.final (ts ++ [c] ++ ks), t,
        (Hub.run.step (Hub.run.final (ts ++ [c] ++ ks)) t).2⟩ : Line) ∈ linesAfter ts c js := by
      rw [hlines]
      simp
    obtain ⟨hready, hasks | ⟨g, n, r, origin, hset, hm, hs⟩⟩ := hatt
    · exact hc.asks _ he (.inl hasks)
    · have hans : AnsweredWith ⟨Hub.run.final (ts ++ [c] ++ ks), t,
          (Hub.run.step (Hub.run.final (ts ++ [c] ++ ks)) t).2⟩ p s n :=
        ⟨g, r, origin, hset, hm, hs⟩
      -- The request was sent before the close or after it.
      obtain ⟨e₀, he₀, obj, hf, -⟩ := (running hrunning).forwarded n p origin hset.waits
      rw [Hub.run.history_append] at he₀
      rcases List.mem_append.mp he₀ with hbefore | hafter
      · refine hlate _ he ⟨?_, n, hans, e₀, hbefore, obj, hf⟩
        simpa [Hub.phoneReady] using hready
      · refine hc.asks _ he (.inr ⟨n, hans, e₀, ?_, obj, hf⟩)
        rw [hlines]
        exact List.mem_append_left _ hafter

/-- **A close sticks**, until the phone asks again, exactly if no answer to a request that the
phone sent before the close, or to the close itself, comes late and names the session.  Such an
answer attaches the phone in the turn that relays it, so one direction needs only that turn; the
other is an induction on the turns after the close. -/
theorem close_sticks {ts : List Turn} {c : Turn} {js : List Turn} {p : PhoneId} {s : SessionId}
    (hc : ClosedFor ts c js p s) :
    Sticks ts c js p s ↔
      ∀ e ∈ linesAfter ts c js, ¬ LateAnswer (Hub.run.history (ts ++ [c])) e p s := by
  constructor
  · intro hsticks e he hlate
    obtain ⟨ks, t, ls, hjs, rfl⟩ := mem_linesAfter he
    obtain ⟨hp, n, hans, -⟩ := hlate
    refine hsticks.detached (ks ++ [t]) ls (by rw [hjs]; simp) ?_
    rw [← List.append_assoc]
    exact hans.attaches hp
  · intro hlate
    have hdetached := hc.detached hlate
    refine ⟨hdetached, fun e he g obj m ht hmethod hs => ?_⟩
    obtain ⟨ks, t, ls, hjs, rfl⟩ := mem_linesAfter he
    exact silent_of_detached (Hub.run.history_snoc _ t) (hdetached ks (t :: ls) hjs) ht hmethod hs

/-- Phone 1 has asked for the session `a`, and home has not answered yet. -/
def askedFor : List Turn := Turn.bringUp ++ [.phone 1 (request (.ofU64 1) "session/load" "a")]

def closeTurn : Turn := .phone 1 (request (.ofU64 2) "session/close" "a")

def namedAnswer : Turn :=
  .home 1 (Obj.ofFields [("id", .ofU64 2),
    ("result", .obj (Obj.ofFields [("sessionId", .str "a")]))])

/-- Phone 1 closes the session, and what comes next is not from a phone: it has not asked
again. -/
theorem closedFor_single {t : Turn} (ht : ∀ p obj, ¬ t.PhoneSays p obj) :
    ClosedFor askedFor closeTurn [t] 1 "a" where
  closes := ⟨_, rfl, by decide, by decide, by decide⟩
  ready := by decide +kernel
  asks := by
    have hsilent : ∀ e ∈ linesAfter askedFor closeTurn [t], ∀ p obj, ¬ e.input.PhoneSays p obj := by
      intro e he
      obtain ⟨ks, t', ls, hjs, rfl⟩ := mem_linesAfter he
      have hmem : t' ∈ [t] := by
        rw [hjs]
        simp
      rw [List.mem_singleton] at hmem
      exact hmem ▸ ht
    rintro e he (⟨obj, hin, -⟩ | ⟨n, -, e₀, he₀, obj, hf⟩)
    · exact hsilent e he 1 obj hin
    · exact hsilent e₀ he₀ 1 obj hf.asked

/-- Home answers the load and names no session, and phone 1 stays detached. -/
theorem close_sticks_of_plain_answer :
    Sticks askedFor closeTurn [.home 1 (answer (.ofU64 2))] 1 "a" := by
  have hclosed : ClosedFor askedFor closeTurn [.home 1 (answer (.ofU64 2))] 1 "a" :=
    closedFor_single fun p obj ht => by cases ht
  refine (close_sticks hclosed).mpr ?_
  rintro e he ⟨-, n, ⟨g, r, origin, hset, -, hs⟩, -⟩
  obtain ⟨ks, t, ls, hjs, rfl⟩ := mem_linesAfter he
  have hmem : t ∈ [Turn.home 1 (answer (.ofU64 2))] := by
    rw [hjs]
    simp
  rw [List.mem_singleton] at hmem
  subst hmem
  have hsaid : Turn.HomeSays (.home 1 (answer (.ofU64 2))) 1 (answer (.ofU64 2)) := rfl
  obtain ⟨-, rfl⟩ := hsaid.inj hset.said
  revert hs
  decide

/-- **A late answer undoes a close**: phone 1 loads `a` and closes it, the answer to the load
comes after that, and phone 1 watches `a` again. -/
theorem close_undone :
    ClosedFor askedFor closeTurn [namedAnswer] 1 "a" ∧
      ¬ Sticks askedFor closeTurn [namedAnswer] 1 "a" := by
  refine ⟨closedFor_single fun p obj ht => (by cases ht), fun hsticks => ?_⟩
  have hdetached := hsticks.detached [namedAnswer] [] rfl
  refine hdetached (.inl ?_)
  decide +kernel

end Aqualung
