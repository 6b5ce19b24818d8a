/-
# Updates of sessions

A `session/update` from the serving link goes to the phones that watch its session.  Who does is
decided by the whole history: `Run.attached` leads every watcher back to a request of its own or
to a result it was relayed.

What a phone receives is ONE list, in which updates and answers stand as they were sent, since a
phone has one queue.  The updates in it are those that were meant for it, in the order they came
(`received_updates`): a line brings a phone at most one, and every line that brings one is a
notification of the serving link (`HubStep.update_of_mem`).  An answer is received before the
updates that home sends after it for the same reason.
-/
import Aqualung.Hub.Admission

namespace Aqualung

open Lib

/-! ## 1. Updates, and what a phone receives -/

/-- A notification that a session has changed, under the plain method or with one underscore in
front. -/
def Obj.isUpdate (o : Obj) : Bool :=
  o.id.isNone && o.method.any fun method => methodOf method = "session/update"

theorem Obj.isUpdate_iff {o : Obj} :
    o.isUpdate ↔ o.id = none ∧ ∃ method, o.method = some method ∧
      methodOf method = "session/update" := by
  unfold isUpdate
  cases o.method <;> simp

theorem Obj.notification_of_isUpdate {o : Obj} (ho : o.isUpdate) :
    o.method.isSome ∧ o.id = none := by
  obtain ⟨hid, method, hmethod, -⟩ := isUpdate_iff.mp ho
  exact ⟨by simp [hmethod], hid⟩

/-- The phones that watch the session the object names. -/
def Hub.audience (h : Hub) (obj : Obj) : Finset PhoneId :=
  match sessionIdIn obj with
  | some s => (h.watchers.lookup s).getD ∅
  | none => ∅

theorem Hub.mem_audience {h : Hub} {obj : Obj} {p : PhoneId} :
    p ∈ h.audience obj ↔ ∃ s, sessionIdIn obj = some s ∧ h.Watches p s := by
  unfold audience Watches
  cases sessionIdIn obj <;> simp

/-- The text the effect sends to the phone `p`. -/
def Effect.textFor (p : PhoneId) (eff : Effect) : Option Obj :=
  eff.text.bind fun e => if e.1 = p then some e.2 else none

@[simp] theorem Effect.textFor_eq_some {p : PhoneId} {eff : Effect} {m : Obj} :
    eff.textFor p = some m ↔ eff = .toPhone p m := by
  simp only [textFor, Option.bind_eq_some_iff, Option.ite_none_right_eq_some, Option.some.injEq]
  constructor
  · rintro ⟨⟨q, m'⟩, htext, rfl, rfl⟩
    exact text_eq_some.mp htext
  · rintro rfl
    exact ⟨(p, m), rfl, rfl, rfl⟩

/-- What the phone `p` has been sent, in order. -/
def received (p : PhoneId) (hist : List Line) : List Obj := collect (Effect.textFor p) hist

/-- The update in the line that is meant for the phone `p`: the serving link sends it, and `p`
watches its session. -/
def updateFor (p : PhoneId) (e : Line) : Option Obj :=
  match e.input.input with
  | .recv (.homeFrame g (.acp (.value (.obj obj) false))) =>
    if e.before.stopped = false ∧ (hubOf e).home.mux = some g ∧ Obj.isUpdate obj ∧
        p ∈ (hubOf e).audience obj then some obj
    else none
  | _ => none

theorem updateFor_eq_some {p : PhoneId} {e : Line} {obj : Obj} :
    updateFor p e = some obj ↔ ∃ g, e.input.HomeSays g obj ∧ e.before.stopped = false ∧
      (hubOf e).home.mux = some g ∧ obj.isUpdate ∧ p ∈ (hubOf e).audience obj := by
  unfold updateFor
  constructor
  · intro heq
    split at heq
    · rename_i g fields hin
      split at heq
      · rename_i hall
        obtain rfl := Option.some.inj heq
        exact ⟨g, hin, hall⟩
      · cases heq
    · cases heq
  · rintro ⟨g, hin, hall⟩
    rw [show e.input.input = _ from hin]
    simp only [RpcText.ofObj]
    exact if_pos hall

theorem updateFor_eq_none {p : PhoneId} {e : Line}
    (h : ∀ g obj, e.input.HomeSays g obj → e.before.stopped = false → (hubOf e).home.mux = some g →
      obj.isUpdate → p ∉ (hubOf e).audience obj) : updateFor p e = none := by
  rw [Option.eq_none_iff_forall_ne_some]
  intro obj heq
  obtain ⟨g, ht, hrunning, hm, hup, haud⟩ := updateFor_eq_some.mp heq
  exact h g obj ht hrunning hm hup haud

/-! ## 2. What a notification does -/

/-- A notification from home changes nothing, and goes to `on_home_notification` if the link is
serving. -/
theorem turn_notification {l : Loop} {t : Turn} {g : HomeGen} {obj : Obj}
    (ht : t.HomeSays g obj) (hmethod : obj.method.isSome) (hid : obj.id = none) :
    l.turn t = (l, if l.stopped = false ∧ l.hub.home.mux = some g
      then l.hub.onHomeNotification t.order obj else []) := by
  obtain ⟨h, stopped⟩ := l
  cases stopped with
  | true => simp [Loop.turn_stopped]
  | false =>
    have hinput : t.input = .recv (.homeFrame g (.acp (.ofObj obj))) := ht
    have hframe : h.onHomeFrame t g (.acp (.ofObj obj))
        = (h, if h.home.mux = some g then h.onHomeNotification t.order obj else []) := by
      unfold Hub.onHomeFrame
      cases hrole : h.role g with
      | mux => simp [Hub.onHomeAcp, hmethod, hid, hrole, Hub.role_eq_mux.mp hrole]
      | candidate =>
        have hm := (Hub.role_eq_candidate.mp hrole).1
        simp [Hub.onHomeAcp, hmethod, hid, hrole, hm]
      | unknown =>
        have hm : h.home.mux ≠ some g := fun hm => Hub.role_eq_unknown.mp hrole (.inl hm)
        simp [hm]
    simp [Loop.turn, hinput, Hub.handle, hframe]

/-- An update goes to every phone that watches its session, once; another notification goes to
nobody. -/
theorem Hub.WellKept.onHomeNotification {h : Hub} (hw : h.WellKept) (order : IterOrder) {obj : Obj}
    (hid : obj.id = none) :
    ∃ ps : List PhoneId, ps.Nodup ∧ (∀ p, p ∈ ps ↔ obj.isUpdate ∧ p ∈ h.audience obj) ∧
      h.onHomeNotification order obj = ps.map fun p => .toPhone p obj := by
  have hnobody : ¬ obj.isUpdate ∨ h.audience obj = ∅ →
      ∃ ps : List PhoneId, ps.Nodup ∧ (∀ p, p ∈ ps ↔ obj.isUpdate ∧ p ∈ h.audience obj) ∧
        ([] : List Effect) = ps.map fun p => .toPhone p obj := by
    intro hnone
    refine ⟨[], .nil, fun p => ?_, rfl⟩
    rcases hnone with hnot | hempty
    · simp [hnot]
    · simp [hempty]
  unfold Hub.onHomeNotification
  cases hmethod : obj.method with
  | none => exact hnobody (.inl (by simp [Obj.isUpdate, hmethod]))
  | some method =>
    simp only
    split
    · rename_i hother
      exact hnobody (.inl (by simp [Obj.isUpdate, hmethod, hother]))
    rename_i hupdate
    have hup : obj.isUpdate := Obj.isUpdate_iff.mpr ⟨hid, method, hmethod, not_not.mp hupdate⟩
    cases hs : sessionIdIn obj with
    | none => exact hnobody (.inr (by simp [audience, hs]))
    | some s =>
      simp only
      cases hset : h.watchers.lookup s with
      | none => exact hnobody (.inr (by simp [audience, hs, hset]))
      | some set =>
        refine ⟨order.list s set, order.nodup s set, fun p => ?_, ?_⟩
        · simp [audience, hs, hset, hup, order.mem_iff]
        · rw [List.map_eq_flatMap]
          refine List.flatMap_congr fun p hp => ?_
          have hready := hw.tables.ready s set p hset ((order.mem_iff s set p).mp hp)
          exact sendPhone_of_lookup hready obj

/-- A notification in a history: what it sends. -/
theorem notification_line {ts : List Turn} {pre post : List Line} {e : Line}
    (hsplit : Hub.run.history ts = pre ++ e :: post) {g : HomeGen} {obj : Obj}
    (ht : e.input.HomeSays g obj) (hmethod : obj.method.isSome) (hid : obj.id = none) :
    (Hub.run.step e.before e.input).1 = e.before ∧
      ((e.before.stopped = false ∧ (hubOf e).home.mux = some g ∧ Run pre (hubOf e) ∧
          ∃ ps : List PhoneId, ps.Nodup ∧
            (∀ p, p ∈ ps ↔ obj.isUpdate ∧ p ∈ (hubOf e).audience obj) ∧
            e.out = ps.map fun p => .toPhone p obj) ∨
        (¬ (e.before.stopped = false ∧ (hubOf e).home.mux = some g) ∧ e.out = [])) := by
  obtain ⟨js, t, ks, -, rfl, rfl⟩ := Hub.run.history_eq_append hsplit
  have hturn : Hub.run.step (Hub.run.final js) t = _ := turn_notification ht hmethod hid
  refine ⟨congrArg Prod.fst hturn, ?_⟩
  by_cases hserving : (Hub.run.final js).stopped = false ∧ (Hub.run.final js).hub.home.mux = some g
  · have hr := running hserving.1
    obtain ⟨ps, hps, hmem, hout⟩ := hr.wellKept.onHomeNotification t.order hid
    refine .inl ⟨hserving.1, hserving.2, hr, ps, hps, hmem, ?_⟩
    rw [if_pos hserving] at hturn
    exact (congrArg Prod.snd hturn).trans hout
  · rw [if_neg hserving] at hturn
    exact .inr ⟨hserving, congrArg Prod.snd hturn⟩

/-- A text for a phone that is an update is one that home has sent. -/
theorem HubStep.update_of_mem {t : Turn} {h h' : Hub} {out : List Effect} (hs : HubStep t h h' out)
    {p : PhoneId} {m : Obj} (hmem : .toPhone p m ∈ out) (hm : m.isUpdate) :
    ∃ g, t.HomeSays g m ∧ m.method.isSome ∧ m.id = none := by
  obtain ⟨hid, method, hmethod, hup⟩ := Obj.isUpdate_iff.mp hm
  have hnote : ∀ {away}, m ≠ hostAwayNote away := by
    rintro away rfl
    obtain rfl : "aqualung/host_away" = method := by simpa using hmethod
    revert hup
    decide
  have hwithId : ∀ {r v}, m ≠ Obj.withId r v := by
    rintro r v rfl
    simp at hid
  have hanswer : m.method ≠ none := by simp [hmethod]
  cases hs with
  | accepted ht => simp at hmem
  | relayed hset hmux => exact absurd (Hub.mem_sendPhone.mp hmem).2.1 hwithId
  | promoted hc why =>
    cases hmux : h.home.mux with
    | none =>
      rw [hmux] at hmem
      exact absurd (Hub.mem_broadcastAway.mp hmem).2 hnote
    | some g => simp [hmux, Hub.promotionOut] at hmem
  | muxLost hmux ht =>
    rcases List.mem_cons.mp hmem with heq | hmem
    · cases heq
    · exact absurd (Hub.mem_broadcastAway.mp hmem).2 hnote
  | notified hmux ht hmeth hid' =>
    obtain ⟨rfl, -⟩ := Hub.mem_onHomeNotification hmem
    exact ⟨_, ht, hmeth, hid⟩
  | asked hmux ht hmeth hid' hsession hne =>
    obtain ⟨c, -, hc⟩ := List.mem_flatMap.mp hmem
    exact absurd (Hub.mem_sendPhone.mp hc).2.1 hwithId
  | refused ht hp hcode =>
    obtain ⟨-, rfl⟩ := Effect.toPhone.inj (List.mem_singleton.mp hmem)
    exact absurd (method_rpcError _ _ _) hanswer
  | initialized ht hid' hmeth hp =>
    rcases List.mem_cons.mp hmem with heq | hmem
    · obtain ⟨-, rfl⟩ := Effect.toPhone.inj heq
      exact absurd (method_initializeResult _) hanswer
    · split at hmem
      · exact absurd (Effect.toPhone.inj (List.mem_singleton.mp hmem)).2 hnote
      · exact absurd hmem List.not_mem_nil
  | requestAway ht hp hmeth hid' hf hmux =>
    obtain ⟨-, rfl⟩ := Effect.toPhone.inj (List.mem_singleton.mp hmem)
    exact absurd (method_rpcError _ _ _) hanswer
  | replied ht hp hmeth hreply hid' hkey hopen => simp at hmem
  | _ => simp at hmem

/-! ## 3. Who watches, and why -/

/-- In this line the phone `p` asks for the session `s`, or is relayed a result that names it. -/
def AttachedIn (e : Line) (p : PhoneId) (s : SessionId) : Prop :=
  (∃ obj, e.input.PhoneSays p obj ∧ obj.id.isSome ∧
      (obj.method = some "session/load" ∨ obj.method = some "session/resume") ∧
      sessionIdIn obj = some s) ∨
    ∃ r m, Relays e r p m ∧ sessionIdIn r = some s

theorem Attaches.attachedIn {t : Turn} {h h' : Hub} {out : List Effect} {p : PhoneId}
    {s : SessionId} (hatt : Attaches t h p s)
    (heq : Loop.turn ⟨h, false⟩ t = (⟨h', false⟩, out)) :
    AttachedIn ⟨⟨h, false⟩, t, out⟩ p s := by
  obtain ⟨hready, ⟨obj, ht, hid, hmethod, hsession⟩ | ⟨g, id, r, origin, hset, hm, hsession⟩⟩ :=
    hatt
  · exact .inl ⟨obj, ht, hid, hmethod, hsession⟩
  · have hp : h.phones.lookup p = some .ready := by simpa [Hub.phoneReady] using hready
    rw [turn_answer hset.held hset.said hset.answer] at heq
    have hout : out = [.toPhone p (r.withId origin)] := by
      rw [← show (h.onHomeResult g r).2 = out from congrArg Prod.snd heq,
        Hub.onHomeResult_relays hset.id_eq hm hset.waits, Hub.sendPhone_of_lookup hp]
    have hmethod : r.method.isNone := (Bool.and_eq_true_iff.mp hset.answer).1
    refine .inr ⟨r, r.withId origin, ⟨⟨g, hset.said⟩, hset.answer, ?_, ?_⟩, hsession⟩
    · rw [hout]
      exact List.mem_singleton_self _
    · simp [Obj.isAnswer, hmethod]

/-- **Every watcher has asked for its session, or was relayed a result that names it.** -/
theorem Run.attached {hist : List Line} {h : Hub} (hr : Run hist h) :
    ∀ p s, h.Watches p s → ∃ e ∈ hist, AttachedIn e p s := by
  induction hr with
  | start =>
    intro p s hp
    exact absurd hp (Finset.notMem_empty p)
  | turn hr heq ih =>
    intro p s hp
    rcases (step_of_turn heq).watches hr.wellKept hp with hold | hatt
    · obtain ⟨e, he, hin⟩ := ih p s hold
      exact ⟨e, List.mem_append_left _ he, hin⟩
    · exact ⟨_, List.mem_append_right _ (List.mem_singleton_self _), hatt.attachedIn heq⟩

/-! ## 4. What a phone receives in one line -/

theorem filterMap_textFor {ps : List PhoneId} (hps : ps.Nodup) (p : PhoneId) (m : Obj) :
    (ps.map fun q => Effect.toPhone q m).filterMap (Effect.textFor p)
      = if p ∈ ps then [m] else [] := by
  induction ps with
  | nil => rfl
  | cons q ps ih =>
    rw [List.nodup_cons] at hps
    rw [List.map_cons, List.filterMap_cons]
    by_cases hq : q = p
    · subst hq
      have hrest : (ps.map fun q' => Effect.toPhone q' m).filterMap (Effect.textFor q) = [] := by
        rw [ih hps.2, if_neg hps.1]
      simp [Effect.textFor, Effect.text, hrest]
    · have hrest := ih hps.2
      simp [Effect.textFor, Effect.text, hq, Ne.symm hq] at hrest ⊢
      exact hrest

/-- The updates a phone receives in a line are the one that was meant for it. -/
theorem textFor_filter_update {ts : List Turn} {pre post : List Line} {e : Line}
    (hsplit : Hub.run.history ts = pre ++ e :: post) (p : PhoneId) :
    (e.out.filterMap (Effect.textFor p)).filter Obj.isUpdate = (updateFor p e).toList := by
  by_cases hnote : ∃ g obj, e.input.HomeSays g obj ∧ obj.method.isSome ∧ obj.id = none
  · obtain ⟨g, obj, ht, hmethod, hid⟩ := hnote
    obtain ⟨-, ⟨hrunning, hm, -, ps, hps, hmem, hout⟩ | ⟨hnot, hout⟩⟩ :=
      notification_line hsplit ht hmethod hid
    · rw [hout, filterMap_textFor hps]
      by_cases hp : p ∈ ps
      · obtain ⟨hup, haud⟩ := (hmem p).mp hp
        have hfor : updateFor p e = some obj :=
          updateFor_eq_some.mpr ⟨g, ht, hrunning, hm, hup, haud⟩
        simp [hp, hup, hfor]
      · have hfor : updateFor p e = none := by
          refine updateFor_eq_none fun g' obj' ht' _ _ hup haud => ?_
          obtain ⟨-, rfl⟩ := ht.inj ht'
          exact hp ((hmem p).mpr ⟨hup, haud⟩)
        simp [hp, hfor]
    · have hfor : updateFor p e = none := by
        refine updateFor_eq_none fun g' obj' ht' hrunning hm _ _ => ?_
        obtain ⟨rfl, -⟩ := ht.inj ht'
        exact hnot ⟨hrunning, hm⟩
      rw [hout, hfor]
      rfl
  · have hfor : updateFor p e = none := by
      refine updateFor_eq_none fun g obj ht _ _ hup _ => ?_
      obtain ⟨hmethod, hid⟩ := Obj.notification_of_isUpdate hup
      exact hnote ⟨g, obj, ht, hmethod, hid⟩
    rw [hfor, Option.toList_none, List.filter_eq_nil_iff]
    intro m hm hup
    obtain ⟨eff, heff, htext⟩ := List.mem_filterMap.mp hm
    obtain rfl := Effect.textFor_eq_some.mp htext
    obtain ⟨-, -, h', -, hs⟩ := step_of_line hsplit heff fun _ heq => by cases heq
    obtain ⟨g, ht, hmethod, hid⟩ := hs.update_of_mem heff hup
    exact hnote ⟨g, m, ht, hmethod, hid⟩

/-- **The updates a phone receives are those meant for it, in the order they came.** -/
theorem received_updates (ts : List Turn) (p : PhoneId) :
    (received p (Hub.run.history ts)).filter Obj.isUpdate
      = (Hub.run.history ts).filterMap (updateFor p) := by
  induction ts using List.reverseRecOn with
  | nil => rfl
  | append_singleton ts t ih =>
    rw [Hub.run.history_snoc, received, collect_append, collect_singleton, List.filter_append,
      List.filterMap_append, ← received, ih, textFor_filter_update (Hub.run.history_snoc ts t)]
    cases hfor : updateFor p ⟨Hub.run.final ts, t, (Hub.run.step (Hub.run.final ts) t).2⟩ with
    | none => simp [hfor]
    | some obj => simp [hfor]

/-! ## 5. Fan-out -/

/-- What the hub promises of the notifications of home. -/
structure FanOut (hist : List Line) : Prop where
  /-- An update from the serving link goes to every phone that watches its session, once and as
  it is, and nothing else goes out. -/
  exactly : ∀ pre e post, hist = pre ++ e :: post → e.before.stopped = false →
    ∀ g obj s, (hubOf e).home.mux = some g → e.input.HomeSays g obj → obj.isUpdate →
      sessionIdIn obj = some s →
      ∃ ps : List PhoneId, ps.Nodup ∧ (∀ p, p ∈ ps ↔ (hubOf e).Watches p s) ∧
        e.out = ps.map fun p => .toPhone p obj
  /-- Those phones are connected and ready, they have been answered `initialize`, and each has
  asked for the session before or was relayed a result that names it. -/
  recipients : ∀ pre e post, hist = pre ++ e :: post → ∀ g obj s p, e.input.HomeSays g obj →
    obj.isUpdate → sessionIdIn obj = some s → .toPhone p obj ∈ e.out →
      (hubOf e).phones.lookup p = some .ready ∧ AnsweredInitialize pre p ∧
        ∃ e₀ ∈ pre, AttachedIn e₀ p s
  /-- The updates a phone receives are those meant for it, in the order they came. -/
  ordered : ∀ p, (received p hist).filter Obj.isUpdate = hist.filterMap (updateFor p)
  /-- A result, with which a phone attaches to the session it names, is received before the
  updates that come later. -/
  result_first : ∀ pre e mid e' post, hist = pre ++ e :: (mid ++ e' :: post) →
    ∀ r p m u, Relays e r p m → updateFor p e' = some u →
      received p hist = received p pre ++ m :: (received p mid ++ u :: received p post)
  /-- No other notification sends anything, and none changes the hub. -/
  others : ∀ pre e post, hist = pre ++ e :: post → ∀ g obj, e.input.HomeSays g obj →
    obj.method.isSome → obj.id = none →
      (Hub.run.step e.before e.input).1 = e.before ∧
        (¬ (e.before.stopped = false ∧ (hubOf e).home.mux = some g ∧ obj.isUpdate ∧
          (sessionIdIn obj).isSome) → e.out = [])

theorem textFor_of_updateFor {ts : List Turn} {pre post : List Line} {e : Line}
    (hsplit : Hub.run.history ts = pre ++ e :: post) {p : PhoneId} {u : Obj}
    (hfor : updateFor p e = some u) : e.out.filterMap (Effect.textFor p) = [u] := by
  obtain ⟨g, ht, hrunning, hm, hup, haud⟩ := updateFor_eq_some.mp hfor
  obtain ⟨hmethod, hid⟩ := Obj.notification_of_isUpdate hup
  obtain ⟨-, ⟨-, -, -, ps, hps, hmem, hout⟩ | ⟨hnot, -⟩⟩ := notification_line hsplit ht hmethod hid
  · rw [hout, filterMap_textFor hps, if_pos ((hmem p).mpr ⟨hup, haud⟩)]
  · exact absurd ⟨hrunning, hm⟩ hnot

theorem textFor_of_relays {ts : List Turn} {pre post : List Line} {e : Line}
    (hsplit : Hub.run.history ts = pre ++ e :: post) {r m : Obj} {p : PhoneId}
    (hrel : Relays e r p m) : e.out.filterMap (Effect.textFor p) = [m] := by
  obtain ⟨-, -, h', -, hs⟩ := step_of_line hsplit hrel.sent fun _ heq => by cases heq
  obtain ⟨g, hsaid⟩ := hrel.said
  obtain ⟨-, -, -, -, -, hout, -⟩ := hs.relays hsaid hrel.answer hrel.sent hrel.relayed
  rw [hout]
  simp [Effect.textFor, Effect.text]

/-- **The fan-out of updates is exact**, in every run: an update from the serving link goes once
to each phone that watches its session, and to no other; each phone gets its updates in order;
and every other notification goes nowhere. -/
theorem fan_out_exact (ts : List Turn) : FanOut (Hub.run.history ts) := by
  refine ⟨?exactly, ?recipients, received_updates ts, ?result_first, ?others⟩
  case exactly =>
    intro pre e post hsplit hrunning g obj s hm ht hup hs
    obtain ⟨hmethod, hid⟩ := Obj.notification_of_isUpdate hup
    obtain ⟨-, ⟨-, -, -, ps, hps, hmem, hout⟩ | ⟨hnot, -⟩⟩ :=
      notification_line hsplit ht hmethod hid
    · refine ⟨ps, hps, fun p => ?_, hout⟩
      rw [hmem, Hub.mem_audience]
      constructor
      · rintro ⟨-, s', hs', hp⟩
        obtain rfl := Option.some.inj (hs.symm.trans hs')
        exact hp
      · exact fun hp => ⟨hup, s, hs, hp⟩
    · exact absurd ⟨hrunning, hm⟩ hnot
  case recipients =>
    intro pre e post hsplit g obj s p ht hup hs hp
    obtain ⟨hmethod, hid⟩ := Obj.notification_of_isUpdate hup
    obtain ⟨-, ⟨-, -, hr, ps, -, hmem, hout⟩ | ⟨-, hout⟩⟩ := notification_line hsplit ht hmethod hid
    · rw [hout, List.mem_map] at hp
      obtain ⟨q, hq, heq⟩ := hp
      obtain ⟨rfl, -⟩ := Effect.toPhone.inj heq
      obtain ⟨s', hs', hwatches⟩ := Hub.mem_audience.mp ((hmem q).mp hq).2
      obtain rfl := Option.some.inj (hs.symm.trans hs')
      have hready := hr.wellKept.ready_of_watches hwatches
      exact ⟨hready, hr.initialized q hready, hr.attached q s hwatches⟩
    · rw [hout] at hp
      exact absurd hp List.not_mem_nil
  case result_first =>
    intro pre e mid e' post hsplit r p m u hrel hfor
    have hassoc : Hub.run.history ts = (pre ++ e :: mid) ++ e' :: post := by rw [hsplit]; simp
    have hresult := textFor_of_relays hsplit hrel
    have hupdate := textFor_of_updateFor hassoc hfor
    rw [hsplit]
    simp [received, collect_cons, hresult, hupdate]
  case others =>
    intro pre e post hsplit g obj ht hmethod hid
    obtain ⟨hsame, ⟨hrunning, hm, -, ps, -, hmem, hout⟩ | ⟨-, hout⟩⟩ :=
      notification_line hsplit ht hmethod hid
    · refine ⟨hsame, fun hnot => ?_⟩
      have hnone : ps = [] := List.eq_nil_iff_forall_not_mem.mpr fun p hp => by
        obtain ⟨hup, haud⟩ := (hmem p).mp hp
        obtain ⟨s, hs, -⟩ := Hub.mem_audience.mp haud
        exact hnot ⟨hrunning, hm, hup, by simp [hs]⟩
      rw [hout, hnone]
      rfl
    · exact ⟨hsame, fun _ => hout⟩

end Aqualung
