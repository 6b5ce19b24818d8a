/-
# What a phone may ask for

A phone has to be answered `initialize` before the hub sends its session methods home, and a
request that the hub answers with an error should have no other effect.  Each of the two is
checked in some branches of `on_phone_request` and not in others.

The check that a phone is ready stands before `session/load` and `session/resume`, and before
every other session method but `session/close`; notifications are not checked at all.  The
check that home is there comes last, in `forward_request`, when the session tables have been
updated.  `initialize_first` and `rejected_text` say exactly what follows.

Section 2 says what the hub makes of a text: `ForwardsAs` is the object that goes home for it, if
there is a link, and `HubStep.forwards_of_text` that nothing else does.  The rest compares the
branches.  For rejected requests the session tables are compared as rosters: to watch where one
watches already is to join a crew one is in, and changes nothing.
-/
import Aqualung.Hub.Away
import Aqualung.Hub.Isolation

namespace Aqualung

open Lib

/-! ## 1. Who is ready -/

/-- The hub has answered `initialize` to the phone `p`. -/
def AnsweredInitialize (hist : List Line) (p : PhoneId) : Prop :=
  ∃ e ∈ hist, ∃ id, .toPhone p (initializeResult id) ∈ e.out

/-- A phone that is ready was ready before, or it is answered `initialize`. -/
theorem HubStep.ready {t : Turn} {h h' : Hub} {out : List Effect} (hs : HubStep t h h' out)
    {p : PhoneId} (hp : h'.phones.lookup p = some .ready) :
    h.phones.lookup p = some .ready ∨ ∃ id, .toPhone p (initializeResult id) ∈ out := by
  cases hs with
  | hello ht =>
    rw [Table.lookup_insert_eq] at hp
    split at hp
    · cases hp
    · exact .inl hp
  | initialized ht hid hmethod hphone =>
    rw [Table.lookup_insert_erase] at hp
    split at hp
    · rename_i heq
      subst heq
      exact .inr ⟨_, List.mem_cons_self⟩
    · exact .inl hp
  | phoneLeft ht =>
    simp only [Hub.onPhoneEof, Table.lookup_erase_eq] at hp
    split at hp
    · cases hp
    · exact .inl hp
  | _ => exact .inl hp

theorem Run.initialized {hist : List Line} {h : Hub} (hr : Run hist h) :
    ∀ p, h.phones.lookup p = some .ready → AnsweredInitialize hist p := by
  refine hr.invariant (P := fun hist h => ∀ p, h.phones.lookup p = some .ready →
    AnsweredInitialize hist p) (fun _ hp => by cases hp) ?_
  intro hist h t h' out hr hs hi p hp
  rcases hs.ready hp with hold | ⟨id, hout⟩
  · obtain ⟨e, he, id, hout⟩ := hi p hold
    exact ⟨e, List.mem_append_left _ he, id, hout⟩
  · exact ⟨_, List.mem_append_right _ (List.mem_singleton_self _), id, hout⟩

/-! ## 2. What the hub makes of a text -/

/-- A message of the phone `p` goes home as `m`, if there is a link. -/
inductive Hub.ForwardsAs (h : Hub) (p : PhoneId) (obj : Obj) : Obj → Prop
  | request {method : String} {id : Json} (hp : p ∈ h.phones)
      (hmethod : obj.method = some method) (hid : obj.id = some id) (hf : h.Forwardable p method) :
      ForwardsAs h p obj (obj.withId (.ofU64 (h.nextReq + 1)))
  | notification (hp : p ∈ h.phones) (hmethod : obj.method.isSome) (hid : obj.id = none) :
      ForwardsAs h p obj obj
  | reply {origin homeId : JsonId} {key : HomeReqId} (hp : p ∈ h.phones)
      (hmethod : obj.method = none)
      (hreply : (obj.get "result").isSome ∨ (obj.get "error").isSome)
      (hid : obj.id = some origin) (hkey : h.reverse.lookup (p, origin) = some key)
      (hopen : h.claims.lookup key = some (.opened homeId)) :
      ForwardsAs h p obj (obj.withId homeId)

theorem Hub.ForwardsAs.connected {h : Hub} {p : PhoneId} {obj m : Obj} (hf : h.ForwardsAs p obj m) :
    p ∈ h.phones := by
  cases hf with
  | request hp => exact hp
  | notification hp => exact hp
  | reply hp => exact hp

/-- What goes home of a phone's text is an object, and goes on the serving link. -/
theorem HubStep.forwards_of_text {t : Turn} {h h' : Hub} {out : List Effect}
    (hs : HubStep t h h' out) {p : PhoneId} {text : RpcText}
    (ht : t.input = .recv (.phoneText p text)) {g : HomeGen} {msg : LeaderClient}
    (hmem : .toHome g msg ∈ out) :
    h.home.mux = some g ∧ ∃ obj m, text = .ofObj obj ∧ msg = .acp m ∧ h.ForwardsAs p obj m := by
  have hphone : t.OfPhone h p := ⟨_, ht, rfl⟩
  have hsame : ∀ {q obj}, t.PhoneSays q obj → p = q ∧ text = .ofObj obj := fun hin =>
    ToHub.phoneText.inj (Input.recv.inj (ht.symm.trans hin))
  cases hs with
  | accepted hin => cases hphone.phone_eq hin
  | initializing hc why =>
    obtain ⟨msg, hin⟩ := why.fromHome
    exact absurd hin hphone.not_home
  | relayed hset hm => exact absurd hset.said hphone.not_home
  | loading hc hset he hne => exact absurd hset.said hphone.not_home
  | promoted hc why => exact absurd why.said hphone.not_home
  | muxLost hm hin =>
    rcases hin with hin | ⟨message, hin⟩
    · exact absurd hin (hphone.not_homeEof _)
    · exact absurd hin hphone.not_home
  | notified hm hin hmethod hid => exact absurd hin hphone.not_home
  | asked hm hin hmethod hid hsession hne => exact absurd hin hphone.not_home
  | initialized hin hid hmethod hp => split at hmem <;> simp at hmem
  | requestForwarded hin hp hmethod hid hf hm =>
    obtain ⟨rfl, htext⟩ := hsame hin
    cases List.mem_singleton.mp hmem
    exact ⟨hm, _, _, htext, rfl, .request (Table.mem_iff_exists.mpr ⟨_, hp⟩) hmethod hid hf⟩
  | notificationForwarded hin hp hmethod hid hm =>
    obtain ⟨rfl, htext⟩ := hsame hin
    cases List.mem_singleton.mp hmem
    exact ⟨hm, _, _, htext, rfl, .notification (Table.mem_iff_exists.mpr ⟨_, hp⟩) hmethod hid⟩
  | replied hin hp hmethod hreply hid hkey hopen =>
    obtain ⟨rfl, htext⟩ := hsame hin
    simp only [Option.mem_toList, Option.map_eq_some_iff] at hmem
    obtain ⟨g', hm, heq⟩ := hmem
    cases heq
    exact ⟨hm, _, _, htext, rfl,
      .reply (Table.mem_iff_exists.mpr ⟨_, hp⟩) hmethod hreply hid hkey hopen⟩
  | _ => simp at hmem

theorem turn_rpc {t : Turn} {h : Hub} {p : PhoneId} {phone : Phone} {obj : Obj}
    (ht : t.PhoneSays p obj) (hp : h.phones.lookup p = some phone) :
    Loop.turn ⟨h, false⟩ t
      = (⟨(h.onRpc t.order p obj).1, false⟩, (h.onRpc t.order p obj).2) := by
  simp [Loop.turn, show t.input = .recv (.phoneText p (.ofObj obj)) from ht, Hub.handle,
    Hub.onPhoneText, hp]

theorem rpc_line {ts : List Turn} {pre post : List Line} {e : Line}
    (hsplit : Hub.run.history ts = pre ++ e :: post) {p : PhoneId} {phone : Phone} {obj : Obj}
    (ht : e.input.PhoneSays p obj) (hp : (hubOf e).phones.lookup p = some phone) :
    Run pre (hubOf e) ∧ e.out = ((hubOf e).onRpc e.input.order p obj).2 := by
  obtain ⟨js, t, ks, -, rfl, rfl⟩ := Hub.run.history_eq_append hsplit
  have hl : (Hub.run.final js).stopped = false := running_of_phone hp
  refine ⟨running hl, ?_⟩
  have hbefore := Loop.eq_of_running hl
  change (Loop.turn (Hub.run.final js) t).2 = _
  rw [hbefore, turn_rpc ht hp]

/-! ## 3. `initialize` comes first -/

/-- The line sends the object home, under some id. -/
def SendsHome (e : Line) (obj : Obj) : Prop :=
  ∃ g m, .toHome g (.acp m) ∈ e.out ∧ m.withId .null = obj.withId .null

/-- What a phone that is not ready gets for a session method. -/
theorem Hub.onRpc_unready {h : Hub} {order : IterOrder} {p : PhoneId} {obj : Obj}
    {method : String} (hp : h.phones.lookup p = some .connected)
    (hmethod : obj.method = some method) (hsession : isSessionMethod method) {id : Json}
    (hid : obj.id = some id) (hclose : method ≠ "session/close") :
    h.onRpc order p obj = (h, [.toPhone p (rpcError id (-32600) "phone has not initialized")]) := by
  have hready : ¬ h.phoneReady p := by simp [phoneReady, hp]
  have hinit : method ≠ "initialize" := by
    rintro rfl
    cases hsession
  have hauth : method ≠ "authenticate" := by
    rintro rfl
    cases hsession
  simp only [onRpc, hmethod, hid, onPhoneRequest, if_neg hinit, if_neg hauth, if_neg hclose,
    if_pos hready, if_pos (And.intro hsession hready), sendPhone_of_lookup hp, ite_self]

/-- The promise: what goes home of a phone's session methods is of phones that have been
answered `initialize`. -/
def InitializeFirst (hist : List Line) : Prop :=
  ∀ pre e post, hist = pre ++ e :: post → ∀ p obj method, e.input.PhoneSays p obj →
    obj.method = some method → isSessionMethod method → SendsHome e obj →
      (hubOf e).phones.lookup p = some .ready ∧ AnsweredInitialize pre p

/-- The line brings a session method that nobody checks, from a phone that is not ready: a
notification or a `session/close`, with a link to send it on. -/
def Unchecked (e : Line) : Prop :=
  ∃ p obj method, e.input.PhoneSays p obj ∧ obj.method = some method ∧ isSessionMethod method ∧
    (hubOf e).phones.lookup p = some .connected ∧ (hubOf e).home.mux.isSome ∧
      (obj.id = none ∨ method = "session/close")

theorem Unchecked.sends {ts : List Turn} {pre post : List Line} {e : Line}
    (hsplit : Hub.run.history ts = pre ++ e :: post) (hun : Unchecked e) :
    ∃ p obj method, e.input.PhoneSays p obj ∧ obj.method = some method ∧
      isSessionMethod method ∧ SendsHome e obj ∧ (hubOf e).phones.lookup p = some .connected := by
  obtain ⟨p, obj, method, ht, hmethod, hsession, hp, hm, hwhy⟩ := hun
  obtain ⟨g, hm⟩ := Option.isSome_iff_exists.mp hm
  obtain ⟨-, hout⟩ := rpc_line hsplit ht hp
  refine ⟨p, obj, method, ht, hmethod, hsession, ?_, hp⟩
  cases hid : obj.id with
  | none =>
    refine ⟨g, obj, ?_, rfl⟩
    rw [hout]
    simp [Hub.onRpc, hmethod, hid, Hub.forwardNotification_eq, hm]
  | some id =>
    obtain rfl : method = "session/close" := by
      rcases hwhy with hnone | hclose
      · rw [hnone] at hid
        cases hid
      · exact hclose
    have hforward := turn_forwardable ht hp hmethod hid
      ⟨by decide, by decide, fun _ hne => absurd rfl hne⟩
    rw [turn_rpc ht hp, hm] at hforward
    refine ⟨g, obj.withId (.ofU64 ((hubOf e).nextReq + 1)), ?_, Obj.withId_withId _ _ _⟩
    rw [hout, hforward]
    exact List.mem_singleton_self _

/-- **`initialize` comes first in a run exactly if no line of it is unchecked.**  A line that is
unchecked sends home a notification or a `session/close` of a phone that has not been answered
`initialize`; every other session method is checked before it is forwarded. -/
theorem initialize_first (ts : List Turn) :
    InitializeFirst (Hub.run.history ts) ↔ ∀ e ∈ Hub.run.history ts, ¬ Unchecked e := by
  constructor
  · intro hfirst e he hun
    obtain ⟨pre, post, hsplit⟩ := List.append_of_mem he
    obtain ⟨p, obj, method, ht, hmethod, hsession, hsends, hp⟩ := hun.sends hsplit
    obtain ⟨hready, -⟩ := hfirst pre e post hsplit p obj method ht hmethod hsession hsends
    rw [hp] at hready
    cases hready
  · intro hchecked pre e post hsplit p obj method ht hmethod hsession ⟨g, m, hmem, hsame⟩
    have he : e ∈ Hub.run.history ts := by
      rw [hsplit]
      simp
    obtain ⟨hr, -, h', -, hs⟩ := step_of_line hsplit hmem fun _ heq => by cases heq
    -- The link and the phone are those of the step that sends the object.
    obtain ⟨hmux, obj', m', -, -, hf⟩ := hs.forwards_of_text ht hmem
    have hm : (hubOf e).home.mux.isSome := by simp [hmux]
    obtain ⟨phone, hp⟩ := Table.mem_iff_exists.mp hf.connected
    cases phone with
    | ready => exact ⟨hp, hr.initialized p hp⟩
    | connected =>
      exfalso
      cases hid : obj.id with
      | none => exact hchecked e he ⟨p, obj, method, ht, hmethod, hsession, hp, hm, .inl hid⟩
      | some id =>
        by_cases hclose : method = "session/close"
        · exact hchecked e he ⟨p, obj, method, ht, hmethod, hsession, hp, hm, .inr hclose⟩
        · rw [(rpc_line hsplit ht hp).2, Hub.onRpc_unready hp hmethod hsession hid hclose,
            List.mem_singleton] at hmem
          cases hmem

def freshPhone : List Turn := Turn.bringUp ++ [.get .phoneHello]

def cancelNote : Obj :=
  Obj.ofFields [("method", .str "session/cancel"),
    ("params", .obj (Obj.ofFields [("sessionId", .str "a")]))]

/-- **A notification goes home before `initialize`.** -/
theorem cancel_before_initialize :
    ¬ InitializeFirst (Hub.run.history (freshPhone ++ [.phone 2 cancelNote])) := by
  intro hfirst
  have hsends : SendsHome ⟨Hub.run.final freshPhone, .phone 2 cancelNote,
      (Hub.run.step (Hub.run.final freshPhone) (.phone 2 cancelNote)).2⟩ cancelNote :=
    ⟨1, cancelNote, by decide +kernel, rfl⟩
  obtain ⟨hready, -⟩ := hfirst _ _ [] (Hub.run.history_snoc freshPhone (.phone 2 cancelNote)) 2
    cancelNote "session/cancel" rfl (by decide) (by decide) hsends
  revert hready
  decide +kernel

/-! ## 4. What a rejected request leaves behind -/

/-- The hub answers the phone `p` with an error of its own. -/
def Rejects (out : List Effect) (p : PhoneId) : Prop :=
  ∃ id code message, .toPhone p (rpcError id code message) ∈ out

/-- The turn has changed no table, and sends nothing home. -/
structure NoTrace (h h' : Hub) (out : List Effect) : Prop where
  phones : h'.phones = h.phones
  watchers : ∀ s, h'.watchers.lookup s = h.watchers.lookup s
  driver : ∀ s, h'.driver.lookup s = h.driver.lookup s
  outstanding : h'.outstanding = h.outstanding
  reverse : h'.reverse = h.reverse
  claims : h'.claims = h.claims
  home : h'.home = h.home
  silent : ∀ g msg, .toHome g msg ∉ out

/-- The promise: a text that the hub answers with an error leaves no trace. -/
def RejectsCleanly (ts : List Turn) (t : Turn) : Prop :=
  ∀ p text, t.input = .recv (.phoneText p text) →
    Rejects (Hub.run.step (Hub.run.final ts) t).2 p →
      NoTrace (Hub.run.final ts).hub (Hub.run.step (Hub.run.final ts) t).1.hub
        (Hub.run.step (Hub.run.final ts) t).2

/-- The host is away, and a phone that is ready asks to attach to a session it does not watch,
or to close one that it watches. -/
def MovesWhileAway (t : Turn) (h : Hub) : Prop :=
  ∃ p obj s, t.PhoneSays p obj ∧ obj.id.isSome ∧ sessionIdIn obj = some s ∧
    h.phones.lookup p = some .ready ∧ h.home.mux = none ∧
      (((obj.method = some "session/load" ∨ obj.method = some "session/resume") ∧
          ¬ h.Watches p s) ∨
        (obj.method = some "session/close" ∧ h.Watches p s))

namespace Hub.Tracks

variable {h h' : Hub} {r : Roster SessionId PhoneId}

theorem same_tables (hr : h.Tracks r) (hr' : h'.Tracks r) :
    (∀ s, h'.watchers.lookup s = h.watchers.lookup s) ∧
      ∀ s, h'.driver.lookup s = h.driver.lookup s := by
  constructor
  · intro s
    rw [hr.watchers, hr'.watchers]
  · intro s
    rw [hr.driver, hr'.driver]

/-- A request that neither attaches its phone nor detaches it leaves the roster as it is. -/
theorem prepare_same (hr : h.Tracks r) (order : IterOrder) {p : PhoneId} {method : String}
    {obj : Obj}
    (hload : ∀ s, sessionIdIn obj = some s → method = "session/load" ∨ method = "session/resume" →
      h.phoneReady p → h.Watches p s)
    (hclose : ∀ s, sessionIdIn obj = some s → method = "session/close" → ¬ h.Watches p s) :
    (h.prepare order p method obj).Tracks r := by
  unfold Hub.prepare
  split
  · rename_i hmethod
    unfold Hub.attach
    cases hs : sessionIdIn obj with
    | none => exact hr
    | some s =>
      simp only
      by_cases hp : h.phoneReady p
      · have hjoined := hr.watch hp s
        rwa [Roster.join_of_member (hr.watches.mp (hload s hs hmethod hp))] at hjoined
      · rwa [watch_of_not_ready hp]
  · split
    · rename_i hmethod
      unfold Hub.detach
      cases hs : sessionIdIn obj with
      | none => exact hr
      | some s =>
        obtain ⟨o, hleft, htracks⟩ := hr.unwatch order p s
        have hnot := mt hr.watches.mpr (hclose s hs hmethod)
        rwa [hleft.stranger hnot, Function.update_eq_self] at htracks
    · exact hr

end Hub.Tracks

/-- What the hub makes of a forwardable request while the host is away. -/
theorem Hub.onRpc_away {h : Hub} {order : IterOrder} {p : PhoneId} {phone : Phone} {obj : Obj}
    {method : String} {id : Json} (hp : h.phones.lookup p = some phone)
    (hmethod : obj.method = some method) (hid : obj.id = some id) (hf : h.Forwardable p method)
    (hm : h.home.mux = none) :
    h.onRpc order p obj = (h.prepare order p method obj, [.toPhone p (h.awayError id)]) := by
  simp only [onRpc, hmethod, hid, onPhoneRequest_of_forwardable id hf]
  rw [prepare_eq, forwardRequest, muxLink_eq]
  simp only [hm, Option.map_none, sendPhone, hp]
  rfl

/-- A phone that moves while the host is away is rejected, and has moved. -/
theorem MovesWhileAway.trace {t : Turn} {h : Hub} (hw : h.WellKept) (hmoves : MovesWhileAway t h) :
    ∃ p text, t.input = .recv (.phoneText p text) ∧ Rejects (Loop.turn ⟨h, false⟩ t).2 p ∧
      ∃ s, ¬ ((Loop.turn ⟨h, false⟩ t).1.hub.Watches p s ↔ h.Watches p s) := by
  obtain ⟨p, obj, s, ht, hid, hs, hp, hm, hwhy⟩ := hmoves
  obtain ⟨id, hid⟩ := Option.isSome_iff_exists.mp hid
  obtain ⟨r, hr⟩ := hw.roster
  have hready : h.phoneReady p := by simp [Hub.phoneReady, hp]
  have hturn : ∀ {method}, obj.method = some method → method ≠ "initialize" →
      method ≠ "authenticate" → Loop.turn ⟨h, false⟩ t
        = (⟨h.prepare t.order p method obj, false⟩, [.toPhone p (h.awayError id)]) := by
    intro method hmethod hinit hauth
    rw [turn_rpc ht hp, Hub.onRpc_away hp hmethod hid ⟨hinit, hauth, fun _ _ => hready⟩ hm]
  have hrejects : Rejects [.toPhone p (h.awayError id)] p := ⟨id, _, _, List.mem_singleton_self _⟩
  have hattach : (h.attach p obj).Watches p s := by
    have hjoined := hr.watch hready s
    simp only [Hub.attach, hs]
    rw [hjoined.watches, Roster.join, Function.update_self, Roster.member_join]
    exact .inl rfl
  refine ⟨p, _, ht, ?_⟩
  rcases hwhy with ⟨hload, hnot⟩ | ⟨hclose, hwatches⟩
  · have hmoved : ∀ {method}, method = "session/load" ∨ method = "session/resume" →
        (h.prepare t.order p method obj).Watches p s := by
      intro method hmethod
      rwa [Hub.prepare, if_pos hmethod]
    rcases hload with hmethod | hmethod
    · rw [hturn hmethod (by decide) (by decide)]
      exact ⟨hrejects, s, fun hiff => hnot (hiff.mp (hmoved (.inl rfl)))⟩
    · rw [hturn hmethod (by decide) (by decide)]
      exact ⟨hrejects, s, fun hiff => hnot (hiff.mp (hmoved (.inr rfl)))⟩
  · rw [hturn hclose (by decide) (by decide)]
    refine ⟨hrejects, s, fun hiff => ?_⟩
    have hstays := hiff.mpr hwatches
    have hleaves : h.prepare t.order p "session/close" obj = h.unwatch t.order p s := by
      simp [Hub.prepare, Hub.detach, hs]
    rw [hleaves] at hstays
    obtain ⟨o, hleft, htracks⟩ := hr.unwatch t.order p s
    rw [htracks.watches, Function.update_self] at hstays
    exact (hleft.member.mp hstays).1 rfl

/-- The error of the host that is away, and the other errors, are not results of
`initialize`. -/
theorem rpcError_ne_initializeResult (id id' : Json) (code : Int) (message : String) :
    rpcError id code message ≠ initializeResult id' := by
  intro heq
  have hget := congrArg (fun o => Obj.get o "result") heq
  simp [rpcError, initializeResult, Obj.ofFields] at hget

/-- A step that answers a text with an error leaves no trace, unless the phone moves while the
host is away. -/
theorem HubStep.noTrace {t : Turn} {h h' : Hub} {out : List Effect} (hs : HubStep t h h' out)
    (hw : h.WellKept) {p : PhoneId} {text : RpcText} (ht : t.input = .recv (.phoneText p text))
    (hrejects : Rejects out p) (hstays : ¬ MovesWhileAway t h) : NoTrace h h' out := by
  obtain ⟨id, code, message, hmem⟩ := hrejects
  have hphone : t.OfPhone h p := ⟨_, ht, rfl⟩
  cases hs with
  | accepted hin => simp at hmem
  | relayed hset hm => exact absurd hset.said hphone.not_home
  | loading hc hset he hne => exact absurd hset.said hphone.not_home
  | promoted hc why => exact absurd why.said hphone.not_home
  | muxLost hm hin =>
    rcases hin with hin | ⟨message, hin⟩
    · exact absurd hin (hphone.not_homeEof _)
    · exact absurd hin hphone.not_home
  | notified hm hin hmethod hid => exact absurd hin hphone.not_home
  | asked hm hin hmethod hid hsession hne => exact absurd hin hphone.not_home
  | refused hin hp hcode =>
    exact ⟨rfl, fun _ => rfl, fun _ => rfl, rfl, rfl, rfl, rfl, by simp⟩
  | initialized hin hid hmethod hp =>
    exfalso
    rcases List.mem_cons.mp hmem with heq | hmem
    · exact rpcError_ne_initializeResult _ _ _ _ (Effect.toPhone.inj heq).2
    · split at hmem
      · have heq := (Effect.toPhone.inj (List.mem_singleton.mp hmem)).2
        have hmethod := congrArg Obj.method heq
        simp at hmethod
      · exact absurd hmem List.not_mem_nil
  | @requestAway q phone obj method id' hin hp hmethod hid hf hm =>
    obtain ⟨r, hr⟩ := hw.roster
    have hready : ∀ {p}, h.phoneReady p → h.phones.lookup p = some .ready := fun hp => by
      simpa [Hub.phoneReady] using hp
    have hsame : (h.prepare t.order q method obj).Tracks r := by
      refine hr.prepare_same t.order (fun s hs hload hp => ?_) (fun s hs hclose hwatches => ?_)
      · by_contra hnot
        refine hstays ⟨q, obj, s, hin, by simp [hid], hs, hready hp, hm, .inl ⟨?_, hnot⟩⟩
        simpa [hmethod] using hload
      · refine hstays ⟨q, obj, s, hin, by simp [hid], hs, hw.ready_of_watches hwatches, hm,
          .inr ⟨?_, hwatches⟩⟩
        rw [hmethod, hclose]
    obtain ⟨hwatchers, hdriver⟩ := hr.same_tables hsame
    exact ⟨rfl, hwatchers, hdriver, rfl, rfl, rfl, rfl, by simp⟩
  | replied hin hp hmethod hreply hid hkey hopen => simp at hmem
  | _ => simp at hmem

/-- **A rejected request leaves no trace**, in any state the loop reaches, exactly if it does
not attach or detach its phone while the host is away. -/
theorem rejected_text (ts : List Turn) (t : Turn) :
    RejectsCleanly ts t ↔ ¬ MovesWhileAway t (Hub.run.final ts).hub := by
  obtain ⟨hstop, heq⟩ | ⟨-, hstops, -⟩ | ⟨hr, h', out, heq, hs⟩ := turn_cases ts t
  · constructor
    · rintro - ⟨p, obj, s, -, -, -, hp, -⟩
      rw [phones_of_stopped hstop] at hp
      cases hp
    · rintro - p text - ⟨id, code, message, hmem⟩
      rw [heq] at hmem
      exact absurd hmem List.not_mem_nil
  · constructor
    · rintro - ⟨p, obj, s, ht, -⟩
      rcases hstops with hin | hin
      · cases ht.symm.trans hin
      · cases ht.symm.trans hin
    · rintro - p text ht
      rcases hstops with hin | hin
      · cases ht.symm.trans hin
      · cases ht.symm.trans hin
  · constructor
    · intro hclean hmoves
      have hbefore := Loop.eq_of_running (Loop.stopped_of_turn heq)
      obtain ⟨p, text, ht, hrejects, s, hmoved⟩ := hmoves.trace hr.wellKept
      rw [← hbefore] at hrejects hmoved
      have hwatchers := (hclean p text ht hrejects).watchers s
      refine hmoved ?_
      unfold Hub.Watches
      rw [show (Loop.turn (Hub.run.final ts) t).1.hub.watchers.lookup s = _ from hwatchers]
    · intro hstays p text ht hrejects
      rw [heq] at hrejects ⊢
      exact hs.noTrace hr.wellKept ht hrejects hstays

/-- Phone 1 loads the session `a` while the host is away, and is told that it is. -/
def awayLoad : Turn := .phone 1 (request (.ofU64 1) "session/load" "a")

/-- **A rejected load attaches its phone.** -/
theorem load_attaches_while_away :
    ¬ RejectsCleanly (Turn.bringUp ++ [.get (.homeEof 1)]) awayLoad := by
  intro hclean
  have hrejects : Rejects (Hub.run.step (Hub.run.final (Turn.bringUp ++ [.get (.homeEof 1)]))
      awayLoad).2 1 := ⟨.ofU64 1, -32003, "host is away", by decide +kernel⟩
  have hwatchers := (hclean 1 _ rfl hrejects).watchers "a"
  revert hwatchers
  decide +kernel

end Aqualung
