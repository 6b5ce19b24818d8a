/-
# What one turn can do

`HubStep t h h' out`: the turn `t` can take the hub `h` to `h'` and emit `out`.  There is one
constructor for each thing that can happen, with everything that has to be true for it to
happen and the exact new state.

`Loop.turn_step` says that the loop does nothing else.  It is the only place where the handlers are
taken apart, in the order of the source: a phone's text goes through `on_rpc` to one of its
branches, a frame through the role of its link.  Every invariant of the hub is proved by cases on
`HubStep`, with the guards of the step at hand, and a change to one handler is a change to its
lemma here and to the constructors it uses.

The guards have names of their own (`Settles`, `Forwardable`, `CandidateGone`, `Initializing`,
`Promoting`), because the promises of the hub are stated with them.
-/
import Aqualung.Hub.Parts

namespace Aqualung

open Lib

/-! ## 1. The vocabulary of the steps -/

/-- The turn brings the frame `msg` from the link `g`. -/
def Turn.FromHome (t : Turn) (g : HomeGen) (msg : LeaderServer) : Prop :=
  t.input = .recv (.homeFrame g msg)

/-- The turn brings the JSON-RPC object `obj` from the link `g`. -/
def Turn.HomeSays (t : Turn) (g : HomeGen) (obj : Obj) : Prop :=
  t.FromHome g (.acp (.ofObj obj))

/-- The turn brings the JSON-RPC object `obj` from the phone `p`. -/
def Turn.PhoneSays (t : Turn) (p : PhoneId) (obj : Obj) : Prop :=
  t.input = .recv (.phoneText p (.ofObj obj))

theorem Turn.FromHome.inj {t : Turn} {g g' : HomeGen} {msg msg' : LeaderServer}
    (h : t.FromHome g msg) (h' : t.FromHome g' msg') : g = g' ∧ msg = msg' := by
  have heq := h.symm.trans h'
  simpa using heq

theorem Turn.HomeSays.inj {t : Turn} {g g' : HomeGen} {obj obj' : Obj}
    (h : t.HomeSays g obj) (h' : t.HomeSays g' obj') : g = g' ∧ obj = obj' := by
  have heq := FromHome.inj h h'
  simpa [RpcText.ofObj] using heq

theorem Turn.PhoneSays.inj {t : Turn} {p p' : PhoneId} {obj obj' : Obj}
    (h : t.PhoneSays p obj) (h' : t.PhoneSays p' obj') : p = p' ∧ obj = obj' := by
  have heq := h.symm.trans h'
  simpa [RpcText.ofObj] using heq

theorem Turn.PhoneSays.not_home {t : Turn} {p : PhoneId} {obj : Obj} {g : HomeGen}
    {msg : LeaderServer} (h : t.PhoneSays p obj) : ¬ t.FromHome g msg := fun h' => by
  have heq := h.symm.trans h'
  simp at heq

/-- The turn brings an answer from the link `g` to the outstanding request `id`, and `w` is
who waits for it. -/
structure Settles (t : Turn) (h : Hub) (g : HomeGen) (id : HomeReqId) (obj : Obj) (w : Wait) :
    Prop where
  said : t.HomeSays g obj
  answer : obj.isAnswer
  id_eq : obj.id = some (.ofU64 id)
  held : h.home.Holds g
  waits : h.outstanding.lookup id = some w

namespace Hub

def watched (h : Hub) : Finset SessionId := h.watchers.keys.toFinset

/-- `watch` for the session a message names, if it names one. -/
def attach (h : Hub) (p : PhoneId) (obj : Obj) : Hub :=
  match sessionIdIn obj with
  | some session => h.watch p session
  | none => h

/-- `unwatch` for the session a message names, if it names one. -/
def detach (order : IterOrder) (h : Hub) (p : PhoneId) (obj : Obj) : Hub :=
  match sessionIdIn obj with
  | some session => h.unwatch order p session
  | none => h

/-- `on_phone_request` on the session tables, before it forwards. -/
def prepare (order : IterOrder) (h : Hub) (p : PhoneId) (method : String) (obj : Obj) : Hub :=
  if method = "session/load" ∨ method = "session/resume" then h.attach p obj
  else if method = "session/close" then h.detach order p obj
  else h

/-- The loads the hub sends when it sends them. -/
def loads (h : Hub) : List (HomeReqId × SessionId) :=
  PendingLoads.numbered h.nextReq (sorted h.watched)

/-- The copies of a request from home: to whom, and under which id. -/
def copies (n : Nat) : List PhoneId → List (PhoneId × JsonId)
  | [] => []
  | p :: rest => (p, reverseId (n + 1)) :: copies (n + 1) rest

/-- The method of a request the hub answers or forwards by itself, whatever the phase of the
phone, and of one for which the phone must be ready. -/
def Forwardable (h : Hub) (p : PhoneId) (method : String) : Prop :=
  method ≠ "initialize" ∧ method ≠ "authenticate" ∧
    (isSessionMethod method → method ≠ "session/close" → h.phoneReady p)

end Hub

/-- Why a candidate is dropped without further effect on the hub. -/
def CandidateGone (t : Turn) (c : Incoming) : Prop :=
  t.input = .recv (.homeEof c.gen) ∨ (∃ message, t.FromHome c.gen (.error message)) ∨
    (t.input = .deadline ∧ ∃ d, c.deadline = some d ∧ d ≤ t.now)

/-- Why the follower `initialize` goes out on the candidate's link, and what becomes of
`refused_version`. -/
def Initializing (t : Turn) (h : Hub) (c : Incoming) (refused : Option Nat) : Prop :=
  (∃ link d, c = .waitRegistered link d ∧ t.FromHome c.gen (.registered true 1) ∧ refused = none) ∨
    (∃ link d, c = .waitReady link d ∧ t.FromHome c.gen .leaderReady ∧ refused = h.refusedVersion)

/-- Why the candidate is promoted: its `initialize` is answered and there is nothing to load,
or its last load is answered. -/
def Promoting (t : Turn) (h : Hub) (c : Incoming) (id : HomeReqId) (obj : Obj) : Prop :=
  (c = .waitInitialize c.link ∧ Settles t h c.gen id obj .hubInitialize ∧
      (obj.get "error").isNone ∧ h.watched = ∅) ∨
    (∃ pending, c = .waitLoads c.link pending ∧ Settles t h c.gen id obj .hubLoad ∧
      pending.loaded id = .done)

/-! ## 2. The steps -/

/-- One turn of a hub that stays in its loop. -/
inductive HubStep (t : Turn) (h : Hub) : Hub → List Effect → Prop
  /-- Nothing happens. -/
  | ignored : HubStep t h h []
  /-- A connection is accepted: it becomes the candidate. -/
  | accepted (ht : t.input = .recv .accepted) :
      HubStep t h
        { h with
          nextGen := h.nextGen + 1
          home := Home.ofParts h.home.mux
            (some (.waitRegistered ⟨h.nextGen + 1⟩ (t.now + REGISTER_WAIT))) }
        (.bindGen (h.nextGen + 1) :: (h.home.candidate.map fun c => Effect.halt c.gen).toList)
  /-- The candidate is gone, or it has waited too long. -/
  | candidateGone {c : Incoming} (hc : h.home.candidate = some c) (why : CandidateGone t c) :
      HubStep t h { h with home := Home.ofParts h.home.mux none } [.halt c.gen]
  /-- The candidate speaks another protocol version. -/
  | candidateRefused {c : Incoming} {ready : Bool} {version : Nat}
      (hc : h.home.candidate = some c) (ht : t.FromHome c.gen (.registered ready version))
      (hv : version ≠ LEADER_PROTOCOL_VERSION) :
      HubStep t h
        { h with refusedVersion := some version, home := Home.ofParts h.home.mux none }
        [.halt c.gen]
  /-- The candidate answers `initialize` with an error. -/
  | candidateFailed {c : Incoming} {id : HomeReqId} {obj : Obj}
      (hc : h.home.candidate = some c) (hs : Settles t h c.gen id obj .hubInitialize)
      (he : (obj.get "error").isSome) :
      HubStep t h
        { h with outstanding := h.outstanding.erase id, home := Home.ofParts h.home.mux none }
        [.halt c.gen]
  /-- A second `Registered` from the candidate clears the refused version and no more. -/
  | refusalCleared {c : Incoming} {ready : Bool} (hc : h.home.candidate = some c)
      (ht : t.FromHome c.gen (.registered ready 1)) :
      HubStep t h { h with refusedVersion := none } []
  /-- The candidate is registered but not ready. -/
  | registered {link : Link} {d : Instant}
      (hc : h.home.candidate = some (.waitRegistered link d))
      (ht : t.FromHome link.homeGen (.registered false 1)) :
      HubStep t h
        { h with
          refusedVersion := none
          home := Home.ofParts h.home.mux (some (.waitReady link (t.now + READY_WAIT))) }
        []
  /-- The follower `initialize` goes out. -/
  | initializing {c : Incoming} {refused : Option Nat} (hc : h.home.candidate = some c)
      (why : Initializing t h c refused) :
      HubStep t h
        { h with
          refusedVersion := refused
          nextReq := h.nextReq + 1
          outstanding := h.outstanding.insert (h.nextReq + 1) .hubInitialize
          home := Home.ofParts h.home.mux (some (.waitInitialize c.link)) }
        [.toHome c.gen (.acp (followerInitialize (h.nextReq + 1)))]
  /-- An answer takes an outstanding request with it that it cannot serve. -/
  | answerDropped {g : HomeGen} {id : HomeReqId} {obj : Obj} {w : Wait}
      (hs : Settles t h g id obj w) (hw : ∀ p origin, w = .forwarded p origin → h.home.mux ≠ some g) :
      HubStep t h { h with outstanding := h.outstanding.erase id } []
  /-- The serving link answers a phone's request. -/
  | relayed {g : HomeGen} {id : HomeReqId} {obj : Obj} {p : PhoneId} {origin : JsonId}
      (hs : Settles t h g id obj (.forwarded p origin)) (hm : h.home.mux = some g) :
      HubStep t h
        { h with
          outstanding := h.outstanding.erase id
          watchers := (h.attach p obj).watchers
          driver := (h.attach p obj).driver }
        (h.sendPhone p (obj.withId origin))
  /-- The candidate answers `initialize`, and the watched sessions are loaded on it. -/
  | loading {link : Link} {id : HomeReqId} {obj : Obj}
      (hc : h.home.candidate = some (.waitInitialize link))
      (hs : Settles t h link.homeGen id obj .hubInitialize) (he : (obj.get "error").isNone)
      (hne : h.watched ≠ ∅) :
      HubStep t h
        { h with
          nextReq := h.nextReq + h.loads.length
          outstanding := Table.insertAll (h.loads.map Prod.fst) .hubLoad (h.outstanding.erase id)
          home := Home.ofParts h.home.mux (some (.waitLoads link ⟨h.watched, h.loads⟩)) }
        (h.loads.map fun e => .toHome link.homeGen (.acp (sessionLoad e.1 e.2)))
  /-- The candidate answers a load, and there are more. -/
  | loadAnswered {link : Link} {pending pending' : PendingLoads} {id : HomeReqId} {obj : Obj}
      (hc : h.home.candidate = some (.waitLoads link pending))
      (hs : Settles t h link.homeGen id obj .hubLoad)
      (hp : pending.loaded id = .more pending' ∨ pending.loaded id = .ignore pending') :
      HubStep t h
        { h with
          outstanding := h.outstanding.erase id
          home := Home.ofParts h.home.mux (some (.waitLoads link pending')) }
        []
  /-- The candidate becomes the serving link. -/
  | promoted {c : Incoming} {id : HomeReqId} {obj : Obj} (hc : h.home.candidate = some c)
      (why : Promoting t h c id obj) :
      HubStep t h
        { h with
          outstanding := h.outstanding.erase id
          home := Home.ofParts (some c.gen) none }
        (h.promotionOut h.home.mux)
  /-- The serving link is gone. -/
  | muxLost {g : HomeGen} (hm : h.home.mux = some g)
      (ht : t.input = .recv (.homeEof g) ∨ ∃ message, t.FromHome g (.error message)) :
      HubStep t h { h with home := Home.ofParts none h.home.candidate }
        (.halt g :: h.broadcastAway true)
  /-- The serving link sends a notification. -/
  | notified {g : HomeGen} {obj : Obj} (hm : h.home.mux = some g) (ht : t.HomeSays g obj)
      (hmethod : obj.method.isSome) (hid : obj.id = none) :
      HubStep t h h (h.onHomeNotification t.order obj)
  /-- The serving link asks some phones. -/
  | asked {g : HomeGen} {obj : Obj} {method : String} {homeId : JsonId} {session : SessionId}
      (hm : h.home.mux = some g) (ht : t.HomeSays g obj) (hmethod : obj.method = some method)
      (hid : obj.id = some homeId) (hsession : sessionIdIn obj = some session)
      (hne : h.targets t.order method session ≠ []) :
      HubStep t h
        { h with
          nextReq := h.nextReq + 1
          claims := h.claims.insert (h.nextReq + 1) (.opened homeId)
          reverseSeq := h.reverseSeq + (h.targets t.order method session).length
          reverse := h.reverse.insertAll
            (Hub.copies h.reverseSeq (h.targets t.order method session)) (h.nextReq + 1) }
        ((Hub.copies h.reverseSeq (h.targets t.order method session)).flatMap fun c =>
          h.sendPhone c.1 (obj.withId c.2))
  /-- A phone connects. -/
  | hello (ht : t.input = .recv .phoneHello) :
      HubStep t h
        { h with
          nextPhone := h.nextPhone + 1
          phones := h.phones.insert (h.nextPhone + 1) .connected }
        [.bindPhone (h.nextPhone + 1)]
  /-- A phone's text is answered with an error and has no other effect. -/
  | refused {p : PhoneId} {text : RpcText} {phone : Phone} {id : Json} {code : Int}
      {message : String} (ht : t.input = .recv (.phoneText p text))
      (hp : h.phones.lookup p = some phone) (hcode : code ≠ -32003) :
      HubStep t h h [.toPhone p (rpcError id code message)]
  /-- A phone is answered `initialize`. -/
  | initialized {p : PhoneId} {phone : Phone} {obj : Obj} {id : Json} (ht : t.PhoneSays p obj)
      (hid : obj.id = some id) (hmethod : obj.method = some "initialize")
      (hp : h.phones.lookup p = some phone) :
      HubStep t h { h with phones := (h.phones.erase p).insert p .ready }
        (.toPhone p (initializeResult id) ::
          if h.home.isAway then [.toPhone p (hostAwayNote true)] else [])
  /-- A phone's request finds the host away. -/
  | requestAway {p : PhoneId} {phone : Phone} {obj : Obj} {method : String} {id : Json}
      (ht : t.PhoneSays p obj) (hp : h.phones.lookup p = some phone)
      (hmethod : obj.method = some method) (hid : obj.id = some id)
      (hf : h.Forwardable p method) (hm : h.home.mux = none) :
      HubStep t h
        { h with
          watchers := (h.prepare t.order p method obj).watchers
          driver := (h.prepare t.order p method obj).driver }
        [.toPhone p (h.awayError id)]
  /-- A phone's request is forwarded. -/
  | requestForwarded {p : PhoneId} {phone : Phone} {obj : Obj} {method : String} {id : Json}
      {g : HomeGen} (ht : t.PhoneSays p obj) (hp : h.phones.lookup p = some phone)
      (hmethod : obj.method = some method) (hid : obj.id = some id)
      (hf : h.Forwardable p method) (hm : h.home.mux = some g) :
      HubStep t h
        { h with
          watchers := (h.prepare t.order p method obj).watchers
          driver := (h.prepare t.order p method obj).driver
          nextReq := h.nextReq + 1
          outstanding := h.outstanding.insert (h.nextReq + 1) (.forwarded p id) }
        [.toHome g (.acp (obj.withId (.ofU64 (h.nextReq + 1))))]
  /-- A phone's notification is forwarded. -/
  | notificationForwarded {p : PhoneId} {phone : Phone} {obj : Obj} {g : HomeGen}
      (ht : t.PhoneSays p obj) (hp : h.phones.lookup p = some phone)
      (hmethod : obj.method.isSome) (hid : obj.id = none) (hm : h.home.mux = some g) :
      HubStep t h h [.toHome g (.acp obj)]
  /-- A phone is the first to answer a request from home. -/
  | replied {p : PhoneId} {phone : Phone} {obj : Obj} {origin : JsonId} {key : HomeReqId}
      {homeId : JsonId} (ht : t.PhoneSays p obj) (hp : h.phones.lookup p = some phone)
      (hmethod : obj.method = none)
      (hreply : (obj.get "result").isSome ∨ (obj.get "error").isSome)
      (hid : obj.id = some origin) (hkey : h.reverse.lookup (p, origin) = some key)
      (hopen : h.claims.lookup key = some (.opened homeId)) :
      HubStep t h
        { h with
          reverse := h.reverse.erase (p, origin)
          claims := h.claims.insert key .taken }
        (h.home.mux.map fun g => Effect.toHome g (.acp (obj.withId homeId))).toList
  /-- A phone answers a request from home that is settled. -/
  | replyDropped {p : PhoneId} {phone : Phone} {obj : Obj} {origin : JsonId} {key : HomeReqId}
      {claims : Table HomeReqId Claim} (ht : t.PhoneSays p obj)
      (hp : h.phones.lookup p = some phone) (hmethod : obj.method = none)
      (hreply : (obj.get "result").isSome ∨ (obj.get "error").isSome)
      (hid : obj.id = some origin) (hkey : h.reverse.lookup (p, origin) = some key)
      (htaken : ∀ homeId, h.claims.lookup key ≠ some (.opened homeId))
      (hclaims : ∀ k, claims.lookup k = h.claims.lookup k) :
      HubStep t h { h with reverse := h.reverse.erase (p, origin), claims } []
  /-- A phone is gone. -/
  | phoneLeft {p : PhoneId} (ht : t.input = .recv (.phoneEof p)) :
      HubStep t h (h.onPhoneEof t.order p) []

/-! ## 3. The handlers take these steps and no others -/

namespace Hub

theorem sendPhone_of_lookup {h : Hub} {p : PhoneId} {phone : Phone}
    (hp : h.phones.lookup p = some phone) (text : Obj) :
    h.sendPhone p text = [.toPhone p text] := by
  simp [sendPhone, hp]

theorem attach_eq (h : Hub) (p : PhoneId) (obj : Obj) :
    h.attach p obj
      = { h with watchers := (h.attach p obj).watchers, driver := (h.attach p obj).driver } := by
  unfold attach watch
  split
  · split <;> rfl
  · rfl

theorem detach_eq (order : IterOrder) (h : Hub) (p : PhoneId) (obj : Obj) :
    h.detach order p obj
      = { h with
          watchers := (h.detach order p obj).watchers
          driver := (h.detach order p obj).driver } := by
  unfold detach unwatch
  split
  · split
    · rfl
    · simp only
      split
      · rfl
      · split
        · split <;> rfl
        · rfl
  · rfl

theorem prepare_eq (order : IterOrder) (h : Hub) (p : PhoneId) (method : String) (obj : Obj) :
    h.prepare order p method obj
      = { h with
          watchers := (h.prepare order p method obj).watchers
          driver := (h.prepare order p method obj).driver } := by
  unfold prepare
  split
  · exact attach_eq h p obj
  · split
    · exact detach_eq order h p obj
    · rfl

theorem attach_outstanding (h : Hub) (o : Table HomeReqId Wait) (p : PhoneId) (obj : Obj) :
    attach { h with outstanding := o } p obj
      = { h with
          outstanding := o
          watchers := (h.attach p obj).watchers
          driver := (h.attach p obj).driver } := by
  unfold attach watch
  split
  · simp only
    split <;> rfl
  · rfl

theorem askPhones_eq (key : HomeReqId) (obj : Obj) (h : Hub) (ps : List PhoneId) :
    askPhones key obj h ps
      = ({ h with
            reverseSeq := h.reverseSeq + ps.length
            reverse := h.reverse.insertAll (copies h.reverseSeq ps) key },
          (copies h.reverseSeq ps).flatMap fun c => h.sendPhone c.1 (obj.withId c.2)) := by
  induction ps generalizing h with
  | nil => rfl
  | cons p ps ih =>
    simp only [askPhones, allocReverseId, ih, copies, List.flatMap_cons, List.length_cons,
      Table.insertAll, List.foldl_cons, sendPhone, Prod.mk.injEq, and_true]
    congr 1
    lia

/-! ### Phones -/

section

variable {t : Turn} {h : Hub} {p : PhoneId} {phone : Phone} {obj : Obj}

/-- `forward_request` after the session tables have been prepared. -/
theorem forwardRequest_step {method : String} {id : Json} (ht : t.PhoneSays p obj)
    (hp : h.phones.lookup p = some phone) (hmethod : obj.method = some method)
    (hid : obj.id = some id) (hf : h.Forwardable p method) :
    HubStep t h (forwardRequest (h.prepare t.order p method obj) p id obj).1
      (forwardRequest (h.prepare t.order p method obj) p id obj).2 := by
  rw [prepare_eq]
  unfold forwardRequest
  rw [muxLink_eq]
  cases hm : h.home.mux with
  | none =>
    simp only [Option.map_none, sendPhone, hp]
    exact .requestAway ht hp hmethod hid hf hm
  | some g =>
    simp only [Option.map_some, allocReq]
    exact .requestForwarded ht hp hmethod hid hf hm

/-- A request that the hub does not answer by itself is forwarded, after the session tables
have been prepared for it. -/
theorem onPhoneRequest_of_forwardable {order : IterOrder} {method : String} (id : Json)
    (hf : h.Forwardable p method) :
    h.onPhoneRequest order p method id obj
      = (h.prepare order p method obj).forwardRequest p id obj := by
  obtain ⟨hinit, hauth, hready⟩ := hf
  unfold onPhoneRequest prepare
  rw [if_neg hinit, if_neg hauth]
  by_cases hload : method = "session/load" ∨ method = "session/resume"
  · have hphone : h.phoneReady p := by
      rcases hload with rfl | rfl <;> exact hready (by decide) (by decide)
    simp only [if_pos hload, hphone, not_true_eq_false, if_false]
    rfl
  · by_cases hclose : method = "session/close"
    · simp only [if_neg hload, if_pos hclose]
      rfl
    · have hphone : ¬ (isSessionMethod method ∧ ¬ h.phoneReady p) := fun hno =>
        hno.2 (hready hno.1 hclose)
      simp only [if_neg hload, if_neg hclose, if_neg hphone]

theorem onPhoneRequest_step {method : String} {id : Json} (ht : t.PhoneSays p obj)
    (hp : h.phones.lookup p = some phone) (hmethod : obj.method = some method)
    (hid : obj.id = some id) :
    HubStep t h (h.onPhoneRequest t.order p method id obj).1
      (h.onPhoneRequest t.order p method id obj).2 := by
  by_cases hf : h.Forwardable p method
  · rw [onPhoneRequest_of_forwardable id hf]
    exact forwardRequest_step ht hp hmethod hid hf
  have hrefused : ∀ (code : Int) (message : String), code ≠ -32003 →
      HubStep t h h (h.sendPhone p (rpcError id code message)) := by
    intro code message hcode
    rw [sendPhone_of_lookup hp]
    exact .refused ht hp hcode
  unfold onPhoneRequest
  split
  · rename_i hinit
    subst hinit
    simp only [answerInitialize, hp]
    exact .initialized ht hid hmethod hp
  rename_i hinit
  split
  · exact hrefused _ _ (by decide)
  rename_i hauth
  -- What is left and not forwardable is about a session, from a phone that is not ready.
  have hready : ¬ (isSessionMethod method → method ≠ "session/close" → h.phoneReady p) :=
    fun hready => hf ⟨hinit, hauth, hready⟩
  push Not at hready
  obtain ⟨hsession, hclose, hready⟩ := hready
  rw [if_pos hready]
  split
  · exact hrefused _ _ (by decide)
  · rw [if_pos ⟨hsession, hready⟩]
    exact hrefused _ _ (by decide)

theorem onPhoneReply_step {origin : JsonId} (ht : t.PhoneSays p obj)
    (hp : h.phones.lookup p = some phone) (hmethod : obj.method = none)
    (hreply : (obj.get "result").isSome ∨ (obj.get "error").isSome)
    (hid : obj.id = some origin) :
    HubStep t h (h.onPhoneReply p origin obj).1 (h.onPhoneReply p origin obj).2 := by
  unfold onPhoneReply
  cases hkey : h.reverse.lookup (p, origin) with
  | none => exact .ignored
  | some key =>
    cases hclaim : h.claims.lookup key with
    | none =>
      simp only [hclaim]
      exact .replyDropped ht hp hmethod hreply hid hkey (by simp [hclaim]) fun _ => rfl
    | some claim =>
      cases claim with
      | opened homeId =>
        simp only [hclaim, Claim.take, forwardNotification_eq]
        exact .replied ht hp hmethod hreply hid hkey hclaim
      | taken =>
        simp only [hclaim, Claim.take]
        refine .replyDropped ht hp hmethod hreply hid hkey (by simp [hclaim]) fun k => ?_
        rw [Table.lookup_insert_eq]
        split
        · rename_i hk
          rw [hk, hclaim]
        · rfl

theorem onPhoneText_step {text : RpcText} (ht : t.input = .recv (.phoneText p text)) :
    HubStep t h (h.onPhoneText t.order p text).1 (h.onPhoneText t.order p text).2 := by
  unfold onPhoneText
  cases hp : h.phones.lookup p with
  | none => exact .ignored
  | some phone =>
    cases hobj : parseRpcText text with
    | error =>
      simp only [sendPhone_of_lookup hp]
      exact .refused ht hp (by decide)
    | ok obj =>
      have hs : t.PhoneSays p obj := by rw [parseRpcText_eq_ok.mp hobj] at ht; exact ht
      simp only [onRpc]
      cases hmethod : obj.method with
      | some method =>
        cases hid : obj.id with
        | some id => exact onPhoneRequest_step hs hp hmethod hid
        | none =>
          simp only [forwardNotification_eq]
          cases hm : h.home.mux with
          | none => exact .ignored
          | some g => exact .notificationForwarded hs hp (by simp [hmethod]) hid hm
      | none =>
        simp only
        split
        · rename_i hreply
          cases hid : obj.id with
          | some id => exact onPhoneReply_step hs hp hmethod hreply hid
          | none => exact .ignored
        · exact .ignored

end

/-! ### Home links -/

section

variable {t : Turn} {h : Hub} {g : HomeGen}

/-- Putting the candidate back where it was changes nothing. -/
theorem putBack {h : Hub} {c : Incoming} (hc : h.home.candidate = some c) :
    { h with home := Home.ofParts h.home.mux (some c) } = h := by
  rw [← hc, Home.ofParts_parts]

theorem onRegistered_step {ready : Bool} {version : Nat}
    (ht : t.FromHome g (.registered ready version)) {c : Incoming}
    (hc : h.home.candidate = some c) (hg : c.gen = g) :
    HubStep t h (h.onRegistered t.now g ready version).1
      (h.onRegistered t.now g ready version).2 := by
  subst hg
  unfold onRegistered
  split
  · rename_i hv
    rw [failIncoming_of_candidate (by exact hc)]
    exact .candidateRefused hc ht hv
  rename_i hv
  obtain rfl : version = 1 := by simpa [LEADER_PROTOCOL_VERSION] using hv
  rw [takeCandidate_of_candidate (by exact hc)]
  have hback := putBack (h := { h with refusedVersion := none }) hc
  cases c with
  | waitRegistered link d =>
    cases ready with
    | true =>
      simp only [if_true, sendFollowerInitialize, allocReq, putCandidate_ofMux]
      exact .initializing hc (.inl ⟨link, d, rfl, ht, rfl⟩)
    | false =>
      simp only [Bool.false_eq_true, if_false, putCandidate_ofMux]
      exact .registered hc ht
  | waitReady link d =>
    simp only [putCandidate_ofMux, hback]
    exact .refusalCleared hc ht
  | waitInitialize link =>
    simp only [putCandidate_ofMux, hback]
    exact .refusalCleared hc ht
  | waitLoads link pending =>
    simp only [putCandidate_ofMux, hback]
    exact .refusalCleared hc ht
  | ready link =>
    simp only [putCandidate_ofMux, hback]
    exact .refusalCleared hc ht

theorem onLeaderReady_step (ht : t.FromHome g .leaderReady) {c : Incoming}
    (hc : h.home.candidate = some c) (hg : c.gen = g) :
    HubStep t h (h.onLeaderReady g).1 (h.onLeaderReady g).2 := by
  subst hg
  unfold onLeaderReady
  rw [takeCandidate_of_candidate hc]
  cases c with
  | waitReady link d =>
    simp only [sendFollowerInitialize, allocReq, putCandidate_ofMux]
    exact .initializing hc (.inr ⟨link, d, rfl, ht, rfl⟩)
  | waitRegistered link d => simpa only [putCandidate_ofMux, putBack hc] using .ignored
  | waitInitialize link => simpa only [putCandidate_ofMux, putBack hc] using .ignored
  | waitLoads link pending => simpa only [putCandidate_ofMux, putBack hc] using .ignored
  | ready link => simpa only [putCandidate_ofMux, putBack hc] using .ignored

theorem eof_step (why : t.input = .recv (.homeEof g) ∨ ∃ message, t.FromHome g (.error message))
    {c : Incoming} (hc : h.home.candidate = some c) (hg : c.gen = g) :
    HubStep t h (h.failIncoming g).1 (h.failIncoming g).2 := by
  subst hg
  rw [failIncoming_of_candidate hc]
  exact .candidateGone hc (why.imp_right .inl)

theorem onHomeEof_step
    (why : t.input = .recv (.homeEof g) ∨ ∃ message, t.FromHome g (.error message)) :
    HubStep t h (h.onHomeEof g).1 (h.onHomeEof g).2 := by
  cases hr : h.role g with
  | unknown => simpa only [onHomeEof, hr] using .ignored
  | mux =>
    have hm := role_eq_mux.mp hr
    rw [onHomeEof_of_mux hm]
    exact .muxLost hm why
  | candidate =>
    obtain ⟨-, c, hc, hg⟩ := role_eq_candidate.mp hr
    simpa only [onHomeEof, hr] using eof_step why hc hg

/-! ### Answers from home -/

section

variable {id : HomeReqId} {obj : Obj} {c : Incoming}

/-- An answer to the follower `initialize` that a candidate gives without an error. -/
theorem afterFollowerInitialize_step (hc : h.home.candidate = some c) (hm : h.home.mux ≠ some c.gen)
    (hs : Settles t h c.gen id obj .hubInitialize) (he : (obj.get "error").isNone) :
    HubStep t h
      (afterFollowerInitialize { h with outstanding := h.outstanding.erase id } c.gen).1
      (afterFollowerInitialize { h with outstanding := h.outstanding.erase id } c.gen).2 := by
  have hdrop : HubStep t h { h with outstanding := h.outstanding.erase id } [] :=
    .answerDropped hs fun _ _ hw => by cases hw
  have hback := putBack (h := { h with outstanding := h.outstanding.erase id }) hc
  unfold afterFollowerInitialize
  rw [takeCandidate_of_candidate (by exact hc)]
  cases c with
  | waitInitialize link =>
    simp only [PendingLoads.start_countUp]
    by_cases hw : h.watched = ∅
    · rw [if_pos (by exact hw)]
      simp only [finishSuccessor_ofMux]
      exact .promoted hc (.inl ⟨rfl, hs, he, hw⟩)
    · rw [if_neg (by exact hw)]
      simp only [putCandidate_ofMux, PendingLoads.requests]
      have hlen : (sorted h.watchers.keys.toFinset).length = h.loads.length := by
        simp [loads, watched]
      have hfold : ∀ m : Table HomeReqId Wait,
          h.loads.foldl (fun m e => m.insert e.1 Wait.hubLoad) m
            = Table.insertAll (h.loads.map Prod.fst) .hubLoad m := by
        intro m
        rw [Table.insertAll, List.foldl_map]
      have := HubStep.loading hc hs he hw
      rw [← hfold, ← hlen] at this
      exact this
  | waitRegistered link d => simpa only [putCandidate_ofMux, hback] using hdrop
  | waitReady link d => simpa only [putCandidate_ofMux, hback] using hdrop
  | waitLoads link pending => simpa only [putCandidate_ofMux, hback] using hdrop
  | ready link => simpa only [putCandidate_ofMux, hback] using hdrop

/-- An answer to a `session/load` of the hub that a candidate gives. -/
theorem afterLoadResult_step (hc : h.home.candidate = some c)
    (hs : Settles t h c.gen id obj .hubLoad) :
    HubStep t h
      (afterLoadResult { h with outstanding := h.outstanding.erase id } c.gen id).1
      (afterLoadResult { h with outstanding := h.outstanding.erase id } c.gen id).2 := by
  have hdrop : HubStep t h { h with outstanding := h.outstanding.erase id } [] :=
    .answerDropped hs fun _ _ hw => by cases hw
  have hback := putBack (h := { h with outstanding := h.outstanding.erase id }) hc
  unfold afterLoadResult
  rw [takeCandidate_of_candidate (by exact hc)]
  cases c with
  | waitLoads link pending =>
    cases hp : pending.loaded id with
    | more pending' =>
      simp only [hp, putCandidate_ofMux]
      exact .loadAnswered hc hs (.inl hp)
    | ignore pending' =>
      simp only [hp, putCandidate_ofMux]
      exact .loadAnswered hc hs (.inr hp)
    | done =>
      simp only [hp, finishSuccessor_ofMux]
      exact .promoted hc (.inr ⟨pending, rfl, hs, hp⟩)
  | waitRegistered link d => simpa only [putCandidate_ofMux, hback] using hdrop
  | waitReady link d => simpa only [putCandidate_ofMux, hback] using hdrop
  | waitInitialize link => simpa only [putCandidate_ofMux, hback] using hdrop
  | ready link => simpa only [putCandidate_ofMux, hback] using hdrop

end

theorem onHomeResult_step {obj : Obj} (hs : t.HomeSays g obj) (ha : obj.isAnswer)
    (hh : h.home.Holds g) :
    HubStep t h (h.onHomeResult g obj).1 (h.onHomeResult g obj).2 := by
  unfold onHomeResult
  cases hid : obj.id.bind Json.asU64 with
  | none => exact .ignored
  | some id =>
    have hid' : obj.id = some (.ofU64 id) := by
      obtain ⟨v, hv, hv'⟩ := Option.bind_eq_some_iff.mp hid
      rw [hv, Json.asU64_eq_some.mp hv']
    cases hw : h.outstanding.lookup id with
    | none => simpa only [hw] using .ignored
    | some w =>
      have hset : Settles t h g id obj w := ⟨hs, ha, hid', hh, hw⟩
      have hrole : ∀ o, role { h with outstanding := o } g = h.role g := fun _ => rfl
      simp only [hw, hrole]
      cases w with
      | forwarded p origin =>
        by_cases hr : h.role g = .mux
        · simp only [hr, ne_eq, not_true_eq_false, if_false]
          change HubStep t h (attach { h with outstanding := _ } p obj)
            (sendPhone (attach { h with outstanding := _ } p obj) p _)
          rw [attach_outstanding]
          exact .relayed hset (role_eq_mux.mp hr)
        · simp only [ne_eq, hr, not_false_eq_true, if_true]
          exact .answerDropped hset fun _ _ _ hm => hr (role_eq_mux.mpr hm)
      | hubInitialize =>
        by_cases hr : h.role g = .candidate
        · obtain ⟨hm, c, hc, hg⟩ := role_eq_candidate.mp hr
          subst hg
          simp only [hr, ne_eq, not_true_eq_false, if_false]
          by_cases he : (obj.get "error").isSome
          · rw [if_pos he, failIncoming_of_candidate (by exact hc)]
            exact .candidateFailed hc hset he
          · rw [if_neg he]
            exact afterFollowerInitialize_step hc hm hset (by simpa using he)
        · simp only [ne_eq, hr, not_false_eq_true, if_true]
          exact .answerDropped hset fun _ _ hw => by cases hw
      | hubLoad =>
        by_cases hr : h.role g = .candidate
        · obtain ⟨-, c, hc, hg⟩ := role_eq_candidate.mp hr
          subst hg
          simp only [hr, ne_eq, not_true_eq_false, if_false]
          exact afterLoadResult_step hc hset
        · simp only [ne_eq, hr, not_false_eq_true, if_true]
          exact .answerDropped hset fun _ _ hw => by cases hw

/-! ### Requests and frames from home -/

theorem onReverseRequest_step {obj : Obj} (hm : h.home.mux = some g) (hs : t.HomeSays g obj) :
    HubStep t h (h.onReverseRequest t.order obj).1 (h.onReverseRequest t.order obj).2 := by
  unfold onReverseRequest
  cases hmethod : obj.method with
  | none => exact .ignored
  | some method =>
    cases hid : obj.id with
    | none => exact .ignored
    | some homeId =>
      cases hsession : sessionIdIn obj with
      | none => exact .ignored
      | some session =>
        by_cases htargets : h.targets t.order method session = []
        · simpa only [htargets, if_true] using .ignored
        · simp only [if_neg htargets, allocReq, askPhones_eq]
          exact .asked hm hs hmethod hid hsession htargets

theorem onHomeAcp_step {payload : RpcText} (ht : t.FromHome g (.acp payload))
    (hh : h.home.Holds g) :
    HubStep t h (h.onHomeAcp t.order g payload).1 (h.onHomeAcp t.order g payload).2 := by
  unfold onHomeAcp
  cases hobj : parseRpcText payload with
  | error => exact .ignored
  | ok obj =>
    have hs : t.HomeSays g obj := by rw [parseRpcText_eq_ok.mp hobj] at ht; exact ht
    simp only
    split
    · split
      · exact onReverseRequest_step (role_eq_mux.mp ‹_›) hs
      · exact .ignored
    · rename_i hreq
      split
      · rename_i hmethod
        split
        · rename_i hr
          exact .notified (role_eq_mux.mp hr) hs hmethod (by simpa [hmethod] using hreq)
        · exact .ignored
      · rename_i hmethod
        split
        · rename_i hid
          exact onHomeResult_step hs (by simpa [Obj.isAnswer, hid] using hmethod) hh
        · exact .ignored

theorem onHomeFrame_step {msg : LeaderServer} (ht : t.FromHome g msg) :
    HubStep t h (h.onHomeFrame t g msg).1 (h.onHomeFrame t g msg).2 := by
  unfold onHomeFrame
  have hheld : h.role g ≠ .unknown → h.home.Holds g := fun hr => by
    rwa [Ne, role_eq_unknown, not_not] at hr
  cases hr : h.role g with
  | unknown => exact .ignored
  | mux =>
    cases msg with
    | registered ready version => simpa using .ignored
    | leaderReady => simpa using .ignored
    | acp payload => exact onHomeAcp_step ht (hheld (by simp [hr]))
    | pong => exact .ignored
    | unknown => exact .ignored
    | error message => simpa using onHomeEof_step (.inr ⟨message, ht⟩)
  | candidate =>
    obtain ⟨-, c, hc, hg⟩ := role_eq_candidate.mp hr
    cases msg with
    | registered ready version => simpa using onRegistered_step ht hc hg
    | leaderReady => simpa using onLeaderReady_step ht hc hg
    | acp payload => exact onHomeAcp_step ht (hheld (by simp [hr]))
    | pong => exact .ignored
    | unknown => exact .ignored
    | error message => simpa using eof_step (.inr ⟨message, ht⟩) hc hg

end

end Hub

/-! ## 4. The loop -/

/-- The turn ends the loop. -/
def Turn.Stops (t : Turn) : Prop := t.input = .closed ∨ t.input = .recv .shutdown

instance (t : Turn) : Decidable t.Stops := by unfold Turn.Stops; infer_instance

/-- **A turn of a running loop is a step of its hub**, unless it ends the loop. -/
theorem Loop.turn_step {l : Loop} {t : Turn} (hl : l.stopped = false) (ht : ¬ t.Stops) :
    ∃ h' out, l.turn t = (⟨h', false⟩, out) ∧ HubStep t l.hub h' out := by
  obtain ⟨h, stopped⟩ := l
  subst hl
  obtain ⟨input, now, order⟩ := t
  cases input with
  | closed => exact absurd (.inl rfl) ht
  | recv msg =>
    cases msg with
    | shutdown => exact absurd (.inr rfl) ht
    | accepted =>
      refine ⟨_, _, by simp only [Loop.turn, Hub.handle, Hub.onAccepted_eq]; rfl, ?_⟩
      exact .accepted rfl
    | homeFrame g msg => exact ⟨_, _, rfl, Hub.onHomeFrame_step rfl⟩
    | homeEof g => exact ⟨_, _, rfl, Hub.onHomeEof_step (.inl rfl)⟩
    | phoneHello => exact ⟨_, _, rfl, .hello rfl⟩
    | phoneText p text => exact ⟨_, _, rfl, Hub.onPhoneText_step rfl⟩
    | phoneEof p => exact ⟨_, _, rfl, .phoneLeft rfl⟩
  | deadline =>
    cases hd : h.currentDeadline with
    | none => exact ⟨h, [], by simp [Loop.turn, hd], .ignored⟩
    | some d =>
      by_cases hnow : d ≤ now
      · have hd' := hd
        rw [Hub.currentDeadline_eq] at hd'
        obtain ⟨c, hc, hcd⟩ := Option.bind_eq_some_iff.mp hd'
        have hout := Hub.onDeadline_of_candidate hc (by simp [hcd])
        exact ⟨_, _, by simp [Loop.turn, hd, hnow, hout],
          .candidateGone hc (.inr (.inr ⟨rfl, d, hcd, hnow⟩))⟩
      · exact ⟨h, [], by simp [Loop.turn, hd, hnow], .ignored⟩

/-- A turn that ends the loop shuts the hub down. -/
theorem Loop.turn_stops {l : Loop} {t : Turn} (hl : l.stopped = false) (ht : t.Stops) :
    l.turn t = (⟨l.hub.shutdown.1, true⟩, l.hub.shutdown.2) := by
  rcases ht with ht | ht <;> simp [Loop.turn, hl, ht]

/-- A loop that has ended stays where it is. -/
theorem Loop.turn_stopped {l : Loop} (hl : l.stopped = true) (t : Turn) : l.turn t = (l, []) := by
  simp [Loop.turn, hl]

theorem Loop.stopped_of_turn {l : Loop} {t : Turn} {h' : Hub} {out : List Effect}
    (heq : l.turn t = (⟨h', false⟩, out)) : l.stopped = false := by
  cases hl : l.stopped with
  | false => rfl
  | true =>
    rw [turn_stopped hl] at heq
    cases heq
    cases hl

end Aqualung
