/-
# Requests sent home

The ids of the requests the hub sends home come from three places: `alloc_req` for a
forwarded request and for a follower `initialize`, and the count that `PendingLoads::start`
keeps for loads.  All of them count `next_req` up, so an id that was ever used is at most
`next_req` and the next one is above it.

* `EntryStep` says what one step can do to the entry of one id in `outstanding`: it is made with
  the request, and it goes with the first answer.  An id that was used and has no entry never has
  one again (`HubStep.spent`).
* `HomeBound` says what one step can queue on home links, and at most one of its cases is a
  request of a phone.

That an answer is relayed to the phone that asked, with the phone's own id, and once, follows from
the two: an entry leads back to the line that made it (`Run.forwarded`), which forwards the request,
and a relayed answer spends the entry (`Run.relayed_spent`).
-/
import Aqualung.Hub.Sessions

namespace Aqualung

open Lib

/-! ## 1. The entry of one request -/

/-- What a step does to the entry of the request `n` in `outstanding`. -/
inductive EntryStep (t : Turn) (h h' : Hub) (out : List Effect) (n : HomeReqId) : Prop
  | kept (heq : h'.outstanding.lookup n = h.outstanding.lookup n)
  /-- The entry of a follower `initialize`. -/
  | initializing {c : Incoming} (hc : h.home.candidate = some c) (hn : n = h.nextReq + 1)
      (hnext : h'.nextReq = n) (heq : h'.outstanding.lookup n = some .hubInitialize)
      (hout : out = [.toHome c.gen (.acp (followerInitialize n))])
  /-- The entry of a load. -/
  | loading {link : Link} {s : SessionId} (hc : h.home.candidate = some (.waitInitialize link))
      (hn : (n, s) ∈ h.loads) (hnext : h'.nextReq = h.nextReq + h.loads.length)
      (heq : h'.outstanding.lookup n = some .hubLoad)
      (hout : out = h.loads.map fun e => .toHome link.homeGen (.acp (sessionLoad e.1 e.2)))
  /-- The entry of a phone's request. -/
  | forwarding {p : PhoneId} {obj : Obj} {origin : JsonId} {g : HomeGen} (ht : t.PhoneSays p obj)
      (hp : (h.phones.lookup p).isSome) (hreq : obj.isRequest) (hid : obj.id = some origin)
      (hm : h.home.mux = some g) (hn : n = h.nextReq + 1) (hnext : h'.nextReq = n)
      (heq : h'.outstanding.lookup n = some (.forwarded p origin))
      (hout : out = [.toHome g (.acp (obj.withId (.ofU64 n)))])
  /-- The request is answered, and the entry goes.  A phone gets the answer if the link that
  gave it is serving. -/
  | settled {g : HomeGen} {obj : Obj} {w : Wait} (hs : Settles t h g n obj w)
      (heq : h'.outstanding.lookup n = none)
      (hw : ∀ p origin, w = .forwarded p origin →
        (h.home.mux = some g ∧ out = h.sendPhone p (obj.withId origin)) ∨
          (h.home.mux ≠ some g ∧ out = []))

namespace Hub

theorem length_loads (h : Hub) : h.loads.length = (sorted h.watched).length := by
  simp [loads]

theorem map_fst_loads (h : Hub) :
    h.loads.map Prod.fst = List.range' (h.nextReq + 1) h.loads.length := by
  rw [loads, PendingLoads.map_fst_numbered, PendingLoads.length_numbered]

theorem mem_loads_bounds {h : Hub} {e : HomeReqId × SessionId} (he : e ∈ h.loads) :
    h.nextReq < e.1 ∧ e.1 ≤ h.nextReq + h.loads.length := by
  rw [length_loads]
  exact PendingLoads.mem_numbered_bounds he

end Hub

theorem Obj.isRequest_of {o : Obj} {method : String} {v : Json} (hmethod : o.method = some method)
    (hid : o.id = some v) : o.isRequest := by
  simp [Obj.isRequest, hmethod, hid]

theorem Obj.isRequest_withId {o : Obj} (ho : o.isRequest) (v : Json) :
    (o.withId v).isRequest := by
  simp only [Obj.isRequest, Bool.and_eq_true] at ho
  simp [Obj.isRequest, ho.1]

namespace HubStep

variable {t : Turn} {h h' : Hub} {out : List Effect}

theorem entry (hs : HubStep t h h' out) (n : HomeReqId) : EntryStep t h h' out n := by
  -- Erasing the entry that an answer settles is the same for all answers.
  have herase : ∀ {g id obj w h'}, Settles t h g id obj w →
      h'.outstanding = h.outstanding.erase id →
      (∀ p origin, w = .forwarded p origin →
        (h.home.mux = some g ∧ out = h.sendPhone p (obj.withId origin)) ∨
          (h.home.mux ≠ some g ∧ out = [])) →
      EntryStep t h h' out n := by
    intro g id obj w h' hset heq hw
    by_cases hn : n = id
    · subst hn
      exact .settled hset (by rw [heq, AList.lookup_erase]) hw
    · exact .kept (by rw [heq, AList.lookup_erase_ne hn])
  have hinsert : ∀ {w} {h' : Hub}, h'.outstanding = h.outstanding.insert (h.nextReq + 1) w →
      n ≠ h.nextReq + 1 → EntryStep t h h' out n := fun heq hn =>
    .kept (by rw [heq, AList.lookup_insert_ne hn])
  cases hs with
  | candidateFailed hc hset he => exact herase hset rfl fun _ _ hw => by cases hw
  | initializing hc why =>
    by_cases hn : n = h.nextReq + 1
    · subst hn
      exact .initializing hc rfl rfl (AList.lookup_insert _) rfl
    · exact hinsert rfl hn
  | answerDropped hset hw =>
    exact herase hset rfl fun p origin heq => .inr ⟨hw p origin heq, rfl⟩
  | relayed hset hm =>
    refine herase hset rfl fun p origin heq => .inl ⟨hm, ?_⟩
    obtain ⟨rfl, rfl⟩ := Wait.forwarded.inj heq
    rfl
  | @loading link id obj hc hset he hne =>
    by_cases hn : n ∈ h.loads.map Prod.fst
    · obtain ⟨⟨_, s⟩, hmem, rfl⟩ := List.mem_map.mp hn
      exact .loading hc hmem rfl (by rw [Table.lookup_insertAll, if_pos hn]) rfl
    · by_cases he : n = id
      · refine .settled (he ▸ hset) ?_ fun _ _ hw => by cases hw
        rw [Table.lookup_insertAll, if_neg hn, Table.lookup_erase_eq, if_pos he]
      · exact .kept (by
          rw [Table.lookup_insertAll, if_neg hn, Table.lookup_erase_eq, if_neg he])
  | loadAnswered hc hset hp => exact herase hset rfl fun _ _ hw => by cases hw
  | promoted hc why =>
    obtain ⟨-, hset, -, -⟩ | ⟨_, -, hset, -⟩ := why
    · exact herase hset rfl fun _ _ hw => by cases hw
    · exact herase hset rfl fun _ _ hw => by cases hw
  | requestForwarded ht hp hmethod hid hf hm =>
    by_cases hn : n = h.nextReq + 1
    · subst hn
      exact .forwarding ht (by simp [hp]) (Obj.isRequest_of hmethod hid) hid hm rfl rfl
        (AList.lookup_insert _) rfl
    · exact hinsert rfl hn
  | _ => exact .kept rfl

/-- `next_req` only grows. -/
theorem nextReq_le (hs : HubStep t h h' out) : h.nextReq ≤ h'.nextReq := by
  cases hs with
  | phoneLeft ht => exact le_rfl
  | _ => simp

/-- An entry is old, or it was made now, with the id that was free. -/
theorem entry_le (hs : HubStep t h h' out)
    (hi : ∀ n w, h.outstanding.lookup n = some w → n ≤ h.nextReq) :
    ∀ n w, h'.outstanding.lookup n = some w → n ≤ h'.nextReq := by
  intro n w hw
  cases hs.entry n with
  | kept heq => exact (hi n w (heq ▸ hw)).trans hs.nextReq_le
  | initializing hc hn hnext heq hout => exact hnext.ge
  | loading hc hn hnext heq hout => exact hnext ▸ (Hub.mem_loads_bounds hn).2
  | forwarding ht hp hreq hid hm hn hnext heq hout => exact hnext.ge
  | settled hset heq => rw [heq] at hw; cases hw

/-- An id that was used and has no entry never has one again. -/
theorem spent (hs : HubStep t h h' out) {n : HomeReqId} (hle : n ≤ h.nextReq)
    (hn : h.outstanding.lookup n = none) : h'.outstanding.lookup n = none := by
  cases hs.entry n with
  | kept heq => rw [heq, hn]
  | initializing hc hn' hnext heq hout => lia
  | loading hc hn' hnext heq hout => exact absurd (Hub.mem_loads_bounds hn').1 (not_lt.mpr hle)
  | forwarding ht hp hreq hid hm hn' hnext heq hout => lia
  | settled hset heq => exact heq

end HubStep

theorem Run.outstanding_le {hist : List Line} {h : Hub} (hr : Run hist h) :
    ∀ n w, h.outstanding.lookup n = some w → n ≤ h.nextReq :=
  hr.invariant (P := fun _ h => ∀ n w, h.outstanding.lookup n = some w → n ≤ h.nextReq)
    (fun _ _ hw => by cases hw) fun _ hs hi => hs.entry_le hi

/-! ## 2. What goes home -/

/-- What a step queues on home links: nothing, or one of five things. -/
inductive HomeBound (t : Turn) (h h' : Hub) (out : List Effect) : Prop
  | nothing (hout : ∀ g msg, .toHome g msg ∉ out)
  | initializing {c : Incoming} {refused : Option Nat} (hc : h.home.candidate = some c)
      (why : Initializing t h c refused) (hnext : h'.nextReq = h.nextReq + 1)
      (hout : out = [.toHome c.gen (.acp (followerInitialize (h.nextReq + 1)))])
  | loading {link : Link} {id : HomeReqId} {obj : Obj}
      (hc : h.home.candidate = some (.waitInitialize link))
      (hs : Settles t h link.homeGen id obj .hubInitialize) (he : (obj.get "error").isNone)
      (hnext : h'.nextReq = h.nextReq + h.loads.length)
      (hout : out = h.loads.map fun e => .toHome link.homeGen (.acp (sessionLoad e.1 e.2)))
  | forwarding {p : PhoneId} {obj : Obj} {g : HomeGen} (ht : t.PhoneSays p obj)
      (hp : (h.phones.lookup p).isSome) (hreq : obj.isRequest) (hm : h.home.mux = some g)
      (hnext : h'.nextReq = h.nextReq + 1)
      (hout : out = [.toHome g (.acp (obj.withId (.ofU64 (h.nextReq + 1))))])
      (hhome : h'.home = h.home)
      (hentry : ∃ origin, obj.id = some origin ∧
        h'.outstanding = h.outstanding.insert (h.nextReq + 1) (.forwarded p origin))
  | notification {p : PhoneId} {obj : Obj} {g : HomeGen} (ht : t.PhoneSays p obj)
      (hp : (h.phones.lookup p).isSome) (hmethod : obj.method.isSome) (hid : obj.id = none)
      (hm : h.home.mux = some g) (hout : out = [.toHome g (.acp obj)])
  | reply {p : PhoneId} {obj : Obj} {origin homeId : JsonId} {key : HomeReqId} {g : HomeGen}
      (ht : t.PhoneSays p obj) (hp : (h.phones.lookup p).isSome) (hmethod : obj.method = none)
      (hreply : (obj.get "result").isSome ∨ (obj.get "error").isSome)
      (hid : obj.id = some origin) (hkey : h.reverse.lookup (p, origin) = some key)
      (hopen : h.claims.lookup key = some (.opened homeId)) (hm : h.home.mux = some g)
      (hout : out = [.toHome g (.acp (obj.withId homeId))])

theorem ToPhones.not_toHome {out : List Effect} (h : ToPhones out) (g : HomeGen)
    (msg : LeaderClient) : .toHome g msg ∉ out := fun hmem => by
  obtain ⟨p, m, heq⟩ := h _ hmem
  cases heq

theorem HubStep.homeBound {t : Turn} {h h' : Hub} {out : List Effect}
    (hs : HubStep t h h' out) : HomeBound t h h' out := by
  cases hs with
  | accepted ht => exact .nothing fun g msg hmem => by simp at hmem
  | initializing hc why => exact .initializing hc why rfl rfl
  | relayed hs hm => exact .nothing (ToPhones.sendPhone _ _ _).not_toHome
  | loading hc hs he hne => exact .loading hc hs he rfl rfl
  | promoted hc why =>
    refine .nothing fun g msg hmem => ?_
    cases hm : h.home.mux with
    | none =>
      rw [hm] at hmem
      exact (ToPhones.broadcastAway _ _).not_toHome g msg hmem
    | some g' => simp [hm, Hub.promotionOut] at hmem
  | muxLost hm ht =>
    refine .nothing fun g msg hmem => ?_
    rcases List.mem_cons.mp hmem with heq | hmem
    · cases heq
    · exact (ToPhones.broadcastAway _ _).not_toHome g msg hmem
  | notified hm ht hmethod hid =>
    exact .nothing (ToPhones.onHomeNotification _ _ _).not_toHome
  | asked hm ht hmethod hid hsession hne => exact .nothing (ToPhones.copies _ _ _).not_toHome
  | initialized ht hid hmethod hp =>
    exact .nothing fun g msg hmem => by split at hmem <;> simp at hmem
  | requestForwarded ht hp hmethod hid hf hm =>
    exact .forwarding ht (by simp [hp]) (Obj.isRequest_of hmethod hid) hm rfl rfl rfl ⟨_, hid, rfl⟩
  | notificationForwarded ht hp hmethod hid hm =>
    exact .notification ht (by simp [hp]) hmethod hid hm rfl
  | replied ht hp hmethod hreply hid hkey hopen =>
    cases hm : h.home.mux with
    | none => exact .nothing fun g msg hmem => by simp at hmem
    | some g => exact .reply ht (by simp [hp]) hmethod hreply hid hkey hopen hm rfl
  | _ => exact .nothing fun g msg hmem => by simp at hmem

/-! ## 3. The ids of requests -/

def Effect.requestId (eff : Effect) : Option JsonId :=
  eff.acp.bind fun e => if e.2.isRequest then e.2.id else none

/-- The ids of all requests queued on home links, in order. -/
def requestIds (hist : List Line) : List JsonId := collect Effect.requestId hist

/-- The requests of a step have ids above `next_req`, in increasing order, and `next_req`
moves up to them. -/
theorem HubStep.requestIds {t : Turn} {h h' : Hub} {out : List Effect}
    (hs : HubStep t h h' out) :
    ∃ k, out.filterMap Effect.requestId = (List.range' (h.nextReq + 1) k).map Json.ofU64 ∧
      h.nextReq + k ≤ h'.nextReq := by
  have hsilent : (∀ eff ∈ out, eff.requestId = none) →
      ∃ k, out.filterMap Effect.requestId = (List.range' (h.nextReq + 1) k).map Json.ofU64 ∧
        h.nextReq + k ≤ h'.nextReq := fun hnone =>
    ⟨0, by rw [List.filterMap_eq_nil_iff.mpr hnone]; rfl, hs.nextReq_le⟩
  have hone : ∀ {g m}, out = [.toHome g (.acp m)] → m.isRequest →
      m.id = some (.ofU64 (h.nextReq + 1)) → h.nextReq + 1 ≤ h'.nextReq →
      ∃ k, out.filterMap Effect.requestId = (List.range' (h.nextReq + 1) k).map Json.ofU64 ∧
        h.nextReq + k ≤ h'.nextReq := fun hout hreq hid hle =>
    ⟨1, by simp [hout, Effect.requestId, Effect.acp, hreq, hid], hle⟩
  cases hs.homeBound with
  | nothing hout =>
    refine hsilent fun eff heff => ?_
    cases eff with
    | toHome g msg => exact absurd heff (hout g msg)
    | _ => rfl
  | initializing hc why hnext hout =>
    exact hone hout (by simp [Obj.isRequest]) (id_followerInitialize _) hnext.ge
  | loading hc hset he hnext hout =>
    refine ⟨h.loads.length, ?_, hnext.ge⟩
    rw [hout, ← h.map_fst_loads, List.filterMap_map, List.map_map, ← List.filterMap_eq_map]
    congr 1
    funext e
    simp [Effect.requestId, Effect.acp, Obj.isRequest]
  | forwarding ht hp hreq hm hnext hout =>
    exact hone hout (Obj.isRequest_withId hreq _) (Obj.id_withId _ _) hnext.ge
  | notification ht hp hmethod hid hm hout =>
    exact hsilent (by simp [hout, Effect.requestId, Effect.acp, Obj.isRequest, hid])
  | reply ht hp hmethod hreply hid hkey hopen hm hout =>
    exact hsilent (by simp [hout, Effect.requestId, Effect.acp, Obj.isRequest, hmethod])

/-- The ids of a run's requests increase, up to `next_req`. -/
theorem Run.requestIds {hist : List Line} {h : Hub} (hr : Run hist h) :
    ∃ ns : List Nat, Aqualung.requestIds hist = ns.map Json.ofU64 ∧ ns.Pairwise (· < ·) ∧
      ∀ n ∈ ns, n ≤ h.nextReq := by
  refine hr.invariant (P := fun hist h => ∃ ns : List Nat,
    Aqualung.requestIds hist = ns.map Json.ofU64 ∧ ns.Pairwise (· < ·) ∧ ∀ n ∈ ns, n ≤ h.nextReq)
    ⟨[], rfl, .nil, fun _ hn => absurd hn List.not_mem_nil⟩ ?_
  intro hist h t h' out hr hs ⟨ns, heq, hlt, hle⟩
  obtain ⟨k, hout, hnext⟩ := hs.requestIds
  refine ⟨ns ++ List.range' (h.nextReq + 1) k, ?_, ?_, ?_⟩
  · rw [Aqualung.requestIds, collect_append, collect_singleton, hout, List.map_append, ← heq]
    rfl
  · refine List.pairwise_append.mpr ⟨hlt, List.pairwise_lt_range', fun a ha b hb => ?_⟩
    have := hle a ha
    rw [List.mem_range'_1] at hb
    lia
  · intro n hn
    rcases List.mem_append.mp hn with hn | hn
    · have := hle n hn
      lia
    · rw [List.mem_range'_1] at hn
      lia

/-! ## 4. Forwarding and relaying -/

/-- The line forwards the request `obj` of the phone `p` home, as the request `n`, and does
nothing else. -/
structure Forwards (e : Line) (n : HomeReqId) (p : PhoneId) (obj : Obj) : Prop where
  asked : e.input.PhoneSays p obj
  request : obj.isRequest
  sent : ∃ g, e.out = [.toHome g (.acp (obj.withId (.ofU64 n)))]

/-- The line relays the answer `r` of home to some phone: home says it, and a phone gets an
answer. -/
structure Relays (e : Line) (r : Obj) (p : PhoneId) (m : Obj) : Prop where
  said : ∃ g, e.input.HomeSays g r
  answer : r.isAnswer
  sent : .toPhone p m ∈ e.out
  relayed : m.isAnswer

/-- The requests of the phone `p`, in order. -/
def requestsOf (p : PhoneId) (hist : List Line) : List Obj :=
  hist.filterMap fun e =>
    match e.input.input with
    | .recv (.phoneText q (.value (.obj obj) false)) =>
      if q = p ∧ Obj.isRequest obj then some obj else none
    | _ => none

/-- The requests queued on home links in the turns of the phone `p`, in order. -/
def forwardedFor (p : PhoneId) (hist : List Line) : List Obj :=
  hist.flatMap fun e =>
    match e.input.input with
    | .recv (.phoneText q _) =>
      if q = p then e.out.filterMap fun eff => (eff.acp.map Prod.snd).filter Obj.isRequest else []
    | _ => []

/-- An answer from a link in `Home` goes to `on_home_result`. -/
theorem turn_answer {t : Turn} {h : Hub} {g : HomeGen} {r : Obj} (hg : h.home.Holds g)
    (ht : t.HomeSays g r) (hans : r.isAnswer) :
    Loop.turn ⟨h, false⟩ t = (⟨(h.onHomeResult g r).1, false⟩, (h.onHomeResult g r).2) := by
  have hparts : r.method = none ∧ r.id.isSome := by
    simpa [Obj.isAnswer] using hans
  have hinput : t.input = .recv (.homeFrame g (.acp (.ofObj r))) := ht
  have hframe : h.onHomeFrame t g (.acp (.ofObj r)) = h.onHomeResult g r := by
    unfold Hub.onHomeFrame
    cases hrole : h.role g with
    | unknown => exact absurd hg (Hub.role_eq_unknown.mp hrole)
    | mux => simp [Hub.onHomeAcp, hparts]
    | candidate => simp [Hub.onHomeAcp, hparts]
  simp only [Loop.turn, hinput, Hub.handle, hframe, Bool.false_eq_true, if_false]

/-- The serving link's answer to a phone's request goes to the phone. -/
theorem Hub.onHomeResult_relays {h : Hub} {g : HomeGen} {n : HomeReqId} {r : Obj} {p : PhoneId}
    {origin : JsonId} (hid : r.id = some (.ofU64 n)) (hm : h.home.mux = some g)
    (hw : h.outstanding.lookup n = some (.forwarded p origin)) :
    (h.onHomeResult g r).2 = h.sendPhone p (r.withId origin) := by
  have hparse : r.id.bind Json.asU64 = some n := by
    rw [hid]
    rfl
  have hrole : role { h with outstanding := h.outstanding.erase n } g = .mux := role_eq_mux.mpr hm
  unfold onHomeResult
  simp only [hparse, hw, hrole, ne_eq, not_true_eq_false, if_false]
  change sendPhone (attach { h with outstanding := h.outstanding.erase n } p r) p _ = _
  rw [attach_outstanding]
  rfl

theorem hostAwayNote_not_answer (away : Bool) : ¬ (hostAwayNote away).isAnswer := by
  cases away <;> decide

/-- A relayed answer settles a request of the phone that gets it. -/
theorem HubStep.relays {t : Turn} {h h' : Hub} {out : List Effect} (hs : HubStep t h h' out)
    {g : HomeGen} {r m : Obj} {p : PhoneId} (hspoke : t.HomeSays g r) (hans : r.isAnswer)
    (hmem : .toPhone p m ∈ out) (hm : m.isAnswer) :
    ∃ n origin, Settles t h g n r (.forwarded p origin) ∧ h.home.mux = some g ∧
      m = r.withId origin ∧ out = [.toPhone p m] ∧ h'.outstanding.lookup n = none := by
  have hnote : ∀ {away}, .toPhone p m ∉ h.broadcastAway away := fun {away} hmem => by
    rw [(Hub.mem_broadcastAway.mp hmem).2] at hm
    exact hostAwayNote_not_answer away hm
  have hmethod : r.method = none := by
    simpa using (Bool.and_eq_true_iff.mp hans).1
  cases hs with
  | accepted ht => simp at hmem
  | @relayed g' id obj q origin hset hmux =>
    obtain ⟨rfl, rfl⟩ := hspoke.inj hset.said
    obtain ⟨rfl, rfl, hp⟩ := Hub.mem_sendPhone.mp hmem
    obtain ⟨phone, hp⟩ := Table.mem_iff_exists.mp hp
    exact ⟨id, origin, hset, hmux, rfl, Hub.sendPhone_of_lookup hp _, AList.lookup_erase _ _⟩
  | promoted hc why =>
    cases hmux : h.home.mux with
    | none => exact absurd (hmux ▸ hmem) hnote
    | some g' => simp [hmux, Hub.promotionOut] at hmem
  | muxLost hmux ht =>
    rcases List.mem_cons.mp hmem with heq | hmem
    · cases heq
    · exact absurd hmem hnote
  | notified hmux ht hmeth hid =>
    obtain ⟨-, rfl⟩ := hspoke.inj ht
    simp [hmethod] at hmeth
  | asked hmux ht hmeth hid hsession hne =>
    obtain ⟨-, rfl⟩ := hspoke.inj ht
    simp [hmethod] at hmeth
  | refused ht hp hcode =>
    have heq := hspoke.symm.trans ht
    simp at heq
  | initialized ht hid hmeth hp => exact absurd hspoke ht.not_home
  | requestAway ht hp hmeth hid hf hmux => exact absurd hspoke ht.not_home
  | replied ht hp hmeth hreply hid hkey hopen => exact absurd hspoke ht.not_home
  | _ => simp at hmem

/-- An entry for a phone's request was made by a line that forwards that request. -/
theorem Run.forwarded {hist : List Line} {h : Hub} (hr : Run hist h) :
    ∀ n p origin, h.outstanding.lookup n = some (.forwarded p origin) →
      ∃ e ∈ hist, ∃ obj, Forwards e n p obj ∧ obj.id = some origin := by
  refine hr.invariant (P := fun hist h => ∀ n p origin,
    h.outstanding.lookup n = some (.forwarded p origin) →
      ∃ e ∈ hist, ∃ obj, Forwards e n p obj ∧ obj.id = some origin)
    (fun _ _ _ hw => by cases hw) ?_
  intro hist h t h' out hr hs hi n p origin hw
  cases hs.entry n with
  | kept heq =>
    obtain ⟨e, he, obj, hf⟩ := hi n p origin (heq ▸ hw)
    exact ⟨e, List.mem_append_left _ he, obj, hf⟩
  | forwarding ht hp hreq hid hm hn hnext heq hout =>
    obtain ⟨rfl, rfl⟩ := Wait.forwarded.inj (Option.some.inj (heq.symm.trans hw))
    exact ⟨_, List.mem_append_right _ (List.mem_singleton_self _), _, ⟨ht, hreq, _, hout⟩, hid⟩
  | initializing hc hn hnext heq hout => rw [heq] at hw; cases hw
  | loading hc hn hnext heq hout => rw [heq] at hw; cases hw
  | settled hset heq => rw [heq] at hw; cases hw

/-- An answer that is relayed answers a request the same phone sent before, and takes its
entry away. -/
theorem Run.relays {hist : List Line} {h h' : Hub} {t : Turn} {out : List Effect}
    (hr : Run hist h) (hs : HubStep t h h' out) {r m : Obj} {p : PhoneId}
    (hrel : Relays ⟨⟨h, false⟩, t, out⟩ r p m) :
    ∃ e ∈ hist, ∃ n obj origin, Forwards e n p obj ∧ obj.id = some origin ∧
      r.id = some (.ofU64 n) ∧ m = r.withId origin ∧ out = [.toPhone p m] ∧
      n ≤ h.nextReq ∧ h'.outstanding.lookup n = none := by
  obtain ⟨g, hsaid⟩ := hrel.said
  obtain ⟨n, origin, hset, -, heq, hout, hgone⟩ :=
    hs.relays hsaid hrel.answer hrel.sent hrel.relayed
  obtain ⟨e, he, obj, hf, hid⟩ := hr.forwarded n p origin hset.waits
  exact ⟨e, he, n, obj, origin, hf, hid, hset.id_eq, heq, hout,
    hr.outstanding_le n _ hset.waits, hgone⟩

/-- A request whose answer has been relayed has no entry, and gets none. -/
theorem Run.relayed_spent {hist : List Line} {h : Hub} (hr : Run hist h) :
    ∀ e ∈ hist, ∀ n r p m, Relays e r p m → r.id = some (.ofU64 n) →
      n ≤ h.nextReq ∧ h.outstanding.lookup n = none := by
  refine hr.invariant (P := fun hist h => ∀ e ∈ hist, ∀ n r p m, Relays e r p m →
    r.id = some (.ofU64 n) → n ≤ h.nextReq ∧ h.outstanding.lookup n = none)
    (fun _ he => absurd he List.not_mem_nil) ?_
  intro hist h t h' out hr hs hi e he n r p m hrel hid
  rcases List.mem_append.mp he with he | he
  · obtain ⟨hle, hnone⟩ := hi e he n r p m hrel hid
    exact ⟨hle.trans hs.nextReq_le, hs.spent hle hnone⟩
  · rw [List.mem_singleton] at he
    subst he
    obtain ⟨-, -, n', -, -, -, -, hid', -, -, hle, hgone⟩ := hr.relays hs hrel
    obtain rfl := Json.ofU64_inj.mp (Option.some.inj (hid.symm.trans hid'))
    exact ⟨hle.trans hs.nextReq_le, hgone⟩

/-- What a turn of a phone sends home is that phone's request, up to the id. -/
theorem HubStep.forwardedFor_sublist {t : Turn} {h h' : Hub} {out : List Effect}
    (hs : HubStep t h h' out) (l : Loop) (p : PhoneId) :
    ((forwardedFor p [⟨l, t, out⟩]).map (Obj.withId · .null)).Sublist
      ((requestsOf p [⟨l, t, out⟩]).map (Obj.withId · .null)) := by
  have hsilent : out.filterMap (fun eff => (eff.acp.map Prod.snd).filter Obj.isRequest) = [] →
      ((forwardedFor p [⟨l, t, out⟩]).map (Obj.withId · .null)).Sublist
        ((requestsOf p [⟨l, t, out⟩]).map (Obj.withId · .null)) := by
    intro hnone
    have hnil : forwardedFor p [⟨l, t, out⟩] = [] := by
      simp only [forwardedFor, List.flatMap_cons, List.flatMap_nil, List.append_nil]
      split
      · split
        · exact hnone
        · rfl
      · rfl
    rw [hnil]
    exact List.nil_sublist _
  have hhome : ∀ {g msg}, t.FromHome g msg →
      ((forwardedFor p [⟨l, t, out⟩]).map (Obj.withId · .null)).Sublist
        ((requestsOf p [⟨l, t, out⟩]).map (Obj.withId · .null)) := fun ht => by
    simp [forwardedFor, show t.input = _ from ht]
  cases hs.homeBound with
  | nothing hout =>
    refine hsilent (List.filterMap_eq_nil_iff.mpr fun eff heff => ?_)
    cases eff with
    | toHome g msg => exact absurd heff (hout g msg)
    | _ => rfl
  | initializing hc why hnext hout =>
    obtain ⟨-, -, -, ht, -⟩ | ⟨-, -, -, ht, -⟩ := why
    · exact hhome ht
    · exact hhome ht
  | loading hc hset he hnext hout => exact hhome hset.said
  | @forwarding q obj g ht hp hreq hm hnext hout =>
    by_cases hq : q = p
    · simp [forwardedFor, requestsOf, show t.input = _ from ht, RpcText.ofObj, hout, hq,
        Effect.acp, Option.filter, Obj.isRequest_withId hreq, hreq]
    · simp [forwardedFor, show t.input = _ from ht, hq]
  | notification ht hp hmethod hid hm hout =>
    exact hsilent (by simp [hout, Effect.acp, Obj.isRequest, hid])
  | reply ht hp hmethod hreply hid hkey hopen hm hout =>
    exact hsilent (by simp [hout, Effect.acp, Obj.isRequest, hmethod])

/-! ## 5. The multiplexing of requests -/

/-- What the hub promises of the requests it sends home, and of the answers it relays. -/
structure Multiplexing (hist : List Line) : Prop where
  /-- All requests have different ids. -/
  distinct : (requestIds hist).Nodup
  /-- The ids are 64-bit numbers: the counter has not wrapped around. -/
  u64 : ∀ id ∈ requestIds hist, ∃ n, id = .ofU64 n ∧ n < 2 ^ 64
  /-- Every request that goes home is a phone's, sent in that phone's turn and on one link,
  with the id replaced; or it is the hub's own. -/
  origin : ∀ e ∈ hist, ∀ g m, .toHome g (.acp m) ∈ e.out → m.isRequest →
    (∃ n p obj, Forwards e n p obj ∧ m = obj.withId (.ofU64 n)) ∨
      (∃ n, m = followerInitialize n) ∨ (∃ n s, m = sessionLoad n s)
  /-- The requests that go home for a phone are requests of that phone, each once and in the
  phone's order; they differ from them in the id. -/
  order : ∀ p, ((forwardedFor p hist).map (Obj.withId · .null)).Sublist
    ((requestsOf p hist).map (Obj.withId · .null))
  /-- An answer that is relayed to a phone is the answer to a request of that phone, under
  the id the phone gave it. -/
  relayed : ∀ pre e post, hist = pre ++ e :: post → ∀ r p m, Relays e r p m →
    ∃ e₀ ∈ pre, ∃ n obj origin, Forwards e₀ n p obj ∧ obj.id = some origin ∧
      r.id = some (.ofU64 n) ∧ m = r.withId origin ∧ e.out = [.toPhone p m]
  /-- No request has two answers relayed. -/
  once : hist.Pairwise fun e e' => ∀ r p m r' p' m', Relays e r p m → Relays e' r' p' m' →
    r.id ≠ r'.id
  /-- A phone id stands for one connection. -/
  phones : (collect Effect.boundPhone hist).Nodup

theorem HubStep.boundPhone_eq {t : Turn} {h h' : Hub} {out : List Effect}
    (hs : HubStep t h h' out) :
    out.filterMap Effect.boundPhone = List.range' (h.nextPhone + 1) (h'.nextPhone - h.nextPhone) ∧
      h.nextPhone ≤ h'.nextPhone := by
  have hquiet : ∀ {out : List Effect}, ToPhones out → out.filterMap Effect.boundPhone = [] :=
    fun hp => hp.filterMap_eq_nil fun _ _ => rfl
  cases hs with
  | accepted ht => cases h.home.candidate <;> simp [List.filterMap_cons, Effect.boundPhone]
  | relayed hs hm => simp [hquiet (.sendPhone _ _ _)]
  | loading hc hs he hne => simp [List.filterMap_map, Function.comp_def, Effect.boundPhone]
  | promoted hc why =>
    cases h.home.mux <;>
      simp [Hub.promotionOut, hquiet (.broadcastAway _ _), List.filterMap_cons, Effect.boundPhone]
  | muxLost hm ht => simp [hquiet (.broadcastAway _ _), List.filterMap_cons, Effect.boundPhone]
  | notified hm ht hmethod hid => simp [hquiet (.onHomeNotification _ _ _)]
  | asked hm ht hmethod hid hsession hne => simp [hquiet (.copies _ _ _)]
  | initialized ht hid hmethod hp => split <;> simp [List.filterMap_cons, Effect.boundPhone]
  | replied ht hp hmethod hreply hid hkey hopen =>
    cases h.home.mux <;> simp [List.filterMap_cons, Effect.boundPhone]
  | phoneLeft ht => simp [Hub.onPhoneEof]
  | _ => simp [List.filterMap_cons, Effect.boundPhone]

/-- The phone ids bound along a run are `1`, `2` and so on. -/
theorem Run.boundPhone {hist : List Line} {h : Hub} (hr : Run hist h) :
    collect Effect.boundPhone hist = List.range' 1 h.nextPhone := by
  refine hr.invariant (P := fun hist h => collect Effect.boundPhone hist
    = List.range' 1 h.nextPhone) rfl fun _ hs ih => ?_
  obtain ⟨hbound, hle⟩ := hs.boundPhone_eq
  rw [collect_append, collect_singleton, ih, hbound, Nat.add_comm _ 1, List.range'_append_1,
    Nat.add_sub_cancel' hle]

theorem Run.multiplexing {hist : List Line} {h : Hub} (hr : Run hist h)
    (hn : h.nextReq < 2 ^ 64) : Multiplexing hist := by
  obtain ⟨ns, heq, hlt, hle⟩ := hr.requestIds
  refine ⟨?distinct, ?u64, ?origin, ?order, ?relayed, ?once, ?phones⟩
  case distinct =>
    rw [heq]
    exact (hlt.imp Nat.ne_of_lt).map _ fun _ _ hne heq => hne (Json.ofU64_inj.mp heq)
  case u64 =>
    intro id hid
    rw [heq, List.mem_map] at hid
    obtain ⟨n, hmem, rfl⟩ := hid
    exact ⟨n, rfl, (hle n hmem).trans_lt hn⟩
  case origin =>
    intro e he g m hmem hreq
    obtain ⟨h', hs⟩ := hr.step_of_mem he
    cases hs.homeBound with
    | nothing hout => exact absurd hmem (hout g _)
    | initializing hc why hnext hout =>
      rw [hout, List.mem_singleton] at hmem
      cases hmem
      exact .inr (.inl ⟨_, rfl⟩)
    | loading hc hset herr hnext hout =>
      rw [hout, List.mem_map] at hmem
      obtain ⟨_, -, hmem⟩ := hmem
      cases hmem
      exact .inr (.inr ⟨_, _, rfl⟩)
    | forwarding ht hp hreq' hm hnext hout =>
      have hf : Forwards e _ _ _ := ⟨ht, hreq', _, hout⟩
      rw [hout, List.mem_singleton] at hmem
      cases hmem
      exact .inl ⟨_, _, _, hf, rfl⟩
    | notification ht hp hmethod hid hm hout =>
      rw [hout, List.mem_singleton] at hmem
      cases hmem
      simp [Obj.isRequest, hid] at hreq
    | reply ht hp hmethod hreply hid hkey hopen hm hout =>
      rw [hout, List.mem_singleton] at hmem
      cases hmem
      simp [Obj.isRequest, hmethod] at hreq
  case order =>
    intro p
    refine hr.invariant (P := fun hist _ =>
      ((forwardedFor p hist).map (Obj.withId · .null)).Sublist
        ((requestsOf p hist).map (Obj.withId · .null))) (List.nil_sublist _) ?_
    intro hist h t h' out hr hs ih
    have hline := hs.forwardedFor_sublist ⟨h, false⟩ p
    simpa [forwardedFor, requestsOf] using ih.append hline
  case relayed =>
    intro pre e post hsplit r p m hrel
    obtain ⟨hstopped, hpre, h', hs⟩ := hr.at_line hsplit
    obtain ⟨⟨h, stopped⟩, t, out⟩ := e
    subst hstopped
    obtain ⟨e₀, he₀, n, obj, origin, hf, hid, hid', hm, hout, -⟩ := hpre.relays hs hrel
    exact ⟨e₀, he₀, n, obj, origin, hf, hid, hid', hm, hout⟩
  case once =>
    refine hr.invariant (P := fun hist _ => hist.Pairwise fun e e' => ∀ r p m r' p' m',
      Relays e r p m → Relays e' r' p' m' → r.id ≠ r'.id) .nil ?_
    intro hist h t h' out hr hs ih
    refine List.pairwise_append.mpr ⟨ih, List.pairwise_singleton _ _, fun e he e' he' => ?_⟩
    intro r p m r' p' m' hrel hrel' hid
    rw [List.mem_singleton] at he'
    subst he'
    obtain ⟨g, hsaid⟩ := hrel'.said
    obtain ⟨n, origin, hset, -⟩ := hs.relays hsaid hrel'.answer hrel'.sent hrel'.relayed
    have hnone := (hr.relayed_spent e he n r p m hrel (hid.trans hset.id_eq)).2
    rw [hset.waits] at hnone
    cases hnone
  case phones =>
    rw [hr.boundPhone]
    exact List.nodup_range'

/-- The quiet tail of a history adds nothing to the traffic. -/
theorem Multiplexing.append_quiet {hist tail : List Line} (hm : Multiplexing hist)
    (htail : ∀ e ∈ tail, Quiet e) : Multiplexing (hist ++ tail) := by
  have hnone : ∀ {α : Type} (f : Effect → Option α), (∀ g, f (.halt g) = none) →
      collect f tail = [] := by
    intro α f hf
    refine List.filterMap_eq_nil_iff.mpr fun eff heff => ?_
    obtain ⟨e, he, heff⟩ := List.mem_flatMap.mp heff
    obtain ⟨g, rfl⟩ := htail e he eff heff
    exact hf g
  have hquiet : ∀ e ∈ tail, ∀ r p m, ¬ Relays e r p m := fun e he r p m hrel => by
    obtain ⟨g, heq⟩ := htail e he _ hrel.sent
    cases heq
  refine ⟨?distinct, ?u64, ?origin, ?order, ?relayed, ?once, ?phones⟩
  case distinct =>
    rw [requestIds, collect_append, hnone _ fun _ => rfl, List.append_nil]
    exact hm.distinct
  case u64 =>
    rw [requestIds, collect_append, hnone _ fun _ => rfl, List.append_nil]
    exact hm.u64
  case origin =>
    intro e he g m hmem
    rcases List.mem_append.mp he with he | he
    · exact hm.origin e he g m hmem
    · obtain ⟨g', heq⟩ := htail e he _ hmem
      cases heq
  case order =>
    intro p
    have hsilent : forwardedFor p tail = [] := by
      refine List.flatMap_eq_nil_iff.mpr fun e he => ?_
      split
      · split
        · refine List.filterMap_eq_nil_iff.mpr fun eff heff => ?_
          obtain ⟨g, rfl⟩ := htail e he eff heff
          rfl
        · rfl
      · rfl
    have happ := hm.order p
    simp only [forwardedFor, requestsOf, List.flatMap_append, List.filterMap_append,
      List.map_append] at happ ⊢
    rw [show tail.flatMap _ = [] from hsilent, List.map_nil, List.append_nil]
    exact happ.trans (List.sublist_append_left _ _)
  case relayed =>
    intro pre e post hsplit r p m hrel
    rcases List.append_eq_append_iff.mp hsplit with ⟨mid, rfl, hmid⟩ | ⟨mid, rfl, hmid⟩
    · have he : e ∈ tail := by rw [hmid]; simp
      exact absurd hrel (hquiet e he r p m)
    · cases mid with
      | nil =>
        have he : e ∈ tail := by rw [← List.nil_append tail, ← hmid]; simp
        exact absurd hrel (hquiet e he r p m)
      | cons e' mid =>
        obtain ⟨rfl, -⟩ := List.cons.inj hmid
        exact hm.relayed pre e mid rfl r p m hrel
  case once =>
    refine List.pairwise_append.mpr ⟨hm.once, ?_, fun e he e' he' => ?_⟩
    · exact List.pairwise_of_forall_mem_list fun e he e' he' r p m r' p' m' hrel =>
        absurd hrel (hquiet e he r p m)
    · intro r p m r' p' m' hrel hrel'
      exact absurd hrel' (hquiet e' he' r' p' m')
  case phones => rw [collect_append, hnone _ fun _ => rfl, List.append_nil]; exact hm.phones

/-- **Requests are multiplexed without confusion**, in every run of less than 2^64
allocations: their ids differ, a phone's requests go home once, in order and unchanged but
for the id, and the answer to each goes back to the phone that asked, once, under its own id.

The ids count up along the run, so they differ; an entry leads from an answer back to the request,
and goes with the answer.  The shutdown and what comes after it add nothing to the traffic. -/
theorem request_multiplexing (ts : List Turn) (hn : (Hub.run.final ts).hub.nextReq < 2 ^ 64) :
    Multiplexing (Hub.run.history ts) := by
  obtain ⟨hist, h, tail, hr, heq, htail, hreq⟩ := history_split ts
  rw [heq]
  exact (hr.multiplexing (hreq ▸ hn)).append_quiet htail

/-- A phone's request goes home as the request 2, and its answer comes back. -/
theorem request_multiplexing_of_answer :
    Multiplexing (Hub.run.history (Turn.bringUp ++
      [.phone 1 (request (.ofU64 1) "session/load" "a"), .home 1 (answer (.ofU64 2))])) :=
  request_multiplexing _ (by decide +kernel)

end Aqualung
