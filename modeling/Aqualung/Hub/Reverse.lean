/-
# Requests from home

A request from the serving link is put to phones as copies, each under an id of its own, and
the first reply to any of the copies goes home.  The hub keeps two tables for it: `reverse`
leads from a phone and a copy's id to a key, and `claims` from the key to the id that home
used, until it is taken.

`Asked` says what the two tables mean: for every request in the history that was put to
phones, and for every copy of it, what they hold is decided by the replies since.  There are three
ways for a step to touch it, and one lemma for each: neither a request nor a reply (`Asked.quiet`),
a request (`Asked.asking`), a reply (`Asked.replied`).  That keys and ids of copies are never used
twice keeps the requests apart, and both are counted up.

`first_answer_wins` reads off who is asked, and whose answer goes back.  The converse is part of it:
nothing that has no method goes home but such an answer (`reply_of_response`).
-/
import Mathlib.Data.Finset.Option
import Aqualung.Hub.Requests

namespace Aqualung

open Lib

/-! ## 1. Ids of copies -/

theorem reverseId_inj {m n : Nat} : Hub.reverseId m = Hub.reverseId n ↔ m = n := by
  constructor
  · intro h
    have hrepr : m.repr = n.repr := by simpa [Hub.reverseId] using h
    have hdigits : Nat.toDigits 10 m = Nat.toDigits 10 n := by
      simpa using congrArg String.toList hrepr
    simpa using congrArg (Nat.ofDigitChars 10 · 0) hdigits
  · rintro rfl
    rfl

def Effect.copyId (eff : Effect) : Option JsonId :=
  eff.text.bind fun e => if e.2.isRequest then e.2.id else none

/-- The ids of all requests sent to phones, in order. -/
def copyIds (hist : List Line) : List JsonId := collect Effect.copyId hist

/-- The request `r` of home, in this line, is put to the phone `p` under the id `v`. -/
structure Copies (e : Line) (r : Obj) (p : PhoneId) (v : JsonId) : Prop where
  said : ∃ g, e.input.HomeSays g r
  request : r.isRequest
  sent : .toPhone p (r.withId v) ∈ e.out

/-- The phone `p`, connected, replies to the id `v`. -/
structure Replies (e : Line) (p : PhoneId) (obj : Obj) (v : JsonId) : Prop where
  running : e.before.stopped = false
  said : e.input.PhoneSays p obj
  connected : p ∈ (hubOf e).phones
  method : obj.method = none
  result : (obj.get "result").isSome ∨ (obj.get "error").isSome
  id : obj.id = some v

/-- The line `e'` is a reply to a copy of the request of the line `e`, by the phone that was
sent the copy. -/
def Answers (e e' : Line) : Prop := ∃ r p obj v, Copies e r p v ∧ Replies e' p obj v

/-- The key under which the request of the line is claimed. -/
def askKey (e : Line) : HomeReqId := (hubOf e).nextReq + 1

/-- The phones a request from home is for: the watchers of its session if it is an
interaction, the driver otherwise. -/
def Hub.addressed (h : Hub) (method : String) (r : Obj) : Finset PhoneId :=
  match sessionIdIn r with
  | none => ∅
  | some s =>
    if isInteraction method then (h.watchers.lookup s).getD ∅ else (h.driver.lookup s).toFinset

namespace Replies

variable {e : Line} {p q : PhoneId} {obj obj' : Obj} {v w : JsonId}

theorem inj (h : Replies e p obj v) (h' : Replies e q obj' w) : p = q ∧ obj = obj' ∧ v = w := by
  obtain ⟨rfl, rfl⟩ := h.said.inj h'.said
  exact ⟨rfl, rfl, Option.some.inj (h.id.symm.trans h'.id)⟩

end Replies

/-! ## 2. What a turn does with a request and with a reply -/

theorem turn_request {t : Turn} {h : Hub} {g : HomeGen} {r : Obj} (hm : h.home.mux = some g)
    (ht : t.HomeSays g r) (hreq : r.isRequest) :
    Loop.turn ⟨h, false⟩ t
      = (⟨(h.onReverseRequest t.order r).1, false⟩, (h.onReverseRequest t.order r).2) := by
  have hrole := Hub.role_eq_mux.mpr hm
  have hparts : r.method.isSome ∧ r.id.isSome := by
    simpa [Obj.isRequest] using hreq
  simp [Loop.turn, show t.input = .recv (.homeFrame g (.acp (.ofObj r))) from ht, Hub.handle,
    Hub.onHomeFrame, hrole, Hub.onHomeAcp, hparts]

theorem turn_reply {t : Turn} {h : Hub} {out : List Effect} {p : PhoneId} {obj : Obj} {v : JsonId}
    (hrep : Replies ⟨⟨h, false⟩, t, out⟩ p obj v) :
    Loop.turn ⟨h, false⟩ t
      = (⟨(h.onPhoneReply p v obj).1, false⟩, (h.onPhoneReply p v obj).2) := by
  obtain ⟨phone, hp⟩ := Table.mem_iff_exists.mp hrep.connected
  have hp : h.phones.lookup p = some phone := hp
  simp [Loop.turn, show t.input = .recv (.phoneText p (.ofObj obj)) from hrep.said, Hub.handle,
    Hub.onPhoneText, hp, Hub.onRpc, hrep.method, hrep.result, hrep.id]

namespace Hub

/-- What `on_phone_reply` leaves in the two tables, and what it sends. -/
structure ReplySpec (h h' : Hub) (out : List Effect) (p : PhoneId) (v : JsonId) (obj : Obj) :
    Prop where
  phones : h'.phones = h.phones
  reverseSeq : h'.reverseSeq = h.reverseSeq
  nextReq : h'.nextReq = h.nextReq
  nextPhone : h'.nextPhone = h.nextPhone
  reverse : ∀ x, h'.reverse.lookup x = if x = (p, v) then none else h.reverse.lookup x
  claims : ∀ k, h'.claims.lookup k
    = if h.reverse.lookup (p, v) = some k then (h.claims.lookup k).map fun _ => .taken
      else h.claims.lookup k
  out : out = match (h.reverse.lookup (p, v)).bind h.claims.lookup with
    | some (.opened homeId) => (h.home.mux.map fun g => .toHome g (.acp (obj.withId homeId))).toList
    | _ => []

theorem onPhoneReply_spec (h : Hub) (p : PhoneId) (v : JsonId) (obj : Obj) :
    ReplySpec h (h.onPhoneReply p v obj).1 (h.onPhoneReply p v obj).2 p v obj := by
  unfold onPhoneReply
  cases hkey : h.reverse.lookup (p, v) with
  | none =>
    change ReplySpec h h [] p v obj
    refine ⟨rfl, rfl, rfl, rfl, fun x => ?_, fun k => ?_, ?_⟩
    · split
      · rename_i hx
        rw [hx, hkey]
      · rfl
    · simp [hkey]
    · simp [hkey]
  | some key =>
    have hreverse : ∀ x, (h.reverse.erase (p, v)).lookup x
        = if x = (p, v) then none else h.reverse.lookup x := Table.lookup_erase_eq _ _
    cases hclaim : h.claims.lookup key with
    | none =>
      simp only [hclaim]
      refine ⟨rfl, rfl, rfl, rfl, hreverse, fun k => ?_, by simp [hkey, hclaim]⟩
      split
      · rename_i hk
        obtain rfl := Option.some.inj (hkey.symm.trans hk)
        simp [hclaim]
      · rfl
    | some claim =>
      have hclaims : ∀ k, (h.claims.insert key .taken).lookup k
          = if h.reverse.lookup (p, v) = some k then (h.claims.lookup k).map fun _ => .taken
            else h.claims.lookup k := by
        intro k
        rw [Table.lookup_insert_eq, hkey]
        by_cases hk : k = key
        · subst hk
          simp [hclaim]
        · simp [hk, Ne.symm hk]
      cases claim with
      | opened homeId =>
        simp only [hclaim, Claim.take, forwardNotification_eq]
        exact ⟨rfl, rfl, rfl, rfl, hreverse, hclaims, by simp [hkey, hclaim]⟩
      | taken =>
        simp only [hclaim, Claim.take]
        exact ⟨rfl, rfl, rfl, rfl, hreverse, hclaims, by simp [hkey, hclaim]⟩

end Hub

/-! ## 3. What a step does to the two tables -/

/-- What a step does to `reverse` and `claims`. -/
inductive ReverseStep (t : Turn) (h h' : Hub) (out : List Effect) : Prop
  | kept (hreverse : h'.reverse = h.reverse) (hclaims : h'.claims = h.claims)
      (hphones : ∀ p, p ≤ h.nextPhone → (p ∈ h'.phones ↔ p ∈ h.phones))
      (hreq : h.nextReq ≤ h'.nextReq) (hseq : h'.reverseSeq = h.reverseSeq)
      (hphone : h.nextPhone ≤ h'.nextPhone)
      (hquiet : ∀ r p v, ¬ Copies ⟨⟨h, false⟩, t, out⟩ r p v)
      (hsilent : ∀ p obj v, ¬ Replies ⟨⟨h, false⟩, t, out⟩ p obj v)
  | asked {g : HomeGen} {r : Obj} {method : String} {homeId : JsonId} {s : SessionId}
      (hm : h.home.mux = some g) (ht : t.HomeSays g r) (hmethod : r.method = some method)
      (hid : r.id = some homeId) (hsession : sessionIdIn r = some s)
      (heq : h' = { h with
        nextReq := h.nextReq + 1
        claims := h.claims.insert (h.nextReq + 1) (.opened homeId)
        reverseSeq := h.reverseSeq + (h.targets t.order method s).length
        reverse := Table.insertAll (Hub.copies h.reverseSeq (h.targets t.order method s))
          (h.nextReq + 1) h.reverse })
      (hout : out = (Hub.copies h.reverseSeq (h.targets t.order method s)).flatMap fun c =>
        h.sendPhone c.1 (r.withId c.2))
  | replied {p : PhoneId} {obj : Obj} {v : JsonId}
      (hrep : Replies ⟨⟨h, false⟩, t, out⟩ p obj v) (hspec : Hub.ReplySpec h h' out p v obj)
  | left {p : PhoneId} (ht : t.input = .recv (.phoneEof p))
      (heq : h' = h.onPhoneEof t.order p) (hout : out = [])

/-- A text for a phone that is a request is a copy of a request from home. -/
theorem HubStep.asked_of_request {t : Turn} {h h' : Hub} {out : List Effect}
    (hs : HubStep t h h' out) {p : PhoneId} {m : Obj} (hmem : .toPhone p m ∈ out)
    (hreq : m.isRequest) : ∃ g r method homeId s, h.home.mux = some g ∧ t.HomeSays g r ∧
      r.method = some method ∧ r.id = some homeId ∧ sessionIdIn r = some s ∧
      h' = { h with
        nextReq := h.nextReq + 1
        claims := h.claims.insert (h.nextReq + 1) (.opened homeId)
        reverseSeq := h.reverseSeq + (h.targets t.order method s).length
        reverse := Table.insertAll (Hub.copies h.reverseSeq (h.targets t.order method s))
          (h.nextReq + 1) h.reverse } ∧
      out = (Hub.copies h.reverseSeq (h.targets t.order method s)).flatMap fun c =>
        h.sendPhone c.1 (r.withId c.2) := by
  cases hs with
  | accepted ht => simp at hmem
  | relayed hset hm =>
    have hanswer := hset.answer
    rw [(Hub.mem_sendPhone.mp hmem).2.1] at hreq
    simp only [Obj.isAnswer, Obj.isRequest, Obj.method_withId, Bool.and_eq_true] at hanswer hreq
    simp [Option.isNone_iff_eq_none.mp hanswer.1] at hreq
  | promoted hc why =>
    cases hm : h.home.mux with
    | none =>
      rw [hm] at hmem
      simp [(Hub.mem_broadcastAway.mp hmem).2] at hreq
    | some g => simp [hm, Hub.promotionOut] at hmem
  | muxLost hm ht =>
    rcases List.mem_cons.mp hmem with heq | hmem
    · cases heq
    · simp [(Hub.mem_broadcastAway.mp hmem).2] at hreq
  | notified hm ht hmethod hid =>
    rw [(Hub.mem_onHomeNotification hmem).1] at hreq
    simp [Obj.isRequest, hid] at hreq
  | asked hm ht hmethod hid hsession hne =>
    exact ⟨_, _, _, _, _, hm, ht, hmethod, hid, hsession, rfl, rfl⟩
  | refused ht hp hcode =>
    cases List.mem_singleton.mp hmem
    simp at hreq
  | initialized ht hid hmethod hp =>
    rcases List.mem_cons.mp hmem with heq | hmem
    · cases heq
      simp at hreq
    · split at hmem
      · cases List.mem_singleton.mp hmem
        simp at hreq
      · exact absurd hmem List.not_mem_nil
  | requestAway ht hp hmethod hid hf hm =>
    cases List.mem_singleton.mp hmem
    simp [Hub.awayError] at hreq
  | replied ht hp hmethod hreply hid hkey hopen =>
    simp at hmem
  | _ => simp at hmem

theorem reverseStep {t : Turn} {h h' : Hub} {out : List Effect}
    (heq : Loop.turn ⟨h, false⟩ t = (⟨h', false⟩, out)) : ReverseStep t h h' out := by
  by_cases hrep : ∃ p obj v, Replies ⟨⟨h, false⟩, t, out⟩ p obj v
  · obtain ⟨p, obj, v, hrep⟩ := hrep
    rw [turn_reply hrep] at heq
    have hspec := h.onPhoneReply_spec p v obj
    rw [show (h.onPhoneReply p v obj).1 = h' from congrArg (fun x => x.1.hub) heq,
      show (h.onPhoneReply p v obj).2 = out from congrArg Prod.snd heq] at hspec
    exact .replied hrep hspec
  have hsilent : ∀ p obj v, ¬ Replies ⟨⟨h, false⟩, t, out⟩ p obj v := fun p obj v hr =>
    hrep ⟨p, obj, v, hr⟩
  have hs := step_of_turn heq
  by_cases hcopy : ∃ r p v, Copies ⟨⟨h, false⟩, t, out⟩ r p v
  · obtain ⟨r, p, v, hc⟩ := hcopy
    obtain ⟨g, r', method, homeId, s, hm, ht, hmethod, hid, hsession, heq', hout⟩ :=
      hs.asked_of_request hc.sent (Obj.isRequest_withId hc.request v)
    exact .asked hm ht hmethod hid hsession heq' hout
  have hquiet : ∀ r p v, ¬ Copies ⟨⟨h, false⟩, t, out⟩ r p v := fun r p v hc =>
    hcopy ⟨r, p, v, hc⟩
  cases hs with
  | asked hm ht hmethod hid hsession hne => exact .asked hm ht hmethod hid hsession rfl rfl
  | replied ht hp hmethod hreply hid hkey hopen =>
    exact absurd ⟨rfl, ht, Table.mem_iff_exists.mpr ⟨_, hp⟩, hmethod, hreply, hid⟩
      (hsilent _ _ _)
  | replyDropped ht hp hmethod hreply hid hkey htaken hclaims =>
    exact absurd ⟨rfl, ht, Table.mem_iff_exists.mpr ⟨_, hp⟩, hmethod, hreply, hid⟩
      (hsilent _ _ _)
  | phoneLeft ht => exact .left ht rfl rfl
  | hello ht =>
    refine .kept rfl rfl (fun p hle => ?_) le_rfl rfl (Nat.le_succ _) hquiet hsilent
    rw [AList.mem_insert]
    constructor
    · rintro (rfl | hp)
      · exact absurd hle (Nat.not_succ_le_self _)
      · exact hp
    · exact .inr
  | initialized ht hid hmethod hp =>
    refine .kept rfl rfl (fun q _ => ?_) le_rfl rfl le_rfl hquiet hsilent
    rw [AList.mem_insert, AList.mem_erase]
    constructor
    · rintro (rfl | hq)
      · exact Table.mem_iff_exists.mpr ⟨_, hp⟩
      · exact hq.2
    · exact fun hq => (em _).imp id fun hne => ⟨hne, hq⟩
  | _ => exact .kept rfl rfl (fun _ _ => Iff.rfl) (by simp) rfl le_rfl hquiet hsilent

/-! ## 4. What the two tables mean -/

/-- The two tables after a history: what they hold about every copy that was sent. -/
structure Asked (hist : List Line) (h : Hub) : Prop where
  /-- Keys, phones and ids of copies are of the past. -/
  bounded : ∀ e ∈ hist, ∀ r p v, Copies e r p v →
    askKey e ≤ h.nextReq ∧ p ≤ h.nextPhone ∧ ∃ n, n ≤ h.reverseSeq ∧ v = Hub.reverseId n
  /-- What can be answered is a copy, and its key is the key of its request only. -/
  known : ∀ p v key, h.reverse.lookup (p, v) = some key →
    (∃ e ∈ hist, ∃ r, Copies e r p v ∧ askKey e = key) ∧
      ∀ e ∈ hist, ∀ r p' v', Copies e r p' v' → askKey e = key → Copies e r p v
  /-- A request without an answer is open. -/
  unclaimed : ∀ pre e mid, hist = pre ++ e :: mid → ∀ r p v, Copies e r p v →
    (∀ e' ∈ mid, ¬ Answers e e') →
    ∃ i, r.id = some i ∧ h.claims.lookup (askKey e) = some (.opened i)
  /-- A request with an answer is taken. -/
  claimed : ∀ pre e mid, hist = pre ++ e :: mid → ∀ r p v, Copies e r p v →
    (∃ e' ∈ mid, Answers e e') → h.claims.lookup (askKey e) = some .taken
  /-- A copy can be answered until its phone replies to it or disconnects. -/
  entry : ∀ pre e mid, hist = pre ++ e :: mid → ∀ r p v, Copies e r p v → p ∈ h.phones →
    (∀ e' ∈ mid, ∀ obj, ¬ Replies e' p obj v) → h.reverse.lookup (p, v) = some (askKey e)
  /-- A copy that has been replied to cannot be answered. -/
  spent : ∀ pre e mid, hist = pre ++ e :: mid → ∀ r p v, Copies e r p v →
    (∃ e' ∈ mid, ∃ obj, Replies e' p obj v) → h.reverse.lookup (p, v) = none

namespace Asked

variable {hist : List Line} {h h' : Hub} {t : Turn} {out : List Effect}

/-- A line in which nothing is asked and nothing replied, and after which the copies of
connected phones are as before. -/
theorem quiet (ha : Asked hist h) (hquiet : ∀ r p v, ¬ Copies ⟨⟨h, false⟩, t, out⟩ r p v)
    (hsilent : ∀ p obj v, ¬ Replies ⟨⟨h, false⟩, t, out⟩ p obj v)
    (hclaims : h'.claims = h.claims) (hreq : h.nextReq ≤ h'.nextReq)
    (hseq : h.reverseSeq ≤ h'.reverseSeq) (hphone : h.nextPhone ≤ h'.nextPhone)
    (hphones : ∀ p, p ≤ h.nextPhone → p ∈ h'.phones → p ∈ h.phones)
    (hreverse : ∀ p v key, h'.reverse.lookup (p, v) = some key → h.reverse.lookup (p, v) = some key)
    (hkeep : ∀ p v, p ∈ h'.phones → h'.reverse.lookup (p, v) = h.reverse.lookup (p, v)) :
    Asked (hist ++ [⟨⟨h, false⟩, t, out⟩]) h' := by
  refine ⟨?bounded, ?known, ?unclaimed, ?claimed, ?entry, ?spent⟩
  case bounded =>
    intro e he r p v hc
    rcases List.mem_append.mp he with he | he
    · obtain ⟨hkey, hp, n, hn, hv⟩ := ha.bounded e he r p v hc
      exact ⟨hkey.trans hreq, hp.trans hphone, n, hn.trans hseq, hv⟩
    · rw [List.mem_singleton] at he
      exact absurd (he ▸ hc) (hquiet r p v)
  case known =>
    intro p v key hkey
    obtain ⟨⟨e, he, r, hc, hk⟩, honly⟩ := ha.known p v key (hreverse p v key hkey)
    refine ⟨⟨e, List.mem_append_left _ he, r, hc, hk⟩, fun e' he' r' p' v' hc' hk' => ?_⟩
    rcases List.mem_append.mp he' with he' | he'
    · exact honly e' he' r' p' v' hc' hk'
    · rw [List.mem_singleton] at he'
      exact absurd (he' ▸ hc') (hquiet r' p' v')
  case unclaimed =>
    intro pre e mid hsplit r p v hc hno
    obtain ⟨mid', rfl, rfl⟩ | ⟨rfl, rfl, rfl⟩ := split_snoc hsplit
    · rw [hclaims]
      exact ha.unclaimed pre e mid' rfl r p v hc fun e' he' => hno e' (List.mem_append_left _ he')
    · exact absurd hc (hquiet r p v)
  case claimed =>
    intro pre e mid hsplit r p v hc ⟨e', he', hans⟩
    obtain ⟨mid', rfl, rfl⟩ | ⟨rfl, rfl, rfl⟩ := split_snoc hsplit
    · rw [hclaims]
      rcases List.mem_append.mp he' with he' | he'
      · exact ha.claimed pre e mid' rfl r p v hc ⟨e', he', hans⟩
      · rw [List.mem_singleton] at he'
        obtain ⟨r', p', obj, v', -, hrep⟩ := hans
        exact absurd (he' ▸ hrep) (hsilent p' obj v')
    · exact absurd hc (hquiet r p v)
  case entry =>
    intro pre e mid hsplit r p v hc hp hno
    obtain ⟨mid', rfl, rfl⟩ | ⟨rfl, rfl, rfl⟩ := split_snoc hsplit
    · have hle := (ha.bounded e (by simp) r p v hc).2.1
      rw [hkeep p v hp]
      exact ha.entry pre e mid' rfl r p v hc (hphones p hle hp)
        fun e' he' => hno e' (List.mem_append_left _ he')
    · exact absurd hc (hquiet r p v)
  case spent =>
    intro pre e mid hsplit r p v hc ⟨e', he', obj, hrep⟩
    obtain ⟨mid', rfl, rfl⟩ | ⟨rfl, rfl, rfl⟩ := split_snoc hsplit
    · rcases List.mem_append.mp he' with he' | he'
      · have hnone := ha.spent pre e mid' rfl r p v hc ⟨e', he', obj, hrep⟩
        cases hkey : h'.reverse.lookup (p, v) with
        | none => rfl
        | some key =>
          rw [hreverse p v key hkey] at hnone
          cases hnone
      · rw [List.mem_singleton] at he'
        exact absurd (he' ▸ hrep) (hsilent p obj v)
    · exact absurd hc (hquiet r p v)

/-- A line that puts a request to phones, with keys and ids that are new. -/
theorem asking (ha : Asked hist h) (hw : h.WellKept) {g : HomeGen} {r : Obj} {method : String}
    {homeId : JsonId} {s : SessionId} (ht : t.HomeSays g r) (hmethod : r.method = some method)
    (hid : r.id = some homeId)
    (hout : out = (Hub.copies h.reverseSeq (h.targets t.order method s)).flatMap fun c =>
      h.sendPhone c.1 (r.withId c.2)) :
    Asked (hist ++ [⟨⟨h, false⟩, t, out⟩]) { h with
      nextReq := h.nextReq + 1
      claims := h.claims.insert (h.nextReq + 1) (.opened homeId)
      reverseSeq := h.reverseSeq + (h.targets t.order method s).length
      reverse := Table.insertAll (Hub.copies h.reverseSeq (h.targets t.order method s))
        (h.nextReq + 1) h.reverse } := by
  obtain ⟨roster, hroster⟩ := hw.roster
  -- The copies of this line are the new entries.
  have hnew : ∀ r' p v, Copies ⟨⟨h, false⟩, t, out⟩ r' p v →
      r' = r ∧ p ∈ h.phones ∧ (p, v) ∈ Hub.copies h.reverseSeq (h.targets t.order method s) := by
    intro r' p v hc
    obtain ⟨g', hsaid⟩ := hc.said
    obtain ⟨-, rfl⟩ := ht.inj hsaid
    have hsent : .toPhone p (r.withId v) ∈ out := hc.sent
    rw [hout, List.mem_flatMap] at hsent
    obtain ⟨c, hmem, hsend⟩ := hsent
    obtain ⟨rfl, hobj, hp⟩ := Hub.mem_sendPhone.mp hsend
    have hv : v = c.2 := by simpa using congrArg Obj.id hobj
    subst hv
    exact ⟨rfl, hp, hmem⟩
  have hcopies : ∀ p v, (p, v) ∈ Hub.copies h.reverseSeq (h.targets t.order method s) →
      Copies ⟨⟨h, false⟩, t, out⟩ r p v := by
    intro p v hmem
    obtain ⟨crew, hcrew, hp⟩ := hroster.mem_of_targets (Hub.mem_of_mem_copies hmem)
    have hready := hroster.ready _ crew p hcrew hp
    refine ⟨⟨g, ht⟩, Obj.isRequest_of hmethod hid, ?_⟩
    change .toPhone p (r.withId v) ∈ out
    rw [hout, List.mem_flatMap]
    exact ⟨(p, v), hmem,
      Hub.mem_sendPhone.mpr ⟨rfl, rfl, Table.mem_iff_exists.mpr ⟨_, hready⟩⟩⟩
  -- The copies of earlier lines are not.
  have hold : ∀ e ∈ hist, ∀ r' p v, Copies e r' p v →
      (p, v) ∉ Hub.copies h.reverseSeq (h.targets t.order method s) := by
    intro e he r' p v hc hmem
    obtain ⟨-, -, n, hn, hv⟩ := ha.bounded e he r' p v hc
    obtain ⟨k, hk, -, hv'⟩ := Hub.id_of_mem_copies hmem
    have hnk := reverseId_inj.mp (hv.symm.trans hv')
    lia
  have hsilent : ∀ p obj v, ¬ Replies ⟨⟨h, false⟩, t, out⟩ p obj v := fun p obj v hrep =>
    hrep.said.not_home ht
  refine ⟨?bounded, ?known, ?unclaimed, ?claimed, ?entry, ?spent⟩
  case bounded =>
    intro e he r' p v hc
    rcases List.mem_append.mp he with he | he
    · obtain ⟨hkey, hp, n, hn, hv⟩ := ha.bounded e he r' p v hc
      exact ⟨Nat.le_succ_of_le hkey, hp, n, Nat.le_add_right_of_le hn, hv⟩
    · rw [List.mem_singleton] at he
      subst he
      obtain ⟨-, hp, hmem⟩ := hnew r' p v hc
      obtain ⟨k, -, hk, hv⟩ := Hub.id_of_mem_copies hmem
      exact ⟨le_rfl, hw.below p hp, k, hk, hv⟩
  case known =>
    intro p v key hkey
    simp only [Table.lookup_insertAll] at hkey
    split at hkey
    · rename_i hmem
      obtain rfl := Option.some.inj hkey
      refine ⟨⟨_, List.mem_append_right _ (List.mem_singleton_self _), r, hcopies p v hmem, rfl⟩,
        fun e he r' p' v' hc hk => ?_⟩
      rcases List.mem_append.mp he with he | he
      · have hle := (ha.bounded e he r' p' v' hc).1
        rw [hk] at hle
        exact absurd hle (Nat.not_succ_le_self _)
      · rw [List.mem_singleton] at he
        subst he
        obtain ⟨rfl, -⟩ := hnew r' p' v' hc
        exact hcopies p v hmem
    · obtain ⟨⟨e, he, r', hc, hk⟩, honly⟩ := ha.known p v key hkey
      refine ⟨⟨e, List.mem_append_left _ he, r', hc, hk⟩, fun e' he' r'' p' v' hc' hk' => ?_⟩
      rcases List.mem_append.mp he' with he' | he'
      · exact honly e' he' r'' p' v' hc' hk'
      · rw [List.mem_singleton] at he'
        subst he'
        have hle := (ha.bounded e he r' p v hc).1
        rw [hk, ← hk'] at hle
        exact absurd hle (Nat.not_succ_le_self _)
  case unclaimed =>
    intro pre e mid hsplit r' p v hc hno
    obtain ⟨mid', rfl, rfl⟩ | ⟨rfl, rfl, rfl⟩ := split_snoc hsplit
    · have hle := (ha.bounded e (by simp) r' p v hc).1
      obtain ⟨i, hi, hopen⟩ := ha.unclaimed pre e mid' rfl r' p v hc
        fun e' he' => hno e' (List.mem_append_left _ he')
      exact ⟨i, hi, by rw [Table.lookup_insert_eq, if_neg (by lia), hopen]⟩
    · obtain ⟨rfl, -⟩ := hnew r' p v hc
      exact ⟨homeId, hid, AList.lookup_insert _⟩
  case claimed =>
    intro pre e mid hsplit r' p v hc ⟨e', he', hans⟩
    obtain ⟨mid', rfl, rfl⟩ | ⟨rfl, rfl, rfl⟩ := split_snoc hsplit
    · have hle := (ha.bounded e (by simp) r' p v hc).1
      rw [Table.lookup_insert_eq, if_neg (by lia)]
      rcases List.mem_append.mp he' with he' | he'
      · exact ha.claimed pre e mid' rfl r' p v hc ⟨e', he', hans⟩
      · rw [List.mem_singleton] at he'
        obtain ⟨r'', p', obj, v', -, hrep⟩ := hans
        exact absurd (he' ▸ hrep) (hsilent p' obj v')
    · exact absurd he' List.not_mem_nil
  case entry =>
    intro pre e mid hsplit r' p v hc hp hno
    obtain ⟨mid', rfl, rfl⟩ | ⟨rfl, rfl, rfl⟩ := split_snoc hsplit
    · rw [Table.lookup_insertAll, if_neg (hold e (by simp) r' p v hc)]
      exact ha.entry pre e mid' rfl r' p v hc hp
        fun e' he' => hno e' (List.mem_append_left _ he')
    · rw [Table.lookup_insertAll, if_pos (hnew r' p v hc).2.2]
      rfl
  case spent =>
    intro pre e mid hsplit r' p v hc ⟨e', he', obj, hrep⟩
    obtain ⟨mid', rfl, rfl⟩ | ⟨rfl, rfl, rfl⟩ := split_snoc hsplit
    · rw [Table.lookup_insertAll, if_neg (hold e (by simp) r' p v hc)]
      rcases List.mem_append.mp he' with he' | he'
      · exact ha.spent pre e mid' rfl r' p v hc ⟨e', he', obj, hrep⟩
      · rw [List.mem_singleton] at he'
        exact absurd (he' ▸ hrep) (hsilent p obj v)
    · exact absurd he' List.not_mem_nil

/-- A reply: the copy is spent, and its request is claimed. -/
theorem replied (ha : Asked hist h) {p : PhoneId} {obj : Obj} {v : JsonId}
    (hrep : Replies ⟨⟨h, false⟩, t, out⟩ p obj v) (hspec : Hub.ReplySpec h h' out p v obj) :
    Asked (hist ++ [⟨⟨h, false⟩, t, out⟩]) h' := by
  have hquiet : ∀ r q w, ¬ Copies ⟨⟨h, false⟩, t, out⟩ r q w := fun r q w hc => by
    obtain ⟨g, hsaid⟩ := hc.said
    exact hrep.said.not_home hsaid
  have htaken : ∀ k, h.claims.lookup k = some .taken → h'.claims.lookup k = some .taken := by
    intro k hk
    rw [hspec.claims, hk]
    split <;> rfl
  refine ⟨?bounded, ?known, ?unclaimed, ?claimed, ?entry, ?spent⟩
  case bounded =>
    intro e he r q w hc
    rw [hspec.nextReq, hspec.nextPhone, hspec.reverseSeq]
    rcases List.mem_append.mp he with he | he
    · exact ha.bounded e he r q w hc
    · rw [List.mem_singleton] at he
      exact absurd (he ▸ hc) (hquiet r q w)
  case known =>
    intro q w key hkey
    rw [hspec.reverse] at hkey
    split at hkey
    · cases hkey
    · obtain ⟨⟨e, he, r, hc, hk⟩, honly⟩ := ha.known q w key hkey
      refine ⟨⟨e, List.mem_append_left _ he, r, hc, hk⟩, fun e' he' r' p' v' hc' hk' => ?_⟩
      rcases List.mem_append.mp he' with he' | he'
      · exact honly e' he' r' p' v' hc' hk'
      · rw [List.mem_singleton] at he'
        exact absurd (he' ▸ hc') (hquiet r' p' v')
  case unclaimed =>
    intro pre e mid hsplit r q w hc hno
    obtain ⟨mid', rfl, rfl⟩ | ⟨rfl, rfl, rfl⟩ := split_snoc hsplit
    · obtain ⟨i, hi, hopen⟩ := ha.unclaimed pre e mid' rfl r q w hc
        fun e' he' => hno e' (List.mem_append_left _ he')
      have hother : h.reverse.lookup (p, v) ≠ some (askKey e) := fun hkey => by
        have hcopy := (ha.known p v _ hkey).2 e (by simp) r q w hc rfl
        exact hno _ (List.mem_append_right _ (List.mem_singleton_self _))
          ⟨r, p, obj, v, hcopy, hrep⟩
      exact ⟨i, hi, by rw [hspec.claims, if_neg hother, hopen]⟩
    · exact absurd hc (hquiet r q w)
  case claimed =>
    intro pre e mid hsplit r q w hc ⟨e', he', hans⟩
    obtain ⟨mid', rfl, rfl⟩ | ⟨rfl, rfl, rfl⟩ := split_snoc hsplit
    · by_cases hbefore : ∃ e'' ∈ mid', Answers e e''
      · exact htaken _ (ha.claimed pre e mid' rfl r q w hc hbefore)
      -- This line is the first answer, so the copy it replies to has its entry.
      have hno : ∀ e'' ∈ mid', ¬ Answers e e'' := fun e'' he'' h'' => hbefore ⟨e'', he'', h''⟩
      rcases List.mem_append.mp he' with he' | he'
      · exact absurd hans (hno e' he')
      · rw [List.mem_singleton] at he'
        subst he'
        obtain ⟨r', p', obj', v', hcopy, hrep'⟩ := hans
        obtain ⟨rfl, rfl, rfl⟩ := hrep.inj hrep'
        obtain ⟨i, -, hopen⟩ := ha.unclaimed pre e mid' rfl r q w hc hno
        have hkey := ha.entry pre e mid' rfl r' p v hcopy hrep.connected
          fun e'' he'' obj'' hrep'' => hno e'' he'' ⟨r', p, obj'', v, hcopy, hrep''⟩
        rw [hspec.claims, if_pos hkey, hopen]
        rfl
    · exact absurd he' List.not_mem_nil
  case entry =>
    intro pre e mid hsplit r q w hc hq hno
    obtain ⟨mid', rfl, rfl⟩ | ⟨rfl, rfl, rfl⟩ := split_snoc hsplit
    · have hne : (q, w) ≠ (p, v) := fun heq => by
        obtain ⟨rfl, rfl⟩ := Prod.mk.inj heq
        exact hno _ (List.mem_append_right _ (List.mem_singleton_self _)) obj hrep
      rw [hspec.reverse, if_neg hne]
      exact ha.entry pre e mid' rfl r q w hc (hspec.phones ▸ hq)
        fun e' he' => hno e' (List.mem_append_left _ he')
    · exact absurd hc (hquiet r q w)
  case spent =>
    intro pre e mid hsplit r q w hc ⟨e', he', obj', hrep'⟩
    obtain ⟨mid', rfl, rfl⟩ | ⟨rfl, rfl, rfl⟩ := split_snoc hsplit
    · rw [hspec.reverse]
      split
      · rfl
      · rename_i hne
        rcases List.mem_append.mp he' with he' | he'
        · exact ha.spent pre e mid' rfl r q w hc ⟨e', he', obj', hrep'⟩
        · rw [List.mem_singleton] at he'
          subst he'
          obtain ⟨rfl, -, rfl⟩ := hrep.inj hrep'
          exact absurd rfl hne
    · exact absurd he' List.not_mem_nil

end Asked

/-- **The two tables mean what `Asked` says, after every run.** -/
theorem Run.asked {hist : List Line} {h : Hub} (hr : Run hist h) : Asked hist h := by
  induction hr with
  | start =>
    refine ⟨fun _ he => absurd he List.not_mem_nil, fun _ _ _ hkey => (by cases hkey),
      ?_, ?_, ?_, ?_⟩ <;> exact fun pre e mid hsplit => (by simp at hsplit)
  | @turn hist h h' t out hr hturn ih =>
    cases reverseStep hturn with
    | kept hreverse hclaims hphones hreq hseq hphone hquiet hsilent =>
      refine ih.quiet hquiet hsilent hclaims hreq hseq.ge hphone (fun p hp => (hphones p hp).mp)
        (fun p v key hkey => ?_) (fun p v _ => ?_)
      · rwa [hreverse] at hkey
      · rw [hreverse]
    | asked hm ht hmethod hid hsession heq hout =>
      rw [heq]
      exact ih.asking hr.wellKept ht hmethod hid hout
    | replied hrep hspec => exact ih.replied hrep hspec
    | @left p ht heq hout =>
      have hreverse : ∀ q v, h'.reverse.lookup (q, v)
          = (h.reverse.lookup (q, v)).bind fun key => if q ≠ p then some key else none := by
        intro q v
        rw [heq, Hub.onPhoneEof, Table.lookup_retain]
      refine ih.quiet (fun r q v hc => ?_) (fun q obj v hrep => ?_) (by rw [heq]; rfl)
        (by rw [heq]; exact le_rfl) (by rw [heq]; exact le_rfl) (by rw [heq]; exact le_rfl)
        (fun q _ hq => ?_) (fun q v key hkey => ?_) (fun q v hq => ?_)
      · rw [hout] at hc
        exact absurd hc.sent List.not_mem_nil
      · have hspoke := hrep.said.symm.trans ht
        cases hspoke
      · rw [heq, Hub.onPhoneEof, AList.mem_erase] at hq
        exact hq.2
      · rw [hreverse] at hkey
        obtain ⟨key', hkey', hif⟩ := Option.bind_eq_some_iff.mp hkey
        split at hif
        · rwa [← Option.some.inj hif]
        · cases hif
      · rw [heq, Hub.onPhoneEof, AList.mem_erase] at hq
        rw [hreverse]
        cases h.reverse.lookup (q, v) with
        | none => rfl
        | some key => exact if_pos hq.1

/-! ## 5. Fan-out -/

namespace Hub

variable {h : Hub} {r : Obj} {method : String} {s : SessionId}

theorem mem_targets (order : IterOrder) (hsession : sessionIdIn r = some s) {p : PhoneId} :
    p ∈ h.targets order method s ↔ p ∈ h.addressed method r := by
  simp only [targets, addressed, hsession]
  split
  · cases h.watchers.lookup s with
    | none => simp
    | some set => simp [order.mem_iff]
  · simp

theorem nodup_targets (order : IterOrder) : (h.targets order method s).Nodup := by
  unfold targets
  split
  · split
    · exact order.nodup _ _
    · exact List.nodup_nil
  · cases h.driver.lookup s <;> simp

end Hub

theorem Run.copies_of_mem {hist : List Line} {h : Hub} (hr : Run hist h) {v : JsonId}
    (hv : v ∈ copyIds hist) : ∃ e ∈ hist, ∃ r p, Copies e r p v := by
  obtain ⟨e, he, eff, heff, hid⟩ := mem_collect.mp hv
  obtain ⟨⟨p, m⟩, htext, hif⟩ := Option.bind_eq_some_iff.mp hid
  obtain rfl := Effect.text_eq_some.mp htext
  split at hif
  · rename_i hreq
    obtain ⟨h', hs⟩ := hr.step_of_mem he
    obtain ⟨g, r, method, homeId, s, hm, ht, hmethod, hid', hsession, -, hout⟩ :=
      hs.asked_of_request heff hreq
    rw [hout, List.mem_flatMap] at heff
    obtain ⟨c, hcopy, hc⟩ := heff
    obtain ⟨rfl, rfl, hp⟩ := Hub.mem_sendPhone.mp hc
    obtain rfl : c.2 = v := by simpa using hif
    refine ⟨e, he, r, c.1, ⟨g, ht⟩, Obj.isRequest_of hmethod hid', ?_⟩
    rw [hout, List.mem_flatMap]
    exact ⟨c, hcopy, hc⟩
  · cases hif

/-- The phones a request is for each get one copy, under a new id. -/
theorem Run.fan_out {hist : List Line} {h : Hub} (hr : Run hist h) {t : Turn} {g : HomeGen}
    {r : Obj} {method : String} {homeId : JsonId} (hm : h.home.mux = some g)
    (ht : t.HomeSays g r) (hmethod : r.method = some method) (hid : r.id = some homeId) :
    ∃ cs : List (PhoneId × JsonId), (cs.map Prod.fst).Nodup ∧
      (∀ p, p ∈ cs.map Prod.fst ↔ p ∈ h.addressed method r) ∧ (cs.map Prod.snd).Nodup ∧
      (∀ c ∈ cs, c.2 ∉ copyIds hist) ∧
      (Loop.turn ⟨h, false⟩ t).2 = cs.map fun c => .toPhone c.1 (r.withId c.2) := by
  rw [turn_request hm ht (Obj.isRequest_of hmethod hid)]
  unfold Hub.onReverseRequest
  cases hsession : sessionIdIn r with
  | none =>
    refine ⟨[], .nil, fun p => ?_, .nil, fun _ hc => absurd hc List.not_mem_nil, ?_⟩
    · simp [Hub.addressed, hsession]
    · simp [hmethod, hid]
  | some s =>
    have hmem : ∀ p, p ∈ h.targets t.order method s ↔ p ∈ h.addressed method r := fun p =>
      Hub.mem_targets t.order hsession
    by_cases hnone : h.targets t.order method s = []
    · refine ⟨[], .nil, fun p => ?_, .nil, fun _ hc => absurd hc List.not_mem_nil, ?_⟩
      · rw [← hmem, hnone]
        rfl
      · simp [hmethod, hid, hnone]
    · refine ⟨Hub.copies h.reverseSeq (h.targets t.order method s), ?_, fun p => ?_, ?_,
        fun c hc hold => ?_, ?_⟩
      · rw [Hub.map_fst_copies]
        exact Hub.nodup_targets t.order
      · rw [Hub.map_fst_copies, hmem]
      · rw [Hub.map_snd_copies]
        exact List.Nodup.map (fun _ _ heq => reverseId_inj.mp heq) List.nodup_range'
      · obtain ⟨e, he, r', p, hcopy⟩ := hr.copies_of_mem hold
        obtain ⟨-, -, n, hn, hv⟩ := hr.asked.bounded e he r' p c.2 hcopy
        obtain ⟨k, hk, -, hv'⟩ := Hub.id_of_mem_copies hc
        have hnk := reverseId_inj.mp (hv.symm.trans hv')
        lia
      · simp only [hmethod, hid, if_neg hnone, Hub.allocReq, Hub.askPhones_eq]
        rw [List.map_eq_flatMap]
        refine List.flatMap_congr fun c hc => ?_
        obtain ⟨roster, hroster⟩ := hr.wellKept.roster
        obtain ⟨crew, hcrew, hp⟩ := hroster.mem_of_targets (Hub.mem_of_mem_copies hc)
        exact Hub.sendPhone_of_lookup (hroster.ready _ crew c.1 hcrew hp) _

/-! ## 6. The first answer wins -/

/-- What the hub promises of a request from home: who is asked, and whose answer goes back. -/
structure FirstAnswer (hist : List Line) : Prop where
  /-- A request from the serving link goes to each phone it is for, once and unchanged but for
  the id, which no phone has been sent before. -/
  fan_out : ∀ pre e post, hist = pre ++ e :: post → e.before.stopped = false →
    ∀ g r method homeId, (hubOf e).home.mux = some g → e.input.HomeSays g r →
      r.method = some method → r.id = some homeId →
      ∃ cs : List (PhoneId × JsonId), (cs.map Prod.fst).Nodup ∧
        (∀ p, p ∈ cs.map Prod.fst ↔ p ∈ (hubOf e).addressed method r) ∧
        (cs.map Prod.snd).Nodup ∧ (∀ c ∈ cs, c.2 ∉ copyIds pre) ∧
        e.out = cs.map fun c => .toPhone c.1 (r.withId c.2)
  /-- The first reply to a copy, by the phone that was sent the copy, goes home under the
  request's id, if there is a link to send it on. -/
  first : ∀ pre e mid e' post, hist = pre ++ e :: (mid ++ e' :: post) →
    ∀ r p obj v, Copies e r p v → Replies e' p obj v → (∀ e'' ∈ mid, ¬ Answers e e'') →
      ∃ homeId, r.id = some homeId ∧
        e'.out = ((hubOf e').home.mux.map fun g => .toHome g (.acp (obj.withId homeId))).toList
  /-- A later reply to any copy of the request sends nothing. -/
  later : ∀ pre e mid e' post, hist = pre ++ e :: (mid ++ e' :: post) →
    ∀ r p obj v, Copies e r p v → Replies e' p obj v → (∃ e'' ∈ mid, Answers e e'') →
      e'.out = []
  /-- A reply to something that was not sent to the phone that replies sends nothing. -/
  stranger : ∀ pre e' post, hist = pre ++ e' :: post → ∀ p obj v, Replies e' p obj v →
    (∀ e ∈ pre, ∀ r, ¬ Copies e r p v) → e'.out = []
  /-- Nothing but a reply sends a response home. -/
  only : ∀ pre e' post, hist = pre ++ e' :: post →
    ∀ g m, .toHome g (.acp m) ∈ e'.out → m.method = none → ∃ p obj v, Replies e' p obj v

theorem reply_line {ts : List Turn} {pre post : List Line} {e : Line}
    (hsplit : Hub.run.history ts = pre ++ e :: post) {p : PhoneId} {obj : Obj} {v : JsonId}
    (hrep : Replies e p obj v) :
    Run pre (hubOf e) ∧ e.out = ((hubOf e).onPhoneReply p v obj).2 := by
  obtain ⟨hstop, -⟩ | ⟨-, hstops, -⟩ | ⟨hr, hbefore, h', hturn, -⟩ := line_cases hsplit
  · rw [hrep.running] at hstop
    cases hstop
  · rcases hstops with heq | heq <;> cases hrep.said.symm.trans heq
  · obtain ⟨⟨h, stopped⟩, t, out⟩ := e
    cases hbefore
    exact ⟨hr, congrArg Prod.snd (hturn.symm.trans (turn_reply hrep))⟩

/-- A response on the way home is a phone's reply, sent on the serving link under the id of an
open claim. -/
theorem reply_of_response {ts : List Turn} {pre post : List Line} {e' : Line}
    (hsplit : Hub.run.history ts = pre ++ e' :: post) {g : HomeGen} {m : Obj}
    (hmem : .toHome g (.acp m) ∈ e'.out) (hmethod : m.method = none) :
    Run pre (hubOf e') ∧ (hubOf e').home.mux = some g ∧ ∃ p obj v key homeId,
      Replies e' p obj v ∧ (hubOf e').reverse.lookup (p, v) = some key ∧
        (hubOf e').claims.lookup key = some (.opened homeId) ∧ m = obj.withId homeId := by
  obtain ⟨hr, hbefore, h', -, hs⟩ := step_of_line hsplit hmem fun _ heq => by cases heq
  have hrunning : e'.before.stopped = false := by rw [hbefore]
  cases hs.homeBound with
  | nothing hout => exact absurd hmem (hout g _)
  | initializing hc why hnext hout =>
    rw [hout, List.mem_singleton] at hmem
    cases hmem
    simp at hmethod
  | loading hc hset he hnext hout =>
    rw [hout, List.mem_map] at hmem
    obtain ⟨_, -, heq⟩ := hmem
    cases heq
    simp at hmethod
  | forwarding ht hp hreq hm hnext hout =>
    rw [hout, List.mem_singleton] at hmem
    cases hmem
    rw [Obj.method_withId] at hmethod
    simp [Obj.isRequest, hmethod] at hreq
  | notification ht hp hmethod' hid hm hout =>
    rw [hout, List.mem_singleton] at hmem
    cases hmem
    simp [hmethod] at hmethod'
  | reply ht hp hmethod' hreply hid hkey hopen hm hout =>
    rw [hout, List.mem_singleton] at hmem
    cases hmem
    exact ⟨hr, hm, _, _, _, _, _, ⟨hrunning, ht, AList.lookup_isSome.mp hp, hmethod', hreply, hid⟩,
      hkey, hopen, rfl⟩

/-- **The first answer wins**, in every run: a request from the serving link goes to exactly
the phones it is for, each under a new id; the first of them to reply answers it, and no other
reply does.  What a reply finds in the two tables is what `Asked` says of the history before it. -/
theorem first_answer_wins (ts : List Turn) : FirstAnswer (Hub.run.history ts) := by
  refine ⟨?fan_out, ?first, ?later, ?stranger, ?only⟩
  case fan_out =>
    intro pre e post hsplit hrunning g r method homeId hm ht hmethod hid
    obtain ⟨hstop, -⟩ | ⟨-, hstops, -⟩ | ⟨hr, -, h', hturn, -⟩ := line_cases hsplit
    · rw [hrunning] at hstop
      cases hstop
    · rcases hstops with heq | heq <;> cases ht.symm.trans heq
    · have hfan := hr.fan_out hm ht hmethod hid
      rwa [hturn] at hfan
  case first =>
    intro pre e mid e' post hsplit r p obj v hc hrep hno
    have hassoc : Hub.run.history ts = (pre ++ e :: mid) ++ e' :: post := by rw [hsplit]; simp
    obtain ⟨hr, hout⟩ := reply_line hassoc hrep
    obtain ⟨homeId, hid, hopen⟩ := hr.asked.unclaimed pre e mid rfl r p v hc hno
    have hkey := hr.asked.entry pre e mid rfl r p v hc hrep.connected
      fun e'' he'' obj'' hrep'' => hno e'' he'' ⟨r, p, obj'', v, hc, hrep''⟩
    refine ⟨homeId, hid, ?_⟩
    rw [hout, (Hub.onPhoneReply_spec _ p v obj).out, hkey, Option.bind_some, hopen]
  case later =>
    intro pre e mid e' post hsplit r p obj v hc hrep hans
    have hassoc : Hub.run.history ts = (pre ++ e :: mid) ++ e' :: post := by rw [hsplit]; simp
    obtain ⟨hr, hout⟩ := reply_line hassoc hrep
    have htaken := hr.asked.claimed pre e mid rfl r p v hc hans
    rw [hout, (Hub.onPhoneReply_spec _ p v obj).out]
    by_cases hbefore : ∃ e'' ∈ mid, ∃ obj'', Replies e'' p obj'' v
    · rw [hr.asked.spent pre e mid rfl r p v hc hbefore]
      rfl
    · have hkey := hr.asked.entry pre e mid rfl r p v hc hrep.connected
        fun e'' he'' obj'' hrep'' => hbefore ⟨e'', he'', obj'', hrep''⟩
      rw [hkey, Option.bind_some, htaken]
  case stranger =>
    intro pre e' post hsplit p obj v hrep hno
    obtain ⟨hr, hout⟩ := reply_line hsplit hrep
    rw [hout, (Hub.onPhoneReply_spec _ p v obj).out]
    cases hkey : (hubOf e').reverse.lookup (p, v) with
    | none => rfl
    | some key =>
      obtain ⟨⟨e, he, r, hc, -⟩, -⟩ := hr.asked.known p v key hkey
      exact absurd hc (hno e he r)
  case only =>
    intro pre e' post hsplit g m hmem hmethod
    obtain ⟨-, -, p, obj, v, -, -, hrep, -⟩ := reply_of_response hsplit hmem hmethod
    exact ⟨p, obj, v, hrep⟩

end Aqualung
