/-
# The accounts of the phones

A request of a phone is answered at once, or it is forwarded and waits in `outstanding`; from
there it goes when the serving link answers it, and the phone gets the answer, or when another
link answers it, and the phone gets nothing.  So for every phone and every id the books balance
(`accounts_balance`): what was asked is what has been answered, what waits, and what has been
swallowed in this way.  A phone gets no answer that it has not asked for.

A phone may use one id for several requests, so the books count; nothing in the hub keeps such
requests apart but the number of entries.  `Booked` is what one turn can enter in the books of one
phone under one id: at most one demand, one answer, one entry made or taken, one answer swallowed,
and only in combinations that balance (`Booked.balance`).

That every turn is so booked is proved along the handlers where a phone speaks
(`Hub.onPhoneText_booked`), since a `HubStep` that answers a phone does not say which text it
answers, and by cases on `HubStep` for the rest (`HubStep.booked`).

When the phone has gone its entries stay, and answers to them go nowhere; then the books are only
bounded.
-/
import Aqualung.Hub.Fanout

namespace Aqualung

open Lib

/-! ## 1. The books -/

/-- The id under which a text has to be answered: that of a request, and `null` for a text that
is not a JSON object. -/
def RpcText.demands (text : RpcText) : Option JsonId :=
  match parseRpcText text with
  | .ok obj => if obj.isRequest then obj.id else none
  | .error _ => some .null

/-- The object is an answer under the id `i`. -/
def Obj.answers (i : JsonId) (m : Obj) : Bool := m.method.isNone && m.id = some i

/-- The turn brings a text of the phone `p` that has to be answered under the id `i`. -/
def Turn.demands (t : Turn) (h : Hub) (p : PhoneId) (i : JsonId) : Bool :=
  match t.input with
  | .recv (.phoneText q text) => q = p && (h.phones.lookup p).isSome && text.demands = some i
  | _ => false

/-- The turn brings an answer to a request of the phone `p`, with the id `i`, from a link that is
not serving. -/
def Turn.swallows (t : Turn) (h : Hub) (p : PhoneId) (i : JsonId) : Bool :=
  match t.input with
  | .recv (.homeFrame g (.acp text)) =>
    match parseRpcText text with
    | .ok obj =>
      obj.isAnswer && h.role g = .candidate &&
        (obj.id.bind Json.asU64).bind h.outstanding.lookup = some (.forwarded p i)
    | .error _ => false
  | _ => false

/-- How often the phone has asked for an answer under the id. -/
def asked (p : PhoneId) (i : JsonId) (hist : List Line) : Nat :=
  hist.countP fun e => e.input.demands (hubOf e) p i

/-- How often the phone has been sent an answer under the id. -/
def answered (p : PhoneId) (i : JsonId) (hist : List Line) : Nat :=
  (received p hist).countP (Obj.answers i)

/-- How often an answer for the phone under the id has been swallowed. -/
def swallowed (p : PhoneId) (i : JsonId) (hist : List Line) : Nat :=
  hist.countP fun e => e.input.swallows (hubOf e) p i

/-- The requests of the phone under the id that wait for an answer. -/
def Hub.waiting (h : Hub) (p : PhoneId) (i : JsonId) : Finset HomeReqId :=
  h.outstanding.keys.toFinset.filter fun n => h.outstanding.lookup n = some (.forwarded p i)

theorem Hub.mem_waiting {h : Hub} {p : PhoneId} {i : JsonId} {n : HomeReqId} :
    n ∈ h.waiting p i ↔ h.outstanding.lookup n = some (.forwarded p i) := by
  rw [waiting, Finset.mem_filter, List.mem_toFinset, and_iff_right_iff_imp]
  exact fun hn => AList.mem_keys.mpr (Table.mem_iff_exists.mpr ⟨_, hn⟩)

theorem Hub.waiting_congr {h h' : Hub} {p : PhoneId} {i : JsonId}
    (heq : ∀ n, h'.outstanding.lookup n = some (.forwarded p i) ↔
      h.outstanding.lookup n = some (.forwarded p i)) : h'.waiting p i = h.waiting p i := by
  ext n
  rw [mem_waiting, mem_waiting, heq]

/-! ## 2. What a turn enters -/

def answersIn (out : List Effect) (p : PhoneId) (i : JsonId) : Nat :=
  (out.filterMap (Effect.textFor p)).countP (Obj.answers i)

theorem answersIn_eq_zero {out : List Effect} {p : PhoneId} {i : JsonId}
    (hout : ∀ m, .toPhone p m ∈ out → ¬ m.answers i) : answersIn out p i = 0 := by
  rw [answersIn, List.countP_eq_zero]
  intro m hm
  obtain ⟨eff, heff, htext⟩ := List.mem_filterMap.mp hm
  rw [Effect.textFor_eq_some] at htext
  exact hout m (htext ▸ heff)

theorem Obj.not_answers {m : Obj} {i : JsonId} (hm : m.method.isSome) : ¬ m.answers i := by
  obtain ⟨method, hmethod⟩ := Option.isSome_iff_exists.mp hm
  simp [answers, hmethod]

theorem answersIn_single (p q : PhoneId) (m : Obj) (i : JsonId) :
    answersIn [.toPhone q m] p i = if q = p ∧ m.answers i then 1 else 0 := by
  by_cases hq : q = p
  · by_cases hm : m.answers i <;> simp [answersIn, Effect.textFor, Effect.text, hq, hm]
  · simp [answersIn, Effect.textFor, Effect.text, hq]

/-- What a turn enters into the books of the phone `p` under the id `i`. -/
inductive Booked (t : Turn) (h h' : Hub) (out : List Effect) (p : PhoneId) (i : JsonId) : Prop
  | nothing (hasked : t.demands h p i = false) (hkept : t.swallows h p i = false)
      (hwaiting : h'.waiting p i = h.waiting p i) (hout : answersIn out p i = 0)
  /-- The hub answers by itself. -/
  | answered (hasked : t.demands h p i) (hkept : t.swallows h p i = false)
      (hwaiting : h'.waiting p i = h.waiting p i) (hout : answersIn out p i = 1)
  | forwarded {n : HomeReqId} (hasked : t.demands h p i) (hkept : t.swallows h p i = false)
      (hn : n ∉ h.waiting p i) (hwaiting : h'.waiting p i = insert n (h.waiting p i))
      (hout : answersIn out p i = 0)
  /-- The answer of the serving link; it goes nowhere if the phone has gone. -/
  | relayed {n : HomeReqId} (hasked : t.demands h p i = false) (hkept : t.swallows h p i = false)
      (hn : n ∈ h.waiting p i) (hwaiting : h'.waiting p i = (h.waiting p i).erase n)
      (hout : answersIn out p i = if p ∈ h.phones then 1 else 0)
  | swallowed {n : HomeReqId} (hasked : t.demands h p i = false) (hlost : t.swallows h p i)
      (hn : n ∈ h.waiting p i) (hwaiting : h'.waiting p i = (h.waiting p i).erase n)
      (hout : answersIn out p i = 0)

theorem Obj.answers_iff {m : Obj} {i : JsonId} :
    m.answers i ↔ m.method = none ∧ m.id = some i := by
  simp [answers]

section

variable {t : Turn} {h h' : Hub} {out : List Effect} {p : PhoneId} {i : JsonId}

/-- A turn swallows an answer when it brings it from the candidate. -/
theorem Turn.swallows_iff : t.swallows h p i ↔ ∃ g n obj, h.role g = .candidate ∧
    Settles t h g n obj (.forwarded p i) := by
  constructor
  · intro hlost
    unfold Turn.swallows at hlost
    split at hlost
    · rename_i g text hin
      split at hlost
      · rename_i obj hobj
        simp only [Bool.and_eq_true, decide_eq_true_eq, Option.bind_eq_some_iff] at hlost
        obtain ⟨⟨hans, hrole⟩, n, ⟨v, hid, hv⟩, hwait⟩ := hlost
        obtain rfl := parseRpcText_eq_ok.mp hobj
        obtain ⟨-, c, hc, hg⟩ := Hub.role_eq_candidate.mp hrole
        refine ⟨g, n, obj, hrole, hin, hans, ?_, .inr (by simp [hc, hg]), hwait⟩
        rw [hid, Json.asU64_eq_some.mp hv]
      · cases hlost
    · cases hlost
  · rintro ⟨g, n, obj, hrole, hset⟩
    have hin : t.input = .recv (.homeFrame g (.acp (.ofObj obj))) := hset.said
    have hwait : (obj.id.bind Json.asU64).bind h.outstanding.lookup = some (.forwarded p i) := by
      rw [hset.id_eq]
      exact hset.waits
    simp [Turn.swallows, hin, hset.answer, hrole, hwait]

/-! ### Texts of phones -/

section

variable {q : PhoneId} {text : RpcText}

theorem Turn.swallows_of_phone (ht : t.input = .recv (.phoneText q text)) :
    t.swallows h p i = false := by
  simp [swallows, ht]

theorem Turn.demands_iff (ht : t.input = .recv (.phoneText q text)) :
    t.demands h p i ↔ q = p ∧ (h.phones.lookup q).isSome ∧ text.demands = some i := by
  by_cases hq : q = p
  · subst hq
    simp [demands, ht]
  · simp [demands, ht, hq]

theorem Booked.of_idle (ht : t.input = .recv (.phoneText q text))
    (hidle : text.demands = none ∨ h.phones.lookup q = none)
    (hsame : h'.outstanding = h.outstanding) (hout : ∀ m, .toPhone p m ∉ out) :
    Booked t h h' out p i := by
  refine .nothing ?_ (Turn.swallows_of_phone ht) (Hub.waiting_congr fun n => by rw [hsame])
    (answersIn_eq_zero fun m hm => absurd hm (hout m))
  rw [← Bool.not_eq_true, Turn.demands_iff ht]
  rintro ⟨-, hq, hid⟩
  obtain hnone | hnone := hidle
  · rw [hnone] at hid
    cases hid
  · rw [hnone] at hq
    cases hq

theorem Booked.of_now (ht : t.input = .recv (.phoneText q text)) {phone : Phone} {id : JsonId}
    {m : Obj} {rest : List Effect} (hq : h.phones.lookup q = some phone)
    (hid : text.demands = some id) (hsame : h'.outstanding = h.outstanding)
    (hm : ∀ j, m.answers j ↔ id = j) (hrest : ∀ m', .toPhone p m' ∈ rest → m'.method.isSome) :
    Booked t h h' (.toPhone q m :: rest) p i := by
  have hwaiting : h'.waiting p i = h.waiting p i := Hub.waiting_congr fun n => by rw [hsame]
  have hzero := answersIn_eq_zero (i := i) fun m' hm' => Obj.not_answers (hrest m' hm')
  have hsum : answersIn (.toPhone q m :: rest) p i = answersIn [.toPhone q m] p i := by
    rw [answersIn, ← List.singleton_append, List.filterMap_append, List.countP_append]
    exact Nat.add_eq_left.mpr hzero
  simp only [answersIn_single, hm] at hsum
  have hdemands : t.demands h p i ↔ q = p ∧ id = i := by
    rw [Turn.demands_iff ht, hq, hid]
    simp
  by_cases hmine : q = p ∧ id = i
  · rw [if_pos hmine] at hsum
    exact .answered (hdemands.mpr hmine) (Turn.swallows_of_phone ht) hwaiting hsum
  · rw [if_neg hmine] at hsum
    rw [← hdemands, Bool.not_eq_true] at hmine
    exact .nothing hmine (Turn.swallows_of_phone ht) hwaiting hsum

theorem Booked.of_forwarded (ht : t.input = .recv (.phoneText q text)) {phone : Phone}
    {id : JsonId} {n : HomeReqId} (hq : h.phones.lookup q = some phone)
    (hid : text.demands = some id) (hnew : h.outstanding.lookup n = none)
    (hentry : h'.outstanding = h.outstanding.insert n (.forwarded q id))
    (hout : ∀ m, .toPhone p m ∉ out) : Booked t h h' out p i := by
  have hzero := answersIn_eq_zero (i := i) fun m hm => absurd hm (hout m)
  have hdemands : t.demands h p i ↔ q = p ∧ id = i := by
    rw [Turn.demands_iff ht, hq, hid]
    simp
  by_cases hmine : q = p ∧ id = i
  · refine .forwarded (n := n) (hdemands.mpr hmine) (Turn.swallows_of_phone ht)
      (by simp [Hub.mem_waiting, hnew]) ?_ hzero
    obtain ⟨rfl, rfl⟩ := hmine
    ext n'
    simp only [Hub.mem_waiting, Finset.mem_insert, hentry, Table.lookup_insert_eq]
    by_cases hn : n' = n <;> simp [hn]
  · have hno := hmine
    rw [← hdemands, Bool.not_eq_true] at hno
    refine .nothing hno (Turn.swallows_of_phone ht) (Hub.waiting_congr fun n' => ?_) hzero
    rw [hentry, Table.lookup_insert_eq]
    by_cases hn : n' = n
    · rw [hn, hnew, if_pos rfl]
      simpa using hmine
    · rw [if_neg hn]

theorem Obj.answers_rpcError {id : JsonId} {code : Int} {message : String} {j : JsonId} :
    (rpcError id code message).answers j ↔ id = j := by
  rw [answers_iff]
  simp [rpcError, Obj.ofFields, Obj.id, Obj.method]

theorem Obj.answers_initializeResult {id j : JsonId} :
    (initializeResult id).answers j ↔ id = j := by
  rw [answers_iff]
  simp [initializeResult, Obj.ofFields, Obj.id, Obj.method]

theorem Hub.onPhoneRequest_booked {phone : Phone} {obj : Obj} {method : String} {id : JsonId}
    (ht : t.input = .recv (.phoneText q text)) (hq : h.phones.lookup q = some phone)
    (hid : text.demands = some id)
    (hfresh : ∀ n w, h.outstanding.lookup n = some w → n ≤ h.nextReq) :
    Booked t h (h.onPhoneRequest t.order q method id obj).1
      (h.onPhoneRequest t.order q method id obj).2 p i := by
  have hrefused : ∀ code message,
      Booked t h h (h.sendPhone q (rpcError id code message)) p i := fun code message => by
    rw [sendPhone_of_lookup hq]
    exact .of_now ht hq hid rfl (fun _ => Obj.answers_rpcError) (by simp)
  by_cases hf : h.Forwardable q method
  · rw [onPhoneRequest_of_forwardable id hf, prepare_eq]
    unfold forwardRequest
    rw [muxLink_eq]
    cases hm : h.home.mux with
    | none =>
      simp only [Option.map_none, sendPhone, hq]
      exact .of_now ht hq hid rfl (fun _ => Obj.answers_rpcError) (by simp)
    | some g =>
      simp only [Option.map_some, allocReq]
      have hnew : h.outstanding.lookup (h.nextReq + 1) = none := by
        cases hw : h.outstanding.lookup (h.nextReq + 1) with
        | none => rfl
        | some w => exact absurd (hfresh _ w hw) (Nat.not_succ_le_self _)
      exact .of_forwarded ht hq hid hnew rfl (by simp)
  · unfold onPhoneRequest
    split
    · simp only [answerInitialize, hq]
      refine .of_now ht hq hid rfl (fun _ => Obj.answers_initializeResult) fun m hm => ?_
      split at hm
      · obtain ⟨-, rfl⟩ := Effect.toPhone.inj (List.mem_singleton.mp hm)
        simp
      · cases hm
    rename_i hinit
    split
    · exact hrefused _ _
    rename_i hauth
    -- What is left and not forwardable is about a session, from a phone that is not ready.
    have hready : ¬ (isSessionMethod method → method ≠ "session/close" → h.phoneReady q) :=
      fun hready => hf ⟨hinit, hauth, hready⟩
    push Not at hready
    obtain ⟨hsession, hclose, hready⟩ := hready
    rw [if_pos hready]
    split
    · exact hrefused _ _
    · rw [if_pos ⟨hsession, hready⟩]
      exact hrefused _ _

theorem Hub.onPhoneReply_booked {obj : Obj} {id : JsonId}
    (ht : t.input = .recv (.phoneText q text)) (hnone : text.demands = none) :
    Booked t h (h.onPhoneReply q id obj).1 (h.onPhoneReply q id obj).2 p i := by
  unfold onPhoneReply
  cases hkey : h.reverse.lookup (q, id) with
  | none => exact .of_idle ht (.inl hnone) rfl (by simp)
  | some key =>
    cases hclaim : h.claims.lookup key with
    | none =>
      simp only [hclaim]
      exact .of_idle ht (.inl hnone) rfl (by simp)
    | some claim =>
      cases claim with
      | opened homeId =>
        simp only [hclaim, Claim.take, forwardNotification_eq]
        exact .of_idle ht (.inl hnone) rfl fun m hm => by simp at hm
      | taken =>
        simp only [hclaim, Claim.take]
        exact .of_idle ht (.inl hnone) rfl (by simp)

/-- **What the hub does with a text of a phone**: what has to be answered is answered at once, or
waits. -/
theorem Hub.onPhoneText_booked (ht : t.input = .recv (.phoneText q text))
    (hfresh : ∀ n w, h.outstanding.lookup n = some w → n ≤ h.nextReq) :
    Booked t h (h.onPhoneText t.order q text).1 (h.onPhoneText t.order q text).2 p i := by
  unfold onPhoneText
  cases hq : h.phones.lookup q with
  | none => exact .of_idle ht (.inr hq) rfl (by simp)
  | some phone =>
    cases hobj : parseRpcText text with
    | error =>
      simp only [sendPhone_of_lookup hq]
      exact .of_now ht hq (by simp [RpcText.demands, hobj]) rfl (fun _ => Obj.answers_rpcError)
        (by simp)
    | ok obj =>
      have hdemands : text.demands = if obj.isRequest then obj.id else none := by
        simp [RpcText.demands, hobj]
      simp only [onRpc]
      cases hmethod : obj.method with
      | none =>
        have hnone : text.demands = none := by simp [hdemands, Obj.isRequest, hmethod]
        simp only
        split
        · cases hid : obj.id with
          | none => exact .of_idle ht (.inl hnone) rfl (by simp)
          | some id => exact onPhoneReply_booked ht hnone
        · exact .of_idle ht (.inl hnone) rfl (by simp)
      | some method =>
        cases hid : obj.id with
        | none =>
          refine .of_idle ht (.inl (by simp [hdemands, Obj.isRequest, hid])) rfl fun m hm => ?_
          simp [forwardNotification_eq] at hm
        | some id =>
          exact onPhoneRequest_booked ht hq (by simp [hdemands, Obj.isRequest, hmethod, hid]) hfresh

end

/-! ### The other turns -/

/-- What the hub does with an answer that it swallows. -/
theorem swallow_booked (hlost : t.swallows h p i) :
    Booked t h (Loop.turn ⟨h, false⟩ t).1.hub (Loop.turn ⟨h, false⟩ t).2 p i := by
  obtain ⟨g, n, obj, hrole, hset⟩ := Turn.swallows_iff.mp hlost
  have hin : t.input = .recv (.homeFrame g (.acp (.ofObj obj))) := hset.said
  have hid : obj.id.bind Json.asU64 = some n := by
    rw [hset.id_eq]
    rfl
  have hrole' : Hub.role { h with outstanding := h.outstanding.erase n } g = .candidate := hrole
  have hresult : h.onHomeResult g obj = ({ h with outstanding := h.outstanding.erase n }, []) := by
    simp [Hub.onHomeResult, hid, hset.waits, hrole']
  rw [turn_answer hset.held hset.said hset.answer, hresult]
  refine .swallowed (n := n) (by simp [Turn.demands, hin]) hlost
    (Hub.mem_waiting.mpr hset.waits) ?_ rfl
  ext n'
  simp only [Hub.mem_waiting, Finset.mem_erase, Table.lookup_erase_eq]
  by_cases hn : n' = n <;> simp [hn]

/-- A step that is neither. -/
theorem HubStep.booked (hs : HubStep t h h' out)
    (hphone : ∀ q text, t.input ≠ .recv (.phoneText q text)) (hkept : t.swallows h p i = false)
    (hfresh : ∀ n w, h.outstanding.lookup n = some w → n ≤ h.nextReq) : Booked t h h' out p i := by
  have hasked : t.demands h p i = false := by
    unfold Turn.demands
    split
    · exact absurd ‹_› (hphone _ _)
    · rfl
  have hnothing : ∀ {h' : Hub} {out : List Effect},
      (∀ n, h'.outstanding.lookup n = some (.forwarded p i) ↔
        h.outstanding.lookup n = some (.forwarded p i)) →
      (∀ m, .toPhone p m ∈ out → m.method.isSome) → Booked t h h' out p i := fun hsame hout =>
    .nothing hasked hkept (Hub.waiting_congr hsame)
      (answersIn_eq_zero fun m hm => Obj.not_answers (hout m hm))
  -- An answer that is not for this request leaves its entry.
  have herase : ∀ {n w}, h.outstanding.lookup n = some w → w ≠ .forwarded p i →
      ∀ n', (h.outstanding.erase n).lookup n' = some (.forwarded p i) ↔
        h.outstanding.lookup n' = some (.forwarded p i) := by
    intro n w hw hne n'
    rw [Table.lookup_erase_eq]
    by_cases hn : n' = n
    · subst hn
      simp [hw, hne]
    · rw [if_neg hn]
  have hnote : ∀ {away m}, .toPhone p m ∈ h.broadcastAway away → m.method.isSome := by
    intro away m hm
    rw [(Hub.mem_broadcastAway.mp hm).2]
    simp
  cases hs with
  | ignored => exact hnothing (fun _ => .rfl) (by simp)
  | accepted ht => exact hnothing (fun _ => .rfl) (by simp)
  | candidateGone hc why => exact hnothing (fun _ => .rfl) (by simp)
  | candidateRefused hc ht hv => exact hnothing (fun _ => .rfl) (by simp)
  | candidateFailed hc hset he => exact hnothing (herase hset.waits (by simp)) (by simp)
  | refusalCleared hc ht => exact hnothing (fun _ => .rfl) (by simp)
  | registered hc ht => exact hnothing (fun _ => .rfl) (by simp)
  | initializing hc why =>
    refine hnothing (fun n => ?_) (by simp)
    rw [Table.lookup_insert_eq]
    by_cases hn : n = h.nextReq + 1
    · subst hn
      simp only [if_true, Option.some.injEq, reduceCtorEq, false_iff]
      exact fun hw => absurd (hfresh _ _ hw) (Nat.not_succ_le_self _)
    · rw [if_neg hn]
  | @answerDropped g n obj w hset hw =>
    refine hnothing (herase hset.waits ?_) (by simp)
    rintro rfl
    have hrole : h.role g = .candidate := by
      refine Hub.role_eq_candidate.mpr ⟨hw p i rfl, ?_⟩
      simpa using hset.held.resolve_left (hw p i rfl)
    rw [Turn.swallows_iff.mpr ⟨g, n, obj, hrole, hset⟩] at hkept
    cases hkept
  | @relayed g n obj q origin hset hm =>
    by_cases hmine : q = p ∧ origin = i
    · obtain ⟨rfl, rfl⟩ := hmine
      refine .relayed hasked hkept (Hub.mem_waiting.mpr hset.waits) ?_ ?_
      · ext n'
        simp only [Hub.mem_waiting, Finset.mem_erase, Table.lookup_erase_eq]
        by_cases hn : n' = n <;> simp [hn]
      · have hmethod : obj.method = none := by simpa using (Bool.and_eq_true_iff.mp hset.answer).1
        unfold Hub.sendPhone
        cases hq : h.phones.lookup q with
        | none => rw [if_neg (AList.lookup_eq_none.mp hq)]; rfl
        | some phone =>
          rw [if_pos (Table.mem_iff_exists.mpr ⟨_, hq⟩), answersIn_single,
            if_pos ⟨rfl, by simp [Obj.answers, hmethod]⟩]
    · refine .nothing hasked hkept
        (Hub.waiting_congr (herase hset.waits (by simpa using hmine)))
        (answersIn_eq_zero fun m hmem hans => ?_)
      obtain ⟨rfl, rfl, -⟩ := Hub.mem_sendPhone.mp hmem
      exact hmine ⟨rfl, by simpa using (Obj.answers_iff.mp hans).2⟩
  | @loading link n obj hc hset he hne =>
    refine hnothing (fun n' => ?_) (by simp)
    rw [Table.lookup_insertAll]
    by_cases hn : n' ∈ h.loads.map Prod.fst
    · obtain ⟨e, hmem, rfl⟩ := List.mem_map.mp hn
      simp only [if_pos hn, Option.some.injEq, reduceCtorEq, false_iff]
      exact fun hw => absurd (Hub.mem_loads_bounds hmem).1 (not_lt.mpr (hfresh _ _ hw))
    · rw [if_neg hn]
      exact herase hset.waits (by simp) n'
  | loadAnswered hc hset hp => exact hnothing (herase hset.waits (by simp)) (by simp)
  | promoted hc why =>
    refine hnothing ?_ fun m hmem => ?_
    · obtain ⟨-, hset, -, -⟩ | ⟨_, -, hset, -⟩ := why
      · exact herase hset.waits (by simp)
      · exact herase hset.waits (by simp)
    · cases hm : h.home.mux with
      | none => exact hnote (hm ▸ hmem)
      | some g => simp [hm, Hub.promotionOut] at hmem
  | muxLost hm ht =>
    refine hnothing (fun _ => .rfl) fun m hmem => ?_
    obtain heq | hmem := List.mem_cons.mp hmem
    · cases heq
    · exact hnote hmem
  | notified hm ht hmethod hid =>
    refine hnothing (fun _ => .rfl) fun m hmem => ?_
    rw [(Hub.mem_onHomeNotification hmem).1]
    exact hmethod
  | asked hm ht hmethod hid hsession hne =>
    refine hnothing (fun _ => .rfl) fun m hmem => ?_
    obtain ⟨c, -, hc⟩ := List.mem_flatMap.mp hmem
    rw [(Hub.mem_sendPhone.mp hc).2.1]
    simp [hmethod]
  | hello ht => exact hnothing (fun _ => .rfl) (by simp)
  | refused ht hp => exact absurd ht (hphone _ _)
  | initialized ht => exact absurd ht (hphone _ _)
  | requestAway ht => exact absurd ht (hphone _ _)
  | requestForwarded ht => exact absurd ht (hphone _ _)
  | notificationForwarded ht => exact absurd ht (hphone _ _)
  | replied ht => exact absurd ht (hphone _ _)
  | replyDropped ht => exact absurd ht (hphone _ _)
  | phoneLeft ht => exact hnothing (fun _ => .rfl) (by simp)

/-- **Every turn of the loop is booked.** -/
theorem turn_booked (ts : List Turn) (t : Turn) (p : PhoneId) (i : JsonId) :
    Booked t (Hub.run.final ts).hub (Hub.run.step (Hub.run.final ts) t).1.hub
      (Hub.run.step (Hub.run.final ts) t).2 p i := by
  obtain ⟨hstop, heq⟩ | ⟨-, hstops, heq⟩ | ⟨hr, h', out, heq, hs⟩ := turn_cases ts t
  · obtain ⟨hhome, hphones⟩ := hub_of_stopped hstop
    rw [heq]
    refine .nothing ?_ ?_ rfl rfl
    · unfold Turn.demands
      split
      · simp [hphones]
      · rfl
    · rw [← Bool.not_eq_true, Turn.swallows_iff]
      rintro ⟨g, n, obj, hrole, -⟩
      simp [Hub.role, hhome] at hrole
  · rw [heq, Hub.shutdown_eq]
    refine .nothing ?_ ?_ rfl (answersIn_eq_zero fun m hm => ?_)
    · obtain ht | ht := hstops <;> simp [Turn.demands, ht]
    · obtain ht | ht := hstops <;> simp [Turn.swallows, ht]
    · simp at hm
  · by_cases hphone : ∃ q text, t.input = .recv (.phoneText q text)
    · obtain ⟨q, text, ht⟩ := hphone
      have hl : (Hub.run.final ts).stopped = false := Loop.stopped_of_turn heq
      have hturn : Hub.run.step (Hub.run.final ts) t
          = (⟨((Hub.run.final ts).hub.onPhoneText t.order q text).1, false⟩,
            ((Hub.run.final ts).hub.onPhoneText t.order q text).2) := by
        change Loop.turn _ t = _
        simp [Loop.turn, hl, ht, Hub.handle]
      rw [hturn]
      exact Hub.onPhoneText_booked ht hr.outstanding_le
    · by_cases hlost : t.swallows (Hub.run.final ts).hub p i
      · have hl : Hub.run.final ts = ⟨(Hub.run.final ts).hub, false⟩ :=
          Loop.eq_of_running (Loop.stopped_of_turn heq)
        have hb := swallow_booked hlost
        rw [← hl] at hb
        exact hb
      · rw [heq]
        exact hs.booked (fun q text ht => hphone ⟨q, text, ht⟩) (by simpa using hlost)
          hr.outstanding_le

end

/-! ## 3. The balance -/

section

variable {t : Turn} {h h' : Hub} {out : List Effect} {p : PhoneId} {i : JsonId}

/-- What a turn enters balances, as long as the phone is there. -/
theorem Booked.balance (hb : Booked t h h' out p i) (hp : p ∈ h.phones) :
    (h.waiting p i).card + (t.demands h p i).toNat =
      answersIn out p i + (h'.waiting p i).card + (t.swallows h p i).toNat := by
  cases hb with
  | nothing hasked hkept hwaiting hout => simp [hasked, hkept, hwaiting, hout]
  | answered hasked hkept hwaiting hout =>
    simp [hasked, hkept, hwaiting, hout, Nat.add_comm]
  | forwarded hasked hkept hn hwaiting hout =>
    simp [hasked, hkept, hwaiting, hout, Finset.card_insert_of_notMem hn]
  | relayed hasked hkept hn hwaiting hout =>
    have hcard := Finset.card_erase_add_one hn
    simp only [hasked, hkept, hwaiting, hout, if_pos hp, Bool.toNat_false]
    omega
  | swallowed hasked hlost hn hwaiting hout =>
    have hcard := Finset.card_erase_add_one hn
    simp only [hasked, hlost, hwaiting, hout, Bool.toNat_false, Bool.toNat_true]
    omega

/-- It never adds more answers than demands. -/
theorem Booked.bound (hb : Booked t h h' out p i) :
    answersIn out p i + (h'.waiting p i).card + (t.swallows h p i).toNat ≤
      (h.waiting p i).card + (t.demands h p i).toNat := by
  by_cases hp : p ∈ h.phones
  · exact (hb.balance hp).ge
  · cases hb with
    | relayed hasked hkept hn hwaiting hout =>
      have hcard := Finset.card_erase_add_one hn
      simp only [hasked, hkept, hwaiting, hout, if_neg hp, Bool.toNat_false]
      omega
    | nothing hasked hkept hwaiting hout => simp [hasked, hkept, hwaiting, hout]
    | answered hasked hkept hwaiting hout =>
      simp [hasked, hkept, hwaiting, hout, Nat.add_comm]
    | forwarded hasked hkept hn hwaiting hout =>
      simp [hasked, hkept, hwaiting, hout, Finset.card_insert_of_notMem hn]
    | swallowed hasked hlost hn hwaiting hout =>
      have hcard := Finset.card_erase_add_one hn
      simp only [hasked, hlost, hwaiting, hout, Bool.toNat_false, Bool.toNat_true]
      omega

end

/-- The books of the phone `p` under the id `i`. -/
structure Balanced (hist : List Line) (h : Hub) (p : PhoneId) (i : JsonId) : Prop where
  /-- As long as the phone is there, nothing is missing. -/
  exact : p ∈ h.phones → asked p i hist =
    answered p i hist + (h.waiting p i).card + swallowed p i hist
  /-- There is never an answer too many. -/
  bound : answered p i hist + (h.waiting p i).card + swallowed p i hist ≤ asked p i hist

section

variable (p : PhoneId) (i : JsonId) (hist : List Line) (l : Loop) (t : Turn) (out : List Effect)

theorem asked_snoc :
    asked p i (hist ++ [⟨l, t, out⟩]) = asked p i hist + (t.demands l.hub p i).toNat := by
  cases hd : t.demands l.hub p i <;> simp [asked, hd]

theorem swallowed_snoc :
    swallowed p i (hist ++ [⟨l, t, out⟩]) = swallowed p i hist + (t.swallows l.hub p i).toNat := by
  cases hd : t.swallows l.hub p i <;> simp [swallowed, hd]

theorem answered_snoc :
    answered p i (hist ++ [⟨l, t, out⟩]) = answered p i hist + answersIn out p i := by
  rw [answered, received, collect_append, collect_singleton, List.countP_append]
  rfl

end

/-- A phone that the hub has after a turn it had before, or the phone has just connected. -/
theorem phones_after (ts : List Turn) (t : Turn) {p : PhoneId}
    (hp : p ∈ (Hub.run.step (Hub.run.final ts) t).1.hub.phones) :
    p ∈ (Hub.run.final ts).hub.phones ∨ (Hub.run.final ts).hub.nextPhone < p := by
  obtain ⟨-, heq⟩ | ⟨-, -, heq⟩ | ⟨-, h', out, heq, hs⟩ := turn_cases ts t
  · exact .inl (by rwa [heq] at hp)
  · rw [heq, Hub.shutdown_eq] at hp
    exact absurd hp (AList.notMem_empty p)
  · rw [heq] at hp
    exact (hs.mem_phones hp).imp_right fun ⟨hnew, _⟩ => hnew ▸ Nat.lt_succ_self _

theorem nextPhone_mono (ts : List Turn) (t : Turn) :
    (Hub.run.final ts).hub.nextPhone ≤ (Hub.run.step (Hub.run.final ts) t).1.hub.nextPhone := by
  obtain ⟨-, heq⟩ | ⟨-, -, heq⟩ | ⟨-, h', out, heq, hs⟩ := turn_cases ts t
  · rw [heq]
  · rw [heq, Hub.shutdown_eq]
  · rw [heq]
    exact hs.nextPhone_le

theorem demands_of_future {ts : List Turn} (t : Turn) {p : PhoneId} (i : JsonId)
    (hp : (Hub.run.final ts).hub.nextPhone < p) :
    t.demands (Hub.run.final ts).hub p i = false := by
  have hnot : (Hub.run.final ts).hub.phones.lookup p = none := by
    cases hlookup : (Hub.run.final ts).hub.phones.lookup p with
    | none => rfl
    | some phone =>
      have hle := (running (running_of_phone hlookup)).wellKept.below p
        (Table.mem_iff_exists.mpr ⟨_, hlookup⟩)
      exact absurd hp (not_lt_of_ge hle)
  unfold Turn.demands
  split
  · simp [hnot]
  · rfl

theorem asked_of_future {ts : List Turn} {p : PhoneId} (i : JsonId)
    (hp : (Hub.run.final ts).hub.nextPhone < p) : asked p i (Hub.run.history ts) = 0 := by
  induction ts using List.reverseRecOn with
  | nil => rfl
  | append_singleton ts t ih =>
    rw [Hub.run.final_snoc] at hp
    have hbefore := (nextPhone_mono ts t).trans_lt hp
    rw [Hub.run.history_snoc, asked_snoc, ih hbefore, demands_of_future t i hbefore]
    rfl

/-- The books of a phone balance after every run. -/
theorem Balanced.final (ts : List Turn) (p : PhoneId) (i : JsonId) :
    Balanced (Hub.run.history ts) (Hub.run.final ts).hub p i := by
  induction ts using List.reverseRecOn with
  | nil => exact ⟨fun _ => rfl, le_rfl⟩
  | append_singleton ts t ih =>
    have hb := turn_booked ts t p i
    rw [Hub.run.history_snoc, Hub.run.final_snoc]
    constructor
    case bound =>
      have hturn := hb.bound
      have hbefore := ih.bound
      rw [asked_snoc, answered_snoc, swallowed_snoc]
      omega
    case exact =>
      intro hp
      rw [asked_snoc, answered_snoc, swallowed_snoc]
      obtain hp | hnew := phones_after ts t hp
      · have hturn := hb.balance hp
        have hbefore := ih.exact hp
        omega
      · -- A phone that has just connected has asked for nothing, and got nothing.
        have hturn := hb.bound
        have hbefore := ih.bound
        have hnone := asked_of_future i hnew
        rw [demands_of_future t i hnew] at hturn ⊢
        simp only [Bool.toNat_false] at hturn ⊢
        omega

/-- **The books balance**, in every run and for every phone and every id: what a phone has asked
is what it has been answered, what waits for an answer, and what a link that was not serving has
answered in its place.  By induction on the turns, with `Booked.balance` for each while the phone is
there, and `Booked.bound` when it has gone. -/
theorem accounts_balance (ts : List Turn) :
    ∀ p i, Balanced (Hub.run.history ts) (Hub.run.final ts).hub p i :=
  Balanced.final ts

end Aqualung
