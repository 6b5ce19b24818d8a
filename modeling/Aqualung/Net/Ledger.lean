/-
# The ledger of a phone

The books of the hub (`Hub/Accounts.lean`) count what the hub reads and sends.  Here they are
carried to the socket: every request that a phone has written is answered on its socket, or it is
somewhere on the way, and one can say where (`phone_ledger`).  In no order of events does a phone
get an answer that it has not asked for.

On the way in, the texts that the phone has written are those that the hub has read of its task and
those in `rx` (`textsOf_eq`), and the hub reads a text under the phone's id only from the task that
has the id (`sender_of_about`).  It books every one of them, as long as the phone stays
(`asked_eq`).  On the way out, what it sends to the phone has been written or is in the queue of the
task (`Net/Delivery.lean`).  The ledger adds the three up.
-/
import Aqualung.Net.Delivery

namespace Aqualung

open Lib

/-! ## 1. Texts on their way to the hub -/

def ToHub.text : ToHub → Option RpcText
  | .phoneText _ text => some text
  | _ => none

def ToHub.textOf (p : PhoneId) : ToHub → Option RpcText
  | .phoneText q text => if q = p then some text else none
  | _ => none

/-- How many of the texts have to be answered under the id `i`. -/
def demandsIn (i : JsonId) (texts : List RpcText) : Nat := texts.countP (·.demands = some i)

/-- The texts of the phone `p` that the hub receives. -/
def textsTo (p : PhoneId) (ts : List Turn) : List RpcText :=
  (ts.filterMap Turn.message).filterMap (ToHub.textOf p)

theorem textsTo_snoc (p : PhoneId) (ts : List Turn) (t : Turn) :
    textsTo p (ts ++ [t]) = textsTo p ts ++ (t.message.bind (ToHub.textOf p)).toList := by
  rw [textsTo, List.filterMap_append, List.filterMap_append]
  cases hmsg : t.message with
  | none => simp [textsTo, hmsg]
  | some msg => cases htext : msg.textOf p <;> simp [textsTo, hmsg, htext]

/-- A turn has to be answered if its text has to, and the phone is known. -/
theorem Turn.demands_eq (t : Turn) (h : Hub) (p : PhoneId) (i : JsonId) :
    t.demands h p i ↔ (h.phones.lookup p).isSome ∧
      ∃ text, t.message.bind (ToHub.textOf p) = some text ∧ text.demands = some i := by
  unfold Turn.demands Turn.message
  split
  · rename_i q text hin
    by_cases hq : q = p
    · simp [hin, ToHub.textOf, hq]
    · simp [hin, ToHub.textOf, hq]
  · rename_i hno
    split
    · rename_i msg hin
      cases msg with
      | phoneText q text => exact absurd hin (hno q text)
      | _ => simp [ToHub.textOf]
    · simp

/-- What a turn adds to the demands is at most what its text adds. -/
theorem Turn.demands_le (t : Turn) (h : Hub) (p : PhoneId) (i : JsonId) :
    (t.demands h p i).toNat ≤ demandsIn i (t.message.bind (ToHub.textOf p)).toList := by
  cases hd : t.demands h p i with
  | false => exact Nat.zero_le _
  | true =>
    obtain ⟨-, text, htext, hid⟩ := (t.demands_eq h p i).mp hd
    simp [htext, demandsIn, hid]

/-- The hub books no more than it receives. -/
theorem asked_le (ts : List Turn) (p : PhoneId) (i : JsonId) :
    asked p i (Hub.run.history ts) ≤ demandsIn i (textsTo p ts) := by
  induction ts using List.reverseRecOn with
  | nil => exact Nat.le_refl 0
  | append_singleton ts t ih =>
    rw [Hub.run.history_snoc, asked_snoc, textsTo_snoc, demandsIn, List.countP_append]
    exact Nat.add_le_add ih (t.demands_le _ p i)

/-- A phone that the hub has known and does not know any more has left. -/
theorem left_of_gone {ts : List Turn} (hrun : (Hub.run.final ts).stopped = false) {p : PhoneId}
    (hp : 1 ≤ p) (hle : p ≤ (Hub.run.final ts).hub.nextPhone)
    (hgone : p ∉ (Hub.run.final ts).hub.phones) :
    .phoneEof p ∈ ts.filterMap Turn.message := by
  induction ts using List.reverseRecOn with
  | nil => exact absurd (hp.trans hle) (by decide)
  | append_singleton ts t ih =>
    rw [Hub.run.final_snoc] at hrun hle hgone
    have hbefore : (Hub.run.final ts).stopped = false := by
      cases hstop : (Hub.run.final ts).stopped with
      | false => rfl
      | true =>
        rw [show Hub.run.step _ t = _ from Loop.turn_stopped hstop t, hstop] at hrun
        cases hrun
    rw [turn_phones hbefore hrun, not_or] at hgone
    rw [List.filterMap_append, List.mem_append]
    by_cases hin : t.input = .recv (.phoneEof p)
    · exact .inr (by simp [Turn.message, hin])
    · refine .inl (ih hbefore ?_ fun hmem => hgone.1 ⟨hmem, hin⟩)
      obtain ⟨hhello, -, hnext⟩ | ⟨-, -, hnext⟩ := turn_bindsPhone hbefore t
      · have hne : p ≠ (Hub.run.final ts).hub.nextPhone + 1 := fun heq => hgone.2 ⟨hhello, heq⟩
        lia
      · exact hnext ▸ hle

/-! ## 2. Whose letters they are -/

/-- The message is about the phone `p`. -/
def ToHub.About (p : PhoneId) (msg : ToHub) : Prop :=
  msg = .phoneEof p ∨ ∃ text, msg = .phoneText p text

theorem PhoneTask.Reported.about {task : PhoneTask} {texts : List RpcText} {posts : List ToHub}
    (hr : Reported task texts posts) {p : PhoneId} {msg : ToHub} (hmem : msg ∈ posts)
    (habout : msg.About p) : task.bound = some p := by
  have hhello : ¬ ToHub.About p .phoneHello := by simp [ToHub.About]
  have htexts : ∀ {q : PhoneId}, msg ∈ texts.map (ToHub.phoneText q) → q = p := by
    intro q hmem
    obtain ⟨text, -, rfl⟩ := List.mem_map.mp hmem
    obtain heq | ⟨_, heq⟩ := habout
    · cases heq
    · cases heq
      rfl
  have hnothing : posts <+: [.phoneHello] → task.bound = some p := fun hpart => by
    rw [List.mem_singleton.mp (hpart.subset hmem)] at habout
    exact absurd habout hhello
  unfold Reported at hr
  split at hr
  · exact hnothing (hr.2 ▸ List.nil_prefix)
  · exact hnothing (hr.2 ▸ List.nil_prefix)
  · exact hnothing (hr.2 ▸ List.prefix_rfl)
  · obtain ⟨hbound, rfl⟩ := hr
    obtain rfl | hmem := List.mem_cons.mp hmem
    · exact absurd habout hhello
    · rw [hbound, htexts hmem]
  · obtain ⟨-, hpart⟩ | ⟨q, last, hbound, hlast, rfl⟩ := hr
    · exact hnothing hpart
    · obtain rfl | hmem := List.mem_cons.mp hmem
      · exact absurd habout hhello
      obtain hmem | hmem := List.mem_append.mp hmem
      · rw [hbound, htexts hmem]
      · obtain rfl | rfl := hlast
        · cases hmem
        · obtain rfl := List.mem_singleton.mp hmem
          obtain heq | ⟨_, heq⟩ := habout
          · cases heq
            exact hbound
          · cases heq

theorem HomeOut.not_about (fromSlice : Bytes → Option LeaderServer) {o : HomeOut} {msg : ToHub}
    (ho : o.toHub fromSlice = some msg) (p : PhoneId) : ¬ msg.About p := by
  cases o with
  | accepted => cases ho; simp [ToHub.About]
  | registered bytes => cases ho
  | unregistered g => cases ho; simp [ToHub.About]
  | conn g o => cases o <;> cases ho <;> simp [ToHub.About]

variable {P : Type*} (setup : Setup P)

/-- `serve` itself only tells the hub to end. -/
theorem posts_serve {s : Serve} {ev : ServeEvent P} {letter : Letter}
    (hmem : letter ∈ s.posts setup ev) (hsender : letter.sender = .serve) :
    letter.msg = .shutdown := by
  unfold Serve.posts at hmem
  split at hmem
  · cases hmem
  cases ev with
  | home k ev =>
    obtain ⟨msg, -, rfl⟩ := List.mem_map.mp hmem
    cases hsender
  | phone k ev =>
    obtain ⟨msg, -, rfl⟩ := List.mem_map.mp hmem
    cases hsender
  | serveEnds =>
    simp only at hmem
    split at hmem
    · rw [List.mem_singleton.mp hmem]
    · cases hmem
  | _ => cases hmem

/-- **A letter about a phone is from the task of that phone.** -/
theorem sender_of_about (evs : List (ServeEvent P)) {letter : Letter}
    (hmem : letter ∈ readLetters setup evs ++ ((Serve.run setup).final evs).rx) {p : PhoneId}
    (habout : letter.msg.About p) :
    ∃ k, letter.sender = .phone k ∧ (((Serve.run setup).final evs).phones k).bound = some p := by
  have htold := HubTold.final setup evs
  by_cases hserve : letter.sender = .serve
  · rw [readLetters, show ((Serve.run setup).final evs).rx
      = (Serve.mailbox setup).queue ((Serve.run setup).final evs) from rfl, ← Mailbox.put_eq] at hmem
    obtain ⟨e, -, hposts⟩ := List.mem_flatMap.mp hmem
    rw [posts_serve setup hposts hserve] at habout
    simp [ToHub.About] at habout
  · have hin : letter ∈ toldHub setup evs :=
      htold.order.subset (List.mem_filter.mpr ⟨hmem, by simpa [Letter.ofTask] using hserve⟩)
    obtain ⟨sender, msg⟩ := letter
    cases sender with
    | serve => exact absurd rfl hserve
    | home k =>
      obtain ⟨e, -, o, -, ho⟩ := mem_collect.mp hin
      cases o with
      | hub eff => cases ho
      | phone k' o =>
        obtain ⟨msg', -, heq⟩ := Option.map_eq_some_iff.mp ho
        cases heq
      | home k' o =>
        obtain ⟨msg', hmsg, heq⟩ := Option.map_eq_some_iff.mp ho
        cases heq
        exact absurd habout (o.not_about setup.fromSlice hmsg p)
    | phone k =>
      refine ⟨k, rfl, (htold.phone k).about (List.mem_filterMap.mpr ⟨_, hin, ?_⟩) habout⟩
      simp [Letter.from]

/-! ## 3. From the socket to the books -/

/-- What a task reports contains its texts. -/
theorem PhoneTask.Reported.texts_eq {task : PhoneTask} {texts : List RpcText} {posts : List ToHub}
    (hr : Reported task texts posts) : posts.filterMap ToHub.text = texts := by
  have htexts : ∀ p : PhoneId, (texts.map (ToHub.phoneText p)).filterMap ToHub.text = texts := by
    intro p
    rw [List.filterMap_map]
    exact List.filterMap_some
  unfold Reported at hr
  split at hr
  · obtain ⟨rfl, rfl⟩ := hr
    rfl
  · obtain ⟨rfl, rfl⟩ := hr
    rfl
  · obtain ⟨rfl, rfl⟩ := hr
    rfl
  · rw [hr.2]
    exact htexts _
  · obtain ⟨rfl, hpart⟩ | ⟨p, last, -, hlast, rfl⟩ := hr
    · refine List.filterMap_eq_nil_iff.mpr fun msg hmem => ?_
      rw [List.mem_singleton.mp (hpart.subset hmem)]
      rfl
    · change (texts.map (ToHub.phoneText p) ++ last).filterMap ToHub.text = texts
      rw [List.filterMap_append, htexts]
      obtain rfl | rfl := hlast
      · exact List.append_nil texts
      · exact List.append_nil texts

/-- The texts of the phone connection `k` among the letters. -/
def textsFrom (k : Nat) (letters : List Letter) : List RpcText :=
  (letters.filterMap (Letter.from (.phone k))).filterMap ToHub.text

theorem textsFrom_append (k : Nat) (letters letters' : List Letter) :
    textsFrom k (letters ++ letters') = textsFrom k letters ++ textsFrom k letters' := by
  simp [textsFrom]

/-- The letters of `serve` do not matter. -/
theorem textsFrom_filter (k : Nat) (letters : List Letter) :
    textsFrom k (letters.filter Letter.ofTask) = textsFrom k letters := by
  have hfrom : (letters.filter Letter.ofTask).filterMap (Letter.from (.phone k))
      = letters.filterMap (Letter.from (.phone k)) := by
    rw [List.filterMap_filter]
    refine List.filterMap_congr fun letter _ => ?_
    by_cases hsender : letter.sender = .phone k
    · simp [Letter.ofTask, hsender]
    · simp [Letter.from, hsender]
  rw [textsFrom, hfrom, textsFrom]

/-- The texts of a phone are read or in `rx`. -/
theorem textsOf_eq (evs : List (ServeEvent P)) (k : Nat)
    (hrun : ((Serve.run setup).final evs).loop.stopped = false) :
    textsOf setup evs k = textsFrom k (readLetters setup evs)
      ++ textsFrom k ((Serve.run setup).final evs).rx := by
  have htold := HubTold.final setup evs
  rw [← (htold.phone k).texts_eq, ← htold.lossless hrun, ← textsFrom_append, ← textsFrom_filter]
  rfl

/-- At any time the hub has read at most the texts of a phone. -/
theorem demandsIn_read_le (evs : List (ServeEvent P)) (k : Nat) (i : JsonId) :
    demandsIn i (textsFrom k (readLetters setup evs)) ≤ demandsIn i (textsOf setup evs k) := by
  have htold := HubTold.final setup evs
  have hpart := ((htold.order.filterMap (Letter.from (.phone k))).filterMap ToHub.text)
  rw [(htold.phone k).texts_eq] at hpart
  change textsFrom k _ <+: _ at hpart
  rw [textsFrom_filter, textsFrom_append] at hpart
  exact ((List.prefix_append _ _).trans hpart).sublist.countP_le

/-- The texts that the hub receives from the phone `p` are those of the task that has the id. -/
theorem textsTo_eq (evs : List (ServeEvent P)) {k : Nat} {p : PhoneId}
    (hp : (((Serve.run setup).final evs).phones k).bound = some p) :
    textsTo p (hubTurns setup evs) = textsFrom k (readLetters setup evs) := by
  rw [textsTo, hubTurns_messages, List.filterMap_map, textsFrom, List.filterMap_filterMap]
  refine List.filterMap_congr fun letter hmem => ?_
  have hkept := PhonesKept.final setup evs
  obtain ⟨sender, msg⟩ := letter
  cases msg with
  | phoneText q text =>
    obtain ⟨k', hsender, hq⟩ :=
      sender_of_about setup evs (List.mem_append_left _ hmem) (.inr ⟨text, rfl⟩)
    obtain rfl : sender = .phone k' := hsender
    by_cases hqp : q = p
    · obtain rfl := hkept.register.unique k' k p (hqp ▸ hq) hp
      simp [ToHub.textOf, Letter.from, ToHub.text, hqp]
    · have hk : k' ≠ k := by
        rintro rfl
        rw [hq] at hp
        exact hqp (Option.some.inj hp)
      simp [ToHub.textOf, Letter.from, hqp, hk]
  | _ =>
    by_cases hsender : sender = .phone k <;>
      simp [ToHub.textOf, Letter.from, ToHub.text, hsender]

/-- Until a phone leaves, the hub books every text that it reads of it. -/
theorem asked_eq (evs : List (ServeEvent P)) {p : PhoneId} (i : JsonId)
    (hrun : ((Serve.run setup).final evs).loop.stopped = false)
    (hstays : .phoneEof p ∉ (hubTurns setup evs).filterMap Turn.message) :
    asked p i (Hub.run.history (hubTurns setup evs)) = demandsIn i (textsTo p (hubTurns setup evs)) := by
  induction evs using List.reverseRecOn with
  | nil => rfl
  | append_singleton evs ev ih =>
    have hloop := loop_final setup evs
    have hkept := PhonesKept.final setup evs
    have hsender := @sender_of_about _ setup evs
    have hs := ((Serve.run setup).final evs).step_spec setup ev
    rw [Machine.final_snoc] at hrun
    rw [hubTurns_snoc] at hstays ⊢
    generalize (Serve.run setup).step ((Serve.run setup).final evs) ev = next at hs hrun
    obtain ⟨s', out⟩ := next
    generalize (Serve.run setup).final evs = s at *
    obtain ⟨w, hw, -⟩ | ⟨hw, heq, -⟩ := hs.quiet
    · obtain ⟨hbefore, hread⟩ := Serve.wake_spec hw
      rw [Serve.hubTakes, hw, Option.toList_some, List.map_singleton] at hstays ⊢
      rw [List.filterMap_append, List.mem_append, not_or] at hstays
      rw [Hub.run.history_snoc, asked_snoc, textsTo_snoc, ih hbefore hstays.1, demandsIn, demandsIn,
        List.countP_append]
      congr 1
      -- The hub knows the phone whose text it reads.
      have hknown : ∀ text, w.turn.message.bind (ToHub.textOf p) = some text →
          ((Hub.run.final (hubTurns setup evs)).hub.phones.lookup p).isSome := by
        intro text htext
        obtain ⟨letter, hrx, -, hmsg⟩ | ⟨-, -, hdeadline⟩ := hread
        · have htext' : letter.msg.textOf p = some text := by
            simpa [Turn.message, hmsg] using htext
          obtain ⟨q, text', hq⟩ : ∃ q text', letter.msg = .phoneText q text' := by
            cases hletter : letter.msg <;> simp [hletter, ToHub.textOf] at htext'
            exact ⟨_, _, rfl⟩
          obtain rfl : q = p := by
            rw [hq, ToHub.textOf] at htext'
            exact (Option.ite_none_right_eq_some.mp htext').1
          obtain ⟨k, -, hp⟩ := hsender (List.mem_append_right _ (hrx ▸ List.mem_cons_self))
            (.inr ⟨text', hq⟩)
          obtain ⟨hle, hle'⟩ := hkept.register.bounds k q hp
          rw [hloop] at hle' hbefore
          by_contra hnone
          refine hstays.1 (left_of_gone hbefore hle hle' fun hmem => hnone ?_)
          exact AList.lookup_isSome.mpr hmem
        · simp [Turn.message, hdeadline] at htext
      cases htext : w.turn.message.bind (ToHub.textOf p) with
      | none =>
        have hnot : ¬ w.turn.demands (Hub.run.final (hubTurns setup evs)).hub p i := by
          rw [Turn.demands_eq, htext]
          rintro ⟨-, text, hsome, -⟩
          cases hsome
        simp [hnot]
      | some text =>
        have hiff : w.turn.demands (Hub.run.final (hubTurns setup evs)).hub p i
            ↔ text.demands = some i := by
          rw [Turn.demands_eq, htext]
          simp [hknown text htext]
        by_cases hid : text.demands = some i
        · simp [hiff.mpr hid, hid]
        · simp [mt hiff.mp hid, hid]
    · rw [Serve.hubTakes, hw] at hstays ⊢
      rw [show s'.loop = s.loop from heq] at hrun
      simpa using ih hrun (by simpa using hstays)

/-- A phone whose task talks has not left. -/
theorem stays_of_talking (evs : List (ServeEvent P)) {k : Nat} {p : PhoneId}
    (hphase : (((Serve.run setup).final evs).phones k).phase = .talking p) :
    .phoneEof p ∉ (hubTurns setup evs).filterMap Turn.message := by
  have hkept := PhonesKept.final setup evs
  have htold := HubTold.final setup evs
  rw [hubTurns_messages]
  intro hmem
  obtain ⟨letter, hletter, hmsg⟩ := List.mem_map.mp hmem
  obtain ⟨k', hsender, hp⟩ := sender_of_about setup evs (List.mem_append_left _ hletter) (.inl hmsg)
  obtain rfl := hkept.register.unique k' k p hp (hkept.talking k p hphase)
  have hin : letter ∈ toldHub setup evs := by
    refine htold.order.subset (List.mem_filter.mpr ⟨List.mem_append_left _ hletter, ?_⟩)
    simp [Letter.ofTask, hsender]
  have hposts : .phoneEof p ∈ (toldHub setup evs).filterMap (Letter.from (.phone k')) :=
    List.mem_filterMap.mpr ⟨letter, hin, by simp [Letter.from, hsender, hmsg]⟩
  have hreported := htold.phone k'
  rw [PhoneTask.Reported, hphase] at hreported
  rw [hreported.2] at hposts
  simp at hposts

/-! ## 4. The ledger -/

/-- The requests of the phone connection `k` under the id `i`, and where they are. -/
structure PhoneLedger (evs : List (ServeEvent P)) (k : Nat) (i : JsonId) : Prop where
  /-- The phone is not written more answers than it has asked for. -/
  bound : (writtenPhone setup evs k).countP (Obj.answers i) ≤ demandsIn i (textsOf setup evs k)
  /-- As long as its task talks and the hub runs, what it has asked for has been written, or waits
  in the queue of the task, or waits for home, or was swallowed, or is in `rx`. -/
  exact : ((Serve.run setup).final evs).loop.stopped = false →
    ∀ p, (((Serve.run setup).final evs).phones k).phase = .talking p →
      demandsIn i (textsOf setup evs k) =
        (writtenPhone setup evs k).countP (Obj.answers i)
          + (((Serve.run setup).final evs).phones k).out.countP (Obj.answers i)
          + (((Serve.run setup).final evs).loop.hub.waiting p i).card
          + swallowed p i (Hub.run.history (hubTurns setup evs))
          + demandsIn i (textsFrom k ((Serve.run setup).final evs).rx)

/-- **No request of a phone is lost, and none is answered twice**, from the socket to the hub and
back, whatever the order of events in topside.  The books of the hub stand in the middle; before
them are the texts in `rx`, behind them the answers in the queue of the task, the one that is being
written among them. -/
theorem phone_ledger (evs : List (ServeEvent P)) (k : Nat) (i : JsonId) :
    PhoneLedger setup evs k i := by
  have hkept := PhonesKept.final setup evs
  have hloop := loop_final setup evs
  obtain ⟨hsilent, hphone⟩ := PhoneTold.final setup evs k
  constructor
  case bound =>
    cases hp : (((Serve.run setup).final evs).phones k).bound with
    | none =>
      rw [hsilent hp]
      exact Nat.zero_le _
    | some p =>
      have hbooks := (Balanced.final (hubTurns setup evs) p i).bound
      have hbooked := asked_le (hubTurns setup evs) p i
      rw [textsTo_eq setup evs hp] at hbooked
      calc (writtenPhone setup evs k).countP (Obj.answers i)
          ≤ answered p i (Hub.run.history (hubTurns setup evs)) :=
            (hphone p hp).order.sublist.countP_le
        _ ≤ asked p i (Hub.run.history (hubTurns setup evs)) := by omega
        _ ≤ demandsIn i (textsFrom k (readLetters setup evs)) := hbooked
        _ ≤ demandsIn i (textsOf setup evs k) := demandsIn_read_le setup evs k i
  case exact =>
    intro hrun p hphase
    have hp := hkept.talking k p hphase
    have hknown := hkept.known hrun k p hp (by simp [hphase])
    have hstays := stays_of_talking setup evs hphase
    have hwritten := (hphone p hp).lossless (by simp [hphase])
    have hasked := asked_eq setup evs i hrun hstays
    have hanswered : answered p i (Hub.run.history (hubTurns setup evs))
        = (writtenPhone setup evs k).countP (Obj.answers i)
          + (((Serve.run setup).final evs).phones k).out.countP (Obj.answers i) := by
      rw [answered, ← hwritten, List.countP_append]
    rw [hloop] at hknown
    have hbooks := (Balanced.final (hubTurns setup evs) p i).exact hknown
    rw [textsOf_eq setup evs k hrun, demandsIn, List.countP_append, ← demandsIn, ← demandsIn,
      ← textsTo_eq setup evs hp, ← hasked, hbooks, hanswered, hloop]

end Aqualung
