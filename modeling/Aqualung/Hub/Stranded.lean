/-
# Requests that are left behind

A phone's request is forwarded on the serving link, and its entry in `outstanding` waits for
the answer.  The entry does not say which link that was, and nothing happens to it when the
link leaves home, or when another link answers in its place: the phone is never answered.

`none_stranded` says that no phone is left waiting for a link that is not there, as long as
neither happens to a request of a phone that is connected, and `stranded_by_eof` is a run in
which it does.  The condition, `Considerate`, is about the state before each turn and the turn
itself, so it can be read off without looking at what the hub does.

The proof follows an entry from the line that made it: it was made on the link that was serving
(`HubStep.of_forwards`), and in a considerate run that link goes on serving as long as the entry is
there (`HubStep.mux_of_waiting`).
-/
import Aqualung.Hub.Handshake

namespace Aqualung

open Lib

/-! ## 1. The promise and its condition -/

/-- What is left to answer is on the serving link. -/
structure NoneStranded (hist : List Line) (h : Hub) : Prop where
  /-- A request of a connected phone that was forwarded on the link `g`, and has had neither a
  result nor an error since, was forwarded on the serving link. -/
  pending : ∀ pre e post, hist = pre ++ e :: post → ∀ g n p obj, Forwards e n p obj →
    .toHome g (.acp (obj.withId (.ofU64 n))) ∈ e.out → p ∈ h.phones →
    (∀ e' ∈ post, ∀ m, .toPhone p m ∈ e'.out → m.isAnswer → m.id ≠ obj.id) →
    h.home.mux = some g
  /-- Every entry of a connected phone is that of a request forwarded on the serving link. -/
  entry : ∀ n p origin, h.outstanding.lookup n = some (.forwarded p origin) → p ∈ h.phones →
    ∃ e ∈ hist, ∃ g obj, Forwards e n p obj ∧ obj.id = some origin ∧
      .toHome g (.acp (obj.withId (.ofU64 n))) ∈ e.out ∧ h.home.mux = some g

/-- The turn makes the serving link leave home: it is gone, or the candidate takes its place. -/
def LeavesHome (t : Turn) (h : Hub) : Prop :=
  ∃ g, h.home.mux = some g ∧
    (t.input = .recv (.homeEof g) ∨ (∃ message, t.FromHome g (.error message)) ∨
      ∃ c id obj, h.home.candidate = some c ∧ Promoting t h c id obj)

/-- No connected phone is kept waiting by the turns of the history. -/
structure Considerate (hist : List Line) : Prop where
  /-- The serving link does not leave while a connected phone waits for an answer. -/
  leaves : ∀ e ∈ hist, LeavesHome e.input (hubOf e) →
    ∀ n p origin, (hubOf e).outstanding.lookup n = some (.forwarded p origin) →
      p ∉ (hubOf e).phones
  /-- A connected phone's request is answered by no other link than the serving one. -/
  answers : ∀ e ∈ hist, ∀ g n obj p origin,
    Settles e.input (hubOf e) g n obj (.forwarded p origin) → p ∈ (hubOf e).phones →
      (hubOf e).home.mux = some g

theorem Considerate.of_append {hist hist' : List Line} (h : Considerate (hist ++ hist')) :
    Considerate hist where
  leaves e he := h.leaves e (List.mem_append_left _ he)
  answers e he := h.answers e (List.mem_append_left _ he)

/-! ## 2. Along a run -/

/-- A line that forwards a request does so on the link that serves. -/
theorem HubStep.of_forwards {t : Turn} {h h' : Hub} {out : List Effect} {l : Loop}
    (hs : HubStep t h h' out) {n : HomeReqId} {p : PhoneId} {obj : Obj} {g : HomeGen}
    (hf : Forwards ⟨l, t, out⟩ n p obj) (hsent : .toHome g (.acp (obj.withId (.ofU64 n))) ∈ out) :
    p ∈ h.phones ∧ h'.home.mux = some g ∧
      ∃ origin, obj.id = some origin ∧ h'.outstanding.lookup n = some (.forwarded p origin) := by
  cases hs.homeBound with
  | nothing hout => exact absurd hsent (hout g _)
  | initializing hc why hnext hout =>
    obtain ⟨-, -, -, ht, -⟩ | ⟨-, -, -, ht, -⟩ := why
    · exact absurd ht hf.asked.not_home
    · exact absurd ht hf.asked.not_home
  | loading hc hset he hnext hout => exact absurd hset.said hf.asked.not_home
  | forwarding ht hp hreq hm hnext hout hhome hentry =>
    obtain ⟨rfl, rfl⟩ := hf.asked.inj ht
    rw [hout, List.mem_singleton] at hsent
    obtain ⟨rfl, heq⟩ := Effect.toHome.inj hsent
    have hid := congrArg Obj.id (LeaderClient.acp.inj heq)
    simp only [Obj.id_withId, Option.some.injEq, Json.ofU64_inj] at hid
    obtain ⟨origin, horigin, hinsert⟩ := hentry
    exact ⟨AList.lookup_isSome.mp hp, by rw [hhome, hm], origin, horigin,
      by rw [hinsert, hid, AList.lookup_insert]⟩
  | notification ht hp hmethod hid hm hout =>
    obtain ⟨rfl, rfl⟩ := hf.asked.inj ht
    have hreq := hf.request
    simp [Obj.isRequest, hid] at hreq
  | reply ht hp hmethod hreply hid hkey hopen hm hout =>
    obtain ⟨rfl, rfl⟩ := hf.asked.inj ht
    have hreq := hf.request
    simp [Obj.isRequest, hmethod] at hreq

/-- The link a connected phone waits for goes on serving. -/
theorem HubStep.mux_of_waiting {t : Turn} {h h' : Hub} {out : List Effect}
    (hs : HubStep t h h' out)
    (hleaves : LeavesHome t h → ∀ n p origin,
      h.outstanding.lookup n = some (.forwarded p origin) → p ∉ h.phones)
    {n : HomeReqId} {p : PhoneId} {origin : JsonId} {g : HomeGen}
    (hentry : h.outstanding.lookup n = some (.forwarded p origin)) (hp : p ∈ h.phones)
    (hm : h.home.mux = some g) : h'.home.mux = some g := by
  cases hs.muxStep with
  | kept heq => rw [heq, hm]
  | lost hm' ht => exact absurd hp (hleaves ⟨_, hm', ht.imp_right .inl⟩ n p origin hentry)
  | promoted hc why =>
    exact absurd hp (hleaves ⟨g, hm, .inr (.inr ⟨_, _, _, hc, why⟩)⟩ n p origin hentry)

theorem Run.forwards_below {hist : List Line} {h : Hub} (hr : Run hist h) :
    ∀ e ∈ hist, ∀ g n p obj, Forwards e n p obj → .toHome g (.acp (obj.withId (.ofU64 n))) ∈ e.out →
      p ≤ h.nextPhone := by
  refine hr.invariant (P := fun hist h => ∀ e ∈ hist, ∀ g n p obj, Forwards e n p obj →
    .toHome g (.acp (obj.withId (.ofU64 n))) ∈ e.out → p ≤ h.nextPhone)
    (fun _ he => absurd he List.not_mem_nil) fun hr hs hi e he g n p obj hf hsent => ?_
  rcases List.mem_append.mp he with he | he
  · exact (hi e he g n p obj hf hsent).trans hs.nextPhone_le
  · rw [List.mem_singleton] at he
    subst he
    exact (hr.wellKept.below p (hs.of_forwards hf hsent).1).trans hs.nextPhone_le

/-- Every entry of a connected phone is of the serving link. -/
theorem Run.entries_serving {hist : List Line} {h : Hub} (hr : Run hist h) :
    Considerate hist →
    ∀ n p origin, h.outstanding.lookup n = some (.forwarded p origin) → p ∈ h.phones →
      ∃ e ∈ hist, ∃ g obj, Forwards e n p obj ∧ obj.id = some origin ∧
        .toHome g (.acp (obj.withId (.ofU64 n))) ∈ e.out ∧ h.home.mux = some g := by
  refine hr.invariant (P := fun hist h => Considerate hist →
    ∀ n p origin, h.outstanding.lookup n = some (.forwarded p origin) → p ∈ h.phones →
      ∃ e ∈ hist, ∃ g obj, Forwards e n p obj ∧ obj.id = some origin ∧
        .toHome g (.acp (obj.withId (.ofU64 n))) ∈ e.out ∧ h.home.mux = some g)
    (fun _ _ _ _ hentry => by cases hentry) ?_
  intro hist h t h' out hr hs hi hcond n p origin hentry hp
  cases hs.entry n with
  | kept heq =>
    rw [heq] at hentry
    -- The phone of an old entry is old.
    have hp : p ∈ h.phones := by
      obtain ⟨e, he, obj, hf, -⟩ := hr.forwarded n p origin hentry
      obtain ⟨g, hsent⟩ := hf.sent
      have hle := hr.forwards_below e he g n p obj hf (by simp [hsent])
      exact (hs.mem_phones hp).resolve_right fun hnew => by lia
    obtain ⟨e, he, g, obj, hf, hid, hsent, hm⟩ := hi hcond.of_append n p origin hentry hp
    exact ⟨e, List.mem_append_left _ he, g, obj, hf, hid, hsent,
      hs.mux_of_waiting (hcond.leaves _ List.mem_concat_self) hentry hp hm⟩
  | @forwarding q obj origin' g ht hp' hreq hid hm hn hnext heq hout =>
    obtain ⟨rfl, rfl⟩ := Wait.forwarded.inj (Option.some.inj (heq.symm.trans hentry))
    have hf : Forwards ⟨⟨h, false⟩, t, out⟩ n q obj := ⟨ht, hreq, g, hout⟩
    have hsent : .toHome g (.acp (obj.withId (.ofU64 n))) ∈ out := by simp [hout]
    exact ⟨_, List.mem_concat_self, g, obj, hf, hid, hsent,
      (hs.of_forwards hf hsent).2.1⟩
  | initializing hc hn hnext heq hout => rw [heq] at hentry; cases hentry
  | loading hc hn hnext heq hout => rw [heq] at hentry; cases hentry
  | settled hset heq => rw [heq] at hentry; cases hentry

/-- A request without an answer still has its entry, and the link it was forwarded on serves. -/
theorem Run.unanswered {hist : List Line} {h : Hub} (hr : Run hist h) :
    Considerate hist →
    ∀ pre e post, hist = pre ++ e :: post → ∀ g n p obj, Forwards e n p obj →
      .toHome g (.acp (obj.withId (.ofU64 n))) ∈ e.out → p ∈ h.phones →
      (∀ e' ∈ post, ∀ m, .toPhone p m ∈ e'.out → m.isAnswer → m.id ≠ obj.id) →
      h.home.mux = some g ∧
        ∃ origin, obj.id = some origin ∧ h.outstanding.lookup n = some (.forwarded p origin) := by
  refine hr.invariant (P := fun hist h => Considerate hist →
    ∀ pre e post, hist = pre ++ e :: post → ∀ g n p obj, Forwards e n p obj →
      .toHome g (.acp (obj.withId (.ofU64 n))) ∈ e.out → p ∈ h.phones →
      (∀ e' ∈ post, ∀ m, .toPhone p m ∈ e'.out → m.isAnswer → m.id ≠ obj.id) →
      h.home.mux = some g ∧
        ∃ origin, obj.id = some origin ∧ h.outstanding.lookup n = some (.forwarded p origin))
    (fun _ _ _ _ hsplit => by simp at hsplit) ?_
  intro hist h t h' out hr hs hi hcond pre e post hsplit g n p obj hf hsent hp hno
  obtain ⟨post', rfl, rfl⟩ | ⟨rfl, rfl, rfl⟩ := split_snoc hsplit
  · have hle := hr.forwards_below e (by simp) g n p obj hf hsent
    have hp : p ∈ h.phones := (hs.mem_phones hp).resolve_right fun hnew => by lia
    obtain ⟨hm, origin, hid, hentry⟩ := hi hcond.of_append pre e post' rfl g n p obj hf hsent hp
      fun e' he' => hno e' (List.mem_append_left _ he')
    have hold := hr.outstanding_le n _ hentry
    refine ⟨hs.mux_of_waiting (hcond.leaves _ List.mem_concat_self) hentry hp hm, origin, hid, ?_⟩
    cases hs.entry n with
    | kept heq => rw [heq, hentry]
    | initializing hc hn hnext heq hout => lia
    | loading hc hn hnext heq hout =>
      have := (Hub.mem_loads_bounds hn).1
      lia
    | forwarding ht hp' hreq hid' hm' hn hnext heq hout => lia
    | @settled g' r w hset heq hw =>
      obtain rfl := Option.some.inj (hset.waits.symm.trans hentry)
      obtain ⟨-, hout⟩ | ⟨hnot, -⟩ := hw p origin rfl
      · -- The answer goes to the phone, under the id of its request.
        have hsent' : .toPhone p (r.withId origin) ∈ out := by
          rw [hout]
          exact Hub.mem_sendPhone.mpr ⟨rfl, rfl, hp⟩
        have hans : (r.withId origin).isAnswer := by
          have hanswer := hset.answer
          simp only [Obj.isAnswer, Bool.and_eq_true] at hanswer ⊢
          simp [hanswer.1]
        exact absurd (by rw [Obj.id_withId, hid]) (hno _
          List.mem_concat_self _ hsent' hans)
      · exact absurd (hcond.answers _ List.mem_concat_self g' n r p origin hset hp) hnot
  · obtain ⟨-, hm, hentry⟩ := hs.of_forwards hf hsent
    exact ⟨hm, hentry⟩

/-! ## 3. No phone is left behind -/

/-- **No request is left pending on a link that is gone**, in every state, after turns that keep
no connected phone waiting.  The condition is one on each turn and the state it finds: the serving
link does not leave, and no other link answers, while a connected phone waits for an answer. -/
theorem none_stranded (ts : List Turn) (hcond : Considerate (Hub.run.history ts)) :
    NoneStranded (Hub.run.history ts) (Hub.run.final ts).hub := by
  cases hstop : (Hub.run.final ts).stopped with
  | true =>
    have hnone : ∀ p, p ∉ (Hub.run.final ts).hub.phones := fun p => by
      rw [phones_of_stopped hstop]
      exact AList.notMem_empty p
    exact ⟨fun _ _ _ _ _ _ p _ _ _ hp => absurd hp (hnone p),
      fun _ p _ _ hp => absurd hp (hnone p)⟩
  | false =>
    have hr := running hstop
    exact ⟨fun pre e post hsplit g n p obj hf hsent hp hno =>
        (hr.unanswered hcond pre e post hsplit g n p obj hf hsent hp hno).1,
      hr.entries_serving hcond⟩

/-- No phone waits for an answer, or there is no candidate and the serving link neither leaves
nor reports an error. -/
def Sparing (e : Line) : Bool :=
  (hubOf e).outstanding.entries.all (fun slot => slot.2 = .hubInitialize ∨ slot.2 = .hubLoad) ||
    ((hubOf e).home.candidate = none &&
      match e.input.input with
      | .recv (.homeEof _) => false
      | .recv (.homeFrame _ (.error _)) => false
      | _ => true)

theorem considerate_of_sparing {hist : List Line} (h : hist.all Sparing) : Considerate hist := by
  have hcases : ∀ e ∈ hist, ∀ n p origin,
      (hubOf e).outstanding.lookup n = some (.forwarded p origin) →
      (hubOf e).home.candidate = none ∧ ¬ LeavesHome e.input (hubOf e) := by
    intro e he n p origin hentry
    have hsparing := List.all_eq_true.mp h e he
    rw [Sparing, Bool.or_eq_true] at hsparing
    rcases hsparing with hall | hquiet
    · have hslot := List.all_eq_true.mp hall _ (Table.mem_entries_iff.mpr hentry)
      simp at hslot
    · simp only [Bool.and_eq_true, decide_eq_true_eq] at hquiet
      refine ⟨hquiet.1, ?_⟩
      rintro ⟨g, -, ht | ⟨message, ht⟩ | ⟨c, -, -, hc, -⟩⟩
      · simp [ht] at hquiet
      · simp [show e.input.input = _ from ht] at hquiet
      · rw [hquiet.1] at hc
        cases hc
  refine ⟨fun e he hleaves n p origin hentry _ => (hcases e he n p origin hentry).2 hleaves,
    fun e he g n obj p origin hset _ => ?_⟩
  rcases hset.held with hm | hc
  · exact hm
  · rw [(hcases e he n p origin hset.waits).1] at hc
    cases hc

/-- A phone's request is answered, and then the link is lost. -/
theorem none_stranded_of_answer :
    (Hub.run.final (Turn.bringUp ++ [.phone 1 (request (.ofU64 1) "session/load" "a"),
        .home 1 (answer (.ofU64 2)), .get (.homeEof 1)])).hub.home.mux = none ∧
      NoneStranded
        (Hub.run.history (Turn.bringUp ++ [.phone 1 (request (.ofU64 1) "session/load" "a"),
          .home 1 (answer (.ofU64 2)), .get (.homeEof 1)]))
        (Hub.run.final (Turn.bringUp ++ [.phone 1 (request (.ofU64 1) "session/load" "a"),
          .home 1 (answer (.ofU64 2)), .get (.homeEof 1)])).hub :=
  ⟨by decide +kernel, none_stranded _ (considerate_of_sparing (by decide +kernel))⟩

/-- A phone asks for a session, and the link is lost before it is answered. -/
def lostInFlight : List Turn :=
  Turn.bringUp ++ [.phone 1 (request (.ofU64 1) "session/load" "a")]

/-- **A phone is left behind**: its request is on a link that is gone. -/
theorem stranded_by_eof :
    ¬ NoneStranded (Hub.run.history (lostInFlight ++ [.get (.homeEof 1)]))
      (Hub.run.final (lostInFlight ++ [.get (.homeEof 1)])).hub := by
  intro h
  obtain ⟨e, he, g, obj, -, -, -, hm⟩ :=
    h.entry 2 1 (.ofU64 1) (by decide +kernel) (by decide +kernel)
  have hnone : (Hub.run.final (lostInFlight ++ [.get (.homeEof 1)])).hub.home.mux = none := by
    decide +kernel
  rw [hnone] at hm
  cases hm

end Aqualung
