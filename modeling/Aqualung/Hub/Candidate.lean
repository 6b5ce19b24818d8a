/-
# A candidate is not seen

A candidate shares its frame handlers with the serving link, and what a phone may notice of it
depends on tests of its role that are made in many places.  The steps it can take are those of
its own handshake: `HubStep.unseen` goes through them.  None of them touches what the hub keeps
for phones, and the only one that sends phones anything is the promotion, when there was no
serving link and home is back.

Its events are the frames of its generation, the end of its connection, and the deadline, which is
always that of the candidate (`Turn.OfCandidate`).  The steps of phones and of the serving link are
ruled out by the input or by the generation; what is left is the handshake.
-/
import Aqualung.Hub.Links

namespace Aqualung

open Lib

/-! ## 1. Events of the candidate -/

/-- The turn is an event of the candidate `c`: a frame from its link, the end of its link, or
its deadline. -/
def Turn.OfCandidate (t : Turn) (c : Incoming) : Prop :=
  (∃ msg, t.FromHome c.gen msg) ∨ t.input = .recv (.homeEof c.gen) ∨ t.input = .deadline

namespace Turn.OfCandidate

variable {t : Turn} {c : Incoming}

/-- Events of the candidate are not events of phones, and do not end the loop. -/
theorem not_recv (ht : t.OfCandidate c) {msg : ToHub} (hmsg : t.input = .recv msg) :
    (∃ frame, msg = .homeFrame c.gen frame) ∨ msg = .homeEof c.gen := by
  rcases ht with ⟨frame, ht⟩ | ht | ht
  · have heq := hmsg.symm.trans ht
    exact .inl ⟨frame, Input.recv.inj heq⟩
  · have heq := hmsg.symm.trans ht
    exact .inr (Input.recv.inj heq)
  · rw [ht] at hmsg
    cases hmsg

theorem not_phoneText (ht : t.OfCandidate c) (p : PhoneId) (text : RpcText) :
    t.input ≠ .recv (.phoneText p text) := by
  intro hmsg
  rcases ht.not_recv hmsg with ⟨frame, heq⟩ | heq
  · cases heq
  · cases heq

theorem not_phoneSays (ht : t.OfCandidate c) (p : PhoneId) (obj : Obj) : ¬ t.PhoneSays p obj :=
  ht.not_phoneText p _

theorem gen_eq (ht : t.OfCandidate c) {g : HomeGen} {msg : LeaderServer} (hg : t.FromHome g msg) :
    g = c.gen := by
  rcases ht.not_recv hg with ⟨frame, heq⟩ | heq
  · exact (ToHub.homeFrame.inj heq).1
  · cases heq

theorem not_stops (ht : t.OfCandidate c) : ¬ t.Stops := by
  rintro (hstop | hstop)
  · rcases ht with ⟨frame, ht⟩ | ht | ht
    · cases hstop.symm.trans ht
    · cases hstop.symm.trans ht
    · cases hstop.symm.trans ht
  · rcases ht.not_recv hstop with ⟨frame, heq⟩ | heq
    · cases heq
    · cases heq

end Turn.OfCandidate

/-! ## 2. What such an event does -/

/-- The note that home is back goes to every phone that is ready, once, and nothing else goes
out. -/
structure TellsBack (h : Hub) (out : List Effect) : Prop where
  ready : ∀ eff, eff ∈ out ↔
    ∃ p, h.phones.lookup p = some .ready ∧ eff = .toPhone p (hostAwayNote false)
  once : ((out.filterMap Effect.text).map Prod.fst).Nodup

/-- What an event of the candidate `c` leaves alone, and what it sends. -/
structure Unseen (c : Incoming) (h h' : Hub) (out : List Effect) : Prop where
  phones : h'.phones = h.phones
  watchers : h'.watchers = h.watchers
  driver : h'.driver = h.driver
  reverse : h'.reverse = h.reverse
  claims : h'.claims = h.claims
  /-- Nothing is sent on the serving link. -/
  incumbent : ∀ g msg, h.home.mux = some g → .toHome g msg ∉ out
  /-- Nothing is sent to phones, or the candidate is promoted, there was no serving link, and
  the phones that are ready are told that home is back. -/
  silent : (∀ p m, .toPhone p m ∉ out) ∨
    (h.home.mux = none ∧ h'.home = .sole ⟨c.link⟩ ∧ TellsBack h out)

theorem Hub.broadcastAway_tellsBack (h : Hub) : TellsBack h (h.broadcastAway false) where
  ready eff := by
    constructor
    · intro heff
      obtain ⟨p, m, rfl⟩ := ToPhones.broadcastAway h false eff heff
      obtain ⟨hp, rfl⟩ := mem_broadcastAway.mp heff
      exact ⟨p, hp, rfl⟩
    · rintro ⟨p, hp, rfl⟩
      exact mem_broadcastAway.mpr ⟨hp, rfl⟩
  once := by
    -- The phones are keys of the table, so none of them comes twice.
    have hkeys : (h.phones.entries.map Sigma.fst).Nodup := h.phones.nodupKeys
    refine hkeys.sublist ?_
    unfold broadcastAway
    induction h.phones.entries with
    | nil => exact List.Sublist.slnil
    | cons slot slots ih =>
      obtain ⟨p, phone⟩ := slot
      cases phone with
      | connected => exact ih.cons p
      | ready => exact ih.cons_cons p

/-- **A candidate's own steps are unseen.** -/
theorem HubStep.unseen {t : Turn} {h h' : Hub} {out : List Effect} (hs : HubStep t h h' out)
    {c : Incoming} (hc : h.home.candidate = some c) (hne : h.home.mux ≠ some c.gen)
    (ht : t.OfCandidate c) : Unseen c h h' out := by
  have hquiet : h'.phones = h.phones → h'.watchers = h.watchers → h'.driver = h.driver →
      h'.reverse = h.reverse → h'.claims = h.claims →
      (∀ eff ∈ out, (∃ g, eff = .halt g) ∨ ∃ msg, eff = .toHome c.gen msg) →
      Unseen c h h' out := by
    intro hphones hwatchers hdriver hreverse hclaims hout
    refine ⟨hphones, hwatchers, hdriver, hreverse, hclaims, fun g msg hm hmem => ?_,
      .inl fun p m hmem => ?_⟩
    · rcases hout _ hmem with ⟨g', heq⟩ | ⟨msg', heq⟩
      · cases heq
      · cases heq
        exact hne hm
    · rcases hout _ hmem with ⟨g', heq⟩ | ⟨msg', heq⟩
      · cases heq
      · cases heq
  have hmine : ∀ {c' : Incoming}, h.home.candidate = some c' → c' = c := fun hc' =>
    Option.some.inj (hc'.symm.trans hc)
  -- What only the serving link can do, or a phone, is not an event of the candidate.
  have hmux : ∀ {g msg}, t.FromHome g msg → h.home.mux ≠ some g := fun hg => ht.gen_eq hg ▸ hne
  cases hs with
  | ignored => exact hquiet rfl rfl rfl rfl rfl (by simp)
  | accepted hin =>
    rcases ht.not_recv hin with ⟨frame, heq⟩ | heq
    · cases heq
    · cases heq
  | candidateGone hc' why => exact hquiet rfl rfl rfl rfl rfl (by simp)
  | candidateRefused hc' hin hv => exact hquiet rfl rfl rfl rfl rfl (by simp)
  | candidateFailed hc' hset he => exact hquiet rfl rfl rfl rfl rfl (by simp)
  | refusalCleared hc' hin => exact hquiet rfl rfl rfl rfl rfl (by simp)
  | registered hc' hin => exact hquiet rfl rfl rfl rfl rfl (by simp)
  | initializing hc' why =>
    obtain rfl := hmine hc'
    exact hquiet rfl rfl rfl rfl rfl (by simp)
  | answerDropped hset hw => exact hquiet rfl rfl rfl rfl rfl (by simp)
  | relayed hset hm => exact absurd hm (hmux hset.said)
  | loading hc' hset he hwatched =>
    obtain rfl := hmine hc'
    refine hquiet rfl rfl rfl rfl rfl fun eff heff => ?_
    obtain ⟨e, -, rfl⟩ := List.mem_map.mp heff
    exact .inr ⟨_, rfl⟩
  | loadAnswered hc' hset hp => exact hquiet rfl rfl rfl rfl rfl (by simp)
  | promoted hc' why =>
    obtain rfl := hmine hc'
    cases hm : h.home.mux with
    | some g =>
      rw [hm] at hquiet
      exact hquiet rfl rfl rfl rfl rfl (by simp [Hub.promotionOut])
    | none =>
      refine ⟨rfl, rfl, rfl, rfl, rfl, fun g msg hg => ?_, .inr ⟨hm, rfl, ?_⟩⟩
      · rw [hm] at hg
        cases hg
      · exact h.broadcastAway_tellsBack
  | muxLost hm hin =>
    rcases hin with hin | ⟨message, hin⟩
    · rcases ht.not_recv hin with ⟨frame, heq⟩ | heq
      · cases heq
      · obtain rfl := ToHub.homeEof.inj heq
        exact absurd hm hne
    · exact absurd hm (hmux hin)
  | notified hm hin hmethod hid => exact absurd hm (hmux hin)
  | asked hm hin hmethod hid hsession htargets => exact absurd hm (hmux hin)
  | hello hin =>
    rcases ht.not_recv hin with ⟨frame, heq⟩ | heq
    · cases heq
    · cases heq
  | refused hin hp hcode => exact absurd hin (ht.not_phoneText _ _)
  | initialized hin hid hmethod hp => exact absurd hin (ht.not_phoneSays _ _)
  | requestAway hin hp hmethod hid hf hm => exact absurd hin (ht.not_phoneSays _ _)
  | requestForwarded hin hp hmethod hid hf hm => exact absurd hin (ht.not_phoneSays _ _)
  | notificationForwarded hin hp hmethod hid hm => exact absurd hin (ht.not_phoneSays _ _)
  | replied hin hp hmethod hreply hid hkey hopen => exact absurd hin (ht.not_phoneSays _ _)
  | replyDropped hin hp hmethod hreply hid hkey htaken hclaims =>
    exact absurd hin (ht.not_phoneSays _ _)
  | phoneLeft hin =>
    rcases ht.not_recv hin with ⟨frame, heq⟩ | heq
    · cases heq
    · cases heq

/-! ## 3. In every state -/

/-- **A candidate is invisible to phones**, in every state and whatever happens on its link: the
phones, the session tables and the requests from home are as before, nothing goes out on the
serving link, and nothing to phones, but for the note that home is back. -/
theorem candidate_invisible (ts : List Turn) (t : Turn) (c : Incoming)
    (hc : (Hub.run.final ts).hub.home.candidate = some c) (ht : t.OfCandidate c) :
    Unseen c (Hub.run.final ts).hub (Hub.run.step (Hub.run.final ts) t).1.hub
      (Hub.run.step (Hub.run.final ts) t).2 := by
  obtain ⟨-, heq⟩ | ⟨-, hstop, -⟩ | ⟨-, h', out, heq, hs⟩ := turn_cases ts t
  · rw [heq]
    exact ⟨rfl, rfl, rfl, rfl, rfl, fun _ _ _ hmem => List.not_mem_nil hmem,
      .inl fun _ _ hmem => List.not_mem_nil hmem⟩
  · exact absurd hstop ht.not_stops
  · rw [heq]
    exact hs.unseen hc (candidate_ne_mux ts hc) ht

/-- Link 2 replays the history of the session `a`, which phone 1 watches, while link 1
serves. -/
theorem candidate_invisible_of_replay :
    Unseen (.waitRegistered ⟨2⟩ 10000)
      (Hub.run.final (Turn.bringUp ++ [.phone 1 (request (.ofU64 1) "session/load" "a"),
        .get .accepted])).hub
      (Hub.run.step (Hub.run.final (Turn.bringUp ++
        [.phone 1 (request (.ofU64 1) "session/load" "a"), .get .accepted]))
        (.home 2 (Obj.ofFields [("method", .str "session/update"),
          ("params", .obj (Obj.ofFields [("sessionId", .str "a")]))]))).1.hub
      (Hub.run.step (Hub.run.final (Turn.bringUp ++
        [.phone 1 (request (.ofU64 1) "session/load" "a"), .get .accepted]))
        (.home 2 (Obj.ofFields [("method", .str "session/update"),
          ("params", .obj (Obj.ofFields [("sessionId", .str "a")]))]))).2 :=
  candidate_invisible _ _ _ (by decide +kernel) (.inl ⟨_, rfl⟩)

end Aqualung
