/-
# A bring-up completes

A candidate is promoted when it has answered what the hub has asked it, one thing after the other.
The hub keeps what it waits for in the phase of the candidate and in `outstanding`, and the two are
kept apart, so it could wait for something that has come already.

`Awaits` says that it does not: what it waits for has been asked of the candidate, and has not come
since, unless another link has answered it (`Stolen`; `Hub/Owners.lean` says how).  It is kept
because each phase is LEFT in the turn in which what it waits for comes: section 2, with one lemma
for each phase.  From there `bring_up_completes` says that a link that has done its part is serving,
whatever the phones and the other links have done meanwhile: the last thing it did has ended the
last phase.

Nobody waits for what does not come, either: in the phases before `initialize` there is a deadline.
`deadline_strikes` says whom it strikes, and when, from the history of the link.
-/
import Aqualung.Hub.Handshake
import Aqualung.Hub.Owners
import Aqualung.Hub.Pending

namespace Aqualung

open Lib

/-! ## 1. What the hub is owed -/

/-- Another link than `g` has answered the request `n`. -/
def Stolen (g : HomeGen) (hist : List Line) (n : HomeReqId) : Prop :=
  ∃ e ∈ hist, ∃ g' r, g' ≠ g ∧ (hubOf e).home.Holds g' ∧ e.input.AnswersFrom g' n r

/-- The hub waits for the answer to the request `n` of the link `g`, which has not come in
`since`; or another link has given it. -/
def Owed (h : Hub) (since : List Line) (g : HomeGen) (n : HomeReqId) (w : Wait) : Prop :=
  (h.outstanding.lookup n = some w ∧ ¬ Answered g since n) ∨ Stolen g since n

theorem Stolen.append {g : HomeGen} {hist : List Line} {n : HomeReqId} (h : Stolen g hist n)
    (hist' : List Line) : Stolen g (hist ++ hist') n := by
  obtain ⟨e, he, hstolen⟩ := h
  exact ⟨e, List.mem_append_left _ he, hstolen⟩

theorem Answered.snoc_iff {g : HomeGen} {hist : List Line} {e : Line} {n : HomeReqId} :
    Answered g (hist ++ [e]) n ↔ Answered g hist n ∨ ∃ r, e.input.AnswersFrom g n r := by
  constructor
  · rintro ⟨e', he', r, hsaid, hanswer, hid⟩
    rcases List.mem_append.mp he' with he' | he'
    · exact .inl ⟨e', he', r, hsaid, hanswer, hid⟩
    · obtain rfl := List.mem_singleton.mp he'
      exact .inr ⟨r, hsaid, hanswer, hid⟩
  · rintro (h | ⟨r, hsaid, hanswer, hid⟩)
    · exact h.append [e]
    · exact ⟨e, List.mem_append_right _ (List.mem_singleton_self e), r, hsaid, hanswer, hid⟩

/-- What is owed stays owed until it is answered. -/
theorem Owed.append {hist : List Line} {h h' : Hub} {t : Turn} {out : List Effect}
    (hr : Run hist h) (hs : HubStep t h h' out) {since : List Line} {g : HomeGen} {n : HomeReqId}
    {w : Wait} (howed : Owed h since g n w)
    (hnot : h.outstanding.lookup n = some w → ∀ r, ¬ t.AnswersFrom g n r) :
    Owed h' (since ++ [⟨⟨h, false⟩, t, out⟩]) g n w := by
  rcases howed with ⟨hw, hnone⟩ | hstolen
  · have hle := hr.outstanding_le n w hw
    have hnone' : ¬ Answered g (since ++ [⟨⟨h, false⟩, t, out⟩]) n := fun hans => by
      rcases Answered.snoc_iff.mp hans with hans | ⟨r, hans⟩
      · exact hnone hans
      · exact hnot hw r hans
    cases hs.entry n with
    | kept heq => exact .inl ⟨heq.trans hw, hnone'⟩
    | initializing hc hn => lia
    | loading hc hn => exact absurd (Hub.mem_loads_bounds hn).1 (not_lt.mpr hle)
    | forwarding ht hp hreq hid hm hn => lia
    | @settled g' r w' hset heq =>
      have hans : t.AnswersFrom g' n r := ⟨hset.said, hset.answer, hset.id_eq⟩
      have hne : g' ≠ g := by
        rintro rfl
        exact hnot hw r hans
      exact
        .inr ⟨_, List.mem_append_right _ (List.mem_singleton_self _), g', r, hne, hset.held, hans⟩
  · exact .inr (hstolen.append _)

/-! ## 2. What an answer of the candidate does -/

section

variable {hist : List Line} {h h' : Hub} {t : Turn} {out : List Effect} {link : Link}
  {n : HomeReqId} {r : Obj}

/-- A candidate that says it is ready is not waited for any more. -/
theorem turn_leaderReady (hturn : Loop.turn ⟨h, false⟩ t = (⟨h', false⟩, out)) {d : Instant}
    (hc : h.home.candidate = some (.waitReady link d)) (hm : h.home.mux ≠ some link.homeGen)
    (ht : t.FromHome link.homeGen .leaderReady) : h'.home.candidate ≠ h.home.candidate := by
  have hrole : h.role link.homeGen = .candidate := Hub.role_eq_candidate.mpr ⟨hm, _, hc, rfl⟩
  have hready : Loop.turn ⟨h, false⟩ t
      = (⟨(h.onLeaderReady link.homeGen).1, false⟩, (h.onLeaderReady link.homeGen).2) := by
    simp [Loop.turn, show t.input = .recv (.homeFrame link.homeGen .leaderReady) from ht,
      Hub.handle, Hub.onHomeFrame, hrole]
  rw [hready] at hturn
  obtain rfl : (h.onLeaderReady link.homeGen).1 = h' := congrArg (fun x => x.1.hub) hturn
  have htake := Hub.takeCandidate_of_candidate hc
  unfold Hub.onLeaderReady
  rw [show link.homeGen = (Incoming.waitReady link d).gen from rfl, htake, hc]
  simp [Hub.putCandidate_ofMux, Hub.sendFollowerInitialize, Hub.allocReq]

/-- The home after an answer of the candidate. -/
theorem turn_of_candidate_answer (hturn : Loop.turn ⟨h, false⟩ t = (⟨h', false⟩, out))
    {c : Incoming} (hc : h.home.candidate = some c) (ht : t.AnswersFrom c.gen n r) :
    h' = (h.onHomeResult c.gen r).1 := by
  have hheld : h.home.Holds c.gen := .inr (by rw [hc]; rfl)
  rw [turn_answer hheld ht.said ht.answer] at hturn
  exact (congrArg (fun x => x.1.hub) hturn).symm

/-- `after_follower_initialize`, for a candidate that waits for it. -/
theorem Hub.afterFollowerInitialize_leaves (hc : h.home.candidate = some (.waitInitialize link)) :
    (h.afterFollowerInitialize link.homeGen).1.home.candidate ≠ h.home.candidate := by
  have htake := takeCandidate_of_candidate hc
  unfold afterFollowerInitialize
  rw [show link.homeGen = (Incoming.waitInitialize link).gen from rfl, htake, hc]
  simp only [PendingLoads.start_countUp]
  by_cases hempty : h.watchers.keys.toFinset = ∅
  · simp only [if_pos hempty, finishSuccessor_ofMux]
    simp
  · simp only [if_neg hempty, putCandidate_ofMux]
    simp

/-- `loaded` takes away a load that is in progress. -/
theorem PendingLoads.loaded_takes {p : PendingLoads} (hids : (p.loadIds.map Prod.fst).Nodup)
    {s : SessionId} (hl : (n, s) ∈ p.loadIds) :
    p.loaded n = .done ∨ ∃ p', p.loaded n = .more p' ∧ p' ≠ p := by
  have hget : bget p.loadIds n = some s := (bget_eq_some_iff hids).mpr hl
  simp only [loaded, hget]
  split
  · exact .inl rfl
  · refine .inr ⟨_, rfl, fun heq => ?_⟩
    rw [← heq] at hl
    simp at hl

/-- `after_load_result`, for a candidate that waits for the load. -/
theorem Hub.afterLoadResult_leaves {pending : PendingLoads} {s : SessionId}
    (hc : h.home.candidate = some (.waitLoads link pending))
    (hids : (pending.loadIds.map Prod.fst).Nodup) (hl : (n, s) ∈ pending.loadIds) :
    (h.afterLoadResult link.homeGen n).1.home.candidate ≠ h.home.candidate := by
  have htake := takeCandidate_of_candidate hc
  unfold afterLoadResult
  rw [show link.homeGen = (Incoming.waitLoads link pending).gen from rfl, htake, hc]
  rcases PendingLoads.loaded_takes hids hl with hdone | ⟨pending', hmore, hne⟩
  · simp [hdone, finishSuccessor_ofMux]
  · simpa [hmore, putCandidate_ofMux] using hne

theorem role_erase {c : Incoming} (hc : h.home.candidate = some c) (hm : h.home.mux ≠ some c.gen) :
    Hub.role { h with outstanding := h.outstanding.erase n } c.gen = .candidate :=
  Hub.role_eq_candidate.mpr ⟨hm, c, hc, rfl⟩

/-- A candidate that answers `initialize` is not waited for any more. -/
theorem turn_initialize_answered (hturn : Loop.turn ⟨h, false⟩ t = (⟨h', false⟩, out))
    (hc : h.home.candidate = some (.waitInitialize link)) (hm : h.home.mux ≠ some link.homeGen)
    (hw : h.outstanding.lookup n = some .hubInitialize) (ht : t.AnswersFrom link.homeGen n r) :
    h'.home.candidate ≠ h.home.candidate := by
  rw [turn_of_candidate_answer hturn hc ht]
  have hparse : r.id.bind Json.asU64 = some n := by
    rw [ht.id_eq]
    rfl
  have hrole := role_erase (n := n) hc hm
  have hfail := Hub.failIncoming_of_candidate
    (h := { h with outstanding := h.outstanding.erase n }) (c := .waitInitialize link) hc
  have hafter := Hub.afterFollowerInitialize_leaves
    (h := { h with outstanding := h.outstanding.erase n }) hc
  unfold Hub.onHomeResult
  simp only [hparse, hw, hrole, ne_eq, not_true_eq_false, if_false]
  split
  · rw [hfail, hc]
    simp
  · exact hafter

/-- A candidate that answers a load is not waited for with it any more. -/
theorem turn_load_answered (hturn : Loop.turn ⟨h, false⟩ t = (⟨h', false⟩, out))
    {pending : PendingLoads} {s : SessionId}
    (hc : h.home.candidate = some (.waitLoads link pending)) (hm : h.home.mux ≠ some link.homeGen)
    (hids : (pending.loadIds.map Prod.fst).Nodup) (hl : (n, s) ∈ pending.loadIds)
    (hw : h.outstanding.lookup n = some .hubLoad) (ht : t.AnswersFrom link.homeGen n r) :
    h'.home.candidate ≠ h.home.candidate := by
  rw [turn_of_candidate_answer hturn hc ht]
  have hparse : r.id.bind Json.asU64 = some n := by
    rw [ht.id_eq]
    rfl
  have hrole := role_erase (n := n) hc hm
  unfold Hub.onHomeResult
  simp only [hparse, hw, hrole, ne_eq, not_true_eq_false, if_false]
  exact Hub.afterLoadResult_leaves (h := { h with outstanding := h.outstanding.erase n }) hc hids hl

end

/-! ## 3. What the hub waits for -/

/-- What the hub waits for, by the phase of the candidate: it has asked for it in the line `e`, and
it has not come in `mid`. -/
inductive Awaits (hist : List Line) (h : Hub) : Incoming → Prop
  /-- The link has been accepted and has not registered. -/
  | waitRegistered {link : Link} {pre mid : List Line} {e : Line} (hsplit : hist = pre ++ e :: mid)
      (hbound : .bindGen link.homeGen ∈ e.out)
      (hheard : ∀ r v, .registered r v ∉ heard link.homeGen hist) :
      Awaits hist h (.waitRegistered link (e.input.now + REGISTER_WAIT))
  /-- It has registered, was not ready, and has not said since that it is. -/
  | waitReady {link : Link} {pre mid : List Line} {e : Line} (hsplit : hist = pre ++ e :: mid)
      (hsaid : e.input.FromHome link.homeGen (.registered false 1))
      (hheld : (hubOf e).home.Holds link.homeGen)
      (hbefore : ∀ r v, .registered r v ∉ heard link.homeGen pre)
      (hafter : .leaderReady ∉ heard link.homeGen mid) :
      Awaits hist h (.waitReady link (e.input.now + READY_WAIT))
  | waitInitialize {link : Link} {pre mid : List Line} {e : Line} {n : HomeReqId}
      (hsplit : hist = pre ++ e :: mid) (hready : Handshaken (heard link.homeGen hist))
      (hsent : followerInitialize n ∈ queued link.homeGen [e])
      (howed : Owed h mid link.homeGen n .hubInitialize) :
      Awaits hist h (.waitInitialize link)
  | waitLoads {link : Link} {pending : PendingLoads} {pre mid : List Line} {e : Line}
      (hsplit : hist = pre ++ e :: mid) (hready : Handshaken (heard link.homeGen hist))
      (hne : pending.remaining ≠ ∅)
      (howed : ∀ l ∈ pending.loadIds, sessionLoad l.1 l.2 ∈ queued link.homeGen [e] ∧
        Owed h mid link.homeGen l.1 .hubLoad) :
      Awaits hist h (.waitLoads link pending)

theorem Handshaken.append {frames : List LeaderServer} (h : Handshaken frames)
    (frames' : List LeaderServer) : Handshaken (frames ++ frames') := by
  obtain ⟨before, ready, after, rfl, hbefore, hready⟩ := h
  refine ⟨before, ready, after ++ frames', by simp, hbefore, fun hf => ?_⟩
  exact List.mem_append_left _ (hready hf)

theorem split_append {hist pre mid : List Line} {e : Line} (h : hist = pre ++ e :: mid)
    (e' : Line) : hist ++ [e'] = pre ++ e :: (mid ++ [e']) := by
  rw [h]
  simp

theorem heard_split {hist pre mid : List Line} {e : Line} {g : HomeGen} {msg : LeaderServer}
    (hsplit : hist = pre ++ e :: mid) (hsaid : e.input.FromHome g msg)
    (hheld : (hubOf e).home.Holds g) : heard g hist = heard g pre ++ msg :: heard g mid := by
  rw [hsplit, List.append_cons, heard_append, heard_append, heard_of_frame hsaid hheld,
    List.append_assoc, List.singleton_append]

theorem not_answered_nil {g : HomeGen} {n : HomeReqId} : ¬ Answered g [] n := by
  rintro ⟨e, he, -⟩
  cases he

/-- What a call of `loaded` leaves in progress. -/
theorem PendingLoads.loaded_leaves {p p' : PendingLoads} {id : HomeReqId}
    (hids : (p.loadIds.map Prod.fst).Nodup) (hne : p.remaining ≠ ∅)
    (hp : p.loaded id = .more p' ∨ p.loaded id = .ignore p') :
    p'.remaining ≠ ∅ ∧ ∀ l ∈ p'.loadIds, l ∈ p.loadIds ∧ l.1 ≠ id := by
  unfold loaded at hp
  split at hp
  · rename_i hget
    obtain rfl : p = p' := by simpa using hp
    refine ⟨hne, fun l hl => ⟨hl, ?_⟩⟩
    rintro rfl
    exact (bget_eq_none_iff hids).mp hget (List.mem_map_of_mem hl)
  · simp only at hp
    split at hp
    · rcases hp with hp | hp
      · cases hp
      · cases hp
    · rename_i hremaining
      rcases hp with hp | hp
      · cases hp
        refine ⟨hremaining, fun l hl => ?_⟩
        simpa using hl
      · cases hp

/-- The loads in progress have one id and one session each. -/
theorem Run.loads_in_progress {hist : List Line} {h : Hub} (hr : Run hist h) {link : Link}
    {pending : PendingLoads} (hc : h.home.candidate = some (.waitLoads link pending)) :
    (pending.loadIds.map Prod.fst).Nodup ∧
      ∀ s, s ∈ pending.remaining ↔ s ∈ pending.loadIds.map Prod.snd := by
  cases hr.phase _ hc with
  | waitLoads hsplit hg hq hcover => exact ⟨hcover.ids, hcover.remaining⟩

theorem mem_queued {g : HomeGen} {e : Line} {m : Obj} (h : .toHome g (.acp m) ∈ e.out) :
    m ∈ queued g [e] :=
  mem_collect.mpr ⟨e, List.mem_singleton_self e, _, h, Effect.acpOn_eq_some.mpr rfl⟩

/-- The line in which the follower `initialize` goes out completes the registration. -/
theorem Awaits.handshaken {hist : List Line} {h : Hub} {c : Incoming} (ha : Awaits hist h c)
    {t : Turn} {refused : Option Nat} (why : Initializing t h c refused)
    (hheld : h.home.Holds c.gen) {out : List Effect} :
    Handshaken (heard c.gen (hist ++ [⟨⟨h, false⟩, t, out⟩])) := by
  rw [heard_append]
  rcases why with ⟨link, d, rfl, ht, -⟩ | ⟨link, d, rfl, ht, -⟩
  · rw [heard_of_frame ht hheld]
    cases ha with
    | waitRegistered hsplit hbound hheard =>
      exact ⟨_, true, [], rfl, hheard, fun hf => by cases hf⟩
  · rw [heard_of_frame ht hheld]
    cases ha with
    | @waitReady _ pre mid e hsplit hsaid hheld' hbefore hafter =>
      refine ⟨heard link.homeGen pre, false, heard link.homeGen mid ++ [.leaderReady], ?_, hbefore,
        fun _ => List.mem_append_right _ (List.mem_singleton_self _)⟩
      change heard link.homeGen hist ++ _ = _
      rw [heard_split hsplit hsaid hheld']
      simp

/-- **The hub waits for nothing that has come.** -/
theorem Run.awaits {hist : List Line} {h : Hub} (hr : Run hist h) :
    ∀ c, h.home.candidate = some c → Awaits hist h c := by
  induction hr with
  | start => exact fun c hc => by cases hc
  | @turn hist h h' t out hr hturn ih =>
    have hs := step_of_turn hturn
    -- The candidate stays: what it has been asked for does not come in this turn.
    have hkept : h'.home.candidate = h.home.candidate → ∀ c, h'.home.candidate = some c →
        Awaits (hist ++ [⟨⟨h, false⟩, t, out⟩]) h' c := by
      intro heq c hc'
      have hc : h.home.candidate = some c := heq ▸ hc'
      have hm := hr.candidate_ne_mux hc
      cases ih c hc with
      | @waitRegistered link pre mid e hsplit hbound hheard =>
        refine .waitRegistered (split_append hsplit _) hbound fun r v hmem => ?_
        rw [heard_append] at hmem
        rcases List.mem_append.mp hmem with hmem | hmem
        · exact hheard r v hmem
        · exact turn_registered hturn hc hm (frame_of_heard hmem).1 heq
      | @waitReady link pre mid e hsplit hsaid hheld hbefore hafter =>
        refine .waitReady (split_append hsplit _) hsaid hheld hbefore fun hmem => ?_
        rw [heard_append] at hmem
        rcases List.mem_append.mp hmem with hmem | hmem
        · exact hafter hmem
        · exact turn_leaderReady hturn hc hm (frame_of_heard hmem).1 heq
      | @waitInitialize link pre mid e n hsplit hready hsent howed =>
        refine .waitInitialize (split_append hsplit _) ?_ hsent (howed.append hr hs ?_)
        · rw [heard_append]
          exact hready.append _
        · exact fun hw r hans => turn_initialize_answered hturn hc hm hw hans heq
      | @waitLoads link pending pre mid e hsplit hready hne howed =>
        have hids := (hr.loads_in_progress hc).1
        refine .waitLoads (split_append hsplit _) ?_ hne fun l hl => ?_
        · rw [heard_append]
          exact hready.append _
        · obtain ⟨hsent, hl'⟩ := howed l hl
          refine ⟨hsent, hl'.append hr hs fun hw r hans => ?_⟩
          exact turn_load_answered hturn hc hm hids hl hw hans heq
    intro c' hc'
    cases step_of_turn hturn with
    | accepted ht =>
      rw [Home.candidate_ofParts] at hc'
      obtain rfl := Option.some.inj hc'
      refine .waitRegistered (show _ = hist ++ _ :: [] from rfl) List.mem_cons_self
        fun r v hmem => ?_
      rw [heard_append, (hr.unbound _ (Nat.lt_succ_self _)).2, List.nil_append] at hmem
      have hframe := (frame_of_heard hmem).1
      cases ht.symm.trans hframe
    | candidateGone hc why => simp at hc'
    | candidateRefused hc ht hv => simp at hc'
    | candidateFailed hc hset he => simp at hc'
    | promoted hc why => simp at hc'
    | @registered link d hc ht =>
      rw [Home.candidate_ofParts] at hc'
      obtain rfl := Option.some.inj hc'
      have hheld : h.home.Holds link.homeGen := .inr (by rw [hc]; rfl)
      cases ih _ hc with
      | waitRegistered hsplit hbound hheard =>
        refine .waitReady (show _ = hist ++ _ :: [] from rfl) ht hheld hheard ?_
        exact List.not_mem_nil
    | @initializing c refused hc why =>
      rw [Home.candidate_ofParts] at hc'
      obtain rfl := Option.some.inj hc'
      have hheld : h.home.Holds c.gen := .inr (by rw [hc]; rfl)
      refine .waitInitialize (show _ = hist ++ _ :: [] from rfl) ?_
        (mem_queued (List.mem_singleton_self _))
        (.inl ⟨AList.lookup_insert _, not_answered_nil⟩)
      exact (ih c hc).handshaken why hheld
    | @loading link id obj hc hset he hne =>
      rw [Home.candidate_ofParts] at hc'
      obtain rfl := Option.some.inj hc'
      cases ih _ hc with
      | waitInitialize hsplit hready hsent howed =>
        refine .waitLoads (show _ = hist ++ _ :: [] from rfl) ?_ hne fun l hl => ⟨?_, .inl ⟨?_, ?_⟩⟩
        · rw [heard_append]
          exact hready.append _
        · exact mem_queued (List.mem_map_of_mem hl)
        · have hmem : l.1 ∈ h.loads.map Prod.fst := List.mem_map_of_mem hl
          exact (Table.lookup_insertAll _ _ _ _).trans (if_pos hmem)
        · exact not_answered_nil
    | @loadAnswered link pending pending' id obj hc hset hp =>
      rw [Home.candidate_ofParts] at hc'
      obtain rfl := Option.some.inj hc'
      cases ih _ hc with
      | waitLoads hsplit hready hne howed =>
        obtain ⟨hne', hleft⟩ := PendingLoads.loaded_leaves (hr.loads_in_progress hc).1 hne hp
        refine .waitLoads (split_append hsplit _) ?_ hne' fun l hl => ?_
        · rw [heard_append]
          exact hready.append _
        · obtain ⟨hmem, hother⟩ := hleft l hl
          obtain ⟨hsent, howed⟩ := howed l hmem
          refine ⟨hsent, howed.append hr hs fun _ r hans => hother ?_⟩
          obtain ⟨-, rfl⟩ := hans.said.inj hset.said
          exact Json.ofU64_inj.mp (Option.some.inj (hans.id_eq.symm.trans hset.id_eq))
    | muxLost hm ht => exact hkept (Home.candidate_ofParts _ _) c' hc'
    | _ => exact hkept rfl c' hc'

/-! ## 4. Whoever does its part is served -/

/-- The link has registered and is ready, and it has answered every request that it has been sent,
each after it was sent and before any other link has. -/
structure DoneItsPart (g : HomeGen) (hist : List Line) : Prop where
  registered : Handshaken (heard g hist)
  answered : ∀ pre e mid n, hist = pre ++ e :: mid → SentOn [e] g n →
    Answered g mid n ∧ ¬ Stolen g mid n

theorem Owed.not_settled {h : Hub} {since : List Line} {g : HomeGen} {n : HomeReqId} {w : Wait}
    (h : Owed h since g n w) : ¬ (Answered g since n ∧ ¬ Stolen g since n) := by
  rintro ⟨hans, hown⟩
  rcases h with ⟨-, hnone⟩ | hstolen
  · exact hnone hans
  · exact hown hstolen

/-- A registration comes first in one way only. -/
theorem Handshaken.split {frames before after : List LeaderServer} {ready : Bool} {v : Nat}
    (h : Handshaken frames) (hsplit : frames = before ++ .registered ready v :: after)
    (hbefore : ∀ r v, .registered r v ∉ before) : ready = false → .leaderReady ∈ after := by
  obtain ⟨before', ready', after', rfl, hbefore', hready⟩ := h
  have hnone : ∀ {l : List LeaderServer}, (∀ r v, .registered r v ∉ l) →
      ∀ msg ∈ l, ¬ ∃ r v, msg = .registered r v := by
    rintro l hl msg hmsg ⟨r, v, rfl⟩
    exact hl r v hmsg
  obtain ⟨-, heq, rfl⟩ := split_first hsplit (p := fun msg => ∃ r v, msg = .registered r v)
    ⟨_, _, rfl⟩ ⟨_, _, rfl⟩ (hnone hbefore') (hnone hbefore)
  cases heq
  exact hready

theorem sentOn_followerInitialize {g : HomeGen} {hist : List Line} {n : HomeReqId}
    (h : followerInitialize n ∈ queued g hist) : SentOn hist g n :=
  ⟨_, h, Obj.isRequest_of (method_followerInitialize n) (id_followerInitialize n),
    id_followerInitialize n⟩

theorem sentOn_load {g : HomeGen} {hist : List Line} {n : HomeReqId} {session : SessionId}
    (h : sessionLoad n session ∈ queued g hist) : SentOn hist g n :=
  ⟨_, h, Obj.isRequest_of (method_sessionLoad n session) (id_sessionLoad n session),
    id_sessionLoad n session⟩

/-- A candidate has not done its part. -/
theorem Run.not_done {hist : List Line} {h : Hub} (hr : Run hist h) {c : Incoming}
    (hc : h.home.candidate = some c) : ¬ DoneItsPart c.gen hist := by
  rintro ⟨hready, hans⟩
  cases hr.awaits c hc with
  | waitRegistered hsplit hbound hheard =>
    obtain ⟨before, ready, after, heq, -⟩ := hready
    have hmem : .registered ready 1 ∈ before ++ .registered ready 1 :: after :=
      List.mem_append_right _ List.mem_cons_self
    exact hheard ready 1 (heq ▸ hmem)
  | waitReady hsplit hsaid hheld hbefore hafter =>
    exact hafter (hready.split (heard_split hsplit hsaid hheld) hbefore rfl)
  | waitInitialize hsplit hready' hsent howed =>
    exact howed.not_settled (hans _ _ _ _ hsplit (sentOn_followerInitialize hsent))
  | waitLoads hsplit hready' hne howed =>
    obtain ⟨s, hs⟩ := Finset.nonempty_iff_ne_empty.mpr hne
    obtain ⟨l, hl, rfl⟩ := List.mem_map.mp ((hr.loads_in_progress hc).2 s |>.mp hs)
    obtain ⟨hsent, howed⟩ := howed l hl
    exact howed.not_settled (hans _ _ _ _ hsplit (sentOn_load hsent))

/-- The hub waits for nothing that has come, and so it serves whoever has done its part. -/
structure BringUpCompletes (ts : List Turn) : Prop where
  waits : ∀ c, (Hub.run.final ts).hub.home.candidate = some c →
    Awaits (Hub.run.history ts) (Hub.run.final ts).hub c
  serves : ∀ g, (Hub.run.final ts).hub.home.Holds g → DoneItsPart g (Hub.run.history ts) →
    (Hub.run.final ts).hub.home.mux = some g

/-- **A bring-up completes**, whatever the phones and the other links do meanwhile.  A candidate
that has done its part cannot still be a candidate: in each phase there is something that the hub
awaits, and by `Awaits` the link has not done that (`Run.not_done`). -/
theorem bring_up_completes (ts : List Turn) : BringUpCompletes ts := by
  constructor
  case waits =>
    intro c hc
    have hheld : (Hub.run.final ts).hub.home.Holds c.gen := .inr (by rw [hc]; rfl)
    exact (running (running_of_holds hheld)).awaits c hc
  case serves =>
    intro g hheld hdone
    have hr := running (running_of_holds hheld)
    rcases hheld with hm | hc
    · exact hm
    · obtain ⟨c, hcand, rfl⟩ := Option.map_eq_some_iff.mp hc
      exact absurd hdone (hr.not_done hcand)

/-! ## 5. Whoever is silent is dropped -/

/-- At `now` the link has been silent for too long: it has not registered, or it has registered and
was not ready, and has not said since that it is. -/
def Overdue (hist : List Line) (now : Instant) (g : HomeGen) : Prop :=
  (∃ pre e mid, hist = pre ++ e :: mid ∧ .bindGen g ∈ e.out ∧
      (∀ r v, .registered r v ∉ heard g hist) ∧ e.input.now + REGISTER_WAIT ≤ now) ∨
    ∃ pre e mid, hist = pre ++ e :: mid ∧ e.input.FromHome g (.registered false 1) ∧
      (hubOf e).home.Holds g ∧ (∀ r v, .registered r v ∉ heard g pre) ∧
      .leaderReady ∉ heard g mid ∧ e.input.now + READY_WAIT ≤ now

theorem mem_heard {g : HomeGen} {hist : List Line} {e : Line} {msg : LeaderServer} (he : e ∈ hist)
    (hsaid : e.input.FromHome g msg) (hheld : (hubOf e).home.Holds g) : msg ∈ heard g hist := by
  obtain ⟨pre, post, rfl⟩ := List.append_of_mem he
  rw [heard_split rfl hsaid hheld]
  exact List.mem_append_right _ List.mem_cons_self

theorem Handshaken.registered {frames : List LeaderServer} (h : Handshaken frames) :
    ∃ r v, .registered r v ∈ frames := by
  obtain ⟨before, ready, after, rfl, -⟩ := h
  exact ⟨ready, 1, List.mem_append_right _ List.mem_cons_self⟩

/-- A generation is bound once. -/
theorem Run.bound_once {hist : List Line} {h : Hub} (hr : Run hist h) {pre mid : List Line}
    {e : Line} {g : HomeGen} (hsplit : hist = pre ++ e :: mid) (hbound : .bindGen g ∈ e.out) :
    ∀ x ∈ pre, .bindGen g ∉ x.out := by
  obtain ⟨ts, rfl, -⟩ := hr.exists_turns
  intro x hx hx'
  have hnodup := nodup_bound ts
  rw [hsplit, List.append_cons, collect_append, collect_append] at hnodup
  have hfirst : g ∈ collect Effect.bound pre := mem_collect.mpr ⟨x, hx, _, hx', rfl⟩
  have hsecond : g ∈ collect Effect.bound [e] :=
    mem_collect.mpr ⟨e, List.mem_singleton_self e, _, hbound, rfl⟩
  exact List.disjoint_of_nodup_append hnodup.of_append_left hfirst hsecond

/-- The deadline of a candidate has passed when it has been silent for too long. -/
theorem Run.overdue_iff {hist : List Line} {h : Hub} (hr : Run hist h) {c : Incoming}
    (hc : h.home.candidate = some c) (now : Instant) :
    Overdue hist now c.gen ↔ ∃ d, c.deadline = some d ∧ d ≤ now := by
  have hawaits := hr.awaits c hc
  constructor
  · rintro (⟨pre, e, mid, hsplit, hbound, hheard, hle⟩ |
      ⟨pre, e, mid, hsplit, hsaid, hheld, hbefore, hafter, hle⟩)
    · have hnot : ¬ Handshaken (heard c.gen hist) := fun hready => by
        obtain ⟨r, v, hmem⟩ := hready.registered
        exact hheard r v hmem
      cases hawaits with
      | waitRegistered hsplit' hbound' hheard' =>
        obtain ⟨-, rfl, -⟩ := split_first (hsplit.symm.trans hsplit') hbound hbound'
          (hr.bound_once hsplit hbound) (hr.bound_once hsplit' hbound')
        exact ⟨_, rfl, hle⟩
      | waitReady hsplit' hsaid' hheld' hbefore' hafter' =>
        refine absurd (mem_heard ?_ hsaid' hheld') (hheard false 1)
        rw [hsplit']
        exact List.mem_append_right _ List.mem_cons_self
      | waitInitialize hsplit' hready' hsent' howed' => exact absurd hready' hnot
      | waitLoads hsplit' hready' hne' howed' => exact absurd hready' hnot
    · have hheard := heard_split hsplit hsaid hheld
      cases hawaits with
      | waitRegistered hsplit' hbound' hheard' =>
        refine absurd ?_ (hheard' false 1)
        exact hheard ▸ List.mem_append_right _ List.mem_cons_self
      | @waitReady link pre' mid' e' hsplit' hsaid' hheld' hbefore' hafter' =>
        have hnone : ∀ {l : List Line}, (∀ r v, .registered r v ∉ heard link.homeGen l) →
            ∀ x ∈ l, ¬ ∃ r v, x.input.FromHome link.homeGen (.registered r v) ∧
              (hubOf x).home.Holds link.homeGen := by
          rintro l hl x hx ⟨r, v, hx'⟩
          exact hl r v (mem_heard hx hx'.1 hx'.2)
        obtain ⟨-, rfl, -⟩ := split_first (hsplit.symm.trans hsplit') ⟨_, _, hsaid, hheld⟩
          ⟨_, _, hsaid', hheld'⟩ (hnone hbefore) (hnone hbefore')
        exact ⟨_, rfl, hle⟩
      | waitInitialize hsplit' hready' hsent' howed' =>
        exact absurd (hready'.split hheard hbefore rfl) hafter
      | waitLoads hsplit' hready' hne' howed' =>
        exact absurd (hready'.split hheard hbefore rfl) hafter
  · rintro ⟨d, hd, hle⟩
    cases hawaits with
    | waitRegistered hsplit hbound hheard =>
      cases hd
      exact .inl ⟨_, _, _, hsplit, hbound, hheard, hle⟩
    | waitReady hsplit hsaid hheld hbefore hafter =>
      cases hd
      exact .inr ⟨_, _, _, hsplit, hsaid, hheld, hbefore, hafter, hle⟩
    | _ => cases hd

/-- What the hub does when its sleep has ended: it drops a candidate that has been silent for too
long, and nothing else. -/
inductive DeadlineStrikes (ts : List Turn) (now : Instant) (order : IterOrder) : Prop
  | dropped {c : Incoming} (hc : (Hub.run.final ts).hub.home.candidate = some c)
      (hsilent : Overdue (Hub.run.history ts) now c.gen)
      (heq : Hub.run.step (Hub.run.final ts) ⟨.deadline, now, order⟩
        = (⟨{ (Hub.run.final ts).hub with
            home := Home.ofParts (Hub.run.final ts).hub.home.mux none }, false⟩, [.halt c.gen]))
  | kept (hnone : ∀ c, (Hub.run.final ts).hub.home.candidate = some c →
        ¬ Overdue (Hub.run.history ts) now c.gen)
      (heq : Hub.run.step (Hub.run.final ts) ⟨.deadline, now, order⟩ = (Hub.run.final ts, []))

theorem turn_deadline {h : Hub} {c : Incoming} (hc : h.home.candidate = some c) {d now : Instant}
    (hd : c.deadline = some d) (hle : d ≤ now) (order : IterOrder) :
    Loop.turn ⟨h, false⟩ ⟨.deadline, now, order⟩
      = (⟨{ h with home := Home.ofParts h.home.mux none }, false⟩, [.halt c.gen]) := by
  have hdrop := Hub.onDeadline_of_candidate hc (by rw [hd]; rfl)
  simp [Loop.turn, Hub.currentDeadline_eq, hc, hd, hle, hdrop]

theorem turn_no_deadline {l : Loop} {now : Instant}
    (hnone : ∀ c d, l.hub.home.candidate = some c → c.deadline = some d → ¬ d ≤ now)
    (order : IterOrder) : Loop.turn l ⟨.deadline, now, order⟩ = (l, []) := by
  unfold Loop.turn
  split
  · rfl
  · simp only [Hub.currentDeadline_eq]
    cases hc : l.hub.home.candidate with
    | none => rfl
    | some c =>
      cases hd : c.deadline with
      | none => simp [hd]
      | some d => simp [hd, hnone c d hc hd]

/-- **A silent candidate is dropped, and only a silent one.**  The deadline that the hub keeps is
that of the history: the moment of the line in which the phase began, and the time that the phase is
given (`Run.overdue_iff`). -/
theorem deadline_strikes (ts : List Turn) (now : Instant) (order : IterOrder) :
    DeadlineStrikes ts now order := by
  have hoverdue : ∀ c, (Hub.run.final ts).hub.home.candidate = some c →
      (Overdue (Hub.run.history ts) now c.gen ↔ ∃ d, c.deadline = some d ∧ d ≤ now) := by
    intro c hc
    have hheld : (Hub.run.final ts).hub.home.Holds c.gen := .inr (by rw [hc]; rfl)
    exact (running (running_of_holds hheld)).overdue_iff hc now
  by_cases hdue : ∃ c d, (Hub.run.final ts).hub.home.candidate = some c ∧
      c.deadline = some d ∧ d ≤ now
  · obtain ⟨c, d, hc, hd, hle⟩ := hdue
    have hheld : (Hub.run.final ts).hub.home.Holds c.gen := .inr (by rw [hc]; rfl)
    refine .dropped hc ((hoverdue c hc).mpr ⟨d, hd, hle⟩) ?_
    have hstep := turn_deadline hc hd hle order
    rw [← Loop.eq_of_running (running_of_holds hheld)] at hstep
    exact hstep
  · refine .kept (fun c hc hover => ?_) (turn_no_deadline (fun c d hc hd hle => ?_) order)
    · obtain ⟨d, hd, hle⟩ := (hoverdue c hc).mp hover
      exact hdue ⟨c, d, hc, hd, hle⟩
    · exact hdue ⟨c, d, hc, hd, hle⟩

end Aqualung
