/-
# Answers from the wrong link

All links share the table of outstanding requests, and an entry does not say on which link its
request was sent.  An answer from any link in `Home` removes the entry before the role of the
link is looked at, so a link can settle what another one was asked.

`foreign_answers` says exactly when it cannot: when the link is not in `Home`, or the request
has been settled before.  In both cases the answer changes nothing at all, and the owner's own
answer, however late, is accepted as if nothing had been: an entry stays until a link in `Home`
answers it (`outstanding_until_settled`).  `answer_stolen` is a run in which a candidate takes an
answer away from a phone.
-/
import Aqualung.Hub.Links
import Aqualung.Hub.Requests

namespace Aqualung

open Lib

/-! ## 1. The promise -/

/-- The hub has sent the request `n` on the link `g`. -/
def SentOn (hist : List Line) (g : HomeGen) (n : HomeReqId) : Prop :=
  ∃ m ∈ queued g hist, m.isRequest ∧ m.id = some (.ofU64 n)

instance (hist : List Line) (g : HomeGen) (n : HomeReqId) : Decidable (SentOn hist g n) := by
  unfold SentOn
  infer_instance

/-- The turn brings an answer to the request `n` from the link `g`. -/
structure Turn.AnswersFrom (t : Turn) (g : HomeGen) (n : HomeReqId) (r : Obj) : Prop where
  said : t.HomeSays g r
  answer : r.isAnswer
  id_eq : r.id = some (.ofU64 n)

/-- The line brings an answer to the request `n` from a link in `Home`, and the request is
outstanding. -/
def SettledIn (e : Line) (n : HomeReqId) : Prop :=
  ∃ g r w, Settles e.input (hubOf e) g n r w

/-- The turn `t` after `ts` leaves the request `n` to the link `owner`. -/
structure LeftToOwner (ts : List Turn) (t : Turn) (owner : HomeGen) (n : HomeReqId) : Prop where
  outstanding : (Hub.run.final (ts ++ [t])).hub.outstanding = (Hub.run.final ts).hub.outstanding
  phases : (Hub.run.final (ts ++ [t])).hub.home = (Hub.run.final ts).hub.home
  /-- The first answer of the owner, whatever comes before it, is accepted, and it is relayed
  if it answers a phone's request. -/
  accepted : ∀ w, (Hub.run.final ts).hub.outstanding.lookup n = some w → ∀ js,
    (∀ e ∈ Hub.run.historyFrom (Hub.run.final (ts ++ [t])) js, ¬ SettledIn e n) →
    ∀ t' r, t'.AnswersFrom owner n r → (Hub.run.final (ts ++ [t] ++ js)).hub.home.Holds owner →
      n ∈ (Hub.run.final (ts ++ [t] ++ js)).hub.outstanding ∧
        n ∉ (Hub.run.final (ts ++ [t] ++ js ++ [t'])).hub.outstanding ∧
        ∀ p origin, w = .forwarded p origin →
          (Hub.run.final (ts ++ [t] ++ js)).hub.home.mux = some owner →
          (Hub.run.step (Hub.run.final (ts ++ [t] ++ js)) t').2
            = (Hub.run.final (ts ++ [t] ++ js)).hub.sendPhone p (r.withId origin)

/-- Every answer in the turn to a request that was sent on another link leaves the request to
that link. -/
def OwnAnswersOnly (ts : List Turn) (t : Turn) : Prop :=
  ∀ owner g n r, SentOn (Hub.run.history ts) owner n → g ≠ owner → t.AnswersFrom g n r →
    LeftToOwner ts t owner n

/-! ## 2. What an answer does -/

namespace Hub

theorem failIncoming_outstanding (h : Hub) (g : HomeGen) :
    (h.failIncoming g).1.outstanding = h.outstanding := by
  unfold failIncoming
  split
  · split <;> rfl
  · split <;> rfl
  · rfl

theorem finishSuccessor_outstanding (h : Hub) (live : Live) (slot : CandidateSlot) :
    (h.finishSuccessor live slot).1.outstanding = h.outstanding := by
  unfold finishSuccessor
  split
  · rfl
  · split <;> rfl

theorem putCandidate_outstanding (h : Hub) (c : Incoming) (slot : CandidateSlot) :
    (h.putCandidate c slot).outstanding = h.outstanding := by
  unfold putCandidate
  split <;> rfl

theorem takeCandidate_outstanding (h : Hub) (g : HomeGen) :
    (h.takeCandidate g).2.outstanding = h.outstanding ∧
      (h.takeCandidate g).2.nextReq = h.nextReq := by
  unfold takeCandidate
  split
  · split <;> exact ⟨rfl, rfl⟩
  · split <;> exact ⟨rfl, rfl⟩
  · exact ⟨rfl, rfl⟩

theorem afterLoadResult_outstanding (h : Hub) (g : HomeGen) (id : HomeReqId) :
    (h.afterLoadResult g id).1.outstanding = h.outstanding := by
  have htake := (h.takeCandidate_outstanding g).1
  unfold afterLoadResult
  split
  · rename_i heq
    rw [heq] at htake
    exact htake
  · rename_i heq
    rw [heq] at htake
    split
    · exact (putCandidate_outstanding _ _ _).trans htake
    · exact (putCandidate_outstanding _ _ _).trans htake
    · exact (finishSuccessor_outstanding _ _ _).trans htake
  · rename_i heq
    rw [heq] at htake
    exact (putCandidate_outstanding _ _ _).trans htake

/-- The loads that follow an `initialize` take new ids. -/
theorem afterFollowerInitialize_lookup (h : Hub) (g : HomeGen) {n : HomeReqId}
    (hn : n ≤ h.nextReq) :
    (h.afterFollowerInitialize g).1.outstanding.lookup n = h.outstanding.lookup n := by
  obtain ⟨htake, hnext⟩ := h.takeCandidate_outstanding g
  unfold afterFollowerInitialize
  split
  · rename_i heq
    rw [heq] at htake
    exact congrArg _ htake
  · rename_i link slot h₀ heq
    rw [heq] at htake hnext
    rw [PendingLoads.start_countUp]
    by_cases hwatched : h₀.watchers.keys.toFinset = ∅
    · simp only [if_pos hwatched]
      exact congrArg _ ((finishSuccessor_outstanding _ _ _).trans htake)
    · simp only [if_neg hwatched, PendingLoads.requests, putCandidate_outstanding]
      have hfold : ∀ (ls : List (HomeReqId × SessionId)) (m : Table HomeReqId Wait),
          ls.foldl (fun m e => m.insert e.1 Wait.hubLoad) m
            = Table.insertAll (ls.map Prod.fst) .hubLoad m := by
        intro ls m
        rw [Table.insertAll, List.foldl_map]
      have hnew : n ∉ (PendingLoads.numbered h₀.nextReq
          (sorted h₀.watchers.keys.toFinset)).map Prod.fst := by
        have hnext : h₀.nextReq = h.nextReq := hnext
        rw [PendingLoads.map_fst_numbered, List.mem_range'_1]
        lia
      rw [hfold, Table.lookup_insertAll, if_neg hnew]
      exact congrArg _ htake
  · rename_i heq
    rw [heq] at htake
    exact congrArg _ ((putCandidate_outstanding _ _ _).trans htake)

theorem attach_outstanding_eq (h : Hub) (p : PhoneId) (obj : Obj) :
    (h.attach p obj).outstanding = h.outstanding := by
  rw [attach_eq]

/-- **Whoever answers an outstanding request removes it.** -/
theorem onHomeResult_lookup {h : Hub} {n : HomeReqId} {r : Obj} {w : Wait}
    (hid : r.id = some (.ofU64 n)) (hn : n ≤ h.nextReq) (hw : h.outstanding.lookup n = some w)
    (g : HomeGen) : (h.onHomeResult g r).1.outstanding.lookup n = none := by
  have herased : (h.outstanding.erase n).lookup n = none := AList.lookup_erase _ _
  have hparse : r.id.bind Json.asU64 = some n := by
    rw [hid]
    rfl
  unfold onHomeResult
  simp only [hparse, hw]
  cases w with
  | forwarded p origin =>
    simp only
    split
    · exact herased
    · change (attach { h with outstanding := h.outstanding.erase n } p r).outstanding.lookup n
        = none
      rw [attach_outstanding_eq]
      exact herased
  | hubInitialize =>
    simp only
    split
    · exact herased
    · split
      · rw [failIncoming_outstanding]
        exact herased
      · rw [afterFollowerInitialize_lookup _ g (by exact hn)]
        exact herased
  | hubLoad =>
    simp only
    split
    · exact herased
    · rw [afterLoadResult_outstanding]
      exact herased

end Hub

/-! ## 3. An entry waits for its answer -/

/-- An outstanding request stays outstanding until a link in `Home` answers it. -/
theorem outstanding_until_settled (ts js : List Turn) {n : HomeReqId} {w : Wait}
    (hw : (Hub.run.final ts).hub.outstanding.lookup n = some w)
    (hno : ∀ e ∈ Hub.run.historyFrom (Hub.run.final ts) js, ¬ SettledIn e n) :
    (Hub.run.final (ts ++ js)).hub.outstanding.lookup n = some w := by
  induction js using List.reverseRecOn with
  | nil => rwa [List.append_nil]
  | append_singleton js t ih =>
    have hfinal : Hub.run.finalFrom (Hub.run.final ts) js = Hub.run.final (ts ++ js) :=
      (Hub.run.final_append ts js).symm
    rw [Hub.run.historyFrom_append, hfinal] at hno
    have hbefore := ih fun e he => hno e (List.mem_append_left _ he)
    have hline := hno _ (List.mem_append_right _ (List.mem_singleton_self _))
    rw [← List.append_assoc, Hub.run.final_snoc]
    obtain ⟨-, heq⟩ | ⟨-, -, heq⟩ | ⟨hr, h', out, heq, hs⟩ := turn_cases (ts ++ js) t
    · rw [heq]
      exact hbefore
    · rw [heq, Hub.shutdown_eq]
      exact hbefore
    · rw [heq]
      have hle := hr.outstanding_le n w hbefore
      cases hs.entry n with
      | kept hkept => exact hkept.trans hbefore
      | initializing hc hn hnext hentry hout => lia
      | loading hc hn hnext hentry hout => exact absurd (Hub.mem_loads_bounds hn).1 (not_lt.mpr hle)
      | forwarding ht hp hreq hid hm hn hnext hentry hout => lia
      | settled hset hentry hw' => exact absurd ⟨_, _, _, hset⟩ hline

/-- The owner's answer to an outstanding request is accepted, and relayed if a phone waits for
it. -/
theorem owner_accepted {ts : List Turn} {t : Turn} {owner : HomeGen} {n : HomeReqId} {r : Obj}
    {w : Wait} (hw : (Hub.run.final ts).hub.outstanding.lookup n = some w)
    (ht : t.AnswersFrom owner n r) (hheld : (Hub.run.final ts).hub.home.Holds owner) :
    n ∉ (Hub.run.final (ts ++ [t])).hub.outstanding ∧
      ∀ p origin, w = .forwarded p origin → (Hub.run.final ts).hub.home.mux = some owner →
        (Hub.run.step (Hub.run.final ts) t).2
          = (Hub.run.final ts).hub.sendPhone p (r.withId origin) := by
  have hrunning := running_of_holds hheld
  have hle := (running hrunning).outstanding_le n w hw
  rw [Hub.run.final_snoc]
  generalize Hub.run.final ts = l at hw hheld hrunning hle ⊢
  obtain ⟨h, stopped⟩ := l
  obtain rfl : stopped = false := hrunning
  have hturn : Hub.run.step ⟨h, false⟩ t = _ := turn_answer hheld ht.said ht.answer
  rw [hturn]
  constructor
  · rw [← AList.lookup_eq_none]
    exact Hub.onHomeResult_lookup ht.id_eq hle hw owner
  · intro p origin hforwarded hm
    subst hforwarded
    exact Hub.onHomeResult_relays ht.id_eq hm hw

/-! ## 4. Answers from other links -/

/-- **A link settles only its own requests**, exactly as far as its answers to other links'
requests come when it is not in `Home`, or when the request is not outstanding. -/
theorem foreign_answers (ts : List Turn) (t : Turn) :
    OwnAnswersOnly ts t ↔
      ∀ owner g n r, SentOn (Hub.run.history ts) owner n → g ≠ owner → t.AnswersFrom g n r →
        ¬ ((Hub.run.final ts).hub.home.Holds g ∧ n ∈ (Hub.run.final ts).hub.outstanding) := by
  constructor
  · rintro hown owner g n r hsent hne hans ⟨hheld, hn⟩
    obtain ⟨w, hw⟩ := Table.mem_iff_exists.mp hn
    have hleft := hown owner g n r hsent hne hans
    have hgone := (owner_accepted hw hans hheld).1
    rw [hleft.outstanding] at hgone
    exact hgone hn
  · intro hcond owner g n r hsent hne hans
    -- The answer changes nothing: it is stale, or it answers nothing.
    have hstep : (Hub.run.step (Hub.run.final ts) t).1.hub = (Hub.run.final ts).hub := by
      have hspare := hcond owner g n r hsent hne hans
      by_cases hheld : (Hub.run.final ts).hub.home.Holds g
      · have hnone : (Hub.run.final ts).hub.outstanding.lookup n = none :=
          AList.lookup_eq_none.mpr fun hn => hspare ⟨hheld, hn⟩
        have hrunning := running_of_holds hheld
        generalize Hub.run.final ts = l at hheld hnone hrunning ⊢
        obtain ⟨h, stopped⟩ := l
        obtain rfl : stopped = false := hrunning
        have hturn : Hub.run.step ⟨h, false⟩ t = _ := turn_answer hheld hans.said hans.answer
        have hnone : h.outstanding.lookup n = none := hnone
        rw [hturn]
        simp [Hub.onHomeResult, hans.id_eq, Json.asU64, Json.ofU64, hnone]
      · have hstale : Hub.run.step (Hub.run.final ts) t = (Hub.run.final ts, []) :=
          turn_stale t hheld (.inr ⟨_, hans.said⟩)
        rw [hstale]
    refine ⟨?_, ?_, ?_⟩
    · rw [Hub.run.final_snoc, hstep]
    · rw [Hub.run.final_snoc, hstep]
    · intro w hw js hno t' r' hans' hheld'
      have hw' : (Hub.run.final (ts ++ [t])).hub.outstanding.lookup n = some w := by
        rw [Hub.run.final_snoc, hstep, hw]
      have hwaits := outstanding_until_settled (ts ++ [t]) js hw' hno
      exact ⟨Table.mem_iff_exists.mpr ⟨w, hwaits⟩, owner_accepted hwaits hans' hheld'⟩

/-- Phone 1 has a request on link 1, under the id 2, while link 2 registers. -/
def besideCandidate : List Turn :=
  Turn.bringUp ++ [.phone 1 (request (.ofU64 1) "session/load" "a"), .get .accepted, .register 2]

/-- **A candidate takes a phone's answer away**: link 2 answers the request 2 of link 1, and the
answer of link 1 is not relayed any more. -/
theorem answer_stolen : ¬ OwnAnswersOnly besideCandidate (.home 2 (answer (.ofU64 2))) := by
  intro hown
  have hsent : SentOn (Hub.run.history besideCandidate) 1 2 := by decide +kernel
  have hleft := hown 1 2 2 _ hsent (by decide) ⟨rfl, by decide, by decide⟩
  have hchanged := congrArg (AList.lookup 2) hleft.outstanding
  revert hchanged
  decide +kernel

end Aqualung
