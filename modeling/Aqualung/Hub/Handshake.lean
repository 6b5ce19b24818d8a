/-
# The follower handshake

A link is served nothing until it has registered, then it is sent `initialize`, then the loads
of the sessions that have watchers, and only when it has answered all of them is it sent what
phones say.  The hub keeps how far a candidate has come in the constructor of its `Incoming`.

`Phase hist c` says what each constructor means for the history of the link: what it has been
sent and what has been heard from it.  It is an invariant of the history and not of the state: the
hub forgets what it has sent, and the phase is all that is left of it.  `CandidateStep` and
`MuxStep` say what one step can do to the two halves of `Home`; `Run.phase` goes through them, and
proves the phase of the candidate after every run.  A promoted candidate takes what it has proved
with it: `Served` is what it becomes for the serving link.

From there `handshake_order` reads off, for every message queued on a link, what came before it on
that link, the message being of one of three kinds: `initialize`, a load, or what a phone says.
-/
import Aqualung.Hub.Links
import Aqualung.Hub.Requests

namespace Aqualung

open Lib

/-! ## 1. What a step does to the two links -/

/-- What a step does to the candidate, and what it queues meanwhile. -/
inductive CandidateStep (t : Turn) (h h' : Hub) (out : List Effect) : Prop
  | kept (heq : h'.home.candidate = h.home.candidate)
      (hout : ∀ g m, .toHome g (.acp m) ∈ out → h.home.mux = some g)
  | gone (heq : h'.home.candidate = none)
  | accepted (heq : h'.home.candidate
        = some (.waitRegistered ⟨h.nextGen + 1⟩ (t.now + REGISTER_WAIT)))
      (hnext : h'.nextGen = h.nextGen + 1) (hout : ∀ g m, .toHome g m ∉ out)
      (ht : t.input = .recv .accepted)
  | registered {link : Link} {d : Instant}
      (hc : h.home.candidate = some (.waitRegistered link d))
      (ht : t.FromHome link.homeGen (.registered false 1))
      (heq : h'.home.candidate = some (.waitReady link (t.now + READY_WAIT))) (hout : out = [])
  | initializing {c : Incoming} {refused : Option Nat} (hc : h.home.candidate = some c)
      (why : Initializing t h c refused)
      (heq : h'.home.candidate = some (.waitInitialize c.link))
      (hout : out = [.toHome c.gen (.acp (followerInitialize (h.nextReq + 1)))])
  | loading {link : Link} {id : HomeReqId} {obj : Obj}
      (hc : h.home.candidate = some (.waitInitialize link))
      (hs : Settles t h link.homeGen id obj .hubInitialize) (he : (obj.get "error").isNone)
      (heq : h'.home.candidate = some (.waitLoads link ⟨h.watched, h.loads⟩))
      (hwatchers : h'.watchers = h.watchers)
      (hout : out = h.loads.map fun e => .toHome link.homeGen (.acp (sessionLoad e.1 e.2)))
  | loadAnswered {link : Link} {pending pending' : PendingLoads} {id : HomeReqId} {obj : Obj}
      (hc : h.home.candidate = some (.waitLoads link pending))
      (hs : Settles t h link.homeGen id obj .hubLoad)
      (hp : pending.loaded id = .more pending' ∨ pending.loaded id = .ignore pending')
      (heq : h'.home.candidate = some (.waitLoads link pending')) (hout : out = [])

/-- What a step does to the serving link. -/
inductive MuxStep (t : Turn) (h h' : Hub) (out : List Effect) : Prop
  | kept (heq : h'.home.mux = h.home.mux)
  | lost {g : HomeGen} (hm : h.home.mux = some g)
      (ht : t.input = .recv (.homeEof g) ∨ ∃ message, t.FromHome g (.error message))
      (heq : h' = { h with home := Home.ofParts none h.home.candidate })
      (hout : out = .halt g :: h.broadcastAway true)
  | promoted {c : Incoming} {id : HomeReqId} {obj : Obj} (hc : h.home.candidate = some c)
      (why : Promoting t h c id obj)
      (heq : h' = { h with
        outstanding := h.outstanding.erase id
        home := Home.ofParts (some c.gen) none })
      (hout : out = h.promotionOut h.home.mux)

namespace HubStep

variable {t : Turn} {h h' : Hub} {out : List Effect}

theorem candidateStep (hs : HubStep t h h' out) : CandidateStep t h h' out := by
  have hquiet : ToPhones out → ∀ g m, .toHome g (.acp m) ∈ out → h.home.mux = some g :=
    fun hp g m hmem => absurd hmem (hp.not_toHome g _)
  cases hs with
  | accepted ht =>
    exact .accepted (Home.candidate_ofParts _ _) rfl (fun g m hmem => by simp at hmem) ht
  | candidateGone hc why => exact .gone (Home.candidate_ofParts _ _)
  | candidateRefused hc ht hv => exact .gone (Home.candidate_ofParts _ _)
  | candidateFailed hc hset he => exact .gone (Home.candidate_ofParts _ _)
  | registered hc ht => exact .registered hc ht (Home.candidate_ofParts _ _) rfl
  | initializing hc why => exact .initializing hc why (Home.candidate_ofParts _ _) rfl
  | relayed hset hm => exact .kept rfl (hquiet (.sendPhone _ _ _))
  | loading hc hset he hne => exact .loading hc hset he (Home.candidate_ofParts _ _) rfl rfl
  | loadAnswered hc hset hp => exact .loadAnswered hc hset hp (Home.candidate_ofParts _ _) rfl
  | promoted hc why => exact .gone rfl
  | muxLost hm ht =>
    refine .kept (Home.candidate_ofParts _ _) fun g m hmem => ?_
    rcases List.mem_cons.mp hmem with heq | hmem
    · cases heq
    · exact absurd hmem ((ToPhones.broadcastAway _ _).not_toHome g _)
  | notified hm ht hmethod hid => exact .kept rfl (hquiet (.onHomeNotification _ _ _))
  | asked hm ht hmethod hid hsession hne => exact .kept rfl (hquiet (.copies _ _ _))
  | initialized ht hid hmethod hp =>
    exact .kept rfl fun g m hmem => by split at hmem <;> simp at hmem
  | requestForwarded ht hp hmethod hid hf hm =>
    exact .kept rfl fun g m hmem => by cases List.mem_singleton.mp hmem; exact hm
  | notificationForwarded ht hp hmethod hid hm =>
    exact .kept rfl fun g m hmem => by cases List.mem_singleton.mp hmem; exact hm
  | replied ht hp hmethod hreply hid hkey hopen =>
    refine .kept rfl fun g m hmem => ?_
    simp only [Option.mem_toList, Option.map_eq_some_iff] at hmem
    obtain ⟨g', hg', heq⟩ := hmem
    cases heq
    exact hg'
  | phoneLeft ht => exact .kept rfl fun g m hmem => absurd hmem List.not_mem_nil
  | _ => exact .kept rfl fun g m hmem => by simp at hmem

/-- The serving link stays, is lost, or is the candidate that was. -/
theorem muxStep (hs : HubStep t h h' out) : MuxStep t h h' out := by
  cases hs with
  | muxLost hm ht => exact .lost hm ht rfl rfl
  | promoted hc why => exact .promoted hc why rfl rfl
  | phoneLeft ht => exact .kept rfl
  | _ => exact .kept (by simp)

end HubStep

/-! ## 2. What is heard from a link -/

/-- The frames heard from the link `g` while it is in `Home`, in order. -/
def heard (g : HomeGen) (hist : List Line) : List LeaderServer :=
  hist.filterMap fun e =>
    match e.input.input with
    | .recv (.homeFrame g' msg) => if g' = g ∧ (hubOf e).home.Holds g then some msg else none
    | _ => none

@[simp] theorem heard_append (g : HomeGen) (hist hist' : List Line) :
    heard g (hist ++ hist') = heard g hist ++ heard g hist' :=
  List.filterMap_append

theorem heard_of_frame {g : HomeGen} {e : Line} {msg : LeaderServer}
    (ht : e.input.FromHome g msg) (hg : (hubOf e).home.Holds g) : heard g [e] = [msg] := by
  simp [heard, show e.input.input = _ from ht, hg]

theorem frame_of_heard {g : HomeGen} {e : Line} {msg : LeaderServer} (hm : msg ∈ heard g [e]) :
    e.input.FromHome g msg ∧ (hubOf e).home.Holds g := by
  simp only [heard, List.mem_filterMap, List.mem_singleton] at hm
  obtain ⟨_, rfl, hif⟩ := hm
  split at hif
  · rename_i g' msg' hinput
    split at hif
    · rename_i hand
      obtain ⟨rfl, hg⟩ := hand
      obtain rfl := Option.some.inj hif
      exact ⟨hinput, hg⟩
    · cases hif
  · cases hif

/-- The link has given an answer to the request `n`. -/
def Answered (g : HomeGen) (hist : List Line) (n : HomeReqId) : Prop :=
  ∃ e ∈ hist, ∃ obj, e.input.HomeSays g obj ∧ obj.isAnswer ∧ obj.id = some (.ofU64 n)

theorem Answered.append {g : HomeGen} {hist : List Line} {n : HomeReqId}
    (h : Answered g hist n) (hist' : List Line) : Answered g (hist ++ hist') n := by
  obtain ⟨e, he, hobj⟩ := h
  exact ⟨e, List.mem_append_left _ he, hobj⟩

/-- The link has registered with version 1, and if it was not ready then, it has been since. -/
def Handshaken (frames : List LeaderServer) : Prop :=
  ∃ before ready after, frames = before ++ .registered ready 1 :: after ∧
    (∀ r v, .registered r v ∉ before) ∧ (ready = false → .leaderReady ∈ after)

/-- After the history `pre`, the line `e` is the one in which the link `g` answers a follower
`initialize` without an error, and `loads` are the loads that are sent then. -/
structure Greeted (g : HomeGen) (pre : List Line) (e : Line)
    (loads : List (HomeReqId × SessionId)) : Prop where
  opened : ∃ n, queued g pre = [followerInitialize n]
  answered : ∃ obj k g', e.input.HomeSays g obj ∧ obj.isAnswer ∧ obj.get "error" = none ∧
    obj.id = some (.ofU64 k) ∧ followerInitialize k ∈ queued g' pre
  sessions : loads.map Prod.snd = sorted (hubOf e).watched
  distinct : (loads.map Prod.fst).Nodup
  fresh : ∀ l ∈ loads, Json.ofU64 l.1 ∉ requestIds pre
  sent : queued g [e] = loads.map fun l => sessionLoad l.1 l.2

/-- The link `g` has been greeted and has answered all loads. -/
def Served (g : HomeGen) (hist : List Line) : Prop :=
  ∃ pre e mid loads, hist = pre ++ e :: mid ∧ Greeted g pre e loads ∧
    ∀ l ∈ loads, Answered g mid l.1

theorem Served.append {g : HomeGen} {hist : List Line} (h : Served g hist) (hist' : List Line) :
    Served g (hist ++ hist') := by
  obtain ⟨pre, e, mid, loads, rfl, hg, hall⟩ := h
  exact ⟨pre, e, mid ++ hist', loads, by simp, hg, fun l hl => (hall l hl).append hist'⟩

/-! ## 3. The phases of a candidate -/

/-- What the phase of a candidate says about the history of its link. -/
inductive Phase (hist : List Line) : Incoming → Prop
  | waitRegistered {link : Link} {d : Instant} (hq : queued link.homeGen hist = [])
      (hheard : ∀ r v, .registered r v ∉ heard link.homeGen hist) :
      Phase hist (.waitRegistered link d)
  | waitReady {link : Link} {d : Instant} {before after : List LeaderServer}
      (hq : queued link.homeGen hist = [])
      (hheard : heard link.homeGen hist = before ++ .registered false 1 :: after)
      (hbefore : ∀ r v, .registered r v ∉ before) : Phase hist (.waitReady link d)
  | waitInitialize {link : Link} {n : HomeReqId}
      (hq : queued link.homeGen hist = [followerInitialize n]) :
      Phase hist (.waitInitialize link)
  | waitLoads {link : Link} {pending : PendingLoads} {pre mid : List Line} {e : Line}
      {loads : List (HomeReqId × SessionId)} {n : HomeReqId} (hsplit : hist = pre ++ e :: mid)
      (hg : Greeted link.homeGen pre e loads)
      (hq : queued link.homeGen hist
        = followerInitialize n :: loads.map fun l => sessionLoad l.1 l.2)
      (hcover : pending.Covers loads (Answered link.homeGen mid)) :
      Phase hist (.waitLoads link pending)

theorem queued_append (g : HomeGen) (hist hist' : List Line) :
    queued g (hist ++ hist') = queued g hist ++ queued g hist' :=
  collect_append _ _ _

theorem queued_eq_nil {g : HomeGen} {e : Line} (h : ∀ m, .toHome g (.acp m) ∉ e.out) :
    queued g [e] = [] := by
  rw [queued, collect_singleton, List.filterMap_eq_nil_iff]
  intro eff heff
  cases hacp : eff.acpOn g with
  | none => rfl
  | some m => exact absurd (Effect.acpOn_eq_some.mp hacp ▸ heff) (h m)

/-- A phase outlasts a line that queues nothing on the link, and in which the link does not
register if it has not. -/
theorem Phase.append {hist : List Line} {c : Incoming} (hp : Phase hist c) {e : Line}
    (hq : queued c.gen [e] = [])
    (hreg : ∀ link d, c = .waitRegistered link d → ∀ r v, .registered r v ∉ heard c.gen [e]) :
    Phase (hist ++ [e]) c := by
  have hqueue : queued c.gen (hist ++ [e]) = queued c.gen hist := by
    rw [queued_append, hq, List.append_nil]
  cases hp with
  | waitRegistered hq₀ hheard =>
    refine .waitRegistered (hqueue.trans hq₀) fun r v hmem => ?_
    rcases List.mem_append.mp (heard_append _ _ _ ▸ hmem) with hmem | hmem
    · exact hheard r v hmem
    · exact hreg _ _ rfl r v hmem
  | @waitReady link d before after hq₀ hheard hbefore =>
    have hmore : heard link.homeGen (hist ++ [e])
        = before ++ .registered false 1 :: (after ++ heard link.homeGen [e]) := by
      rw [heard_append, hheard]
      simp
    exact .waitReady (hqueue.trans hq₀) hmore hbefore
  | waitInitialize hq₀ => exact .waitInitialize (hqueue.trans hq₀)
  | @waitLoads link pending pre mid e₀ loads n hsplit hg hq₀ hcover =>
    have hmore : hist ++ [e] = pre ++ e₀ :: (mid ++ [e]) := by
      rw [hsplit]
      simp
    exact .waitLoads hmore hg (hqueue.trans hq₀) (hcover.mono fun n hn => hn.append [e])

/-! ## 4. The phases along a run -/

/-- Messages are queued on links in `Home` only. -/
theorem HubStep.holds_of_toHome {t : Turn} {h h' : Hub} {out : List Effect}
    (hs : HubStep t h h' out) {g : HomeGen} {m : Obj} (hmem : .toHome g (.acp m) ∈ out) :
    h.home.Holds g := by
  cases hs.homeBound with
  | nothing hout => exact absurd hmem (hout g _)
  | initializing hc why hnext hout =>
    rw [hout, List.mem_singleton] at hmem
    cases hmem
    exact .inr (by rw [hc]; rfl)
  | loading hc hset he hnext hout =>
    rw [hout, List.mem_map] at hmem
    obtain ⟨_, -, heq⟩ := hmem
    cases heq
    exact .inr (by rw [hc]; rfl)
  | forwarding ht hp hreq hm hnext hout =>
    rw [hout, List.mem_singleton] at hmem
    cases hmem
    exact .inl hm
  | notification ht hp hmethod hid hm hout =>
    rw [hout, List.mem_singleton] at hmem
    cases hmem
    exact .inl hm
  | reply ht hp hmethod hreply hid hkey hopen hm hout =>
    rw [hout, List.mem_singleton] at hmem
    cases hmem
    exact .inl hm

/-- A link that has not been accepted has been sent nothing, and nothing has been heard from
it. -/
theorem Run.unbound {hist : List Line} {h : Hub} (hr : Run hist h) :
    ∀ g, h.nextGen < g → queued g hist = [] ∧ heard g hist = [] := by
  refine hr.invariant (P := fun hist h => ∀ g, h.nextGen < g →
    queued g hist = [] ∧ heard g hist = []) (fun _ _ => ⟨rfl, rfl⟩) ?_
  intro hist h t h' out hr hs hi g hg
  have hlt : h.nextGen < g := hs.bound_eq.2.trans_lt hg
  have hnot : ¬ h.home.Holds g := fun hh => by
    have := (hr.held hh).2.1
    lia
  obtain ⟨hq, hh⟩ := hi g hlt
  rw [queued_append, heard_append, hq, hh]
  refine ⟨queued_eq_nil fun m hmem => hnot (hs.holds_of_toHome hmem), ?_⟩
  exact List.eq_nil_iff_forall_not_mem.mpr fun msg hmem => hnot (frame_of_heard hmem).2

/-- A candidate that registers is a registered candidate afterwards, or none. -/
theorem turn_registered {t : Turn} {h h' : Hub} {out : List Effect}
    (heq : Loop.turn ⟨h, false⟩ t = (⟨h', false⟩, out)) {link : Link} {d : Instant}
    (hc : h.home.candidate = some (.waitRegistered link d))
    (hm : h.home.mux ≠ some link.homeGen) {r : Bool} {v : Nat}
    (ht : t.FromHome link.homeGen (.registered r v)) :
    h'.home.candidate ≠ h.home.candidate := by
  have hrole : h.role link.homeGen = .candidate := Hub.role_eq_candidate.mpr ⟨hm, _, hc, rfl⟩
  have hturn : Loop.turn ⟨h, false⟩ t
      = (⟨(h.onRegistered t.now link.homeGen r v).1, false⟩,
          (h.onRegistered t.now link.homeGen r v).2) := by
    simp [Loop.turn, show t.input = .recv (.homeFrame link.homeGen (.registered r v)) from ht,
      Hub.handle, Hub.onHomeFrame, hrole]
  rw [hturn] at heq
  obtain rfl : (h.onRegistered t.now link.homeGen r v).1 = h' :=
    congrArg (fun x => x.1.hub) heq
  unfold Hub.onRegistered
  split
  · have hfail := Hub.failIncoming_of_candidate
      (h := { h with refusedVersion := some v }) (c := .waitRegistered link d) hc
    rw [show link.homeGen = (Incoming.waitRegistered link d).gen from rfl, hfail, hc]
    simp
  · have htake := Hub.takeCandidate_of_candidate
      (h := { h with refusedVersion := none }) (c := .waitRegistered link d) hc
    rw [show link.homeGen = (Incoming.waitRegistered link d).gen from rfl, htake, hc]
    cases r <;> simp [Hub.putCandidate_ofMux, Hub.sendFollowerInitialize, Hub.allocReq]

/-- An entry of a follower `initialize` was made when that was sent. -/
theorem Run.allocated {hist : List Line} {h : Hub} (hr : Run hist h) :
    ∀ n, h.outstanding.lookup n = some .hubInitialize →
      ∃ g, followerInitialize n ∈ queued g hist := by
  refine hr.invariant (P := fun hist h => ∀ n, h.outstanding.lookup n = some .hubInitialize →
    ∃ g, followerInitialize n ∈ queued g hist) (fun _ hw => by cases hw) ?_
  intro hist h t h' out hr hs hi n hw
  cases hs.entry n with
  | kept heq =>
    obtain ⟨g, hg⟩ := hi n (heq ▸ hw)
    exact ⟨g, by rw [queued_append]; exact List.mem_append_left _ hg⟩
  | @initializing c hc hn hnext heq hout =>
    refine ⟨c.gen, ?_⟩
    rw [queued_append]
    refine List.mem_append_right _ (mem_collect.mpr ⟨_, List.mem_singleton_self _, ?_⟩)
    exact ⟨_, hout ▸ List.mem_singleton_self _, Effect.acpOn_eq_some.mpr rfl⟩
  | loading hc hn hnext heq hout => rw [heq] at hw; cases hw
  | forwarding ht hp hreq hid hm hn hnext heq hout => rw [heq] at hw; cases hw
  | settled hset heq => rw [heq] at hw; cases hw

/-- The line in which a candidate answers `initialize` without an error. -/
theorem Run.greeted {hist : List Line} {h : Hub} (hr : Run hist h) {link : Link}
    (hp : Phase hist (.waitInitialize link)) {t : Turn} {id : HomeReqId} {obj : Obj}
    (hset : Settles t h link.homeGen id obj .hubInitialize) (he : (obj.get "error").isNone)
    {out : List Effect} (hq : queued link.homeGen [⟨⟨h, false⟩, t, out⟩]
      = h.loads.map fun l => sessionLoad l.1 l.2) :
    Greeted link.homeGen hist ⟨⟨h, false⟩, t, out⟩ h.loads := by
  obtain ⟨ns, hns, -, hle⟩ := hr.requestIds
  obtain ⟨g', hg'⟩ := hr.allocated id hset.waits
  refine ⟨?opened, ⟨obj, id, g', hset.said, hset.answer, by simpa using he, hset.id_eq, hg'⟩,
    ?sessions, PendingLoads.nodup_numbered _ _, fun l hl hmem => ?fresh, hq⟩
  case opened =>
    cases hp with
    | waitInitialize hq => exact ⟨_, hq⟩
  case sessions => exact PendingLoads.map_snd_numbered _ _
  case fresh =>
    rw [hns, List.mem_map] at hmem
    obtain ⟨n, hn, heq⟩ := hmem
    have hnext := hle n hn
    have hlt := (Hub.mem_loads_bounds hl).1
    rw [Json.ofU64_inj.mp heq] at hnext
    exact absurd hnext (not_le.mpr hlt)

theorem queued_loads (g : HomeGen) (h : Hub) (t : Turn) :
    queued g [⟨⟨h, false⟩, t, h.loads.map fun e => .toHome g (.acp (sessionLoad e.1 e.2))⟩]
      = h.loads.map fun l => sessionLoad l.1 l.2 := by
  rw [queued, collect_singleton, List.filterMap_map, ← List.filterMap_eq_map]
  congr 1
  funext l
  exact Effect.acpOn_eq_some.mpr rfl

/-- **The phase of the candidate is the truth about its link.** -/
theorem Run.phase {hist : List Line} {h : Hub} (hr : Run hist h) :
    ∀ c, h.home.candidate = some c → Phase hist c := by
  induction hr with
  | start => exact fun c hc => by cases hc
  | @turn hist h h' t out hr hturn ih =>
    intro c' hc'
    have hs := step_of_turn hturn
    cases hs.candidateStep with
    | kept heq hout =>
      have hc : h.home.candidate = some c' := heq ▸ hc'
      refine (ih c' hc).append ?_ ?_
      · exact queued_eq_nil fun m hmem => hr.candidate_ne_mux hc (hout _ m hmem)
      · rintro link d rfl r v hmem
        obtain ⟨ht, -⟩ := frame_of_heard hmem
        exact turn_registered hturn hc (hr.candidate_ne_mux hc) ht heq
    | gone heq => rw [heq] at hc'; cases hc'
    | accepted heq hnext hout ht =>
      obtain rfl := Option.some.inj (heq.symm.trans hc')
      obtain ⟨hq, hh⟩ := hr.unbound (h.nextGen + 1) (Nat.lt_succ_self _)
      refine .waitRegistered ?_ fun r v hmem => ?_
      · rw [queued_append, hq, List.nil_append]
        exact queued_eq_nil fun m hmem => hout _ _ hmem
      · rw [heard_append, hh, List.nil_append] at hmem
        have hframe : t.input = .recv (.homeFrame (h.nextGen + 1) (.registered r v)) :=
          (frame_of_heard hmem).1
        rw [ht] at hframe
        cases hframe
    | @registered link d hc ht heq hout =>
      obtain rfl := Option.some.inj (heq.symm.trans hc')
      have hheld : h.home.Holds link.homeGen := .inr (by rw [hc]; rfl)
      cases ih _ hc with
      | waitRegistered hq hheard =>
        have hmore : heard link.homeGen (hist ++ [⟨⟨h, false⟩, t, out⟩])
            = heard link.homeGen hist ++ .registered false 1 :: [] := by
          rw [heard_append, heard_of_frame ht hheld]
        refine .waitReady ?_ hmore hheard
        rw [queued_append, hq, hout]
        rfl
    | @initializing c refused hc why heq hout =>
      obtain rfl := Option.some.inj (heq.symm.trans hc')
      have hq : queued c.gen hist = [] := by
        obtain ⟨link, d, rfl, -⟩ | ⟨link, d, rfl, -⟩ := why
        · cases ih _ hc with
          | waitRegistered hq hheard => exact hq
        · cases ih _ hc with
          | waitReady hq hheard hbefore => exact hq
      refine .waitInitialize (n := h.nextReq + 1) ?_
      rw [queued_append, hq, hout, queued, collect_singleton]
      simp [Effect.acpOn_eq_some.mpr]
    | @loading link id obj hc hset he heq hwatchers hout =>
      obtain rfl := Option.some.inj (heq.symm.trans hc')
      subst hout
      have hqueue := queued_loads link.homeGen h t
      cases hp : ih _ hc with
      | @waitInitialize link n hq =>
        have hsplit : ∀ e : Line, hist ++ [e] = hist ++ e :: [] := fun _ => rfl
        refine .waitLoads (n := n) (hsplit _) (hr.greeted (ih _ hc) hset he hqueue) ?_
          (PendingLoads.covers_numbered _ _ _)
        rw [queued_append, hq, hqueue]
        rfl
    | @loadAnswered link pending pending' id obj hc hset hpend heq hout =>
      obtain rfl := Option.some.inj (heq.symm.trans hc')
      cases ih _ hc with
      | @waitLoads link pending pre mid e loads n hsplit hg hq hcover =>
        have hmore : hist ++ [⟨⟨h, false⟩, t, out⟩]
            = pre ++ e :: (mid ++ [⟨⟨h, false⟩, t, out⟩]) := by
          rw [hsplit]
          simp
        refine .waitLoads (n := n) hmore hg ?_ ?_
        · rw [queued_append, hq, hout]
          simp [queued]
        · have hnext : pending'.Covers loads fun k => Answered link.homeGen mid k ∨ k = id := by
            have hloaded := hcover.loaded id
            rcases hpend with hp | hp <;> rwa [hp] at hloaded
          refine hnext.mono fun k hk => ?_
          rcases hk with hk | rfl
          · exact hk.append _
          · exact ⟨_, List.mem_append_right _ (List.mem_singleton_self _), obj, hset.said,
              hset.answer, hset.id_eq⟩

theorem Hub.promotionOut_not_toHome (h : Hub) (m : Option HomeGen) (g : HomeGen)
    (msg : LeaderClient) : .toHome g msg ∉ h.promotionOut m := by
  cases m with
  | none => exact (ToPhones.broadcastAway _ _).not_toHome g msg
  | some g' => simp [promotionOut]

/-- A candidate that is promoted has been greeted and has answered its loads. -/
theorem Run.served_of_promoting {hist : List Line} {h : Hub} (hr : Run hist h) {c : Incoming}
    (hc : h.home.candidate = some c) {t : Turn} {id : HomeReqId} {obj : Obj}
    (why : Promoting t h c id obj) :
    Served c.gen (hist ++ [⟨⟨h, false⟩, t, h.promotionOut h.home.mux⟩]) := by
  have hp := hr.phase c hc
  obtain ⟨hphase, hset, he, hempty⟩ | ⟨pending, hphase, hset, hdone⟩ := why
  · have hloads : h.loads = [] := List.length_eq_zero_iff.mp (by
      rw [Hub.length_loads, hempty]
      rfl)
    have hquiet : queued c.gen [⟨⟨h, false⟩, t, h.promotionOut h.home.mux⟩]
        = h.loads.map fun l => sessionLoad l.1 l.2 := by
      rw [hloads]
      exact queued_eq_nil fun m => h.promotionOut_not_toHome _ _ _
    rw [hphase] at hp
    have hgreeted := hr.greeted hp hset he hquiet
    exact ⟨hist, _, [], _, rfl, hgreeted, fun l hl => by simp [hloads] at hl⟩
  · rw [hphase] at hp
    cases hp with
    | @waitLoads link pending pre mid e loads n hsplit hg hq hcover =>
      refine ⟨pre, e, mid ++ [⟨⟨h, false⟩, t, h.promotionOut h.home.mux⟩], loads,
        by rw [hsplit]; simp, hg, fun l hl => ?_⟩
      have hall := hcover.loaded id
      rw [hdone] at hall
      rcases hall l hl with hans | heq
      · exact hans.append _
      · exact ⟨_, List.mem_append_right _ (List.mem_singleton_self _), obj, hset.said,
          hset.answer, heq ▸ hset.id_eq⟩

/-- The serving link has been greeted and has answered its loads. -/
theorem Run.served {hist : List Line} {h : Hub} (hr : Run hist h) :
    ∀ g, h.home.mux = some g → Served g hist := by
  refine hr.invariant (P := fun hist h => ∀ g, h.home.mux = some g → Served g hist)
    (fun _ hm => by cases hm) ?_
  intro hist h t h' out hr hs hi g hm
  cases hs.muxStep with
  | kept heq => exact (hi g (heq ▸ hm)).append _
  | lost hlost ht heq hout => simp [heq] at hm
  | promoted hc why heq hout =>
    obtain rfl : _ = g := by simpa [heq] using hm
    rw [hout]
    exact hr.served_of_promoting hc why

/-! ## 5. The order on every link -/

/-- What has happened on the link `g` before the line `e` queues the message `m` on it. -/
inductive InOrder (g : HomeGen) (pre : List Line) (e : Line) (m : Obj) : Prop
  /-- The follower `initialize`: nothing was queued before, and the link has registered and
  is ready. -/
  | greeting {n : HomeReqId} (hm : m = followerInitialize n) (hfirst : queued g pre = [])
      (hready : Handshaken (heard g (pre ++ [e]))) (hout : queued g [e] = [m])
  /-- A load: the link answers a follower `initialize`, and one load goes out for each session
  that has watchers. -/
  | load {loads : List (HomeReqId × SessionId)} (hg : Greeted g pre e loads)
      {l : HomeReqId × SessionId} (hl : l ∈ loads) (hm : m = sessionLoad l.1 l.2)
  /-- What a phone says: the link has answered all its loads. -/
  | phone {p : PhoneId} {obj : Obj} (hserved : Served g pre) (ht : e.input.PhoneSays p obj)
      (hm : m = obj ∨ ∃ v, m = obj.withId v) (hout : queued g [e] = [m])

theorem queued_one (g : HomeGen) (m : Obj) (l : Loop) (t : Turn) :
    queued g [⟨l, t, [.toHome g (.acp m)]⟩] = [m] := by
  simp [queued, Effect.acpOn_eq_some.mpr]

theorem Run.inOrder {hist : List Line} {h h' : Hub} (hr : Run hist h) {t : Turn}
    {out : List Effect} (hs : HubStep t h h' out) {g : HomeGen} {m : Obj}
    (hmem : .toHome g (.acp m) ∈ out) : InOrder g hist ⟨⟨h, false⟩, t, out⟩ m := by
  have hphone : ∀ {p obj m'}, out = [.toHome g (.acp m')] → h.home.mux = some g →
      t.PhoneSays p obj → (m' = obj ∨ ∃ v, m' = obj.withId v) →
      InOrder g hist ⟨⟨h, false⟩, t, out⟩ m' := by
    rintro p obj m' rfl hm ht hm'
    exact .phone (hr.served g hm) ht hm' (queued_one g m' _ t)
  cases hs.homeBound with
  | nothing hout => exact absurd hmem (hout g _)
  | @initializing c refused hc why hnext hout =>
    subst hout
    cases List.mem_singleton.mp hmem
    have hheld : h.home.Holds c.gen := .inr (by rw [hc]; rfl)
    have hp := hr.phase c hc
    obtain ⟨link, d, rfl, ht, -⟩ | ⟨link, d, rfl, ht, -⟩ := why
    · cases hp with
      | waitRegistered hq hheard =>
        refine .greeting rfl hq ⟨_, true, [], ?_, hheard, fun hf => by cases hf⟩
          (queued_one _ _ _ t)
        rw [heard_append, heard_of_frame ht hheld]
        rfl
    · cases hp with
      | @waitReady link d before after hq hheard hbefore =>
        refine .greeting rfl hq ⟨before, false, after ++ [.leaderReady], ?_, hbefore,
          fun _ => by simp⟩ (queued_one _ _ _ t)
        rw [heard_append, heard_of_frame ht hheld]
        change heard link.homeGen hist ++ _ = _
        rw [hheard]
        simp
  | @loading link id obj hc hset he hnext hout =>
    subst hout
    obtain ⟨l, hl, heq⟩ := List.mem_map.mp hmem
    cases heq
    exact .load (hr.greeted (hr.phase _ hc) hset he (queued_loads _ _ _)) hl rfl
  | forwarding ht hp hreq hm hnext hout =>
    rw [hout] at hmem
    cases List.mem_singleton.mp hmem
    exact hphone hout hm ht (.inr ⟨_, rfl⟩)
  | notification ht hp hmethod hid hm hout =>
    rw [hout] at hmem
    cases List.mem_singleton.mp hmem
    exact hphone hout hm ht (.inl rfl)
  | reply ht hp hmethod hreply hid hkey hopen hm hout =>
    rw [hout] at hmem
    cases List.mem_singleton.mp hmem
    exact hphone hout hm ht (.inr ⟨_, rfl⟩)

/-- **The follower handshake is in order on every link**, in every run: each message queued on
a link finds the link in `Home` and not yet halted, and comes at its place: first `initialize`,
after the link has registered and is ready; then the loads, when the link answers it; then,
with all loads answered, what phones say. -/
theorem handshake_order (ts : List Turn) (pre : List Line) (e : Line) (post : List Line)
    (hsplit : Hub.run.history ts = pre ++ e :: post) (g : HomeGen) (m : Obj)
    (hmem : .toHome g (.acp m) ∈ e.out) :
    (hubOf e).home.Holds g ∧ g ∉ collect Effect.halted pre ∧ InOrder g pre e m := by
  obtain ⟨hr, hbefore, h', -, hs⟩ := step_of_line hsplit hmem fun _ heq => by cases heq
  obtain ⟨⟨h, stopped⟩, t, out⟩ := e
  cases hbefore
  have hheld := hs.holds_of_toHome hmem
  exact ⟨hheld, (hr.held hheld).2.2, hr.inOrder hs hmem⟩

/-- A phone attaches to a session, and a second link comes in, is sent the load of it and answers. -/
def secondLink : List Turn :=
  Turn.bringUp ++ [.phone 1 (request (.ofU64 1) "session/load" "a"), .get .accepted, .register 2,
    .home 2 (answer (.ofU64 3)), .home 2 (answer (.ofU64 4))]

/-- What the phone asks next is queued on the second link, behind `initialize` and the load. -/
theorem handshake_order_second :
    Home.Holds (Hub.run.final secondLink).hub.home 2 ∧
      2 ∉ collect Effect.halted (Hub.run.history secondLink) ∧
      InOrder 2 (Hub.run.history secondLink)
        ⟨Hub.run.final secondLink, .phone 1 (request (.ofU64 2) "session/prompt" "a"),
          (Hub.run.step (Hub.run.final secondLink)
            (.phone 1 (request (.ofU64 2) "session/prompt" "a"))).2⟩
        ((request (.ofU64 2) "session/prompt" "a").withId (.ofU64 5)) :=
  handshake_order (secondLink ++ [.phone 1 (request (.ofU64 2) "session/prompt" "a")]) _ _ []
    (Hub.run.history_snoc _ _) 2 _ (by decide +kernel)

end Aqualung
