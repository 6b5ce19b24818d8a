/-
# The link an answer goes to

A claim keeps the id that home used and not the link that used it, so the reply that takes a
claim goes to whatever link is serving by then.  That is the link that asked, unless another
link was promoted between the question and the answer.

`answers_go_back` says exactly that.  Both directions rest on what the tables mean
(`Hub/Reverse.lean`): what goes home without a method is a reply to a copy of an open request, and
to a request that is open nobody has replied (`Run.no_answer_of_opened`).  So a reply that comes
first while a stranger is serving IS sent to it, since an open claim is all that `on_phone_reply`
looks for.  `answer_to_stranger` is a run in which it matters.
-/
import Aqualung.Hub.Reverse

namespace Aqualung

open Lib

/-- Every response that goes home goes to the link that sent the request, and the request has
had no answer before. -/
def GoesBack (hist : List Line) : Prop :=
  ∀ pre e' post, hist = pre ++ e' :: post → ∀ g m, .toHome g (.acp m) ∈ e'.out →
    m.method = none →
    (∃ pre₀ e mid r, pre = pre₀ ++ e :: mid ∧ e.input.HomeSays g r ∧ r.isRequest ∧ r.id = m.id ∧
      ∀ e'' ∈ mid, ¬ Answers e e'') ∧
    (∀ pre₀ e mid g₀ r p v obj, pre = pre₀ ++ e :: mid → e.input.HomeSays g₀ r →
      Copies e r p v → Replies e' p obj v → g₀ = g)

/-- When the first reply to a request arrives, the link that asked is serving, or none is. -/
def AskerServes (hist : List Line) : Prop :=
  ∀ pre e' post, hist = pre ++ e' :: post →
    ∀ pre₀ e mid g₀ r p v obj, pre = pre₀ ++ e :: mid → e.input.HomeSays g₀ r →
      Copies e r p v → Replies e' p obj v → (∀ e'' ∈ mid, ¬ Answers e e'') →
      (hubOf e').home.mux = some g₀ ∨ (hubOf e').home.mux = none

/-- A copy whose claim is still open when its phone replies has had no answer. -/
theorem Run.no_answer_of_opened {hist pre mid : List Line} {h : Hub} (hr : Run hist h) {e : Line}
    (hsplit : hist = pre ++ e :: mid) {r : Obj} {p : PhoneId} {v : JsonId} (hc : Copies e r p v)
    (hp : p ∈ h.phones) {key : HomeReqId} {homeId : JsonId}
    (hkey : h.reverse.lookup (p, v) = some key)
    (hopen : h.claims.lookup key = some (.opened homeId)) : ∀ e' ∈ mid, ¬ Answers e e' := by
  intro e' he' hans
  have htaken := hr.asked.claimed pre e mid hsplit r p v hc ⟨e', he', hans⟩
  by_cases hbefore : ∃ e'' ∈ mid, ∃ obj, Replies e'' p obj v
  · rw [hr.asked.spent pre e mid hsplit r p v hc hbefore] at hkey
    cases hkey
  · have hentry := hr.asked.entry pre e mid hsplit r p v hc hp
      fun e'' he'' obj hrep => hbefore ⟨e'', he'', obj, hrep⟩
    obtain rfl := Option.some.inj (hentry.symm.trans hkey)
    rw [htaken] at hopen
    cases hopen

/-- **Answers go back to the link that asked, exactly if** no reply comes first when another
link is serving.  If none is serving the reply goes nowhere, which breaks no promise. -/
theorem answers_go_back (ts : List Turn) :
    GoesBack (Hub.run.history ts) ↔ AskerServes (Hub.run.history ts) := by
  constructor
  · intro hback pre e' post hsplit pre₀ e mid g₀ r p v obj hpre hsaid hc hrep hno
    obtain ⟨hr, hout⟩ := reply_line hsplit hrep
    subst hpre
    obtain ⟨homeId, hid, hopen⟩ := hr.asked.unclaimed pre₀ e mid rfl r p v hc hno
    have hkey := hr.asked.entry pre₀ e mid rfl r p v hc hrep.connected
      fun e'' he'' obj'' hrep'' => hno e'' he'' ⟨r, p, obj'', v, hc, hrep''⟩
    rw [(Hub.onPhoneReply_spec _ p v obj).out, hkey, Option.bind_some, hopen] at hout
    cases hm : (hubOf e').home.mux with
    | none => exact .inr rfl
    | some g =>
      have hmem : .toHome g (.acp (obj.withId homeId)) ∈ e'.out := by
        rw [hout, hm]
        exact List.mem_singleton_self _
      have hmethod : (obj.withId homeId).method = none := by
        rw [Obj.method_withId, hrep.method]
      obtain ⟨-, hlink⟩ := hback _ e' post hsplit g _ hmem hmethod
      exact .inl (congrArg some (hlink pre₀ e mid g₀ r p v obj rfl hsaid hc hrep).symm)
  · intro hcond pre e' post hsplit g m hmem hmethod
    obtain ⟨hr, hm, p, obj, v, key, homeId, hrep, hkey, hopen, heq⟩ :=
      reply_of_response hsplit hmem hmethod
    -- The link the reply goes to is the one that asked, for every copy it replies to.
    have hlink : ∀ pre₀ e mid g₀ r p' v' obj', pre = pre₀ ++ e :: mid → e.input.HomeSays g₀ r →
        Copies e r p' v' → Replies e' p' obj' v' → g₀ = g := by
      intro pre₀ e mid g₀ r p' v' obj' hpre hsaid hc hrep'
      obtain ⟨rfl, rfl, rfl⟩ := hrep.inj hrep'
      have hno := hr.no_answer_of_opened hpre hc hrep.connected hkey hopen
      rcases hcond pre e' post hsplit pre₀ e mid g₀ r p v obj hpre hsaid hc hrep hno
        with hserve | hnone
      · exact Option.some.inj (hserve.symm.trans hm)
      · rw [hm] at hnone
        cases hnone
    refine ⟨?_, hlink⟩
    obtain ⟨⟨e, he, r, hc, rfl⟩, -⟩ := hr.asked.known p v key hkey
    obtain ⟨pre₀, mid, hpre⟩ := List.append_of_mem he
    have hno := hr.no_answer_of_opened hpre hc hrep.connected hkey hopen
    obtain ⟨i, hid, hopen'⟩ := hr.asked.unclaimed pre₀ e mid hpre r p v hc hno
    obtain rfl := Claim.opened.inj (Option.some.inj (hopen.symm.trans hopen'))
    obtain ⟨g₀, hsaid⟩ := hc.said
    obtain rfl := hlink pre₀ e mid g₀ r p v obj hpre hsaid hc hrep
    exact ⟨pre₀, e, mid, r, hpre, hsaid, hc.request, by rw [hid, heq, Obj.id_withId], hno⟩

def attached : List Turn :=
  Turn.bringUp ++ [.phone 1 (request (.ofU64 1) "session/load" "a")]

/-- The first link asks the phone for a permission, under the id 7.  Then it is gone, and a
second link takes its place. -/
def linkReplaced : List Turn :=
  attached ++ .home 1 (request (.ofU64 7) "session/request_permission" "a") ::
    [.get (.homeEof 1), .get .accepted, .register 2, .home 2 (answer (.ofU64 4)),
      .home 2 (answer (.ofU64 5))]

/-- **An answer to a stranger**: the phone's reply to the first link goes to the second. -/
theorem answer_to_stranger :
    ¬ GoesBack (Hub.run.history (linkReplaced ++ [.phone 1 (answer (.str "aq:1"))])) := by
  intro h
  have hlink := (h _ _ [] (Hub.run.history_snoc _ _) 2 ((answer (.str "aq:1")).withId (.ofU64 7))
    (by decide +kernel) (by decide)).2
  have hone := hlink (Hub.run.history attached) _ _ 1
    (request (.ofU64 7) "session/request_permission" "a") 1 (.str "aq:1") (answer (.str "aq:1"))
    (Hub.run.history_append _ _) rfl ⟨⟨1, rfl⟩, by decide, by decide +kernel⟩
    ⟨by decide +kernel, rfl, by decide +kernel, by decide, by decide, by decide⟩
  exact absurd hone (by decide)

end Aqualung
