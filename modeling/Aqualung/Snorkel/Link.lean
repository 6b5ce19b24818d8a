/-
# The link and its backoff

`Link::step` takes the link from `Down` to `Up` when a session is established and back when the
session ends, and stops it at a shutdown.  Before each attempt it sleeps for a delay that grows
with the number of attempts that have failed in a row.  `Down` carries this number, `Up` does
not: after a session it starts again, from 0 if the session was productive and from 1 if not.

The arithmetic is that of the source, with its widths: the attempts are a `u32` that saturates,
the multiplier is a shift, and the multiplication of a `Duration` saturates.  Section 1 shows that
none of the bounds is ever met, so that the delay is `delayAfter` of the number of attempts, a
power of two up to the cap, times the jitter.

The jitter comes from outside, anywhere in its range, and so do the moments.  So the law is about
intervals: `WithinLaw k delay` says that the delay is one that `k` unproductive outcomes in a row
ask for.  `backoff_law_iff` says in which runs every delay is within the law: those in which no
session ends unproductive where the outcome before it was unproductive too.  One direction is the
invariant `Counts`, that `Down` carries the length of the streak; for the other, the delay that
follows such a session is the shortest one, and the law asks for at least twice of that
(`LinkStep.delay_of_short`).
-/
import Aqualung.Snorkel.Session
import Mathlib.Tactic.Linarith
import Mathlib.Tactic.NormNum

namespace Aqualung.Snorkel

open Lib

/-! ## 1. The delay -/

/-- A moment, in milliseconds since `run` was called. -/
abbrev Instant := ℚ

def BACKOFF_FIRST : Duration := 500

def BACKOFF_MAX : Duration := 30 * 1000

def DURATION_MAX : Duration := (2 ^ 64 - 1) * 1000 + 999999999 / 1000000

def saturatingMul (d : Duration) (n : Nat) : Duration := min (d * n) DURATION_MAX

def saturatingAdd (a b : Nat) : Nat := min (a + b) (2 ^ 32 - 1)

/-- `FailureRun`: the attempts are a `u32`. -/
structure FailureRun where
  attempts : Nat := 0
  fits : attempts < 2 ^ 32 := by decide
  deriving DecidableEq

/-- One more attempt. -/
def FailureRun.another (run : FailureRun) : FailureRun where
  attempts := saturatingAdd run.attempts 1
  fits := by unfold saturatingAdd; omega

/-- The jitter: `random_range(0.8..=1.0)`. -/
structure Jitter where
  factor : ℚ
  low : 4 / 5 ≤ factor
  high : factor ≤ 1

/-- The `exponent` of `backoff`. -/
def exponent (run : FailureRun) : Nat := min (run.attempts - 1) 16

def multiplier (run : FailureRun) : Nat := (1 <<< exponent run) % 2 ^ 32

/-- The `base` of `backoff`. -/
def base (run : FailureRun) : Duration :=
  min (saturatingMul BACKOFF_FIRST (multiplier run)) BACKOFF_MAX

def backoff (run : FailureRun) (jitter : Jitter) : Duration := base run * jitter.factor

theorem exponent_le (run : FailureRun) : exponent run ≤ 16 := Nat.min_le_right _ _

/-- The shift loses nothing. -/
theorem multiplier_eq (run : FailureRun) : multiplier run = 2 ^ exponent run := by
  rw [multiplier, Nat.shiftLeft_eq, one_mul]
  refine Nat.mod_eq_of_lt ?_
  exact Nat.pow_lt_pow_right (by decide) (lt_of_le_of_lt (exponent_le run) (by decide))

/-- The multiplication does not saturate. -/
theorem mul_multiplier_le (run : FailureRun) :
    BACKOFF_FIRST * multiplier run ≤ DURATION_MAX := by
  have hle : multiplier run ≤ 2 ^ 16 := by
    rw [multiplier_eq]
    exact Nat.pow_le_pow_right (by decide) (exponent_le run)
  have hcast : (multiplier run : ℚ) ≤ 2 ^ 16 := by exact_mod_cast hle
  unfold BACKOFF_FIRST DURATION_MAX
  linarith

theorem base_eq (run : FailureRun) : base run = min (500 * 2 ^ exponent run) 30000 := by
  rw [base, saturatingMul, min_eq_left (mul_multiplier_le run), multiplier_eq]
  norm_num [BACKOFF_FIRST, BACKOFF_MAX]

/-- The delay that `k` unproductive outcomes in a row ask for, but for the jitter. -/
def delayAfter (k : Nat) : Duration := min (30 * 1000) (500 * 2 ^ (k - 1))

/-- The delay after an outcome is within the bounds: `k` outcomes in a row were unproductive, this
one included. -/
def WithinLaw (k : Nat) (delay : Duration) : Prop :=
  if k = 0 then 400 ≤ delay ∧ delay ≤ 500
  else 4 / 5 * delayAfter k ≤ delay ∧ delay ≤ delayAfter k

/-- `delayAfter` does not grow any more where the exponent is cut off and the count saturates. -/
theorem base_of_attempts {run : FailureRun} {k : Nat} (hrun : run.attempts = min k (2 ^ 32 - 1)) :
    base run = delayAfter k := by
  rw [base_eq, delayAfter, min_comm]
  norm_num only
  rcases Nat.le_total (k - 1) 16 with hsmall | hlarge
  · have hexp : exponent run = k - 1 := by
      unfold exponent
      omega
    rw [hexp]
  · have hexp : exponent run = 16 := by
      unfold exponent
      omega
    have hpow : (2 : ℚ) ^ 16 ≤ 2 ^ (k - 1) := pow_le_pow_right₀ (by norm_num) hlarge
    rw [hexp, min_eq_left (by norm_num), min_eq_left (by linarith)]

theorem delayAfter_pos (k : Nat) : 0 < delayAfter k := by
  unfold delayAfter
  exact lt_min (by norm_num) (by positivity)

/-- From the second outcome in a row on, the delay is at least twice the first one. -/
theorem le_delayAfter {k : Nat} (hk : 2 ≤ k) : 1000 ≤ delayAfter k := by
  have hpow : (2 : ℚ) ^ 1 ≤ 2 ^ (k - 1) := pow_le_pow_right₀ (by norm_num) (by omega)
  unfold delayAfter
  exact le_min (by norm_num) (by linarith)

theorem withinLaw_backoff {run : FailureRun} {k : Nat} (hrun : run.attempts = min k (2 ^ 32 - 1))
    (jitter : Jitter) : WithinLaw k (backoff run jitter) := by
  have hlow := jitter.low
  have hhigh := jitter.high
  have hpos := delayAfter_pos k
  have hbounds : 4 / 5 * delayAfter k ≤ backoff run jitter ∧ backoff run jitter ≤ delayAfter k := by
    rw [backoff, base_of_attempts hrun]
    constructor
    · nlinarith
    · nlinarith
  unfold WithinLaw
  split
  · rename_i hk
    subst hk
    have hfirst : delayAfter 0 = 500 := by norm_num [delayAfter]
    rw [hfirst] at hbounds
    exact ⟨by linarith, hbounds.2⟩
  · exact hbounds

/-! ## 2. The link -/

/-- `Link`, with the moment at which the session was opened beside it. -/
inductive Link
  | down (notBefore : Instant) (run : FailureRun)
  | up (session : Session) (opened : Instant)
  | stopped
  deriving DecidableEq

structure Report where
  sessions : Nat := 0
  bytesToServer : Nat := 0
  bytesToSocket : Nat := 0
  deriving DecidableEq

/-- What `run` keeps: the link, and the report of its context. -/
structure RunState where
  link : Link
  report : Report
  deriving DecidableEq

/-- What happens to the link, and when. -/
inductive LinkEvent
  /-- The shutdown is seen. -/
  | shutdown
  /-- The socket file does not exist after the sleep. -/
  | socketAbsent (now : Instant) (jitter : Jitter)
  /-- `Session::establish` returns an error. -/
  | dialFailed (now : Instant) (jitter : Jitter)
  /-- `Session::establish` returns a session. -/
  | established (now : Instant)
  /-- Something happens at an end of the session. -/
  | io (now : Instant) (ev : SessionEvent) (jitter : Jitter)

/-- Down again: `not_before` is `delay` from `now`. -/
def RunState.backOff (s : RunState) (run : FailureRun) (now : Instant) (jitter : Jitter) :
    RunState × List Duration :=
  let delay := backoff run jitter
  ({ s with link := .down (now + delay) run }, [delay])

def failed (once : Bool) (s : RunState) (run : FailureRun) (now : Instant) (jitter : Jitter) :
    RunState × List Duration :=
  if once then ({ s with link := .stopped }, [])
  else s.backOff run.another now jitter

/-- The run of failures after a session. -/
def runAfter (outcome : Outcome) : FailureRun :=
  if outcome.productive then {} else { attempts := 1 }

namespace Link

/-- `Link::step`; the outputs are the delays before the next attempt. -/
def step (once : Bool) (s : RunState) : LinkEvent → RunState × List Duration
  | .shutdown => ({ s with link := .stopped }, [])
  | .socketAbsent now jitter | .dialFailed now jitter =>
    match s.link with
    | .down notBefore run => if notBefore ≤ now then failed once s run now jitter else (s, [])
    | _ => (s, [])
  | .established now =>
    match s.link with
    | .down notBefore _ =>
      if notBefore ≤ now then
        ({ link := .up {} now, report := { s.report with sessions := s.report.sessions + 1 } }, [])
      else (s, [])
    | _ => (s, [])
  | .io now ev jitter =>
    match s.link with
    | .up session opened =>
      let session := (Session.run.step session ev).1
      match session.outcome (max (now - opened) 0) with
      | none => ({ s with link := .up session opened }, [])
      | some outcome =>
        let report := { s.report with
          bytesToServer := s.report.bytesToServer + outcome.toRemote
          bytesToSocket := s.report.bytesToSocket + outcome.toLocal }
        if once then (⟨.stopped, report⟩, [])
        else RunState.backOff ⟨s.link, report⟩ (runAfter outcome) now jitter
    | _ => (s, [])

/-- `run`, as a machine. -/
def run (once : Bool) : Machine RunState LinkEvent Duration where
  init := { link := .down 0 {}, report := {} }
  step := step once

end Link

/-! ## 3. Outcomes and the law -/

/-- What has come of an attempt or a session. -/
inductive LinkOutcome
  | socketAbsent
  | dialFailed
  | ended (outcome : Outcome)
  deriving DecidableEq

/-- Only a session can be productive. -/
def LinkOutcome.productive : LinkOutcome → Bool
  | ended outcome => outcome.productive
  | _ => false

/-- A line of the history of a link. -/
abbrev LinkLine := Entry RunState LinkEvent Duration

/-- The outcome that the line brings. -/
def LinkLine.outcome (e : LinkLine) : Option LinkOutcome :=
  match e.before.link, e.input with
  | .down notBefore _, .socketAbsent now _ => if notBefore ≤ now then some .socketAbsent else none
  | .down notBefore _, .dialFailed now _ => if notBefore ≤ now then some .dialFailed else none
  | .up session opened, .io now ev _ =>
    ((Session.run.step session ev).1.outcome (max (now - opened) 0)).map .ended
  | _, _ => none

/-- The outcomes in turn. -/
def outcomes (hist : List LinkLine) : List LinkOutcome := hist.filterMap LinkLine.outcome

/-- How many of the last outcomes in a row were unproductive. -/
def streak (os : List LinkOutcome) : Nat :=
  os.foldl (fun k o => if o.productive then 0 else k + 1) 0

theorem streak_snoc (os : List LinkOutcome) (o : LinkOutcome) :
    streak (os ++ [o]) = if o.productive then 0 else streak os + 1 := by
  simp [streak]

theorem outcomes_snoc (hist : List LinkLine) (e : LinkLine) :
    outcomes (hist ++ [e]) = outcomes hist ++ (LinkLine.outcome e).toList := by
  cases h : LinkLine.outcome e <;> simp [outcomes, h]

/-- Only a productive session resets the backoff: after every outcome the delay is the one that
the unproductive outcomes since the last productive session ask for. -/
structure BackoffLaw (hist : List LinkLine) : Prop where
  delays : ∀ pre e post, hist = pre ++ e :: post → ∀ o, LinkLine.outcome e = some o →
    ∃ delay, e.out = [delay] ∧ WithinLaw (streak (outcomes (pre ++ [e]))) delay
  noOverflow : ∀ run : FailureRun, exponent run < 32 ∧ multiplier run = 2 ^ exponent run ∧
    saturatingMul BACKOFF_FIRST (multiplier run) = BACKOFF_FIRST * multiplier run

/-- No session ends unproductive where the outcome before it was unproductive too. -/
def NoneShortAfterFailure (hist : List LinkLine) : Prop :=
  ∀ pre e post, hist = pre ++ e :: post → ∀ outcome, LinkLine.outcome e = some (.ended outcome) →
    outcome.productive = false → streak (outcomes pre) = 0

/-- The steps of a link without `--once`. -/
inductive LinkStep (s : RunState) (ev : LinkEvent) : RunState → List Duration → Prop
  /-- No attempt has failed and no session has ended. -/
  | quiet {s' : RunState} (houtcome : LinkLine.outcome ⟨s, ev, []⟩ = none)
      (hdown : ∀ notBefore run, s'.link = .down notBefore run → s.link = .down notBefore run) :
      LinkStep s ev s' []
  /-- An attempt has failed. -/
  | failed {notBefore : Instant} {run : FailureRun} {o : LinkOutcome} {jitter : Jitter}
      (now : Instant) (hlink : s.link = .down notBefore run)
      (houtcome : LinkLine.outcome ⟨s, ev, []⟩ = some o) (ho : ∀ outcome, o ≠ .ended outcome) :
      LinkStep s ev { s with link := .down (now + backoff run.another jitter) run.another }
        [backoff run.another jitter]
  /-- A session has ended. -/
  | ended {outcome : Outcome} {jitter : Jitter} (now : Instant) (report : Report)
      (houtcome : LinkLine.outcome ⟨s, ev, []⟩ = some (.ended outcome)) :
      LinkStep s ev
        ⟨.down (now + backoff (runAfter outcome) jitter) (runAfter outcome), report⟩
        [backoff (runAfter outcome) jitter]

namespace Link

/-- **The link takes these steps and no others.** -/
theorem step_link (s : RunState) (ev : LinkEvent) :
    LinkStep s ev ((run false).step s ev).1 ((run false).step s ev).2 := by
  change LinkStep s ev (step false s ev).1 (step false s ev).2
  obtain ⟨link, report⟩ := s
  cases link with
  | down notBefore run =>
    cases ev with
    | shutdown => exact .quiet rfl (by simp [step])
    | socketAbsent now jitter =>
      by_cases hnow : notBefore ≤ now
      · simp only [step, if_pos hnow]
        exact .failed now rfl (by simp [LinkLine.outcome, hnow]) (o := .socketAbsent) (by simp)
      · simp only [step, if_neg hnow]
        exact .quiet (by simp [LinkLine.outcome, hnow]) fun _ _ h => h
    | dialFailed now jitter =>
      by_cases hnow : notBefore ≤ now
      · simp only [step, if_pos hnow]
        exact .failed now rfl (by simp [LinkLine.outcome, hnow]) (o := .dialFailed) (by simp)
      · simp only [step, if_neg hnow]
        exact .quiet (by simp [LinkLine.outcome, hnow]) fun _ _ h => h
    | established now =>
      by_cases hnow : notBefore ≤ now
      · simp only [step, if_pos hnow]
        exact .quiet rfl (by simp)
      · simp only [step, if_neg hnow]
        exact .quiet rfl fun _ _ h => h
    | io now ev jitter => exact .quiet rfl fun _ _ h => h
  | up session opened =>
    cases ev with
    | io now ev jitter =>
      have hline : LinkLine.outcome ⟨⟨.up session opened, report⟩, .io now ev jitter, []⟩
          = ((Session.run.step session ev).1.outcome (max (now - opened) 0)).map .ended := rfl
      simp only [step]
      split
      · rename_i hnone
        exact .quiet (by rw [hline, hnone]; rfl) (by simp)
      · rename_i outcome hsome
        exact .ended now _ (by rw [hline, hsome]; rfl)
    | shutdown => exact .quiet rfl (by simp [step])
    | socketAbsent now jitter => exact .quiet rfl fun _ _ h => h
    | dialFailed now jitter => exact .quiet rfl fun _ _ h => h
    | established now => exact .quiet rfl fun _ _ h => h
  | stopped => cases ev <;> exact .quiet rfl fun _ _ h => h

end Link

/-! ## 4. When the law holds -/

/-- `Down` carries the number of unproductive outcomes since the last productive session. -/
def Counts (hist : List LinkLine) (s : RunState) : Prop :=
  ∀ notBefore run, s.link = .down notBefore run →
    run.attempts = min (streak (outcomes hist)) (2 ^ 32 - 1)

theorem runAfter_attempts (outcome : Outcome) :
    (runAfter outcome).attempts = if outcome.productive then 0 else 1 := by
  unfold runAfter
  split <;> rfl

/-- A step keeps the count, unless a session ends unproductive after an unproductive outcome, and
after an outcome the delay is the one for the count. -/
theorem LinkStep.counts {s s' : RunState} {ev : LinkEvent} {out : List Duration}
    (h : LinkStep s ev s' out) {hist : List LinkLine} (hcounts : Counts hist s)
    (hshort : ∀ outcome, LinkLine.outcome ⟨s, ev, out⟩ = some (.ended outcome) →
      outcome.productive = false → streak (outcomes hist) = 0) :
    Counts (hist ++ [⟨s, ev, out⟩]) s' ∧
      ∀ o, LinkLine.outcome ⟨s, ev, out⟩ = some o → ∃ run jitter,
        out = [backoff run jitter] ∧
        run.attempts = min (streak (outcomes (hist ++ [⟨s, ev, out⟩]))) (2 ^ 32 - 1) := by
  have hout : ∀ out', LinkLine.outcome ⟨s, ev, out'⟩ = LinkLine.outcome ⟨s, ev, []⟩ :=
    fun _ => rfl
  cases h with
  | quiet houtcome hdown =>
    refine ⟨fun notBefore run hlink => ?_, fun o ho => ?_⟩
    · rw [outcomes_snoc, houtcome, Option.toList_none, List.append_nil]
      exact hcounts notBefore run (hdown notBefore run hlink)
    · rw [houtcome] at ho
      cases ho
  | @failed notBefore run o jitter now hlink houtcome ho =>
    have hunproductive : o.productive = false := by
      cases o with
      | ended outcome => exact absurd rfl (ho outcome)
      | socketAbsent => rfl
      | dialFailed => rfl
    have hstreak : run.another.attempts
        = min (streak (outcomes (hist ++ [⟨s, ev, [backoff run.another jitter]⟩])))
          (2 ^ 32 - 1) := by
      have hbefore := hcounts notBefore run hlink
      rw [outcomes_snoc, hout, houtcome, Option.toList_some, streak_snoc, if_neg (by simp [*])]
      simp only [FailureRun.another, saturatingAdd]
      omega
    refine ⟨fun notBefore' run' hlink' => ?_, fun o' _ => ⟨_, jitter, rfl, hstreak⟩⟩
    cases hlink'
    exact hstreak
  | @ended outcome jitter now report houtcome =>
    have hstreak : (runAfter outcome).attempts
        = min (streak (outcomes (hist ++ [⟨s, ev, [backoff (runAfter outcome) jitter]⟩])))
          (2 ^ 32 - 1) := by
      rw [outcomes_snoc, hout, houtcome, Option.toList_some, streak_snoc, runAfter_attempts]
      cases hproductive : outcome.productive with
      | true => simp [LinkOutcome.productive, hproductive]
      | false =>
        have hzero := hshort outcome houtcome hproductive
        simp [LinkOutcome.productive, hproductive, hzero]
    refine ⟨fun notBefore' run' hlink' => ?_, fun o' _ => ⟨_, jitter, rfl, hstreak⟩⟩
    cases hlink'
    exact hstreak

/-- A session that ends unproductive is followed by the shortest delay. -/
theorem LinkStep.delay_of_short {s s' : RunState} {ev : LinkEvent} {out : List Duration}
    (h : LinkStep s ev s' out) {outcome : Outcome}
    (houtcome : LinkLine.outcome ⟨s, ev, out⟩ = some (.ended outcome))
    (hshort : outcome.productive = false) : ∃ delay, out = [delay] ∧ delay ≤ 500 := by
  have hout : LinkLine.outcome ⟨s, ev, []⟩ = some (.ended outcome) := houtcome
  cases h with
  | quiet hnone _ =>
    rw [hnone] at hout
    cases hout
  | failed now hlink hsome ho =>
    rw [hsome] at hout
    exact absurd (Option.some.inj hout) (ho outcome)
  | @ended outcome' jitter now report hsome =>
    rw [hsome] at hout
    cases hout
    have hrun : (runAfter outcome).attempts = min 1 (2 ^ 32 - 1) := by
      rw [runAfter_attempts, hshort]
      rfl
    have hlaw := withinLaw_backoff hrun jitter
    have hfirst : delayAfter 1 = 500 := by norm_num [delayAfter]
    rw [WithinLaw, if_neg (by decide), hfirst] at hlaw
    exact ⟨_, rfl, hlaw.2⟩

section

variable (evs : List LinkEvent)

theorem NoneShortAfterFailure.of_append {hist hist' : List LinkLine}
    (h : NoneShortAfterFailure (hist ++ hist')) : NoneShortAfterFailure hist := by
  intro pre e post hsplit
  exact h pre e (post ++ hist') (by simp [hsplit])

/-- The count is right as long as no session ends unproductive after an unproductive outcome. -/
theorem counts_of_noneShort (h : NoneShortAfterFailure ((Link.run false).history evs)) :
    Counts ((Link.run false).history evs) ((Link.run false).final evs) := by
  revert h
  refine (Link.run false).run_induction
    (P := fun hist s => NoneShortAfterFailure hist → Counts hist s) ?_ ?_ evs
  · rintro - notBefore run hlink
    cases hlink
    rfl
  · intro is ev ih hnone
    refine ((Link.step_link _ ev).counts (ih hnone.of_append) ?_).1
    exact hnone _ _ [] rfl

/-- **The delays follow the law in exactly the runs in which no session ends unproductive where
the outcome before it was unproductive too.**  After such a session the count starts again at 1, so
the delay is that of a first failure, where the law asks for at least that of a second. -/
theorem backoff_law_iff :
    BackoffLaw ((Link.run false).history evs) ↔
      NoneShortAfterFailure ((Link.run false).history evs) := by
  constructor
  · intro hlaw pre e post hsplit outcome houtcome hshort
    obtain ⟨delay, hdelay, hwithin⟩ := hlaw.delays pre e post hsplit _ houtcome
    obtain ⟨is, ev, js, rfl, rfl, rfl⟩ := (Link.run false).history_eq_append hsplit
    obtain ⟨delay', hdelay', hle⟩ := (Link.step_link _ ev).delay_of_short houtcome hshort
    obtain rfl : delay' = delay := List.singleton_inj.mp (hdelay'.symm.trans hdelay)
    rw [outcomes_snoc, houtcome, Option.toList_some, streak_snoc, WithinLaw] at hwithin
    simp only [LinkOutcome.productive, hshort, Bool.false_eq_true, if_false, Nat.add_eq_zero_iff,
      one_ne_zero, and_false] at hwithin
    by_contra hne
    have hlong := le_delayAfter (k := streak (outcomes ((Link.run false).history is)) + 1)
      (by omega)
    linarith [hwithin.1]
  · intro hnone
    refine ⟨fun pre e post hsplit o ho => ?_, fun run => ?_⟩
    · obtain ⟨is, ev, js, rfl, rfl, rfl⟩ := (Link.run false).history_eq_append hsplit
      have hbefore : NoneShortAfterFailure ((Link.run false).history is) := by
        rw [hsplit] at hnone
        exact hnone.of_append
      obtain ⟨-, hdelay⟩ := (Link.step_link _ ev).counts (counts_of_noneShort is hbefore)
        (hnone _ _ _ hsplit)
      obtain ⟨run, jitter, hout, hrun⟩ := hdelay o ho
      exact ⟨_, hout, withinLaw_backoff hrun jitter⟩
    · exact ⟨lt_of_le_of_lt (exponent_le run) (by decide), multiplier_eq run,
        min_eq_left (mul_multiplier_le run)⟩

end

/-- The longest jitter. -/
def Jitter.longest : Jitter := ⟨1, by norm_num, le_refl 1⟩

/-- The dial fails once, and the second attempt gives a session. -/
def upAfterFailure : List LinkEvent := [.dialFailed 0 .longest, .established 500]

/-- The session ends after a second, without a byte. -/
def emptyEnd : LinkEvent := .io 1500 ⟨.remoteSide, .readFailed⟩ .longest

/-- The law asks for 0.8 s at least after two unproductive outcomes in a row, and the link waits
half a second. -/
theorem second_failure_forgotten :
    ¬ BackoffLaw ((Link.run false).history (upAfterFailure ++ [emptyEnd])) := by
  intro hlaw
  have hsplit := (Link.run false).history_snoc upAfterFailure emptyEnd
  obtain ⟨delay, hdelay, hwithin⟩ := hlaw.delays _ _ [] hsplit
    (.ended ⟨.remoteSide, true, 0, 0, 1000⟩) (by decide +kernel)
  have hout : ((Link.run false).step ((Link.run false).final upAfterFailure) emptyEnd).2
      = [500] := by decide +kernel
  have hstreak : streak (outcomes ((Link.run false).history (upAfterFailure ++ [emptyEnd])))
      = 2 := by decide +kernel
  obtain rfl : 500 = delay := List.singleton_inj.mp (hout.symm.trans hdelay)
  rw [← hsplit, hstreak, WithinLaw, if_neg (by decide)] at hwithin
  linarith [le_delayAfter (le_refl 2), hwithin.1]

end Aqualung.Snorkel
