/-
# A register and its desk

Clients write to a desk to be registered.  Their letters wait in its mail, the desk reads them in
turn, and gives out the numbers `1`, `2` and so on.  Nobody sees the whole of this: a client knows
its own number, the desk knows how many numbers it has given, and the letters in between know who
has asked.

`Registered queue number n` says that the three have not come apart: who waits has no number yet,
no number has been given to two clients, and every number up to `n` to one.  It is kept by what can
happen, that somebody asks and that the first in the queue is given the next number.

What keeps a client from asking twice is the client's own doing: it asks once, on its way from
`Early` to `Waits`, and waits until it has its number.  `Desk` is the register together with this,
and the two rules that follow it are all a user needs: `Desk.move` where a client moves and may
write, `Desk.turn` where the desk reads a letter or does something else.

A desk may be `opened` or not.  Once it is closed, letters are thrown away and nobody is given a
number any more, so a client that waits may give up; while it is open it may not.
-/
import Mathlib.Data.List.Nodup
import Mathlib.Logic.Function.Basic
import Mathlib.Tactic.Common

namespace Aqualung.Lib

variable {K : Type*}

/-! ## 1. The register -/

/-- The clients in the queue wait for a number, and the numbers from `1` to `n` have been given,
each to one client. -/
structure Registered (queue : List K) (number : K → Option Nat) (n : Nat) : Prop where
  nodup : queue.Nodup
  waiting : ∀ k ∈ queue, number k = none
  bounds : ∀ k i, number k = some i → 1 ≤ i ∧ i ≤ n
  unique : ∀ k k' i, number k = some i → number k' = some i → k = k'
  given : ∀ i, 1 ≤ i → i ≤ n → ∃ k, number k = some i

namespace Registered

variable {queue : List K} {number : K → Option Nat} {n : Nat}

theorem start : Registered ([] : List K) (fun _ => none) 0 where
  nodup := .nil
  waiting _ h := absurd h List.not_mem_nil
  bounds _ _ h := by cases h
  unique _ _ _ h := by cases h
  given i hi hle := by omega

theorem ask (h : Registered queue number n) {k : K} (hqueue : k ∉ queue)
    (hnumber : number k = none) : Registered (queue ++ [k]) number n where
  nodup := by
    rw [List.nodup_append_comm, List.singleton_append]
    exact List.nodup_cons.mpr ⟨hqueue, h.nodup⟩
  waiting k' hk' := by
    rcases List.mem_append.mp hk' with hk' | hk'
    · exact h.waiting k' hk'
    · rw [List.mem_singleton.mp hk']
      exact hnumber
  bounds := h.bounds
  unique := h.unique
  given := h.given

theorem give [DecidableEq K] {k : K} (h : Registered (k :: queue) number n) :
    Registered queue (Function.update number k (some (n + 1))) (n + 1) where
  nodup := (List.nodup_cons.mp h.nodup).2
  waiting k' hk' := by
    have hne : k' ≠ k := fun heq => (List.nodup_cons.mp h.nodup).1 (heq ▸ hk')
    rw [Function.update_of_ne hne]
    exact h.waiting k' (List.mem_cons_of_mem _ hk')
  bounds k' i hi := by
    by_cases hk : k' = k
    · rw [hk, Function.update_self] at hi
      cases hi
      omega
    · rw [Function.update_of_ne hk] at hi
      have := h.bounds k' i hi
      omega
  unique k₁ k₂ i h₁ h₂ := by
    have hold : ∀ k', k' ≠ k → Function.update number k (some (n + 1)) k' = some i →
        number k' = some i ∧ i ≠ n + 1 := by
      intro k' hk' hi
      rw [Function.update_of_ne hk'] at hi
      have := h.bounds k' i hi
      exact ⟨hi, by omega⟩
    have hnew : ∀ k', k' = k → Function.update number k (some (n + 1)) k' = some i →
        i = n + 1 := by
      rintro k' rfl hi
      rw [Function.update_self] at hi
      exact (Option.some.inj hi).symm
    by_cases hk₁ : k₁ = k <;> by_cases hk₂ : k₂ = k
    · rw [hk₁, hk₂]
    · exact absurd (hnew k₁ hk₁ h₁) (hold k₂ hk₂ h₂).2
    · exact absurd (hnew k₂ hk₂ h₂) (hold k₁ hk₁ h₁).2
    · exact h.unique k₁ k₂ i (hold k₁ hk₁ h₁).1 (hold k₂ hk₂ h₂).1
  given i hi hle := by
    by_cases hlast : i = n + 1
    · exact ⟨k, by rw [Function.update_self, hlast]⟩
    · obtain ⟨k', hk'⟩ := h.given i hi (by omega)
      have hne : k' ≠ k := fun heq => by
        rw [heq, h.waiting k List.mem_cons_self] at hk'
        cases hk'
      exact ⟨k', by rw [Function.update_of_ne hne, hk']⟩

end Registered

/-! ## 2. Clients -/

variable {L T : Type*}

/-- How clients in states `T` write letters `L` to be registered: the number a client has been
given, whether it has not asked yet and whether it waits, and what a letter says. -/
structure Client (K L T : Type*) where
  number : T → Option Nat
  Early : T → Prop
  Waits : T → Prop
  /-- The letter asks for a number. -/
  Asks : L → Prop
  /-- The client that asks in the letter. -/
  client : L → Option K

namespace Client

/-- A move of a client: it asks, which it does once and only while the desk is open, or it stays
where it was with respect to the desk. -/
inductive Move (c : Client K L T) (opened : Prop) (t t' : T) : Bool → Prop
  | asks (hopen : opened) (hearly : c.Early t) (hlate : ¬ c.Early t') (hwaits : c.Waits t') :
      Move c opened t t' true
  | stays (hearly : c.Early t' → c.Early t)
      (hwaits : opened → c.Waits t → c.number t = none → c.Waits t') : Move c opened t t' false

/-- A turn of the desk: it reads a letter that asks and gives the next number, or it does something
else. -/
inductive Turn (c : Client K L T) (mail : List L) (clients clients' : K → T) (n : Nat) :
    List L → Nat → Prop
  | gives {l : L} {mail' : List L} {k : K} (hmail : mail = l :: mail') (hk : c.client l = some k)
      (hnew : c.number (clients' k) = (c.number (clients k)).or (some (n + 1)))
      (hold : ∀ k', k' ≠ k → c.number (clients' k') = c.number (clients k')) :
      Turn c mail clients clients' n mail' (n + 1)
  | other {mail' : List L} (hmail : ∀ l ∈ mail', l ∈ mail)
      (hline : mail'.filterMap c.client = mail.filterMap c.client)
      (hold : ∀ k, c.number (clients' k) = c.number (clients k)) :
      Turn c mail clients clients' n mail' n

variable {c : Client K L T}

/-- A client that keeps its number changes nobody's number. -/
theorem number_update [DecidableEq K] {clients : K → T} {k : K} {t : T}
    (h : c.number t = c.number (clients k)) (k' : K) :
    c.number (Function.update clients k t k') = c.number (clients k') := by
  by_cases hk : k' = k
  · rw [hk, Function.update_self, h]
  · rw [Function.update_of_ne hk]

/-- The number that a client has after a turn is an old one, or the next one, and then it waited. -/
theorem Turn.number_cases {mail mail' : List L} {clients clients' : K → T} {n n' : Nat}
    (ht : c.Turn mail clients clients' n mail' n') {k : K} {i : Nat}
    (hi : c.number (clients' k) = some i) :
    c.number (clients k) = some i ∨
      k ∈ mail.filterMap c.client ∧ i = n + 1 ∧ n' = n + 1 := by
  cases ht with
  | other hmail hline hold => exact .inl (hold k ▸ hi)
  | @gives l mail' k' hmail hk' hnew hold =>
    by_cases hk : k = k'
    · subst hk
      rw [hnew] at hi
      cases hbefore : c.number (clients k) with
      | some j => exact .inl (by simpa [hbefore] using hi)
      | none =>
        refine .inr ⟨?_, by simpa [hbefore, eq_comm] using hi, rfl⟩
        exact List.mem_filterMap.mpr ⟨l, hmail ▸ List.mem_cons_self, hk'⟩
    · exact .inl (hold k hk ▸ hi)

/-- Nobody gets in line in a turn of the desk. -/
theorem Turn.mem_line {mail mail' : List L} {clients clients' : K → T} {n n' : Nat}
    (ht : c.Turn mail clients clients' n mail' n') {k : K} (hk : k ∈ mail'.filterMap c.client) :
    k ∈ mail.filterMap c.client := by
  cases ht with
  | other hmail hline hold => exact hline ▸ hk
  | gives hmail hk' hnew hold =>
    rw [hmail, List.filterMap_cons_some hk']
    exact List.mem_cons_of_mem _ hk

end Client

/-! ## 3. The desk -/

/-- **The desk**: what is in its mail, its clients, and the last number it has given. -/
structure Desk (c : Client K L T) (opened : Prop) (mail : List L) (clients : K → T) (n : Nat) :
    Prop where
  register : Registered (mail.filterMap c.client) (fun k => c.number (clients k)) n
  signed : ∀ l ∈ mail, c.Asks l → ∃ k, c.client l = some k
  early : ∀ k, c.Early (clients k) → k ∉ mail.filterMap c.client ∧ c.number (clients k) = none
  waits : opened → ∀ k ∈ mail.filterMap c.client, c.Waits (clients k)

namespace Desk

variable {c : Client K L T} {opened : Prop} {mail : List L} {clients : K → T} {n : Nat}

theorem start (h : ∀ k, c.number (clients k) = none) : Desk c opened [] clients 0 where
  register := by
    simp only [h]
    exact .start
  signed _ hl := absurd hl List.not_mem_nil
  early k _ := ⟨List.not_mem_nil, h k⟩
  waits _ _ hk := absurd hk List.not_mem_nil

/-- Mail comes that is not for the desk. -/
theorem mail_append (h : Desk c opened mail clients n) {new : List L}
    (hnew : ∀ l ∈ new, ¬ c.Asks l ∧ c.client l = none) : Desk c opened (mail ++ new) clients n := by
  have hline : (mail ++ new).filterMap c.client = mail.filterMap c.client := by
    rw [List.filterMap_append, List.filterMap_eq_nil_iff.mpr fun l hl => (hnew l hl).2,
      List.append_nil]
  refine ⟨hline ▸ h.register, fun l hl hasks => ?_, hline ▸ h.early, hline ▸ h.waits⟩
  rcases List.mem_append.mp hl with hl | hl
  · exact h.signed l hl hasks
  · exact absurd hasks (hnew l hl).1

/-- **A client moves**, and writes if it asks. -/
theorem move [DecidableEq K] (h : Desk c opened mail clients n) {k : K} {t : T} {asks : Bool}
    (hnumber : c.number t = c.number (clients k)) (hm : c.Move opened (clients k) t asks)
    {new : List L} (hnew : new.filterMap c.client = if asks then [k] else [])
    (hsigned : ∀ l ∈ new, c.Asks l → ∃ k, c.client l = some k) :
    Desk c opened (mail ++ new) (Function.update clients k t) n := by
  have hnumbers := Client.number_update hnumber
  have hline : (mail ++ new).filterMap c.client
      = mail.filterMap c.client ++ if asks then [k] else [] := by
    rw [List.filterMap_append, hnew]
  constructor
  case register =>
    simp only [hline, hnumbers]
    cases hm with
    | asks hopen hearly => exact h.register.ask (h.early k hearly).1 (h.early k hearly).2
    | stays => simpa using h.register
  case signed =>
    intro l hl hasks
    rcases List.mem_append.mp hl with hl | hl
    · exact h.signed l hl hasks
    · exact hsigned l hl hasks
  case early =>
    intro k' hearly'
    rw [hline, hnumbers]
    by_cases hk : k' = k
    · subst hk
      rw [Function.update_self] at hearly'
      cases hm with
      | asks hopen hearly hlate => exact absurd hearly' hlate
      | stays hearly => simpa using h.early k' (hearly hearly')
    · rw [Function.update_of_ne hk] at hearly'
      obtain ⟨hnot, hnone⟩ := h.early k' hearly'
      refine ⟨fun hmem => ?_, hnone⟩
      rcases List.mem_append.mp hmem with hmem | hmem
      · exact hnot hmem
      · cases asks <;> simp [hk] at hmem
  case waits =>
    intro hopen k' hmem
    rw [hline] at hmem
    by_cases hk : k' = k
    · subst hk
      rw [Function.update_self]
      cases hm with
      | asks _ _ _ hwaits => exact hwaits
      | stays _ hwaits =>
        have hmem : k' ∈ mail.filterMap c.client := by simpa using hmem
        exact hwaits hopen (h.waits hopen k' hmem) (h.register.waiting k' hmem)
    · rw [Function.update_of_ne hk]
      rcases List.mem_append.mp hmem with hmem | hmem
      · exact h.waits hopen k' hmem
      · cases asks <;> simp [hk] at hmem

/-- **The desk takes a turn**, in which no client moves. -/
theorem turn [DecidableEq K] (h : Desk c opened mail clients n) {opened' : Prop} {mail' : List L}
    {clients' : K → T} {n' : Nat} (ht : c.Turn mail clients clients' n mail' n')
    (hopen : opened' → opened) (hearly : ∀ k, c.Early (clients' k) → c.Early (clients k))
    (hwaits : ∀ k, c.Waits (clients k) → c.Waits (clients' k)) :
    Desk c opened' mail' clients' n' := by
  constructor
  case register =>
    cases ht with
    | other hmail hline hold =>
      simp only [hline, hold]
      exact h.register
    | @gives l mail' k hmail hk hnew hold =>
      have hreg := h.register
      rw [hmail, List.filterMap_cons_some hk] at hreg
      have hnumber : (fun k' => c.number (clients' k'))
          = Function.update (fun k' => c.number (clients k')) k (some (n + 1)) := by
        funext k'
        by_cases hk' : k' = k
        · rw [hk', Function.update_self, hnew, hreg.waiting k List.mem_cons_self, Option.none_or]
        · rw [Function.update_of_ne hk', hold k' hk']
      rw [hnumber]
      exact hreg.give
  case signed =>
    intro l hl
    cases ht with
    | other hmail => exact h.signed l (hmail l hl)
    | gives hmail => exact h.signed l (hmail ▸ List.mem_cons_of_mem _ hl)
  case early =>
    intro k hearly'
    obtain ⟨hnot, hnone⟩ := h.early k (hearly k hearly')
    refine ⟨fun hmem => hnot (ht.mem_line hmem), ?_⟩
    cases hi : c.number (clients' k) with
    | none => rfl
    | some i =>
      rcases ht.number_cases hi with hi | ⟨hmem, -⟩
      · rw [hnone] at hi
        cases hi
      · exact absurd hmem hnot
  case waits => exact fun hopen' k hmem => hwaits k (h.waits (hopen hopen') k (ht.mem_line hmem))

end Desk

end Aqualung.Lib
