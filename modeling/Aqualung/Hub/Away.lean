/-
# What phones know of home

A phone learns from notes that home is away, or back.  A note goes out where something
happens: when a phone is answered `initialize`, when the serving link is lost, when a link is
promoted and there was none.  Whether home is away is a matter of the state.

`NoteStep` is what one step can do to both: a note says what is the case AFTER the step, and a phone
that gets none knew it already.  It holds of every step, most of which are `NoteStep.quiet`.  By
induction (`Run.informed`) the last note a phone was sent says what is the case, and a phone that
has not been answered `initialize` has been sent none; `phones_know_away` adds what this is worth to
the phone, the error it gets for its requests and the silence of a cutover.
-/
import Aqualung.Hub.Handshake

namespace Aqualung

open Lib

/-! ## 1. Notes -/

theorem hostAwayNote_inj {a b : Bool} : hostAwayNote a = hostAwayNote b ↔ a = b := by
  revert a b
  decide

/-- What the note says that the effect sends to the phone. -/
def Effect.awayNote (p : PhoneId) (eff : Effect) : Option Bool :=
  eff.text.bind fun e =>
    if e = (p, hostAwayNote true) then some true
    else if e = (p, hostAwayNote false) then some false
    else none

@[simp] theorem Effect.awayNote_eq_some {p : PhoneId} {eff : Effect} {away : Bool} :
    eff.awayNote p = some away ↔ eff = .toPhone p (hostAwayNote away) := by
  rw [← Effect.text_eq_some, awayNote, Option.bind_eq_some_iff]
  constructor
  · rintro ⟨e, htext, hif⟩
    split at hif
    · rename_i he
      rw [htext, he, ← Option.some.inj hif]
    · split at hif
      · rename_i he
        rw [htext, he, ← Option.some.inj hif]
      · cases hif
  · intro htext
    refine ⟨_, htext, ?_⟩
    cases away
    · rw [if_neg (by simp [hostAwayNote_inj]), if_pos rfl]
    · rw [if_pos rfl]

/-- What the notes said that the phone was sent, in order. -/
def awayNotes (p : PhoneId) (hist : List Line) : List Bool := collect (Effect.awayNote p) hist

/-- What the phone was told last; without a note, that home is not away. -/
def toldAway (p : PhoneId) (hist : List Line) : Bool := (awayNotes p hist).getLast?.getD false

section

variable {p : PhoneId} {hist : List Line} {l : Loop} {t : Turn} {out : List Effect}

theorem awayNotes_silent (hout : ∀ away, .toPhone p (hostAwayNote away) ∉ out) :
    awayNotes p (hist ++ [⟨l, t, out⟩]) = awayNotes p hist := by
  have hnone : out.filterMap (Effect.awayNote p) = [] := by
    rw [List.filterMap_eq_nil_iff]
    intro eff heff
    rw [Option.eq_none_iff_forall_not_mem]
    intro away haway
    rw [Effect.awayNote_eq_some.mp haway] at heff
    exact hout away heff
  rw [awayNotes, collect_append, collect_singleton, hnone, List.append_nil]
  rfl

theorem toldAway_told {away : Bool} (hmem : .toPhone p (hostAwayNote away) ∈ out)
    (hall : ∀ b, .toPhone p (hostAwayNote b) ∈ out → b = away) :
    toldAway p (hist ++ [⟨l, t, out⟩]) = away := by
  have hnotes : ∀ b, b ∈ out.filterMap (Effect.awayNote p) ↔ .toPhone p (hostAwayNote b) ∈ out := by
    intro b
    simp only [List.mem_filterMap, Effect.awayNote_eq_some]
    exact ⟨fun ⟨_, heff, heq⟩ => heq ▸ heff, fun hb => ⟨_, hb, rfl⟩⟩
  rw [toldAway, awayNotes, collect_append, collect_singleton, List.getLast?_append]
  cases hlast : (out.filterMap (Effect.awayNote p)).getLast? with
  | none =>
    rw [List.getLast?_eq_none_iff] at hlast
    have hnil := (hnotes away).mpr hmem
    rw [hlast] at hnil
    cases hnil
  | some b => exact hall b ((hnotes b).mp (List.mem_of_getLast? hlast))

end

/-! ## 2. What a step tells the phones -/

/-- What a step does to the phones, to whether home is away, and to what the phones know. -/
structure NoteStep (h h' : Hub) (out : List Effect) : Prop where
  /-- A note says what is the case after the step, and goes to a phone that is ready then. -/
  true_note : ∀ p away, .toPhone p (hostAwayNote away) ∈ out →
    away = h'.home.isAway ∧ h'.phones.lookup p = some .ready
  /-- A phone that is ready after the step and gets no note was ready before, and nothing has
  changed, or it has just become ready, and home is not away. -/
  no_note : ∀ p, h'.phones.lookup p = some .ready →
    (∀ away, .toPhone p (hostAwayNote away) ∉ out) →
      (h.phones.lookup p = some .ready ∧ h'.home.isAway = h.home.isAway) ∨
        (h.phones.lookup p = some .connected ∧ h'.home.isAway = false)
  /-- A phone that is not yet ready was connected before, or it is new. -/
  connected : ∀ p, h'.phones.lookup p = some .connected →
    h.phones.lookup p = some .connected ∨ h.nextPhone < p
  nextPhone : h.nextPhone ≤ h'.nextPhone

/-- A step that neither changes home nor sends a note, and at most forgets phones or accepts
new ones. -/
theorem NoteStep.quiet {h h' : Hub} {out : List Effect}
    (hhome : h'.home.isAway = h.home.isAway)
    (hphones : ∀ p phone, h'.phones.lookup p = some phone →
      h.phones.lookup p = some phone ∨ (phone = .connected ∧ h.nextPhone < p))
    (hnext : h.nextPhone ≤ h'.nextPhone)
    (hout : ∀ p m, .toPhone p m ∈ out → m.id = none → m.method ≠ some "aqualung/host_away") :
    NoteStep h h' out where
  true_note p away hmem := absurd (method_hostAwayNote away) (hout p _ hmem (id_hostAwayNote _))
  no_note p hp _ := by
    rcases hphones p _ hp with hp | ⟨hp, -⟩
    · exact .inl ⟨hp, hhome⟩
    · cases hp
  connected p hp := (hphones p _ hp).imp_right And.right
  nextPhone := hnext

/-- A step that tells all phones that are ready whether home is away. -/
theorem NoteStep.broadcast {h h' : Hub} {out : List Effect} (hphones : h'.phones = h.phones)
    (hnext : h'.nextPhone = h.nextPhone)
    (hout : ∀ p m, .toPhone p m ∈ out ↔ .toPhone p m ∈ h.broadcastAway h'.home.isAway) :
    NoteStep h h' out where
  true_note p away hmem := by
    obtain ⟨hp, heq⟩ := Hub.mem_broadcastAway.mp ((hout p _).mp hmem)
    exact ⟨hostAwayNote_inj.mp heq, hphones ▸ hp⟩
  no_note p hp hno := by
    rw [hphones] at hp
    exact absurd ((hout p _).mpr (Hub.mem_broadcastAway.mpr ⟨hp, rfl⟩)) (hno _)
  connected p hp := .inl (hphones ▸ hp)
  nextPhone := hnext.ge

theorem HubStep.noteStep {t : Turn} {h h' : Hub} {out : List Effect} (hs : HubStep t h h' out) :
    NoteStep h h' out := by
  have hquiet : h'.home.mux = h.home.mux → h'.phones = h.phones → h.nextPhone ≤ h'.nextPhone →
      (∀ p m, .toPhone p m ∈ out → m.id = none → m.method ≠ some "aqualung/host_away") →
      NoteStep h h' out := fun hhome hphones hnext hout =>
    .quiet (by rw [Home.isAway_eq, Home.isAway_eq, hhome]) (fun p phone hp => .inl (hphones ▸ hp))
      hnext hout
  cases hs with
  | accepted ht => exact hquiet (by simp) rfl le_rfl fun p m hmem => by simp at hmem
  | candidateGone hc why => exact hquiet (by simp) rfl le_rfl fun p m hmem => by simp at hmem
  | candidateRefused hc ht hv => exact hquiet (by simp) rfl le_rfl fun p m hmem => by simp at hmem
  | candidateFailed hc hset he => exact hquiet (by simp) rfl le_rfl fun p m hmem => by simp at hmem
  | registered hc ht => exact hquiet (by simp) rfl le_rfl fun p m hmem => by simp at hmem
  | initializing hc why => exact hquiet (by simp) rfl le_rfl fun p m hmem => by simp at hmem
  | loading hc hset he hne => exact hquiet (by simp) rfl le_rfl fun p m hmem => by simp at hmem
  | loadAnswered hc hset hp => exact hquiet (by simp) rfl le_rfl fun p m hmem => by simp at hmem
  | relayed hset hm =>
    refine hquiet rfl rfl le_rfl fun p m hmem hid => ?_
    rw [(Hub.mem_sendPhone.mp hmem).2.1, Obj.id_withId] at hid
    cases hid
  | promoted hc why =>
    cases hm : h.home.mux with
    | none =>
      refine .broadcast rfl rfl fun p m => ?_
      rw [Home.isAway_eq, Home.mux_ofParts]
      rfl
    | some g =>
      exact .quiet (by simp [Home.isAway_eq, hm]) (fun p phone hp => .inl hp) le_rfl
        fun p m hmem => by simp [Hub.promotionOut] at hmem
  | muxLost hm ht =>
    refine .broadcast rfl rfl fun p m => ?_
    rw [Home.isAway_eq, Home.mux_ofParts]
    simp
  | notified hm ht hmethod hid =>
    refine hquiet rfl rfl le_rfl fun p m hmem _ hnote => ?_
    obtain ⟨rfl, method, hmethod', hupdate⟩ := Hub.mem_onHomeNotification hmem
    obtain rfl := Option.some.inj (hmethod'.symm.trans hnote)
    exact absurd hupdate (by decide)
  | asked hm ht hmethod hid hsession hne =>
    refine hquiet rfl rfl le_rfl fun p m hmem hid' => ?_
    obtain ⟨c, -, hc⟩ := List.mem_flatMap.mp hmem
    rw [(Hub.mem_sendPhone.mp hc).2.1, Obj.id_withId] at hid'
    cases hid'
  | hello ht =>
    refine .quiet rfl (fun p phone hp => ?_) (Nat.le_succ _) fun p m hmem => by simp at hmem
    rw [Table.lookup_insert_eq] at hp
    split at hp
    · rename_i heq
      exact .inr ⟨(Option.some.inj hp).symm, heq ▸ Nat.lt_succ_self _⟩
    · exact .inl hp
  | refused ht hp hcode =>
    refine hquiet rfl rfl le_rfl fun p m hmem _ => ?_
    cases List.mem_singleton.mp hmem
    simp
  | @initialized q phone obj id ht hid hmethod hp =>
    have hlookup : ∀ p, ((h.phones.erase q).insert q .ready).lookup p
        = if p = q then some .ready else h.phones.lookup p := fun p =>
      Table.lookup_insert_erase h.phones q p .ready
    have hnote : ∀ p away,
        .toPhone p (hostAwayNote away) ∈ (Effect.toPhone q (initializeResult id) ::
        if h.home.isAway then [.toPhone q (hostAwayNote true)] else []) →
        p = q ∧ away = true ∧ h.home.isAway := by
      intro p away hmem
      rcases List.mem_cons.mp hmem with heq | hmem
      · have hmethod' := congrArg Obj.method (Effect.toPhone.inj heq).2
        simp at hmethod'
      · split at hmem
        · obtain ⟨rfl, heq⟩ := Effect.toPhone.inj (List.mem_singleton.mp hmem)
          exact ⟨rfl, hostAwayNote_inj.mp heq, ‹_›⟩
        · cases hmem
    refine ⟨fun p away hmem => ?_, fun p hp' hno => ?_, fun p hp' => ?_, le_rfl⟩
    · obtain ⟨rfl, rfl, haway⟩ := hnote p away hmem
      exact ⟨haway.symm, by rw [hlookup, if_pos rfl]⟩
    · rw [hlookup] at hp'
      split at hp'
      · rename_i heq
        subst heq
        have haway : h.home.isAway = false := by
          cases ha : h.home.isAway with
          | false => rfl
          | true => exact absurd (by simp [ha]) (hno true)
        cases phone with
        | connected => exact .inr ⟨hp, haway⟩
        | ready => exact .inl ⟨hp, rfl⟩
      · exact .inl ⟨hp', rfl⟩
    · rw [hlookup] at hp'
      split at hp'
      · cases hp'
      · exact .inl hp'
  | requestAway ht hp hmethod hid hf hm =>
    refine hquiet rfl rfl le_rfl fun p m hmem _ => ?_
    cases List.mem_singleton.mp hmem
    simp [Hub.awayError]
  | requestForwarded ht hp hmethod hid hf hm =>
    exact hquiet rfl rfl le_rfl fun p m hmem => by simp at hmem
  | replied ht hp hmethod hreply hid hkey hopen =>
    exact hquiet rfl rfl le_rfl fun p m hmem => by simp at hmem
  | phoneLeft ht =>
    refine .quiet rfl (fun p phone hp => .inl ?_) le_rfl fun p m hmem => by simp at hmem
    rw [Hub.onPhoneEof, Table.lookup_erase_eq] at hp
    split at hp
    · cases hp
    · exact hp
  | _ => exact hquiet rfl rfl le_rfl fun p m hmem => by simp at hmem

/-! ## 3. What the phones know -/

/-- What the notes of a history have to do with the hub. -/
structure Informed (hist : List Line) (h : Hub) : Prop where
  ready : ∀ p, h.phones.lookup p = some .ready → toldAway p hist = h.home.isAway
  silent : ∀ p, h.phones.lookup p = some .connected ∨ h.nextPhone < p → awayNotes p hist = []

theorem Run.informed {hist : List Line} {h : Hub} (hr : Run hist h) : Informed hist h := by
  refine hr.invariant (P := Informed)
    ⟨fun _ hp => (by cases hp), fun _ _ => rfl⟩ fun {hist h t h' out} hr hs hi => ?_
  have hn := hs.noteStep
  refine ⟨fun p hp => ?_, fun p hp => ?_⟩
  · by_cases hnote : ∃ away, .toPhone p (hostAwayNote away) ∈ out
    · obtain ⟨away, hnote⟩ := hnote
      have haway := (hn.true_note p away hnote).1
      exact toldAway_told (haway ▸ hnote) fun b hb => (hn.true_note p b hb).1
    have hno : ∀ away, .toPhone p (hostAwayNote away) ∉ out := not_exists.mp hnote
    rw [toldAway, awayNotes_silent hno]
    rcases hn.no_note p hp hno with ⟨hready, heq⟩ | ⟨hconnected, heq⟩
    · rw [heq]
      exact hi.ready p hready
    · rw [heq, hi.silent p (.inl hconnected)]
      rfl
  · have hnot : h'.phones.lookup p ≠ some .ready := fun hready => by
      rcases hp with hp | hp
      · rw [hp] at hready
        cases hready
      · have hle := hs.phones_below hr.wellKept.below p (Table.mem_iff_exists.mpr ⟨_, hready⟩)
        exact absurd hp (not_lt_of_ge hle)
    rw [awayNotes_silent fun away hmem => hnot (hn.true_note p away hmem).2]
    refine hi.silent p ?_
    rcases hp with hp | hp
    · exact hn.connected p hp
    · exact .inr (lt_of_le_of_lt hn.nextPhone hp)

/-! ## 4. Requests while home is away, and the cutover -/

/-- The hub's answer to a request that it does not answer by itself. -/
theorem turn_forwardable {t : Turn} {h : Hub} {p : PhoneId} {phone : Phone} {obj : Obj}
    {method : String} {id : Json} (ht : t.PhoneSays p obj) (hp : h.phones.lookup p = some phone)
    (hmethod : obj.method = some method) (hid : obj.id = some id) (hf : h.Forwardable p method) :
    (Loop.turn ⟨h, false⟩ t).2 = match h.home.mux with
      | none => [.toPhone p (h.awayError id)]
      | some g => [.toHome g (.acp (obj.withId (.ofU64 (h.nextReq + 1))))] := by
  have hturn : (Loop.turn ⟨h, false⟩ t).2
      = ((h.prepare t.order p method obj).forwardRequest p id obj).2 := by
    simp [Loop.turn, show t.input = .recv (.phoneText p (.ofObj obj)) from ht, Hub.handle,
      Hub.onPhoneText, hp, Hub.onRpc, hmethod, hid, Hub.onPhoneRequest_of_forwardable id hf]
  rw [hturn, Hub.prepare_eq, Hub.forwardRequest, Hub.muxLink_eq]
  cases hm : h.home.mux with
  | none =>
    simp only [Option.map_none, Hub.sendPhone, hp]
    rfl
  | some g =>
    simp only [Option.map_some, Hub.allocReq]

/-- A cutover sends nothing to phones. -/
theorem cutover_silent {t : Turn} {h : Hub} {g g' : HomeGen} (hm : h.home.mux = some g)
    (hm' : (Loop.turn ⟨h, false⟩ t).1.hub.home.mux = some g') (hne : g' ≠ g) (p : PhoneId)
    (m : Obj) : .toPhone p m ∉ (Loop.turn ⟨h, false⟩ t).2 := by
  by_cases ht : t.Stops
  · rw [Loop.turn_stops rfl ht, Hub.shutdown_eq] at hm'
    cases hm'
  · obtain ⟨h', out, heq, hs⟩ := Loop.turn_step (l := ⟨h, false⟩) rfl ht
    rw [heq] at hm' ⊢
    cases hs.muxStep with
    | kept hkept =>
      rw [show h'.home.mux = _ from hkept, hm] at hm'
      exact absurd (Option.some.inj hm').symm hne
    | lost _ _ hlost _ =>
      rw [show h' = _ from hlost, Home.mux_ofParts] at hm'
      cases hm'
    | promoted hc why hpromoted hout =>
      rw [show out = _ from hout, show (Loop.hub ⟨h, false⟩).home.mux = _ from hm]
      simp [Hub.promotionOut]

/-- What a phone that is ready can rely on, in a state of the hub with its history. -/
structure AwayKnown (hist : List Line) (h : Hub) : Prop where
  /-- The last note says that home is away exactly when there is no serving link. -/
  told : ∀ p, h.phones.lookup p = some .ready → (toldAway p hist = true ↔ h.home.mux = none)
  /-- That is when its requests are answered with the error of an absent host. -/
  refused : ∀ t p obj method id, h.phones.lookup p = some .ready → t.PhoneSays p obj →
    obj.method = some method → obj.id = some id → method ≠ "initialize" → method ≠ "authenticate" →
    ((∃ message, .toPhone p (rpcError id (-32003) message) ∈ (Loop.turn ⟨h, false⟩ t).2) ↔
      h.home.mux = none)
  /-- When one link takes the place of another, no phone is told anything. -/
  cutover : ∀ t g g', h.home.mux = some g →
    (Loop.turn ⟨h, false⟩ t).1.hub.home.mux = some g' → g' ≠ g →
    ∀ p m, .toPhone p m ∉ (Loop.turn ⟨h, false⟩ t).2

/-- **Phones know whether home is away**, in every state before the shutdown: from the last note
they were sent, which agrees with the error they get for a request.  When one link takes the place
of another they are told nothing, and nothing has changed for them. -/
theorem phones_know_away (ts : List Turn) (hl : (Hub.run.final ts).stopped = false) :
    AwayKnown (Hub.run.history ts) (Hub.run.final ts).hub := by
  refine ⟨fun p hp => ?_, fun t p obj method id hp ht hmethod hid hinit hauth => ?_,
    fun t g g' hm hm' hne => cutover_silent hm hm' hne⟩
  · rw [(running hl).informed.ready p hp, Home.isAway_eq, Option.isNone_iff_eq_none]
  · have hready : Hub.phoneReady (Hub.run.final ts).hub p := by
      simp [Hub.phoneReady, hp]
    rw [turn_forwardable ht hp hmethod hid ⟨hinit, hauth, fun _ _ => hready⟩]
    cases (Hub.run.final ts).hub.home.mux with
    | none => simp [Hub.awayError]
    | some g => simp

/-- Phone 1 is ready, and the link is lost. -/
theorem phones_know_away_of_eof :
    (Hub.run.final (Turn.bringUp ++ [.get (.homeEof 1)])).hub.phones.lookup 1 = some .ready ∧
      AwayKnown (Hub.run.history (Turn.bringUp ++ [.get (.homeEof 1)]))
        (Hub.run.final (Turn.bringUp ++ [.get (.homeEof 1)])).hub :=
  ⟨by decide +kernel, phones_know_away _ (by decide +kernel)⟩

end Aqualung
