/-
# Phones do not see each other

All phones share the maps of the hub and choose their own ids and session names.  What keeps
them apart is that every entry names its phone, that phone ids are not used twice, and that the
session tables are a roster: who joins or leaves a crew moves nobody else.

`HubStep.confined` goes through the steps a phone can take and says what they leave alone;
`Attendance.of_phone` says it of the roster, where the only thing that passes from one phone to
another is the lead of a session its driver has left (`Aside.gains`).  The claims of home's requests
are shared by all who were asked, so there the answer is another: a claim is only taken by a reply
to a copy, and a copy is only answered by the phone that it was put to (`Run.claim_taken`).
-/
import Aqualung.Hub.Reverse

namespace Aqualung

open Lib

/-! ## 1. Events of a phone -/

/-- The phone a message comes from.  A hello comes from the phone it gives its id to. -/
def ToHub.phone (h : Hub) : ToHub → Option PhoneId
  | .phoneHello => some (h.nextPhone + 1)
  | .phoneText p _ => some p
  | .phoneEof p => some p
  | _ => none

/-- The turn is an event of the phone `a`: its hello, a text it sends, or the end of its
connection. -/
def Turn.OfPhone (t : Turn) (h : Hub) (a : PhoneId) : Prop :=
  ∃ msg, t.input = .recv msg ∧ msg.phone h = some a

namespace Turn.OfPhone

variable {t : Turn} {h : Hub} {a : PhoneId}

theorem phone_eq (ht : t.OfPhone h a) {msg : ToHub} (hin : t.input = .recv msg) :
    msg.phone h = some a := by
  obtain ⟨msg', hin', hphone⟩ := ht
  obtain rfl := Input.recv.inj (hin'.symm.trans hin)
  exact hphone

theorem not_home (ht : t.OfPhone h a) {g : HomeGen} {msg : LeaderServer} :
    ¬ t.FromHome g msg := by
  intro hin
  cases ht.phone_eq hin

theorem not_homeEof (ht : t.OfPhone h a) (g : HomeGen) : t.input ≠ .recv (.homeEof g) := by
  intro hin
  cases ht.phone_eq hin

theorem not_gone (ht : t.OfPhone h a) (c : Incoming) : ¬ CandidateGone t c := by
  rintro (hin | ⟨message, hin⟩ | ⟨hin, -⟩)
  · exact ht.not_homeEof _ hin
  · exact ht.not_home hin
  · obtain ⟨msg, hin', -⟩ := ht
    cases hin.symm.trans hin'

theorem not_stops (ht : t.OfPhone h a) : ¬ t.Stops := by
  rintro (hin | hin)
  · obtain ⟨msg, hin', -⟩ := ht
    cases hin.symm.trans hin'
  · cases ht.phone_eq hin

theorem text_eq (ht : t.OfPhone h a) {p : PhoneId} {text : RpcText}
    (hin : t.input = .recv (.phoneText p text)) : p = a :=
  Option.some.inj (ht.phone_eq hin)

theorem eof_eq (ht : t.OfPhone h a) {p : PhoneId} (hin : t.input = .recv (.phoneEof p)) :
    p = a :=
  Option.some.inj (ht.phone_eq hin)

theorem hello_eq (ht : t.OfPhone h a) (hin : t.input = .recv .phoneHello) :
    h.nextPhone + 1 = a :=
  Option.some.inj (ht.phone_eq hin)

end Turn.OfPhone

/-- The follower `initialize` goes out for something home says. -/
theorem Initializing.fromHome {t : Turn} {h : Hub} {c : Incoming} {refused : Option Nat}
    (why : Initializing t h c refused) : ∃ msg, t.FromHome c.gen msg := by
  rcases why with ⟨link, d, -, hin, -⟩ | ⟨link, d, -, hin, -⟩
  · exact ⟨_, hin⟩
  · exact ⟨_, hin⟩

theorem Promoting.said {t : Turn} {h : Hub} {c : Incoming} {id : HomeReqId} {obj : Obj}
    (why : Promoting t h c id obj) : t.HomeSays c.gen obj := by
  rcases why with ⟨-, hset, -⟩ | ⟨pending, -, hset, -⟩
  · exact hset.said
  · exact hset.said

/-! ## 2. What such an event does outside the roster -/

/-- What an event of the phone `a` leaves alone, and to whom it sends. -/
structure Confined (a : PhoneId) (h h' : Hub) (out : List Effect) : Prop where
  sent : ∀ eff ∈ out, eff = .bindPhone a ∨ (∃ m, eff = .toPhone a m) ∨ ∃ g m, eff = .toHome g m
  phones : ∀ b, b ≠ a → h'.phones.lookup b = h.phones.lookup b
  reverse : ∀ b v, b ≠ a → h'.reverse.lookup (b, v) = h.reverse.lookup (b, v)
  outstanding : ∀ n, h'.outstanding.lookup n = h.outstanding.lookup n ∨
    (n = h.nextReq + 1 ∧ ∃ origin, h'.outstanding.lookup n = some (.forwarded a origin))
  home : h'.home = h.home

theorem Confined.phone_eq {a b : PhoneId} {h h' : Hub} {out : List Effect}
    (hconf : Confined a h h' out) {m : Obj} (hmem : .toPhone b m ∈ out) : b = a := by
  rcases hconf.sent _ hmem with hbad | ⟨m', heq⟩ | ⟨g, m', hbad⟩
  · cases hbad
  · exact (Effect.toPhone.inj heq).1
  · cases hbad

/-- **A phone's own steps are confined to it**, to the roster and to the claims. -/
theorem HubStep.confined {t : Turn} {h h' : Hub} {out : List Effect} (hs : HubStep t h h' out)
    {a : PhoneId} (ht : t.OfPhone h a) : Confined a h h' out := by
  have hphones : ∀ {phones : Table PhoneId Phone},
      (∀ b, b ≠ a → phones.lookup b = h.phones.lookup b) →
      (∀ eff ∈ out, eff = .bindPhone a ∨ (∃ m, eff = .toPhone a m) ∨ ∃ g m, eff = .toHome g m) →
      h'.phones = phones → h'.reverse = h.reverse → h'.outstanding = h.outstanding →
      h'.home = h.home → Confined a h h' out := by
    intro phones hb hout hphones hreverse hstanding hhome
    exact ⟨hout, hphones ▸ hb, fun b v _ => by rw [hreverse], fun n => .inl (by rw [hstanding]),
      hhome⟩
  have hsame := @hphones h.phones fun _ _ => rfl
  cases hs with
  | ignored => exact hsame (by simp) rfl rfl rfl rfl
  | accepted hin => cases ht.phone_eq hin
  | candidateGone hc why => exact absurd why (ht.not_gone _)
  | candidateRefused hc hin hv => exact absurd hin ht.not_home
  | candidateFailed hc hset he => exact absurd hset.said ht.not_home
  | refusalCleared hc hin => exact absurd hin ht.not_home
  | registered hc hin => exact absurd hin ht.not_home
  | initializing hc why =>
    obtain ⟨msg, hin⟩ := why.fromHome
    exact absurd hin ht.not_home
  | answerDropped hset hw => exact absurd hset.said ht.not_home
  | relayed hset hm => exact absurd hset.said ht.not_home
  | loading hc hset he hne => exact absurd hset.said ht.not_home
  | loadAnswered hc hset hp => exact absurd hset.said ht.not_home
  | promoted hc why => exact absurd why.said ht.not_home
  | muxLost hm hin =>
    rcases hin with hin | ⟨message, hin⟩
    · exact absurd hin (ht.not_homeEof _)
    · exact absurd hin ht.not_home
  | notified hm hin hmethod hid => exact absurd hin ht.not_home
  | asked hm hin hmethod hid hsession hne => exact absurd hin ht.not_home
  | hello hin =>
    obtain rfl := ht.hello_eq hin
    refine hphones (fun b hb => ?_) (by simp) rfl rfl rfl rfl
    exact AList.lookup_insert_ne hb
  | refused hin hp hcode =>
    obtain rfl := ht.text_eq hin
    exact hsame (by simp) rfl rfl rfl rfl
  | initialized hin hid hmethod hp =>
    obtain rfl := ht.text_eq hin
    refine hphones (fun b hb => ?_) (fun eff heff => ?_) rfl rfl rfl rfl
    · rw [Table.lookup_insert_erase, if_neg hb]
    · rcases List.mem_cons.mp heff with rfl | heff
      · exact .inr (.inl ⟨_, rfl⟩)
      · split at heff
        · rw [List.mem_singleton] at heff
          exact .inr (.inl ⟨_, heff⟩)
        · exact absurd heff List.not_mem_nil
  | requestAway hin hp hmethod hid hf hm =>
    obtain rfl := ht.text_eq hin
    exact hsame (by simp) rfl rfl rfl rfl
  | requestForwarded hin hp hmethod hid hf hm =>
    obtain rfl := ht.text_eq hin
    refine ⟨by simp, fun _ _ => rfl, fun _ _ _ => rfl, fun n => ?_, rfl⟩
    by_cases hn : n = h.nextReq + 1
    · subst hn
      exact .inr ⟨rfl, _, AList.lookup_insert _⟩
    · exact .inl (AList.lookup_insert_ne hn)
  | notificationForwarded hin hp hmethod hid hm => exact hsame (by simp) rfl rfl rfl rfl
  | replied hin hp hmethod hreply hid hkey hopen =>
    obtain rfl := ht.text_eq hin
    refine ⟨fun eff heff => ?_, fun _ _ => rfl, fun b v hb => ?_, fun _ => .inl rfl, rfl⟩
    · obtain ⟨g, -, rfl⟩ : ∃ g, h.home.mux = some g ∧ Effect.toHome g _ = eff := by
        simpa using heff
      exact .inr (.inr ⟨g, _, rfl⟩)
    · refine AList.lookup_erase_ne fun heq => hb ?_
      exact congrArg Prod.fst heq
  | replyDropped hin hp hmethod hreply hid hkey htaken hclaims =>
    obtain rfl := ht.text_eq hin
    refine ⟨by simp, fun _ _ => rfl, fun b v hb => ?_, fun _ => .inl rfl, rfl⟩
    refine AList.lookup_erase_ne fun heq => hb ?_
    exact congrArg Prod.fst heq
  | phoneLeft hin =>
    obtain rfl := ht.eof_eq hin
    refine ⟨by simp, fun b hb => ?_, fun b v hb => ?_, fun _ => .inl rfl, rfl⟩
    · exact AList.lookup_erase_ne hb
    · rw [Hub.onPhoneEof, Table.lookup_retain]
      cases h.reverse.lookup (b, v) with
      | none => rfl
      | some key => exact if_pos hb

/-! ## 3. What such an event does to the roster -/

/-- Who attaches in an event of a phone is that phone. -/
theorem Attaches.of_phone {t : Turn} {h : Hub} {a p : PhoneId} {s : SessionId}
    (hatt : Attaches t h p s) (ht : t.OfPhone h a) : p = a := by
  obtain ⟨-, ⟨obj, hin, -⟩ | ⟨g, id, obj, origin, hset, -⟩⟩ := hatt
  · exact ht.text_eq hin
  · exact absurd hset.said ht.not_home

/-- How an event of the phone `a` can change what the phone `b` is on the roster. -/
structure Aside (t : Turn) (a b : PhoneId) (s : SessionId) (o o' : Option (Crew PhoneId)) :
    Prop where
  member : Roster.Member o' b ↔ Roster.Member o b
  keeps : o.map Crew.leader = some b → o'.map Crew.leader = some b
  gains : o'.map Crew.leader = some b → o.map Crew.leader ≠ some b →
    o.map Crew.leader = some a ∧ Roster.Member o b ∧
      (t.input = .recv (.phoneEof a) ∨ Closes t a s)

theorem Aside.refl {t : Turn} {a b : PhoneId} {s : SessionId} (o : Option (Crew PhoneId)) :
    Aside t a b s o o :=
  ⟨Iff.rfl, id, fun hlead hnot => absurd hlead hnot⟩

/-- When `a` leaves a crew, another member can become its leader, if `a` led it. -/
theorem Aside.of_left {t : Turn} {a b : PhoneId} {s : SessionId} {o o' : Option (Crew PhoneId)}
    (hl : Roster.LeftFrom a o o') (hb : b ≠ a)
    (why : t.input = .recv (.phoneEof a) ∨ Closes t a s) : Aside t a b s o o' := by
  refine ⟨?_, fun hlead => hl.keeps hlead hb, fun hlead hnot => ?_⟩
  · rw [hl.member]
    exact and_iff_right hb
  · obtain ⟨hled, hmem⟩ := hl.succeeds hlead hnot
    exact ⟨hled, hmem, why⟩

/-- When `a` joins a crew, nobody else does, and it leads only a crew that did not exist. -/
theorem Aside.of_join {t : Turn} {a b : PhoneId} {s : SessionId} (o : Option (Crew PhoneId))
    (hb : b ≠ a) : Aside t a b s o (some (Crew.join a o)) := by
  have hleader : (some (Crew.join a o)).map Crew.leader = some ((o.map Crew.leader).getD a) := by
    rw [Option.map_some, Crew.leader_join]
  refine ⟨?_, fun hlead => ?_, fun hlead hnot => ?_⟩
  · rw [Roster.member_join]
    exact or_iff_right hb
  · rw [hleader, hlead]
    rfl
  · rw [hleader] at hlead
    cases ho : o.map Crew.leader with
    | none =>
      rw [ho] at hlead
      exact absurd (Option.some.inj hlead).symm hb
    | some p =>
      rw [ho] at hlead hnot
      exact absurd hlead hnot

theorem Attendance.of_phone {t : Turn} {h : Hub} {r r' : Roster SessionId PhoneId}
    (hatt : Attendance t h r r') {a b : PhoneId} (ht : t.OfPhone h a) (hb : b ≠ a)
    (s : SessionId) : Aside t a b s (r s) (r' s) := by
  cases hatt with
  | kept heq =>
    subst heq
    exact .refl (r' s)
  | joined ha heq =>
    obtain rfl := ha.of_phone ht
    rw [heq, Roster.join, Function.update_apply]
    split
    · rename_i hs
      subst hs
      exact .of_join _ hb
    · exact .refl (r s)
  | closed hc hl heq =>
    obtain ⟨obj, hin, hrest⟩ := hc
    obtain rfl := ht.text_eq hin
    rw [heq, Function.update_apply]
    split
    · rename_i hs
      subst hs
      exact .of_left hl hb (.inr ⟨obj, hin, hrest⟩)
    · exact .refl (r s)
  | gone hin hl =>
    obtain rfl := ht.eof_eq hin
    exact .of_left (hl s) hb (.inl hin)

/-! ## 4. What such an event does to the claims -/

/-- **A claim is taken by a phone that was asked, when it answers.** -/
theorem Run.claim_taken {hist : List Line} {h h' : Hub} {t : Turn} {out : List Effect}
    (hr : Run hist h) (hs : HubStep t h h' out) {a : PhoneId} (ht : t.OfPhone h a)
    {key : HomeReqId} {homeId : JsonId} (hopen : h.claims.lookup key = some (.opened homeId))
    (hchanged : h'.claims.lookup key ≠ some (.opened homeId)) :
    h'.claims.lookup key = some .taken ∧ ∃ e ∈ hist, ∃ r v obj, Copies e r a v ∧
      askKey e = key ∧ r.id = some homeId ∧ Replies ⟨⟨h, false⟩, t, out⟩ a obj v := by
  cases hs with
  | asked hm hin hmethod hid hsession hne => exact absurd hin ht.not_home
  | @replied p phone obj v key' homeId' hin hp hmethod hreply hid hkey hopen' =>
    obtain rfl := ht.text_eq hin
    simp only [Table.lookup_insert_eq] at hchanged ⊢
    split at hchanged
    · rename_i heq
      subst heq
      obtain ⟨⟨e, he, r, hcopy, hask⟩, -⟩ := hr.asked.known p v key hkey
      obtain ⟨pre, mid, hsplit⟩ := List.append_of_mem he
      have hno : ∀ e' ∈ mid, ¬ Answers e e' := by
        intro e' he' hans
        have htaken := hr.asked.claimed pre e mid hsplit r p v hcopy ⟨e', he', hans⟩
        rw [hask, hopen] at htaken
        cases htaken
      obtain ⟨i, hi, hopened⟩ := hr.asked.unclaimed pre e mid hsplit r p v hcopy hno
      rw [hask, hopen] at hopened
      obtain rfl := Claim.opened.inj (Option.some.inj hopened)
      exact ⟨if_pos rfl, e, he, r, v, obj, hcopy, hask, hi,
        rfl, hin, Table.mem_iff_exists.mpr ⟨_, hp⟩, hmethod, hreply, hid⟩
    · exact absurd hopen hchanged
  | replyDropped hin hp hmethod hreply hid hkey htaken hclaims =>
    rw [hclaims] at hchanged
    exact absurd hopen hchanged
  | _ => exact absurd hopen hchanged

/-! ## 5. Isolation -/

/-- What an event of the phone `a` is to the phone `b`: the turn `t`, after the turns `ts`. -/
structure Isolated (ts : List Turn) (t : Turn) (a b : PhoneId) (h h' : Hub) (out : List Effect) :
    Prop where
  /-- Nothing is sent to `b`. -/
  sent : ∀ m, .toPhone b m ∉ out
  bound : .bindPhone b ∉ out
  /-- The connection of `b` and its phase are as they were. -/
  phone : h'.phones.lookup b = h.phones.lookup b
  watches : ∀ s, h'.Watches b s ↔ h.Watches b s
  reverse : ∀ v, h'.reverse.lookup (b, v) = h.reverse.lookup (b, v)
  outstanding : ∀ n origin, h'.outstanding.lookup n = some (.forwarded b origin) ↔
    h.outstanding.lookup n = some (.forwarded b origin)
  /-- The links and their phases are as they were, and none is let go of. -/
  home : h'.home = h.home
  links : ∀ g, .bindGen g ∉ out ∧ .halt g ∉ out
  /-- `b` goes on driving what it drives. -/
  drives : ∀ s, h.driver.lookup s = some b → h'.driver.lookup s = some b
  /-- What `b` drives from now on it was watching, and `a` drove it and left it. -/
  succeeds : ∀ s, h'.driver.lookup s = some b → h.driver.lookup s ≠ some b →
    h.driver.lookup s = some a ∧ h.Watches b s ∧ (t.input = .recv (.phoneEof a) ∨ Closes t a s)
  /-- A claim that is not open any more is taken, and `a` was asked and has now replied. -/
  claims : ∀ key homeId, h.claims.lookup key = some (.opened homeId) →
    h'.claims.lookup key ≠ some (.opened homeId) →
    h'.claims.lookup key = some .taken ∧ ∃ e ∈ Hub.run.history ts, ∃ r v obj, Copies e r a v ∧
      askKey e = key ∧ r.id = some homeId ∧ Replies ⟨Hub.run.final ts, t, out⟩ a obj v

/-- **Phones are isolated**, in every state the loop reaches: whatever a phone does, another
phone is sent nothing and keeps what it has, and the links stay as they are.  It gains only the
lead of a session it watches when the phone that drove it leaves it, and a request from home is
taken only by a phone that was asked. -/
theorem phones_isolated (ts : List Turn) (t : Turn) (a b : PhoneId) (hb : b ≠ a)
    (ht : t.OfPhone (Hub.run.final ts).hub a) :
    Isolated ts t a b (Hub.run.final ts).hub (Hub.run.step (Hub.run.final ts) t).1.hub
      (Hub.run.step (Hub.run.final ts) t).2 := by
  obtain ⟨-, heq⟩ | ⟨-, hstops, -⟩ | ⟨hr, h', out, heq, hs⟩ := turn_cases ts t
  · rw [heq]
    exact ⟨by simp, by simp, rfl, fun _ => Iff.rfl, fun _ => rfl, fun _ _ => Iff.rfl, rfl, by simp,
      fun _ => id, fun _ hlead hnot => absurd hlead hnot, fun _ _ hopen hnot => absurd hopen hnot⟩
  · exact absurd hstops ht.not_stops
  have hbefore := Loop.eq_of_running (Loop.stopped_of_turn heq)
  have hconf := hs.confined ht
  obtain ⟨r, hrost⟩ := hr.wellKept.roster
  obtain ⟨r', hatt, hrost'⟩ := hs.attendance hrost hr.wellKept.below
  have haside := hatt.of_phone ht hb
  rw [heq]
  refine ⟨fun m hmem => hb (hconf.phone_eq hmem), fun hmem => ?bound, hconf.phones b hb,
    fun s => ?watches,
    fun v => hconf.reverse b v hb, fun n origin => ?outstanding, hconf.home, fun g => ?links,
    fun s hlead => ?drives, fun s hlead hnot => ?succeeds, fun key homeId hopen hnot => ?claims⟩
  case bound =>
    rcases hconf.sent _ hmem with hbad | ⟨m', hbad⟩ | ⟨g, m', hbad⟩
    · exact hb (Effect.bindPhone.inj hbad)
    · cases hbad
    · cases hbad
  case watches =>
    rw [hrost.watches, hrost'.watches]
    exact (haside s).member
  case outstanding =>
    rcases hconf.outstanding n with hkept | ⟨hn, origin', hnew⟩
    · rw [hkept]
    · constructor
      · intro hb'
        rw [hnew] at hb'
        obtain ⟨hba, -⟩ := Wait.forwarded.inj (Option.some.inj hb')
        exact absurd hba.symm hb
      · intro hold
        have hle := hr.outstanding_le n _ hold
        lia
  case links =>
    constructor
    · intro hmem
      rcases hconf.sent _ hmem with hbad | ⟨m', hbad⟩ | ⟨g', m', hbad⟩ <;> cases hbad
    · intro hmem
      rcases hconf.sent _ hmem with hbad | ⟨m', hbad⟩ | ⟨g', m', hbad⟩ <;> cases hbad
  case drives =>
    rw [hrost.driver] at hlead
    rw [hrost'.driver]
    exact (haside s).keeps hlead
  case succeeds =>
    rw [hrost.driver] at hnot ⊢
    rw [hrost'.driver] at hlead
    rw [hrost.watches]
    exact (haside s).gains hlead hnot
  case claims =>
    rw [hbefore]
    exact hr.claim_taken hs ht hopen hnot

/-- Phones 1 and 2 watch the session `a`, and phone 1 drives it. -/
def sharedSession : List Turn :=
  Turn.bringUp ++ [.phone 1 (request (.ofU64 1) "session/load" "a"), .get .phoneHello,
    .phone 2 (Obj.ofFields [("id", .ofU64 0), ("method", .str "initialize")]),
    .phone 2 (request (.ofU64 1) "session/load" "a")]

/-- Phone 1 disconnects, and phone 2 drives. -/
theorem phones_isolated_of_eof :
    Isolated sharedSession (.get (.phoneEof 1)) 1 2 (Hub.run.final sharedSession).hub
        (Hub.run.step (Hub.run.final sharedSession) (.get (.phoneEof 1))).1.hub
        (Hub.run.step (Hub.run.final sharedSession) (.get (.phoneEof 1))).2 ∧
      (Hub.run.final (sharedSession ++ [.get (.phoneEof 1)])).hub.driver.lookup "a" = some 2 :=
  ⟨phones_isolated _ _ 1 2 (by decide) ⟨_, rfl, rfl⟩, by decide +kernel⟩

end Aqualung
