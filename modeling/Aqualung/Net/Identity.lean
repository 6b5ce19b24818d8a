/-
# Who the leader is

topside is started with a CA and with one client certificate.  `Config::load` makes of them the
verifier of a handshake: the certificate of the leader has to pass the verifier of `rustls` for the
CA, and has to be that one.

* `load_right` says what `Config::load` makes of the command line: the configuration if and only if
  all files are as they should be, and otherwise an error that is true, of the file it names.
* `pinned_access` says what it is worth: with a configuration that was loaded, nobody but the owner
  of the pinned certificate gets on a link, and nobody without the token gets to be a phone,
  whatever the order of events.

`rustls` is a parameter here, and `Rustls.Lawful` is what is documented of it.  It takes more than
the verifier to make the pin hold: a handshake without a certificate must not be accepted, and
neither must one that resumes a session, which shows no certificate again.  `Config::load` sees to
both, the first by the builder's default and the second by `session_storage` and
`send_tls13_tickets`, and the proof uses each of these lines (`pinned_of_accept`).

The tokens of a configuration that was loaded are those of `Net/Bearer.lean` (`bearer_of_load`).
-/
import Aqualung.Net.Access
import Aqualung.Net.Pem

namespace Aqualung.Topside

open Lib

/-! ## 1. What is given -/

/-- The types of `rustls`, with the socket addresses. -/
structure TlsStd extends PemStd where
  Addr : Type
  Time : Type
  Error : Type
  Name : Type
  Signed : Type
  Scheme : Type
  /-- `CertificateError::ApplicationVerificationFailure`. -/
  applicationVerificationFailure : Error

structure ClientCertVerifier (std : TlsStd) where
  rootHintSubjects : List std.Name
  verifyClientCert : Cert → List Cert → std.Time → Except std.Error Unit
  verifyTls12Signature : Bytes → Cert → std.Signed → Except std.Error Unit
  verifyTls13Signature : Bytes → Cert → std.Signed → Except std.Error Unit
  supportedVerifySchemes : List std.Scheme
  offerClientAuth : Bool
  clientAuthMandatory : Bool
  requiresRawPublicKeys : Bool

/-- `ServerConfig`: the verifier, what topside shows of itself, and what is there for resumption:
whether sessions are stored, how many tickets are given out, and whether the ticketer makes any. -/
structure ServerConfig (std : TlsStd) where
  verifier : ClientCertVerifier std
  certs : List Cert
  key : std.Key
  sessionStorage : Bool
  sendTls13Tickets : Nat
  ticketer : Bool

/-- `rustls`, and what a peer `P` does in a handshake: the certificates it presents, the time, the
version it talks, and what it signs. -/
structure Rustls (std : TlsStd) (P : Type*) where
  /-- `WebPkiClientVerifier::builder` and `build`. -/
  build : std.Roots → Except String (ClientCertVerifier std)
  /-- `with_client_cert_verifier` and `with_single_cert`. -/
  withSingleCert : ClientCertVerifier std → List Cert → std.Key → Except String (ServerConfig std)
  /-- `TlsAcceptor::accept`. -/
  accept : ServerConfig std → P → Bool
  chain : P → List Cert
  now : P → std.Time
  isTls13 : P → Bool
  transcript : P → Bytes
  signature : P → std.Signed

variable {std : TlsStd} {P : Type*}

/-- The peer has signed the handshake with the key of the certificate. -/
def Rustls.Signs (tls : Rustls std P) (verifier : ClientCertVerifier std) (peer : P)
    (endEntity : Cert) : Prop :=
  (if tls.isTls13 peer then verifier.verifyTls13Signature else verifier.verifyTls12Signature)
    (tls.transcript peer) endEntity (tls.signature peer) = .ok ()

/-- What is documented of `rustls`. -/
structure Rustls.Lawful (tls : Rustls std P) : Prop where
  /-- A verifier of the builder wants a certificate, unless it is told otherwise. -/
  build_mandatory : ∀ roots verifier, tls.build roots = .ok verifier →
    verifier.offerClientAuth ∧ verifier.clientAuthMandatory
  withSingleCert_verifier : ∀ verifier certs key config,
    tls.withSingleCert verifier certs key = .ok config → config.verifier = verifier
  /-- There is no ticketer, unless one is set. -/
  withSingleCert_ticketer : ∀ verifier certs key config,
    tls.withSingleCert verifier certs key = .ok config → config.ticketer = false
  /-- Where a certificate is wanted and no session can be resumed, a handshake succeeds only with
  certificates that the verifier accepts and a signature of the first of them. -/
  accept_verified : ∀ config peer, tls.accept config peer →
    config.sessionStorage = false → config.sendTls13Tickets = 0 → config.ticketer = false →
    config.verifier.offerClientAuth → config.verifier.clientAuthMandatory →
    ∃ endEntity intermediates, tls.chain peer = endEntity :: intermediates ∧
      config.verifier.verifyClientCert endEntity intermediates (tls.now peer) = .ok () ∧
      tls.Signs config.verifier peer endEntity

/-! ## 2. The code -/

structure PinnedClientVerifier (std : TlsStd) where
  inner : ClientCertVerifier std
  leaf : Cert

def PinnedClientVerifier.verifyClientCert (self : PinnedClientVerifier std) (endEntity : Cert)
    (intermediates : List Cert) (now : std.Time) : Except std.Error Unit := do
  self.inner.verifyClientCert endEntity intermediates now
  if endEntity ≠ self.leaf then
    throw std.applicationVerificationFailure
  return ()

/-- `impl ClientCertVerifier for PinnedClientVerifier`. -/
def PinnedClientVerifier.verifier (self : PinnedClientVerifier std) : ClientCertVerifier std where
  rootHintSubjects := self.inner.rootHintSubjects
  verifyClientCert := self.verifyClientCert
  verifyTls12Signature := self.inner.verifyTls12Signature
  verifyTls13Signature := self.inner.verifyTls13Signature
  supportedVerifySchemes := self.inner.supportedVerifySchemes
  offerClientAuth := self.inner.offerClientAuth
  clientAuthMandatory := self.inner.clientAuthMandatory
  requiresRawPublicKeys := self.inner.requiresRawPublicKeys

structure Cli (std : TlsStd) where
  cert : std.Path
  key : std.Path
  ca : std.Path
  clientCert : std.Path
  token : String
  snorkel : std.Addr
  phone : std.Addr

structure Config (std : TlsStd) where
  snorkel : std.Addr
  phone : std.Addr
  tls : ServerConfig std
  token : Bytes

inductive ConfigError (std : TlsStd)
  | emptyToken
  | pem (error : PemError std.toPemStd)
  | clientVerifier (error : String)
  | serverIdentity (error : String)

def Config.load (tls : Rustls std P) (cli : Cli std) : Except (ConfigError std) (Config std) := do
  if cli.token = "" then
    throw .emptyToken
  let roots ← (loadRoots std.toPemStd cli.ca).mapError .pem
  let serverCerts ← (loadCerts std.toPemStd cli.cert "--cert").mapError .pem
  let serverKey ← (loadKey std.toPemStd cli.key).mapError .pem
  let pinCerts ← (loadCerts std.toPemStd cli.clientCert "--client-cert").mapError .pem
  -- `pin_certs[0]`
  let leaf := pinCerts.val.head pinCerts.property
  let inner ← (tls.build roots).mapError .clientVerifier
  let verifier : PinnedClientVerifier std := { inner, leaf }
  let config ← (tls.withSingleCert verifier.verifier serverCerts.val serverKey).mapError
    .serverIdentity
  return {
    snorkel := cli.snorkel
    phone := cli.phone
    tls := { config with sessionStorage := false, sendTls13Tickets := 0 }
    token := utf8 cli.token }

/-! ## 3. What is loaded -/

theorem mapError_bind_eq_ok {ε ε' α β : Type*} {x : Except ε α} {f : ε → ε'}
    {g : α → Except ε' β} {b : β} :
    (x.mapError f).bind g = .ok b ↔ ∃ a, x = .ok a ∧ g a = .ok b := by
  cases x <;> simp [Except.mapError, Except.bind]

theorem mapError_bind_eq_error {ε ε' α β : Type*} {x : Except ε α} {f : ε → ε'}
    {g : α → Except ε' β} {e : ε'} :
    (x.mapError f).bind g = .error e ↔
      (∃ e', x = .error e' ∧ f e' = e) ∨ ∃ a, x = .ok a ∧ g a = .error e := by
  cases x <;> simp [Except.mapError, Except.bind]

/-- The configuration that the command line asks for: the verifier is that of the CA, pinned to the
first certificate of `--client-cert`, and sessions are not resumed. -/
def Loaded (tls : Rustls std P) (cli : Cli std) (config : Config std) : Prop :=
  ∃ cas roots certs key leaf pins inner base,
    (cas ≠ [] ∧ HasCerts std.toPemStd cli.ca cas ∧ rootStore std.toPemStd cas = some roots) ∧
      (certs ≠ [] ∧ HasCerts std.toPemStd cli.cert certs) ∧ HasKey std.toPemStd cli.key key ∧
      HasCerts std.toPemStd cli.clientCert (leaf :: pins) ∧ tls.build roots = .ok inner ∧
      tls.withSingleCert (PinnedClientVerifier.verifier ⟨inner, leaf⟩) certs key = .ok base ∧
      config = ⟨cli.snorkel, cli.phone,
        { base with sessionStorage := false, sendTls13Tickets := 0 }, utf8 cli.token⟩

/-- What the error says of the command line is so. -/
def ConfigError.Holds (tls : Rustls std P) (cli : Cli std) : ConfigError std → Prop
  | emptyToken => cli.token = ""
  | pem e => e.Holds ∧ (e.About "--ca" cli.ca ∨ e.About "--cert" cli.cert ∨
      e.About "--key" cli.key ∨ e.About "--client-cert" cli.clientCert)
  | clientVerifier text => ∃ cas roots, HasCerts std.toPemStd cli.ca cas ∧
      rootStore std.toPemStd cas = some roots ∧ tls.build roots = .error text
  | serverIdentity text => ∃ cas roots certs key leaf pins inner,
      HasCerts std.toPemStd cli.ca cas ∧ rootStore std.toPemStd cas = some roots ∧
        HasCerts std.toPemStd cli.cert certs ∧ HasKey std.toPemStd cli.key key ∧
        HasCerts std.toPemStd cli.clientCert (leaf :: pins) ∧ tls.build roots = .ok inner ∧
        tls.withSingleCert (PinnedClientVerifier.verifier ⟨inner, leaf⟩) certs key = .error text

variable {tls : Rustls std P} {cli : Cli std}

/-- `Config::load` for a token that is not empty. -/
theorem load_of_token (htoken : cli.token ≠ "") : Config.load tls cli =
    ((loadRoots std.toPemStd cli.ca).mapError ConfigError.pem).bind fun roots =>
    ((loadCerts std.toPemStd cli.cert "--cert").mapError ConfigError.pem).bind fun certs =>
    ((loadKey std.toPemStd cli.key).mapError ConfigError.pem).bind fun key =>
    ((loadCerts std.toPemStd cli.clientCert "--client-cert").mapError ConfigError.pem).bind
      fun pins =>
    ((tls.build roots).mapError ConfigError.clientVerifier).bind fun inner =>
    ((tls.withSingleCert (PinnedClientVerifier.verifier ⟨inner, pins.val.head pins.property⟩)
      certs.val key).mapError ConfigError.serverIdentity).bind fun base =>
    .ok ⟨cli.snorkel, cli.phone, { base with sessionStorage := false, sendTls13Tickets := 0 },
      utf8 cli.token⟩ := by
  unfold Config.load
  rw [if_neg htoken]
  rfl

theorem load_of_empty (htoken : cli.token = "") : Config.load tls cli = .error .emptyToken := by
  unfold Config.load
  rw [if_pos htoken]
  rfl

/-- **The configuration that is loaded is the one that is asked for.** -/
theorem load_eq_ok_iff {config : Config std} :
    Config.load tls cli = .ok config ↔ cli.token ≠ "" ∧ Loaded tls cli config := by
  by_cases htoken : cli.token = ""
  · rw [load_of_empty htoken]
    constructor
    · intro h
      cases h
    · rintro ⟨h, -⟩
      exact absurd htoken h
  rw [load_of_token htoken, and_iff_right htoken]
  simp only [mapError_bind_eq_ok, loadRoots_eq_ok_iff, loadCerts_eq_ok_iff, loadKey_eq_ok_iff]
  constructor
  · rintro ⟨roots, ⟨cas, hcas⟩, ⟨certs, hne⟩, hcerts, key, hkey, ⟨pins, hpinned⟩, hpins, inner,
      hinner, base, hbase, hconfig⟩
    cases pins with
    | nil => exact absurd rfl hpinned
    | cons leaf pins =>
      exact ⟨cas, roots, certs, key, leaf, pins, inner, base, hcas, ⟨hne, hcerts⟩, hkey, hpins,
        hinner, hbase, (Except.ok.inj hconfig).symm⟩
  · rintro ⟨cas, roots, certs, key, leaf, pins, inner, base, hcas, ⟨hne, hcerts⟩, hkey, hpins,
      hinner, hbase, rfl⟩
    exact ⟨roots, ⟨cas, hcas⟩, ⟨certs, hne⟩, hcerts, key, hkey,
      ⟨leaf :: pins, List.cons_ne_nil leaf pins⟩, hpins, inner, hinner, base, hbase, rfl⟩

/-- **What is refused is wrong.** -/
theorem load_error {e : ConfigError std} (h : Config.load tls cli = .error e) :
    e.Holds tls cli := by
  by_cases htoken : cli.token = ""
  · rw [load_of_empty htoken] at h
    cases h
    exact htoken
  rw [load_of_token htoken] at h
  simp only [mapError_bind_eq_error] at h
  rcases h with ⟨e', h, rfl⟩ | ⟨roots, hroots, h⟩
  · obtain ⟨hholds, habout⟩ := loadRoots_error h
    exact ⟨hholds, .inl habout⟩
  rcases h with ⟨e', h, rfl⟩ | ⟨certs, hcerts, h⟩
  · obtain ⟨hholds, habout⟩ := loadCerts_error (by decide) h
    exact ⟨hholds, .inr (.inl habout)⟩
  rcases h with ⟨e', h, rfl⟩ | ⟨key, hkey, h⟩
  · obtain ⟨hholds, habout⟩ := loadKey_error h
    exact ⟨hholds, .inr (.inr (.inl habout))⟩
  rcases h with ⟨e', h, rfl⟩ | ⟨pins, hpins, h⟩
  · obtain ⟨hholds, habout⟩ := loadCerts_error (by decide) h
    exact ⟨hholds, .inr (.inr (.inr habout))⟩
  obtain ⟨cas, -, hcas, hstore⟩ := loadRoots_eq_ok_iff.mp hroots
  rcases h with ⟨text, h, rfl⟩ | ⟨inner, hinner, h⟩
  · exact ⟨cas, roots, hcas, hstore, h⟩
  rcases h with ⟨text, h, rfl⟩ | ⟨base, hbase, h⟩
  · obtain ⟨pins, hne⟩ := pins
    have hpinned := loadCerts_eq_ok_iff.mp hpins
    cases pins with
    | nil => exact absurd rfl hne
    | cons leaf pins =>
      exact ⟨cas, roots, certs, key, leaf, pins, inner, hcas, hstore, loadCerts_eq_ok_iff.mp hcerts,
        loadKey_eq_ok_iff.mp hkey, hpinned, hinner, h⟩
  · cases h

/-- The error as `Net/Bearer.lean` has it, with the texts of the errors that are not of the token. -/
def ConfigError.brief (text : ConfigError std → String) : ConfigError std → Aqualung.ConfigError
  | emptyToken => .emptyToken
  | e => .tls (text e)

/-- **What `Net/Bearer.lean` says of `Config::load` is said of this one**: it is what is left of it
when nothing but the token is looked at. -/
theorem load_bearer (tls : Rustls std P) (cli : Cli std) (text : ConfigError std → String) :
    ∃ identity, Aqualung.Config.load identity ⟨cli.token⟩
      = ((Config.load tls cli).map fun config => (⟨config.token⟩ : Aqualung.Config)).mapError
        (ConfigError.brief text) := by
  by_cases htoken : cli.token = ""
  · refine ⟨.ok (), ?_⟩
    rw [load_of_empty htoken, Aqualung.Config.load, if_pos htoken]
    rfl
  cases hload : Config.load tls cli with
  | ok config =>
    obtain ⟨-, _, _, _, _, _, _, _, _, -, -, -, -, -, -, rfl⟩ := load_eq_ok_iff.mp hload
    refine ⟨.ok (), ?_⟩
    rw [Aqualung.Config.load, if_neg htoken]
    rfl
  | error e =>
    refine ⟨.error (e.brief text), ?_⟩
    rw [Aqualung.Config.load, if_neg htoken]
    rfl

/-- Which tokens of a configuration that was loaded a phone can present. -/
theorem bearer_of_load {config : Config std} (hload : Config.load tls cli = .ok config) :
    BearerExact config.token ↔ Presentable config.token := by
  obtain ⟨identity, hbearer⟩ := load_bearer tls cli fun _ => ""
  rw [hload] at hbearer
  obtain ⟨hne, htoken⟩ := Aqualung.Config.token_of_load hbearer
  refine bearerExact_iff_presentable ?_
  rw [show config.token = utf8 cli.token from htoken]
  exact utf8_ne_nil hne

/-- What `Config::load` makes of the command line. -/
structure LoadRight (tls : Rustls std P) (cli : Cli std) : Prop where
  accepted : ∀ config, Config.load tls cli = .ok config ↔ cli.token ≠ "" ∧ Loaded tls cli config
  refused : ∀ e, Config.load tls cli = .error e → e.Holds tls cli

/-- **`Config::load` makes the configuration that is asked for, or says what is wrong.**  It makes
it exactly from the command lines and files that are as they should be, and an error of its own is
true of the file, or of the value, that it names. -/
theorem load_right (tls : Rustls std P) (cli : Cli std) : LoadRight tls cli :=
  ⟨fun _ => load_eq_ok_iff, fun _ => load_error⟩

/-! ## 4. What it is worth -/

/-- **The pinned verifier accepts the pinned certificate only**, and that only when the verifier
inside accepts it. -/
theorem PinnedClientVerifier.verifyClientCert_eq_ok_iff {self : PinnedClientVerifier std}
    {endEntity : Cert} {intermediates : List Cert} {now : std.Time} :
    self.verifyClientCert endEntity intermediates now = .ok () ↔
      self.inner.verifyClientCert endEntity intermediates now = .ok () ∧ endEntity = self.leaf := by
  unfold verifyClientCert
  cases hinner : self.inner.verifyClientCert endEntity intermediates now with
  | error e =>
    constructor
    · intro h
      cases h
    · rintro ⟨h, -⟩
      cases h
  | ok u =>
    by_cases hleaf : endEntity = self.leaf
    · constructor
      · intro _
        exact ⟨rfl, hleaf⟩
      · intro _
        simp only [hleaf, ne_eq, not_true_eq_false, if_false]
        rfl
    · constructor
      · intro h
        simp only [ne_eq, hleaf, not_false_eq_true, if_true] at h
        cases h
      · rintro ⟨-, h⟩
        exact absurd h hleaf

/-- The peer has shown that it is the owner of the pinned certificate: the first certificate it
presents is the first one of `--client-cert`, the verifier of the certificates of `--ca` accepts it,
and the handshake is signed with its key. -/
def Pinned (tls : Rustls std P) (cli : Cli std) (peer : P) : Prop :=
  ∃ leaf pins cas roots inner intermediates,
    HasCerts std.toPemStd cli.clientCert (leaf :: pins) ∧ HasCerts std.toPemStd cli.ca cas ∧
      rootStore std.toPemStd cas = some roots ∧ tls.build roots = .ok inner ∧
      tls.chain peer = leaf :: intermediates ∧
      inner.verifyClientCert leaf intermediates (tls.now peer) = .ok () ∧
      tls.Signs inner peer leaf

/-- Who passes the handshake of a loaded configuration is the owner of the pinned certificate. -/
theorem pinned_of_accept {config : Config std} {peer : P} (htls : tls.Lawful)
    (hload : Config.load tls cli = .ok config) (haccept : tls.accept config.tls peer) :
    Pinned tls cli peer := by
  obtain ⟨-, cas, roots, certs, key, leaf, pins, inner, base, ⟨-, hcas, hroots⟩, -, -, hpins,
    hinner, hbase, rfl⟩ := load_eq_ok_iff.mp hload
  obtain ⟨hoffer, hmandatory⟩ := htls.build_mandatory roots inner hinner
  have hverifier := htls.withSingleCert_verifier _ _ _ _ hbase
  have hticketer := htls.withSingleCert_ticketer _ _ _ _ hbase
  obtain ⟨endEntity, intermediates, hchain, hverify, hsigns⟩ :=
    htls.accept_verified _ peer haccept rfl rfl hticketer (by rwa [hverifier]) (by rwa [hverifier])
  change base.verifier.verifyClientCert _ _ _ = _ at hverify
  change tls.Signs base.verifier _ _ at hsigns
  rw [hverifier] at hverify hsigns
  obtain ⟨hverify, rfl⟩ := PinnedClientVerifier.verifyClientCert_eq_ok_iff.mp hverify
  exact ⟨endEntity, pins, cas, roots, inner, intermediates, hpins, hcas, hroots, hinner, hchain,
    hverify, hsigns⟩

/-- What topside is run with: the acceptor of the configuration, and its token. -/
def Config.setup (config : Config std) (tls : Rustls std P) (floatText : UInt64 → Bytes)
    (fromSlice : Bytes → Option LeaderServer) : Setup P where
  accept := tls.accept config.tls
  token := config.token
  floatText := floatText
  fromSlice := fromSlice

/-- The home connection `k` has come in as the owner of the pinned certificate. -/
def FromLeader (tls : Rustls std P) (cli : Cli std) (setup : Setup P) (evs : List (ServeEvent P))
    (k : Nat) : Prop :=
  ∃ peer, CameInAs setup evs k peer ∧ Pinned tls cli peer

/-- The phone connection `k` has been upgraded with a header that presents the token. -/
def FromPhone (cli : Cli std) (setup : Setup P) (evs : List (ServeEvent P)) (k : Nat) : Prop :=
  ∃ header : HeaderValue, UpgradedWith setup evs k (some header) ∧
    Presents header.bytes (utf8 cli.token)

variable {floatText : UInt64 → Bytes} {fromSlice : Bytes → Option LeaderServer}

theorem FromLeader.of_cameIn {config : Config std} {evs : List (ServeEvent P)} {k : Nat}
    (htls : tls.Lawful) (hload : Config.load tls cli = .ok config)
    (h : CameIn (config.setup tls floatText fromSlice) evs k) :
    FromLeader tls cli (config.setup tls floatText fromSlice) evs k := by
  obtain ⟨peer, hcame⟩ := h
  have haccept : tls.accept config.tls peer := by
    obtain ⟨pre, post, -, haccept, -⟩ := hcame
    exact haccept
  exact ⟨peer, hcame, pinned_of_accept htls hload haccept⟩

theorem FromPhone.of_upgraded {config : Config std} {evs : List (ServeEvent P)} {k : Nat}
    (hload : Config.load tls cli = .ok config)
    (h : Upgraded (config.setup tls floatText fromSlice) evs k) :
    FromPhone cli (config.setup tls floatText fromSlice) evs k := by
  obtain ⟨hne, hloaded⟩ := load_eq_ok_iff.mp hload
  obtain ⟨_, _, _, _, _, _, _, _, -, -, -, -, -, -, rfl⟩ := hloaded
  obtain ⟨header, hupgraded⟩ := h
  have hupgrades : Upgrades (utf8 cli.token) header := by
    obtain ⟨pre, post, -, hupgrades, -⟩ := hupgraded
    exact hupgrades
  cases header with
  | none =>
    rw [upgrades_iff] at hupgrades
    cases hupgrades
  | some header =>
    obtain ⟨hvisible, hbearer⟩ := (upgrades_some_iff _ _).mp hupgrades
    exact ⟨header, hupgraded, (bearerBytes_eq_iff hvisible (utf8_ne_nil hne)).mp hbearer⟩

/-- Nobody but the leader and the phones is read from, written to or known. -/
structure PinnedAccess (tls : Rustls std P) (cli : Cli std) (setup : Setup P)
    (evs : List (ServeEvent P)) : Prop where
  home : ∀ k, (((Serve.run setup).final evs).homes k).bound ≠ none ∨
    writtenHome setup evs k ≠ [] ∨ framesOf setup evs k ≠ [] → FromLeader tls cli setup evs k
  phone : ∀ k, (((Serve.run setup).final evs).phones k).bound ≠ none ∨
    writtenPhone setup evs k ≠ [] ∨ textsOf setup evs k ≠ [] → FromPhone cli setup evs k
  letters : ∀ letter ∈ readLetters setup evs ++ ((Serve.run setup).final evs).rx,
    match letter.sender with
    | .home k => FromLeader tls cli setup evs k
    | .phone k => FromPhone cli setup evs k
    | .serve => letter.msg = .shutdown
  links : ∀ g, ((Serve.run setup).final evs).loop.hub.home.Holds g →
    ∃ k, (((Serve.run setup).final evs).homes k).bound = some g ∧ FromLeader tls cli setup evs k
  phones : ∀ p ∈ ((Serve.run setup).final evs).loop.hub.phones,
    ∃ k, (((Serve.run setup).final evs).phones k).bound = some p ∧ FromPhone cli setup evs k

/-- **With a configuration that was loaded, only the owner of the pinned certificate is a leader
and only who has the token is a phone**, whatever the order of events.  Behind every link and every
frame there is a handshake that the task was waiting for, with the pinned certificate, under the CA,
signed with its key. -/
theorem pinned_access {config : Config std} (htls : tls.Lawful)
    (hload : Config.load tls cli = .ok config) (floatText : UInt64 → Bytes)
    (fromSlice : Bytes → Option LeaderServer) (evs : List (ServeEvent P)) :
    PinnedAccess tls cli (config.setup tls floatText fromSlice) evs := by
  refine ⟨fun k h => ?home, fun k h => ?phone, fun letter h => ?letters, fun g hg => ?links,
    fun p hp => ?phones⟩
  case home => exact .of_cameIn htls hload (cameIn_of_traffic h)
  case phone => exact .of_upgraded hload (upgraded_of_traffic h)
  case letters =>
    split
    · exact .of_cameIn htls hload (cameIn_of_letter h (by assumption))
    · exact .of_upgraded hload (upgraded_of_letter h (by assumption))
    · exact shutdown_of_serve evs h (by assumption)
  case links =>
    obtain ⟨k, hk, hcame⟩ := cameIn_of_link hg
    exact ⟨k, hk, .of_cameIn htls hload hcame⟩
  case phones =>
    obtain ⟨k, hk, hupgraded⟩ := upgraded_of_phone hp
    exact ⟨k, hk, .of_upgraded hload hupgraded⟩

/-! ## 5. One leader -/

/-- Four files: a certificate begins with the one byte of its issuer. -/
abbrev fourFiles : TlsStd where
  Path := String
  File := String
  Key := Bytes
  IoError := Unit
  Roots := List Cert
  openFile path := if path ∈ ["ca", "server", "key", "home"] then .ok path else .error ()
  certs
    | "ca" => [.ok [1]]
    | "server" => [.ok [1, 2]]
    | "home" => [.ok [1, 3]]
    | _ => []
  privateKey
    | "key" => .ok (some [2])
    | _ => .ok none
  emptyRoots := []
  addRoot roots cert := some (roots ++ [cert])
  Addr := Nat
  Time := Unit
  Error := Unit
  Name := Unit
  Signed := Bytes
  Scheme := Unit
  applicationVerificationFailure := ()

/-- A peer that presents certificates and signs. -/
structure Dialer where
  chain : List Cert
  signature : Bytes

/-- The handshake in which the certificates issued by the roots are accepted, and a signature is the
certificate after the message. -/
def issuedBy (roots : List Cert) : ClientCertVerifier fourFiles where
  rootHintSubjects := []
  verifyClientCert endEntity _ _ := if endEntity.take 1 ∈ roots then .ok () else .error ()
  verifyTls12Signature _ _ _ := .error ()
  verifyTls13Signature message cert signed := if message ++ cert = signed then .ok () else .error ()
  supportedVerifySchemes := []
  offerClientAuth := true
  clientAuthMandatory := true
  requiresRawPublicKeys := false

def oneLeader : Rustls fourFiles Dialer where
  build roots := .ok (issuedBy roots)
  withSingleCert verifier certs key := .ok ⟨verifier, certs, key, true, 2, false⟩
  accept config peer :=
    match peer.chain with
    | [] => !config.verifier.clientAuthMandatory
    | endEntity :: intermediates =>
      match config.verifier.verifyClientCert endEntity intermediates (),
        config.verifier.verifyTls13Signature (ascii "hello") endEntity peer.signature with
      | .ok (), .ok () => true
      | _, _ => false
  chain := Dialer.chain
  now _ := ()
  isTls13 _ := true
  transcript _ := ascii "hello"
  signature := Dialer.signature

theorem oneLeader_lawful : oneLeader.Lawful := by
  constructor
  case build_mandatory =>
    rintro roots verifier ⟨⟩
    exact ⟨rfl, rfl⟩
  case withSingleCert_verifier =>
    rintro verifier certs key config ⟨⟩
    rfl
  case withSingleCert_ticketer =>
    rintro verifier certs key config ⟨⟩
    rfl
  case accept_verified =>
    intro config peer haccept _ _ _ _ hmandatory
    simp only [oneLeader] at haccept
    split at haccept
    · simp [hmandatory] at haccept
    · rename_i endEntity intermediates hchain
      split at haccept
      · rename_i hverify hsignature
        exact ⟨endEntity, intermediates, hchain, hverify, hsignature⟩
      · cases haccept

def oneLeaderCli : Cli fourFiles where
  cert := "server"
  key := "key"
  ca := "ca"
  clientCert := "home"
  token := "SECRET"
  snorkel := (1943 : Nat)
  phone := (7678 : Nat)

/-- The leader comes in, and the hub gives it a link. -/
def leaderComes : List (ServeEvent Dialer) :=
  [.dialHome 0, .home 0 (.handshake ⟨[[1, 3]], ascii "hello" ++ [1, 3]⟩), .recv 0 .increasing]

theorem pinned_access_oneLeader : ∃ config, Config.load oneLeader oneLeaderCli = .ok config ∧
    PinnedAccess oneLeader oneLeaderCli
      (config.setup oneLeader (fun _ => []) fun _ => none) leaderComes :=
  ⟨_, rfl, pinned_access oneLeader_lawful rfl _ _ leaderComes⟩

end Aqualung.Topside
