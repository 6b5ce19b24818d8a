/-
# The value of `--server`

`Endpoint::parse` takes a socket address or an IP address where the standard library finds one,
and otherwise looks for brackets and for the last colon itself.  It cuts the text at byte offsets,
so it could panic: here a panic is `none`, and `parse_ne_none` says that there is none.

The parsers of IP addresses and of server names are parameters, and `NetStd.Lawful` is what is
documented of them: which characters the texts have that they accept, and that a printed address
is a server name.  `SocketAddr::from_str` is built from them as the standard library does it.  It
reads its own port, without a sign and with 0 allowed, and this is where the two ways of reading a
port come apart.

`Written` is the grammar, on its own terms: which host and which port a value WRITES.  Section 6
takes the value apart and finds that the parser takes off what is written (`hostPort_written`);
section 7 goes the other way, from the forms of a value to what the parser makes of them.
`endpoint_right_iff` puts the two together and says for which values the parser agrees with the
grammar: all but the socket addresses with port 0 or with a scope, which are accepted before a port
or a bracket is looked at.
-/
import Aqualung.Lib.Text

namespace Aqualung.Snorkel

open Lib

/-! ## 1. What is given -/

/-- `str`. -/
abbrev Text := List Char

/-- The parsers for IP addresses with `IpAddr::to_string`, and `ServerName::try_from`. -/
structure NetStd where
  Ip : Type
  ipv4 : Text → Option Ip
  ipv6 : Text → Option Ip
  display : Ip → Text
  Name : Type
  serverName : Text → Option Name

def isHexDigit (c : Char) : Bool := c.isDigit || ('a' ≤ c && c ≤ 'f') || ('A' ≤ c && c ≤ 'F')

/-- A character of a host name or of an IP address. -/
def isHostChar (c : Char) : Bool := c.isAlphanum || ['-', '_', '.', ':'].elem c

/-- What is documented of the parsers. -/
structure NetStd.Lawful (std : NetStd) : Prop where
  /-- Four decimal numbers with dots between them. -/
  ipv4_chars : ∀ t ip, std.ipv4 t = some ip → t.all fun c => c.isDigit || c == '.'
  ipv4_dots : ∀ t ip, std.ipv4 t = some ip → t.count '.' = 3
  /-- Hexadecimal numbers with colons between them, or none between two colons; an IPv4 address
  may stand at the end. -/
  ipv6_chars : ∀ t ip, std.ipv6 t = some ip → t.all fun c => isHexDigit c || [':', '.'].elem c
  ipv6_colons : ∀ t ip, std.ipv6 t = some ip → 2 ≤ t.count ':'
  /-- A server name is a host name or an IP address. -/
  serverName_chars : ∀ t name, std.serverName t = some name → t ≠ [] ∧ t.all isHostChar
  serverName_display : ∀ ip, (std.serverName (std.display ip)).isSome

/-! ## 2. The code -/

section

variable (std : NetStd)

/-- `IpAddr::from_str`. -/
def ipAddr (t : Text) : Option std.Ip := (std.ipv4 t).or (std.ipv6 t)

/-- `SocketAddr`, without the scope. -/
structure SocketAddr where
  ip : std.Ip
  port : Nat

def U16_MAX : Nat := 65535

def U32_MAX : Nat := 4294967295

/-- A number without a sign, at most `max`. -/
def boundedDecimal (max : Nat) (t : Text) : Option Nat := (decimal t).filter (· ≤ max)

/-- The address between the brackets, with or without a scope. -/
def scopedIpv6 (t : Text) : Option std.Ip :=
  match splitOnce '%' t with
  | none => std.ipv6 t
  | some (ip, scope) => (boundedDecimal U32_MAX scope).bind fun _ => std.ipv6 ip

/-- `SocketAddrV4::from_str`. -/
def socketAddrV4 (t : Text) : Option (SocketAddr std) :=
  (rsplitOnce ':' t).bind fun (ip, port) =>
    (std.ipv4 ip).bind fun ip => (boundedDecimal U16_MAX port).map fun port => ⟨ip, port⟩

/-- `SocketAddrV6::from_str`. -/
def socketAddrV6 : Text → Option (SocketAddr std)
  | '[' :: t =>
    match splitOnce ']' t with
    | some (ip, ':' :: port) =>
      (scopedIpv6 std ip).bind fun ip =>
        (boundedDecimal U16_MAX port).map fun port => ⟨ip, port⟩
    | _ => none
  | _ => none

/-- `SocketAddr::from_str`. -/
def socketAddr (t : Text) : Option (SocketAddr std) := (socketAddrV4 std t).or (socketAddrV6 std t)

/-- `u16::from_str`. -/
def parseU16 : Text → Option Nat
  | '+' :: t => boundedDecimal U16_MAX t
  | t => boundedDecimal U16_MAX t

inductive ConfigError
  | badServer (value : Text)
  | badPort (value : Text)
  deriving DecidableEq

def DEFAULT_PORT : Nat := 1943

structure Endpoint where
  host : Text
  port : Nat
  serverName : std.Name

def parsePort (port original : Text) : Except ConfigError Nat :=
  match (parseU16 port).filter (· ≠ 0) with
  | some port => .ok port
  | none => .error (.badPort original)

/-- The branch of `Endpoint::parse` for a value that starts with a bracket. -/
def bracketed (value : Text) : Option (Except ConfigError (Text × Nat)) :=
  match findOffset ']' value with
  | none => some (.error (.badServer value))
  | some stop =>
    -- `&value[1..end]`
    (sliceOffsets 1 stop value).bind fun host =>
      -- `value.get(end + 1..)`
      match fromOffset (stop + 1) value with
      | some [] => some (.ok (host, DEFAULT_PORT))
      | some (':' :: rest) =>
        -- `&rest[1..]`
        (fromOffset 1 (':' :: rest)).map fun port =>
          (parsePort port value).map fun port => (host, port)
      | _ => some (.error (.badServer value))

/-- The host and the port of `Endpoint::parse`. -/
def hostPort (value : Text) : Option (Except ConfigError (Text × Nat)) :=
  match socketAddr std value with
  | some addr => some (.ok (std.display addr.ip, addr.port))
  | none =>
    match ipAddr std value with
    | some ip => some (.ok (std.display ip, DEFAULT_PORT))
    | none =>
      if value.head? = some '[' then bracketed value
      else
        match rsplitOnce ':' value with
        | some (host, port) =>
          if host = [] then some (.error (.badServer value))
          else some ((parsePort port value).map fun port => (host, port))
        | none => some (.ok (value, DEFAULT_PORT))

/-- `Endpoint::parse`; `none` is a panic. -/
def parse (value : Text) : Option (Except ConfigError (Endpoint std)) :=
  let value := trim value
  if value = [] then some (.error (.badServer "server is empty".toList))
  else
    (hostPort std value).map fun found => found.bind fun (host, port) =>
      match std.serverName host with
      | some name => .ok ⟨host, port, name⟩
      | none => .error (.badServer value)

end

/-! ## 3. What the parts accept -/

theorem notMem_of_all {q : Char → Bool} {t : Text} (ht : t.all q) {c : Char} (hc : q c = false) :
    c ∉ t := by
  intro hmem
  rw [List.all_eq_true.mp ht c hmem] at hc
  cases hc

theorem boundedDecimal_le {max n : Nat} {t : Text} (h : boundedDecimal max t = some n) :
    n ≤ max := by
  rw [boundedDecimal, Option.filter_eq_some_iff] at h
  simpa using h.2

theorem isDigit_of_boundedDecimal {max n : Nat} {t : Text} (h : boundedDecimal max t = some n) :
    t.all Char.isDigit := by
  rw [boundedDecimal, Option.filter_eq_some_iff] at h
  exact List.all_eq_true.mpr (isDigit_of_decimal h.1)

theorem boundedDecimal_toDigits {max n : Nat} (h : n ≤ max) :
    boundedDecimal max (Nat.toDigits 10 n) = some n := by
  simp [boundedDecimal, decimal_toDigits, h]

/-- A number without a sign is one with or without a sign. -/
theorem parseU16_of_boundedDecimal {n : Nat} {t : Text}
    (h : boundedDecimal U16_MAX t = some n) : parseU16 t = some n := by
  unfold parseU16
  split
  · exact absurd List.mem_cons_self (notMem_of_all (isDigit_of_boundedDecimal h) (by decide))
  · exact h

theorem parseU16_le {n : Nat} {t : Text} (h : parseU16 t = some n) : n ≤ 65535 := by
  unfold parseU16 at h
  split at h <;> exact boundedDecimal_le h

theorem parsePort_eq_ok_iff {port original : Text} {n : Nat} :
    parsePort port original = .ok n ↔ parseU16 port = some n ∧ n ≠ 0 := by
  have hfilter : (parseU16 port).filter (· ≠ 0) = some n ↔ parseU16 port = some n ∧ n ≠ 0 := by
    rw [Option.filter_eq_some_iff]
    simp
  rw [← hfilter, parsePort]
  split
  · rename_i heq
    rw [heq, Except.ok.injEq, Option.some.injEq]
  · rename_i heq
    rw [heq]
    simp

theorem map_parsePort_eq_ok_iff {port original h host : Text} {n : Nat} :
    (parsePort port original).map (fun port => (h, port)) = .ok (host, n) ↔
      h = host ∧ parseU16 port = some n ∧ n ≠ 0 := by
  have hparse : parsePort port original = .ok n ↔ parseU16 port = some n ∧ n ≠ 0 :=
    parsePort_eq_ok_iff
  rw [← hparse]
  cases parsePort port original with
  | error e => simp [Except.map]
  | ok m => simp [Except.map]

section

variable {std : NetStd}

theorem socketAddrV4_eq_some_iff {t : Text} {addr : SocketAddr std} :
    socketAddrV4 std t = some addr ↔ ∃ ip port, t = ip ++ ':' :: port ∧ ':' ∉ port ∧
      std.ipv4 ip = some addr.ip ∧ boundedDecimal U16_MAX port = some addr.port := by
  obtain ⟨addrIp, addrPort⟩ := addr
  simp only [socketAddrV4, Option.bind_eq_some_iff, Option.map_eq_some_iff, SocketAddr.mk.injEq]
  constructor
  · rintro ⟨⟨ip, port⟩, hsplit, ip', hip, port', hport, rfl, rfl⟩
    obtain ⟨rfl, hcolon⟩ := rsplitOnce_eq_some_iff.mp hsplit
    exact ⟨ip, port, rfl, hcolon, hip, hport⟩
  · rintro ⟨ip, port, rfl, hcolon, hip, hport⟩
    exact ⟨_, rsplitOnce_append hcolon, _, hip, _, hport, rfl, rfl⟩

theorem socketAddrV6_eq_some_iff {t : Text} {addr : SocketAddr std} :
    socketAddrV6 std t = some addr ↔ ∃ ip port, t = '[' :: (ip ++ ']' :: ':' :: port) ∧
      ']' ∉ ip ∧ scopedIpv6 std ip = some addr.ip ∧
      boundedDecimal U16_MAX port = some addr.port := by
  constructor
  · intro h
    unfold socketAddrV6 at h
    split at h
    · split at h
      · rename_i rest ip port hsplit
        obtain ⟨rfl, hbracket⟩ := splitOnce_eq_some_iff.mp hsplit
        obtain ⟨ip', hip, hrest⟩ := Option.bind_eq_some_iff.mp h
        obtain ⟨port', hport, rfl⟩ := Option.map_eq_some_iff.mp hrest
        exact ⟨ip, port, rfl, hbracket, hip, hport⟩
      · cases h
    · cases h
  · rintro ⟨ip, port, rfl, hbracket, hip, hport⟩
    simp only [socketAddrV6, splitOnce_append hbracket, hip, hport, Option.bind_some,
      Option.map_some]

theorem scopedIpv6_of_notMem {t : Text} (h : '%' ∉ t) : scopedIpv6 std t = std.ipv6 t := by
  rw [scopedIpv6, splitOnce_eq_none h]

theorem socketAddrV6_of_head {t : Text} (h : t.head? ≠ some '[') : socketAddrV6 std t = none := by
  rw [Option.eq_none_iff_forall_ne_some]
  intro addr haddr
  obtain ⟨ip, port, rfl, -⟩ := socketAddrV6_eq_some_iff.mp haddr
  exact h rfl

namespace NetStd.Lawful

variable (hstd : std.Lawful) {t : Text} {ip : std.Ip} {c : Char}
include hstd

theorem ipv4_notMem (h : std.ipv4 t = some ip) (hc : (c.isDigit || c == '.') = false) : c ∉ t :=
  notMem_of_all (hstd.ipv4_chars t ip h) hc

theorem ipv6_notMem (h : std.ipv6 t = some ip)
    (hc : (isHexDigit c || [':', '.'].elem c) = false) : c ∉ t :=
  notMem_of_all (hstd.ipv6_chars t ip h) hc

/-- Neither a bracket nor a scope is in an IP address. -/
theorem ipAddr_notMem (h : ipAddr std t = some ip) (hc : (c.isDigit || c == '.') = false)
    (hc' : (isHexDigit c || [':', '.'].elem c) = false) : c ∉ t := by
  rcases Option.or_eq_some_iff.mp h with h4 | ⟨-, h6⟩
  · exact hstd.ipv4_notMem h4 hc
  · exact hstd.ipv6_notMem h6 hc'

theorem ipv4_eq_none (h : ':' ∈ t) : std.ipv4 t = none := by
  rw [Option.eq_none_iff_forall_ne_some]
  intro ip hip
  exact hstd.ipv4_notMem hip (by decide) h

theorem ipv6_mem_colon (h : std.ipv6 t = some ip) : ':' ∈ t := by
  have hcolons := hstd.ipv6_colons t ip h
  exact List.count_pos_iff.mp (by omega)

/-- An address with colons is an IPv6 address. -/
theorem ipAddr_of_ipv6 (h : std.ipv6 t = some ip) : ipAddr std t = some ip := by
  rw [ipAddr, hstd.ipv4_eq_none (hstd.ipv6_mem_colon h), Option.none_or, h]

theorem ipAddr_of_count (h : t.count ':' = 1) : ipAddr std t = none := by
  have hmem : ':' ∈ t := List.count_pos_iff.mp (by omega)
  rw [ipAddr, hstd.ipv4_eq_none hmem, Option.none_or, Option.eq_none_iff_forall_ne_some]
  intro ip hip
  have hcolons := hstd.ipv6_colons t ip hip
  omega

theorem ipAddr_of_bracket (h : '[' ∈ t) : ipAddr std t = none := by
  rw [Option.eq_none_iff_forall_ne_some]
  intro ip hip
  exact hstd.ipAddr_notMem hip (by decide) (by decide) h

theorem socketAddrV4_of_bracket (h : t.head? = some '[') : socketAddrV4 std t = none := by
  rw [Option.eq_none_iff_forall_ne_some]
  intro addr haddr
  obtain ⟨ip, port, rfl, -, hip, -⟩ := socketAddrV4_eq_some_iff.mp haddr
  cases ip with
  | nil => cases h
  | cons c ip =>
    have hc : c = '[' := Option.some.inj h
    subst hc
    exact hstd.ipv4_notMem hip (by decide) List.mem_cons_self

end NetStd.Lawful

end

/-! ## 4. No panic -/

section

variable {h rest : Text}

theorem findOffset_bracket (hh : ']' ∉ h) :
    findOffset ']' ('[' :: (h ++ ']' :: rest)) = some (byteSize ('[' :: h)) :=
  findOffset_append (a := '[' :: h) (by simp [hh])

theorem slice_bracket :
    sliceOffsets 1 (byteSize ('[' :: h)) ('[' :: (h ++ ']' :: rest)) = some h :=
  sliceOffsets_append ['['] h (']' :: rest)

theorem from_bracket :
    fromOffset (byteSize ('[' :: h) + 1) ('[' :: (h ++ ']' :: rest)) = some rest := by
  have hsize : byteSize ('[' :: h) + 1 = byteSize ('[' :: h ++ [']']) :=
    (byteSize_append ('[' :: h) [']']).symm
  have happend := fromOffset_append ('[' :: h ++ [']']) rest
  rw [hsize]
  simpa using happend

theorem bracketed_nil (hh : ']' ∉ h) :
    bracketed ('[' :: (h ++ [']'])) = some (.ok (h, DEFAULT_PORT)) := by
  simp only [bracketed, findOffset_bracket hh, slice_bracket, from_bracket, Option.bind_some]

theorem bracketed_colon (hh : ']' ∉ h) {port : Text} :
    bracketed ('[' :: (h ++ ']' :: ':' :: port)) =
      some ((parsePort port ('[' :: (h ++ ']' :: ':' :: port))).map fun port => (h, port)) := by
  have hcolon : fromOffset 1 (':' :: port) = some port := fromOffset_append [':'] port
  simp only [bracketed, findOffset_bracket hh, slice_bracket, from_bracket, Option.bind_some,
    hcolon, Option.map_some]

theorem bracketed_other (hh : ']' ∉ h) {c : Char} (hc : c ≠ ':') :
    bracketed ('[' :: (h ++ ']' :: c :: rest)) =
      some (.error (.badServer ('[' :: (h ++ ']' :: c :: rest)))) := by
  simp only [bracketed, findOffset_bracket hh, slice_bracket, from_bracket, Option.bind_some]
  split
  · rename_i heq
    cases heq
  · rename_i heq
    cases heq
    exact absurd rfl hc
  · rfl

end

/-- What the branch for brackets does with a value. -/
theorem bracketed_cases {value : Text} (hhead : value.head? = some '[') :
    bracketed value = some (.error (.badServer value)) ∨
      (∃ h, value = '[' :: (h ++ [']']) ∧ ']' ∉ h ∧
        bracketed value = some (.ok (h, DEFAULT_PORT))) ∨
      ∃ h port, value = '[' :: (h ++ ']' :: ':' :: port) ∧ ']' ∉ h ∧
        bracketed value = some ((parsePort port value).map fun port => (h, port)) := by
  cases value with
  | nil => cases hhead
  | cons c value =>
    have hc : c = '[' := Option.some.inj hhead
    subst hc
    by_cases hclose : ']' ∈ value
    · obtain ⟨h, rest, rfl, hh⟩ := List.eq_append_cons_of_mem hclose
      cases rest with
      | nil => exact .inr (.inl ⟨h, rfl, hh, bracketed_nil hh⟩)
      | cons d rest =>
        by_cases hd : d = ':'
        · subst hd
          exact .inr (.inr ⟨h, rest, rfl, hh, bracketed_colon hh⟩)
        · exact .inl (bracketed_other hh hd)
    · left
      rw [bracketed, findOffset_eq_none (by simp [hclose])]

/-- **`Endpoint::parse` does not panic**, on any text. -/
theorem parse_ne_none (std : NetStd) (value : Text) : parse std value ≠ none := by
  have hfound : hostPort std (trim value) ≠ none := by
    unfold hostPort
    split
    · simp
    split
    · simp
    split
    · rename_i hhead
      rcases bracketed_cases hhead with h | ⟨_, _, _, h⟩ | ⟨_, _, _, _, h⟩ <;> simp [h]
    · split
      · split <;> simp
      · simp
  simp only [parse]
  split
  · simp
  · simpa using hfound

/-! ## 5. The grammar -/

section

variable (std : NetStd)

/-- The value, without white space around it, writes the host and the port, if it writes one. -/
inductive Written : Text → Text → Option Nat → Prop
  /-- An IP address, with its colons. -/
  | literal {v : Text} (hv : (ipAddr std v).isSome) : Written v v none
  | bare {v : Text} (hhead : v.head? ≠ some '[') (hcolon : ':' ∉ v) : Written v v none
  | bracketed {h : Text} (hh : ']' ∉ h) : Written ('[' :: (h ++ [']'])) h none
  | bracketedPort {h port : Text} {n : Nat} (hh : ']' ∉ h) (hport : parseU16 port = some n) :
      Written ('[' :: (h ++ ']' :: ':' :: port)) h (some n)
  | port {h port : Text} {n : Nat} (hv : ipAddr std (h ++ ':' :: port) = none) (hne : h ≠ [])
      (hhead : h.head? ≠ some '[') (hcolon : ':' ∉ port) (hport : parseU16 port = some n) :
      Written (h ++ ':' :: port) h (some n)

/-- The host is the one that is written, or the standard form of the IP address that is written. -/
def HostIs (host written : Text) : Prop :=
  host = written ∨ ∃ ip, ipAddr std written = some ip ∧ host = std.display ip

/-- The forms for a host, with or without a port. -/
inductive Form : Text → Text → Option Nat → Prop
  /-- A host name or an IPv4 address. -/
  | name {host : Text} (hname : (std.serverName host).isSome)
      (hplain : ∀ c ∈ host, c ≠ ':' ∧ c ≠ '[' ∧ c ≠ ']') : Form host host none
  | namePort {host : Text} {n : Nat} (hname : (std.serverName host).isSome)
      (hplain : ∀ c ∈ host, c ≠ ':' ∧ c ≠ '[' ∧ c ≠ ']') (hlow : 1 ≤ n) (hhigh : n ≤ 65535) :
      Form (host ++ ':' :: Nat.toDigits 10 n) host (some n)
  | ipv6 {host : Text} (hname : (std.serverName host).isSome) (hip : (std.ipv6 host).isSome) :
      Form host host none
  | ipv6Brackets {host : Text} (hname : (std.serverName host).isSome)
      (hip : (std.ipv6 host).isSome) : Form ('[' :: (host ++ [']'])) host none
  | ipv6Port {host : Text} {n : Nat} (hname : (std.serverName host).isSome)
      (hip : (std.ipv6 host).isSome) (hlow : 1 ≤ n) (hhigh : n ≤ 65535) :
      Form ('[' :: (host ++ ']' :: ':' :: Nat.toDigits 10 n)) host (some n)

/-- `Endpoint::parse` does with the value what the grammar says. -/
structure EndpointRight (value : Text) : Prop where
  noPanic : parse std value ≠ none
  accepted : ∀ ep, parse std value = some (.ok ep) → 1 ≤ ep.port ∧ ep.port ≤ 65535 ∧
    ∃ host port, Written std (trim value) host port ∧ ep.port = port.getD DEFAULT_PORT ∧
      HostIs std ep.host host
  forms : ∀ host port, Form std value host port → ∃ ep, parse std value = some (.ok ep) ∧
    ep.port = port.getD DEFAULT_PORT ∧ HostIs std ep.host host

end

/-! ## 6. Where the parser follows the grammar -/

section

variable {std : NetStd} (hstd : std.Lawful) {v : Text}

theorem parse_eq_ok_iff {value : Text} {ep : Endpoint std} :
    parse std value = some (.ok ep) ↔ trim value ≠ [] ∧
      hostPort std (trim value) = some (.ok (ep.host, ep.port)) ∧
      std.serverName ep.host = some ep.serverName := by
  simp only [parse]
  by_cases hempty : trim value = []
  · simp [hempty]
  rw [if_neg hempty, Option.map_eq_some_iff, and_iff_right hempty]
  constructor
  · rintro ⟨found, hfound, hbind⟩
    cases found with
    | error e => cases hbind
    | ok found =>
      obtain ⟨host, port⟩ := found
      simp only [Except.bind] at hbind
      split at hbind
      · rename_i name hname
        cases hbind
        exact ⟨hfound, hname⟩
      · cases hbind
  · rintro ⟨hfound, hname⟩
    refine ⟨_, hfound, ?_⟩
    simp only [Except.bind, hname]

include hstd

/-- A socket address without a scope writes its own host and port. -/
theorem socketAddr_written {addr : SocketAddr std} (h : socketAddr std v = some addr)
    (hscope : '%' ∉ v) : addr.port ≤ 65535 ∧
      ∃ host, Written std v host (some addr.port) ∧ ipAddr std host = some addr.ip := by
  rcases Option.or_eq_some_iff.mp h with h4 | ⟨-, h6⟩
  · obtain ⟨ip, port, rfl, hcolon, hip, hport⟩ := socketAddrV4_eq_some_iff.mp h4
    have hnone : ':' ∉ ip := hstd.ipv4_notMem hip (by decide)
    refine ⟨boundedDecimal_le hport, ip, .port ?_ ?_ ?_ hcolon (parseU16_of_boundedDecimal hport),
      ?_⟩
    · apply hstd.ipAddr_of_count
      rw [List.count_append, List.count_cons_self, List.count_eq_zero.mpr hnone,
        List.count_eq_zero.mpr hcolon]
    · rintro rfl
      have hdots := hstd.ipv4_dots _ _ hip
      cases hdots
    · intro hhead
      exact hstd.ipv4_notMem hip (by decide) (List.mem_of_head? hhead)
    · rw [ipAddr, hip, Option.some_or]
  · obtain ⟨ip, port, rfl, hbracket, hip, hport⟩ := socketAddrV6_eq_some_iff.mp h6
    rw [scopedIpv6_of_notMem (by simp at hscope; tauto)] at hip
    exact ⟨boundedDecimal_le hport, ip,
      .bracketedPort hbracket (parseU16_of_boundedDecimal hport), hstd.ipAddr_of_ipv6 hip⟩

/-- What the parser finds is what is written. -/
theorem hostPort_written {host : Text} {port : Nat}
    (hplain : ∀ addr, socketAddr std v = some addr → addr.port ≠ 0 ∧ '%' ∉ v)
    (h : hostPort std v = some (.ok (host, port))) : 1 ≤ port ∧ port ≤ 65535 ∧
      ∃ written p, Written std v written p ∧ port = p.getD DEFAULT_PORT ∧
        HostIs std host written := by
  unfold hostPort at h
  split at h
  · rename_i addr haddr
    cases h
    obtain ⟨hport, hscope⟩ := hplain addr haddr
    obtain ⟨hle, written, hwritten, hip⟩ := socketAddr_written hstd haddr hscope
    exact ⟨Nat.one_le_iff_ne_zero.mpr hport, hle, written, _, hwritten, rfl, .inr ⟨_, hip, rfl⟩⟩
  split at h
  · rename_i ip hip
    cases h
    exact ⟨by decide, by decide, v, none, .literal (by simp [hip]), rfl, .inr ⟨ip, hip, rfl⟩⟩
  rename_i hlit
  split at h
  · rename_i hhead
    rcases bracketed_cases hhead with hb | ⟨hst, rfl, hh, hb⟩ | ⟨hst, text, rfl, hh, hb⟩
    · rw [hb] at h
      cases h
    · rw [hb] at h
      cases h
      exact ⟨by decide, by decide, _, none, .bracketed hh, rfl, .inl rfl⟩
    · rw [hb, Option.some.injEq, map_parsePort_eq_ok_iff] at h
      obtain ⟨rfl, hport, hne⟩ := h
      exact ⟨Nat.one_le_iff_ne_zero.mpr hne, parseU16_le hport, _, _, .bracketedPort hh hport, rfl,
        .inl rfl⟩
  rename_i hhead
  split at h
  · rename_i text portText hsplit
    obtain ⟨rfl, hcolon⟩ := rsplitOnce_eq_some_iff.mp hsplit
    split at h
    · cases h
    · rename_i hne
      rw [Option.some.injEq, map_parsePort_eq_ok_iff] at h
      obtain ⟨rfl, hport, hpos⟩ := h
      have hbracket : text.head? ≠ some '[' := by
        intro hopen
        rw [List.head?_append, hopen] at hhead
        exact hhead rfl
      exact ⟨Nat.one_le_iff_ne_zero.mpr hpos, parseU16_le hport, _, _,
        .port hlit hne hbracket hcolon hport, rfl, .inl rfl⟩
  · rename_i hsplit
    cases h
    have hcolon : ':' ∉ v := by
      intro hmem
      obtain ⟨e, he⟩ := exists_rsplitOnce hmem
      rw [hsplit] at he
      cases he
    exact ⟨by decide, by decide, v, none, .bare hhead hcolon, rfl, .inl rfl⟩

end

/-! ## 7. The forms -/

/-- No character of a host name or an IP address is white space. -/
theorem not_isWhitespace_of_isHostChar {c : Char} (hc : isHostChar c) :
    (!isWhitespace c) = true := by
  by_contra hws
  have hnot : isHostChar c = false :=
    whitespace_forall (P := fun c => isHostChar c = false) (by decide +kernel) (by simpa using hws)
  rw [hc] at hnot
  cases hnot

section

variable {std : NetStd} {v : Text}

/-- A value without white space is accepted when the host that is found is a server name. -/
theorem exists_parse {host : Text} {port : Nat} (hv : v.all fun c => !isWhitespace c)
    (hne : v ≠ []) (hfound : hostPort std v = some (.ok (host, port)))
    (hname : (std.serverName host).isSome) :
    ∃ ep, parse std v = some (.ok ep) ∧ ep.port = port ∧ ep.host = host := by
  have htrim : trim v = v :=
    (stripped_of_forall fun c hc => by simpa using List.all_eq_true.mp hv c hc).strip_eq
  obtain ⟨name, hname⟩ := Option.isSome_iff_exists.mp hname
  refine ⟨⟨host, port, name⟩, parse_eq_ok_iff.mpr ⟨?_, ?_, hname⟩, rfl, rfl⟩
  · rwa [htrim]
  · rwa [htrim]

theorem parsePort_toDigits {n : Nat} (hlow : 1 ≤ n) (hhigh : n ≤ 65535) (original : Text) :
    parsePort (Nat.toDigits 10 n) original = .ok n :=
  parsePort_eq_ok_iff.mpr
    ⟨parseU16_of_boundedDecimal (boundedDecimal_toDigits hhigh), Nat.one_le_iff_ne_zero.mp hlow⟩

variable (hstd : std.Lawful) {host : Text}
include hstd

/-- A form has a host and neither white space nor a scope in it. -/
theorem form_chars {port : Option Nat} (h : Form std v host port) :
    v ≠ [] ∧ v.all fun c => !isWhitespace c := by
  have hhost : (std.serverName host).isSome → host ≠ [] ∧ host.all fun c => !isWhitespace c := by
    intro hname
    obtain ⟨name, hname⟩ := Option.isSome_iff_exists.mp hname
    obtain ⟨hne, hall⟩ := hstd.serverName_chars host name hname
    exact ⟨hne, List.all_eq_true.mpr fun c hc =>
      not_isWhitespace_of_isHostChar (List.all_eq_true.mp hall c hc)⟩
  have hdigits : ∀ n, (Nat.toDigits 10 n).all fun c => !isWhitespace c := by
    intro n
    refine List.all_eq_true.mpr fun c hc => not_isWhitespace_of_isHostChar ?_
    have hdigit : c.isDigit := Nat.isDigit_of_mem_toDigits (by decide) (le_refl 10) hc
    simp [isHostChar, Char.isAlphanum, hdigit]
  have hpunct : (!isWhitespace ':') = true ∧ (!isWhitespace '[') = true ∧
      (!isWhitespace ']') = true := by decide
  cases h with
  | name hname _ => exact hhost hname
  | namePort hname _ _ _ =>
    obtain ⟨hne, hall⟩ := hhost hname
    simp [hne, hall, hdigits, hpunct]
  | ipv6 hname _ => exact hhost hname
  | ipv6Brackets hname _ =>
    obtain ⟨hne, hall⟩ := hhost hname
    simp [hall, hpunct]
  | ipv6Port hname _ _ _ =>
    obtain ⟨hne, hall⟩ := hhost hname
    simp [hall, hdigits, hpunct]

/-- In a form the parser finds the host and the port. -/
theorem form_found {port : Option Nat} (h : Form std v host port) :
    ∃ found, hostPort std v = some (.ok (found, port.getD DEFAULT_PORT)) ∧
      HostIs std found host ∧ (std.serverName found).isSome := by
  cases h with
  | name hname hplain =>
    have hcolon : ':' ∉ v := fun hmem => (hplain _ hmem).1 rfl
    have hhead : v.head? ≠ some '[' := fun hopen => (hplain _ (List.mem_of_head? hopen)).2.1 rfl
    have hsocket : socketAddr std v = none := by
      rw [socketAddr, socketAddrV6_of_head hhead, socketAddrV4, rsplitOnce_eq_none hcolon]
      rfl
    cases hip : ipAddr std v with
    | some ip =>
      refine ⟨std.display ip, ?_, .inr ⟨ip, hip, rfl⟩, hstd.serverName_display ip⟩
      simp [hostPort, hsocket, hip]
    | none =>
      refine ⟨v, ?_, .inl rfl, hname⟩
      simp [hostPort, hsocket, hip, hhead, rsplitOnce_eq_none hcolon]
  | @namePort _ n hname hplain hlow hhigh =>
    have hcolon : ':' ∉ host := fun hmem => (hplain _ hmem).1 rfl
    have hdigits : ':' ∉ Nat.toDigits 10 n := fun hmem =>
      absurd (Nat.isDigit_of_mem_toDigits (by decide) (le_refl 10) hmem) (by decide)
    obtain ⟨name, hsome⟩ := Option.isSome_iff_exists.mp hname
    have hne : host ≠ [] := (hstd.serverName_chars host name hsome).1
    have hhead : (host ++ ':' :: Nat.toDigits 10 n).head? ≠ some '[' := by
      rw [List.head?_append_of_ne_nil _ hne]
      exact fun hopen => (hplain _ (List.mem_of_head? hopen)).2.1 rfl
    have hlit : ipAddr std (host ++ ':' :: Nat.toDigits 10 n) = none := by
      apply hstd.ipAddr_of_count
      rw [List.count_append, List.count_cons_self, List.count_eq_zero.mpr hcolon,
        List.count_eq_zero.mpr hdigits]
    cases hip : std.ipv4 host with
    | some ip =>
      have hsocket : socketAddrV4 std (host ++ ':' :: Nat.toDigits 10 n) = some ⟨ip, n⟩ :=
        socketAddrV4_eq_some_iff.mpr ⟨_, _, rfl, hdigits, hip, boundedDecimal_toDigits hhigh⟩
      refine ⟨std.display ip, ?_, .inr ⟨ip, ?_, rfl⟩, hstd.serverName_display ip⟩
      · simp [hostPort, socketAddr, hsocket]
      · rw [ipAddr, hip, Option.some_or]
    | none =>
      have hsocket : socketAddr std (host ++ ':' :: Nat.toDigits 10 n) = none := by
        rw [socketAddr, socketAddrV6_of_head hhead, socketAddrV4, rsplitOnce_append hdigits]
        simp [hip]
      refine ⟨host, ?_, .inl rfl, hname⟩
      simp only [hostPort, hsocket, hlit, if_neg hhead, rsplitOnce_append hdigits, if_neg hne,
        parsePort_toDigits hlow hhigh]
      rfl
  | ipv6 hname hip =>
    obtain ⟨ip, hip⟩ := Option.isSome_iff_exists.mp hip
    have hhead : v.head? ≠ some '[' :=
      fun hopen => hstd.ipv6_notMem hip (by decide) (List.mem_of_head? hopen)
    have hsocket : socketAddrV4 std v = none := by
      rw [Option.eq_none_iff_forall_ne_some]
      intro addr haddr
      obtain ⟨a, b, rfl, hb, ha, -⟩ := socketAddrV4_eq_some_iff.mp haddr
      have hcolons := hstd.ipv6_colons _ ip hip
      have hnone : ':' ∉ a := hstd.ipv4_notMem ha (by decide)
      rw [List.count_append, List.count_cons_self, List.count_eq_zero.mpr hnone,
        List.count_eq_zero.mpr hb] at hcolons
      omega
    have hlit := hstd.ipAddr_of_ipv6 hip
    refine ⟨std.display ip, ?_, .inr ⟨ip, hlit, rfl⟩, hstd.serverName_display ip⟩
    simp [hostPort, socketAddr, hsocket, socketAddrV6_of_head hhead, hlit]
  | ipv6Brackets hname hip =>
    obtain ⟨ip, hip⟩ := Option.isSome_iff_exists.mp hip
    have hclose : ']' ∉ host := hstd.ipv6_notMem hip (by decide)
    have hsocket : socketAddr std ('[' :: (host ++ [']'])) = none := by
      rw [socketAddr, hstd.socketAddrV4_of_bracket rfl]
      simp [socketAddrV6, splitOnce_append hclose]
    have hlit : ipAddr std ('[' :: (host ++ [']'])) = none :=
      hstd.ipAddr_of_bracket List.mem_cons_self
    refine ⟨host, ?_, .inl rfl, hname⟩
    simp [hostPort, hsocket, hlit, bracketed_nil hclose]
  | @ipv6Port _ n hname hip hlow hhigh =>
    obtain ⟨ip, hip⟩ := Option.isSome_iff_exists.mp hip
    have hclose : ']' ∉ host := hstd.ipv6_notMem hip (by decide)
    have hscope : '%' ∉ host := hstd.ipv6_notMem hip (by decide)
    have hsocket : socketAddrV6 std ('[' :: (host ++ ']' :: ':' :: Nat.toDigits 10 n))
        = some ⟨ip, n⟩ :=
      socketAddrV6_eq_some_iff.mpr ⟨_, _, rfl, hclose, (scopedIpv6_of_notMem hscope).trans hip,
        boundedDecimal_toDigits hhigh⟩
    refine ⟨std.display ip, ?_, .inr ⟨ip, hstd.ipAddr_of_ipv6 hip, rfl⟩,
      hstd.serverName_display ip⟩
    rw [hostPort, socketAddr, hstd.socketAddrV4_of_bracket rfl, Option.none_or, hsocket]
    rfl

/-- A socket address is accepted. -/
theorem parse_of_socketAddr {value : Text} {addr : SocketAddr std}
    (h : socketAddr std (trim value) = some addr) : ∃ ep, parse std value = some (.ok ep) ∧
      ep.host = std.display addr.ip ∧ ep.port = addr.port := by
  obtain ⟨name, hname⟩ := Option.isSome_iff_exists.mp (hstd.serverName_display addr.ip)
  refine ⟨⟨std.display addr.ip, addr.port, name⟩, parse_eq_ok_iff.mpr ⟨?_, ?_, hname⟩, rfl, rfl⟩
  · intro hempty
    rw [hempty] at h
    cases h
  · simp [hostPort, h]

/-- In a value between brackets, what stands between them is what is written. -/
theorem Written.of_brackets {ip rest written : Text} {port : Option Nat} (hclose : ']' ∉ ip)
    (hw : Written std ('[' :: (ip ++ ']' :: rest)) written port) : written = ip := by
  generalize hv : '[' :: (ip ++ ']' :: rest) = v at hw
  -- The first closing bracket divides the value in one way only.
  have hsplit : ∀ {h tail : Text}, ']' ∉ h →
      '[' :: (ip ++ ']' :: rest) = '[' :: (h ++ ']' :: tail) → h = ip := by
    intro h tail hh heq
    have hsame := congrArg (splitOnce ']') (List.cons.inj heq).2
    rw [splitOnce_append hclose, splitOnce_append hh] at hsame
    cases hsame
    rfl
  cases hw with
  | literal hlit =>
    rw [← hv, hstd.ipAddr_of_bracket List.mem_cons_self] at hlit
    cases hlit
  | bare hhead _ =>
    rw [← hv] at hhead
    exact absurd rfl hhead
  | bracketed hh => exact hsplit hh hv
  | bracketedPort hh _ => exact hsplit hh hv
  | port _ hne hhead _ _ =>
    have hopen := congrArg List.head? hv
    rw [List.head?_append_of_ne_nil _ hne] at hopen
    exact absurd hopen.symm hhead

/-- A host with a scope is not what is found. -/
theorem scope_not_written {addr : SocketAddr std} (h : socketAddr std v = some addr)
    (hscope : '%' ∈ v) {written : Text} {port : Option Nat} (hw : Written std v written port) :
    ¬ HostIs std (std.display addr.ip) written := by
  have hdigits : ∀ {max n : Nat} {t : Text}, boundedDecimal max t = some n → '%' ∉ t :=
    fun hport => notMem_of_all (isDigit_of_boundedDecimal hport) (by decide)
  rcases Option.or_eq_some_iff.mp h with h4 | ⟨-, h6⟩
  · obtain ⟨ip, portText, rfl, -, hip, hport⟩ := socketAddrV4_eq_some_iff.mp h4
    have hnone := hstd.ipv4_notMem hip (c := '%') (by decide)
    simp [hnone, hdigits hport] at hscope
  · obtain ⟨ip, portText, rfl, hclose, -, hport⟩ := socketAddrV6_eq_some_iff.mp h6
    obtain rfl := Written.of_brackets hstd hclose hw
    have hmem : '%' ∈ written := by simpa [hdigits hport] using hscope
    rintro (hdisplay | ⟨ip, hip, -⟩)
    · obtain ⟨name, hname⟩ := Option.isSome_iff_exists.mp (hstd.serverName_display addr.ip)
      rw [hdisplay] at hname
      exact notMem_of_all (hstd.serverName_chars _ name hname).2 (by decide) hmem
    · exact hstd.ipAddr_notMem hip (by decide) (by decide) hmem

end

/-! ## 8. When the value is read rightly -/

/-- The value is not a socket address with port 0 or with a scope. -/
def NoTrap (std : NetStd) (value : Text) : Prop :=
  ∀ addr, socketAddr std (trim value) = some addr → addr.port ≠ 0 ∧ '%' ∉ trim value

/-- **`Endpoint::parse` follows the grammar for exactly the values that are not a socket address
with port 0 or with a scope.**  Those are accepted with a port or a host that the value does not
write; what every other value writes is found. -/
theorem endpoint_right_iff (std : NetStd) (hstd : std.Lawful) (value : Text) :
    EndpointRight std value ↔ NoTrap std value := by
  constructor
  · intro hright addr haddr
    obtain ⟨ep, hparse, hhost, hport⟩ := parse_of_socketAddr hstd haddr
    obtain ⟨hlow, -, written, port, hw, -, his⟩ := hright.accepted ep hparse
    refine ⟨by omega, fun hscope => ?_⟩
    rw [hhost] at his
    exact scope_not_written hstd haddr hscope hw his
  · intro hplain
    refine ⟨parse_ne_none std value, ?_, ?_⟩
    · intro ep hparse
      obtain ⟨-, hfound, -⟩ := parse_eq_ok_iff.mp hparse
      exact hostPort_written hstd hplain hfound
    · intro host port hform
      obtain ⟨found, hfound, his, hname⟩ := form_found hstd hform
      obtain ⟨hne, hchars⟩ := form_chars hstd hform
      obtain ⟨ep, hparse, hport, hhost⟩ := exists_parse hchars hne hfound hname
      exact ⟨ep, hparse, hport, hhost ▸ his⟩

def loopback : NetStd where
  Ip := Unit
  ipv4 t := if t = "127.0.0.1".toList then some () else none
  ipv6 _ := none
  display _ := "127.0.0.1".toList
  Name := Unit
  serverName t := if t = "127.0.0.1".toList then some () else none

theorem loopback_lawful : loopback.Lawful := by
  have hif : ∀ {t : Text} {u : Unit},
      (if t = "127.0.0.1".toList then some () else none) = some u → t = "127.0.0.1".toList := by
    intro t u h
    split at h
    · assumption
    · cases h
  constructor
  case ipv4_chars => rintro t ip h; obtain rfl := hif h; decide
  case ipv4_dots => rintro t ip h; obtain rfl := hif h; decide
  case ipv6_chars => rintro t ip ⟨⟩
  case ipv6_colons => rintro t ip ⟨⟩
  case serverName_chars => rintro t name h; obtain rfl := hif h; decide
  case serverName_display => rintro ⟨⟩; decide

theorem endpoint_right_loopback :
    EndpointRight loopback "127.0.0.1:443".toList ↔ NoTrap loopback "127.0.0.1:443".toList :=
  endpoint_right_iff loopback loopback_lawful "127.0.0.1:443".toList

/-- `parse_port` refuses port 0, and a socket address does not come that way. -/
theorem port_zero_accepted : ¬ EndpointRight loopback "127.0.0.1:0".toList := by
  intro hright
  have hparse : parse loopback "127.0.0.1:0".toList
      = some (.ok ⟨"127.0.0.1".toList, 0, ()⟩) := by rfl
  exact absurd (hright.accepted _ hparse).1 (by decide)

end Aqualung.Snorkel
