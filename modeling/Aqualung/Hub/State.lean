/-
# The hub's state

The data of `hub.rs`: the home side as an enumeration of four shapes, the phones, the session
tables, the requests under way in both directions, and what the hub receives and sends.

The ends of channels are not data here.  A link's `out` and `halt` belong to the connection
that was bound to the link's generation, and a phone's `out` to the connection that was bound
to the phone's id, so an `Effect` names the channel by generation or by phone id.  What comes of
an effect when the other end is gone is a matter of the system (`Net/Serve.lean`).

The allocators `next_phone`, `next_req`, `next_gen` and `reverse_seq` are `u64` in the source and
natural numbers here.  A run makes fewer than 2^64 of each: one allocation takes at least one turn
of the loop, or one session with watchers, so the count would take centuries to come round.  Where
an id leaves the hub and is read again as a `u64`, in the answers from home, the bound is a
hypothesis of the result (`request_multiplexing`); elsewhere ids are only compared with each other.

Two things that the source leaves to its libraries are part of a `Turn`: the time, in milliseconds,
and the order in which hash sets iterate, which may be any order and another one in each turn.
-/
import Aqualung.Hub.Loads

namespace Aqualung

open Lib

/-! ## 1. Home links -/

/-- `Instant`, in milliseconds. -/
abbrev Instant := Nat

def REGISTER_WAIT : Nat := 10 * 1000

def READY_WAIT : Nat := 120 * 1000

structure Link where
  homeGen : HomeGen
  deriving DecidableEq

structure Live where
  link : Link
  deriving DecidableEq

/-- `Incoming`: a candidate link, by how far its handshake has come. -/
inductive Incoming
  | waitRegistered (link : Link) (deadline : Instant)
  | waitReady (link : Link) (deadline : Instant)
  | waitInitialize (link : Link)
  | waitLoads (link : Link) (pending : PendingLoads)
  | ready (link : Link)
  deriving DecidableEq

namespace Incoming

/-- `Incoming::link`, and `Incoming::take_link`, which returns the same link by value. -/
def link : Incoming → Link
  | waitRegistered link _ | waitReady link _ | waitInitialize link | waitLoads link _
  | ready link => link

def deadline : Incoming → Option Instant
  | waitRegistered _ d | waitReady _ d => some d
  | _ => none

def intoLive : Incoming → Except Incoming Live
  | ready link => .ok ⟨link⟩
  | other => .error other

/-- The generation of the candidate link. -/
abbrev gen (c : Incoming) : HomeGen := c.link.homeGen

@[simp] theorem gen_waitRegistered (link : Link) (d : Instant) :
    (waitRegistered link d).gen = link.homeGen := rfl

@[simp] theorem gen_waitReady (link : Link) (d : Instant) :
    (waitReady link d).gen = link.homeGen := rfl

@[simp] theorem gen_waitInitialize (link : Link) : (waitInitialize link).gen = link.homeGen := rfl

@[simp] theorem gen_waitLoads (link : Link) (pending : PendingLoads) :
    (waitLoads link pending).gen = link.homeGen := rfl

@[simp] theorem gen_ready (link : Link) : (ready link).gen = link.homeGen := rfl

end Incoming

structure Replace where
  incumbent : Live
  incoming : Incoming
  deriving DecidableEq

structure Armed where
  incumbent : Live
  successor : Live
  deriving DecidableEq

inductive Home
  | away
  | bringingUp (incoming : Incoming)
  | sole (live : Live)
  | dual (rep : Replace)
  deriving DecidableEq

/-- `Home::away`. -/
def Home.isAway : Home → Bool
  | .away | .bringingUp _ => true
  | _ => false

inductive Role
  | mux
  | candidate
  | unknown
  deriving DecidableEq

structure CandidateSlot where
  incumbent : Option Live
  deriving DecidableEq

/-! ## 2. Phones, requests and claims -/

inductive Phone
  | connected
  | ready
  deriving DecidableEq

/-- `Wait`: who waits for the answer to a request sent home. -/
inductive Wait
  | forwarded (phone : PhoneId) (origin : JsonId)
  | hubInitialize
  | hubLoad
  deriving DecidableEq

/-- `Claim`: a request from home, until its first answer. -/
inductive Claim
  | opened (homeId : JsonId)
  | taken
  deriving DecidableEq

def Claim.take : Claim → Option JsonId × Claim
  | opened homeId => (some homeId, taken)
  | taken => (none, taken)

/-! ## 3. The hub -/

structure Hub where
  home : Home
  phones : Table PhoneId Phone
  watchers : Table SessionId (Finset PhoneId)
  driver : Table SessionId PhoneId
  outstanding : Table HomeReqId Wait
  reverse : Table (PhoneId × JsonId) HomeReqId
  claims : Table HomeReqId Claim
  nextPhone : Nat
  nextReq : Nat
  nextGen : Nat
  reverseSeq : Nat
  refusedVersion : Option Nat
  deriving DecidableEq

def Hub.new : Hub where
  home := .away
  phones := ∅
  watchers := ∅
  driver := ∅
  outstanding := ∅
  reverse := ∅
  claims := ∅
  nextPhone := 0
  nextReq := 0
  nextGen := 0
  reverseSeq := 0
  refusedVersion := none

/-! ## 4. What comes in and what goes out -/

inductive ToHub
  | accepted
  | homeFrame (homeGen : HomeGen) (msg : LeaderServer)
  | homeEof (homeGen : HomeGen)
  | phoneHello
  | phoneText (phone : PhoneId) (text : RpcText)
  | phoneEof (phone : PhoneId)
  | shutdown
  deriving DecidableEq

/-- What one turn of `Hub::run` wakes up for: `rx.recv()` with a message, `rx.recv()` with
`None`, or the sleep until the current deadline. -/
inductive Input
  | recv (msg : ToHub)
  | closed
  | deadline
  deriving DecidableEq

/-- What the hub does to the outside: the two `bind` replies, a message queued on a link, a
link's `halt`, a text queued for a phone. -/
inductive Effect
  | bindGen (homeGen : HomeGen)
  | bindPhone (phone : PhoneId)
  | toHome (homeGen : HomeGen) (msg : LeaderClient)
  | halt (homeGen : HomeGen)
  | toPhone (phone : PhoneId) (text : Obj)
  deriving DecidableEq

/-- The order in which the hash set of a session's watchers is iterated.  Rust leaves it open
and it may change from one iteration to the next; it always enumerates the set. -/
structure IterOrder where
  list : SessionId → Finset PhoneId → List PhoneId
  nodup : ∀ s set, (list s set).Nodup
  mem_iff : ∀ s set p, p ∈ list s set ↔ p ∈ set

/-- Iteration in increasing order. -/
def IterOrder.increasing : IterOrder where
  list _ set := sorted set
  nodup _ set := nodup_sorted set
  mem_iff _ _ _ := mem_sorted

instance : Inhabited IterOrder := ⟨.increasing⟩

/-- One turn of the loop: what it wakes up for, the time, and how hash sets iterate. -/
structure Turn where
  input : Input
  now : Instant := 0
  order : IterOrder := .increasing

end Aqualung
