import Aegis.Session.Agreement
import Aegis.Session.Exchange
import Aegis.Session.Tables

/-!
# Two session managers and the network between them

The handshakes of two managers with each other. Each side initiates with `create_handshake_init`, repeats
the bytes of its INIT while the initiation is pending (`handshake_peer`), and handles what it receives one
message at a time; an INIT takes the three sections of `handle_handshake_init`, with initiations of the
same side and everything on the other side in between. The network loses, duplicates and reorders
messages. Clock readings belong to the side that takes them and need not agree.

`Careful` is what a step has to respect so that the sides cannot be separated, and `Orderly` are the steps
of runs without timeouts in which every message arrives exactly once. `abstract` takes such a pair to the
protocol of `Handshakes`.
-/

namespace Aegis

open Function (update)

variable {H : Type}

/-- The two ends: their identities fit their keys, and Noise IK works between them. -/
structure Ends (P : Primitives H) where
  publicKey : X25519PrivateKey → X25519Key
  config : Side → SessionConfig
  complete : P.noise.Complete publicKey
  identified : ∀ side, (config side).identity.nodeId = P.hashPublicKey (publicKey (config side).identity.privateKey)
  ordered : (config .lower).identity.nodeId < (config .higher).identity.nodeId

namespace Ends

variable {P : Primitives H}

def nodeId (ends : Ends P) (side : Side) : NodeId := (ends.config side).identity.nodeId

def static (ends : Ends P) (side : Side) : X25519Key := ends.publicKey (ends.config side).identity.privateKey

end Ends

inductive HandshakeKind where
  | init
  | resp
deriving DecidableEq

/-- A handshake message in flight, with the session id of its packet header. -/
structure Packet where
  kind : HandshakeKind
  sender : Side
  sessionId : UInt32
  message : List UInt8
deriving DecidableEq

/-- A `handle_handshake_init` call after its first section, or after its second. -/
structure PartyCall (H : Type) where
  init : VerifiedInit H
  admitted : Bool := false

/-- One side: its manager, the INIT it is handling and the INIT it sent last. -/
structure Party (H : Type) where
  mgr : SessionManager H := {}
  call : Option (PartyCall H) := none
  sent : Option (UInt32 × List UInt8) := none

structure Pair (H : Type) where
  party : Side → Party H := fun _ => {}
  net : List Packet := []

inductive PairAction where
  | initiate (side : Side) (now : Time) (sessionId : UInt32) (entropy : Entropy)
  | retransmit (side : Side)
  | duplicate (index : Nat)
  | lose (index : Nat)
  | deliver (index : Nat) (now : Time) (entropy : Entropy)
  | admission (side : Side) (now : Time)
  | install (side : Side) (now : Time)
  | purge (side : Side) (now : Time)

namespace Pair

variable (P : Primitives H) (ends : Ends P)

def mgr (s : Pair H) (side : Side) : SessionManager H := (s.party side).mgr

/-- Replace one side's manager and the INIT it is handling. -/
def put (s : Pair H) (side : Side) (mgr : SessionManager H) (call : Option (PartyCall H)) : Pair H :=
  { s with party := update s.party side { s.party side with mgr := mgr, call := call } }

/-- Replace one side's manager by one with a new initiation, and send its INIT. -/
def initiated (s : Pair H) (side : Side) (sessionId : UInt32) (message : List UInt8) (mgr : SessionManager H) :
    Pair H where
  party := update s.party side { s.party side with mgr := mgr, sent := some (sessionId, message) }
  net := ⟨.init, side, sessionId, message⟩ :: s.net

/-- Hand an INIT to its first section. -/
def receiveInit (s : Pair H) (now : Time) (packet : Packet) (entropy : Entropy) : Pair H :=
  let side := packet.sender.other
  match (s.mgr side).initCheck P (ends.config side) now packet.message packet.sessionId entropy with
  | (mgr, some init) => s.put side mgr (some { init := init })
  | (mgr, none) => s.put side mgr none

def receiveResp (s : Pair H) (now : Time) (packet : Packet) : Pair H :=
  let side := packet.sender.other
  s.put side ((s.mgr side).handleHandshakeResp P (ends.config side) now packet.message packet.sessionId).1 none

def step (s : Pair H) : PairAction → Pair H
  | .initiate side now sessionId entropy =>
    match (s.mgr side).createHandshakeInit P (ends.config side) now sessionId (ends.nodeId side.other)
        (ends.static side.other) entropy with
    | (mgr, some message) => s.initiated side sessionId message mgr
    | (mgr, none) => s.put side mgr (s.party side).call
  | .retransmit side =>
    match (s.party side).sent with
    | some (sessionId, message) =>
      if (s.mgr side).pendingInitiators.contains sessionId then
        { s with net := ⟨.init, side, sessionId, message⟩ :: s.net }
      else s
    | none => s
  | .duplicate index =>
    match s.net[index]? with
    | some packet => { s with net := packet :: s.net }
    | none => s
  | .lose index => { s with net := s.net.eraseIdx index }
  | .deliver index now entropy =>
    match s.net[index]? with
    | none => s
    | some packet =>
      -- The receive loop is busy until the last INIT is done with.
      if (s.party packet.sender.other).call.isSome then s
      else
        let s := { s with net := s.net.eraseIdx index }
        match packet.kind with
        | .init => s.receiveInit P ends now packet entropy
        | .resp => s.receiveResp P ends now packet
  | .admission side now =>
    match (s.party side).call with
    | some ⟨init, false⟩ =>
      match (s.mgr side).initAdmit (ends.config side) now init with
      | (mgr, true) => s.put side mgr (some ⟨init, true⟩)
      | (mgr, false) => s.put side mgr none
    | _ => s
  | .install side now =>
    match (s.party side).call with
    | some ⟨init, true⟩ =>
      match (s.mgr side).initInstall P (ends.config side) now init with
      | (mgr, some response) =>
        { s.put side mgr none with net := ⟨.resp, side, init.sessionId, response.message⟩ :: s.net }
      | (mgr, none) => s.put side mgr none
    | _ => s
  | .purge side now =>
    s.put side (((s.mgr side).purgeInits now).purgeRetiredLocked now) (s.party side).call

/-! ### Conditions on the steps of a run -/

variable {P}

/-- A RESP for this initiation of the side is in flight. -/
def respInFlight (s : Pair H) (side : Side) (sessionId : UInt32) : Bool :=
  s.net.any fun packet => packet.kind = .resp ∧ packet.sender = side.other ∧ packet.sessionId = sessionId

/-- This initiation of the side is being answered: the other side has admitted its INIT and will install
the session, or the RESP is in flight. -/
def beingAnswered (s : Pair H) (side : Side) (sessionId : UInt32) : Bool :=
  (s.party side.other).call.any (fun call => call.admitted ∧ call.init.sessionId = sessionId) ||
    s.respInFlight side sessionId

/-- The side waits for the answer to this initiation. -/
def waitsFor (s : Pair H) (side : Side) (sessionId : UInt32) : Bool :=
  ((s.mgr side).pendingInitiators.find? sessionId).any (·.expectedPeerId = ends.nodeId side.other)

/-- At `now` no initiation of the side has timed out. -/
def NoTimeout (s : Pair H) (side : Side) (now : Time) : Prop :=
  ∀ entry ∈ (s.mgr side).pendingInitiators.entries, entry.2.expectedPeerId = ends.nodeId side.other →
    now < entry.2.expires

/-- At `now` no initiation of the side that is being answered has timed out. -/
def AnsweredInTime (s : Pair H) (side : Side) (now : Time) : Prop :=
  ∀ entry ∈ (s.mgr side).pendingInitiators.entries, entry.2.expectedPeerId = ends.nodeId side.other →
    s.beingAnswered side entry.1 → now < entry.2.expires

/-- The session id is in no table and in no message. -/
def Unused (s : Pair H) (sessionId : UInt32) : Prop :=
  (∀ side, (s.mgr side).sessionIdInUse sessionId = false) ∧
    (∀ side, ∀ call ∈ (s.party side).call, call.init.sessionId ≠ sessionId) ∧
    ∀ packet ∈ s.net, packet.sessionId ≠ sessionId

/-- The second section refuses the INIT: its transcript is cached, or it collides with an initiation or a
session of this side and this side has priority. -/
def refusesAdmission (s : Pair H) (side : Side) (now : Time) (init : VerifiedInit H) : Bool :=
  ((s.mgr side).purgeInits now).handshakeReplays.contains init.replayKey ||
    (decide ((ends.config side).identity.nodeId < init.peerId) &&
      ((((s.mgr side).purgeInits now).pendingTo? init.peerId).isSome || (s.mgr side).activeLocally init.peerId))

/-- Steps that keep the sides together: ids are fresh, a side initiates only without a pending initiation,
an INIT whose initiation has ended is refused, and an initiation that is being answered neither times out
nor loses the last copy of its RESP. -/
def Careful (s : Pair H) : PairAction → Prop
  | .initiate side now sessionId _ =>
    s.AnsweredInTime ends side now ∧ s.Unused sessionId ∧
      ((s.mgr side).purgeIncompleteHandshakesLocked now).pendingTo? (ends.nodeId side.other) = none
  | .retransmit _ => True
  | .duplicate _ => True
  | .lose index => ∀ packet ∈ s.net[index]?, packet.kind = .resp →
      s.waitsFor ends packet.sender.other packet.sessionId = true →
      respInFlight { s with net := s.net.eraseIdx index } packet.sender.other packet.sessionId = true
  | .deliver index now _ => ∀ packet ∈ s.net[index]?, s.AnsweredInTime ends packet.sender.other now
  | .admission side now =>
    s.AnsweredInTime ends side now ∧ ∀ call ∈ (s.party side).call, call.admitted = false →
      s.refusesAdmission ends side now call.init = true ∨ s.waitsFor ends side.other call.init.sessionId = true
  | .install side now => s.AnsweredInTime ends side now
  | .purge side now => s.AnsweredInTime ends side now

/-- Steps of runs in which a side initiates with fresh ids and only without a pending initiation, every
message is delivered exactly once and nothing times out. -/
def Orderly (s : Pair H) : PairAction → Prop
  | .initiate side now sessionId _ =>
    s.NoTimeout ends side now ∧ s.Unused sessionId ∧ (s.mgr side).pendingTo? (ends.nodeId side.other) = none
  | .retransmit _ => False
  | .duplicate _ => False
  | .lose _ => False
  | .deliver index now _ => ∀ packet ∈ s.net[index]?, s.NoTimeout ends packet.sender.other now
  | .admission side now => s.NoTimeout ends side now
  | .install side now => s.NoTimeout ends side now
  | .purge side now => s.NoTimeout ends side now

/-- No handshake message is in flight or being handled. -/
def Quiet (s : Pair H) : Prop := s.net = [] ∧ ∀ side, (s.party side).call = none

instance (s : Pair H) (side : Side) (now : Time) : Decidable (s.NoTimeout ends side now) :=
  inferInstanceAs (Decidable (∀ entry ∈ _, _ → _))

instance (s : Pair H) (side : Side) (now : Time) : Decidable (s.AnsweredInTime ends side now) :=
  inferInstanceAs (Decidable (∀ entry ∈ _, _ → _ → _))

instance (s : Pair H) (sessionId : UInt32) : Decidable (s.Unused sessionId) :=
  inferInstanceAs (Decidable (_ ∧ _ ∧ _))

instance (s : Pair H) : ∀ action, Decidable (s.Careful ends action)
  | .initiate .. => inferInstanceAs (Decidable (_ ∧ _ ∧ _))
  | .retransmit _ => .isTrue trivial
  | .duplicate _ => .isTrue trivial
  | .lose _ => inferInstanceAs (Decidable (∀ packet ∈ _, _ → _ → _))
  | .deliver .. => inferInstanceAs (Decidable (∀ packet ∈ _, _))
  | .admission .. => inferInstanceAs (Decidable (_ ∧ ∀ call ∈ _, _ → _ ∨ _))
  | .install .. => inferInstanceAs (Decidable (AnsweredInTime ..))
  | .purge .. => inferInstanceAs (Decidable (AnsweredInTime ..))

instance (s : Pair H) : ∀ action, Decidable (s.Orderly ends action)
  | .initiate .. => inferInstanceAs (Decidable (_ ∧ _ ∧ _))
  | .retransmit _ => .isFalse id
  | .duplicate _ => .isFalse id
  | .lose _ => .isFalse id
  | .deliver .. => inferInstanceAs (Decidable (∀ packet ∈ _, _))
  | .admission .. => inferInstanceAs (Decidable (NoTimeout ..))
  | .install .. => inferInstanceAs (Decidable (NoTimeout ..))
  | .purge .. => inferInstanceAs (Decidable (NoTimeout ..))

instance (s : Pair H) : Decidable s.Quiet := inferInstanceAs (Decidable (_ ∧ _))

end Pair

end Aegis
