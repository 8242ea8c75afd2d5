import Aegis.Lib.SortedMap
import Aegis.Protocol.EndpointCandidate

/-!
# Endpoint challenges

`protocol/endpoint_punch.cpp`: the challenge and response messages, and the table of challenges that wait for
a response. A challenge is begun for one peer at one endpoint; a response counts only under the same id, from
that peer and endpoint, within the timeout, and takes the challenge out of the table.
-/

namespace Aegis

def ENDPOINT_PUNCH_MAX_PENDING : Nat := 256

/-- Five seconds, in milliseconds. -/
def ENDPOINT_PUNCH_TIMEOUT : Time := 5000

inductive EndpointPunchKind where
  | challenge
  | response
deriving DecidableEq

namespace EndpointPunchKind

def toByte : EndpointPunchKind → UInt8
  | .challenge => 1
  | .response => 2

def ofByte? : UInt8 → Option EndpointPunchKind
  | 1 => some .challenge
  | 2 => some .response
  | _ => none

end EndpointPunchKind

structure EndpointPunchMessage where
  kind : EndpointPunchKind := .challenge
  transactionId : UInt64 := 0
deriving DecidableEq

structure EndpointPunchTarget where
  peerId : NodeId := FixedBytes.zero 32
  endpoint : Endpoint := {}
deriving DecidableEq

def serializeEndpointPunch (message : EndpointPunchMessage) : Option (List UInt8) :=
  if message.transactionId = 0 then none
  else some (1 :: message.kind.toByte :: (beBytes 2 0 ++ beBytes 8 message.transactionId.toNat))

def deserializeEndpointPunch (payload : List UInt8) : Option EndpointPunchMessage := do
  let (version, reader) ← (WireReader.mk payload).readU8
  let (kind, reader) ← reader.readU8
  let (reserved, reader) ← reader.readU16
  let (transactionId, reader) ← reader.readU64
  if !reader.finished ∨ version ≠ 1 ∨ reserved ≠ 0 ∨ transactionId = 0 then none
  else
    let kind ← EndpointPunchKind.ofByte? kind
    some ⟨kind, transactionId⟩

/-- A challenge that waits for its response. -/
structure PendingPunch where
  target : EndpointPunchTarget
  sentAt : Time
deriving DecidableEq

structure EndpointPunchTracker where
  maximum : Nat := ENDPOINT_PUNCH_MAX_PENDING
  timeout : Time := ENDPOINT_PUNCH_TIMEOUT
  pending : SortedMap UInt64 PendingPunch := ∅
deriving DecidableEq

namespace EndpointPunchTracker

/-- The table with the challenge, if it can be begun. -/
def begin? (t : EndpointPunchTracker) (transactionId : UInt64) (target : EndpointPunchTarget) (now : Time) :
    Option EndpointPunchTracker :=
  if transactionId = 0 ∨ target.peerId = FixedBytes.zero 32 ∨
      !validEndpointCandidate ⟨.peerObserved, target.endpoint, 1⟩ ∨ t.maximum = 0 ∨ t.timeout ≤ 0 then none
  else if t.maximum ≤ t.pending.size ∨ t.pending.contains transactionId then none
  else if t.pending.entries.any (fun entry => entry.2.target = target) then none
  else some { t with pending := t.pending.insert transactionId ⟨target, now⟩ }

/-- The challenge a response answers. -/
def answered? (t : EndpointPunchTracker) (transactionId : UInt64) (peerId : NodeId) (source : Endpoint)
    (now : Time) : Option EndpointPunchTarget :=
  match t.pending.find? transactionId with
  | none => none
  | some pending =>
    if pending.target.peerId ≠ peerId ∨ pending.target.endpoint ≠ source ∨ now < pending.sentAt ∨
        t.timeout ≤ now - pending.sentAt then none
    else some pending.target

def cancel (t : EndpointPunchTracker) (transactionId : UInt64) : EndpointPunchTracker :=
  { t with pending := t.pending.erase transactionId }

def acknowledge (t : EndpointPunchTracker) (transactionId : UInt64) (peerId : NodeId) (source : Endpoint)
    (now : Time) : Option EndpointPunchTarget × EndpointPunchTracker :=
  match t.answered? transactionId peerId source now with
  | none => (none, t)
  | some target => (some target, t.cancel transactionId)

/-- The challenge is past the timeout. -/
def overdue (t : EndpointPunchTracker) (now : Time) (pending : PendingPunch) : Bool :=
  pending.sentAt ≤ now && t.timeout ≤ now - pending.sentAt

def expire (t : EndpointPunchTracker) (now : Time) : List UInt64 × EndpointPunchTracker :=
  ((t.pending.filter fun _ pending => t.overdue now pending).entries.map Prod.fst,
    { t with pending := t.pending.filter fun _ pending => !t.overdue now pending })

def reset (t : EndpointPunchTracker) : EndpointPunchTracker := { t with pending := ∅ }

variable {t : EndpointPunchTracker} {transactionId : UInt64} {target : EndpointPunchTarget} {now : Time}

theorem begin?_eq_some {t' : EndpointPunchTracker} (h : t.begin? transactionId target now = some t') :
    t' = { t with pending := t.pending.insert transactionId ⟨target, now⟩ } := by
  unfold begin? at h
  split_ifs at h
  exact (Option.some.inj h).symm

/-- A response counts for the pending challenge with its id, from the challenged peer and endpoint, within the
timeout. -/
theorem answered?_eq_some {peerId : NodeId} {source : Endpoint}
    (h : t.answered? transactionId peerId source now = some target) :
    ∃ sentAt, t.pending.find? transactionId = some ⟨target, sentAt⟩ ∧ target.peerId = peerId ∧
      target.endpoint = source ∧ sentAt ≤ now ∧ now - sentAt < t.timeout := by
  unfold answered? at h
  cases hfind : t.pending.find? transactionId with
  | none => simp [hfind] at h
  | some pending =>
    rw [hfind] at h
    dsimp only at h
    split_ifs at h with hrefused
    obtain rfl := Option.some.inj h
    simp only [not_or, not_not, not_lt, not_le] at hrefused
    exact ⟨pending.sentAt, rfl, hrefused⟩

theorem mem_expired_iff :
    transactionId ∈ (t.expire now).1 ↔
      ∃ pending, t.pending.find? transactionId = some pending ∧ t.overdue now pending = true := by
  simp only [expire, List.mem_map, Prod.exists, ← SortedMap.find?_eq_some_iff,
    SortedMap.find?_filter_eq_some_iff]
  constructor
  · rintro ⟨id, pending, hfind, rfl⟩
    exact ⟨pending, hfind⟩
  · rintro ⟨pending, hfind⟩
    exact ⟨_, pending, hfind, rfl⟩

end EndpointPunchTracker

end Aegis
