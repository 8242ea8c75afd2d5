import Aegis.Net.Address
import Aegis.Transport.SendQueue

/-!
# Handing datagrams to the transport

`Transport::send` of `transport/transport.cpp`: a datagram within the configured maximum is copied into the
bounded queue of its destination. The socket itself, the send loop and the receive loop are left out; a
transport is sending while its socket is bound and its send loop runs.
-/

namespace Aegis

def IPV4_UDP_MAX_DATAGRAM_SIZE : Nat := 65507

structure TransportQueueDropStats where
  data : UInt64 := 0
  control : UInt64 := 0
deriving DecidableEq

structure Transport where
  maxDatagramSize : Nat := IPV4_UDP_MAX_DATAGRAM_SIZE
  within : maxDatagramSize ≤ IPV4_UDP_MAX_DATAGRAM_SIZE := by exact Nat.le_refl _
  ipv6Socket : Bool := false
  sending : Bool := false
  sendQueue : BoundedSendQueue Endpoint := {}
  oversizeSendDrops : UInt64 := 0
  queueDrops : TransportQueueDropStats := {}

namespace Transport

def setMaxDatagramSize (t : Transport) (maximum : Nat) : Option Transport :=
  if h : maximum = 0 ∨ IPV4_UDP_MAX_DATAGRAM_SIZE < maximum then none
  else some { t with maxDatagramSize := maximum, within := by omega }

/-- The bytes of a datagram within the maximum, as the queue takes them. -/
def buffer (t : Transport) (data : List UInt8) (h : data.length ≤ t.maxDatagramSize) : SendBuffer where
  data := some data
  len := UInt64.ofNat data.length
  readable := by
    intro bytes hbytes
    obtain rfl := Option.some.inj hbytes
    have hwithin := t.within
    rw [UInt64.toNat_ofNat_of_lt' (Nat.lt_of_le_of_lt (Nat.le_trans h hwithin) (by decide))]

def recordDrop (t : Transport) : SendPriority → Transport
  | .control => { t with queueDrops := { t.queueDrops with control := t.queueDrops.control + 1 } }
  | .data => { t with queueDrops := { t.queueDrops with data := t.queueDrops.data + 1 } }

def send (t : Transport) (data : List UInt8) (dest : Endpoint) (priority : SendPriority := .data) :
    Bool × Transport :=
  if h : data.length ≤ t.maxDatagramSize then
    if dest.isIpv6 && !t.ipv6Socket then (false, t)
    else if !t.sending then (false, t)
    else
      let answer := t.sendQueue.enqueue dest (t.buffer data h) priority
      if answer.1 = .queued then (true, { t with sendQueue := answer.2 }) else (false, t.recordDrop priority)
  else (false, { t with oversizeSendDrops := t.oversizeSendDrops + 1 })

@[simp] theorem maxDatagramSize_send (t : Transport) (data : List UInt8) (dest : Endpoint) (priority : SendPriority) :
    (t.send data dest priority).2.maxDatagramSize = t.maxDatagramSize := by
  unfold send
  split
  · split
    · rfl
    split
    · rfl
    dsimp only
    split
    · rfl
    · cases priority <;> rfl
  · rfl

theorem length_of_send {t : Transport} {data : List UInt8} {dest : Endpoint} {priority : SendPriority}
    (h : (t.send data dest priority).1 = true) : data.length ≤ t.maxDatagramSize := by
  unfold send at h
  split at h
  · assumption
  · exact absurd h (by simp)

end Transport

end Aegis
