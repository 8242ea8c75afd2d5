import Aegis.Lib.FairQueue

/-!
# The bounded send queue

`BasicBoundedSendQueue` holds datagrams in two classes, control and data. Each class has a FIFO lane for
every peer, a list of the peers whose turn it is and counters of its items and bytes; every limit is on one
class. The counters are machine words, and so is the room that a limit leaves.

`ClassView` is the part of the queue that one
class reads and writes, and an operation changes one view (`view_append`, `view_popClass`).
-/

namespace Aegis

def TRANSPORT_DATA_QUEUE_MAX_ITEMS_PER_PEER : UInt64 := 48
def TRANSPORT_DATA_QUEUE_MAX_BYTES_PER_PEER : UInt64 := 192 * 1024
def TRANSPORT_DATA_QUEUE_MAX_ITEMS_GLOBAL : UInt64 := 768
def TRANSPORT_DATA_QUEUE_MAX_BYTES_GLOBAL : UInt64 := 3 * 1024 * 1024
def TRANSPORT_CONTROL_QUEUE_MAX_ITEMS_PER_PEER : UInt64 := 16
def TRANSPORT_CONTROL_QUEUE_MAX_BYTES_PER_PEER : UInt64 := 64 * 1024
def TRANSPORT_CONTROL_QUEUE_MAX_ITEMS_GLOBAL : UInt64 := 256
def TRANSPORT_CONTROL_QUEUE_MAX_BYTES_GLOBAL : UInt64 := 1024 * 1024

structure SendQueueClassLimits where
  maxItemsPerPeer : UInt64
  maxBytesPerPeer : UInt64
  maxItemsGlobal : UInt64
  maxBytesGlobal : UInt64
deriving DecidableEq, Repr

structure SendQueueLimits where
  data : SendQueueClassLimits :=
    { maxItemsPerPeer := TRANSPORT_DATA_QUEUE_MAX_ITEMS_PER_PEER
      maxBytesPerPeer := TRANSPORT_DATA_QUEUE_MAX_BYTES_PER_PEER
      maxItemsGlobal := TRANSPORT_DATA_QUEUE_MAX_ITEMS_GLOBAL
      maxBytesGlobal := TRANSPORT_DATA_QUEUE_MAX_BYTES_GLOBAL }
  control : SendQueueClassLimits :=
    { maxItemsPerPeer := TRANSPORT_CONTROL_QUEUE_MAX_ITEMS_PER_PEER
      maxBytesPerPeer := TRANSPORT_CONTROL_QUEUE_MAX_BYTES_PER_PEER
      maxItemsGlobal := TRANSPORT_CONTROL_QUEUE_MAX_ITEMS_GLOBAL
      maxBytesGlobal := TRANSPORT_CONTROL_QUEUE_MAX_BYTES_GLOBAL }
deriving DecidableEq, Repr

inductive SendPriority
  | data
  | control
deriving DecidableEq, Repr

inductive SendQueueResult
  | queued
  | invalid
  | perPeerItemLimit
  | perPeerByteLimit
  | globalItemLimit
  | globalByteLimit
deriving DecidableEq, Repr

structure QueuedDatagram (Key : Type) where
  peerKey : Key
  priority : SendPriority := .data
  bytes : List UInt8
deriving DecidableEq, Repr

/-- The pointer and the length an enqueue is given: no data is the null pointer, and data is as long as the
length says. -/
structure SendBuffer where
  data : Option (List UInt8)
  len : UInt64
  readable : ∀ bytes, data = some bytes → bytes.length = len.toNat

namespace SendBuffer

/-- The copy the queue keeps. -/
def bytes (buffer : SendBuffer) : List UInt8 := buffer.data.getD []

/-- Not a null pointer that should hold something. -/
def valid (buffer : SendBuffer) : Bool := !(decide (0 < buffer.len) && buffer.data.isNone)

theorem length_bytes {buffer : SendBuffer} (h : buffer.valid) : buffer.bytes.length = buffer.len.toNat := by
  cases hdata : buffer.data with
  | some data => simpa [bytes, hdata] using buffer.readable data hdata
  | none =>
    have hzero : ¬(0 : UInt64) < buffer.len := by simpa [valid, hdata] using h
    rw [UInt64.lt_iff_toNat_lt, UInt64.toNat_zero] at hzero
    simp only [bytes, hdata, Option.getD_none, List.length_nil]
    omega

end SendBuffer

structure QueueLane where
  items : List (List UInt8) := []
  bytes : UInt64 := 0
deriving DecidableEq, Repr

structure PeerQueue where
  control : QueueLane := {}
  data : QueueLane := {}
deriving DecidableEq, Repr

def PeerQueue.lane (peer : PeerQueue) : SendPriority → QueueLane
  | .control => peer.control
  | .data => peer.data

def PeerQueue.setLane (peer : PeerQueue) (lane : QueueLane) : SendPriority → PeerQueue
  | .control => { peer with control := lane }
  | .data => { peer with data := lane }

/-- The entry of a peer, which goes with the last datagram of either class. -/
def PeerQueue.kept (peer : PeerQueue) : Option PeerQueue :=
  if peer.control.items.isEmpty && peer.data.items.isEmpty then none else some peer

def SendQueueLimits.ofClass (limits : SendQueueLimits) : SendPriority → SendQueueClassLimits
  | .control => limits.control
  | .data => limits.data

def SendQueueClassLimits.valid (limits : SendQueueClassLimits) : Bool :=
  decide (0 < limits.maxItemsPerPeer) && decide (0 < limits.maxBytesPerPeer) &&
    decide (0 < limits.maxItemsGlobal) && decide (0 < limits.maxBytesGlobal)

def SendQueueLimits.valid (limits : SendQueueLimits) : Bool := limits.control.valid && limits.data.valid

/-- `BasicBoundedSendQueue<Key>`. -/
structure BoundedSendQueue (Key : Type) where
  limits : SendQueueLimits := {}
  peers : Key → Option PeerQueue := fun _ => none
  activeControlPeers : List Key := []
  activeDataPeers : List Key := []
  controlItems : UInt64 := 0
  controlBytes : UInt64 := 0
  dataItems : UInt64 := 0
  dataBytes : UInt64 := 0

namespace BoundedSendQueue

variable {Key : Type}

def active (q : BoundedSendQueue Key) : SendPriority → List Key
  | .control => q.activeControlPeers
  | .data => q.activeDataPeers

def items (q : BoundedSendQueue Key) : SendPriority → UInt64
  | .control => q.controlItems
  | .data => q.dataItems

def bytes (q : BoundedSendQueue Key) : SendPriority → UInt64
  | .control => q.controlBytes
  | .data => q.dataBytes

/-- The fields of one class, written together. -/
def setClass (q : BoundedSendQueue Key) (active : List Key) (items bytes : UInt64) :
    SendPriority → BoundedSendQueue Key
  | .control => { q with activeControlPeers := active, controlItems := items, controlBytes := bytes }
  | .data => { q with activeDataPeers := active, dataItems := items, dataBytes := bytes }

def size (q : BoundedSendQueue Key) : UInt64 := q.controlItems + q.dataItems

def empty (q : BoundedSendQueue Key) : Bool := q.size == 0

/-- What `enqueue` returns; the tests in the order of the source. -/
def verdict (q : BoundedSendQueue Key) (peerKey : Key) (buffer : SendBuffer) (priority : SendPriority) :
    SendQueueResult :=
  let existingLane := (q.peers peerKey).map fun peer => peer.lane priority
  let peerItems := existingLane.elim 0 fun lane => UInt64.ofNat lane.items.length
  let peerBytes := existingLane.elim 0 fun lane => lane.bytes
  let classLimits := q.limits.ofClass priority
  if !buffer.valid || !q.limits.valid then .invalid
  else if classLimits.maxItemsPerPeer ≤ peerItems then .perPeerItemLimit
  else if classLimits.maxBytesPerPeer - peerBytes < buffer.len then .perPeerByteLimit
  else if classLimits.maxItemsGlobal ≤ q.items priority then .globalItemLimit
  else if classLimits.maxBytesGlobal - q.bytes priority < buffer.len then .globalByteLimit
  else .queued

variable [DecidableEq Key]

/-- The rest of `enqueue`, once every test has passed. -/
def append (q : BoundedSendQueue Key) (peerKey : Key) (buffer : SendBuffer) (priority : SendPriority) :
    BoundedSendQueue Key :=
  let peer := (q.peers peerKey).getD {}
  let lane := peer.lane priority
  let active := if lane.items.isEmpty then q.active priority ++ [peerKey] else q.active priority
  let lane := { items := lane.items ++ [buffer.bytes], bytes := lane.bytes + buffer.len }
  { q with peers := Function.update q.peers peerKey (some (peer.setLane lane priority)) }.setClass active
    (q.items priority + 1) (q.bytes priority + buffer.len) priority

def enqueue (q : BoundedSendQueue Key) (peerKey : Key) (buffer : SendBuffer)
    (priority : SendPriority := .data) : SendQueueResult × BoundedSendQueue Key :=
  let result := q.verdict peerKey buffer priority
  (result, if result = .queued then q.append peerKey buffer priority else q)

/-- `pop(priority)`: the source calls it only with somebody in the active list, whose front it takes. -/
def popClass (q : BoundedSendQueue Key) (priority : SendPriority) :
    Option (QueuedDatagram Key) × BoundedSendQueue Key :=
  match q.active priority with
  | [] => (none, q)
  | peerKey :: active =>
    let dropped := q.setClass active (q.items priority) (q.bytes priority) priority
    match q.peers peerKey with
    | none => (none, dropped)
    | some peer =>
      match (peer.lane priority).items with
      | [] => (none, dropped)
      | bytes :: items =>
        let len := UInt64.ofNat bytes.length
        let peer := peer.setLane { items, bytes := (peer.lane priority).bytes - len } priority
        let active := if items.isEmpty then active else active ++ [peerKey]
        (some { peerKey, priority, bytes },
          { q with peers := Function.update q.peers peerKey peer.kept }.setClass active (q.items priority - 1)
            (q.bytes priority - len) priority)

def pop (q : BoundedSendQueue Key) : Option (QueuedDatagram Key) × BoundedSendQueue Key :=
  if !q.activeControlPeers.isEmpty then q.popClass .control
  else if !q.activeDataPeers.isEmpty then q.popClass .data
  else (none, q)

def clear (q : BoundedSendQueue Key) : BoundedSendQueue Key := { limits := q.limits }

/-! ### The part of the queue that one class reads and writes -/

/-- A peer without an entry has empty lanes. -/
def laneOf (q : BoundedSendQueue Key) (peerKey : Key) (priority : SendPriority) : QueueLane :=
  ((q.peers peerKey).getD {}).lane priority

/-- The peers with an entry are those with a datagram in the queue. -/
def EntriesInUse (q : BoundedSendQueue Key) : Prop :=
  ∀ peerKey, (q.peers peerKey).isSome ↔ ∃ priority, (q.laneOf peerKey priority).items ≠ []

end BoundedSendQueue

structure ClassView (Key : Type) where
  lane : Key → QueueLane
  active : List Key
  items : UInt64
  bytes : UInt64

namespace ClassView

variable {Key : Type} [DecidableEq Key]

def push (v : ClassView Key) (peerKey : Key) (buffer : SendBuffer) : ClassView Key where
  lane := Function.update v.lane peerKey
    { items := (v.lane peerKey).items ++ [buffer.bytes], bytes := (v.lane peerKey).bytes + buffer.len }
  active := if (v.lane peerKey).items.isEmpty then v.active ++ [peerKey] else v.active
  items := v.items + 1
  bytes := v.bytes + buffer.len

/-- The view after the first datagram of the peer in front was taken and `items` are left of its lane. -/
def take (v : ClassView Key) (peerKey : Key) (rest : List Key) (bytes : List UInt8)
    (items : List (List UInt8)) : ClassView Key where
  lane := Function.update v.lane peerKey
    { items, bytes := (v.lane peerKey).bytes - UInt64.ofNat bytes.length }
  active := if items.isEmpty then rest else rest ++ [peerKey]
  items := v.items - 1
  bytes := v.bytes - UInt64.ofNat bytes.length

end ClassView

namespace BoundedSendQueue

variable {Key : Type}

def view (q : BoundedSendQueue Key) (priority : SendPriority) : ClassView Key where
  lane := fun peerKey => q.laneOf peerKey priority
  active := q.active priority
  items := q.items priority
  bytes := q.bytes priority

@[simp] theorem lane_setLane_self (peer : PeerQueue) (lane : QueueLane) (priority : SendPriority) :
    (peer.setLane lane priority).lane priority = lane := by
  cases priority <;> rfl

theorem lane_setLane_of_ne {priority other : SendPriority} (h : other ≠ priority) (peer : PeerQueue)
    (lane : QueueLane) : (peer.setLane lane priority).lane other = peer.lane other := by
  cases priority <;> cases other <;> first | rfl | exact absurd rfl h

theorem view_setClass [DecidableEq Key] (q : BoundedSendQueue Key) (peerKey : Key) (entry : Option PeerQueue)
    (active : List Key) (items bytes : UInt64) (priority : SendPriority)
    (hother : ∀ other, other ≠ priority → (entry.getD {}).lane other = q.laneOf peerKey other) :
    ({ q with peers := Function.update q.peers peerKey entry }.setClass active items bytes priority).view
      = Function.update q.view priority
          { lane := Function.update (q.view priority).lane peerKey ((entry.getD {}).lane priority)
            active, items, bytes } := by
  funext other
  have hpeers : ({ q with peers := Function.update q.peers peerKey entry }.setClass active items bytes
      priority).peers = Function.update q.peers peerKey entry := by
    cases priority <;> rfl
  have hlane : ∀ k, ({ q with peers := Function.update q.peers peerKey entry }.setClass active items bytes
      priority).laneOf k other
        = Function.update (fun k => q.laneOf k other) peerKey ((entry.getD {}).lane other) k := by
    intro k
    rw [laneOf, hpeers]
    by_cases hk : k = peerKey
    · subst hk
      simp
    · simp [hk, laneOf]
  by_cases h : other = priority
  · subst h
    rw [Function.update_self, view, funext hlane]
    cases other <;> rfl
  · rw [Function.update_of_ne h, view, funext hlane, hother other h, Function.update_eq_self]
    cases priority <;> cases other <;> first | rfl | exact absurd rfl h

variable {q : BoundedSendQueue Key}

theorem laneOf_of_peers {peerKey : Key} {peer : PeerQueue} (h : q.peers peerKey = some peer) (priority : SendPriority) :
    q.laneOf peerKey priority = peer.lane priority := by
  rw [laneOf, h, Option.getD_some]

theorem verdict_eq_view (q : BoundedSendQueue Key) (peerKey : Key) (buffer : SendBuffer) (priority : SendPriority) :
    q.verdict peerKey buffer priority
      = if !buffer.valid || !q.limits.valid then .invalid
        else if (q.limits.ofClass priority).maxItemsPerPeer
            ≤ UInt64.ofNat ((q.view priority).lane peerKey).items.length then .perPeerItemLimit
        else if (q.limits.ofClass priority).maxBytesPerPeer - ((q.view priority).lane peerKey).bytes
            < buffer.len then .perPeerByteLimit
        else if (q.limits.ofClass priority).maxItemsGlobal ≤ (q.view priority).items then .globalItemLimit
        else if (q.limits.ofClass priority).maxBytesGlobal - (q.view priority).bytes < buffer.len then
          .globalByteLimit
        else .queued := by
  have hlane : (q.view priority).lane peerKey = ((q.peers peerKey).getD {}).lane priority := rfl
  rw [hlane]
  cases hpeer : q.peers peerKey with
  | some peer => simp only [verdict, hpeer, Option.map_some, Option.elim_some, Option.getD_some]; rfl
  | none =>
    cases priority <;> simp only [verdict, hpeer, Option.map_none, Option.elim_none, Option.getD_none] <;> rfl

variable [DecidableEq Key]

theorem view_append (q : BoundedSendQueue Key) (peerKey : Key) (buffer : SendBuffer) (priority : SendPriority) :
    (q.append peerKey buffer priority).view
      = Function.update q.view priority ((q.view priority).push peerKey buffer) := by
  unfold append
  rw [view_setClass]
  · simp only [Option.getD_some, lane_setLane_self]
    rfl
  · intro other hother
    exact lane_setLane_of_ne hother _ _

theorem entriesInUse_append (h : q.EntriesInUse) (peerKey : Key) (buffer : SendBuffer)
    (priority : SendPriority) : (q.append peerKey buffer priority).EntriesInUse := by
  have hpeers : (q.append peerKey buffer priority).peers = Function.update q.peers peerKey
      (some (((q.peers peerKey).getD {}).setLane
        { items := (q.laneOf peerKey priority).items ++ [buffer.bytes]
          bytes := (q.laneOf peerKey priority).bytes + buffer.len } priority)) := by
    cases priority <;> rfl
  intro k
  by_cases hk : k = peerKey
  · subst hk
    simp only [laneOf, hpeers, Function.update_self, Option.isSome_some, Option.getD_some, true_iff]
    exact ⟨priority, by simp⟩
  · have := h k
    simpa only [laneOf, hpeers, Function.update_of_ne hk] using this

theorem popClass_eq {priority : SendPriority} {peerKey : Key} {rest : List Key} {bytes : List UInt8}
    {items : List (List UInt8)} (hactive : q.active priority = peerKey :: rest)
    (hlane : (q.laneOf peerKey priority).items = bytes :: items) :
    ∃ peer entry, q.peers peerKey = some peer ∧
      peer.setLane { items, bytes := (peer.lane priority).bytes - UInt64.ofNat bytes.length } priority = entry ∧
      q.popClass priority = (some { peerKey, priority, bytes },
        { q with peers := Function.update q.peers peerKey entry.kept }.setClass
          (if items.isEmpty then rest else rest ++ [peerKey]) (q.items priority - 1)
          (q.bytes priority - UInt64.ofNat bytes.length) priority) := by
  cases hpeer : q.peers peerKey with
  | none => cases priority <;> simp [laneOf, hpeer, PeerQueue.lane] at hlane
  | some peer =>
    rw [laneOf_of_peers hpeer] at hlane
    refine ⟨peer, _, rfl, rfl, ?_⟩
    simp only [popClass, hactive, hpeer, hlane]

theorem kept_eq (peer : PeerQueue) :
    ((∀ priority, (peer.lane priority).items = []) ∧ peer.kept = none) ∨
    ((∃ priority, (peer.lane priority).items ≠ []) ∧ peer.kept = some peer) := by
  unfold PeerQueue.kept
  split_ifs with hempty
  · rw [Bool.and_eq_true, List.isEmpty_iff, List.isEmpty_iff] at hempty
    refine Or.inl ⟨?_, rfl⟩
    intro priority
    cases priority
    · exact hempty.2
    · exact hempty.1
  · refine Or.inr ⟨?_, rfl⟩
    rw [Bool.and_eq_true, List.isEmpty_iff, List.isEmpty_iff, not_and_or] at hempty
    rcases hempty with hcontrol | hdata
    · exact ⟨.control, hcontrol⟩
    · exact ⟨.data, hdata⟩

theorem lane_kept (peer : PeerQueue) (priority : SendPriority)
    (hclean : (peer.lane priority).items = [] → (peer.lane priority).bytes = 0) :
    (peer.kept.getD {}).lane priority = peer.lane priority := by
  rcases kept_eq peer with ⟨hempty, hkept⟩ | ⟨-, hkept⟩
  · have hlane : peer.lane priority = { items := [], bytes := 0 } := by
      rw [← hempty priority, ← hclean (hempty priority)]
    rw [hkept, hlane]
    cases priority <;> rfl
  · rw [hkept, Option.getD_some]

theorem view_popClass {priority : SendPriority} {peerKey : Key} {rest : List Key} {bytes : List UInt8}
    {items : List (List UInt8)} (hactive : q.active priority = peerKey :: rest)
    (hlane : (q.laneOf peerKey priority).items = bytes :: items)
    (hlast : items = [] → (q.laneOf peerKey priority).bytes = UInt64.ofNat bytes.length)
    (hclean : ∀ other, (q.laneOf peerKey other).items = [] → (q.laneOf peerKey other).bytes = 0) :
    (q.popClass priority).1 = some { peerKey, priority, bytes } ∧
      (q.popClass priority).2.view
        = Function.update q.view priority ((q.view priority).take peerKey rest bytes items) := by
  obtain ⟨peer, entry, hpeer, hentry, heq⟩ := popClass_eq hactive hlane
  have hself : entry.lane priority
      = { items, bytes := (q.laneOf peerKey priority).bytes - UInt64.ofNat bytes.length } := by
    rw [← hentry, lane_setLane_self, laneOf_of_peers hpeer]
  have hother : ∀ other, other ≠ priority → entry.lane other = q.laneOf peerKey other := by
    intro other hne
    rw [← hentry, lane_setLane_of_ne hne, laneOf_of_peers hpeer]
  refine ⟨by rw [heq], ?_⟩
  rw [heq]
  show BoundedSendQueue.view _ = _
  rw [view_setClass, lane_kept, hself]
  · rfl
  · rw [hself]
    intro hitems
    show (q.laneOf peerKey priority).bytes - _ = 0
    rw [hlast hitems, UInt64.sub_self]
  · intro other hne
    rw [lane_kept entry other (by rw [hother other hne]; exact hclean other), hother other hne]

theorem entriesInUse_popClass (h : q.EntriesInUse) {priority : SendPriority} {peerKey : Key} {rest : List Key}
    {bytes : List UInt8} {items : List (List UInt8)} (hactive : q.active priority = peerKey :: rest)
    (hlane : (q.laneOf peerKey priority).items = bytes :: items) : (q.popClass priority).2.EntriesInUse := by
  obtain ⟨peer, entry, -, -, heq⟩ := popClass_eq hactive hlane
  have hpeers : (q.popClass priority).2.peers = Function.update q.peers peerKey entry.kept := by
    rw [heq]
    cases priority <;> rfl
  intro k
  by_cases hk : k = peerKey
  · subst hk
    simp only [laneOf, hpeers, Function.update_self]
    rcases kept_eq entry with ⟨-, hkept⟩ | ⟨hused, hkept⟩
    · simp only [hkept, Option.isSome_none, Bool.false_eq_true, Option.getD_none, false_iff, not_exists, not_not]
      intro other
      cases other <;> rfl
    · simpa only [hkept, Option.isSome_some, Option.getD_some, true_iff] using hused
  · have := h k
    simpa only [laneOf, hpeers, Function.update_of_ne hk] using this

end BoundedSendQueue

end Aegis
