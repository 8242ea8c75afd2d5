import Aegis.Lib.Run
import Aegis.Transport.SendQueue

/-!
# The send queue refines a pair of fair queues

`SendModel` says what the send queue is for: a fair queue for control, one for data, and natural numbers for
what waits in them. `Represents` ties the lanes, active lists, entries and machine-word counters of the code
to such a pair and says that every limit holds, which is what keeps the room a limit leaves from wrapping.
Both operations keep it, so a run of the queue gives the answers and datagrams of the model's run.
-/

namespace Aegis

variable {Key : Type}

/-- What waits in the queue, by class. -/
abbrev SendModel (Key : Type) := SendPriority → FairQueue Key (List UInt8)

namespace SendModel

/-- The answer to an enqueue, from what waits. -/
def verdict (limits : SendQueueLimits) (m : SendModel Key) (peerKey : Key) (buffer : SendBuffer)
    (priority : SendPriority) : SendQueueResult :=
  if !buffer.valid || !limits.valid then .invalid
  else if (limits.ofClass priority).maxItemsPerPeer.toNat ≤ ((m priority).lane peerKey).length then
    .perPeerItemLimit
  else if (limits.ofClass priority).maxBytesPerPeer.toNat
      < (((m priority).lane peerKey).map List.length).sum + buffer.bytes.length then .perPeerByteLimit
  else if (limits.ofClass priority).maxItemsGlobal.toNat ≤ (m priority).total fun _ => 1 then .globalItemLimit
  else if (limits.ofClass priority).maxBytesGlobal.toNat
      < (m priority).total List.length + buffer.bytes.length then .globalByteLimit
  else .queued

theorem verdict_eq_queued_iff {limits : SendQueueLimits} {m : SendModel Key} {peerKey : Key}
    {buffer : SendBuffer} {priority : SendPriority} :
    verdict limits m peerKey buffer priority = .queued ↔
      buffer.valid ∧ limits.valid ∧
      ((m priority).lane peerKey).length < (limits.ofClass priority).maxItemsPerPeer.toNat ∧
      (((m priority).lane peerKey).map List.length).sum + buffer.bytes.length
        ≤ (limits.ofClass priority).maxBytesPerPeer.toNat ∧
      ((m priority).total fun _ => 1) < (limits.ofClass priority).maxItemsGlobal.toNat ∧
      (m priority).total List.length + buffer.bytes.length
        ≤ (limits.ofClass priority).maxBytesGlobal.toNat := by
  unfold verdict
  split_ifs with hinvalid hitems hbytes hglobalItems hglobalBytes
  · simp only [Bool.or_eq_true, Bool.not_eq_true'] at hinvalid
    rcases hinvalid with h | h <;> simp [h]
  all_goals simp only [Bool.or_eq_true, Bool.not_eq_true', not_or, Bool.not_eq_false] at hinvalid
  all_goals simp only [hinvalid, true_and, false_iff, true_iff]
  all_goals omega

variable [DecidableEq Key]

def enqueue (limits : SendQueueLimits) (m : SendModel Key) (peerKey : Key) (buffer : SendBuffer)
    (priority : SendPriority) : SendQueueResult × SendModel Key :=
  let result := verdict limits m peerKey buffer priority
  (result, if result = .queued then Function.update m priority ((m priority).push peerKey buffer.bytes) else m)

/-- The next datagram of a class. -/
def serve (m : SendModel Key) (priority : SendPriority) : Option (QueuedDatagram Key × SendModel Key) :=
  (m priority).pop.map fun served =>
    ({ peerKey := served.1.1, priority, bytes := served.1.2 }, Function.update m priority served.2)

def pop (m : SendModel Key) : Option (QueuedDatagram Key) × SendModel Key :=
  match (m.serve .control).or (m.serve .data) with
  | some (datagram, rest) => (some datagram, rest)
  | none => (none, m)

end SendModel

/-! ### One class -/

namespace ClassView

/-- The code's class holds what the fair queue holds, within the limits of the class. -/
structure Represents (limits : SendQueueClassLimits) (v : ClassView Key) (f : FairQueue Key (List UInt8)) :
    Prop where
  lane : ∀ peerKey, (v.lane peerKey).items = f.lane peerKey
  laneBytes : ∀ peerKey, (v.lane peerKey).bytes.toNat = ((f.lane peerKey).map List.length).sum
  active : v.active = f.turn
  items : v.items.toNat = f.total fun _ => 1
  bytes : v.bytes.toNat = f.total List.length
  peerItems : ∀ peerKey, (v.lane peerKey).items.length ≤ limits.maxItemsPerPeer.toNat
  peerBytes : ∀ peerKey, (v.lane peerKey).bytes ≤ limits.maxBytesPerPeer
  globalItems : v.items ≤ limits.maxItemsGlobal
  globalBytes : v.bytes ≤ limits.maxBytesGlobal

variable {limits : SendQueueClassLimits} {v : ClassView Key} {f : FairQueue Key (List UInt8)}

theorem Represents.bytes_eq_zero (h : v.Represents limits f) {peerKey : Key}
    (hitems : (v.lane peerKey).items = []) : (v.lane peerKey).bytes = 0 := by
  have hbytes := h.laneBytes peerKey
  rw [← h.lane, hitems] at hbytes
  exact UInt64.toNat_inj.mp hbytes

variable [DecidableEq Key]

theorem toNat_add_of_le {counter increase : UInt64} (limit : UInt64)
    (h : counter.toNat + increase.toNat ≤ limit.toNat) :
    (counter + increase).toNat = counter.toNat + increase.toNat := by
  have := limit.toNat_lt
  rw [UInt64.toNat_add, Nat.mod_eq_of_lt (by omega)]

theorem Represents.push (h : v.Represents limits f) {peerKey : Key} {buffer : SendBuffer}
    (hlen : buffer.bytes.length = buffer.len.toNat)
    (hpeerItems : (f.lane peerKey).length < limits.maxItemsPerPeer.toNat)
    (hpeerBytes : ((f.lane peerKey).map List.length).sum + buffer.bytes.length ≤ limits.maxBytesPerPeer.toNat)
    (hitems : (f.total fun _ => 1) < limits.maxItemsGlobal.toNat)
    (hbytes : f.total List.length + buffer.bytes.length ≤ limits.maxBytesGlobal.toNat) :
    (v.push peerKey buffer).Represents limits (f.push peerKey buffer.bytes) := by
  have hlaneBytes : ((v.lane peerKey).bytes + buffer.len).toNat
      = ((f.lane peerKey).map List.length).sum + buffer.bytes.length := by
    rw [toNat_add_of_le limits.maxBytesPerPeer, h.laneBytes, hlen]
    rw [h.laneBytes]
    omega
  have hone : (v.items + 1).toNat = f.total (fun _ => 1) + 1 := by
    rw [toNat_add_of_le limits.maxItemsGlobal, h.items]
    · rfl
    · rw [h.items]
      exact hitems
  have hsum : (v.bytes + buffer.len).toNat = f.total List.length + buffer.bytes.length := by
    rw [toNat_add_of_le limits.maxBytesGlobal, h.bytes, hlen]
    rw [h.bytes]
    omega
  have hlane : ∀ k, ((v.push peerKey buffer).lane k).items = (f.push peerKey buffer.bytes).lane k ∧
      ((v.push peerKey buffer).lane k).bytes.toNat
        = (((f.push peerKey buffer.bytes).lane k).map List.length).sum ∧
      ((v.push peerKey buffer).lane k).items.length ≤ limits.maxItemsPerPeer.toNat ∧
      ((v.push peerKey buffer).lane k).bytes ≤ limits.maxBytesPerPeer := by
    intro k
    by_cases hk : k = peerKey
    · subst hk
      simp only [ClassView.push, FairQueue.push, Function.update_self, h.lane, List.length_append,
        List.length_singleton, List.map_append, List.map_cons, List.map_nil, List.sum_append, List.sum_cons,
        List.sum_nil, UInt64.le_iff_toNat_le, hlaneBytes]
      exact ⟨trivial, by omega, hpeerItems, hpeerBytes⟩
    · simp only [ClassView.push, FairQueue.push, Function.update_of_ne hk]
      exact ⟨h.lane k, h.laneBytes k, h.peerItems k, h.peerBytes k⟩
  exact
    { lane := fun k => (hlane k).1
      laneBytes := fun k => (hlane k).2.1
      active := by simp only [ClassView.push, FairQueue.push, h.lane, h.active]
      items := by rw [FairQueue.total_push]; exact hone
      bytes := by rw [FairQueue.total_push]; exact hsum
      peerItems := fun k => (hlane k).2.2.1
      peerBytes := fun k => (hlane k).2.2.2
      globalItems := UInt64.le_iff_toNat_le.mpr (hone ▸ hitems)
      globalBytes := UInt64.le_iff_toNat_le.mpr (hsum ▸ hbytes) }

theorem Represents.take (h : v.Represents limits f) {peerKey : Key} {rest : List Key} {bytes : List UInt8}
    {items : List (List UInt8)} {f' : FairQueue Key (List UInt8)} (hlane : f.lane peerKey = bytes :: items)
    (hpop : f.pop = some ((peerKey, bytes), f')) (hlane' : f'.lane = Function.update f.lane peerKey items)
    (hturn' : f'.turn = if items.isEmpty then rest else rest ++ [peerKey]) :
    (v.take peerKey rest bytes items).Represents limits f' := by
  have hone := FairQueue.total_pop (fun _ => 1) hpop
  have hsum := FairQueue.total_pop List.length hpop
  have hlaneBytes : (v.lane peerKey).bytes.toNat = bytes.length + (items.map List.length).sum := by
    rw [h.laneBytes, hlane, List.map_cons, List.sum_cons]
  have hword := (v.lane peerKey).bytes.toNat_lt
  have hlen : (UInt64.ofNat bytes.length).toNat = bytes.length := UInt64.toNat_ofNat_of_lt' (by
    show bytes.length < 2 ^ 64
    omega)
  have hlaneLeft : ((v.lane peerKey).bytes - UInt64.ofNat bytes.length).toNat = (items.map List.length).sum := by
    rw [UInt64.toNat_sub_of_le _ _ (UInt64.le_iff_toNat_le.mpr (by omega))]
    omega
  have hitems : (v.items - 1).toNat = f'.total fun _ => 1 := by
    have := h.items
    rw [UInt64.toNat_sub_of_le _ _ (UInt64.le_iff_toNat_le.mpr (by rw [UInt64.toNat_one]; omega)),
      UInt64.toNat_one]
    omega
  have hbytes : (v.bytes - UInt64.ofNat bytes.length).toNat = f'.total List.length := by
    have := h.bytes
    rw [UInt64.toNat_sub_of_le _ _ (UInt64.le_iff_toNat_le.mpr (by omega))]
    omega
  have hlanes : ∀ k, ((v.take peerKey rest bytes items).lane k).items = f'.lane k ∧
      ((v.take peerKey rest bytes items).lane k).bytes.toNat = ((f'.lane k).map List.length).sum ∧
      ((v.take peerKey rest bytes items).lane k).items.length ≤ (v.lane k).items.length ∧
      ((v.take peerKey rest bytes items).lane k).bytes.toNat ≤ (v.lane k).bytes.toNat := by
    intro k
    rw [hlane']
    by_cases hk : k = peerKey
    · subst hk
      simp only [ClassView.take, Function.update_self, h.lane, hlane, hlaneLeft, List.length_cons]
      exact ⟨trivial, trivial, by omega, by omega⟩
    · simp only [ClassView.take, Function.update_of_ne hk]
      exact ⟨h.lane k, h.laneBytes k, Nat.le_refl _, Nat.le_refl _⟩
  exact
    { lane := fun k => (hlanes k).1
      laneBytes := fun k => (hlanes k).2.1
      active := hturn'.symm
      items := hitems
      bytes := hbytes
      peerItems := fun k => Nat.le_trans (hlanes k).2.2.1 (h.peerItems k)
      peerBytes := fun k => UInt64.le_iff_toNat_le.mpr
        (Nat.le_trans (hlanes k).2.2.2 (UInt64.le_iff_toNat_le.mp (h.peerBytes k)))
      globalItems := by
        have := UInt64.le_iff_toNat_le.mp h.globalItems
        rw [h.items] at this
        exact UInt64.le_iff_toNat_le.mpr (hitems ▸ by omega)
      globalBytes := by
        have := UInt64.le_iff_toNat_le.mp h.globalBytes
        rw [h.bytes] at this
        exact UInt64.le_iff_toNat_le.mpr (hbytes ▸ by omega) }

end ClassView

/-! ### The whole queue -/

namespace BoundedSendQueue

structure Represents (q : BoundedSendQueue Key) (m : SendModel Key) : Prop where
  classes : ∀ priority, (q.view priority).Represents (q.limits.ofClass priority) (m priority)
  entries : q.EntriesInUse

variable {q : BoundedSendQueue Key} {m : SendModel Key}

theorem represents_empty (limits : SendQueueLimits) :
    ({ limits } : BoundedSendQueue Key).Represents fun _ => {} where
  classes := by
    intro priority
    cases priority <;> exact
      { lane := fun _ => rfl
        laneBytes := fun _ => rfl
        active := rfl
        items := rfl
        bytes := rfl
        peerItems := fun _ => Nat.zero_le _
        peerBytes := fun _ => UInt64.le_iff_toNat_le.mpr (Nat.zero_le _)
        globalItems := UInt64.le_iff_toNat_le.mpr (Nat.zero_le _)
        globalBytes := UInt64.le_iff_toNat_le.mpr (Nat.zero_le _) }
  entries := by
    intro peerKey
    constructor
    · intro h
      exact absurd h (by simp)
    · rintro ⟨priority, hne⟩
      cases priority <;> exact absurd rfl hne

theorem sub_lt_iff {counter limit len : UInt64} (h : counter ≤ limit) :
    limit - counter < len ↔ limit.toNat < counter.toNat + len.toNat := by
  have hle := UInt64.le_iff_toNat_le.mp h
  rw [UInt64.lt_iff_toNat_lt, UInt64.toNat_sub_of_le _ _ h]
  omega

theorem Represents.verdict_eq (h : q.Represents m) (peerKey : Key) (buffer : SendBuffer) (priority : SendPriority) :
    q.verdict peerKey buffer priority = SendModel.verdict q.limits m peerKey buffer priority := by
  have hclass := h.classes priority
  rw [verdict_eq_view, SendModel.verdict]
  by_cases hinvalid : (!buffer.valid || !q.limits.valid) = true
  · rw [if_pos hinvalid, if_pos hinvalid]
  · have hvalid : buffer.valid := by
      by_contra hnot
      simp [hnot] at hinvalid
    have hlen := SendBuffer.length_bytes hvalid
    have hitems : (UInt64.ofNat ((q.view priority).lane peerKey).items.length).toNat
        = ((m priority).lane peerKey).length := by
      have hle := hclass.peerItems peerKey
      have hword := (q.limits.ofClass priority).maxItemsPerPeer.toNat_lt
      rw [← hclass.lane]
      exact UInt64.toNat_ofNat_of_lt' (Nat.lt_of_le_of_lt hle hword)
    rw [if_neg hinvalid, if_neg hinvalid]
    simp only [sub_lt_iff (hclass.peerBytes peerKey), sub_lt_iff hclass.globalBytes, UInt64.le_iff_toNat_le,
      hitems, hclass.items, hclass.laneBytes, hclass.bytes, hlen]

variable [DecidableEq Key]

@[simp] theorem limits_append (q : BoundedSendQueue Key) (peerKey : Key) (buffer : SendBuffer)
    (priority : SendPriority) : (q.append peerKey buffer priority).limits = q.limits := by
  cases priority <;> rfl

@[simp] theorem limits_popClass (q : BoundedSendQueue Key) (priority : SendPriority) :
    (q.popClass priority).2.limits = q.limits := by
  unfold popClass
  split
  · rfl
  · dsimp only
    split
    · cases priority <;> rfl
    · split <;> cases priority <;> rfl

theorem Represents.enqueue (h : q.Represents m) (peerKey : Key) (buffer : SendBuffer) (priority : SendPriority) :
    (q.enqueue peerKey buffer priority).1 = (m.enqueue q.limits peerKey buffer priority).1 ∧
      (q.enqueue peerKey buffer priority).2.limits = q.limits ∧
      (q.enqueue peerKey buffer priority).2.Represents (m.enqueue q.limits peerKey buffer priority).2 := by
  refine ⟨h.verdict_eq peerKey buffer priority, ?_⟩
  simp only [BoundedSendQueue.enqueue, SendModel.enqueue, h.verdict_eq]
  split_ifs with hqueued
  · obtain ⟨hvalid, -, hpeerItems, hpeerBytes, hitems, hbytes⟩ := SendModel.verdict_eq_queued_iff.mp hqueued
    refine ⟨limits_append q peerKey buffer priority, ?_, entriesInUse_append h.entries peerKey buffer priority⟩
    intro other
    rw [view_append, limits_append]
    by_cases hother : other = priority
    · subst hother
      rw [Function.update_self, Function.update_self]
      exact (h.classes other).push (SendBuffer.length_bytes hvalid) hpeerItems hpeerBytes hitems hbytes
    · rw [Function.update_of_ne hother, Function.update_of_ne hother]
      exact h.classes other
  · exact ⟨rfl, h⟩

theorem Represents.active_eq_nil_iff (h : q.Represents m) (priority : SendPriority) :
    q.active priority = [] ↔ m.serve priority = none := by
  have hactive : q.active priority = (m priority).turn := (h.classes priority).active
  rw [hactive, SendModel.serve, Option.map_eq_none_iff, FairQueue.pop_eq_none_iff]

theorem Represents.popClass (h : q.Represents m) {priority : SendPriority} {datagram : QueuedDatagram Key}
    {m' : SendModel Key} (hserve : m.serve priority = some (datagram, m')) :
    (q.popClass priority).1 = some datagram ∧ (q.popClass priority).2.Represents m' := by
  have hclass := h.classes priority
  rcases (m priority).pop_cases with ⟨-, hpop⟩ | ⟨peerKey, rest, bytes, items, f', hturn, hlane, hpop, hlane', hturn'⟩
  · simp [SendModel.serve, hpop] at hserve
  · rw [SendModel.serve, hpop, Option.map_some, Option.some_inj, Prod.mk.injEq] at hserve
    obtain ⟨rfl, rfl⟩ := hserve
    have hactive : q.active priority = peerKey :: rest := hclass.active.trans hturn
    have hitems : (q.laneOf peerKey priority).items = bytes :: items := (hclass.lane peerKey).trans hlane
    have hlast : items = [] → (q.laneOf peerKey priority).bytes = UInt64.ofNat bytes.length := by
      rintro rfl
      have hbytes : (q.laneOf peerKey priority).bytes.toNat = bytes.length := by
        have := hclass.laneBytes peerKey
        rwa [hlane] at this
      rw [← hbytes, UInt64.ofNat_toNat]
    obtain ⟨hdatagram, hview⟩ := view_popClass hactive hitems hlast
      fun other => (h.classes other).bytes_eq_zero
    refine ⟨hdatagram, ?_, entriesInUse_popClass h.entries hactive hitems⟩
    intro other
    rw [hview, limits_popClass]
    by_cases hother : other = priority
    · subst hother
      rw [Function.update_self, Function.update_self]
      exact hclass.take hlane hpop hlane' hturn'
    · rw [Function.update_of_ne hother, Function.update_of_ne hother]
      exact h.classes other

theorem Represents.pop (h : q.Represents m) :
    q.pop.1 = m.pop.1 ∧ q.pop.2.limits = q.limits ∧ q.pop.2.Represents m.pop.2 := by
  have hcontrol : q.activeControlPeers.isEmpty = (m.serve .control).isNone := by
    rw [Bool.eq_iff_iff, List.isEmpty_iff, Option.isNone_iff_eq_none]
    exact h.active_eq_nil_iff .control
  have hdata : q.activeDataPeers.isEmpty = (m.serve .data).isNone := by
    rw [Bool.eq_iff_iff, List.isEmpty_iff, Option.isNone_iff_eq_none]
    exact h.active_eq_nil_iff .data
  unfold BoundedSendQueue.pop SendModel.pop
  rw [hcontrol, hdata]
  cases hservedControl : m.serve .control with
  | some served =>
    have := h.popClass hservedControl
    exact ⟨this.1, limits_popClass q .control, this.2⟩
  | none =>
    cases hservedData : m.serve .data with
    | some served =>
      have := h.popClass hservedData
      exact ⟨this.1, limits_popClass q .data, this.2⟩
    | none => exact ⟨rfl, rfl, h⟩

end BoundedSendQueue

end Aegis
