import Aegis.Lib.Heartbeat
import Aegis.Lib.Run
import Aegis.Peer.Liveness
import Mathlib.Logic.Function.Basic

/-!
# Keep-alives between two peers

Two tunnels with an established session and no other traffic. Each maintenance tick sends a keep-alive to
the other side if that side was silent for the keep-alive interval, and then marks it dead if it was silent
for the dead timeout. `handle_keepalive_frame` only records that the sender was heard: it does not answer,
and sending does not advance the sender's own timestamps. The pair is therefore the heartbeat of
`Lib.Heartbeat` with a period of one second, and it stays alive exactly under the condition found there.

Frames are delivered at once and decrypt; a frame to a third peer leaves the pair.
-/

namespace Aegis

def MAINTENANCE_TICK_MS : Time := 1000

/-- The side that ticks first in every second, and the other one. -/
inductive IdlePeer where
  | first
  | second
deriving DecidableEq

def IdlePeer.other : IdlePeer → IdlePeer
  | .first => .second
  | .second => .first

@[simp] theorem IdlePeer.other_other (side : IdlePeer) : side.other.other = side := by cases side <;> rfl

/-- The peer tables of the two sides. -/
abbrev PeerPair := IdlePeer → PeerManager

/-- Who the sides are and where their frames come from. -/
structure PairEnds where
  nodeId : IdlePeer → NodeId
  endpoint : IdlePeer → Endpoint

namespace PeerPair

variable (timers : PeerTimers) (ends : PairEnds)

/-- The other side is among the peers that need a keep-alive, at a known endpoint. -/
def sends (side : IdlePeer) (now : Time) (s : PeerPair) : Bool :=
  ((s side).peersNeedingKeepalive timers now).any fun peer =>
    peer.nodeId = ends.nodeId side.other && peer.endpoint.isSome

/-- `send_keepalive`, delivered to `handle_keepalive_frame` of the other side. -/
def sendKeepalives (side : IdlePeer) (now : Time) (s : PeerPair) : PeerPair :=
  if sends timers ends side now s then
    Function.update s side.other
      ((s side.other).markSeen now (ends.nodeId side) (some (ends.endpoint side)))
  else s

def detectDead (side : IdlePeer) (now : Time) (s : PeerPair) : PeerPair :=
  Function.update s side
    (((s side).stalePeers timers now).foldl (fun mgr peer => mgr.markDead peer.nodeId) (s side))

def tick (side : IdlePeer) (now : Time) (s : PeerPair) : PeerPair :=
  detectDead timers side now (sendKeepalives timers ends side now s)

/-- The time of the first side's tick in second `n`. -/
def tickTime (start : Time) (n : Nat) : Time := start + MAINTENANCE_TICK_MS * n

/-- The tables before the ticks of second `n`. -/
def run (start offset : Time) (s : PeerPair) : Nat → PeerPair
  | 0 => s
  | n + 1 => tick timers ends .second (tickTime start n + offset)
      (tick timers ends .first (tickTime start n) (run start offset s n))

/-- Neither side's `stale_peers` contains the other. -/
def Alive (now : Time) (s : PeerPair) : Prop :=
  ∀ side, ∀ peer ∈ (s side).stalePeers timers now, peer.nodeId ≠ ends.nodeId side.other

/-- The sides are established with each other and last heard of each other at the given times. -/
structure Established (s : PeerPair) (heard : IdlePeer → Time) : Prop where
  keyed : ∀ side, (s side).Keyed
  record : ∀ side, ∃ peer, (s side).peers.find? (ends.nodeId side.other) = some peer ∧
    peer.state = .established ∧ peer.endpoint.isSome = true ∧ peer.lastSeen = heard side ∧
    peer.lastKeepalive = heard side
  started : ∀ side, 0 < heard side

variable {timers ends} {s : PeerPair} {heard : IdlePeer → Time} {now : Time} {side : IdlePeer}

section

variable (h : Established ends s heard)
include h

theorem Established.sends_iff : sends timers ends side now s = true ↔ timers.keepaliveInterval ≤ now - heard side := by
  obtain ⟨peer, hpeer, hstate, hendpoint, -, hkeepalive⟩ := h.record side
  simp only [sends, List.any_eq_true, Bool.and_eq_true, decide_eq_true_eq]
  constructor
  · rintro ⟨peer', hpeer', hid, -⟩
    obtain ⟨⟨id, hfind⟩, hneeds⟩ := PeerManager.mem_peersNeedingKeepalive.mp hpeer'
    rw [← h.keyed side id peer' hfind, hid, hpeer] at hfind
    obtain rfl := Option.some.inj hfind
    simpa [Peer.needsKeepalive, hstate, hkeepalive] using hneeds
  · intro hage
    refine ⟨peer, PeerManager.mem_peersNeedingKeepalive.mpr ⟨⟨_, hpeer⟩, ?_⟩, h.keyed side _ peer hpeer, hendpoint⟩
    simpa [Peer.needsKeepalive, hstate, hkeepalive] using hage

theorem Established.stale_iff :
    (∃ peer ∈ (s side).stalePeers timers now, peer.nodeId = ends.nodeId side.other) ↔
      timers.deadTimeout ≤ now - heard side := by
  obtain ⟨peer, hpeer, hstate, -, hseen, -⟩ := h.record side
  have hstarted := h.started side
  have hage : peer.stale timers now = true ↔ timers.deadTimeout ≤ now - heard side := by
    rw [Peer.stale_iff, hseen, if_pos (ne_of_gt hstarted), hstate]
    simp
  constructor
  · rintro ⟨peer', hpeer', hid⟩
    obtain ⟨⟨id, hfind⟩, hstale⟩ := PeerManager.mem_stalePeers.mp hpeer'
    rw [← h.keyed side id peer' hfind, hid, hpeer] at hfind
    obtain rfl := Option.some.inj hfind
    exact hage.mp hstale
  · intro hold
    exact ⟨peer, PeerManager.mem_stalePeers.mpr ⟨⟨_, hpeer⟩, hage.mpr hold⟩, h.keyed side _ peer hpeer⟩

theorem Established.alive_iff : Alive timers ends now s ↔ ∀ side, now - heard side < timers.deadTimeout := by
  refine forall_congr' fun side => ?_
  rw [← not_le]
  refine Iff.trans ?_ (not_congr h.stale_iff)
  push Not
  rfl

theorem Established.sendKeepalives (hnow : 0 < now) :
    Established ends (sendKeepalives timers ends side now s)
      (if timers.keepaliveInterval ≤ now - heard side then Function.update heard side.other now else heard) := by
  by_cases hsends : timers.keepaliveInterval ≤ now - heard side
  swap
  · rw [PeerPair.sendKeepalives, if_neg (mt h.sends_iff.mp hsends), if_neg hsends]
    exact h
  rw [PeerPair.sendKeepalives, if_pos (h.sends_iff.mpr hsends), if_pos hsends]
  refine ⟨fun party => ?_, fun party => ?_, fun party => ?_⟩ <;> by_cases hparty : party = side.other
  · subst hparty
    rw [Function.update_self, PeerManager.markSeen_eq_modify]
    exact PeerManager.forall_find?_modify (fun _ hid => hid) (h.keyed _)
  · rw [Function.update_of_ne hparty]
    exact h.keyed party
  · subst hparty
    obtain ⟨peer, hpeer, -⟩ := h.record side.other
    rw [Function.update_self, Function.update_self, PeerManager.markSeen_eq_modify, PeerManager.find?_modify,
      IdlePeer.other_other, if_pos rfl]
    rw [IdlePeer.other_other] at hpeer
    rw [hpeer]
    exact ⟨_, rfl, rfl, by simp, rfl, rfl⟩
  · rw [Function.update_of_ne hparty, Function.update_of_ne hparty]
    exact h.record party
  · subst hparty
    rw [Function.update_self]
    exact hnow
  · rw [Function.update_of_ne hparty]
    exact h.started party

theorem Established.detectDead (hfresh : now - heard side < timers.deadTimeout) :
    Established ends (detectDead timers side now s) heard := by
  have hother : ∀ peer ∈ (s side).stalePeers timers now, peer.nodeId ≠ ends.nodeId side.other :=
    fun peer hpeer hid => absurd (h.stale_iff.mp ⟨peer, hpeer, hid⟩) (not_le.mpr hfresh)
  have hkept : ((((s side).stalePeers timers now).foldl (fun mgr peer => mgr.markDead peer.nodeId) (s side)).Keyed) ∧
      (((s side).stalePeers timers now).foldl (fun mgr peer => mgr.markDead peer.nodeId) (s side)).peers.find?
        (ends.nodeId side.other) = (s side).peers.find? (ends.nodeId side.other) := by
    refine Run.invariant_of_mem (fun mgr : PeerManager => mgr.Keyed ∧ mgr.peers.find? (ends.nodeId side.other) =
      (s side).peers.find? (ends.nodeId side.other)) ?_ ⟨h.keyed side, rfl⟩
    rintro mgr peer hpeer ⟨hkeyed, hfind⟩
    refine ⟨PeerManager.forall_find?_modify (fun _ hid => hid) hkeyed, ?_⟩
    rw [PeerManager.markDead, PeerManager.find?_modify, if_neg (hother peer hpeer).symm, hfind]
  refine ⟨fun party => ?_, fun party => ?_, h.started⟩ <;> unfold PeerPair.detectDead <;>
    by_cases hparty : party = side
  · subst hparty
    rw [Function.update_self]
    exact hkept.1
  · rw [Function.update_of_ne hparty]
    exact h.keyed party
  · subst hparty
    rw [Function.update_self, hkept.2]
    exact h.record party
  · rw [Function.update_of_ne hparty]
    exact h.record party

end

/-! ### The pair as a heartbeat -/

/-- The heartbeat a pair runs. -/
def heartbeat (timers : PeerTimers) (offset : Time) : Heartbeat where
  period := MAINTENANCE_TICK_MS
  offset := offset
  interval := timers.keepaliveInterval
  timeout := timers.deadTimeout

/-- When each party last heard of the other, by party. -/
def heardBy (state : Heartbeat.Heard) : IdlePeer → Time
  | .first => state.first
  | .second => state.second

variable {state : Heartbeat.Heard} {start offset : Time}

theorem alive_iff_fresh (h : Established ends s (heardBy state)) :
    Alive timers ends now s ↔ (heartbeat timers offset).Fresh now state := by
  rw [h.alive_iff]
  exact ⟨fun hall => ⟨hall .first, hall .second⟩, fun hfresh side => by cases side; exacts [hfresh.1, hfresh.2]⟩

/-- The heartbeat's tick of a side. -/
def heartbeatTick (timers : PeerTimers) (offset now : Time) (state : Heartbeat.Heard) : IdlePeer → Heartbeat.Heard
  | .first => (heartbeat timers offset).firstTick now state
  | .second => (heartbeat timers offset).secondTick now state

theorem heardBy_heartbeatTick (side : IdlePeer) : heardBy (heartbeatTick timers offset now state side) =
    if timers.keepaliveInterval ≤ now - heardBy state side then Function.update (heardBy state) side.other now
    else heardBy state := by
  by_cases hsends : timers.keepaliveInterval ≤ now - heardBy state side
  · rw [if_pos hsends]
    funext party
    cases side
    · exact (congrArg (heardBy · party) (if_pos hsends)).trans (by cases party <;> rfl)
    · exact (congrArg (heardBy · party) (if_pos hsends)).trans (by cases party <;> rfl)
  · rw [if_neg hsends]
    cases side
    · exact congrArg heardBy (if_neg hsends)
    · exact congrArg heardBy (if_neg hsends)

theorem Established.tick (h : Established ends s (heardBy state)) (hnow : 0 < now)
    (hfresh : (heartbeat timers offset).Fresh now state) (side : IdlePeer) :
    Established ends (tick timers ends side now s) (heardBy (heartbeatTick timers offset now state side)) := by
  have hkept : heardBy (heartbeatTick timers offset now state side) side = heardBy state side := by
    cases side
    · exact Heartbeat.first_firstTick now state
    · exact Heartbeat.second_secondTick now state
  have hheard : now - heardBy state side < timers.deadTimeout := by
    cases side
    · exact hfresh.1
    · exact hfresh.2
  refine Established.detectDead ?_ (hkept ▸ hheard)
  rw [heardBy_heartbeatTick]
  exact h.sendKeepalives hnow

theorem tickTime_pos (hstart : 0 < start) (n : Nat) : 0 < tickTime start n :=
  Int.add_pos_of_pos_of_nonneg hstart (Int.mul_nonneg (by decide) (Int.natCast_nonneg n))

theorem established_run (h : Established ends s (heardBy state)) (hstart : 0 < start) (hoffset : 0 ≤ offset)
    (n : Nat) (hhealthy : ∀ k < n, (heartbeat timers offset).Healthy start state k) :
    Established ends (run timers ends start offset s n)
      (heardBy ((heartbeat timers offset).state start state n)) := by
  induction n with
  | zero => exact h
  | succ n ih =>
    obtain ⟨hfirst, hsecond⟩ := hhealthy n (Nat.lt_succ_self n)
    have htime := tickTime_pos hstart n
    have hbefore := ih fun k hk => hhealthy k (Nat.lt_succ_of_lt hk)
    have hmiddle := hbefore.tick htime hfirst .first
    exact hmiddle.tick (Int.add_pos_of_pos_of_nonneg htime hoffset) hsecond .second

theorem alive_run_iff (h : Established ends s (heardBy state)) (hstart : 0 < start) (hoffset : 0 ≤ offset) :
    (∀ n, Alive timers ends (tickTime start n) (run timers ends start offset s n) ∧
      Alive timers ends (tickTime start n + offset)
        (tick timers ends .first (tickTime start n) (run timers ends start offset s n))) ↔
    ∀ n, (heartbeat timers offset).Healthy start state n := by
  -- up to the first second in which one of them fails, the two systems agree
  have hsame (n : Nat) (hbefore : ∀ k < n, (heartbeat timers offset).Healthy start state k) :
      (Alive timers ends (tickTime start n) (run timers ends start offset s n) ∧
        Alive timers ends (tickTime start n + offset)
          (tick timers ends .first (tickTime start n) (run timers ends start offset s n))) ↔
      (heartbeat timers offset).Healthy start state n := by
    have hn := established_run h hstart hoffset n hbefore
    have htime := tickTime_pos hstart n
    refine Iff.trans (and_congr_left' (alive_iff_fresh hn)) (and_congr_right fun hfresh => ?_)
    exact alive_iff_fresh (hn.tick htime hfresh .first)
  constructor
  · intro halive n
    induction n using Nat.strong_induction_on with
    | _ n ih => exact (hsame n ih).mp (halive n)
  · intro hhealthy n
    exact (hsame n fun k _ => hhealthy k).mpr (hhealthy n)

/-- When keep-alives keep a session alive. Two sides established within the second before the first tick,
ticking once per second with any phase offset, and a dead timeout of more than two seconds over the keep-alive
interval: neither ever finds the other stale exactly if the interval is at most the time from each side's tick
to the other side's next one. -/
theorem keepalives_keep_alive_iff (timers : PeerTimers) (ends : PairEnds) (s : PeerPair) (heard : IdlePeer → Time)
    (start offset : Time) (hs : Established ends s heard)
    (hheard : ∀ side, heard side ≤ start ∧ start ≤ heard side + 1000)
    (hoffset : 0 ≤ offset) (hoffset' : offset < 1000) (hinterval : 0 ≤ timers.keepaliveInterval)
    (htimeout : timers.keepaliveInterval + 2000 < timers.deadTimeout) :
    (∀ n, Alive timers ends (tickTime start n) (run timers ends start offset s n) ∧
      Alive timers ends (tickTime start n + offset)
        (tick timers ends .first (tickTime start n) (run timers ends start offset s n))) ↔
    timers.keepaliveInterval ≤ offset ∧ timers.keepaliveInterval ≤ 1000 - offset := by
  have hstate : heard = heardBy ⟨heard .first, heard .second⟩ := by
    funext side
    cases side <;> rfl
  rw [hstate] at hs
  have hstart : 0 < start := (hs.started .first).trans_le (hheard .first).1
  rw [alive_run_iff hs hstart hoffset]
  have hback (side : IdlePeer) : start - 1000 ≤ heard side := Int.sub_right_le_of_le_add (hheard side).2
  exact Heartbeat.healthy_iff (show (0 : Int) < 1000 by decide) hoffset hoffset' hinterval htimeout (hback .first)
    (hheard .second).1 (hback .second)

/-! ### Sample pairs -/

/-- Two peers that finished their handshake at time 1. -/
def sampleEnds : PairEnds where
  nodeId
    | .first => FixedBytes.copy 32 [1]
    | .second => FixedBytes.copy 32 [2]
  endpoint
    | .first => { port := 1 }
    | .second => { port := 2 }

def samplePair : PeerPair := fun side =>
  ((({} : PeerManager).upsert 1 (sampleEnds.nodeId side.other) (sampleEnds.nodeId side.other)
    (some (sampleEnds.endpoint side.other)) true).1).markSeen 1 (sampleEnds.nodeId side.other) none

/-- Ticks half a second apart, a keep-alive interval of one second and a dead timeout of four: after four
seconds of sending a keep-alive every second the first side finds the second one stale. -/
theorem keepalives_starve_sender :
    let timers : PeerTimers := { keepaliveInterval := 1000, deadTimeout := 4000 }
    timers.keepaliveInterval + 2000 < timers.deadTimeout ∧
    (∀ n < 4, sends timers sampleEnds .first (tickTime 1 (n + 1)) (run timers sampleEnds 1 500 samplePair (n + 1))) ∧
    ∃ peer ∈ (run timers sampleEnds 1 500 samplePair 4 .first).stalePeers timers (tickTime 1 4),
      peer.nodeId = sampleEnds.nodeId .second := by
  decide +kernel

theorem samplePair_established : Established sampleEnds samplePair fun _ => 1 where
  keyed side := by cases side <;> decide +kernel
  record side := by
    cases side <;>
      exact ⟨_, rfl, by decide +kernel, by decide +kernel, by decide +kernel, by decide +kernel⟩
  started _ := by decide

theorem keepalives_keep_alive_sample :
    (∀ n, Alive { keepaliveInterval := 300, deadTimeout := 5000 } sampleEnds (tickTime 1 n)
        (run { keepaliveInterval := 300, deadTimeout := 5000 } sampleEnds 1 500 samplePair n) ∧
      Alive { keepaliveInterval := 300, deadTimeout := 5000 } sampleEnds (tickTime 1 n + 500)
        (tick { keepaliveInterval := 300, deadTimeout := 5000 } sampleEnds .first (tickTime 1 n)
          (run { keepaliveInterval := 300, deadTimeout := 5000 } sampleEnds 1 500 samplePair n))) ↔
    (300 : Int) ≤ 500 ∧ (300 : Int) ≤ 1000 - 500 :=
  keepalives_keep_alive_iff { keepaliveInterval := 300, deadTimeout := 5000 } sampleEnds samplePair (fun _ => 1) 1
    500 samplePair_established (fun _ => by decide) (by decide) (by decide) (by decide) (by decide)

end PeerPair

end Aegis
