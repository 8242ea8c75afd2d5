import Aegis.Lib.SortedMap
import Aegis.Routing.Engine

/-!
# Path probes

`routing/path_probe.cpp`: the table of challenges that wait for a response. A challenge is begun for one
candidate of the routing table; a response counts only under the same id, from the destination of the candidate,
with its sequence number and within the timeout, and takes the challenge out of the table. The target of a probe
is the `ProbeTarget` the routing engine's own operations take.
-/

namespace Aegis

open RoutingEngine (ProbeTarget)

def PATH_PROBE_MAX_PENDING : Nat := 256

/-- Thirty seconds, in milliseconds. -/
def PATH_PROBE_INTERVAL : Time := 30000

/-- Five seconds, in milliseconds. -/
def PATH_PROBE_TIMEOUT : Time := 5000

inductive PathProbeKind where
  | challenge
  | response
deriving DecidableEq

structure PathProbeMessage where
  kind : PathProbeKind := .challenge
  probeId : UInt64 := 0
  routeSequence : UInt64 := 0
deriving DecidableEq

structure PathProbeObservation where
  target : ProbeTarget
  rtt : Time

/-- A challenge that waits for its response. -/
structure PendingProbe where
  target : ProbeTarget
  sentAt : Time

deriving instance DecidableEq for RoutingEngine.ProbeTarget
deriving instance DecidableEq for PendingProbe

structure PathProbeTracker where
  maximum : Nat := PATH_PROBE_MAX_PENDING
  timeout : Time := PATH_PROBE_TIMEOUT
  pending : SortedMap UInt64 PendingProbe := ∅
deriving DecidableEq

namespace PathProbeTracker

def containsTarget (t : PathProbeTracker) (target : ProbeTarget) : Bool :=
  t.pending.entries.any fun entry => entry.2.target = target

/-- The table with the challenge, if it can be begun. -/
def begin? (t : PathProbeTracker) (probeId : UInt64) (target : ProbeTarget) (now : Time) :
    Option PathProbeTracker :=
  if probeId = 0 ∨ target.sequence = 0 ∨ t.maximum = 0 ∨ t.timeout ≤ 0 then none
  else if t.maximum ≤ t.pending.size ∨ t.pending.contains probeId then none
  else if t.containsTarget target then none
  else some { t with pending := t.pending.insert probeId ⟨target, now⟩ }

/-- What a response shows of the challenge it answers. -/
def observation? (t : PathProbeTracker) (probeId : UInt64) (responder : NodeId) (routeSequence : UInt64)
    (now : Time) : Option PathProbeObservation :=
  match t.pending.find? probeId with
  | none => none
  | some pending =>
    if pending.target.destination ≠ responder ∨ pending.target.sequence ≠ routeSequence ∨ now < pending.sentAt ∨
        t.timeout ≤ now - pending.sentAt then none
    else some ⟨pending.target, now - pending.sentAt⟩

def cancel (t : PathProbeTracker) (probeId : UInt64) : PathProbeTracker :=
  { t with pending := t.pending.erase probeId }

def acknowledge (t : PathProbeTracker) (probeId : UInt64) (responder : NodeId) (routeSequence : UInt64)
    (now : Time) : Option PathProbeObservation × PathProbeTracker :=
  match t.observation? probeId responder routeSequence now with
  | none => (none, t)
  | some observation => (some observation, t.cancel probeId)

/-- The challenge is past the timeout. -/
def overdue (t : PathProbeTracker) (now : Time) (pending : PendingProbe) : Bool :=
  pending.sentAt ≤ now && t.timeout ≤ now - pending.sentAt

def expire (t : PathProbeTracker) (now : Time) : List ProbeTarget × PathProbeTracker :=
  ((t.pending.filter fun _ pending => t.overdue now pending).entries.map fun entry => entry.2.target,
    { t with pending := t.pending.filter fun _ pending => !t.overdue now pending })

/-- The bound on the table holds and no candidate is probed under two ids. -/
structure WellFormed (t : PathProbeTracker) : Prop where
  size : t.pending.size ≤ t.maximum
  targets : ∀ id id' entry entry', t.pending.find? id = some entry → t.pending.find? id' = some entry' →
    entry.target = entry'.target → id = id'

variable {t t' : PathProbeTracker} {probeId : UInt64} {target : ProbeTarget} {now : Time}

theorem begin?_eq_some (h : t.begin? probeId target now = some t') :
    t' = { t with pending := t.pending.insert probeId ⟨target, now⟩ } ∧ t.pending.find? probeId = none ∧
      t.pending.size < t.maximum ∧ ∀ id entry, t.pending.find? id = some entry → entry.target ≠ target := by
  unfold begin? at h
  split_ifs at h with hinvalid hfull hprobed
  obtain ⟨hsize, hunused⟩ := not_or.mp hfull
  refine ⟨(Option.some.inj h).symm, SortedMap.contains_eq_false_iff.mp (by simpa using hunused),
    Nat.not_le.mp hsize, fun id entry hfind hsame => hprobed ?_⟩
  exact List.any_eq_true.mpr ⟨(id, entry), SortedMap.find?_eq_some_iff.mp hfind, by simpa using hsame⟩

theorem observation?_eq_some_iff {responder : NodeId} {routeSequence : UInt64} {observation : PathProbeObservation} :
    t.observation? probeId responder routeSequence now = some observation ↔
      ∃ pending, t.pending.find? probeId = some pending ∧ pending.target.destination = responder ∧
        pending.target.sequence = routeSequence ∧ pending.sentAt ≤ now ∧ now - pending.sentAt < t.timeout ∧
        ⟨pending.target, now - pending.sentAt⟩ = observation := by
  unfold observation?
  cases t.pending.find? probeId with
  | none => simp
  | some pending =>
    simp only [Option.ite_none_left_eq_some, not_or, not_not, not_lt, not_le, Option.some.injEq, exists_eq_left',
      and_assoc]

theorem WellFormed.begin? (h : t.WellFormed) (hbegin : t.begin? probeId target now = some t') : t'.WellFormed := by
  obtain ⟨rfl, hunused, hroom, hnew⟩ := begin?_eq_some hbegin
  refine ⟨(SortedMap.size_insert_le _ _ _).trans hroom, ?_⟩
  intro id id' entry entry' hentry hentry' hsame
  rw [SortedMap.find?_insert_eq_some_iff] at hentry hentry'
  rcases hentry with ⟨rfl, rfl⟩ | ⟨hne, hentry⟩
  · rcases hentry' with ⟨rfl, rfl⟩ | ⟨hne', hentry'⟩
    · rfl
    · exact absurd hsame.symm (hnew id' entry' hentry')
  · rcases hentry' with ⟨rfl, rfl⟩ | ⟨hne', hentry'⟩
    · exact absurd hsame (hnew id entry hentry)
    · exact h.targets id id' entry entry' hentry hentry' hsame

theorem WellFormed.filter (h : t.WellFormed) (p : UInt64 → PendingProbe → Bool) :
    WellFormed { t with pending := t.pending.filter p } := by
  refine ⟨(SortedMap.size_filter_le _ _).trans h.size, ?_⟩
  intro id id' entry entry' hentry hentry'
  exact h.targets id id' entry entry' (SortedMap.find?_filter_eq_some_iff.mp hentry).1
    (SortedMap.find?_filter_eq_some_iff.mp hentry').1

end PathProbeTracker

end Aegis
