import Aegis.Lib.HoldDown
import Aegis.Routing.Operations

/-!
# The hold-down of a failed route

A failed probe takes one candidate out of selection, and a later success brings it back once its hold-down has
passed. What the probes have shown is part of the route's record, so it has to survive everything that rewrites
records: a refresh under the same sequence number carries it over, and no other operation touches it. A stored
candidate therefore goes through the states of `HoldDown.Health`, driven by the reports on it
(`follows_run`), as long as it stays in the table under its sequence number.
-/

namespace Aegis

open HoldDown (Health Report)

/-- Until when a failure keeps a route out. -/
def holdDownDeadline (now : Time) : Time := now + ROUTE_PROBE_HOLD_DOWN

theorem holdDownDeadline_mono (first second : Time) (h : first ≤ second) :
    holdDownDeadline first ≤ holdDownDeadline second :=
  Int.add_le_add_right h _

namespace RoutingEngine

/-- The probe is about this route under this sequence number. -/
def ProbeTarget.IsFor (target : ProbeTarget) (k : RouteId) (sequence : UInt64) : Prop :=
  target.destination = k.destination ∧ target.nextHop = k.nextHop ∧
    canonicalPrefix target.network target.prefixLength = k.network ∧ target.prefixLength = k.prefixLength ∧
    target.sequence = sequence

instance (target : ProbeTarget) (k : RouteId) (sequence : UInt64) : Decidable (target.IsFor k sequence) :=
  inferInstanceAs (Decidable (_ ∧ _ ∧ _ ∧ _ ∧ _))

theorem ProbeTarget.matches_iff {target : ProbeTarget} {r : Route} :
    target.matches r = true ↔ target.IsFor r.routeId r.sequenceNumber := by
  simp only [ProbeTarget.matches, ProbeTarget.IsFor, Route.isFor, Route.routeId, Bool.and_eq_true,
    decide_eq_true_eq, eq_comm (a := target.destination), eq_comm (a := target.nextHop),
    eq_comm (a := target.prefixLength), eq_comm (a := target.sequence),
    eq_comm (a := canonicalPrefix target.network target.prefixLength), and_assoc]

theorem routes_updateProbe (re : RoutingEngine) (target : ProbeTarget) (f : RouteProbe → RouteProbe) :
    (re.updateProbe target f).1.routes =
      re.routes.map fun r => if target.matches r then { r with probe := f r.probe } else r := by
  have hsame (h : ∀ r ∈ re.routes, target.matches r = false) :
      re.routes = re.routes.map fun r => if target.matches r then { r with probe := f r.probe } else r := by
    refine ((List.map_congr_left fun r hr => ?_).trans (List.map_id re.routes)).symm
    exact if_neg (by simp [h r hr])
  unfold updateProbe
  split_ifs with hlength hfind
  · -- a stored prefix has a valid length, so nothing matches an invalid one
    refine hsame fun r hr => ?_
    by_contra hmatches
    obtain ⟨-, -, hnetwork, hplen, -⟩ := ProbeTarget.matches_iff.mp (Bool.not_eq_false _ ▸ hmatches)
    have hshape := (re.invariant.valid r hr).shape
    have hnetwork' : canonicalPrefix target.network target.prefixLength = r.network := hnetwork
    have hplen' : target.prefixLength = r.prefixLength := hplen
    rw [Route.wellShaped, Bool.and_eq_true, ← hnetwork', ← hplen', Route.validPrefixLength_canonicalPrefix]
      at hshape
    simp [hshape.1] at hlength
  · refine hsame fun r hr => ?_
    have hnone := List.find?_eq_none.mp (Option.isNone_iff_eq_none.mp hfind) r hr
    simpa using hnone
  · refine List.updateFirst_eq_map re.nodup_routeIds fun a _ b _ ha hb => ?_
    obtain ⟨hdestination, hnext, hnetwork, hplen, -⟩ := ProbeTarget.matches_iff.mp ha
    obtain ⟨hdestination', hnext', hnetwork', hplen', -⟩ := ProbeTarget.matches_iff.mp hb
    rw [hdestination] at hdestination'
    rw [hnext] at hnext'
    rw [hnetwork] at hnetwork'
    rw [hplen] at hplen'
    cases hida : a.routeId
    cases hidb : b.routeId
    rw [hida, hidb] at hdestination' hnext' hnetwork' hplen'
    simp only at hdestination' hnext' hnetwork' hplen'
    rw [hdestination', hnext', hnetwork', hplen']

/-! ### One operation -/

/-- The route is stored under this sequence number. -/
def Stores (re : RoutingEngine) (k : RouteId) (sequence : UInt64) : Prop :=
  ∃ r ∈ re.routes, r.routeId = k ∧ r.sequenceNumber = sequence

/-- The operation neither removes the route nor adds it again under another sequence number. -/
def Keeps (k : RouteId) (sequence : UInt64) (re : RoutingEngine) (op : RouteOp) : Prop :=
  (∃ r ∈ (re.step op).routes, r.routeId = k) ∧
    ∀ route, op = .addRoute route → route.candidate.routeId = k → (re.addRoute route).2 = true →
      route.sequenceNumber = sequence

end RoutingEngine

namespace RouteOp

/-- What the operation reports about the route. -/
def report (k : RouteId) (sequence : UInt64) : RouteOp → Report Time
  | .recordProbeFailure target now => if target.IsFor k sequence then .failure now else .none
  | .recordProbeSuccess target now rtt => if target.IsFor k sequence ∧ 0 ≤ rtt then .success now else .none
  | _ => .none

variable {k : RouteId} {sequence : UInt64} {op : RouteOp} {now : Time}

theorem of_report_success (h : op.report k sequence = .success now) :
    ∃ target rtt, op = .recordProbeSuccess target now rtt ∧ target.IsFor k sequence := by
  cases op with
  | recordProbeSuccess target now' rtt =>
    simp only [report] at h
    split_ifs at h with hfor
    cases h
    exact ⟨target, rtt, rfl, hfor.1⟩
  | recordProbeFailure target now' =>
    simp only [report] at h
    split_ifs at h
  | _ => cases h

theorem of_report_failure (h : op.report k sequence = .failure now) :
    ∃ target, op = .recordProbeFailure target now := by
  cases op with
  | recordProbeFailure target now' =>
    simp only [report] at h
    split_ifs at h
    cases h
    exact ⟨target, rfl⟩
  | recordProbeSuccess target now' rtt =>
    simp only [report] at h
    split_ifs at h
  | _ => cases h

end RouteOp

namespace RoutingEngine

variable {re : RoutingEngine} {op : RouteOp} {r r' : Route} {k : RouteId} {sequence : UInt64}

theorem eq_of_mem_updateProbe {target : ProbeTarget} {f : RouteProbe → RouteProbe} (hr : r ∈ re.routes)
    (hr' : r' ∈ (re.updateProbe target f).1.routes) (hid : r'.routeId = r.routeId) :
    r' = if target.IsFor r.routeId r.sequenceNumber then { r with probe := f r.probe } else r := by
  rw [routes_updateProbe] at hr'
  obtain ⟨old, hold, rfl⟩ := List.mem_map.mp hr'
  have hsame : old = r := by
    refine eq_of_routeId_eq hold hr (Eq.trans ?_ hid)
    split_ifs <;> rfl
  subst hsame
  simp only [ProbeTarget.matches_iff]

theorem eq_of_mem_addRoute {route : Route} (hr : r ∈ re.routes) (hr' : r' ∈ (re.addRoute route).1.routes)
    (hid : r'.routeId = r.routeId) :
    r' = r ∨ (re.addRoute route).2 = true ∧ route.candidate.routeId = r.routeId ∧ r' = route.candidate.refresh r := by
  have hold (h : r' ∈ re.routes) : r' = r := eq_of_routeId_eq h hr hid
  rcases re.addRoute_cases route with
    ⟨existing, -, -, hfind, heq, htrue⟩ | ⟨hshape, -, hfind, -, heq, htrue⟩ | ⟨-, heq⟩
  · rw [heq] at hr'
    rcases List.mem_updateFirst hr' with h | ⟨found, hfound, rfl⟩
    · exact Or.inl (hold h)
    · have hkey : found.key = route.candidate.key := Route.key_of_find? hfound
      have hmem := List.mem_of_find?_eq_some hfound
      have hvalid := (re.invariant.valid found hmem).shape
      have hrefresh : (route.candidate.refresh found).routeId = route.candidate.routeId := by
        unfold Route.refresh
        split_ifs <;> rfl
      have hfoundId : found.routeId = route.candidate.routeId := by
        simp only [Route.key, Prod.mk.injEq] at hkey
        simp only [Route.routeId, hkey]
      obtain rfl : found = r := eq_of_routeId_eq hmem hr (by rw [hfoundId, ← hrefresh, hid])
      exact Or.inr ⟨htrue, hfoundId.symm, rfl⟩
  · rw [heq, List.mem_append, List.mem_singleton] at hr'
    rcases hr' with h | rfl
    · exact Or.inl (hold h)
    · have hcandidate : route.candidate.wellShaped = true := by rw [Route.wellShaped_candidate, hshape]
      have hkey := (Route.key_eq_iff_routeId_eq (re.invariant.valid r hr).shape hcandidate).mpr hid.symm
      exact absurd hkey (by simpa using List.find?_eq_none.mp hfind r hr)
  · rw [heq] at hr'
    exact Or.inl (hold hr')

theorem Stores.step (h : re.Stores k sequence) (hkeeps : Keeps k sequence re op) : (re.step op).Stores k sequence := by
  obtain ⟨r, hr, rfl, rfl⟩ := h
  obtain ⟨⟨r', hr', hid⟩, hadd⟩ := hkeeps
  refine ⟨r', hr', hid, ?_⟩
  have hold (h : r' ∈ re.routes) : r'.sequenceNumber = r.sequenceNumber := by
    rw [eq_of_routeId_eq h hr hid]
  have hprobe {target : ProbeTarget} {f : RouteProbe → RouteProbe}
      (h : r' ∈ (re.updateProbe target f).1.routes) : r'.sequenceNumber = r.sequenceNumber := by
    rw [eq_of_mem_updateProbe hr h hid]
    split_ifs <;> rfl
  cases op with
  | addRoute route =>
    rcases eq_of_mem_addRoute hr hr' hid with rfl | ⟨htrue, hcandidate, rfl⟩
    · rfl
    · rw [← hadd route rfl hcandidate htrue]
      unfold Route.refresh
      split_ifs <;> rfl
  | removeRoute | expireLearnedRoutes => exact hold (mem_eraseIf.mp hr').1
  | removeOlderLearnedRoutes => exact hold (mem_of_mem_removeOlderLearnedRoutes hr')
  | markProbeSent => exact hprobe hr'
  | recordProbeFailure => exact hprobe hr'
  | recordProbeSuccess target now rtt =>
    simp only [RoutingEngine.step, recordProbeSuccess] at hr'
    split_ifs at hr'
    · exact hold hr'
    · exact hprobe hr'
  | clear => cases hr'

end RoutingEngine

/-- The record shows this state of the hold-down. -/
def RouteProbe.Shows (probe : RouteProbe) : Health Time → Prop
  | .usable => probe.failed = false
  | .held deadline => probe.failed = true ∧ probe.holdDownUntil = some deadline

namespace RoutingEngine

variable {re : RoutingEngine} {op : RouteOp} {r r' : Route} {k : RouteId} {sequence : UInt64} {health : Health Time}

/-- A stored route whose record shows the state. -/
def Follows (k : RouteId) (sequence : UInt64) (re : RoutingEngine) (health : Health Time) : Prop :=
  ∃ r ∈ re.routes, r.routeId = k ∧ r.sequenceNumber = sequence ∧ r.probe.Shows health

theorem shows_of_same {probe probe' : RouteProbe} (h : probe.Shows health)
    (hsame : probe'.failed = probe.failed ∧ probe'.holdDownUntil = probe.holdDownUntil) :
    probe'.Shows (health.step holdDownDeadline .none) := by
  cases health with
  | usable => exact hsame.1.trans h
  | held deadline => exact ⟨hsame.1.trans h.1, hsame.2.trans h.2⟩

theorem shows_updateProbe {target : ProbeTarget} {f : RouteProbe → RouteProbe} {reported : Report Time}
    (hr : r ∈ re.routes) (hr' : r' ∈ (re.updateProbe target f).1.routes) (hid : r'.routeId = r.routeId)
    (h : r.probe.Shows health) (hf : (f r.probe).Shows (health.step holdDownDeadline reported)) :
    r'.probe.Shows (health.step holdDownDeadline
      (if target.IsFor r.routeId r.sequenceNumber then reported else .none)) := by
  rw [eq_of_mem_updateProbe hr hr' hid]
  by_cases hfor : target.IsFor r.routeId r.sequenceNumber
  · rw [if_pos hfor, if_pos hfor]
    exact hf
  · rw [if_neg hfor, if_neg hfor]
    exact shows_of_same h ⟨rfl, rfl⟩

theorem shows_step (hr : r ∈ re.routes) (hr' : r' ∈ (re.step op).routes) (hid : r'.routeId = r.routeId)
    (hsequence : r'.sequenceNumber = r.sequenceNumber) (h : r.probe.Shows health) :
    r'.probe.Shows (health.step holdDownDeadline (op.report r.routeId r.sequenceNumber)) := by
  have hold (hmem : r' ∈ re.routes) : r'.probe.Shows (health.step holdDownDeadline .none) := by
    rw [eq_of_routeId_eq hmem hr hid]
    exact shows_of_same h ⟨rfl, rfl⟩
  cases op with
  | addRoute route =>
    rcases eq_of_mem_addRoute hr hr' hid with rfl | ⟨-, -, rfl⟩
    · exact hold hr
    · -- the refresh carries the probes over, the sequence number being the same
      have hcarried : route.candidate.sequenceNumber = r.sequenceNumber := by
        rw [← hsequence]
        unfold Route.refresh
        split_ifs <;> rfl
      rw [Route.refresh, if_pos hcarried]
      exact shows_of_same h ⟨rfl, rfl⟩
  | removeRoute | expireLearnedRoutes => exact hold (mem_eraseIf.mp hr').1
  | removeOlderLearnedRoutes => exact hold (mem_of_mem_removeOlderLearnedRoutes hr')
  | clear => cases hr'
  | markProbeSent target now =>
    have hsent := shows_updateProbe hr hr' hid h (shows_of_same h ⟨rfl, rfl⟩)
    rwa [ite_self] at hsent
  | recordProbeFailure target now => exact shows_updateProbe hr hr' hid h ⟨rfl, rfl⟩
  | recordProbeSuccess target now rtt =>
    simp only [RoutingEngine.step, recordProbeSuccess] at hr'
    simp only [RouteOp.report]
    by_cases hrtt : rtt < 0
    · rw [if_pos hrtt] at hr'
      rw [if_neg fun hfor => absurd hfor.2 (not_le.mpr hrtt)]
      exact hold hr'
    rw [if_neg hrtt] at hr'
    simp only [not_lt.mp hrtt, and_true]
    refine shows_updateProbe hr hr' hid h ?_
    cases health with
    | usable =>
      have hfailed : r.probe.failed = false := h
      simp [hfailed, RouteProbe.Shows, Health.step]
    | held deadline =>
      obtain ⟨hfailed, huntil⟩ := h
      by_cases hpassed : deadline ≤ now
      · simp [hfailed, huntil, hpassed, RouteProbe.Shows, Health.step]
      · simp [hfailed, huntil, hpassed, RouteProbe.Shows, Health.step]

theorem Follows.step (h : Follows k sequence re health) (hkeeps : Keeps k sequence re op) :
    Follows k sequence (re.step op) (health.step holdDownDeadline (op.report k sequence)) := by
  obtain ⟨r, hr, rfl, rfl, hshows⟩ := h
  obtain ⟨r', hr', hid, hsequence⟩ := Stores.step ⟨r, hr, rfl, rfl⟩ hkeeps
  exact ⟨r', hr', hid, hsequence, shows_step hr hr' hid hsequence hshows⟩

/-! ### Runs -/

/-- As long as it is kept, a stored route goes through the states of the hold-down. -/
theorem Follows.run {ops : List RouteOp} (h : Follows k sequence re health)
    (hrun : Run.Along RoutingEngine.step (Keeps k sequence) re ops) :
    Follows k sequence (re.run ops) (health.run holdDownDeadline (ops.map (RouteOp.report k sequence))) := by
  induction ops generalizing re health with
  | nil => exact h
  | cons op ops ih => exact ih (h.step hrun.1) hrun.2

theorem follows_recordProbeFailure {target : ProbeTarget} {now : Time} (h : re.Stores k sequence)
    (htarget : target.IsFor k sequence) :
    Follows k sequence (re.recordProbeFailure target now).1 (.held (holdDownDeadline now)) := by
  obtain ⟨r, hr, rfl, rfl⟩ := h
  refine ⟨_, by rw [recordProbeFailure, routes_updateProbe]; exact List.mem_map_of_mem hr, ?_⟩
  rw [if_pos (ProbeTarget.matches_iff.mpr htarget)]
  exact ⟨rfl, rfl, rfl, rfl⟩

def Selectable (re : RoutingEngine) (k : RouteId) : Prop :=
  ∃ r ∈ re.routes, r.routeId = k ∧ r.probe.failed = false

theorem selectable_of_findRoute {destIp : IPAddress} (h : re.findRoute destIp = some r) : re.Selectable r.routeId := by
  obtain ⟨front, back, hroutes, hcovers, -⟩ := ((findRoute_first_of_greatest_merit re destIp).2 r).mp h
  exact ⟨r, mem_of_findRoute h, rfl, hcovers.1⟩

theorem Follows.selectable_iff (h : Follows k sequence re health) : re.Selectable k ↔ health = .usable := by
  obtain ⟨r, hr, rfl, rfl, hshows⟩ := h
  constructor
  · rintro ⟨r', hr', hid, hfailed⟩
    rw [eq_of_routeId_eq hr' hr hid] at hfailed
    cases health with
    | usable => rfl
    | held deadline => exact absurd hfailed (by simp [hshows.1])
  · rintro rfl
    exact ⟨r, hr, rfl, hshows⟩

/-- A failed route stays out for the whole hold-down. After a failure at `now`, whatever happens to the table
as long as the route is kept under its sequence number: it is not found before the deadline, later failures
only moving the deadline on; and the operation that makes it selectable again is a success for it, at or after
the deadline of the last failure. -/
theorem failed_route_held_down (re : RoutingEngine) (k : RouteId) (sequence : UInt64)
    (hstored : re.Stores k sequence) (target : ProbeTarget) (htarget : target.IsFor k sequence) (now : Time) :
    let failed := (re.recordProbeFailure target now).1
    (∀ ops, Run.Along RoutingEngine.step (Keeps k sequence) failed ops →
      (∀ op ∈ ops, ∀ later ∈ op.time?, later < now + 30000) →
      (∀ target' later, .recordProbeFailure target' later ∈ ops → now ≤ later) →
      ∀ destIp r, (failed.run ops).findRoute destIp = some r → r.routeId ≠ k) ∧
    ∀ ops op, Run.Along RoutingEngine.step (Keeps k sequence) failed (ops ++ [op]) →
      ¬(failed.run ops).Selectable k → (failed.run (ops ++ [op])).Selectable k →
      ∃ target' later rtt, op = .recordProbeSuccess target' later rtt ∧ target'.IsFor k sequence ∧
        HoldDown.lastFailure now (ops.map (RouteOp.report k sequence)) + 30000 ≤ later := by
  intro failed
  have hfollows : Follows k sequence failed (.held (holdDownDeadline now)) :=
    follows_recordProbeFailure hstored htarget
  constructor
  · intro ops hrun htimes hlater destIp r hfind hid
    have hselectable := selectable_of_findRoute hfind
    rw [hid, (hfollows.run hrun).selectable_iff] at hselectable
    refine HoldDown.held_run holdDownDeadline_mono ?_ ?_ hselectable
    · intro later hmem
      obtain ⟨op, hop, hreport⟩ := List.mem_map.mp hmem
      obtain ⟨target', rtt, rfl, -⟩ := RouteOp.of_report_success hreport
      exact htimes _ hop later rfl
    · intro later hmem
      obtain ⟨op, hop, hreport⟩ := List.mem_map.mp hmem
      obtain ⟨target', rfl⟩ := RouteOp.of_report_failure hreport
      exact hlater target' later hop
  · intro ops op hrun hheld hselectable
    have hbefore := (hfollows.run hrun.of_append_left).selectable_iff
    have hafter := (hfollows.run hrun).selectable_iff
    rw [List.map_append, List.map_singleton] at hafter
    obtain ⟨later, hreport, hdeadline⟩ := HoldDown.recovered_by (fun h => hheld (hbefore.mpr h))
      (hafter.mp hselectable)
    obtain ⟨target', rtt, rfl, hfor⟩ := RouteOp.of_report_success hreport
    exact ⟨target', later, rtt, rfl, hfor, hdeadline⟩

/-- A route to peer 3 through peer 2. -/
def sampleLearned : Route where
  network := .fromIpv4 0x0a780000
  prefixLength := 24
  type := .relay
  nextHop := FixedBytes.copy 32 [2]
  destination := FixedBytes.copy 32 [3]
  path := [FixedBytes.copy 32 [2], FixedBytes.copy 32 [3]]

def sampleProbe : ProbeTarget where
  destination := FixedBytes.copy 32 [3]
  nextHop := FixedBytes.copy 32 [2]
  network := .fromIpv4 0x0a780007
  prefixLength := 24
  sequence := 1

/-- A refresh and a success within the hold-down of a failure at 5 s. -/
def sampleHeldOps : List RouteOp := [.addRoute sampleLearned, .recordProbeSuccess sampleProbe 20000 20]

theorem failed_route_held_down_sampleLearned :
    let failed := ((({} : RoutingEngine).addRoute sampleLearned).1.recordProbeFailure sampleProbe 5000).1
    (failed.run sampleHeldOps).routes.map Route.routeId = [sampleLearned.routeId] ∧
      ∀ destIp r, (failed.run sampleHeldOps).findRoute destIp = some r → r.routeId ≠ sampleLearned.routeId := by
  refine ⟨by decide +kernel, (failed_route_held_down (({} : RoutingEngine).addRoute sampleLearned).1
    sampleLearned.routeId 1 ⟨sampleLearned.candidate, by decide +kernel⟩ sampleProbe (by decide +kernel) 5000).1
    sampleHeldOps ⟨⟨by decide +kernel, ?_⟩, ⟨by decide +kernel, ?_⟩, trivial⟩ (by decide) ?_⟩
  · intro route hroute _ _
    cases hroute
    rfl
  · intro route hroute
    cases hroute
  · intro target later hmem
    simp [sampleHeldOps] at hmem

end RoutingEngine

end Aegis
