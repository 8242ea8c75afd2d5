import Aegis.Lib.Custody
import Aegis.Routing.Operations
import Aegis.Routing.PathProbe

/-!
# Probing the candidates of the routing table

`Tunnel::probe_due_routes` and `Tunnel::handle_path_probe`. The maintenance loop fails the candidates whose
challenges have timed out and challenges those that are due; the receive loop records a success for a response
that answers a challenge. The table of challenges and the routing table are two monitors, and each thread carries
what it took from the one to the other, so runs are of critical sections (`ProbeSection`), in any order and with
any arguments, with anything else the node does to its routing table in between. What the threads carry is part
of the state (`ProbeThreads.outcomes`). A whole call of either function is one such run (`reaches_probeDueRoutes`,
`reaches_handlePathProbe`).

Probes with one id or one target cannot be told apart by the tables, so a history numbers them as they are begun
(`ProbeHistory`). It is a `Custody`, which no step of the program reads.
-/

namespace Aegis

open RoutingEngine (ProbeTarget)

/-- The two tables probing works on. -/
structure ProbeNode where
  tracker : PathProbeTracker
  routing : RoutingEngine

/-- What a turn of the loop over the candidates gets from outside: random ids, and whether the challenge was sent. -/
structure ProbeDraws where
  ids : List (Option UInt64)
  sent : Bool

def probeTarget (route : Route) : ProbeTarget :=
  ⟨route.destination, route.nextHop, route.network, route.prefixLength, route.sequenceNumber⟩

/-- The candidate is neither expired, nor held down, nor probed lately. -/
def probeDue (route : Route) (now : Time) : Bool :=
  !learnedRouteLeaseExpired route now && !(route.probe.failed && route.probe.holdDownUntil.any (now < ·)) &&
    !route.probe.lastSentAt.any fun sentAt => sentAt ≤ now && now - sentAt < PATH_PROBE_INTERVAL

namespace ProbeNode

/-- Begin a challenge under the first id drawn that can be used. -/
def beginUnder (target : ProbeTarget) (now : Time) (tracker : PathProbeTracker) :
    List (Option UInt64) → PathProbeTracker × Option UInt64
  | [] => (tracker, none)
  | none :: ids => beginUnder target now tracker ids
  | some id :: ids =>
    if id = 0 then beginUnder target now tracker ids
    else
      match tracker.begin? id target now with
      | some tracker => (tracker, some id)
      | none => beginUnder target now tracker ids

/-- One turn of the loop; a challenge that is not sent, or whose candidate is gone, is cancelled. -/
def probeRoute (now : Time) (node : ProbeNode) (route : Route) (draws : ProbeDraws) : ProbeNode :=
  if !probeDue route now then node
  else if node.tracker.containsTarget (probeTarget route) then node
  else
    match beginUnder (probeTarget route) now node.tracker (draws.ids.take 8) with
    | (tracker, none) => { node with tracker }
    | (tracker, some id) =>
      if !draws.sent then { node with tracker := tracker.cancel id }
      else
        let marked := node.routing.markProbeSent (probeTarget route) now
        if marked.2 then ⟨tracker, marked.1⟩ else ⟨tracker.cancel id, marked.1⟩

def probeDueRoutes (node : ProbeNode) (now : Time) (draws : Nat → ProbeDraws) : ProbeNode :=
  let expired := node.tracker.expire now
  let routing := expired.1.foldl (fun routing target => (routing.recordProbeFailure target now).1) node.routing
  routing.routes.zipIdx.foldl (fun node entry => probeRoute now node entry.1 (draws entry.2)) ⟨expired.2, routing⟩

/-- The candidate an answer to a challenge is sent along: direct routes before relay routes, then the shortest. -/
def responseRoute (routing : RoutingEngine) (source : NodeId) (now : Time) : Option Route :=
  let candidates := (routing.routesTo source).filter fun route =>
    !(learnedRouteLeaseExpired route now || route.probe.failed)
  candidates.foldl (fun best route =>
    match best with
    | none => some route
    | some least =>
      let before := if route.type ≠ least.type then route.type = .direct else route.path.length < least.path.length
      if before then some route else some least) none

/-- The tables after a probe, and the answer to send. The clock is read again for the record. -/
def handlePathProbe (node : ProbeNode) (source : NodeId) (probe : PathProbeMessage) (now recordedAt : Time) :
    ProbeNode × Option (Route × PathProbeMessage) :=
  match probe.kind with
  | .response =>
    match node.tracker.acknowledge probe.probeId source probe.routeSequence now with
    | (none, _) => (node, none)
    | (some observation, tracker) =>
      (⟨tracker, (node.routing.recordProbeSuccess observation.target recordedAt observation.rtt).1⟩, none)
  | .challenge =>
    (node, (responseRoute node.routing source now).map (·, ⟨.response, probe.probeId, probe.routeSequence⟩))

end ProbeNode

/-! ### Critical sections -/

/-- What a thread has taken from the table of challenges and not yet recorded in the routing table. -/
inductive ProbeOutcome where
  | success (target : ProbeTarget) (rtt : Time)
  | failure (target : ProbeTarget) (now : Time)

/-- The call that records an outcome. A failure is recorded as of its expiry. -/
def ProbeOutcome.call (now : Time) : ProbeOutcome → RouteOp
  | .success target rtt => .recordProbeSuccess target now rtt
  | .failure target expiredAt => .recordProbeFailure target expiredAt

structure ProbeThreads extends ProbeNode where
  outcomes : List ProbeOutcome := []

inductive ProbeSection where
  | begin (probeId : UInt64) (target : ProbeTarget) (now : Time)
  | markSent (target : ProbeTarget) (now : Time)
  | cancel (probeId : UInt64)
  | expire (now : Time)
  | acknowledge (probeId : UInt64) (responder : NodeId) (routeSequence : UInt64) (now : Time)
  /-- A thread records the outcome at a place among those carried. -/
  | record (i : Nat) (now : Time)
  /-- The rest of the node, which does not touch the table of challenges. -/
  | elsewhere (routing : RoutingEngine)

def ProbeSection.isElsewhere : ProbeSection → Bool
  | .elsewhere _ => true
  | _ => false

namespace ProbeThreads

def step (s : ProbeThreads) : ProbeSection → ProbeThreads
  | .begin probeId target now => { s with tracker := (s.tracker.begin? probeId target now).getD s.tracker }
  | .markSent target now => { s with routing := (s.routing.markProbeSent target now).1 }
  | .cancel probeId => { s with tracker := s.tracker.cancel probeId }
  | .expire now =>
    { s with
      tracker := (s.tracker.expire now).2
      outcomes := s.outcomes ++ (s.tracker.expire now).1.map (.failure · now) }
  | .acknowledge probeId responder routeSequence now =>
    match s.tracker.acknowledge probeId responder routeSequence now with
    | (none, _) => s
    | (some observation, tracker) =>
      { s with tracker, outcomes := s.outcomes ++ [.success observation.target observation.rtt] }
  | .record i now =>
    match s.outcomes[i]? with
    | none => s
    | some outcome => { s with routing := s.routing.step (outcome.call now), outcomes := s.outcomes.eraseIdx i }
  | .elsewhere routing => { s with routing }

/-- The calls of `record_probe_success` and `record_probe_failure` that a section makes. -/
def calls (s : ProbeThreads) : ProbeSection → List RouteOp
  | .record i now => (s.outcomes[i]?.map (·.call now)).toList
  | _ => []

def run (s : ProbeThreads) (sections : List ProbeSection) : ProbeThreads := sections.foldl step s

def runCalls : ProbeThreads → List ProbeSection → List RouteOp
  | _, [] => []
  | s, a :: rest => s.calls a ++ runCalls (s.step a) rest

/-! ### Calls as runs of sections -/

/-- The second state comes from the first by sections of the two functions alone. -/
def Reaches (s s' : ProbeThreads) : Prop :=
  ∃ sections : List ProbeSection, (∀ a ∈ sections, a.isElsewhere = false) ∧ s.run sections = s'

variable {s s' : ProbeThreads}

theorem Reaches.refl (s : ProbeThreads) : Reaches s s := ⟨[], by simp, rfl⟩

theorem Reaches.tail (h : Reaches s s') (a : ProbeSection) (ha : a.isElsewhere = false) : Reaches s (s'.step a) :=
  Run.exists_foldl_concat h ha

theorem reaches_recordFailures (now : Time) {tracker : PathProbeTracker} {outcomes : List ProbeOutcome}
    (targets : List ProbeTarget) {routing : RoutingEngine}
    (h : Reaches s ⟨⟨tracker, routing⟩, outcomes ++ targets.map (.failure · now)⟩) :
    Reaches s ⟨⟨tracker, targets.foldl (fun routing target => (routing.recordProbeFailure target now).1) routing⟩,
      outcomes⟩ := by
  induction targets generalizing routing with
  | nil => simpa using h
  | cons target targets ih =>
    refine ih ?_
    have hnext := h.tail (.record outcomes.length now) rfl
    simpa [step, ProbeOutcome.call, RoutingEngine.step, List.eraseIdx_append_of_length_le] using hnext

theorem reaches_beginUnder (target : ProbeTarget) (now : Time) {tracker : PathProbeTracker} {routing : RoutingEngine}
    {outcomes : List ProbeOutcome} (h : Reaches s ⟨⟨tracker, routing⟩, outcomes⟩) (ids : List (Option UInt64)) :
    Reaches s ⟨⟨(ProbeNode.beginUnder target now tracker ids).1, routing⟩, outcomes⟩ := by
  induction ids with
  | nil => exact h
  | cons drawn ids ih =>
    cases drawn with
    | none => exact ih
    | some id =>
      rw [ProbeNode.beginUnder]
      split_ifs
      · exact ih
      · have hbegin := h.tail (.begin id target now) rfl
        rw [step] at hbegin
        cases hcase : tracker.begin? id target now with
        | some tracker' =>
          simp only [hcase] at hbegin
          exact hbegin
        | none => exact ih

theorem reaches_probeRoute (now : Time) (route : Route) (draws : ProbeDraws) {node : ProbeNode}
    {outcomes : List ProbeOutcome} (h : Reaches s ⟨node, outcomes⟩) :
    Reaches s ⟨node.probeRoute now route draws, outcomes⟩ := by
  have hbegun := reaches_beginUnder (probeTarget route) now h (draws.ids.take 8)
  unfold ProbeNode.probeRoute
  split
  · exact h
  split
  · exact h
  split
  · rename_i tracker hresult
    rwa [hresult] at hbegun
  · rename_i tracker id hresult
    rw [hresult] at hbegun
    split
    · exact hbegun.tail (.cancel id) rfl
    · have hmarked := hbegun.tail (.markSent (probeTarget route) now) rfl
      dsimp only
      split
      · exact hmarked
      · exact hmarked.tail (.cancel id) rfl

theorem reaches_handlePathProbe (node : ProbeNode) (outcomes : List ProbeOutcome) (source : NodeId)
    (probe : PathProbeMessage) (now recordedAt : Time) :
    Reaches ⟨node, outcomes⟩ ⟨(node.handlePathProbe source probe now recordedAt).1, outcomes⟩ := by
  unfold ProbeNode.handlePathProbe
  cases probe.kind with
  | challenge => exact Reaches.refl _
  | response =>
    have hanswered := (Reaches.refl ⟨node, outcomes⟩).tail
      (.acknowledge probe.probeId source probe.routeSequence now) rfl
    rw [step] at hanswered
    dsimp only at hanswered ⊢
    split at hanswered
    · exact hanswered
    · have hrecorded := hanswered.tail (.record outcomes.length recordedAt) rfl
      simpa [step, ProbeOutcome.call, RoutingEngine.step, List.eraseIdx_append_of_length_le] using hrecorded

end ProbeThreads

/-! ### The history of a run -/

/-- A challenge that was begun; its number is its place among them. -/
structure BegunProbe where
  probeId : UInt64
  target : ProbeTarget
  sentAt : Time

instance : Inhabited BegunProbe := ⟨⟨0, ⟨FixedBytes.zero 32, FixedBytes.zero 32, {}, 0, 0⟩, 0⟩⟩

/-- A response as it is handled. -/
structure ProbeResponse where
  responder : NodeId
  routeSequence : UInt64
  now : Time

/-- How a challenge leaves the table. -/
inductive ProbeDeparture where
  | acknowledged (response : ProbeResponse)
  | expired (now : Time)
  | cancelled

/-- The response comes from the destination of the target, with its sequence number, within the timeout. -/
def BegunProbe.AnsweredBy (timeout : Time) (probe : BegunProbe) (response : ProbeResponse) : Prop :=
  probe.target.destination = response.responder ∧ probe.target.sequence = response.routeSequence ∧
    probe.sentAt ≤ response.now ∧ response.now - probe.sentAt < timeout

namespace ProbeDeparture

/-- Something is to be recorded for the challenge. -/
def owes : ProbeDeparture → Bool
  | .acknowledged _ | .expired _ => true
  | .cancelled => false

def outcome? (probe : BegunProbe) : ProbeDeparture → Option ProbeOutcome
  | .acknowledged response => some (.success probe.target (response.now - probe.sentAt))
  | .expired now => some (.failure probe.target now)
  | .cancelled => none

/-- The departure of a challenge is in order. -/
def Justified (timeout : Time) (probe : BegunProbe) : ProbeDeparture → Prop
  | .acknowledged response => probe.AnsweredBy timeout response
  | .expired now => probe.sentAt ≤ now ∧ timeout ≤ now - probe.sentAt
  | .cancelled => True

end ProbeDeparture

structure ProbeHistory where
  begun : List BegunProbe := []
  /-- The responses that were handled while a challenge with their id waited, with its number. -/
  responses : List (Nat × ProbeResponse) := []
  custody : Custody UInt64 ProbeDeparture RouteOp := {}

namespace ProbeHistory

def begin (h : ProbeHistory) (probe : BegunProbe) : ProbeHistory :=
  { h with begun := h.begun ++ [probe], custody := h.custody.put probe.probeId }

def depart (h : ProbeHistory) (goes : UInt64 → Bool) (departure : ProbeDeparture) : ProbeHistory :=
  { h with custody := h.custody.depart ProbeDeparture.owes goes departure }

def step (s : ProbeThreads) (h : ProbeHistory) : ProbeSection → ProbeHistory
  | .begin probeId target now =>
    if (s.tracker.begin? probeId target now).isSome then h.begin ⟨probeId, target, now⟩ else h
  | .acknowledge probeId responder routeSequence now =>
    let response : ProbeResponse := ⟨responder, routeSequence, now⟩
    let heard := { h with responses := h.responses ++ ((h.custody.held.find? probeId).map (·, response)).toList }
    if (s.tracker.observation? probeId responder routeSequence now).isSome then
      heard.depart (· = probeId) (.acknowledged response)
    else heard
  | .expire now => h.depart (fun id => (s.tracker.pending.find? id).any (s.tracker.overdue now)) (.expired now)
  | .cancel probeId => h.depart (· = probeId) .cancelled
  | .record i now =>
    match s.outcomes[i]? with
    | none => h
    | some outcome => { h with custody := h.custody.settle i (outcome.call now) }
  | .markSent _ _ | .elsewhere _ => h

def run (h : ProbeHistory) : ProbeThreads → List ProbeSection → ProbeHistory
  | _, [] => h
  | s, a :: rest => run (h.step s a) (s.step a) rest

def probe (h : ProbeHistory) (n : Nat) : BegunProbe := h.begun.getD n default

/-- The history tells how the state came about. -/
structure Explains (maximum : Nat) (timeout : Time) (h : ProbeHistory) (s : ProbeThreads) : Prop where
  maximum_eq : s.tracker.maximum = maximum
  timeout_eq : s.tracker.timeout = timeout
  wellFormed : s.tracker.WellFormed
  balanced : h.custody.Balanced ProbeDeparture.owes
  issued : h.custody.issued = h.begun.length
  pending : s.tracker.pending = h.custody.held.mapValues fun n => ⟨(h.probe n).target, (h.probe n).sentAt⟩
  ids : ∀ id n, h.custody.held.find? id = some n → (h.probe n).probeId = id
  outcomes : h.custody.due.map (fun item => item.2.outcome? (h.probe item.1)) = s.outcomes.map some
  justified : ∀ item ∈ h.custody.left, item.2.Justified timeout (h.probe item.1)
  /-- A response that answers is taken. -/
  answered : ∀ item ∈ h.responses, item.1 < h.begun.length ∧
    ((h.probe item.1).AnsweredBy timeout item.2 → (item.1, .acknowledged item.2) ∈ h.custody.left)
  done : ∀ item ∈ h.custody.done, ∃ outcome now,
    item.1.2.outcome? (h.probe item.1.1) = some outcome ∧ item.2 = outcome.call now

variable {maximum : Nat} {timeout : Time} {h : ProbeHistory} {s s' : ProbeThreads}

theorem explains_empty (maximum : Nat) (timeout : Time) (routing : RoutingEngine) :
    Explains maximum timeout {} ⟨⟨{ maximum, timeout }, routing⟩, []⟩ where
  maximum_eq := rfl
  timeout_eq := rfl
  wellFormed := ⟨Nat.zero_le _, by simp⟩
  balanced := Custody.Balanced.empty _
  issued := rfl
  pending := SortedMap.ext_find? fun id => by simp
  ids := by simp
  outcomes := rfl
  justified := by simp
  answered := by simp
  done := by simp

namespace Explains

theorem of_eq (hexplains : Explains maximum timeout h s) (htracker : s'.tracker = s.tracker)
    (houtcomes : s'.outcomes = s.outcomes) : Explains maximum timeout h s' := by
  obtain ⟨⟨tracker, routing⟩, outcomes⟩ := s
  obtain ⟨⟨tracker', routing'⟩, outcomes'⟩ := s'
  dsimp only at htracker houtcomes
  subst htracker houtcomes
  exact { hexplains with }

theorem probe_of_held (hexplains : Explains maximum timeout h s) {id : UInt64} {n : Nat}
    (hheld : h.custody.held.find? id = some n) :
    ∃ pending, s.tracker.pending.find? id = some pending ∧ h.probe n = ⟨id, pending.target, pending.sentAt⟩ := by
  refine ⟨⟨(h.probe n).target, (h.probe n).sentAt⟩, ?_, ?_⟩
  · rw [hexplains.pending, SortedMap.find?_mapValues, hheld]
    rfl
  · rw [← hexplains.ids id n hheld]

theorem held_of_pending (hexplains : Explains maximum timeout h s) {id : UInt64} {pending : PendingProbe}
    (hfind : s.tracker.pending.find? id = some pending) : ∃ n, h.custody.held.find? id = some n := by
  rw [hexplains.pending, SortedMap.find?_mapValues] at hfind
  obtain ⟨n, hheld, -⟩ := Option.map_eq_some_iff.mp hfind
  exact ⟨n, hheld⟩

theorem probe_begin {n : Nat} (hn : n < h.begun.length) (probe : BegunProbe) : (h.begin probe).probe n = h.probe n :=
  List.getD_append _ _ _ _ hn

section

variable (hexplains : Explains maximum timeout h s)
include hexplains

theorem begin {probeId : UInt64} {target : ProbeTarget} {now : Time}
    {tracker : PathProbeTracker} (hbegin : s.tracker.begin? probeId target now = some tracker) :
    Explains maximum timeout (h.begin ⟨probeId, target, now⟩) { s with tracker } := by
  have hwellFormed := hexplains.wellFormed.begin? hbegin
  obtain ⟨rfl, hunused, -, -⟩ := PathProbeTracker.begin?_eq_some hbegin
  have hfresh : h.custody.held.find? probeId = none := by
    rw [hexplains.pending, SortedMap.find?_mapValues] at hunused
    exact Option.map_eq_none_iff.mp hunused
  have hnew : (h.begin ⟨probeId, target, now⟩).probe h.custody.issued = ⟨probeId, target, now⟩ := by
    rw [hexplains.issued]
    simp [probe, ProbeHistory.begin, List.getD_eq_getElem?_getD]
  have hheld {id : UInt64} {n : Nat} (hfind : h.custody.held.find? id = some n) : n < h.begun.length :=
    hexplains.issued ▸ hexplains.balanced.lt_issued_of_held hfind
  have hleft {item : Nat × ProbeDeparture} (hmem : item ∈ h.custody.left) : item.1 < h.begun.length :=
    hexplains.issued ▸ hexplains.balanced.lt_issued_of_left hmem
  have hcustody : (h.begin ⟨probeId, target, now⟩).custody = h.custody.put probeId := rfl
  refine
    { maximum_eq := hexplains.maximum_eq
      timeout_eq := hexplains.timeout_eq
      wellFormed := hwellFormed
      balanced := hexplains.balanced.put hfresh
      issued := by simp [ProbeHistory.begin, Custody.put, hexplains.issued]
      pending := SortedMap.ext_find? fun id => ?_
      ids := fun id n hfind => ?_
      outcomes := ?_
      justified := fun item hmem => ?_
      answered := fun item hmem => ?_
      done := fun item hmem => ?_ }
  · rw [SortedMap.find?_mapValues, hcustody, Custody.put, SortedMap.find?_insert, SortedMap.find?_insert]
    split_ifs with hid
    · simp [hnew]
    · rw [hexplains.pending, SortedMap.find?_mapValues]
      refine Option.map_congr fun n hfind => ?_
      rw [probe_begin (hheld hfind)]
  · rw [hcustody, Custody.put, SortedMap.find?_insert_eq_some_iff] at hfind
    rcases hfind with ⟨rfl, rfl⟩ | ⟨-, hfind⟩
    · rw [hnew]
    · rw [probe_begin (hheld hfind)]
      exact hexplains.ids id n hfind
  · rw [← hexplains.outcomes]
    refine List.map_congr_left fun item hdue => ?_
    rw [probe_begin (hleft (hexplains.balanced.mem_left_of_due hdue))]
  · rw [probe_begin (hleft hmem)]
    exact hexplains.justified item hmem
  · obtain ⟨hlt, hanswered⟩ := hexplains.answered item hmem
    rw [probe_begin hlt]
    exact ⟨by simp [ProbeHistory.begin]; omega, hanswered⟩
  · obtain ⟨hitem, -⟩ := hexplains.balanced.mem_left_of_done hmem
    rw [probe_begin (hleft hitem)]
    exact hexplains.done item hmem

theorem map_outcome?_filter (goes : UInt64 → Bool) (departure : ProbeDeparture) :
    (s.tracker.pending.filter fun id _ => goes id).entries.map
        (fun entry => departure.outcome? ⟨entry.1, entry.2.target, entry.2.sentAt⟩) =
      ((h.custody.held.filter fun id _ => goes id).entries.map fun entry => (entry.2, departure)).map
        fun item => item.2.outcome? (h.probe item.1) := by
  rw [hexplains.pending]
  simp only [SortedMap.filter, SortedMap.mapValues, List.filter_map, List.map_map, Function.comp_def]
  refine List.map_congr_left fun entry hentry => ?_
  have hid := hexplains.ids entry.1 entry.2 (SortedMap.find?_eq_some_iff.mpr (List.mem_filter.mp hentry).1)
  rw [← hid]

theorem depart {goes : UInt64 → Bool} {departure : ProbeDeparture}
    (htracker : s'.tracker = { s.tracker with pending := s.tracker.pending.filter fun id _ => !goes id })
    (hjustified : ∀ id pending, s.tracker.pending.find? id = some pending → goes id = true →
      departure.Justified timeout ⟨id, pending.target, pending.sentAt⟩)
    (houtcomes : s'.outcomes.map some = s.outcomes.map some ++
      if departure.owes then (s.tracker.pending.filter fun id _ => goes id).entries.map
        (fun entry => departure.outcome? ⟨entry.1, entry.2.target, entry.2.sentAt⟩)
      else []) :
    Explains maximum timeout (h.depart goes departure) s' := by
  refine
    { maximum_eq := by rw [htracker, ← hexplains.maximum_eq]
      timeout_eq := by rw [htracker, ← hexplains.timeout_eq]
      wellFormed := by rw [htracker]; exact hexplains.wellFormed.filter _
      balanced := hexplains.balanced.depart goes departure
      issued := hexplains.issued
      pending := ?_
      ids := fun id n hfind => hexplains.ids id n (SortedMap.find?_filter_eq_some_iff.mp hfind).1
      outcomes := ?_
      justified := fun item hmem => ?_
      answered := fun item hmem => ?_
      done := hexplains.done }
  · rw [htracker, hexplains.pending]
    apply SortedMap.eq_of_entries
    simp only [ProbeHistory.depart, Custody.depart, SortedMap.filter, SortedMap.mapValues, List.filter_map,
      Function.comp_def]
    rfl
  · rw [houtcomes, ← hexplains.outcomes, hexplains.map_outcome?_filter]
    show (if departure.owes then _ else _ : List (Nat × ProbeDeparture)).map _ = _
    cases departure.owes with
    | false => simp [probe, ProbeHistory.depart]
    | true => simp [probe, ProbeHistory.depart]
  · rcases List.mem_append.mp hmem with hbefore | hnow
    · exact hexplains.justified item hbefore
    · obtain ⟨⟨id, n⟩, hentry, rfl⟩ := List.mem_map.mp hnow
      obtain ⟨hheld, hgoes⟩ := SortedMap.find?_filter_eq_some_iff.mp (SortedMap.find?_eq_some_iff.mpr hentry)
      obtain ⟨pending, hfind, hprobe⟩ := hexplains.probe_of_held hheld
      have hdeparts := hjustified id pending hfind hgoes
      rw [← hprobe] at hdeparts
      exact hdeparts
  · obtain ⟨hlt, hanswered⟩ := hexplains.answered item hmem
    exact ⟨hlt, fun hanswers => List.mem_append_left _ (hanswered hanswers)⟩

theorem hear {n : Nat} {response : ProbeResponse} (hn : n < h.begun.length)
    (hanswers : (h.probe n).AnsweredBy timeout response → (n, .acknowledged response) ∈ h.custody.left) :
    Explains maximum timeout { h with responses := h.responses ++ [(n, response)] } s := by
  refine { hexplains with answered := fun item hmem => ?_ }
  rcases List.mem_append.mp hmem with hbefore | hnow
  · exact hexplains.answered item hbefore
  · obtain rfl := List.mem_singleton.mp hnow
    exact ⟨hn, hanswers⟩

theorem due_of_outcome {i : Nat} {outcome : ProbeOutcome} (houtcome : s.outcomes[i]? = some outcome) :
    ∃ item, h.custody.due[i]? = some item ∧ item.2.outcome? (h.probe item.1) = some outcome := by
  have hplace : (h.custody.due[i]?).map (fun item => item.2.outcome? (h.probe item.1)) = some (some outcome) := by
    rw [← List.getElem?_map, hexplains.outcomes, List.getElem?_map, houtcome]
    rfl
  exact Option.map_eq_some_iff.mp hplace

theorem settle {i : Nat} {now : Time} {outcome : ProbeOutcome}
    (houtcome : s.outcomes[i]? = some outcome) (routing : RoutingEngine) :
    Explains maximum timeout { h with custody := h.custody.settle i (outcome.call now) }
      { s with routing, outcomes := s.outcomes.eraseIdx i } := by
  obtain ⟨item, hitem, hdue⟩ := hexplains.due_of_outcome houtcome
  have hbalanced := hexplains.balanced.settle i (outcome.call now)
  rw [Custody.settle, hitem] at hbalanced ⊢
  refine
    { hexplains with
      balanced := hbalanced
      outcomes := ?_
      done := fun done hmem => ?_ }
  · show (h.custody.due.eraseIdx i).map _ = (s.outcomes.eraseIdx i).map some
    rw [← List.eraseIdx_map, ← List.eraseIdx_map, ← hexplains.outcomes]
    rfl
  · rcases List.mem_append.mp hmem with hbefore | hnow
    · exact hexplains.done done hbefore
    · obtain rfl := List.mem_singleton.mp hnow
      exact ⟨outcome, now, hdue, rfl⟩

theorem expire (now : Time) : Explains maximum timeout (h.step s (.expire now)) (s.step (.expire now)) := by
  have hsame (p : Bool → Bool) : (s.tracker.pending.filter fun _ pending => p (s.tracker.overdue now pending)) =
      s.tracker.pending.filter fun id _ => p ((s.tracker.pending.find? id).any (s.tracker.overdue now)) := by
    apply SortedMap.eq_of_entries
    refine List.filter_congr fun entry hentry => ?_
    dsimp only
    rw [SortedMap.find?_eq_some_iff.mpr hentry]
    rfl
  refine hexplains.depart ?_ (fun id pending hfind hgoes => ?_) ?_
  · show (s.tracker.expire now).2 = _
    rw [PathProbeTracker.expire, hsame (!·)]
  · simp only [hfind, Option.any_some, PathProbeTracker.overdue, Bool.and_eq_true, decide_eq_true_eq,
      hexplains.timeout_eq] at hgoes
    exact hgoes
  · simp only [ProbeThreads.step, PathProbeTracker.expire, ProbeDeparture.owes, ProbeDeparture.outcome?, if_true]
    rw [List.map_append, ← hsame fun goes => goes]
    simp

theorem cancel (probeId : UInt64) :
    Explains maximum timeout (h.step s (.cancel probeId)) (s.step (.cancel probeId)) := by
  refine hexplains.depart ?_ (fun _ _ _ _ => trivial) ?_
  · simp [ProbeThreads.step, PathProbeTracker.cancel, SortedMap.erase]
  · simp [ProbeThreads.step, ProbeDeparture.owes]

end

variable {probeId : UInt64} {responder : NodeId} {routeSequence : UInt64} {now : Time}

section

variable (hexplains : Explains maximum timeout h s)
include hexplains

theorem observation?_of_not_held (hheld : h.custody.held.find? probeId = none) :
    s.tracker.observation? probeId responder routeSequence now = none := by
  cases hobservation : s.tracker.observation? probeId responder routeSequence now with
  | none => rfl
  | some observation =>
    obtain ⟨pending, hfind, -⟩ := PathProbeTracker.observation?_eq_some_iff.mp hobservation
    obtain ⟨n, hn⟩ := hexplains.held_of_pending hfind
    exact absurd (hn.symm.trans hheld) nofun

theorem not_answeredBy {n : Nat} (hheld : h.custody.held.find? probeId = some n)
    (hobservation : s.tracker.observation? probeId responder routeSequence now = none) :
    ¬(h.probe n).AnsweredBy timeout ⟨responder, routeSequence, now⟩ := by
  obtain ⟨pending, hfind, hprobe⟩ := hexplains.probe_of_held hheld
  rintro ⟨hresponder, hsequence, hle, hlt⟩
  rw [hprobe] at hresponder hsequence hle hlt
  rw [← hexplains.timeout_eq] at hlt
  have hsome := PathProbeTracker.observation?_eq_some_iff.mpr
    ⟨pending, hfind, hresponder, hsequence, hle, hlt, rfl⟩
  exact absurd (hsome.symm.trans hobservation) nofun

theorem depart_acknowledged {observation : PathProbeObservation}
    (hobservation : s.tracker.observation? probeId responder routeSequence now = some observation) :
    Explains maximum timeout (h.depart (· = probeId) (.acknowledged ⟨responder, routeSequence, now⟩))
      (s.step (.acknowledge probeId responder routeSequence now)) := by
  obtain ⟨pending, hfind, hresponder, hsequence, hle, hlt, rfl⟩ :=
    PathProbeTracker.observation?_eq_some_iff.mp hobservation
  have hstep : s.step (.acknowledge probeId responder routeSequence now) =
      { s with
        tracker := s.tracker.cancel probeId
        outcomes := s.outcomes ++ [.success pending.target (now - pending.sentAt)] } := by
    simp [ProbeThreads.step, PathProbeTracker.acknowledge, hobservation]
  refine hexplains.depart ?_ (fun id pending' hpending hid => ?_) ?_
  · rw [hstep]
    simp [PathProbeTracker.cancel, SortedMap.erase]
  · obtain rfl := of_decide_eq_true hid
    obtain rfl := Option.some.inj (hfind.symm.trans hpending)
    exact ⟨hresponder, hsequence, hle, hexplains.timeout_eq ▸ hlt⟩
  · rw [hstep, SortedMap.entries_filter_key hfind]
    simp [ProbeDeparture.owes, ProbeDeparture.outcome?]

theorem acknowledge (probeId : UInt64) (responder : NodeId) (routeSequence : UInt64) (now : Time) :
    Explains maximum timeout (h.step s (.acknowledge probeId responder routeSequence now))
      (s.step (.acknowledge probeId responder routeSequence now)) := by
  cases hheld : h.custody.held.find? probeId with
  | none =>
    have hnone : s.tracker.observation? probeId responder routeSequence now = none :=
      hexplains.observation?_of_not_held hheld
    simpa [ProbeHistory.step, ProbeThreads.step, PathProbeTracker.acknowledge, hnone, hheld] using hexplains
  | some n =>
    have hn : n < h.begun.length := hexplains.issued ▸ hexplains.balanced.lt_issued_of_held hheld
    cases hobservation : s.tracker.observation? probeId responder routeSequence now with
    | none =>
      have hunanswered := hexplains.not_answeredBy hheld hobservation
      simpa [ProbeHistory.step, ProbeThreads.step, PathProbeTracker.acknowledge, hobservation, hheld] using
        hexplains.hear hn fun hanswers => absurd hanswers hunanswered
    | some observation =>
      have hheard : h.step s (.acknowledge probeId responder routeSequence now) =
          { h.depart (· = probeId) (.acknowledged ⟨responder, routeSequence, now⟩) with
            responses := h.responses ++ [(n, ⟨responder, routeSequence, now⟩)] } := by
        simp [ProbeHistory.step, hobservation, hheld, ProbeHistory.depart]
      rw [hheard]
      refine (hexplains.depart_acknowledged hobservation).hear hn fun _ => List.mem_append_right _ ?_
      rw [SortedMap.entries_filter_key hheld]
      exact List.mem_singleton_self _

theorem step (a : ProbeSection) : Explains maximum timeout (h.step s a) (s.step a) := by
  cases a with
  | begin probeId target now =>
    cases hbegin : s.tracker.begin? probeId target now with
    | none => simpa [ProbeHistory.step, ProbeThreads.step, hbegin] using hexplains
    | some tracker => simpa [ProbeHistory.step, ProbeThreads.step, hbegin] using hexplains.begin hbegin
  | markSent target now => exact hexplains.of_eq rfl rfl
  | cancel probeId => exact hexplains.cancel probeId
  | expire now => exact hexplains.expire now
  | acknowledge probeId responder routeSequence now => exact hexplains.acknowledge probeId responder routeSequence now
  | record i now =>
    cases houtcome : s.outcomes[i]? with
    | none => simpa [ProbeHistory.step, ProbeThreads.step, houtcome] using hexplains
    | some outcome =>
      simpa [ProbeHistory.step, ProbeThreads.step, houtcome] using hexplains.settle houtcome _
  | elsewhere routing => exact hexplains.of_eq rfl rfl

theorem run (sections : List ProbeSection) : Explains maximum timeout (h.run s sections) (s.run sections) := by
  induction sections generalizing h s with
  | nil => exact hexplains
  | cons a rest ih => exact ih (hexplains.step a)

theorem done_step (a : ProbeSection) :
    (h.step s a).custody.done.map Prod.snd = h.custody.done.map Prod.snd ++ s.calls a := by
  cases a with
  | begin probeId target now =>
    simp only [ProbeHistory.step, ProbeThreads.calls, List.append_nil]
    split_ifs <;> rfl
  | acknowledge probeId responder routeSequence now =>
    simp only [ProbeHistory.step, ProbeThreads.calls, List.append_nil]
    split_ifs <;> rfl
  | record i now =>
    cases houtcome : s.outcomes[i]? with
    | none => simp [ProbeHistory.step, ProbeThreads.calls, houtcome]
    | some outcome =>
      obtain ⟨item, hitem, -⟩ := hexplains.due_of_outcome houtcome
      simp [ProbeHistory.step, ProbeThreads.calls, houtcome, Custody.settle, hitem]
  | markSent | cancel | expire | elsewhere =>
    simp [ProbeHistory.step, ProbeThreads.calls, ProbeHistory.depart, Custody.depart]

theorem done_run (sections : List ProbeSection) :
    (h.run s sections).custody.done.map Prod.snd = h.custody.done.map Prod.snd ++ s.runCalls sections := by
  induction sections generalizing h s with
  | nil => simp [ProbeHistory.run, ProbeThreads.runCalls]
  | cons a rest ih =>
    rw [ProbeHistory.run, ih (hexplains.step a), hexplains.done_step a, ProbeThreads.runCalls, List.append_assoc]

/-- A call is the success of a challenge that was answered, or the failure of one that was not. -/
theorem call_cases {n : Nat} {departure : ProbeDeparture} {call : RouteOp}
    (hdone : ((n, departure), call) ∈ h.custody.done) :
    (∃ response recordedAt, departure = .acknowledged response ∧ (h.probe n).AnsweredBy timeout response ∧
      call = .recordProbeSuccess (h.probe n).target recordedAt (response.now - (h.probe n).sentAt)) ∨
    ∃ expiredAt, departure = .expired expiredAt ∧ timeout ≤ expiredAt - (h.probe n).sentAt ∧
      (∀ response, (n, response) ∈ h.responses → ¬(h.probe n).AnsweredBy timeout response) ∧
      call = .recordProbeFailure (h.probe n).target expiredAt := by
  obtain ⟨hleft, -⟩ := hexplains.balanced.mem_left_of_done hdone
  have hjustified := hexplains.justified _ hleft
  obtain ⟨outcome, recordedAt, houtcome, hcall⟩ := hexplains.done _ hdone
  cases departure with
  | acknowledged response =>
    obtain rfl := Option.some.inj houtcome
    exact Or.inl ⟨response, recordedAt, rfl, hjustified, hcall⟩
  | expired expiredAt =>
    obtain rfl := Option.some.inj houtcome
    refine Or.inr ⟨expiredAt, rfl, hjustified.2, fun response hheard hanswers => ?_, hcall⟩
    have hacknowledged := (hexplains.answered _ hheard).2 hanswers
    exact absurd (hexplains.balanced.reason_unique hleft hacknowledged) nofun
  | cancelled => cases houtcome

end

end Explains

end ProbeHistory

/-- Over any run from an empty table: the table stays within its bound and probes no candidate twice at a time; a
challenge that was begun is in the table or has left it, once; and the calls that record outcomes are each for a
challenge of its own, which left the table before, a success for one that was answered within the timeout and a
failure for one that was not answered for at least as long. -/
theorem probes_count_once (maximum : Nat) (timeout : Time) (routing : RoutingEngine) (sections : List ProbeSection) :
    let start : ProbeThreads := ⟨⟨{ maximum, timeout }, routing⟩, []⟩
    let s := start.run sections
    let h := ProbeHistory.run {} start sections
    (s.tracker.pending.size ≤ maximum ∧
      ∀ id id' entry entry', s.tracker.pending.find? id = some entry → s.tracker.pending.find? id' = some entry' →
        entry.target = entry'.target → id = id') ∧
    (s.tracker.pending = h.custody.held.mapValues fun n => ⟨(h.probe n).target, (h.probe n).sentAt⟩) ∧
    (h.custody.held.entries.map Prod.snd ++ h.custody.left.map Prod.fst).Perm (List.range h.begun.length) ∧
    start.runCalls sections = h.custody.done.map Prod.snd ∧
    (h.custody.done.map fun done => done.1.1).Nodup ∧
    ∀ n departure call, ((n, departure), call) ∈ h.custody.done →
      (n, departure) ∈ h.custody.left ∧
      ((∃ response recordedAt, departure = .acknowledged response ∧ (h.probe n).AnsweredBy timeout response ∧
        call = .recordProbeSuccess (h.probe n).target recordedAt (response.now - (h.probe n).sentAt)) ∨
      ∃ expiredAt, departure = .expired expiredAt ∧ timeout ≤ expiredAt - (h.probe n).sentAt ∧
        (∀ response, (n, response) ∈ h.responses → ¬(h.probe n).AnsweredBy timeout response) ∧
        call = .recordProbeFailure (h.probe n).target expiredAt) := by
  intro start s h
  have hstart := ProbeHistory.explains_empty maximum timeout routing
  have hexplains : ProbeHistory.Explains maximum timeout h s := hstart.run sections
  refine ⟨⟨hexplains.maximum_eq ▸ hexplains.wellFormed.size, hexplains.wellFormed.targets⟩, hexplains.pending, ?_, ?_,
    hexplains.balanced.nodup_done, fun n departure call hdone =>
      ⟨(hexplains.balanced.mem_left_of_done hdone).1, hexplains.call_cases hdone⟩⟩
  · have hnumbers := hexplains.balanced.numbers
    rwa [hexplains.issued] at hnumbers
  · exact (hstart.done_run sections).symm

-- a response that comes twice, and once more when it is late, counts once
example :
    let target : ProbeTarget := ⟨FixedBytes.copy 32 [2], FixedBytes.copy 32 [1], {}, 24, 3⟩
    (ProbeThreads.runCalls ⟨⟨{}, {}⟩, []⟩
        [.begin 7 target 0, .acknowledge 7 target.destination 3 100, .acknowledge 7 target.destination 3 100,
          .record 0 101, .expire 5000, .record 0 5001, .acknowledge 7 target.destination 3 6000]).map RouteOp.time? =
      [some 101] := by
  decide +kernel

end Aegis
