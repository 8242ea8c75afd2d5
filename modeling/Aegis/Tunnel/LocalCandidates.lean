import Aegis.Net.Ipv4
import Aegis.Tunnel.Nomination
import Mathlib.Tactic.IntervalCases

/-!
# The local candidates

The list a node announces for itself. `Tunnel::start` gathers the addresses of the host and merges the endpoint
that a STUN server saw; later `record_local_endpoint_candidate` merges what peers report. The list is ordered
(`OrderedCandidates`) from the start and through every section of the endpoint handlers (`ordered_run`). What the
resolver answers for the host's name is an argument.
-/

namespace Aegis

/-- One turn of the loop over the resolved addresses. The set of addresses seen holds those of the candidates. -/
def gatherHostCandidate (localPort : UInt16) (candidates : List EndpointCandidate) (address : UInt32) :
    List EndpointCandidate :=
  let candidate : EndpointCandidate :=
    ⟨.host, .fromIpv4 address (htons localPort), 300 - UInt32.ofNat candidates.length⟩
  if candidates.length < ENDPOINT_CANDIDATE_MAX_COUNT ∧ validEndpointCandidate candidate ∧
      candidates.all (·.endpoint.ipv4Network ≠ candidate.endpoint.ipv4Network) then candidates ++ [candidate]
  else candidates

/-- `gather_host_candidates`; without an answer of the resolver there are no addresses. -/
def gatherHostCandidates (localPort : UInt16) (addresses : List UInt32) : List EndpointCandidate :=
  if localPort = 0 then [] else addresses.foldl (gatherHostCandidate localPort) []

/-- The list at the end of `Tunnel::start`. -/
def startCandidates (localPort : UInt16) (addresses : List UInt32) (stunPublicEndpoint : Option Endpoint) :
    List EndpointCandidate :=
  match stunPublicEndpoint with
  | none => gatherHostCandidates localPort addresses
  | some endpoint => mergeEndpointCandidate (gatherHostCandidates localPort addresses) ⟨.serverReflexive, endpoint, 200⟩

theorem ordered_nil : OrderedCandidates [] := ⟨Nat.zero_le _, List.nodup_nil, List.Pairwise.nil⟩

/-- The priorities fall with every candidate gathered, so none is below the next one. -/
theorem ordered_gatherHostCandidate (localPort : UInt16) {candidates : List EndpointCandidate} (address : UInt32)
    (h : OrderedCandidates candidates ∧ ∀ entry ∈ candidates, 300 < entry.priority.toNat + candidates.length) :
    OrderedCandidates (gatherHostCandidate localPort candidates address) ∧
      ∀ entry ∈ gatherHostCandidate localPort candidates address,
        300 < entry.priority.toNat + (gatherHostCandidate localPort candidates address).length := by
  obtain ⟨hordered, hpriority⟩ := h
  unfold gatherHostCandidate
  dsimp only
  split_ifs with hgather
  · obtain ⟨hroom, -, hnew⟩ := hgather
    have hnumber : (300 - UInt32.ofNat candidates.length).toNat = 300 - candidates.length := by
      rw [ENDPOINT_CANDIDATE_MAX_COUNT] at hroom
      interval_cases candidates.length <;> rfl
    refine ⟨⟨?_, ?_, ?_⟩, ?_⟩
    · rw [List.length_append]
      exact hroom
    · rw [List.map_append, List.nodup_append]
      refine ⟨hordered.distinct, List.nodup_singleton _, ?_⟩
      rintro endpoint hmem _ hlast rfl
      obtain ⟨entry, hentry, rfl⟩ := List.mem_map.mp hmem
      have hsame := List.mem_singleton.mp hlast
      exact of_decide_eq_true (List.all_eq_true.mp hnew entry hentry) (congrArg Endpoint.ipv4Network hsame)
    · rw [List.pairwise_append]
      refine ⟨hordered.ordered, List.pairwise_singleton _ _, fun entry hentry last hlast => ?_⟩
      have hbefore := hpriority entry hentry
      rw [List.mem_singleton.mp hlast, UInt32.le_iff_toNat_le, hnumber]
      omega
    · intro entry hentry
      rw [List.length_append, List.length_singleton]
      rcases List.mem_append.mp hentry with hentry | hentry
      · have hbefore := hpriority entry hentry
        omega
      · rw [List.mem_singleton.mp hentry, hnumber]
        omega
  · exact ⟨hordered, hpriority⟩

theorem ordered_start (localPort : UInt16) (addresses : List UInt32) (stunPublicEndpoint : Option Endpoint) :
    OrderedCandidates (startCandidates localPort addresses stunPublicEndpoint) := by
  have hgathered : OrderedCandidates (gatherHostCandidates localPort addresses) := by
    unfold gatherHostCandidates
    split_ifs
    · exact ordered_nil
    · exact (Run.invariant (fun candidates : List EndpointCandidate => OrderedCandidates candidates ∧
        ∀ entry ∈ candidates, 300 < entry.priority.toNat + candidates.length)
        (fun _ address h => ordered_gatherHostCandidate localPort address h) ⟨ordered_nil, nofun⟩ addresses).1
  cases stunPublicEndpoint with
  | none => exact hgathered
  | some endpoint => exact hgathered.merge _

namespace EndpointExchange

variable {H : Type} {P : Primitives H} {cfg : TunnelConfig} {s : EndpointExchange H}

theorem localCandidates_sendControl (peerId : NodeId) (packetType : UInt8) (payload : List UInt8)
    (endpoint : Endpoint) (entropy : Entropy) :
    (s.sendControl P cfg peerId packetType payload endpoint entropy).1.localCandidates = s.localCandidates := by
  unfold sendControl
  split <;> rfl

theorem localCandidates_sendEndpointPunch (peerId : NodeId) (endpoint : Endpoint) (message : EndpointPunchMessage)
    (entropy : Entropy) :
    (s.sendEndpointPunch P cfg peerId endpoint message entropy).1.localCandidates = s.localCandidates := by
  unfold sendEndpointPunch
  split
  · rfl
  · exact localCandidates_sendControl ..

theorem localCandidates_handleEndpointPunchFrame (frame : EndpointFrame) :
    (s.handleEndpointPunchFrame P cfg frame).localCandidates = s.localCandidates := by
  unfold handleEndpointPunchFrame openFrame
  split
  · rfl
  split
  · rename_i hcase
    rw [← (Prod.mk.inj hcase).1]
  · rename_i hcase
    obtain ⟨rfl, -⟩ := Prod.mk.inj hcase
    dsimp only
    split
    · split
      · rfl
      split
      · rfl
      · exact localCandidates_sendEndpointPunch ..
    · split <;> rfl

theorem ordered_recordLocal (candidates : List EndpointCandidate) (h : OrderedCandidates s.localCandidates) :
    OrderedCandidates (candidates.foldl recordLocalEndpointCandidate s).localCandidates := by
  refine Run.invariant (fun t : EndpointExchange H => OrderedCandidates t.localCandidates) ?_ h candidates
  intro t candidate ht
  unfold recordLocalEndpointCandidate
  split_ifs
  · exact ht.merge candidate
  · exact ht

theorem localCandidates_sendEndpointCandidateUpdate (peerId : NodeId) (update : EndpointCandidateMessage)
    (entropy : Entropy) :
    (s.sendEndpointCandidateUpdate P cfg peerId update entropy).localCandidates = s.localCandidates := by
  unfold sendEndpointCandidateUpdate
  split
  · rfl
  split
  · rfl
  split
  · rfl
  · exact localCandidates_sendControl ..

theorem ordered_receiveCandidates (frame : EndpointFrame) (h : OrderedCandidates s.localCandidates) :
    OrderedCandidates (s.receiveCandidates P cfg frame).1.localCandidates := by
  unfold receiveCandidates openFrame
  split
  · exact h
  split
  · rename_i hcase
    rwa [← (Prod.mk.inj hcase).1]
  · rename_i opened peerId update hcase
    obtain ⟨rfl, -⟩ := Prod.mk.inj hcase
    dsimp only
    split_ifs
    · exact h
    · exact h
    · exact h
    · exact ordered_recordLocal _ h
    · rw [localCandidates_sendEndpointCandidateUpdate]
      exact ordered_recordLocal _ h

/-- The step lemma; the rest of the node leaves the list alone or has an ordered one. -/
theorem ordered_step (a : EndpointSection H)
    (helsewhere : ∀ other, a = .elsewhere other → OrderedCandidates other.localCandidates)
    (h : OrderedCandidates s.localCandidates) : OrderedCandidates (s.step P cfg a).localCandidates := by
  cases a with
  | candidates frame => exact ordered_receiveCandidates frame h
  | punch frame =>
    show OrderedCandidates (s.handleEndpointPunchFrame P cfg frame).localCandidates
    rwa [localCandidates_handleEndpointPunchFrame]
  | sendPunch peerId endpoint message entropy =>
    show OrderedCandidates (s.sendEndpointPunch P cfg peerId endpoint message entropy).1.localCandidates
    rwa [localCandidates_sendEndpointPunch]
  | elsewhere other => exact helsewhere other rfl
  | attempt | begin | cancel | expire | reset => exact h

/-- A node that has started announces at most eight endpoints, each once and the best first, at any time. -/
theorem ordered_run (localPort : UInt16) (addresses : List UInt32) (stunPublicEndpoint : Option Endpoint)
    (hstart : s.localCandidates = startCandidates localPort addresses stunPublicEndpoint)
    (sections : List (EndpointSection H))
    (helsewhere : ∀ other, .elsewhere other ∈ sections → OrderedCandidates other.localCandidates) :
    OrderedCandidates (sections.foldl (step P cfg) s).localCandidates := by
  refine Run.invariant_of_mem (fun t : EndpointExchange H => OrderedCandidates t.localCandidates) ?_
    (hstart ▸ ordered_start localPort addresses stunPublicEndpoint)
  intro t a ha ht
  exact ordered_step a (fun other heq => helsewhere other (heq ▸ ha)) ht

theorem ordered_run_sampleExchange :
    OrderedCandidates ([.candidates sampleIpv4Frame, .reset].foldl (step clearPrimitives (sampleTunnel 2))
      { sampleExchange with localCandidates := startCandidates 7000 [0x0a000001, 0x0a000002] none }).localCandidates :=
  ordered_run 7000 [0x0a000001, 0x0a000002] none rfl _ (by simp)

end EndpointExchange

end Aegis
