import Aegis.Lib.UpdateFirst
import Aegis.Net.Address
import Mathlib.Data.List.MinMax
import Mathlib.Data.List.Sort

/-!
# Endpoint candidates

`protocol/endpoint_candidate.cpp`: the addresses a peer says it may be reached at, with a priority each, and
the message that carries them. The wire format is of IPv4 addresses only, and so is a valid candidate. A list
of candidates is acceptable if it holds between one and eight valid ones with distinct endpoints: a sender
serialises no other, a receiver takes no other, and no other is stored with a peer.

`merge_endpoint_candidate` of `tunnel/tunnel.cpp` puts one candidate into a list, and keeps a list of at most
eight distinct endpoints, the best first, as such a list (`OrderedCandidates.merge`).
-/

namespace Aegis

def ENDPOINT_CANDIDATE_VERSION : UInt8 := 1
def ENDPOINT_CANDIDATE_MAX_COUNT : Nat := 8
def ENDPOINT_CANDIDATE_HEADER_SIZE : Nat := 36
def ENDPOINT_CANDIDATE_ENTRY_SIZE : Nat := 12

inductive EndpointCandidateType where
  | host
  | serverReflexive
  | peerObserved
deriving DecidableEq

namespace EndpointCandidateType

def toByte : EndpointCandidateType → UInt8
  | .host => 1
  | .serverReflexive => 2
  | .peerObserved => 3

/-- The type a byte stands for, if it is a known one. -/
def ofByte? : UInt8 → Option EndpointCandidateType
  | 1 => some .host
  | 2 => some .serverReflexive
  | 3 => some .peerObserved
  | _ => none

end EndpointCandidateType

structure EndpointCandidate where
  type : EndpointCandidateType := .host
  endpoint : Endpoint := {}
  priority : UInt32 := 0
deriving DecidableEq

structure EndpointCandidateMessage where
  subject : NodeId := FixedBytes.zero 32
  candidates : List EndpointCandidate := []
deriving DecidableEq

def validEndpointCandidate (candidate : EndpointCandidate) : Bool :=
  if !candidate.endpoint.isIpv4 || candidate.endpoint.unspecified || candidate.endpoint.port = 0 ||
      candidate.priority = 0 then false
  else
    let ip := candidate.endpoint.address.ipv4Value
    ip ≠ 0xFFFFFFFF && ip &&& 0xF0000000 ≠ 0xE0000000

/-- A list that may be sent, received and stored. -/
def acceptableCandidates (candidates : List EndpointCandidate) : Bool :=
  !candidates.isEmpty && candidates.length ≤ ENDPOINT_CANDIDATE_MAX_COUNT &&
    candidates.all validEndpointCandidate && decide (candidates.map (·.endpoint)).Nodup

namespace EndpointCandidate

def write (candidate : EndpointCandidate) : List UInt8 :=
  candidate.type.toByte :: 0 :: (beBytes 2 candidate.endpoint.port.toNat ++
    beBytes 4 candidate.endpoint.address.ipv4Value.toNat ++ beBytes 4 candidate.priority.toNat)

def read (reader : WireReader) : Option (EndpointCandidate × WireReader) := do
  let (type, reader) ← reader.readU8
  let (reserved, reader) ← reader.readU8
  let (port, reader) ← reader.readU16
  let (ip, reader) ← reader.readU32
  let (priority, reader) ← reader.readU32
  if reserved ≠ 0 then none
  else
    let type ← EndpointCandidateType.ofByte? type
    let candidate : EndpointCandidate := ⟨type, ⟨IPAddress.fromIpv4 ip, port⟩, priority⟩
    if validEndpointCandidate candidate then some (candidate, reader) else none

end EndpointCandidate

def serializeEndpointCandidates (message : EndpointCandidateMessage) : Option (List UInt8) :=
  if message.subject = FixedBytes.zero 32 ∨ !acceptableCandidates message.candidates then none
  else some (ENDPOINT_CANDIDATE_VERSION :: UInt8.ofNat message.candidates.length ::
    (beBytes 2 0 ++ message.subject.1 ++ message.candidates.flatMap EndpointCandidate.write))

def deserializeEndpointCandidates (payload : List UInt8) : Option EndpointCandidateMessage := do
  let (version, reader) ← (WireReader.mk payload).readU8
  let (count, reader) ← reader.readU8
  let (reserved, reader) ← reader.readU16
  let (subject, reader) ← reader.readArray 32
  if version ≠ ENDPOINT_CANDIDATE_VERSION ∨ count = 0 ∨ ENDPOINT_CANDIDATE_MAX_COUNT < count.toNat ∨
      reserved ≠ 0 ∨
      payload.length ≠ ENDPOINT_CANDIDATE_HEADER_SIZE + count.toNat * ENDPOINT_CANDIDATE_ENTRY_SIZE then none
  else if subject = FixedBytes.zero 32 then none
  else
    let (candidates, reader) ← WireReader.readMany EndpointCandidate.read count.toNat reader
    if (candidates.map (·.endpoint)).Nodup ∧ reader.finished then some ⟨subject, candidates⟩ else none

/-- No candidate of the list has a lower priority. -/
def lowestPriority (candidates : List EndpointCandidate) (candidate : EndpointCandidate) : Bool :=
  candidates.all fun other => candidate.priority ≤ other.priority

/-- The candidate takes the place of the one with its endpoint, or is added, or takes the place of the first
of the lowest priority. -/
def placeEndpointCandidate (candidates : List EndpointCandidate) (candidate : EndpointCandidate) :
    List EndpointCandidate :=
  if candidates.any (·.endpoint = candidate.endpoint) then
    candidates.updateFirst (·.endpoint = candidate.endpoint) fun _ => candidate
  else if candidates.length < ENDPOINT_CANDIDATE_MAX_COUNT then candidates ++ [candidate]
  else candidates.updateFirst (lowestPriority candidates) fun _ => candidate

/-- `merge_endpoint_candidate`: the list is kept by descending priority. -/
def mergeEndpointCandidate (candidates : List EndpointCandidate) (candidate : EndpointCandidate) :
    List EndpointCandidate :=
  (placeEndpointCandidate candidates candidate).insertionSort fun left right => right.priority ≤ left.priority

/-! ### Acceptable lists -/

theorem acceptableCandidates_iff {candidates : List EndpointCandidate} : acceptableCandidates candidates = true ↔
    candidates ≠ [] ∧ candidates.length ≤ ENDPOINT_CANDIDATE_MAX_COUNT ∧
      (∀ candidate ∈ candidates, validEndpointCandidate candidate = true) ∧ (candidates.map (·.endpoint)).Nodup := by
  simp [acceptableCandidates, and_assoc]

theorem EndpointCandidate.valid_of_read {reader reader' : WireReader} {candidate : EndpointCandidate}
    (h : EndpointCandidate.read reader = some (candidate, reader')) : validEndpointCandidate candidate = true := by
  simp only [EndpointCandidate.read, Option.bind_eq_bind, Option.bind_eq_some_iff] at h
  obtain ⟨_, -, _, -, _, -, _, -, _, -, h⟩ := h
  split_ifs at h
  obtain ⟨_, -, h⟩ := Option.bind_eq_some_iff.mp h
  split_ifs at h with hvalid
  obtain ⟨rfl, -⟩ := Prod.mk.inj (Option.some.inj h)
  exact hvalid

theorem acceptable_of_deserialize {payload : List UInt8} {message : EndpointCandidateMessage}
    (h : deserializeEndpointCandidates payload = some message) : acceptableCandidates message.candidates = true := by
  simp only [deserializeEndpointCandidates, Option.bind_eq_bind, Option.bind_eq_some_iff] at h
  obtain ⟨_, -, ⟨count, _⟩, -, _, -, _, -, h⟩ := h
  split_ifs at h with hheader hsubject
  obtain ⟨⟨candidates, last⟩, hread, h⟩ := Option.bind_eq_some_iff.mp h
  dsimp only at h hread hheader
  split_ifs at h with hdistinct
  obtain rfl := Option.some.inj h
  obtain ⟨hlength, hvalid, -⟩ := @WireReader.readMany_spec _ _ _ _ EndpointCandidate.write _ (fun _ => False) _ _
    (fun _ _ _ hread => ⟨EndpointCandidate.valid_of_read hread, nofun⟩) hread
  simp only [not_or, not_not, not_lt] at hheader
  refine acceptableCandidates_iff.mpr ⟨?_, hlength ▸ hheader.2.2.1, hvalid, hdistinct.1⟩
  rintro rfl
  exact hheader.2.1 (UInt8.toNat_inj.mp hlength.symm)

/-! ### Merging -/

variable {candidates : List EndpointCandidate} {candidate : EndpointCandidate}

theorem perm_merge (candidates : List EndpointCandidate) (candidate : EndpointCandidate) :
    (mergeEndpointCandidate candidates candidate).Perm (placeEndpointCandidate candidates candidate) :=
  List.perm_insertionSort _ _

theorem acceptableCandidates_perm {other : List EndpointCandidate} (h : candidates.Perm other) :
    acceptableCandidates candidates = acceptableCandidates other := by
  have hmem : ∀ candidate, candidate ∈ candidates ↔ candidate ∈ other := fun _ => h.mem_iff
  rw [Bool.eq_iff_iff, acceptableCandidates_iff, acceptableCandidates_iff, h.length_eq, ne_eq, ne_eq,
    ← List.length_eq_zero_iff, ← List.length_eq_zero_iff, h.length_eq, (h.map _).nodup_iff]
  simp only [hmem]

theorem exists_lowestPriority (h : candidates ≠ []) :
    ∃ lowest, candidates.find? (lowestPriority candidates) = some lowest := by
  obtain ⟨least, hleast⟩ := Option.ne_none_iff_exists'.mp
    (mt (List.argmin_eq_none (f := fun candidate : EndpointCandidate => candidate.priority)).mp h)
  rw [← Option.isSome_iff_exists, List.find?_isSome]
  refine ⟨least, List.argmin_mem hleast, ?_⟩
  simpa [lowestPriority] using fun other hother => List.le_of_mem_argmin hother hleast

/-- What the candidate takes the place of: the one with its endpoint, the first of the lowest priority of a full
list, or nothing. -/
theorem placeEndpointCandidate_cases (candidates : List EndpointCandidate) (candidate : EndpointCandidate) :
    (∃ front old behind, candidates = front ++ old :: behind ∧
      placeEndpointCandidate candidates candidate = front ++ candidate :: behind ∧
      (old.endpoint = candidate.endpoint ∨ candidate.endpoint ∉ candidates.map (·.endpoint) ∧
        ENDPOINT_CANDIDATE_MAX_COUNT ≤ candidates.length ∧
        candidates.find? (lowestPriority candidates) = some old)) ∨
    (candidate.endpoint ∉ candidates.map (·.endpoint) ∧ candidates.length < ENDPOINT_CANDIDATE_MAX_COUNT ∧
      placeEndpointCandidate candidates candidate = candidates ++ [candidate]) := by
  by_cases hsame : candidates.any (·.endpoint = candidate.endpoint) = true
  · obtain ⟨old, hold⟩ := Option.isSome_iff_exists.mp (List.find?_isSome.mpr (List.any_eq_true.mp hsame))
    obtain ⟨front, behind, hlist, -, hupdate⟩ := List.exists_updateFirst_eq hold fun _ => candidate
    have hendpoint := List.find?_some hold
    refine Or.inl ⟨front, old, behind, hlist, ?_, Or.inl (of_decide_eq_true hendpoint)⟩
    rw [placeEndpointCandidate, if_pos hsame, hupdate]
  have hnew : candidate.endpoint ∉ candidates.map (·.endpoint) := by
    intro hmem
    obtain ⟨other, hother, heq⟩ := List.mem_map.mp hmem
    exact hsame (List.any_eq_true.mpr ⟨other, hother, decide_eq_true heq⟩)
  by_cases hroom : candidates.length < ENDPOINT_CANDIDATE_MAX_COUNT
  · refine Or.inr ⟨hnew, hroom, ?_⟩
    rw [placeEndpointCandidate, if_neg hsame, if_pos hroom]
  · have hne : candidates ≠ [] := by
      rintro rfl
      exact hroom (by decide)
    obtain ⟨old, hold⟩ := exists_lowestPriority hne
    obtain ⟨front, behind, hlist, -, hupdate⟩ := List.exists_updateFirst_eq hold fun _ => candidate
    refine Or.inl ⟨front, old, behind, hlist, ?_, Or.inr ⟨hnew, Nat.not_lt.mp hroom, hold⟩⟩
    rw [placeEndpointCandidate, if_neg hsame, if_neg hroom, hupdate]

/-- A merge keeps all entries or all but one, and adds the candidate. -/
theorem merge_spec (candidates : List EndpointCandidate) (candidate : EndpointCandidate) :
    ∃ kept, kept.Sublist candidates ∧ kept.Sublist (placeEndpointCandidate candidates candidate) ∧
      (mergeEndpointCandidate candidates candidate).Perm (candidate :: kept) ∧
      (candidates.length ≤ ENDPOINT_CANDIDATE_MAX_COUNT → kept.length < ENDPOINT_CANDIDATE_MAX_COUNT) ∧
      ((candidates.map (·.endpoint)).Nodup → candidate.endpoint ∉ kept.map (·.endpoint)) ∧
      ∀ other ∈ candidates, other ∉ kept → other.endpoint = candidate.endpoint ∨
        ENDPOINT_CANDIDATE_MAX_COUNT ≤ candidates.length ∧
          candidates.find? (lowestPriority candidates) = some other := by
  have hperm := perm_merge candidates candidate
  obtain ⟨front, old, behind, hlist, hplace, hold⟩ | ⟨hnew, hroom, hplace⟩ :=
    placeEndpointCandidate_cases candidates candidate
  · rw [hplace] at hperm ⊢
    have hkept : (front ++ behind).Sublist candidates := by
      rw [hlist]
      exact (List.sublist_cons_self old behind).append_left front
    refine ⟨front ++ behind, hkept, (List.sublist_cons_self candidate behind).append_left front,
      hperm.trans List.perm_middle, fun hsize => ?_, fun hdistinct => ?_, fun other hother hgone => ?_⟩
    · rw [hlist] at hsize
      simp only [List.length_append, List.length_cons] at hsize ⊢
      omega
    · rcases hold with hsame | ⟨hnew, -, -⟩
      · rw [hlist, List.map_append, List.map_cons, List.nodup_middle, List.nodup_cons, ← List.map_append] at hdistinct
        exact hsame ▸ hdistinct.1
      · exact fun hmem => hnew ((hkept.map _).subset hmem)
    · have heq : other = old := by
        rw [hlist] at hother
        simp only [List.mem_append, List.mem_cons] at hother hgone
        tauto
      rw [heq]
      exact hold.imp id And.right
  · rw [hplace] at hperm ⊢
    exact ⟨candidates, List.Sublist.refl _, List.sublist_append_left _ _, hperm.trans List.perm_append_comm,
      fun _ => hroom, fun _ => hnew, fun other hother hgone => absurd hother hgone⟩

theorem mem_merge_self (candidates : List EndpointCandidate) (candidate : EndpointCandidate) :
    candidate ∈ mergeEndpointCandidate candidates candidate := by
  obtain ⟨kept, -, -, hperm, -⟩ := merge_spec candidates candidate
  exact hperm.mem_iff.mpr List.mem_cons_self

/-- The endpoints of a list stay in it, but for the first candidate of the lowest priority of a full list. -/
theorem endpoint_mem_merge (hsize : candidates.length ≤ ENDPOINT_CANDIDATE_MAX_COUNT) {other : EndpointCandidate}
    (hother : other ∈ candidates) :
    other.endpoint ∈ (mergeEndpointCandidate candidates candidate).map (·.endpoint) ∨
      (candidates.length = ENDPOINT_CANDIDATE_MAX_COUNT ∧
        candidates.find? (lowestPriority candidates) = some other) := by
  obtain ⟨kept, -, -, hperm, -, -, hgone⟩ := merge_spec candidates candidate
  rw [(hperm.map _).mem_iff, List.map_cons, List.mem_cons]
  by_cases hkept : other ∈ kept
  · exact Or.inl (Or.inr (List.mem_map_of_mem hkept))
  · rcases hgone other hother hkept with hsame | ⟨hfull, hlowest⟩
    · exact Or.inl (Or.inl hsame)
    · exact Or.inr ⟨Nat.le_antisymm hsize hfull, hlowest⟩

theorem acceptable_merge (h : acceptableCandidates candidates = true)
    (hvalid : validEndpointCandidate candidate = true) :
    acceptableCandidates (mergeEndpointCandidate candidates candidate) = true := by
  obtain ⟨-, hsize, hall, hdistinct⟩ := acceptableCandidates_iff.mp h
  obtain ⟨kept, hkept, -, hperm, hroom, hnew, -⟩ := merge_spec candidates candidate
  rw [acceptableCandidates_perm hperm, acceptableCandidates_iff, List.forall_mem_cons, List.map_cons, List.nodup_cons]
  exact ⟨List.cons_ne_nil _ _, hroom hsize, ⟨hvalid, fun other hother => hall other (hkept.subset hother)⟩,
    hnew hdistinct, hdistinct.sublist (hkept.map _)⟩

theorem acceptable_merge_iff (h : acceptableCandidates candidates = true) :
    acceptableCandidates (mergeEndpointCandidate candidates candidate) = validEndpointCandidate candidate := by
  rw [Bool.eq_iff_iff]
  refine ⟨fun hmerged => ?_, acceptable_merge h⟩
  exact (acceptableCandidates_iff.mp hmerged).2.2.1 candidate (mem_merge_self candidates candidate)

/-- The lists a node keeps: bounded, without two candidates for one endpoint, best candidates first. -/
structure OrderedCandidates (candidates : List EndpointCandidate) : Prop where
  size : candidates.length ≤ ENDPOINT_CANDIDATE_MAX_COUNT
  distinct : (candidates.map (·.endpoint)).Nodup
  ordered : candidates.Pairwise fun left right => right.priority ≤ left.priority

theorem pairwise_merge (candidates : List EndpointCandidate) (candidate : EndpointCandidate) :
    (mergeEndpointCandidate candidates candidate).Pairwise fun left right => right.priority ≤ left.priority := by
  have htotal : Std.Total fun left right : EndpointCandidate => right.priority ≤ left.priority :=
    ⟨fun left right => UInt32.le_total right.priority left.priority⟩
  have htrans : IsTrans EndpointCandidate fun left right => right.priority ≤ left.priority :=
    ⟨fun _ _ _ hab hbc => UInt32.le_trans hbc hab⟩
  exact List.pairwise_insertionSort _ _

theorem OrderedCandidates.merge (h : OrderedCandidates candidates) (candidate : EndpointCandidate) :
    OrderedCandidates (mergeEndpointCandidate candidates candidate) := by
  obtain ⟨kept, hkept, -, hperm, hroom, hnew, -⟩ := merge_spec candidates candidate
  refine ⟨hperm.length_eq ▸ hroom h.size, ?_, pairwise_merge candidates candidate⟩
  rw [(hperm.map _).nodup_iff, List.map_cons, List.nodup_cons]
  exact ⟨hnew h.distinct, h.distinct.sublist (hkept.map _)⟩

/-- A merge into such a list gives such a list, with the candidate in it. The other entries are entries of the
list before, in the order they had. One that is gone had the candidate's endpoint, or the list was full and none
had a lower priority. -/
theorem candidate_merge_keeps_order (candidates : List EndpointCandidate) (candidate : EndpointCandidate)
    (h : OrderedCandidates candidates) :
    OrderedCandidates (mergeEndpointCandidate candidates candidate) ∧
    candidate ∈ mergeEndpointCandidate candidates candidate ∧
    ((mergeEndpointCandidate candidates candidate).filter (· ≠ candidate)).Sublist candidates ∧
    ∀ other ∈ candidates, other ∉ mergeEndpointCandidate candidates candidate →
      other.endpoint = candidate.endpoint ∨
        candidates.length = ENDPOINT_CANDIDATE_MAX_COUNT ∧ ∀ entry ∈ candidates, other.priority ≤ entry.priority := by
  obtain ⟨kept, hkept, hplaced, hperm, -, hnew, hgone⟩ := merge_spec candidates candidate
  refine ⟨h.merge candidate, mem_merge_self candidates candidate, ?_, fun other hother hmissing => ?_⟩
  · -- the sort is stable: what was in order before stays in that order
    have hstays : kept.Sublist (mergeEndpointCandidate candidates candidate) :=
      List.sublist_insertionSort (h.ordered.sublist hkept) hplaced
    have hother : kept.filter (· ≠ candidate) = kept := by
      refine List.filter_eq_self.mpr fun other hmem => decide_eq_true ?_
      rintro rfl
      exact hnew h.distinct (List.mem_map_of_mem hmem)
    have hcount : ((mergeEndpointCandidate candidates candidate).filter (· ≠ candidate)).Perm kept := by
      have hfiltered := hperm.filter (· ≠ candidate)
      rwa [List.filter_cons_of_neg (by simp), hother] at hfiltered
    have hfilter := hstays.filter (· ≠ candidate)
    rw [hother] at hfilter
    rwa [← hfilter.eq_of_length hcount.length_eq.symm]
  · have hmissing : other ∉ kept := fun hmem => hmissing (hperm.mem_iff.mpr (List.mem_cons_of_mem _ hmem))
    refine (hgone other hother hmissing).imp id fun ⟨hfull, hlowest⟩ => ⟨Nat.le_antisymm h.size hfull, ?_⟩
    have hlow := List.find?_some hlowest
    simpa [lowestPriority] using hlow

/-- A full list; two candidates share the lowest priority. -/
def fullCandidates : List EndpointCandidate :=
  [300, 299, 298, 297, 296, 295, 294, 294].zipIdx.map fun (priority, i) =>
    { endpoint := { port := UInt16.ofNat (i + 1) }, priority }

/-- A candidate of a still lower priority takes the place of the first of the two. -/
theorem candidate_merge_keeps_order_full :
    (fullCandidates.length = ENDPOINT_CANDIDATE_MAX_COUNT ∧
      fullCandidates[6]? ∉ (mergeEndpointCandidate fullCandidates { priority := 200 }).map some) ∧
    OrderedCandidates (mergeEndpointCandidate fullCandidates { priority := 200 }) :=
  ⟨by decide, (candidate_merge_keeps_order fullCandidates { priority := 200 }
    ⟨by decide, by decide, by decide⟩).1⟩

end Aegis
