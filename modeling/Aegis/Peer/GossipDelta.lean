import Aegis.Lib.Run
import Aegis.Peer.TableCodec
import Mathlib.Data.Finset.Defs
import Mathlib.Data.List.Destutter
import Mathlib.Data.List.Sort

/-!
# Delta gossip

`GossipDeltaTracker` of `peer/gossip.cpp` numbers the advertisements of a node's table and remembers, for
every recipient, the highest number it was sent for each peer. A table entry is left out of the next gossip
to a recipient when the number recorded for that recipient is the entry's own.

Numbers are shared by all recipients and drawn from one counter of 64 bits whenever an advertisement is new
or differs from the one before. `GossipHistory` keeps what was numbered and what was returned during a run.
-/

namespace Aegis

namespace AdvertisedPrefix

/-- `operator<` of prefix records. -/
def lt (a b : AdvertisedPrefix) : Bool :=
  if a.network.family ≠ b.network.family then a.network.family.toByte < b.network.family.toByte
  else if a.network.bytes ≠ b.network.bytes then a.network.bytes < b.network.bytes
  else if a.prefixLength ≠ b.prefixLength then a.prefixLength < b.prefixLength
  else if a.sequenceNumber ≠ b.sequenceNumber then a.sequenceNumber < b.sequenceNumber
  else if a.leaseSeconds ≠ b.leaseSeconds then a.leaseSeconds < b.leaseSeconds
  else a.metric < b.metric

end AdvertisedPrefix

namespace AdvertisedPeer

/-- The prefix records in order and without repetitions. -/
def canonicalize (peer : AdvertisedPeer) : AdvertisedPeer :=
  { peer with prefixes := (peer.prefixes.insertionSort fun a b => !b.lt a).destutter (· ≠ ·) }

def sameAdvertisement (left right : AdvertisedPeer) : Bool :=
  left.nodeId = right.nodeId && left.publicKey = right.publicKey && left.path = right.path &&
    left.prefixes = right.prefixes

/-- Two advertisements are equal up to order and repetitions of their prefix records. -/
structure Equivalent (a b : AdvertisedPeer) : Prop where
  nodeId : a.nodeId = b.nodeId
  publicKey : a.publicKey = b.publicKey
  path : a.path = b.path
  prefixes : ∀ record, record ∈ a.prefixes ↔ record ∈ b.prefixes

theorem mem_destutter_ne {α : Type} [DecidableEq α] {l : List α} {a : α} : a ∈ l.destutter (· ≠ ·) ↔ a ∈ l := by
  have haux : ∀ (l : List α) (b : α), a ∈ l.destutter' (· ≠ ·) b ↔ a ∈ b :: l := by
    intro l
    induction l with
    | nil => simp
    | cons c l ih =>
      intro b
      by_cases hbc : b = c
      · subst hbc
        rw [List.destutter'_cons_neg _ (by simp), ih]
        simp
      · rw [List.destutter'_cons_pos _ hbc, List.mem_cons, ih]
        simp
  cases l with
  | nil => rfl
  | cons b l => exact haux l b

theorem canonicalize_equivalent (peer : AdvertisedPeer) : peer.canonicalize.Equivalent peer where
  nodeId := rfl
  publicKey := rfl
  path := rfl
  prefixes := by
    intro record
    rw [canonicalize, mem_destutter_ne, List.mem_insertionSort]

end AdvertisedPeer

structure GossipUpdate where
  peer : AdvertisedPeer
  revision : UInt64 := 0
deriving DecidableEq

structure CurrentAdvertisement where
  peer : AdvertisedPeer
  revision : UInt64 := 0
deriving DecidableEq

structure GossipDeltaTracker where
  current : SortedMap NodeId CurrentAdvertisement := ∅
  sent : SortedMap NodeId (SortedMap NodeId UInt64) := ∅
  nextRevision : UInt64 := 1
deriving DecidableEq

namespace GossipDeltaTracker

def canonicalTable (current : List AdvertisedPeer) : SortedMap NodeId AdvertisedPeer :=
  current.foldl (fun canonical peer => canonical.insert peer.nodeId peer.canonicalize) ∅

/-- The stored advertisement is the one of the table, so that it keeps its number. -/
def unchanged (current : SortedMap NodeId CurrentAdvertisement) (entry : NodeId × AdvertisedPeer) : Bool :=
  match current.find? entry.1 with
  | some state => state.peer.sameAdvertisement entry.2
  | none => false

/-- One entry of the loop that numbers new and changed advertisements. -/
def renumber (s : SortedMap NodeId CurrentAdvertisement × UInt64) (entry : NodeId × AdvertisedPeer) :
    SortedMap NodeId CurrentAdvertisement × UInt64 :=
  if unchanged s.1 entry then s
  else (s.1.insert entry.1 { peer := entry.2, revision := s.2 }, s.2 + 1)

/-- The entries whose peer is still in the table. -/
def stillPresent (t : GossipDeltaTracker) (current : List AdvertisedPeer) :
    SortedMap NodeId CurrentAdvertisement :=
  t.current.filter fun nodeId _ => (canonicalTable current).contains nodeId

/-- The first half of `prepare`: the table is numbered, and what was sent about peers that left it is
forgotten. -/
def observe (t : GossipDeltaTracker) (current : List AdvertisedPeer) : GossipDeltaTracker :=
  let numbered := (canonicalTable current).entries.foldl renumber (t.stillPresent current, t.nextRevision)
  { current := numbered.1
    sent := t.sent.mapValues fun revisions => revisions.filter fun nodeId _ => numbered.1.contains nodeId
    nextRevision := numbered.2 }

def alreadySent (t : GossipDeltaTracker) (recipient nodeId : NodeId) (revision : UInt64) : Bool :=
  match t.sent.find? recipient with
  | some revisions => revisions.find? nodeId = some revision
  | none => false

def prepare (t : GossipDeltaTracker) (recipient : NodeId) (current : List AdvertisedPeer) (forceFull : Bool) :
    List GossipUpdate × GossipDeltaTracker :=
  let t := t.observe current
  (t.current.entries.filterMap fun (nodeId, state) =>
    if forceFull || !t.alreadySent recipient nodeId state.revision then
      some { peer := state.peer, revision := state.revision }
    else none, t)

/-- A revision is recorded unless a higher one is. -/
def record (revisions : SortedMap NodeId UInt64) (committed : NodeId × UInt64) : SortedMap NodeId UInt64 :=
  let old := (revisions.find? committed.1).getD 0
  revisions.insert committed.1 (if old < committed.2 then committed.2 else old)

def commit (t : GossipDeltaTracker) (recipient : NodeId) (revisions : List (NodeId × UInt64)) :
    GossipDeltaTracker :=
  { t with sent := t.sent.insert recipient (revisions.foldl record ((t.sent.find? recipient).getD ∅)) }

def retainRecipients (t : GossipDeltaTracker) (recipients : Finset NodeId) : GossipDeltaTracker :=
  { t with sent := t.sent.filter fun recipient _ => recipient ∈ recipients }

/-! ### Numbering a table -/

/-- What the numbering loop numbers, in order. -/
def numbered (s : SortedMap NodeId CurrentAdvertisement × UInt64) :
    List (NodeId × AdvertisedPeer) → List (NodeId × CurrentAdvertisement)
  | [] => []
  | entry :: rest =>
    (if unchanged s.1 entry then [] else [(entry.1, { peer := entry.2, revision := s.2 })]) ++
      numbered (renumber s entry) rest

/-- What a call of `prepare` numbers. -/
def issues (t : GossipDeltaTracker) (current : List AdvertisedPeer) : List (NodeId × CurrentAdvertisement) :=
  numbered (t.stillPresent current, t.nextRevision) (canonicalTable current).entries

variable {t : GossipDeltaTracker} {current : List AdvertisedPeer} {nodeId : NodeId}
  {entries : List (NodeId × AdvertisedPeer)} {revision : UInt64}

theorem find?_renumber (s : SortedMap NodeId CurrentAdvertisement × UInt64) (entry : NodeId × AdvertisedPeer)
    (h : nodeId ≠ entry.1) : (renumber s entry).1.find? nodeId = s.1.find? nodeId := by
  unfold renumber
  split_ifs
  · rfl
  · rw [SortedMap.find?_insert, if_neg h]

theorem find?_renumber_self (s : SortedMap NodeId CurrentAdvertisement × UInt64) (entry : NodeId × AdvertisedPeer) :
    ∃ revision, (renumber s entry).1.find? entry.1 = some { peer := entry.2, revision } := by
  unfold renumber unchanged
  split
  · rename_i state hstate
    by_cases hsame : state.peer.sameAdvertisement entry.2 = true
    · refine ⟨state.revision, ?_⟩
      have hpeer : state.peer = entry.2 := by
        simp only [AdvertisedPeer.sameAdvertisement, Bool.and_eq_true, decide_eq_true_eq] at hsame
        obtain ⟨⟨⟨hid, hkey⟩, hpath⟩, hprefixes⟩ := hsame
        cases hp : state.peer
        cases he : entry.2
        simp_all
      rw [if_pos hsame, hstate, ← hpeer]
    · rw [if_neg hsame]
      exact ⟨s.2, by simp⟩
  · exact ⟨s.2, by simp⟩

theorem find?_renumber_of_not_mem (h : ∀ entry ∈ entries, nodeId ≠ entry.1)
    (s : SortedMap NodeId CurrentAdvertisement × UInt64) :
    (entries.foldl renumber s).1.find? nodeId = s.1.find? nodeId := by
  induction entries generalizing s with
  | nil => rfl
  | cons entry rest ih =>
    rw [List.foldl_cons, ih (fun e he => h e (List.mem_cons_of_mem _ he))]
    exact find?_renumber s entry (h entry List.mem_cons_self)

theorem find?_renumber_of_mem (hsorted : entries.Pairwise fun a b => a.1 < b.1) {entry : NodeId × AdvertisedPeer}
    (hmem : entry ∈ entries) (s : SortedMap NodeId CurrentAdvertisement × UInt64) :
    ∃ revision, (entries.foldl renumber s).1.find? entry.1 = some { peer := entry.2, revision } := by
  induction entries generalizing s with
  | nil => exact absurd hmem List.not_mem_nil
  | cons first rest ih =>
    rw [List.pairwise_cons] at hsorted
    rcases List.mem_cons.mp hmem with rfl | hmem
    · obtain ⟨revision, hfind⟩ := find?_renumber_self s entry
      refine ⟨revision, ?_⟩
      rw [List.foldl_cons, find?_renumber_of_not_mem (fun e he => (hsorted.1 e he).ne), hfind]
    · exact ih hsorted.2 hmem (renumber s first)

theorem mem_numbered_of_find? {s : SortedMap NodeId CurrentAdvertisement × UInt64} {state : CurrentAdvertisement}
    (h : (entries.foldl renumber s).1.find? nodeId = some state) :
    (nodeId, state) ∈ numbered s entries ∨ s.1.find? nodeId = some state := by
  induction entries generalizing s with
  | nil => exact Or.inr h
  | cons entry rest ih =>
    rcases ih h with hmem | hfind
    · exact Or.inl (List.mem_append_right _ hmem)
    · by_cases hsame : unchanged s.1 entry = true
      · rw [renumber, if_pos hsame] at hfind
        exact Or.inr hfind
      · rw [renumber, if_neg hsame] at hfind
        rcases SortedMap.find?_insert_eq_some_iff.mp hfind with ⟨rfl, rfl⟩ | ⟨-, hfind⟩
        · refine Or.inl (List.mem_append_left _ ?_)
          rw [if_neg hsame]
          exact List.mem_cons_self
        · exact Or.inr hfind

theorem revisions_numbered (entries : List (NodeId × AdvertisedPeer))
    (m : SortedMap NodeId CurrentAdvertisement) (next : Nat) :
    (numbered (m, UInt64.ofNat next) entries).map (fun issue => issue.2.revision)
        = (List.range' next (numbered (m, UInt64.ofNat next) entries).length).map UInt64.ofNat ∧
      (entries.foldl renumber (m, UInt64.ofNat next)).2
        = UInt64.ofNat (next + (numbered (m, UInt64.ofNat next) entries).length) := by
  induction entries generalizing m next with
  | nil => exact ⟨rfl, rfl⟩
  | cons entry rest ih =>
    by_cases hsame : unchanged m entry = true
    · have hstep : renumber (m, UInt64.ofNat next) entry = (m, UInt64.ofNat next) := by
        rw [renumber, if_pos hsame]
      simp only [numbered, List.foldl_cons, if_pos hsame, hstep, List.nil_append]
      exact ih m next
    · have hstep : renumber (m, UInt64.ofNat next) entry
          = (m.insert entry.1 { peer := entry.2, revision := UInt64.ofNat next }, UInt64.ofNat (next + 1)) := by
        rw [renumber, if_neg hsame, UInt64.ofNat_add]
        rfl
      obtain ⟨hrevisions, hnext⟩ := ih (m.insert entry.1 { peer := entry.2, revision := UInt64.ofNat next }) (next + 1)
      simp only [numbered, List.foldl_cons, if_neg hsame, hstep, List.singleton_append, List.map_cons,
        List.length_cons, List.range'_succ]
      refine ⟨by rw [hrevisions], ?_⟩
      rw [hnext]
      congr 1
      omega

/-! ### What a call stores and omits -/

theorem find?_canonicalTable (hids : (current.map (·.nodeId)).Nodup) {peer : AdvertisedPeer} (hmem : peer ∈ current) :
    (canonicalTable current).find? peer.nodeId = some peer.canonicalize := by
  obtain ⟨front, back, rfl⟩ := List.append_of_mem hmem
  rw [canonicalTable, List.foldl_append, List.foldl_cons]
  generalize List.foldl _ _ front = table
  -- the entries after it are of other peers
  have hback : ∀ other ∈ back, peer.nodeId ≠ other.nodeId := by
    intro other hother heq
    rw [List.map_append, List.map_cons, List.nodup_append, List.nodup_cons] at hids
    exact hids.2.1.1 (heq ▸ List.mem_map_of_mem hother)
  exact Run.invariant_of_mem
    (fun table : SortedMap NodeId AdvertisedPeer => table.find? peer.nodeId = some peer.canonicalize)
    (fun table other hother h => by rw [SortedMap.find?_insert, if_neg (hback other hother), h]) (by simp)

theorem find?_observe (hids : (current.map (·.nodeId)).Nodup) {peer : AdvertisedPeer} (hmem : peer ∈ current) :
    ∃ revision, (t.observe current).current.find? peer.nodeId = some { peer := peer.canonicalize, revision } :=
  find?_renumber_of_mem (canonicalTable current).sorted
    (SortedMap.find?_eq_some_iff.mp (find?_canonicalTable hids hmem)) _

theorem mem_issues_of_find? {state : CurrentAdvertisement} (h : (t.observe current).current.find? nodeId = some state) :
    (nodeId, state) ∈ t.issues current ∨ t.current.find? nodeId = some state := by
  rcases mem_numbered_of_find? h with hmem | hfind
  · exact Or.inl hmem
  · exact Or.inr (SortedMap.find?_of_subset (SortedMap.filter_subset _ _) hfind)

def recorded? (t : GossipDeltaTracker) (recipient nodeId : NodeId) : Option UInt64 :=
  (t.sent.find? recipient).bind fun revisions => revisions.find? nodeId

theorem alreadySent_iff {recipient nodeId : NodeId} :
    t.alreadySent recipient nodeId revision = true ↔ t.recorded? recipient nodeId = some revision := by
  unfold alreadySent recorded?
  cases t.sent.find? recipient <;> simp

theorem recorded?_observe {recipient nodeId : NodeId}
    (h : (t.observe current).recorded? recipient nodeId = some revision) :
    t.recorded? recipient nodeId = some revision := by
  simp only [recorded?, observe, SortedMap.find?_mapValues, Option.bind_eq_some_iff, Option.map_eq_some_iff] at h ⊢
  obtain ⟨_, ⟨revisions, hsent, rfl⟩, hfind⟩ := h
  exact ⟨revisions, hsent, SortedMap.find?_of_subset (SortedMap.filter_subset _ _) hfind⟩

theorem recorded?_retainRecipients {recipients : Finset NodeId} {recipient nodeId : NodeId}
    (h : (t.retainRecipients recipients).recorded? recipient nodeId = some revision) :
    t.recorded? recipient nodeId = some revision ∧ recipient ∈ recipients := by
  simp only [recorded?, retainRecipients, Option.bind_eq_some_iff] at h ⊢
  obtain ⟨revisions, hsent, hfind⟩ := h
  obtain ⟨hsent, hretained⟩ := SortedMap.find?_filter_eq_some_iff.mp hsent
  exact ⟨⟨revisions, hsent, hfind⟩, by simpa using hretained⟩

theorem mem_of_find?_record {committed : List (NodeId × UInt64)} {revisions : SortedMap NodeId UInt64}
    (h : (committed.foldl record revisions).find? nodeId = some revision) :
    (nodeId, revision) ∈ committed ∨ revisions.find? nodeId = some revision := by
  induction committed generalizing revisions with
  | nil => exact Or.inr h
  | cons first rest ih =>
    rcases ih h with hmem | hfind
    · exact Or.inl (List.mem_cons_of_mem _ hmem)
    · rw [record, SortedMap.find?_insert] at hfind
      split_ifs at hfind with hid hlt
      · left
        rw [hid, ← Option.some_inj.mp hfind]
        exact List.mem_cons_self
      · -- an absent entry counts as zero, which is a maximum only if zero itself is committed
        cases hold : revisions.find? first.1 with
        | none =>
          left
          rw [hold] at hlt hfind
          have hzero : first.2 = 0 := UInt64.le_zero_iff.mp (UInt64.not_lt.mp hlt)
          rw [hid, ← Option.some_inj.mp hfind]
          exact List.mem_cons.mpr (Or.inl (Prod.ext rfl hzero.symm))
        | some old =>
          right
          rw [hid, hold, ← hfind, hold]
          rfl
      · exact Or.inr hfind

theorem recorded?_commit {recipient recipient' nodeId : NodeId} {revisions : List (NodeId × UInt64)}
    (h : (t.commit recipient' revisions).recorded? recipient nodeId = some revision) :
    (recipient' = recipient ∧ (nodeId, revision) ∈ revisions) ∨ t.recorded? recipient nodeId = some revision := by
  simp only [recorded?, commit, SortedMap.find?_insert, Option.bind_eq_some_iff] at h ⊢
  obtain ⟨stored, hsent, hfind⟩ := h
  split_ifs at hsent with hid
  · obtain rfl := Option.some_inj.mp hsent
    rcases mem_of_find?_record hfind with hmem | hold
    · exact Or.inl ⟨hid.symm, hmem⟩
    · right
      subst hid
      cases hsent' : t.sent.find? recipient with
      | none => rw [hsent'] at hold; cases hold
      | some old => rw [hsent'] at hold; exact ⟨old, rfl, hold⟩
  · exact Or.inr ⟨stored, hsent, hfind⟩

theorem recorded?_of_omitted {recipient : NodeId} {state : CurrentAdvertisement}
    (hfind : (t.observe current).current.find? nodeId = some state)
    (homitted : { peer := state.peer, revision := state.revision } ∉ (t.prepare recipient current false).1) :
    (t.observe current).recorded? recipient nodeId = some state.revision := by
  rw [← alreadySent_iff]
  by_contra hnot
  apply homitted
  rw [prepare, List.mem_filterMap]
  exact ⟨(nodeId, state), SortedMap.find?_eq_some_iff.mp hfind, by simp [hnot]⟩

end GossipDeltaTracker

/-! ### Runs -/

inductive GossipOp
  | prepare (recipient : NodeId) (current : List AdvertisedPeer) (forceFull : Bool)
  | commit (recipient : NodeId) (revisions : List (NodeId × UInt64))
  | retainRecipients (recipients : Finset NodeId)

/-- The call forgets what the recipient was sent. -/
def GossipOp.Drops (recipient : NodeId) : GossipOp → Prop
  | .retainRecipients recipients => recipient ∉ recipients
  | _ => False

/-- The tracker, with everything it has numbered and everything it has returned. -/
structure GossipHistory where
  tracker : GossipDeltaTracker := {}
  issued : List (NodeId × CurrentAdvertisement) := []
  returned : List GossipUpdate := []

namespace GossipHistory

open GossipDeltaTracker

def step (h : GossipHistory) : GossipOp → GossipHistory
  | .prepare recipient current forceFull =>
    let prepared := h.tracker.prepare recipient current forceFull
    { tracker := prepared.2
      issued := h.issued ++ h.tracker.issues current
      returned := h.returned ++ prepared.1 }
  | .commit recipient revisions => { h with tracker := h.tracker.commit recipient revisions }
  | .retainRecipients recipients => { h with tracker := h.tracker.retainRecipients recipients }

def run (ops : List GossipOp) : GossipHistory := ops.foldl step {}

/-- Tables name every peer once, and commits are about revisions that were returned. -/
def Admitted (h : GossipHistory) : GossipOp → Prop
  | .prepare _ current _ => (current.map (·.nodeId)).Nodup
  | .commit _ revisions => ∀ pair ∈ revisions, pair ∈ h.returned.map fun update => (update.peer.nodeId, update.revision)
  | .retainRecipients _ => True

instance Admitted.decidable (h : GossipHistory) : ∀ op, Decidable (h.Admitted op)
  | .prepare _ current _ => inferInstanceAs (Decidable (current.map (·.nodeId)).Nodup)
  | .commit _ revisions => inferInstanceAs (Decidable (∀ pair ∈ revisions,
      pair ∈ h.returned.map fun update => (update.peer.nodeId, update.revision)))
  | .retainRecipients _ => .isTrue trivial

/-- The revision was issued for an advertisement of the peer that says the same. -/
def Issued (h : GossipHistory) (peer : AdvertisedPeer) (revision : UInt64) : Prop :=
  ∃ state, (peer.nodeId, state) ∈ h.issued ∧ state.revision = revision ∧ state.peer.Equivalent peer

/-- Revisions are numbered in the order they are issued, and what is stored or was returned was issued. -/
structure Sound (h : GossipHistory) : Prop where
  numbered : h.issued.map (fun issue => issue.2.revision) = (List.range' 1 h.issued.length).map UInt64.ofNat
  next : h.tracker.nextRevision = UInt64.ofNat (1 + h.issued.length)
  current : ∀ nodeId state, h.tracker.current.find? nodeId = some state → (nodeId, state) ∈ h.issued
  returned : ∀ update ∈ h.returned, ∃ nodeId,
    (nodeId, { peer := update.peer, revision := update.revision }) ∈ h.issued

theorem Sound.step {h : GossipHistory} (hs : h.Sound) (op : GossipOp) : (h.step op).Sound := by
  cases op with
  | prepare recipient current forceFull =>
    obtain ⟨hrevisions, hnext⟩ := revisions_numbered (canonicalTable current).entries
      (h.tracker.stillPresent current) (1 + h.issued.length)
    rw [← hs.next] at hrevisions hnext
    have hcurrent : ∀ nodeId state, (h.tracker.observe current).current.find? nodeId = some state →
        (nodeId, state) ∈ h.issued ++ h.tracker.issues current := by
      intro nodeId state hfind
      rcases mem_issues_of_find? hfind with hmem | hold
      · exact List.mem_append_right _ hmem
      · exact List.mem_append_left _ (hs.current nodeId state hold)
    have hlength : (h.step (.prepare recipient current forceFull)).issued.length
        = h.issued.length + (h.tracker.issues current).length := List.length_append
    refine ⟨?_, ?_, hcurrent, ?_⟩
    · rw [hlength]
      show (h.issued ++ _).map _ = _
      rw [List.map_append, hs.numbered, issues, hrevisions, ← List.map_append, List.range'_append_1]
    · rw [hlength, ← Nat.add_assoc]
      exact hnext
    · intro update hupdate
      rcases List.mem_append.mp hupdate with hupdate | hupdate
      · obtain ⟨nodeId, hmem⟩ := hs.returned update hupdate
        exact ⟨nodeId, List.mem_append_left _ hmem⟩
      · obtain ⟨⟨nodeId, state⟩, hmem, hstate⟩ := List.mem_filterMap.mp hupdate
        dsimp only at hstate
        split_ifs at hstate
        obtain rfl := Option.some_inj.mp hstate
        exact ⟨nodeId, hcurrent nodeId state (SortedMap.find?_eq_some_iff.mpr hmem)⟩
  | commit recipient revisions => exact ⟨hs.numbered, hs.next, hs.current, hs.returned⟩
  | retainRecipients recipients => exact ⟨hs.numbered, hs.next, hs.current, hs.returned⟩

theorem sound_run (ops : List GossipOp) : (run ops).Sound :=
  Run.invariant Sound (fun _ op hs => hs.step op) ⟨rfl, rfl, by simp, by simp⟩ ops

theorem issued_subset_run (front back : List GossipOp) : (run front).issued ⊆ (run (front ++ back)).issued := by
  rw [run, run, List.foldl_append]
  refine Run.invariant (fun h : GossipHistory => (front.foldl step {}).issued ⊆ h.issued) ?_ (List.Subset.refl _) back
  intro h op hsub
  cases op with
  | prepare recipient current forceFull => exact List.subset_append_of_subset_left _ hsub
  | commit recipient revisions => exact hsub
  | retainRecipients recipients => exact hsub

theorem Sound.eq_of_revision {h : GossipHistory} (hs : h.Sound) (hfew : h.issued.length < 2 ^ 64)
    {a b : NodeId × CurrentAdvertisement} (ha : a ∈ h.issued) (hb : b ∈ h.issued)
    (heq : a.2.revision = b.2.revision) : a = b := by
  have hrevision : ∀ (i : Nat) (hi : i < h.issued.length), h.issued[i].2.revision = UInt64.ofNat (1 + i) := by
    intro i hi
    have := congrArg (fun l => l[i]?) hs.numbered
    simpa [hi, Nat.add_comm] using this
  obtain ⟨i, hi, rfl⟩ := List.getElem_of_mem ha
  obtain ⟨j, hj, rfl⟩ := List.getElem_of_mem hb
  rw [hrevision i hi, hrevision j hj] at heq
  have hnat := congrArg UInt64.toNat heq
  rw [UInt64.toNat_ofNat_of_lt' (by show 1 + i < 2 ^ 64; omega),
    UInt64.toNat_ofNat_of_lt' (by show 1 + j < 2 ^ 64; omega)] at hnat
  have hij : i = j := by omega
  subst hij
  rfl

theorem recorded?_step {h : GossipHistory} {op : GossipOp} {recipient nodeId : NodeId} {revision : UInt64}
    (hrecorded : (h.step op).tracker.recorded? recipient nodeId = some revision) :
    (∃ revisions, op = .commit recipient revisions ∧ (nodeId, revision) ∈ revisions) ∨
      (h.tracker.recorded? recipient nodeId = some revision ∧ ¬op.Drops recipient) := by
  cases op with
  | prepare r current forceFull => exact Or.inr ⟨recorded?_observe hrecorded, id⟩
  | commit r revisions =>
    rcases recorded?_commit hrecorded with ⟨rfl, hmem⟩ | hold
    · exact Or.inl ⟨revisions, rfl, hmem⟩
    · exact Or.inr ⟨hold, id⟩
  | retainRecipients recipients =>
    obtain ⟨hold, hretained⟩ := recorded?_retainRecipients hrecorded
    exact Or.inr ⟨hold, not_not.mpr hretained⟩

/-- A peer left out of the gossip to a recipient had its advertisement committed for that recipient, since
the recipient was last dropped: under a revision issued for an advertisement that says the same, and, unless
the counter of revisions has come round, issued before that commit. -/
theorem omitted_update_committed {ops : List GossipOp} (hrun : Run.Along step Admitted {} ops)
    (recipient : NodeId) {current : List AdvertisedPeer} (hids : (current.map (·.nodeId)).Nodup)
    {peer : AdvertisedPeer} (hpeer : peer ∈ current)
    (homitted : ∀ update ∈ ((run ops).tracker.prepare recipient current false).1,
      update.peer.nodeId ≠ peer.nodeId) :
    ∃ front revisions back revision, ops = front ++ .commit recipient revisions :: back ∧
      (peer.nodeId, revision) ∈ revisions ∧ (∀ op ∈ back, ¬op.Drops recipient) ∧
      (run (ops ++ [.prepare recipient current false])).Issued peer revision ∧
      ((run (ops ++ [.prepare recipient current false])).issued.length < 2 ^ 64 →
        (run front).Issued peer revision) := by
  obtain ⟨revision, hfind⟩ := find?_observe (t := (run ops).tracker) hids hpeer
  have hequiv := peer.canonicalize_equivalent
  have hall : (peer.nodeId, { peer := peer.canonicalize, revision }) ∈
      (run (ops ++ [.prepare recipient current false])).issued := by
    apply (sound_run _).current
    rw [run, List.foldl_append]
    exact hfind
  have hrecorded := recorded?_of_omitted hfind fun hmem => homitted _ hmem rfl
  obtain ⟨front, op, back, rfl, ⟨revisions, rfl, hmem⟩, hkeeps⟩ := Run.since (fun _ => True)
    (fun h : GossipHistory => h.tracker.recorded? recipient peer.nodeId = some revision)
    (fun _ op => ∃ revisions, op = GossipOp.commit recipient revisions ∧ (peer.nodeId, revision) ∈ revisions)
    (fun _ op => ¬op.Drops recipient) (fun _ _ _ => trivial) (fun _ _ _ => recorded?_step) trivial (by simp [recorded?])
    (recorded?_observe hrecorded)
  refine ⟨front, revisions, back, revision, rfl, hmem, hkeeps.forall_mem, ⟨_, hall, rfl, hequiv⟩, ?_⟩
  intro hfew
  -- the committed revision was returned before, and it can only have been returned for this advertisement
  obtain ⟨update, hupdate, hpair⟩ := List.mem_map.mp (hrun.of_append _ hmem)
  obtain ⟨nodeId, hissued⟩ := (sound_run front).returned update hupdate
  have hlater := issued_subset_run front (.commit recipient revisions :: back ++ [.prepare recipient current false])
    hissued
  rw [← List.append_assoc] at hlater
  have heq := (sound_run _).eq_of_revision hfew hlater hall (congrArg Prod.snd hpair)
  rw [heq] at hissued
  exact ⟨_, hissued, rfl, hequiv⟩

/-- Node 3 with two records, in one order or the other. -/
def sampleAdvertisement (reversed : Bool) : AdvertisedPeer where
  nodeId := FixedBytes.copy 32 [3]
  prefixes :=
    let records := [{ prefixLength := 8 }, { prefixLength := 16 }]
    if reversed then records.reverse else records

/-- Node 3 is numbered for node 2, and that number is committed for node 1. -/
def sampleGossip : List GossipOp :=
  [.prepare (FixedBytes.copy 32 [2]) [sampleAdvertisement false] false,
    .commit (FixedBytes.copy 32 [1]) [(FixedBytes.copy 32 [3], 1)]]

theorem omitted_update_committed_sampleGossip :
    ∃ front revisions back revision,
      sampleGossip = front ++ .commit (FixedBytes.copy 32 [1]) revisions :: back ∧
      ((sampleAdvertisement true).nodeId, revision) ∈ revisions ∧
      (∀ op ∈ back, ¬op.Drops (FixedBytes.copy 32 [1])) ∧
      (run (sampleGossip ++ [.prepare (FixedBytes.copy 32 [1]) [sampleAdvertisement true] false])).Issued
        (sampleAdvertisement true) revision ∧
      ((run (sampleGossip ++ [.prepare (FixedBytes.copy 32 [1]) [sampleAdvertisement true] false])).issued.length
        < 2 ^ 64 → (run front).Issued (sampleAdvertisement true) revision) :=
  omitted_update_committed (by decide +kernel) (FixedBytes.copy 32 [1]) (by decide +kernel)
    (List.mem_singleton.mpr rfl) (by decide +kernel)

end GossipHistory

end Aegis
