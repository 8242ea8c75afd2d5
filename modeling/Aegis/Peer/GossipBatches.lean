import Aegis.Lib.Packing
import Aegis.Peer.GossipDelta

/-!
# Gossip batches

`make_gossip_batches` of `peer/gossip.cpp` cuts the updates for one recipient into tables that each fit a datagram.
An entry with more than 16 prefixes is sent in chunks of 16, each under the entry's id, key and path. An update is
left out as a whole if its path is too long or one of its chunks does not fit on its own; the chunks of the others
are packed greedily, across updates, and the revision of an update is completed with its last chunk.

`makeGossipBatches_eq` says that this is `Packing.pack` on the chunks of the included updates.
-/

namespace Aegis

structure GossipBatch where
  peers : List AdvertisedPeer := []
  completedRevisions : List (NodeId × UInt64) := []
deriving DecidableEq

def fitsPayload (maxPayloadBytes : Nat) (peers : List AdvertisedPeer) : Bool :=
  (serializePeerTable peers).any fun encoded => encoded.length ≤ maxPayloadBytes

namespace AdvertisedPeer

def partCount (p : AdvertisedPeer) : Nat :=
  max 1 ((p.prefixes.length + PEER_TABLE_MAX_PREFIXES - 1) / PEER_TABLE_MAX_PREFIXES)

/-- The entry with the prefixes of one part. -/
def chunk (p : AdvertisedPeer) (part : Nat) : AdvertisedPeer :=
  let first := part * PEER_TABLE_MAX_PREFIXES
  let last := min p.prefixes.length (first + PEER_TABLE_MAX_PREFIXES)
  { p with prefixes := if first < last then p.prefixes.extract first last else [] }

def chunks (p : AdvertisedPeer) : List AdvertisedPeer := (List.range p.partCount).map p.chunk

end AdvertisedPeer

/-- The batches so far and the one that is being filled. -/
structure Batching where
  batches : List GossipBatch := []
  current : GossipBatch := {}

namespace Batching

def flush (s : Batching) : Batching :=
  if s.current.peers.isEmpty then s else ⟨s.batches ++ [s.current], {}⟩

/-- One turn of the loop over the chunks, with the revision that the chunk completes. -/
def append (maxPayloadBytes : Nat) (s : Batching) (chunk : AdvertisedPeer) (completed : Option (NodeId × UInt64)) :
    Batching :=
  let s := if fitsPayload maxPayloadBytes (s.current.peers ++ [chunk]) then s else s.flush
  { s with current := ⟨s.current.peers ++ [chunk], s.current.completedRevisions ++ completed.toList⟩ }

/-- One turn of the loop over the updates. -/
def addUpdate (maxPayloadBytes : Nat) (s : Batching) (update : GossipUpdate) : Batching :=
  if PEER_TABLE_MAX_PATH_HOPS < update.peer.path.length then s
  else
    let chunks := update.peer.chunks
    if chunks.all fun chunk => fitsPayload maxPayloadBytes [chunk] then
      chunks.zipIdx.foldl (fun s (chunk, part) =>
        s.append maxPayloadBytes chunk
          (if part + 1 = chunks.length then some (update.peer.nodeId, update.revision) else none)) s
    else s

end Batching

def makeGossipBatches (updates : List GossipUpdate) (maxPayloadBytes : Nat) : List GossipBatch :=
  let maxPayloadBytes := min maxPayloadBytes PEER_TABLE_MAX_WIRE_BYTES
  if maxPayloadBytes < 3 then []
  else (updates.foldl (Batching.addUpdate maxPayloadBytes) {}).flush.batches

/-! ### Tables within a budget -/

theorem fitsPayload_iff {maxPayloadBytes : Nat} {peers : List AdvertisedPeer} :
    fitsPayload maxPayloadBytes peers = true ↔
      ∃ encoded, serializePeerTable peers = some encoded ∧ encoded.length ≤ maxPayloadBytes := by
  simp [fitsPayload, Option.any_eq_true]

theorem fitsPayload_min (maxPayloadBytes : Nat) (peers : List AdvertisedPeer) :
    fitsPayload (min maxPayloadBytes PEER_TABLE_MAX_WIRE_BYTES) peers = fitsPayload maxPayloadBytes peers := by
  rw [Bool.eq_iff_iff, fitsPayload_iff, fitsPayload_iff]
  refine exists_congr fun encoded => and_congr_right fun h => ?_
  have hlimit := (serializePeerTable_eq_some h).2.1
  omega

theorem three_le_of_fitsPayload {maxPayloadBytes : Nat} {peers : List AdvertisedPeer}
    (h : fitsPayload maxPayloadBytes peers = true) : 3 ≤ maxPayloadBytes := by
  obtain ⟨encoded, hencoded, hsize⟩ := fitsPayload_iff.mp h
  obtain ⟨-, -, rfl, -⟩ := serializePeerTable_eq_some hencoded
  simp only [List.length_cons, List.length_append, length_beBytes] at hsize
  omega

theorem fitsPayload_singleton_iff {maxPayloadBytes : Nat} {p : AdvertisedPeer}
    (hpath : p.path.length ≤ PEER_TABLE_MAX_PATH_HOPS) (hprefixes : p.prefixes.length ≤ PEER_TABLE_MAX_PREFIXES)
    (hrecords : ∀ record ∈ p.prefixes, record.encodable = true) :
    fitsPayload maxPayloadBytes [p] = true ↔
      70 + 32 * p.path.length + 34 * p.prefixes.length ≤ maxPayloadBytes := by
  have hbytes : p.encodedBytes = 67 + 32 * p.path.length + 34 * p.prefixes.length := by
    simp only [AdvertisedPeer.encodedBytes, PEER_TABLE_PREFIX_BYTES]
    omega
  have hroom : ¬PEER_TABLE_MAX_WIRE_BYTES - 3 < p.encodedBytes := by
    simp only [PEER_TABLE_MAX_PATH_HOPS, PEER_TABLE_MAX_PREFIXES] at hpath hprefixes
    simp only [PEER_TABLE_MAX_WIRE_BYTES]
    omega
  have hsize : encodedSize [p] 3 = some (3 + p.encodedBytes) := by
    simp [encodedSize, not_lt.mpr hpath, not_lt.mpr hprefixes, hroom]
  have hserialize : serializePeerTable [p] = some (PEER_TABLE_VERSION :: (beBytes 2 1 ++ p.write)) := by
    have hall : p.prefixes.all AdvertisedPrefix.encodable = true := List.all_eq_true.mpr hrecords
    simp [serializePeerTable, PEER_TABLE_MAX_PEERS, hsize, hall]
  simp only [fitsPayload, hserialize, Option.any_some, decide_eq_true_eq, List.length_cons, List.length_append,
    length_beBytes, p.length_write]
  omega

/-! ### Chunks -/

namespace AdvertisedPeer

variable {p chunk : AdvertisedPeer}

theorem prefixes_chunk (p : AdvertisedPeer) (part : Nat) :
    (p.chunk part).prefixes = (p.prefixes.drop (part * 16)).take 16 := by
  unfold AdvertisedPeer.chunk
  dsimp only
  split_ifs with hsome
  · simp only [PEER_TABLE_MAX_PREFIXES, List.extract_eq_take_drop]
    rw [List.take_eq_take_iff, List.length_drop]
    omega
  · simp only [PEER_TABLE_MAX_PREFIXES] at hsome
    rw [List.drop_of_length_le (by omega), List.take_nil]

theorem partCount_le (p : AdvertisedPeer) : p.prefixes.length ≤ p.partCount * 16 := by
  simp only [partCount, PEER_TABLE_MAX_PREFIXES]
  omega

theorem chunks_ne_nil (p : AdvertisedPeer) : p.chunks ≠ [] := by
  have hpos : p.partCount ≠ 0 := by
    simp only [partCount]
    omega
  simpa [chunks] using hpos

theorem flatMap_prefixes_chunks (p : AdvertisedPeer) : p.chunks.flatMap (·.prefixes) = p.prefixes := by
  have hslices : p.chunks.map (·.prefixes) = Packing.slices 16 p.partCount p.prefixes := by
    rw [chunks, List.map_map]
    exact List.map_congr_left fun part _ => prefixes_chunk p part
  rw [List.flatMap_def, hslices, Packing.flatten_slices, List.take_of_length_le p.partCount_le]

theorem length_prefixes_chunk (p : AdvertisedPeer) (part : Nat) :
    (p.chunk part).prefixes.length = min 16 (p.prefixes.length - part * 16) := by
  rw [prefixes_chunk, List.length_take, List.length_drop]

theorem mem_chunks (h : chunk ∈ p.chunks) :
    chunk = { p with prefixes := chunk.prefixes } ∧ chunk.prefixes.length ≤ 16 := by
  obtain ⟨part, -, rfl⟩ := List.mem_map.mp h
  refine ⟨rfl, ?_⟩
  rw [prefixes_chunk]
  exact List.length_take_le _ _

end AdvertisedPeer

/-! ### Batching is packing -/

namespace GossipUpdate

/-- The update is sent: its path is within the limit, and each of its chunks fits on its own. -/
def included (maxPayloadBytes : Nat) (update : GossipUpdate) : Bool :=
  update.peer.path.length ≤ PEER_TABLE_MAX_PATH_HOPS &&
    update.peer.chunks.all fun chunk => fitsPayload maxPayloadBytes [chunk]

/-- The chunks of an update, the last with the revision it completes. -/
def tagged (update : GossipUpdate) : List (AdvertisedPeer × Option (NodeId × UInt64)) :=
  update.peer.chunks.zipIdx.map fun (chunk, part) =>
    (chunk, if part + 1 = update.peer.chunks.length then some (update.peer.nodeId, update.revision) else none)

theorem tagged_eq (update : GossipUpdate) :
    ∃ front last, update.peer.chunks = front ++ [last] ∧
      update.tagged = front.map (·, none) ++ [(last, some (update.peer.nodeId, update.revision))] := by
  have hchunks := (List.dropLast_concat_getLast update.peer.chunks_ne_nil).symm
  generalize update.peer.chunks.dropLast = front, update.peer.chunks.getLast _ = last at hchunks
  refine ⟨front, last, hchunks, ?_⟩
  have hlength : update.peer.chunks.length = front.length + 1 := by rw [hchunks, List.length_append]; rfl
  rw [tagged, hlength, hchunks, List.zipIdx_append, List.map_append]
  congr 1
  · -- no part before the last is marked
    rw [← List.zipIdx_map_fst 0 front, List.map_map, List.zipIdx_map_fst]
    refine List.map_congr_left fun item hitem => ?_
    have hpart := List.snd_lt_of_mem_zipIdx hitem
    simp only [Function.comp_apply, Prod.mk.injEq, true_and]
    rw [if_neg (by omega)]
  · simp

theorem map_fst_tagged (update : GossipUpdate) : update.tagged.map Prod.fst = update.peer.chunks := by
  obtain ⟨front, last, hchunks, htagged⟩ := update.tagged_eq
  rw [htagged, hchunks, List.map_append, List.map_map]
  exact congrArg (· ++ [last]) (List.map_id front)

theorem filterMap_snd_tagged (update : GossipUpdate) :
    update.tagged.filterMap Prod.snd = [(update.peer.nodeId, update.revision)] := by
  obtain ⟨front, last, -, htagged⟩ := update.tagged_eq
  rw [htagged]
  simp [List.filterMap_append]

end GossipUpdate

/-- A chunk and the revision it completes. -/
abbrev TaggedChunk := AdvertisedPeer × Option (NodeId × UInt64)

def batchOf (items : List TaggedChunk) : GossipBatch := ⟨items.map Prod.fst, items.filterMap Prod.snd⟩

/-- The chunks serialize within the budget. -/
def chunksFit (maxPayloadBytes : Nat) (items : List TaggedChunk) : Bool :=
  fitsPayload maxPayloadBytes (items.map Prod.fst)

namespace Batching

open Packing (Packer)

/-- The variables of the function, for a packer of tagged chunks. -/
def ofPacker (s : Packer TaggedChunk) : Batching := ⟨s.packed.map batchOf, batchOf s.current⟩

variable {maxPayloadBytes : Nat} (s : Packer TaggedChunk)

theorem flush_ofPacker : (ofPacker s).flush = ofPacker s.flush := by
  unfold Batching.flush Packer.flush
  have hempty : (ofPacker s).current.peers.isEmpty = s.current.isEmpty := by simp [ofPacker, batchOf]
  rw [hempty]
  split_ifs
  · rfl
  · simp [ofPacker, batchOf]

theorem append_ofPacker (item : TaggedChunk) :
    (ofPacker s).append maxPayloadBytes item.1 item.2 = ofPacker (s.add (chunksFit maxPayloadBytes) item) := by
  have hpush (t : Packer TaggedChunk) :
      { ofPacker t with current := ⟨(ofPacker t).current.peers ++ [item.1],
        (ofPacker t).current.completedRevisions ++ item.2.toList⟩ }
        = ofPacker { t with current := t.current ++ [item] } := by
    cases hitem : item.2 <;> simp [ofPacker, batchOf, List.filterMap_append, hitem]
  have hfits : fitsPayload maxPayloadBytes ((ofPacker s).current.peers ++ [item.1])
      = chunksFit maxPayloadBytes (s.current ++ [item]) := by
    simp [ofPacker, batchOf, chunksFit]
  unfold Batching.append Packer.add
  dsimp only
  rw [hfits]
  split_ifs
  · exact hpush s
  · rw [flush_ofPacker]
    exact hpush s.flush

theorem addUpdate_ofPacker (update : GossipUpdate) :
    (ofPacker s).addUpdate maxPayloadBytes update
      = ofPacker ((if update.included maxPayloadBytes then update.tagged else []).foldl
          (Packer.add (chunksFit maxPayloadBytes)) s) := by
  have hfold (items : List TaggedChunk) :
      items.foldl (fun s item => s.append maxPayloadBytes item.1 item.2) (ofPacker s)
        = ofPacker (items.foldl (Packer.add (chunksFit maxPayloadBytes)) s) := by
    induction items generalizing s with
    | nil => rfl
    | cons item items ih => rw [List.foldl_cons, append_ofPacker, ih, List.foldl_cons]
  unfold Batching.addUpdate GossipUpdate.included
  by_cases hpath : update.peer.path.length ≤ PEER_TABLE_MAX_PATH_HOPS
  · rw [if_neg (not_lt.mpr hpath), decide_eq_true hpath, Bool.true_and]
    dsimp only
    split_ifs
    · rw [← hfold, GossipUpdate.tagged, List.foldl_map]
    · rfl
  · rw [if_pos (not_le.mp hpath), decide_eq_false hpath, Bool.false_and]
    rfl

theorem foldl_addUpdate_ofPacker (updates : List GossipUpdate) :
    updates.foldl (addUpdate maxPayloadBytes) (ofPacker s)
      = ofPacker (((updates.filter (·.included maxPayloadBytes)).flatMap GossipUpdate.tagged).foldl
          (Packer.add (chunksFit maxPayloadBytes)) s) := by
  induction updates generalizing s with
  | nil => rfl
  | cons update updates ih =>
    rw [List.foldl_cons, addUpdate_ofPacker, ih, List.filter_cons]
    split_ifs
    · rw [List.flatMap_cons, List.foldl_append]
    · rfl

end Batching

theorem chunksFit_min (maxPayloadBytes : Nat) :
    chunksFit (min maxPayloadBytes PEER_TABLE_MAX_WIRE_BYTES) = chunksFit maxPayloadBytes := by
  funext items
  exact fitsPayload_min maxPayloadBytes _

theorem GossipUpdate.included_min (maxPayloadBytes : Nat) :
    GossipUpdate.included (min maxPayloadBytes PEER_TABLE_MAX_WIRE_BYTES)
      = GossipUpdate.included maxPayloadBytes := by
  funext update
  simp only [GossipUpdate.included, fitsPayload_min]

theorem GossipUpdate.fits_of_included {maxPayloadBytes : Nat} {update : GossipUpdate}
    (h : update.included maxPayloadBytes = true) :
    ∀ chunk ∈ update.peer.chunks, fitsPayload maxPayloadBytes [chunk] = true := by
  simp only [GossipUpdate.included, Bool.and_eq_true, List.all_eq_true] at h
  exact h.2

theorem GossipUpdate.included_iff {maxPayloadBytes : Nat} {update : GossipUpdate}
    (hpath : update.peer.path.length ≤ PEER_TABLE_MAX_PATH_HOPS)
    (hrecords : ∀ record ∈ update.peer.prefixes, record.encodable = true) :
    update.included maxPayloadBytes = true ↔
      70 + 32 * update.peer.path.length + 34 * min 16 update.peer.prefixes.length ≤ maxPayloadBytes := by
  have hchunk (part : Nat) : fitsPayload maxPayloadBytes [update.peer.chunk part] = true ↔
      70 + 32 * update.peer.path.length + 34 * min 16 (update.peer.prefixes.length - part * 16) ≤ maxPayloadBytes := by
    rw [fitsPayload_singleton_iff (p := update.peer.chunk part) hpath, AdvertisedPeer.length_prefixes_chunk]
    · rfl
    · rw [AdvertisedPeer.length_prefixes_chunk]
      exact Nat.min_le_left _ _
    · intro record hrecord
      rw [AdvertisedPeer.prefixes_chunk] at hrecord
      exact hrecords record (List.mem_of_mem_drop (List.mem_of_mem_take hrecord))
  simp only [GossipUpdate.included, Bool.and_eq_true, decide_eq_true_eq, hpath, true_and, AdvertisedPeer.chunks,
    List.all_map, List.all_eq_true, Function.comp_apply, List.mem_range, hchunk]
  constructor
  · intro hall
    have hpos : 0 < update.peer.partCount := by
      simp only [AdvertisedPeer.partCount]
      omega
    simpa using hall 0 hpos
  · intro hfirst part _
    omega

/-- The batches are those of a greedy packer, on the chunks of the included updates. -/
theorem makeGossipBatches_eq (updates : List GossipUpdate) (maxPayloadBytes : Nat) :
    makeGossipBatches updates maxPayloadBytes
      = (Packing.pack (chunksFit maxPayloadBytes)
          ((updates.filter (·.included maxPayloadBytes)).flatMap GossipUpdate.tagged)).map batchOf := by
  rw [← chunksFit_min, ← GossipUpdate.included_min]
  unfold makeGossipBatches
  dsimp only
  split_ifs with hsmall
  · -- no table is smaller than its head, so nothing is included
    have hnone : updates.filter (·.included (min maxPayloadBytes PEER_TABLE_MAX_WIRE_BYTES)) = [] := by
      refine List.filter_eq_nil_iff.mpr fun update _ hincluded => ?_
      obtain ⟨chunk, hchunk⟩ := List.exists_mem_of_ne_nil _ update.peer.chunks_ne_nil
      have hthree := three_le_of_fitsPayload (GossipUpdate.fits_of_included hincluded chunk hchunk)
      omega
    rw [hnone]
    rfl
  · have hstart : ({} : Batching) = Batching.ofPacker {} := rfl
    rw [hstart, Batching.foldl_addUpdate_ofPacker, Batching.flush_ofPacker]
    rfl

section Batches

variable (updates : List GossipUpdate) (maxPayloadBytes : Nat)

theorem exists_parts :
    ∃ parts : List (List TaggedChunk), makeGossipBatches updates maxPayloadBytes = parts.map batchOf ∧
      parts.flatten = (updates.filter (·.included maxPayloadBytes)).flatMap GossipUpdate.tagged ∧
      ∀ part ∈ parts, part ≠ [] ∧ chunksFit maxPayloadBytes part = true := by
  refine ⟨_, makeGossipBatches_eq updates maxPayloadBytes, Packing.pack_spec fun item hitem => ?_⟩
  obtain ⟨update, hupdate, hitem⟩ := List.mem_flatMap.mp hitem
  have hchunk : item.1 ∈ update.peer.chunks := by
    rw [← update.map_fst_tagged]
    exact List.mem_map_of_mem hitem
  exact GossipUpdate.fits_of_included (List.of_mem_filter hupdate) item.1 hchunk

theorem flatMap_peers_makeGossipBatches :
    (makeGossipBatches updates maxPayloadBytes).flatMap (·.peers)
      = (updates.filter (·.included maxPayloadBytes)).flatMap (·.peer.chunks) := by
  obtain ⟨parts, hbatches, hflatten, -⟩ := exists_parts updates maxPayloadBytes
  calc (makeGossipBatches updates maxPayloadBytes).flatMap (·.peers)
      = (parts.map fun part => part.map Prod.fst).flatten := by
        rw [hbatches, List.flatMap_map]
        rfl
    _ = parts.flatten.map Prod.fst := List.map_flatten.symm
    _ = (updates.filter (·.included maxPayloadBytes)).flatMap (·.peer.chunks) := by
        rw [hflatten, List.map_flatMap]
        simp only [GossipUpdate.map_fst_tagged]

theorem flatMap_completedRevisions_makeGossipBatches :
    (makeGossipBatches updates maxPayloadBytes).flatMap (·.completedRevisions)
      = (updates.filter (·.included maxPayloadBytes)).map fun update => (update.peer.nodeId, update.revision) := by
  obtain ⟨parts, hbatches, hflatten, -⟩ := exists_parts updates maxPayloadBytes
  calc (makeGossipBatches updates maxPayloadBytes).flatMap (·.completedRevisions)
      = (parts.map fun part => part.filterMap Prod.snd).flatten := by
        rw [hbatches, List.flatMap_map]
        rfl
    _ = parts.flatten.filterMap Prod.snd := List.filterMap_flatten.symm
    _ = (updates.filter (·.included maxPayloadBytes)).map fun update => (update.peer.nodeId, update.revision) := by
        rw [hflatten, List.filterMap_flatMap, List.map_eq_flatMap]
        simp only [GossipUpdate.filterMap_snd_tagged]

/-- Gossip batches are sound. Each serializes within the budget and the limit of the format. In a row they hold the
chunks of the included updates in order, which carry each update's prefixes in order, and complete the revision of
each included update once; `tagged` says with which chunk. Nothing else is in them. -/
theorem gossip_batches_sound (updates : List GossipUpdate) (maxPayloadBytes : Nat) :
    let batches := makeGossipBatches updates maxPayloadBytes
    let included := updates.filter (·.included maxPayloadBytes)
    (∀ batch ∈ batches, ∃ encoded, serializePeerTable batch.peers = some encoded ∧
      encoded.length ≤ maxPayloadBytes ∧ encoded.length ≤ 60 * 1024) ∧
    batches.flatMap (·.peers) = included.flatMap (·.peer.chunks) ∧
    batches.flatMap (·.completedRevisions) = included.map (fun update => (update.peer.nodeId, update.revision)) ∧
    (∃ parts : List (List TaggedChunk), batches = parts.map batchOf ∧
      parts.flatten = included.flatMap GossipUpdate.tagged ∧ ∀ part ∈ parts, part ≠ []) ∧
    ∀ update ∈ included, update.peer.chunks.flatMap (·.prefixes) = update.peer.prefixes ∧
      ∀ chunk ∈ update.peer.chunks, chunk = { update.peer with prefixes := chunk.prefixes } ∧
        chunk.prefixes.length ≤ 16 := by
  intro batches included
  obtain ⟨parts, hbatches, hflatten, hparts⟩ := exists_parts updates maxPayloadBytes
  refine ⟨fun batch hbatch => ?_, flatMap_peers_makeGossipBatches updates maxPayloadBytes,
    flatMap_completedRevisions_makeGossipBatches updates maxPayloadBytes,
    ⟨parts, hbatches, hflatten, fun part hpart => (hparts part hpart).1⟩, fun update _ => ?_⟩
  · rw [show batches = _ from hbatches] at hbatch
    obtain ⟨part, hpart, rfl⟩ := List.mem_map.mp hbatch
    obtain ⟨encoded, hencoded, hsize⟩ := fitsPayload_iff.mp (hparts part hpart).2
    exact ⟨encoded, hencoded, hsize, (serializePeerTable_eq_some hencoded).2.1⟩
  · exact ⟨update.peer.flatMap_prefixes_chunks, fun chunk hchunk => AdvertisedPeer.mem_chunks hchunk⟩

variable {updates maxPayloadBytes} {update : GossipUpdate}

theorem includes_of_included (hmem : update ∈ updates) (h : update.included maxPayloadBytes = true) :
    (∃ before after, (makeGossipBatches updates maxPayloadBytes).flatMap (·.peers)
      = before ++ update.peer.chunks ++ after) ∧
    (update.peer.nodeId, update.revision)
      ∈ (makeGossipBatches updates maxPayloadBytes).flatMap (·.completedRevisions) := by
  have hfilter : update ∈ updates.filter (·.included maxPayloadBytes) := List.mem_filter.mpr ⟨hmem, h⟩
  constructor
  · obtain ⟨first, rest, hsplit⟩ := List.append_of_mem hfilter
    refine ⟨first.flatMap (·.peer.chunks), rest.flatMap (·.peer.chunks), ?_⟩
    rw [flatMap_peers_makeGossipBatches, hsplit, List.flatMap_append, List.flatMap_cons, List.append_assoc]
  · rw [flatMap_completedRevisions_makeGossipBatches]
    exact List.mem_map_of_mem hfilter

theorem makeGossipBatches_of_excluded (h : update.included maxPayloadBytes = false) :
    makeGossipBatches updates maxPayloadBytes
      = makeGossipBatches (updates.filter fun other => other ≠ update) maxPayloadBytes := by
  rw [makeGossipBatches_eq, makeGossipBatches_eq, List.filter_filter]
  congr 3
  refine List.filter_congr fun other _ => ?_
  by_cases hother : other = update
  · rw [hother, h, Bool.false_and]
  · rw [decide_eq_true hother, Bool.and_true]

end Batches

end Aegis
