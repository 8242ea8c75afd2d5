import Aegis.Lib.SortedMap
import Aegis.File.Tracker

/-!
# The receiving side of a file transfer

`Tunnel::handle_file_header_frame` and its neighbours, from the decoded message on: the table of incoming
transfers, the part files they write and the commit that verifies a part file and renames it. Frames that do
not decrypt or decode never get here. Which operations on files fail is up to the environment (`DiskFaults`),
and so is what a failed write leaves in the file; a write that reports success has taken place.
-/

namespace Aegis

/-- Files and their contents, by path. -/
abbrev Disk := SortedMap (List UInt8) (List UInt8)

/-- The outcomes of the file operations of one call. -/
structure DiskFaults where
  /-- The part file cannot be created. -/
  create : Bool := false
  /-- The part file cannot be opened for writing. -/
  opening : Bool := false
  /-- The write fails and leaves this content. -/
  write : Option (List UInt8) := none
  /-- The size of the part file cannot be read. -/
  size : Bool := false
  /-- The part file cannot be hashed. -/
  hash : Bool := false
  /-- The part file cannot be renamed. -/
  rename : Bool := false

/-- The content after `bytes` are written at `offset`; a gap reads as zeros. -/
def overwrite (content : List UInt8) (offset : Nat) (bytes : List UInt8) : List UInt8 :=
  (content ++ List.replicate (offset - content.length) 0).take offset ++ bytes ++
    content.drop (offset + bytes.length)

inductive FileCommitResult where
  | committed
  | ioError
  | sizeMismatch
  | digestMismatch
  | renameFailed
deriving DecidableEq

/-- `verify_and_commit_file`: the disk, the result, and what was published. -/
def verifyAndCommitFile (sha256 : List UInt8 → CryptoHash) (faults : DiskFaults) (disk : Disk)
    (partPath finalPath : List UInt8) (expectedSize : Nat) (expectedHash : CryptoHash) :
    Disk × FileCommitResult × Option (List UInt8) :=
  match disk.find? partPath with
  | none => (disk, .ioError, none)
  | some content =>
    if faults.size then (disk, .ioError, none)
    else if content.length ≠ expectedSize then (disk, .sizeMismatch, none)
    else if faults.hash then (disk, .ioError, none)
    else if sha256 content ≠ expectedHash then (disk, .digestMismatch, none)
    else if faults.rename then (disk, .renameFailed, none)
    else ((disk.erase partPath).insert finalPath content, .committed, some content)

structure IncomingFileTransfer where
  filename : List UInt8
  fileSize : Nat
  chunkSize : Nat
  totalChunks : Nat
  contentHash : CryptoHash
  outputPath : List UInt8
  finalPath : List UInt8
  chunks : FileChunkTracker
  completionReported : Bool := false
  lastActivity : Time

/-- The header the transfer was announced with. -/
def IncomingFileTransfer.header (transfer : IncomingFileTransfer) (transferId : UInt64) : FileTransferHeader :=
  ⟨transferId, transfer.fileSize, transfer.chunkSize, transfer.totalChunks, transfer.contentHash,
    transfer.filename⟩

/-- What a tunnel holds of the files it receives. -/
structure FileReceiver where
  overlayMtu : Nat
  incoming : SortedMap FileTransferKey IncomingFileTransfer := ∅
  disk : Disk := ∅

inductive FileReply where
  | ack (ack : FileTransferAck)
  | cancel (cancel : FileTransferCancel)
deriving DecidableEq

/-- A file that was published under a transfer. -/
structure Published where
  key : FileTransferKey
  content : List UInt8
deriving DecidableEq

/-- The directory files are received in, `./downloads/`. -/
def DOWNLOADS : List UInt8 := [46, 47, 100, 111, 119, 110, 108, 111, 97, 100, 115, 47]

namespace FileReceiver

/-- The unfinished transfers that count against the quotas. -/
def reservations (receiver : FileReceiver) : List (FileTransferKey × IncomingFileTransfer) :=
  receiver.incoming.entries.filter fun entry => !entry.2.completionReported

/-- The quotas have room for a file of this size from the peer. -/
def admits (receiver : FileReceiver) (peerId : NodeId) (fileSize : Nat) : Bool :=
  let active := receiver.reservations
  let own := active.filter fun entry => entry.1.sender = peerId
  fileTransferAdmissionAllowed own.length (own.map fun entry => entry.2.fileSize).sum active.length
    (active.map fun entry => entry.2.fileSize).sum fileSize

/-- The table entry of a new transfer. -/
def announce (header : FileTransferHeader) (outputPath finalPath : List UInt8) (now : Time) :
    Option IncomingFileTransfer :=
  (FileChunkTracker.reset header.totalChunks).map fun chunks =>
    { filename := header.filename
      fileSize := header.fileSize
      chunkSize := header.chunkSize
      totalChunks := header.totalChunks
      contentHash := header.contentHash
      outputPath := outputPath
      finalPath := finalPath
      chunks := chunks
      lastActivity := now }

/-- The part of the header handler for a transfer that is not in the table. -/
def openTransfer (receiver : FileReceiver) (faults : DiskFaults) (now : Time) (peerId : NodeId)
    (header : FileTransferHeader) : FileReceiver × Option FileReply :=
  let outPath := DOWNLOADS ++ fileTransferPartName peerId header.transferId
  if !receiver.admits peerId header.fileSize then
    (receiver, some (.cancel ⟨header.transferId, .capacity⟩))
  else if faults.create then (receiver, none)
  else
    let created := { receiver with disk := receiver.disk.insert outPath [] }
    match announce header outPath (DOWNLOADS ++ header.filename) now with
    | none => (created, none)
    | some transfer =>
      ({ created with incoming := created.incoming.insert ⟨peerId, header.transferId⟩ transfer },
        some (.ack ⟨header.transferId, true, []⟩))

def handleFileHeader (receiver : FileReceiver) (faults : DiskFaults) (now : Time) (peerId : NodeId)
    (header : FileTransferHeader) : FileReceiver × Option FileReply :=
  match isValidFileHeader header, fileChunkSizeForOverlayMtu receiver.overlayMtu with
  | true, some localChunkSize =>
    if localChunkSize < header.chunkSize then (receiver, none)
    else
      match receiver.incoming.find? ⟨peerId, header.transferId⟩ with
      | some transfer =>
        if transfer.header header.transferId ≠ header then (receiver, none)
        else
          ({ receiver with
              incoming := receiver.incoming.insert ⟨peerId, header.transferId⟩
                { transfer with lastActivity := now } },
            some (.ack ⟨header.transferId, true, transfer.chunks.acknowledgedRanges none FILE_ACK_MAX_RANGES⟩))
      | none => receiver.openTransfer faults now peerId header
  | _, _ => (receiver, none)

/-- Write a chunk that is not there yet and record it; nothing if the file cannot be written. -/
def storeChunk (faults : DiskFaults) (disk : Disk) (transfer : IncomingFileTransfer)
    (chunk : FileTransferChunk) : Disk × Option IncomingFileTransfer :=
  if Bitmap.get transfer.chunks.received chunk.chunkIndex then (disk, some transfer)
  else
    match disk.find? transfer.outputPath with
    | none => (disk, none)
    | some content =>
      if faults.opening then (disk, none)
      else
        match faults.write with
        | some content => (disk.insert transfer.outputPath content, none)
        | none =>
          let disk := disk.insert transfer.outputPath
            (overwrite content (chunk.chunkIndex * transfer.chunkSize) chunk.data)
          match transfer.chunks.record chunk.chunkIndex with
          | (chunks, .accepted) => (disk, some { transfer with chunks := chunks })
          | (_, _) => (disk, none)

/-- Commit a transfer whose last chunk has arrived; if that fails, the chunk is not received after all. -/
def finishTransfer (sha256 : List UInt8 → CryptoHash) (faults : DiskFaults) (disk : Disk)
    (transfer : IncomingFileTransfer) (chunkIndex : Nat) : Disk × IncomingFileTransfer × Option (List UInt8) :=
  if transfer.chunks.complete && !transfer.completionReported then
    match verifyAndCommitFile sha256 faults disk transfer.outputPath transfer.finalPath transfer.fileSize
        transfer.contentHash with
    | (disk, .committed, content) => (disk, { transfer with completionReported := true }, content)
    | (disk, _, _) => (disk, { transfer with chunks := (transfer.chunks.remove chunkIndex).1 }, none)
  else (disk, transfer, none)

def handleFileChunk (sha256 : List UInt8 → CryptoHash) (receiver : FileReceiver) (faults : DiskFaults)
    (now : Time) (peerId : NodeId) (chunk : FileTransferChunk) :
    FileReceiver × Option FileReply × List Published :=
  let key : FileTransferKey := ⟨peerId, chunk.transferId⟩
  match receiver.incoming.find? key with
  | none => (receiver, none, [])
  | some transfer =>
    if !isValidFileChunkForHeader (transfer.header chunk.transferId) chunk then (receiver, none, [])
    else
      let transfer := { transfer with lastActivity := now }
      match storeChunk faults receiver.disk transfer chunk with
      | (disk, none) =>
        ({ receiver with disk := disk, incoming := receiver.incoming.insert key transfer }, none, [])
      | (disk, some transfer) =>
        match finishTransfer sha256 faults disk transfer chunk.chunkIndex with
        | (disk, transfer, published) =>
          ({ receiver with disk := disk, incoming := receiver.incoming.insert key transfer },
            some (.ack ⟨chunk.transferId, true,
              transfer.chunks.acknowledgedRanges (some chunk.chunkIndex) FILE_ACK_MAX_RANGES⟩),
            published.toList.map fun content => ⟨key, content⟩)

/-- The receiving half of `handle_file_cancel_frame`. -/
def handleFileCancel (receiver : FileReceiver) (key : FileTransferKey) : FileReceiver :=
  match receiver.incoming.find? key with
  | none => receiver
  | some transfer =>
    { receiver with
      incoming := receiver.incoming.erase key
      disk := if transfer.completionReported then receiver.disk else receiver.disk.erase transfer.outputPath }

/-- The part files of the transfers that are idle and not finished. -/
def expiredParts (receiver : FileReceiver) (now : Time) : List (List UInt8) :=
  (receiver.reservations.filter fun entry => fileTransferIdleExpired entry.2.lastActivity now).map
    fun entry => entry.2.outputPath

def expireFileTransfers (receiver : FileReceiver) (now : Time) : FileReceiver :=
  { receiver with
    incoming := receiver.incoming.filter fun _ transfer => !fileTransferIdleExpired transfer.lastActivity now
    disk := (receiver.expiredParts now).foldl SortedMap.erase receiver.disk }

/-! ### What the table of transfers guarantees -/

/-- An entry of the table: its tracker is in order, and at rest it is complete only if its file has been
published, with the size and the digest announced. -/
structure EntryOk (sha256 : List UInt8 → CryptoHash) (published : List Published) (key : FileTransferKey)
    (transfer : IncomingFileTransfer) : Prop where
  tracker : transfer.chunks.WellFormed
  length : transfer.chunks.received.length = transfer.totalChunks
  reported : transfer.chunks.complete = true → transfer.completionReported = true
  published : transfer.completionReported = true →
    ∃ content, ⟨key, content⟩ ∈ published ∧ sha256 content = transfer.contentHash ∧
      content.length = transfer.fileSize

def Consistent (sha256 : List UInt8 → CryptoHash) (published : List Published) (receiver : FileReceiver) : Prop :=
  ∀ key transfer, receiver.incoming.find? key = some transfer → EntryOk sha256 published key transfer

/-- The transfer under `key` is still there, as announced, with every chunk it had. -/
def Keeps (key : FileTransferKey) (receiver receiver' : FileReceiver) : Prop :=
  ∀ transfer, receiver.incoming.find? key = some transfer →
    ∃ transfer', receiver'.incoming.find? key = some transfer' ∧
      transfer'.header key.transferId = transfer.header key.transferId ∧
      ∀ i, Bitmap.get transfer.chunks.received i = true → Bitmap.get transfer'.chunks.received i = true

/-- Chunk `i` of the transfer under `key` is recorded. -/
def Recorded (receiver : FileReceiver) (key : FileTransferKey) (i : Nat) : Prop :=
  ∃ transfer, receiver.incoming.find? key = some transfer ∧ Bitmap.get transfer.chunks.received i = true

variable {sha256 : List UInt8 → CryptoHash} {published published' : List Published} {key : FileTransferKey}
  {transfer : IncomingFileTransfer} {receiver receiver' : FileReceiver} {faults : DiskFaults} {now : Time}
  {peerId : NodeId}

theorem EntryOk.mono (h : EntryOk sha256 published key transfer) (hsub : published ⊆ published') :
    EntryOk sha256 published' key transfer := by
  refine ⟨h.tracker, h.length, h.reported, fun hreported => ?_⟩
  obtain ⟨content, hmem, hhash, hsize⟩ := h.published hreported
  exact ⟨content, hsub hmem, hhash, hsize⟩

theorem Keeps.recorded (h : Keeps key receiver receiver') {i : Nat} (hi : receiver.Recorded key i) :
    receiver'.Recorded key i := by
  obtain ⟨transfer, hfind, hget⟩ := hi
  obtain ⟨transfer', hfind', -, hmono⟩ := h transfer hfind
  exact ⟨transfer', hfind', hmono i hget⟩

variable {transfer' : IncomingFileTransfer}

theorem keeps_insert {target : FileTransferKey}
    (hincoming : receiver'.incoming = receiver.incoming.insert target transfer')
    (h : ∀ transfer, receiver.incoming.find? target = some transfer →
      transfer'.header target.transferId = transfer.header target.transferId ∧
        ∀ i, Bitmap.get transfer.chunks.received i = true → Bitmap.get transfer'.chunks.received i = true)
    (key : FileTransferKey) : Keeps key receiver receiver' := by
  intro transfer hfind
  rw [hincoming, SortedMap.find?_insert]
  by_cases hkey : key = target
  · subst hkey
    obtain ⟨hheader, hmono⟩ := h transfer hfind
    exact ⟨transfer', by simp, hheader, hmono⟩
  · exact ⟨transfer, by simp [hkey, hfind], rfl, fun _ hi => hi⟩

theorem Consistent.insert {target : FileTransferKey} (h : Consistent sha256 published receiver)
    (hincoming : receiver'.incoming = receiver.incoming.insert target transfer') (hsub : published ⊆ published')
    (hentry : EntryOk sha256 published' target transfer') : Consistent sha256 published' receiver' := by
  intro key transfer hfind
  rw [hincoming] at hfind
  rcases SortedMap.find?_insert_eq_some_iff.mp hfind with ⟨rfl, rfl⟩ | ⟨-, hfind⟩
  · exact hentry
  · exact (h key transfer hfind).mono hsub

/-! ### Headers -/

theorem EntryOk.announce (sha256 : List UInt8 → CryptoHash) (published : List Published)
    (key : FileTransferKey) {header : FileTransferHeader} {outputPath finalPath : List UInt8}
    (hvalid : isValidFileHeader header = true)
    (h : FileReceiver.announce header outputPath finalPath now = some transfer) :
    EntryOk sha256 published key transfer ∧ transfer.header header.transferId = header := by
  obtain ⟨chunks, hreset, rfl⟩ := Option.map_eq_some_iff.mp h
  obtain ⟨hwf, hflags⟩ := FileChunkTracker.reset_wellFormed hreset
  have hpos := (totalChunks_bounds hvalid).1
  refine ⟨⟨hwf, by simp [hflags], fun hcomplete => ?_, by simp⟩, rfl⟩
  have hall := (hwf.complete_iff (by simpa [hflags] using hpos)).mp hcomplete 0 (by simpa [hflags] using hpos)
  simp [hflags] at hall

/-- What a header can do: nothing to the table, a touch of the transfer it announced before, or a new
transfer. -/
theorem handleFileHeader_cases (receiver : FileReceiver) (faults : DiskFaults) (now : Time) (peerId : NodeId)
    (header : FileTransferHeader) :
    ((receiver.handleFileHeader faults now peerId header).1.incoming = receiver.incoming ∧
      ∀ ack, (receiver.handleFileHeader faults now peerId header).2 ≠ some (.ack ack)) ∨
    (∃ transfer, receiver.incoming.find? ⟨peerId, header.transferId⟩ = some transfer ∧
      transfer.header header.transferId = header ∧
      (receiver.handleFileHeader faults now peerId header).1.incoming
        = receiver.incoming.insert ⟨peerId, header.transferId⟩ { transfer with lastActivity := now } ∧
      (receiver.handleFileHeader faults now peerId header).2
        = some (.ack ⟨header.transferId, true,
            transfer.chunks.acknowledgedRanges none FILE_ACK_MAX_RANGES⟩)) ∨
    (∃ transfer, receiver.incoming.find? ⟨peerId, header.transferId⟩ = none ∧
      isValidFileHeader header = true ∧ receiver.admits peerId header.fileSize = true ∧
      announce header (DOWNLOADS ++ fileTransferPartName peerId header.transferId)
        (DOWNLOADS ++ header.filename) now = some transfer ∧
      (receiver.handleFileHeader faults now peerId header).1.incoming
        = receiver.incoming.insert ⟨peerId, header.transferId⟩ transfer ∧
      (receiver.handleFileHeader faults now peerId header).2 = some (.ack ⟨header.transferId, true, []⟩)) := by
  unfold handleFileHeader
  cases hvalid : isValidFileHeader header with
  | false => exact Or.inl ⟨rfl, by simp⟩
  | true =>
    cases fileChunkSizeForOverlayMtu receiver.overlayMtu with
    | none => exact Or.inl ⟨rfl, by simp⟩
    | some localChunkSize =>
      simp only
      by_cases hlarge : localChunkSize < header.chunkSize
      · exact Or.inl (by simp [hlarge])
      · simp only [hlarge, if_false]
        cases hfind : receiver.incoming.find? ⟨peerId, header.transferId⟩ with
        | some transfer =>
          by_cases hsame : transfer.header header.transferId = header
          · exact Or.inr (Or.inl ⟨transfer, rfl, hsame, by simp [hsame], by simp [hsame]⟩)
          · exact Or.inl (by simp [hsame])
        | none =>
          unfold openTransfer
          simp only
          by_cases hadmits : receiver.admits peerId header.fileSize = true
          · cases hcreate : faults.create with
            | true => exact Or.inl (by simp [hadmits])
            | false =>
              cases hannounce : announce header (DOWNLOADS ++ fileTransferPartName peerId header.transferId)
                  (DOWNLOADS ++ header.filename) now with
              | none => exact Or.inl (by simp [hadmits])
              | some transfer =>
                exact Or.inr (Or.inr ⟨transfer, trivial, trivial, hadmits, rfl, by simp [hadmits], by simp [hadmits]⟩)
          · exact Or.inl (by simp [hadmits])

/-! ### Chunks -/

/-- A commit that reports success publishes a file of the announced size and digest. -/
theorem verifyAndCommitFile_committed {disk disk' : Disk} {partPath finalPath : List UInt8}
    {expectedSize : Nat} {expectedHash : CryptoHash} {content : Option (List UInt8)}
    (h : verifyAndCommitFile sha256 faults disk partPath finalPath expectedSize expectedHash
      = (disk', .committed, content)) :
    ∃ bytes, content = some bytes ∧ sha256 bytes = expectedHash ∧ bytes.length = expectedSize := by
  unfold verifyAndCommitFile at h
  cases hfind : disk.find? partPath with
  | none => simp [hfind] at h
  | some bytes =>
    simp only [hfind] at h
    split_ifs at h with hsize hlength hhash hdigest hrename <;> simp at h
    exact ⟨bytes, h.2.symm, by simpa using hdigest, by simpa using hlength⟩

theorem storeChunk_some {disk disk' : Disk} {chunk : FileTransferChunk}
    (h : storeChunk faults disk transfer chunk = (disk', some transfer')) :
    (Bitmap.get transfer.chunks.received chunk.chunkIndex = true ∧ transfer' = transfer) ∨
      (Bitmap.get transfer.chunks.received chunk.chunkIndex = false ∧
        chunk.chunkIndex < transfer.chunks.received.length ∧
        transfer' = { transfer with chunks := (transfer.chunks.record chunk.chunkIndex).1 }) := by
  unfold storeChunk at h
  cases hthere : Bitmap.get transfer.chunks.received chunk.chunkIndex with
  | true =>
    rw [if_pos hthere] at h
    exact Or.inl ⟨rfl, (Option.some.inj (Prod.mk.inj h).2).symm⟩
  | false =>
    right
    rw [if_neg (by simp [hthere])] at h
    cases hfind : disk.find? transfer.outputPath with
    | none => simp [hfind] at h
    | some content =>
      cases hopen : faults.opening with
      | true => simp [hfind, hopen] at h
      | false =>
        cases hwrite : faults.write with
        | some left => simp [hfind, hopen, hwrite] at h
        | none =>
          simp only [hfind, hopen, hwrite, Bool.false_eq_true, if_false] at h
          by_cases hlt : chunk.chunkIndex < transfer.chunks.received.length
          · rw [FileChunkTracker.record_of_missing hlt hthere] at h ⊢
            exact ⟨rfl, hlt, (Option.some.inj (Prod.mk.inj h).2).symm⟩
          · simp [FileChunkTracker.record, not_lt.mp hlt] at h

theorem remove_record {tracker : FileChunkTracker} {chunkIndex : Nat}
    (hlt : chunkIndex < tracker.received.length) (hmissing : Bitmap.get tracker.received chunkIndex = false) :
    ((tracker.record chunkIndex).1.remove chunkIndex).1.received = tracker.received := by
  rw [FileChunkTracker.record_of_missing hlt hmissing]
  have hset : Bitmap.get (tracker.received.set chunkIndex true) chunkIndex = true := by
    simp [Bitmap.get_set, hlt]
  have hflag : tracker.received[chunkIndex] = false := by
    simpa [Bitmap.get, List.getD, hlt] using hmissing
  simp only [FileChunkTracker.remove, hset, Bool.not_true, Bool.false_eq_true, if_false, List.set_set]
  rw [← hflag, List.set_getElem_self]

/-- The commit step after a missing chunk was recorded: the entry is in order again, and if the commit
failed its chunks are those it had before. -/
theorem finishTransfer_spec {disk disk' : Disk} {content : Option (List UInt8)} {chunkIndex : Nat}
    (hentry : EntryOk sha256 published key transfer) (hlt : chunkIndex < transfer.chunks.received.length)
    (hmissing : Bitmap.get transfer.chunks.received chunkIndex = false)
    (h : finishTransfer sha256 faults disk { transfer with chunks := (transfer.chunks.record chunkIndex).1 }
      chunkIndex = (disk', transfer', content)) :
    EntryOk sha256 (published ++ content.toList.map fun bytes => ⟨key, bytes⟩) key transfer' ∧
      transfer'.header key.transferId = transfer.header key.transferId ∧
      ∀ i, Bitmap.get transfer.chunks.received i = true → Bitmap.get transfer'.chunks.received i = true := by
  have hwf := hentry.tracker.record chunkIndex
  have hflags : (transfer.chunks.record chunkIndex).1.received = transfer.chunks.received.set chunkIndex true := by
    rw [FileChunkTracker.record_of_missing hlt hmissing]
  have hmono (i : Nat) (hi : Bitmap.get transfer.chunks.received i = true) :
      Bitmap.get (transfer.chunks.record chunkIndex).1.received i = true := by
    rw [hflags, Bitmap.get_set]
    split_ifs
    · rfl
    · exact hi
  have hlength : (transfer.chunks.record chunkIndex).1.received.length = transfer.totalChunks := by
    rw [hflags, List.length_set]
    exact hentry.length
  unfold finishTransfer at h
  simp only at h
  split_ifs at h with hcommit
  · generalize hresult : verifyAndCommitFile sha256 faults disk transfer.outputPath transfer.finalPath
      transfer.fileSize transfer.contentHash = result at h
    obtain ⟨disk'', result, bytes⟩ := result
    by_cases hcommitted : result = .committed
    · subst hcommitted
      obtain ⟨bytes, rfl, hhash, hsize⟩ := verifyAndCommitFile_committed hresult
      obtain ⟨-, rfl, rfl⟩ : disk'' = disk' ∧ _ = transfer' ∧ some bytes = content := by simpa using h
      exact ⟨⟨hwf, hlength, fun _ => rfl, fun _ => ⟨bytes, by simp, hhash, hsize⟩⟩, rfl, hmono⟩
    · obtain ⟨rfl, rfl⟩ : { transfer with chunks := ((transfer.chunks.record chunkIndex).1.remove chunkIndex).1 }
          = transfer' ∧ none = content := by
        cases result <;> simp_all
      have hsame := remove_record hlt hmissing
      have hwf' := hwf.remove chunkIndex
      refine ⟨⟨hwf', by rw [hsame]; exact hentry.length, fun hcomplete => ?_, fun hreported => ?_⟩, rfl,
        fun i hi => by rw [hsame]; exact hi⟩
      · have hall := (hwf'.complete_iff (by rw [hsame]; omega)).mp hcomplete chunkIndex (by rw [hsame]; exact hlt)
        rw [hsame, hmissing] at hall
        exact absurd hall (by simp)
      · simp only [Bool.and_eq_true, Bool.not_eq_true'] at hcommit
        exact absurd (hcommit.2.symm.trans hreported) (by simp)
  · obtain ⟨-, rfl, rfl⟩ : disk = disk' ∧ _ = transfer' ∧ none = content := by simpa using h
    refine ⟨⟨hwf, hlength, fun hcomplete => ?_, fun hreported => ?_⟩, rfl, hmono⟩
    · simp only [hcomplete, Bool.true_and, Bool.not_eq_true, Bool.not_eq_false'] at hcommit
      exact hcommit
    · simpa using hentry.published hreported

/-- A header keeps the table in order and every chunk recorded; the transfer it opens is the one it
announces, and it acknowledges recorded chunks. -/
theorem handleFileHeader_spec (h : Consistent sha256 published receiver) (faults : DiskFaults) (now : Time)
    (peerId : NodeId) (header : FileTransferHeader) :
    let result := receiver.handleFileHeader faults now peerId header
    Consistent sha256 published result.1 ∧ (∀ key, Keeps key receiver result.1) ∧
      (∀ key transfer', result.1.incoming.find? key = some transfer' →
        (∃ transfer, receiver.incoming.find? key = some transfer ∧
          transfer'.header key.transferId = transfer.header key.transferId) ∨
        (key = ⟨peerId, header.transferId⟩ ∧ transfer'.header key.transferId = header)) ∧
      ∀ ack, result.2 = some (.ack ack) → ∀ range ∈ ack.ranges, ∀ i, range.Holds i →
        result.1.Recorded ⟨peerId, header.transferId⟩ i := by
  intro result
  rcases receiver.handleFileHeader_cases faults now peerId header with
    ⟨hincoming, hreply⟩ | ⟨transfer, hfind, hheader, hincoming, hreply⟩ |
    ⟨transfer, hfind, hvalid, -, hannounce, hincoming, hreply⟩
  · refine ⟨fun key t ht => h key t (hincoming ▸ ht), fun key t ht => ⟨t, ?_, rfl, fun _ hi => hi⟩,
      fun key t ht => Or.inl ⟨t, hincoming ▸ ht, rfl⟩, fun ack hack => absurd hack (hreply ack)⟩
    show result.1.incoming.find? key = some t
    rw [hincoming]
    exact ht
  · have hentry := h _ transfer hfind
    have hentry' : EntryOk sha256 published ⟨peerId, header.transferId⟩ { transfer with lastActivity := now } :=
      ⟨hentry.tracker, hentry.length, hentry.reported, hentry.published⟩
    refine ⟨h.insert hincoming (List.Subset.refl _) hentry', keeps_insert hincoming ?_, ?_, ?_⟩
    · intro t ht
      obtain rfl := Option.some.inj (hfind.symm.trans ht)
      exact ⟨rfl, fun _ hi => hi⟩
    · intro key t ht
      rw [hincoming] at ht
      rcases SortedMap.find?_insert_eq_some_iff.mp ht with ⟨rfl, rfl⟩ | ⟨-, ht⟩
      · exact Or.inl ⟨transfer, hfind, rfl⟩
      · exact Or.inl ⟨t, ht, rfl⟩
    · intro ack hack range hrange i hi
      obtain rfl : _ = ack := FileReply.ack.inj (Option.some.inj (hreply.symm.trans hack))
      refine ⟨{ transfer with lastActivity := now }, ?_, ?_⟩
      · rw [hincoming]
        simp
      · simp only at hrange
        exact FileChunkTracker.acknowledgedRanges_sound hentry.tracker hrange hi
  · obtain ⟨hentry, hheader⟩ :=
      EntryOk.announce sha256 published ⟨peerId, header.transferId⟩ hvalid hannounce
    refine ⟨h.insert hincoming (List.Subset.refl _) hentry, keeps_insert hincoming ?_, ?_, ?_⟩
    · intro t ht
      exact absurd (hfind.symm.trans ht) (by simp)
    · intro key t ht
      rw [hincoming] at ht
      rcases SortedMap.find?_insert_eq_some_iff.mp ht with ⟨rfl, rfl⟩ | ⟨-, ht⟩
      · exact Or.inr ⟨rfl, hheader⟩
      · exact Or.inl ⟨t, ht, rfl⟩
    · intro ack hack range hrange
      obtain rfl : _ = ack := FileReply.ack.inj (Option.some.inj (hreply.symm.trans hack))
      exact absurd hrange (by simp)

theorem finishTransfer_stored {disk disk' disk'' : Disk} {stored transfer' : IncomingFileTransfer}
    {content : Option (List UInt8)} {chunk : FileTransferChunk} (hentry : EntryOk sha256 published key transfer)
    (hstored : storeChunk faults disk transfer chunk = (disk', some stored))
    (hfinished : finishTransfer sha256 faults disk' stored chunk.chunkIndex = (disk'', transfer', content)) :
    EntryOk sha256 (published ++ content.toList.map fun bytes => ⟨key, bytes⟩) key transfer' ∧
      transfer'.header key.transferId = transfer.header key.transferId ∧
      ∀ i, Bitmap.get transfer.chunks.received i = true → Bitmap.get transfer'.chunks.received i = true := by
  rcases storeChunk_some hstored with ⟨hthere, rfl⟩ | ⟨hmissing, hlt, rfl⟩
  · -- a complete transfer is reported, so a chunk that is there changes nothing
    have hrest : (stored.chunks.complete && !stored.completionReported) = false := by
      cases hcomplete : stored.chunks.complete with
      | false => rfl
      | true => simp [hentry.reported hcomplete]
    unfold finishTransfer at hfinished
    simp only [hrest, Bool.false_eq_true, if_false] at hfinished
    obtain ⟨-, rfl, rfl⟩ : disk' = disk'' ∧ _ = transfer' ∧ none = content := by simpa using hfinished
    exact ⟨by simpa using hentry, rfl, fun _ hi => hi⟩
  · exact finishTransfer_spec hentry hlt hmissing hfinished

/-- A chunk changes at most its own transfer: the entry stays in order, keeps its chunks, and what is
acknowledged is recorded in it. -/
theorem handleFileChunk_cases (h : Consistent sha256 published receiver) (faults : DiskFaults) (now : Time)
    (peerId : NodeId) (chunk : FileTransferChunk) :
    let result := receiver.handleFileChunk sha256 faults now peerId chunk
    let key : FileTransferKey := ⟨peerId, chunk.transferId⟩
    (result.1.incoming = receiver.incoming ∧ result.2 = (none, [])) ∨
    ∃ transfer transfer', receiver.incoming.find? key = some transfer ∧
      result.1.incoming = receiver.incoming.insert key transfer' ∧
      EntryOk sha256 (published ++ result.2.2) key transfer' ∧
      transfer'.header key.transferId = transfer.header key.transferId ∧
      (∀ i, Bitmap.get transfer.chunks.received i = true → Bitmap.get transfer'.chunks.received i = true) ∧
      ∀ ack, result.2.1 = some (.ack ack) → ∀ range ∈ ack.ranges, ∀ i, range.Holds i →
        Bitmap.get transfer'.chunks.received i = true := by
  intro result key
  have hunfold : result = receiver.handleFileChunk sha256 faults now peerId chunk := rfl
  unfold handleFileChunk at hunfold
  cases hfind : receiver.incoming.find? key with
  | none =>
    simp only [key] at hfind
    simp only [hfind] at hunfold
    exact Or.inl ⟨by rw [hunfold], by rw [hunfold]⟩
  | some transfer =>
    have hentry := h key transfer hfind
    have htouched : EntryOk sha256 published key { transfer with lastActivity := now } :=
      ⟨hentry.tracker, hentry.length, hentry.reported, hentry.published⟩
    simp only [key] at hfind
    simp only [hfind] at hunfold
    split_ifs at hunfold with hinvalid
    · exact Or.inl ⟨by rw [hunfold], by rw [hunfold]⟩
    · right
      generalize hstored : storeChunk faults receiver.disk { transfer with lastActivity := now } chunk = stored
        at hunfold
      obtain ⟨disk, stored⟩ := stored
      cases stored with
      | none =>
        refine ⟨transfer, { transfer with lastActivity := now }, rfl, by rw [hunfold], ?_, rfl, fun _ hi => hi, ?_⟩
        · simpa [hunfold] using htouched
        · simp [hunfold]
      | some stored =>
        simp only at hunfold
        generalize hfinished : finishTransfer sha256 faults disk stored chunk.chunkIndex = finished at hunfold
        obtain ⟨disk', transfer', content⟩ := finished
        obtain ⟨hok, hheader, hmono⟩ := finishTransfer_stored htouched hstored hfinished
        refine ⟨transfer, transfer', rfl, by rw [hunfold], ?_, hheader, hmono, ?_⟩
        · rw [hunfold]
          exact hok
        · intro ack hack range hrange i hi
          rw [hunfold] at hack
          obtain rfl : _ = ack := FileReply.ack.inj (Option.some.inj hack)
          simp only at hrange
          exact FileChunkTracker.acknowledgedRanges_sound hok.tracker hrange hi

/-- A chunk keeps the table in order and every chunk recorded, opens no transfer, and acknowledges recorded
chunks. -/
theorem handleFileChunk_spec (h : Consistent sha256 published receiver) (faults : DiskFaults) (now : Time)
    (peerId : NodeId) (chunk : FileTransferChunk) :
    let result := receiver.handleFileChunk sha256 faults now peerId chunk
    Consistent sha256 (published ++ result.2.2) result.1 ∧ (∀ key, Keeps key receiver result.1) ∧
      (∀ key transfer', result.1.incoming.find? key = some transfer' →
        ∃ transfer, receiver.incoming.find? key = some transfer ∧
          transfer'.header key.transferId = transfer.header key.transferId) ∧
      ∀ ack, result.2.1 = some (.ack ack) → ∀ range ∈ ack.ranges, ∀ i, range.Holds i →
        result.1.Recorded ⟨peerId, chunk.transferId⟩ i := by
  intro result
  rcases handleFileChunk_cases h faults now peerId chunk with
    ⟨hincoming, hnothing⟩ | ⟨transfer, transfer', hfind, hincoming, hok, hheader, hmono, hacks⟩
  · have hreply : result.2.1 = none := congrArg Prod.fst hnothing
    have hpublished : result.2.2 = [] := congrArg Prod.snd hnothing
    rw [hpublished, List.append_nil, hreply]
    refine ⟨fun key t ht => h key t (hincoming ▸ ht), fun key t ht => ⟨t, ?_, rfl, fun _ hi => hi⟩,
      fun key t ht => ⟨t, hincoming ▸ ht, rfl⟩, by simp⟩
    show result.1.incoming.find? key = some t
    rw [hincoming]
    exact ht
  · refine ⟨h.insert hincoming (List.subset_append_left _ _) hok, keeps_insert hincoming ?_, ?_, ?_⟩
    · intro t ht
      obtain rfl := Option.some.inj (hfind.symm.trans ht)
      exact ⟨hheader, hmono⟩
    · intro key t ht
      rw [hincoming] at ht
      rcases SortedMap.find?_insert_eq_some_iff.mp ht with ⟨rfl, rfl⟩ | ⟨-, ht⟩
      · exact ⟨transfer, hfind, hheader⟩
      · exact ⟨t, ht, rfl⟩
    · intro ack hack range hrange i hi
      exact ⟨transfer', by rw [hincoming]; simp, hacks ack hack range hrange i hi⟩

end FileReceiver

end Aegis
