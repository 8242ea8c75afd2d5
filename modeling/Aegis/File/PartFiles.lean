import Aegis.File.Incoming

/-!
# Part files and final files

All transfers share one directory: a transfer is written to `.aegis-<sender>-<id>.part` and renamed to its
announced file name when it is complete. The part names of different transfers differ, but the check on
announced names lets part names through, so a peer can announce a file under the part name of another
transfer, and committing it replaces the part file of that transfer. The transfers keep out of each other's
way exactly as long as none is announced under a part name.
-/

namespace Aegis

/-! ### Part names -/

theorem hexByte_injective : Function.Injective hexByte := by
  have hdecode : ∀ byte : UInt8, (hexByte byte).foldl
      (fun value digit => 16 * value + (if digit < 58 then digit - 48 else digit - 87)) 0 = byte :=
    forall_byte (by decide +kernel)
  intro a b h
  rw [← hdecode a, ← hdecode b, h]

theorem flatMap_hexByte_injective : Function.Injective (List.flatMap hexByte) := by
  intro as
  induction as with
  | nil =>
    intro bs h
    cases bs with
    | nil => rfl
    | cons b bs => simp [hexByte] at h
  | cons a as ih =>
    intro bs h
    cases bs with
    | nil => simp [hexByte] at h
    | cons b bs =>
      rw [List.flatMap_cons, List.flatMap_cons] at h
      obtain ⟨hhead, htail⟩ := List.append_inj h rfl
      rw [hexByte_injective hhead, ih htail]

theorem length_flatMap_hexByte (bytes : List UInt8) : (bytes.flatMap hexByte).length = 2 * bytes.length := by
  induction bytes with
  | nil => rfl
  | cons byte bytes ih =>
    rw [List.flatMap_cons, List.length_append, ih, List.length_cons]
    show 2 + 2 * bytes.length = 2 * (bytes.length + 1)
    omega

theorem FileTransferKey.partPath_injective : Function.Injective FileTransferKey.partPath := by
  intro a b h
  unfold partPath fileTransferPartName at h
  have hname := List.append_cancel_left h
  simp only [List.append_assoc] at hname
  obtain ⟨hsender, hrest⟩ := List.append_inj (List.append_cancel_left hname)
    (by rw [length_flatMap_hexByte, length_flatMap_hexByte, a.sender.2, b.sender.2])
  have hid := flatMap_hexByte_injective (List.append_cancel_right (List.append_cancel_left hrest))
  have hsender' : a.sender = b.sender := Subtype.ext (flatMap_hexByte_injective hsender)
  have hid' : a.transferId = b.transferId :=
    UInt64.toNat_inj.mp (beBytes_inj a.transferId.toNat_lt b.transferId.toNat_lt hid)
  cases a
  cases b
  simp_all

namespace FileReceiver

variable {sha256 : List UInt8 → CryptoHash} {receiver : FileReceiver}

/-- Every transfer is written to its own part file and renamed to the name it was announced under. -/
def PathsAnnounced (receiver : FileReceiver) : Prop :=
  ∀ key transfer, receiver.incoming.find? key = some transfer →
    transfer.outputPath = key.partPath ∧ transfer.finalPath = DOWNLOADS ++ transfer.filename

theorem PathsAnnounced.step (h : receiver.PathsAnnounced) (event : FileEvent) :
    (receiver.step sha256 event).PathsAnnounced := by
  have hchange := incomingChange_step sha256 receiver event
  unfold PathsAnnounced
  generalize (receiver.step sha256 event).incoming = incoming at hchange
  intro key transfer hfind
  cases hchange with
  | unchanged => exact h key transfer hfind
  | dropped kept => exact h key transfer (SortedMap.find?_of_subset kept hfind)
  | updated found hname _ hout hfinal _ =>
    rcases SortedMap.find?_insert_eq_some_iff.mp hfind with ⟨rfl, rfl⟩ | ⟨-, hfind⟩
    · rw [hout, hfinal, hname]
      exact h _ _ found
    · exact h key transfer hfind
  | opened _ _ hout hfinal _ =>
    rcases SortedMap.find?_insert_eq_some_iff.mp hfind with ⟨rfl, rfl⟩ | ⟨-, hfind⟩
    · exact ⟨hout, hfinal⟩
    · exact h key transfer hfind

theorem pathsAnnounced_run (sha256 : List UInt8 → CryptoHash) (overlayMtu : Nat) (disk : Disk)
    (events : List FileEvent) : (run sha256 overlayMtu disk events).PathsAnnounced :=
  Run.invariant PathsAnnounced (fun _ event h => h.step event) (by intro key transfer h; simp at h) events

/-! ### What the events do to the directory -/

variable {path : List UInt8}

theorem find?_disk_handleFileHeader {peerId : NodeId} {header : FileTransferHeader}
    (hpath : path ≠ FileTransferKey.partPath ⟨peerId, header.transferId⟩) (faults : DiskFaults) (now : Time) :
    (receiver.handleFileHeader faults now peerId header).1.disk.find? path = receiver.disk.find? path := by
  have hcreated : (receiver.disk.insert (DOWNLOADS ++ fileTransferPartName peerId header.transferId) []).find? path
      = receiver.disk.find? path :=
    (SortedMap.find?_insert _ _ _ _).trans (if_neg hpath)
  unfold handleFileHeader
  split
  · split_ifs
    · rfl
    · split
      · split_ifs <;> rfl
      · unfold openTransfer
        simp only
        split_ifs
        · rfl
        · rfl
        · split <;> exact hcreated
  · rfl

theorem find?_disk_storeChunk {faults : DiskFaults} {disk disk' : Disk} {transfer : IncomingFileTransfer}
    {chunk : FileTransferChunk} {stored : Option IncomingFileTransfer} (hpath : path ≠ transfer.outputPath)
    (h : storeChunk faults disk transfer chunk = (disk', stored)) : disk'.find? path = disk.find? path := by
  have hwritten : ∀ content, (disk.insert transfer.outputPath content).find? path = disk.find? path := by
    intro content
    rw [SortedMap.find?_insert, if_neg hpath]
  obtain rfl : (storeChunk faults disk transfer chunk).1 = disk' := congrArg Prod.fst h
  unfold storeChunk
  split
  · rfl
  · split
    · rfl
    · split
      · rfl
      · split
        · exact hwritten _
        · simp only
          split <;> exact hwritten _

theorem find?_disk_finishTransfer {faults : DiskFaults} {disk disk' : Disk}
    {transfer transfer' : IncomingFileTransfer} {chunkIndex : Nat} {content : Option (List UInt8)}
    (hpart : path ≠ transfer.outputPath) (hfinal : path ≠ transfer.finalPath)
    (h : finishTransfer sha256 faults disk transfer chunkIndex = (disk', transfer', content)) :
    disk'.find? path = disk.find? path := by
  have hcommit : (verifyAndCommitFile sha256 faults disk transfer.outputPath transfer.finalPath
      transfer.fileSize transfer.contentHash).1.find? path = disk.find? path := by
    unfold verifyAndCommitFile
    split
    · rfl
    · split_ifs <;> simp [hpart, hfinal]
  unfold finishTransfer at h
  split_ifs at h
  · split at h <;> rename_i heq <;> rw [heq] at hcommit <;>
      exact (congrArg (fun result => result.1.find? path) h).symm.trans hcommit
  · exact (congrArg (fun result => result.1.find? path) h).symm

theorem find?_disk_handleFileChunk {peerId : NodeId} {chunk : FileTransferChunk}
    (hpath : ∀ transfer, receiver.incoming.find? ⟨peerId, chunk.transferId⟩ = some transfer →
      path ≠ transfer.outputPath ∧ path ≠ transfer.finalPath) (faults : DiskFaults) (now : Time) :
    (receiver.handleFileChunk sha256 faults now peerId chunk).1.disk.find? path = receiver.disk.find? path := by
  unfold handleFileChunk
  simp only
  split
  · rfl
  · rename_i transfer hfind
    obtain ⟨hpart, hfinal⟩ := hpath transfer hfind
    have htouched : path ≠ ({ transfer with lastActivity := now } : IncomingFileTransfer).outputPath := hpart
    split_ifs
    · rfl
    · split
      · rename_i disk hstored
        exact find?_disk_storeChunk htouched hstored
      · rename_i disk stored hstored
        have hpaths : stored.outputPath = transfer.outputPath ∧ stored.finalPath = transfer.finalPath := by
          rcases storeChunk_some hstored with ⟨-, rfl⟩ | ⟨-, -, rfl⟩ <;> exact ⟨rfl, rfl⟩
        generalize hfinished : finishTransfer sha256 faults disk stored chunk.chunkIndex = finished
        obtain ⟨disk', transfer', content⟩ := finished
        exact (find?_disk_finishTransfer (hpaths.1 ▸ hpart) (hpaths.2 ▸ hfinal) hfinished).trans
          (find?_disk_storeChunk htouched hstored)

theorem find?_foldl_erase {paths : List (List UInt8)} {disk : Disk} (h : path ∉ paths) :
    (paths.foldl SortedMap.erase disk).find? path = disk.find? path := by
  induction paths generalizing disk with
  | nil => rfl
  | cons other paths ih =>
    rw [List.mem_cons, not_or] at h
    rw [List.foldl_cons, ih h.2, SortedMap.find?_erase, if_neg h.1]

end FileReceiver

/-- The event is about the transfer: one of its frames, or its own expiry. -/
def FileEvent.Concerns (receiver : FileReceiver) (key : FileTransferKey) : FileEvent → Prop
  | .header peerId announced _ _ => key = ⟨peerId, announced.transferId⟩
  | .chunk peerId piece _ _ => key = ⟨peerId, piece.transferId⟩
  | .cancel cancelled => key = cancelled
  | .expire now => ∃ transfer, receiver.incoming.find? key = some transfer ∧
      fileTransferIdleExpired transfer.lastActivity now = true

namespace FileReceiver

variable {sha256 : List UInt8 → CryptoHash} {receiver : FileReceiver}

/-- The transfers keep out of each other's part files: no final path is the part file of any transfer there
could be, and an event leaves the part files of the transfers alone that it is not about. -/
structure Separate (sha256 : List UInt8 → CryptoHash) (receiver : FileReceiver) : Prop where
  paths : ∀ key transfer, receiver.incoming.find? key = some transfer →
    ∀ other : FileTransferKey, transfer.finalPath ≠ other.partPath
  untouched : ∀ (event : FileEvent) (other : FileTransferKey), ¬event.Concerns receiver other →
    (receiver.step sha256 event).disk.find? other.partPath = receiver.disk.find? other.partPath

theorem PathsAnnounced.untouched (h : receiver.PathsAnnounced) {event : FileEvent} {other : FileTransferKey}
    (hother : ¬event.Concerns receiver other)
    (hfinal : ∀ key transfer, receiver.incoming.find? key = some transfer → transfer.finalPath ≠ other.partPath) :
    (receiver.step sha256 event).disk.find? other.partPath = receiver.disk.find? other.partPath := by
  have hpart : ∀ {key transfer}, receiver.incoming.find? key = some transfer → other ≠ key →
      other.partPath ≠ transfer.outputPath := by
    intro key transfer hfind hne hpath
    rw [(h key transfer hfind).1] at hpath
    exact hne (FileTransferKey.partPath_injective hpath)
  cases event with
  | header peerId header faults now =>
    exact find?_disk_handleFileHeader (fun hpath => hother (FileTransferKey.partPath_injective hpath)) faults now
  | chunk peerId chunk faults now =>
    refine find?_disk_handleFileChunk ?_ faults now
    intro transfer hfind
    exact ⟨hpart hfind hother, (hfinal _ transfer hfind).symm⟩
  | cancel key =>
    unfold FileReceiver.step handleFileCancel
    simp only
    split
    · rfl
    · rename_i transfer hfind
      simp only
      split_ifs
      · rfl
      · rw [SortedMap.find?_erase, if_neg (hpart hfind hother)]
  | expire now =>
    apply find?_foldl_erase
    intro hmem
    obtain ⟨⟨key, transfer⟩, hentry, hpath⟩ := List.mem_map.mp hmem
    obtain ⟨hreserved, hidle⟩ := List.mem_filter.mp hentry
    have hfind := SortedMap.find?_eq_some_iff.mpr (List.mem_of_mem_filter hreserved)
    by_cases hkey : other = key
    · exact hother ⟨transfer, hkey ▸ hfind, hidle⟩
    · exact hpart hfind hkey hpath.symm

/-- The announcement of a file with the one byte 255. -/
def oneByteHeader (sha256 : List UInt8 → CryptoHash) (transferId : UInt64) (filename : List UInt8) :
    FileTransferHeader :=
  ⟨transferId, 1, 512, 1, sha256 [255], filename⟩

end FileReceiver

end Aegis
