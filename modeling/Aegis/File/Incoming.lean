import Aegis.Lib.Run
import Aegis.File.Receiver
import Mathlib.Algebra.Order.BigOperators.Group.List

/-!
# The table of incoming transfers over time

Every handler of `Tunnel` that works on `incoming_transfers_` holds its mutex, so the table goes through a
sequence of whole handler bodies: headers, chunks and cancellations of any peers, and idle expirations.
`IncomingChange` says what one of them can do to the table. The quotas follow: the unfinished transfers
only become more where `file_transfer_admission_allowed` has counted them.
-/

namespace Aegis

/-- A handler body that runs under the transfer mutex. -/
inductive FileEvent where
  | header (peerId : NodeId) (header : FileTransferHeader) (faults : DiskFaults) (now : Time)
  | chunk (peerId : NodeId) (chunk : FileTransferChunk) (faults : DiskFaults) (now : Time)
  | cancel (key : FileTransferKey)
  | expire (now : Time)

/-- Where the transfer is written until it is complete. -/
def FileTransferKey.partPath (key : FileTransferKey) : List UInt8 :=
  DOWNLOADS ++ fileTransferPartName key.sender key.transferId

namespace FileReceiver

def step (sha256 : List UInt8 → CryptoHash) (receiver : FileReceiver) : FileEvent → FileReceiver
  | .header peerId header faults now => (receiver.handleFileHeader faults now peerId header).1
  | .chunk peerId chunk faults now => (receiver.handleFileChunk sha256 faults now peerId chunk).1
  | .cancel key => receiver.handleFileCancel key
  | .expire now => receiver.expireFileTransfers now

/-- The receiver after a sequence of events, from an empty table and whatever is in the directory. -/
def run (sha256 : List UInt8 → CryptoHash) (overlayMtu : Nat) (disk : Disk) (events : List FileEvent) :
    FileReceiver :=
  events.foldl (step sha256) { overlayMtu := overlayMtu, disk := disk }

/-- What an event can do to the table: nothing, a change of one entry that keeps what was announced and
never unfinishes it, a new entry that was admitted, or the removal of entries. -/
inductive IncomingChange (receiver : FileReceiver) : SortedMap FileTransferKey IncomingFileTransfer → Prop
  | unchanged : IncomingChange receiver receiver.incoming
  | updated {key : FileTransferKey} {transfer transfer' : IncomingFileTransfer}
      (found : receiver.incoming.find? key = some transfer) (filename : transfer'.filename = transfer.filename)
      (fileSize : transfer'.fileSize = transfer.fileSize) (outputPath : transfer'.outputPath = transfer.outputPath)
      (finalPath : transfer'.finalPath = transfer.finalPath)
      (reported : transfer.completionReported = true → transfer'.completionReported = true) :
      IncomingChange receiver (receiver.incoming.insert key transfer')
  | opened {key : FileTransferKey} {transfer : IncomingFileTransfer}
      (absent : receiver.incoming.find? key = none) (admits : receiver.admits key.sender transfer.fileSize = true)
      (outputPath : transfer.outputPath = key.partPath)
      (finalPath : transfer.finalPath = DOWNLOADS ++ transfer.filename)
      (unfinished : transfer.completionReported = false) :
      IncomingChange receiver (receiver.incoming.insert key transfer)
  | dropped {incoming : SortedMap FileTransferKey IncomingFileTransfer} (kept : incoming ⊆ receiver.incoming) :
      IncomingChange receiver incoming

variable {sha256 : List UInt8 → CryptoHash} {receiver : FileReceiver}

theorem finishTransfer_entry {faults : DiskFaults} {disk disk' : Disk} {transfer transfer' : IncomingFileTransfer}
    {chunkIndex : Nat} {content : Option (List UInt8)}
    (h : finishTransfer sha256 faults disk transfer chunkIndex = (disk', transfer', content)) :
    transfer' = transfer ∨ transfer' = { transfer with completionReported := true } ∨
      transfer' = { transfer with chunks := (transfer.chunks.remove chunkIndex).1 } := by
  unfold finishTransfer at h
  split_ifs at h
  · split at h
    · exact Or.inr (Or.inl (congrArg (fun result => result.2.1) h).symm)
    · exact Or.inr (Or.inr (congrArg (fun result => result.2.1) h).symm)
  · exact Or.inl (congrArg (fun result => result.2.1) h).symm

theorem incomingChange_handleFileChunk (receiver : FileReceiver) (faults : DiskFaults) (now : Time)
    (peerId : NodeId) (chunk : FileTransferChunk) :
    IncomingChange receiver (receiver.handleFileChunk sha256 faults now peerId chunk).1.incoming := by
  unfold handleFileChunk
  simp only
  split
  · exact .unchanged
  · rename_i transfer hfind
    split_ifs
    · exact .unchanged
    · split
      · exact .updated hfind rfl rfl rfl rfl id
      · rename_i disk stored hstored
        generalize hfinished : finishTransfer sha256 faults disk stored chunk.chunkIndex = finished
        obtain ⟨disk', transfer', content⟩ := finished
        have hkept : stored.filename = transfer.filename ∧ stored.fileSize = transfer.fileSize ∧
            stored.outputPath = transfer.outputPath ∧ stored.finalPath = transfer.finalPath ∧
            stored.completionReported = transfer.completionReported := by
          rcases storeChunk_some hstored with ⟨-, rfl⟩ | ⟨-, -, rfl⟩ <;> exact ⟨rfl, rfl, rfl, rfl, rfl⟩
        obtain ⟨hname, hsize, hout, hfinal, hreported⟩ := hkept
        rcases finishTransfer_entry hfinished with rfl | rfl | rfl
        · exact .updated hfind hname hsize hout hfinal (by rw [hreported]; exact id)
        · exact .updated hfind hname hsize hout hfinal (fun _ => rfl)
        · exact .updated hfind hname hsize hout hfinal (by rw [← hreported]; exact id)

theorem incomingChange_step (sha256 : List UInt8 → CryptoHash) (receiver : FileReceiver) (event : FileEvent) :
    IncomingChange receiver (receiver.step sha256 event).incoming := by
  cases event with
  | header peerId header faults now =>
    rcases receiver.handleFileHeader_cases faults now peerId header with
      ⟨hincoming, -⟩ | ⟨transfer, hfind, -, hincoming, -⟩ |
      ⟨transfer, hfind, -, hadmits, hannounce, hincoming, -⟩
    · rw [step, hincoming]
      exact .unchanged
    · rw [step, hincoming]
      exact .updated hfind rfl rfl rfl rfl id
    · rw [step, hincoming]
      obtain ⟨chunks, -, rfl⟩ := Option.map_eq_some_iff.mp hannounce
      exact .opened hfind hadmits rfl rfl rfl
  | chunk peerId chunk faults now => exact incomingChange_handleFileChunk receiver faults now peerId chunk
  | cancel key =>
    unfold step handleFileCancel
    simp only
    split
    · exact .unchanged
    · exact .dropped (receiver.incoming.erase_subset key)
  | expire now => exact .dropped (receiver.incoming.filter_subset _)

/-! ### Quotas -/

/-- The sizes that the unfinished transfers under some of the keys have reserved. -/
def reservedSizes (receiver : FileReceiver) (who : FileTransferKey → Bool) : List Nat :=
  (receiver.reservations.filter fun entry => who entry.1).map fun entry => entry.2.fileSize

/-- The sum of sizes as the handler computes it. -/
def sum64 (sizes : List Nat) : UInt64 := sizes.foldl (fun total size => total + UInt64.ofNat size) 0

/-- The limits on the unfinished transfers, of each peer and in total. -/
structure QuotasHold (receiver : FileReceiver) : Prop where
  peerCount : ∀ peerId, (receiver.reservedSizes fun key => key.sender = peerId).length
    ≤ FILE_TRANSFER_MAX_ACTIVE_PER_PEER
  peerBytes : ∀ peerId, (receiver.reservedSizes fun key => key.sender = peerId).sum
    ≤ FILE_TRANSFER_MAX_RESERVED_PER_PEER
  globalCount : (receiver.reservedSizes fun _ => true).length ≤ FILE_TRANSFER_MAX_ACTIVE_GLOBAL
  globalBytes : (receiver.reservedSizes fun _ => true).sum ≤ FILE_TRANSFER_MAX_RESERVED_GLOBAL

theorem admits_eq (receiver : FileReceiver) (peerId : NodeId) (fileSize : Nat) :
    receiver.admits peerId fileSize = fileTransferAdmissionAllowed
      (receiver.reservedSizes fun key => key.sender = peerId).length
      (receiver.reservedSizes fun key => key.sender = peerId).sum
      (receiver.reservedSizes fun _ => true).length (receiver.reservedSizes fun _ => true).sum fileSize := by
  simp [admits, reservedSizes]

theorem reservedSizes_step (sha256 : List UInt8 → CryptoHash) (receiver : FileReceiver) (event : FileEvent) :
    (∀ who, ((receiver.step sha256 event).reservedSizes who).Sublist (receiver.reservedSizes who)) ∨
    ∃ key fileSize, receiver.admits key.sender fileSize = true ∧
      ∀ who, ((receiver.step sha256 event).reservedSizes who).Perm
        (if who key then fileSize :: receiver.reservedSizes who else receiver.reservedSizes who) := by
  have hchange := incomingChange_step sha256 receiver event
  simp only [reservedSizes, reservations]
  generalize (receiver.step sha256 event).incoming = incoming at hchange
  cases hchange with
  | unchanged => exact Or.inl fun who => List.Sublist.refl _
  | dropped kept =>
    left
    intro who
    apply List.Sublist.map
    apply List.Sublist.filter
    exact List.Sublist.filter _ kept
  | @updated key transfer transfer' found _ hsize _ _ hreported =>
    left
    intro who
    obtain ⟨front, back, hentries, hinsert⟩ := SortedMap.entries_insert_of_find? found
    rw [hinsert, hentries]
    simp only [List.filter_append, List.map_append]
    apply List.Sublist.append (List.Sublist.refl _)
    cases hdone : transfer.completionReported with
    | true =>
      simp [hdone, hreported hdone]
    | false =>
      cases hdone' : transfer'.completionReported <;> cases hwho : who key <;> simp [hdone, hdone', hwho, hsize]
  | @opened key transfer absent hadmits _ _ hunfinished =>
    right
    obtain ⟨front, back, hentries, hinsert⟩ := SortedMap.entries_insert_of_absent absent
    refine ⟨key, transfer.fileSize, hadmits, ?_⟩
    intro who
    rw [hinsert, hentries]
    simp only [List.filter_append, List.map_append]
    cases hwho : who key with
    | true =>
      simp [hunfinished, hwho]
    | false => simp [hunfinished, hwho]

theorem QuotasHold.step {receiver : FileReceiver} (h : receiver.QuotasHold) (event : FileEvent) :
    (receiver.step sha256 event).QuotasHold := by
  rcases reservedSizes_step sha256 receiver event with hless | ⟨key, fileSize, hadmits, hmore⟩
  · exact ⟨fun peerId => (hless _).length_le.trans (h.peerCount peerId),
      fun peerId => (hless _).sum_le_sum (by simp) |>.trans (h.peerBytes peerId),
      (hless _).length_le.trans h.globalCount, (hless _).sum_le_sum (by simp) |>.trans h.globalBytes⟩
  · rw [admits_eq, fileTransferAdmissionAllowed_iff] at hadmits
    obtain ⟨-, hcount, htotal, hbytes, hall⟩ := hadmits
    have hlength : ∀ who, ((receiver.step sha256 event).reservedSizes who).length
        = (receiver.reservedSizes who).length + if who key then 1 else 0 := by
      intro who
      rw [(hmore who).length_eq]
      split_ifs <;> rfl
    have hsum : ∀ who, ((receiver.step sha256 event).reservedSizes who).sum
        = (receiver.reservedSizes who).sum + if who key then fileSize else 0 := by
      intro who
      rw [(hmore who).sum_eq]
      split_ifs
      · rw [List.sum_cons, Nat.add_comm]
      · rfl
    refine ⟨fun peerId => ?_, fun peerId => ?_, ?_, ?_⟩
    · rw [hlength]
      split_ifs with hpeer
      · obtain rfl : key.sender = peerId := by simpa using hpeer
        exact hcount
      · exact h.peerCount peerId
    · rw [hsum]
      split_ifs with hpeer
      · obtain rfl : key.sender = peerId := by simpa using hpeer
        exact hbytes
      · exact h.peerBytes peerId
    · rw [hlength, if_pos rfl]
      exact htotal
    · rw [hsum, if_pos rfl]
      exact hall

theorem toNat_sum64 {sizes : List Nat} (h : sizes.sum < 2 ^ 64) : (sum64 sizes).toNat = sizes.sum := by
  have hfold : ∀ (sizes : List Nat) (total : UInt64), total.toNat + sizes.sum < 2 ^ 64 →
      (sizes.foldl (fun total size => total + UInt64.ofNat size) total).toNat = total.toNat + sizes.sum := by
    intro sizes
    induction sizes with
    | nil => intro total _; rfl
    | cons size sizes ih =>
      intro total hlt
      rw [List.sum_cons] at hlt ⊢
      have hstep : (total + UInt64.ofNat size).toNat = total.toNat + size := by
        rw [UInt64.toNat_add, UInt64.toNat_ofNat']
        omega
      rw [List.foldl_cons, ih _ (by omega), hstep]
      omega
  simpa [sum64] using hfold sizes 0 (by simpa using h)

/-- The quotas hold in every reachable state, and the sums that the admission check takes do not wrap. -/
theorem quotas_hold_in_run (sha256 : List UInt8 → CryptoHash) (overlayMtu : Nat) (disk : Disk)
    (events : List FileEvent) :
    (run sha256 overlayMtu disk events).QuotasHold ∧
      ∀ who, (sum64 ((run sha256 overlayMtu disk events).reservedSizes who)).toNat
        = ((run sha256 overlayMtu disk events).reservedSizes who).sum := by
  have hquotas : (run sha256 overlayMtu disk events).QuotasHold := by
    apply Run.invariant QuotasHold fun receiver event h => h.step event
    exact ⟨fun _ => Nat.zero_le _, fun _ => Nat.zero_le _, Nat.zero_le _, Nat.zero_le _⟩
  refine ⟨hquotas, fun who => toNat_sum64 ?_⟩
  have hpart : ((run sha256 overlayMtu disk events).reservedSizes who).Sublist
      ((run sha256 overlayMtu disk events).reservedSizes fun _ => true) := by
    apply List.Sublist.map
    rw [List.filter_true]
    exact List.filter_sublist
  calc ((run sha256 overlayMtu disk events).reservedSizes who).sum
      ≤ ((run sha256 overlayMtu disk events).reservedSizes fun _ => true).sum := hpart.sum_le_sum (by simp)
    _ ≤ FILE_TRANSFER_MAX_RESERVED_GLOBAL := hquotas.globalBytes
    _ < 2 ^ 64 := by decide

end FileReceiver

end Aegis
