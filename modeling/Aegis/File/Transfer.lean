import Aegis.Lib.Run
import Aegis.File.Receiver
import Aegis.File.SendWindow

/-!
# A file transfer from end to end

An honest sender drives its `FileSendWindow` as `send_file` does; its header and chunks, and the receiver's
acknowledgements, stay in the network and are delivered in any order, any number of times or never. Between
them the receiver handles frames of other transfers, and any of its file operations may fail. `Truthful` is
what holds of every such run: a chunk that is acknowledged, or named by an acknowledgement on its way, is
recorded, and stays recorded as long as the transfer is not erased.
-/

namespace Aegis

/-- A file that `send_file` offers: the header is valid and says what the file is. -/
structure FileOffer (sha256 : List UInt8 → CryptoHash) where
  sender : NodeId
  content : List UInt8
  header : FileTransferHeader
  valid : isValidFileHeader header = true
  fileSize : header.fileSize = content.length
  contentHash : header.contentHash = sha256 content

inductive FileMessage where
  | header (header : FileTransferHeader)
  | chunk (chunk : FileTransferChunk)

/-- Both ends of a transfer and the messages sent between them, and the files the receiver published. -/
structure FileExchange where
  window : FileSendWindow
  receiver : FileReceiver
  toReceiver : List FileMessage := []
  toSender : List FileTransferAck := []
  published : List Published := []

inductive FileStep where
  /-- A round of `send_file`. -/
  | poll (now : Time)
  /-- The receiver gets the message sent as number `index`. -/
  | deliver (index : Nat) (faults : DiskFaults) (now : Time)
  /-- The sender gets the acknowledgement sent as number `index`. -/
  | acknowledge (index : Nat) (now : Time)
  /-- A frame of some transfer from some peer. -/
  | foreign (peerId : NodeId) (message : FileMessage) (faults : DiskFaults) (now : Time)
  | cancel (key : FileTransferKey)
  | expire (now : Time)

namespace FileOffer

variable {sha256 : List UInt8 → CryptoHash}

/-- The transfer in the receiver's table. -/
def key (offer : FileOffer sha256) : FileTransferKey := ⟨offer.sender, offer.header.transferId⟩

/-- The chunk that `send_file` reads from the file. -/
def chunk (offer : FileOffer sha256) (index : Nat) : FileTransferChunk :=
  let offset := index * offer.header.chunkSize
  ⟨offer.header.transferId, index,
    (offer.content.drop offset).take (min offer.header.chunkSize (offer.header.fileSize - offset))⟩

def messages (offer : FileOffer sha256) (action : FileSendAction) : List FileMessage :=
  (if action.sendHeader then [.header offer.header] else []) ++
    action.chunks.map fun index => .chunk (offer.chunk index)

end FileOffer

/-- The transfer a message belongs to. -/
def FileMessage.key (peerId : NodeId) : FileMessage → FileTransferKey
  | .header announced => ⟨peerId, announced.transferId⟩
  | .chunk sent => ⟨peerId, sent.transferId⟩

namespace FileExchange

variable {sha256 : List UInt8 → CryptoHash}

/-- The acknowledgement among the replies. -/
def acksOf : Option FileReply → List FileTransferAck
  | some (.ack ack) => [ack]
  | _ => []

theorem mem_acksOf {reply : Option FileReply} {ack : FileTransferAck} :
    ack ∈ acksOf reply ↔ reply = some (.ack ack) := by
  unfold acksOf
  split <;> simp_all [eq_comm]

/-- The receiver handles a message; with `answer` its acknowledgement goes to the sender. -/
def receive (sha256 : List UInt8 → CryptoHash) (s : FileExchange) (faults : DiskFaults) (now : Time)
    (peerId : NodeId) (answer : Bool) : FileMessage → FileExchange
  | .header header =>
    let result := s.receiver.handleFileHeader faults now peerId header
    { s with
      receiver := result.1
      toSender := s.toSender ++ if answer then acksOf result.2 else [] }
  | .chunk chunk =>
    let result := s.receiver.handleFileChunk sha256 faults now peerId chunk
    { s with
      receiver := result.1
      toSender := s.toSender ++ if answer then acksOf result.2.1 else []
      published := s.published ++ result.2.2 }

def step (offer : FileOffer sha256) (s : FileExchange) : FileStep → FileExchange
  | .poll now =>
    let (window, action) := s.window.poll now
    { s with window := window, toReceiver := s.toReceiver ++ offer.messages action }
  | .deliver index faults now =>
    match s.toReceiver[index]? with
    | some message => s.receive sha256 faults now offer.sender true message
    | none => s
  | .acknowledge index now =>
    match s.toSender[index]? with
    | some ack => { s with window := s.window.acknowledge ack now }
    | none => s
  | .foreign peerId message faults now => s.receive sha256 faults now peerId false message
  | .cancel key => { s with receiver := s.receiver.handleFileCancel key }
  | .expire now => { s with receiver := s.receiver.expireFileTransfers now }

/-- The step leaves the offered transfer to its own messages: it neither pretends to be one of them nor
erases the transfer. -/
def Undisturbed (offer : FileOffer sha256) (s : FileExchange) : FileStep → Prop
  | .foreign peerId message _ _ => message.key peerId ≠ offer.key
  | .cancel key => key ≠ offer.key
  | .expire now => ∀ transfer ∈ s.receiver.incoming.find? offer.key,
      fileTransferIdleExpired transfer.lastActivity now = false
  | _ => True

instance (offer : FileOffer sha256) (s : FileExchange) : ∀ action, Decidable (Undisturbed offer s action)
  | .foreign _ _ _ _ => inferInstanceAs (Decidable (_ ≠ _))
  | .cancel _ => inferInstanceAs (Decidable (_ ≠ _))
  | .expire _ => inferInstanceAs (Decidable (∀ transfer ∈ _, _))
  | .poll _ => .isTrue trivial
  | .deliver _ _ _ => .isTrue trivial
  | .acknowledge _ _ => .isTrue trivial

/-- What holds between the two ends. -/
structure Truthful (offer : FileOffer sha256) (s : FileExchange) : Prop where
  window : s.window.WellFormed
  totalChunks : s.window.totalChunks = offer.header.totalChunks
  consistent : s.receiver.Consistent sha256 s.published
  announced : ∀ transfer, s.receiver.incoming.find? offer.key = some transfer →
    transfer.header offer.key.transferId = offer.header
  messages : ∀ message ∈ s.toReceiver, message = .header offer.header ∨ ∃ i, message = .chunk (offer.chunk i)
  acknowledged : ∀ i, Bitmap.get s.window.acknowledged i = true → s.receiver.Recorded offer.key i
  acks : ∀ ack ∈ s.toSender, ∀ range ∈ ack.ranges, ∀ i, range.Holds i → s.receiver.Recorded offer.key i

variable {offer : FileOffer sha256} {s : FileExchange}

/-- What a message does at the receiver: the table stays in order and keeps its chunks, a transfer that
appears is the one announced, and what is sent back is recorded. -/
theorem receive_spec (hconsistent : s.receiver.Consistent sha256 s.published) (faults : DiskFaults) (now : Time)
    (peerId : NodeId) (answer : Bool) (message : FileMessage) :
    let s' := s.receive sha256 faults now peerId answer message
    s'.window = s.window ∧ s'.toReceiver = s.toReceiver ∧ s'.receiver.Consistent sha256 s'.published ∧
      (∀ key, FileReceiver.Keeps key s.receiver s'.receiver) ∧
      (∀ key transfer', s'.receiver.incoming.find? key = some transfer' →
        (∃ transfer, s.receiver.incoming.find? key = some transfer ∧
          transfer'.header key.transferId = transfer.header key.transferId) ∨
        (key = message.key peerId ∧ message = .header (transfer'.header key.transferId))) ∧
      ∀ ack ∈ s'.toSender, ack ∈ s.toSender ∨
        (answer = true ∧ ∀ range ∈ ack.ranges, ∀ i, range.Holds i →
          s'.receiver.Recorded (message.key peerId) i) := by
  intro s'
  have hsent {reply : Option FileReply} {ack : FileTransferAck}
      (hack : ack ∈ s.toSender ++ if answer = true then acksOf reply else []) :
      ack ∈ s.toSender ∨ (answer = true ∧ reply = some (.ack ack)) := by
    rcases List.mem_append.mp hack with hack | hack
    · exact Or.inl hack
    · split_ifs at hack with hanswer
      · exact Or.inr ⟨hanswer, mem_acksOf.mp hack⟩
      · simp at hack
  cases message with
  | header header =>
    obtain ⟨hconsistent', hkeeps, hannounced, hacks⟩ :=
      FileReceiver.handleFileHeader_spec hconsistent faults now peerId header
    refine ⟨rfl, rfl, hconsistent', hkeeps, fun key transfer' hfind => ?_, fun ack hack => ?_⟩
    · rcases hannounced key transfer' hfind with hold | ⟨hkey, hheader⟩
      · exact Or.inl hold
      · exact Or.inr ⟨hkey, by rw [hheader]⟩
    · rcases hsent hack with hack | ⟨hanswer, hreply⟩
      · exact Or.inl hack
      · exact Or.inr ⟨hanswer, hacks ack hreply⟩
  | chunk chunk =>
    obtain ⟨hconsistent', hkeeps, hannounced, hacks⟩ :=
      FileReceiver.handleFileChunk_spec hconsistent faults now peerId chunk
    refine ⟨rfl, rfl, hconsistent', hkeeps, fun key transfer' hfind => Or.inl (hannounced key transfer' hfind),
      fun ack hack => ?_⟩
    rcases hsent hack with hack | ⟨hanswer, hreply⟩
    · exact Or.inl hack
    · exact Or.inr ⟨hanswer, hacks ack hreply⟩

/-- A message handled at the receiver keeps the two ends truthful, if it is one of the transfer's own or
belongs to another transfer and is not answered to the sender. -/
theorem Truthful.receive (h : Truthful offer s) (faults : DiskFaults) (now : Time) {peerId : NodeId}
    {answer : Bool} {message : FileMessage} (hown : (answer = true ∧ peerId = offer.sender ∧
      (message = .header offer.header ∨ ∃ i, message = .chunk (offer.chunk i))) ∨
      (answer = false ∧ message.key peerId ≠ offer.key)) :
    Truthful offer (s.receive sha256 faults now peerId answer message) := by
  obtain ⟨hwindow, hmessages, hconsistent, hkeeps, hannounced, hacks⟩ :=
    receive_spec h.consistent faults now peerId answer message
  have hkey (hanswer : answer = true) : message.key peerId = offer.key := by
    rcases hown with ⟨-, rfl, rfl | ⟨i, rfl⟩⟩ | ⟨hno, -⟩
    · rfl
    · rfl
    · exact absurd (hno.symm.trans hanswer) (by simp)
  refine ⟨?_, ?_, hconsistent, fun transfer' hfind => ?_, ?_, fun i hi => ?_, fun ack hack range hrange i hi => ?_⟩
  · rw [hwindow]
    exact h.window
  · rw [hwindow]
    exact h.totalChunks
  · rcases hannounced offer.key transfer' hfind with ⟨transfer, hold, hheader⟩ | ⟨hsame, hmessage⟩
    · exact hheader.trans (h.announced transfer hold)
    · rcases hown with ⟨-, -, hown | ⟨i, hown⟩⟩ | ⟨-, hforeign⟩
      · exact FileMessage.header.inj (hmessage.symm.trans hown)
      · exact absurd (hmessage.symm.trans hown) (by simp)
      · exact absurd hsame.symm hforeign
  · rw [hmessages]
    exact h.messages
  · rw [hwindow] at hi
    exact (hkeeps offer.key).recorded (h.acknowledged i hi)
  · rcases hacks ack hack with hold | ⟨hanswer, hrecorded⟩
    · exact (hkeeps offer.key).recorded (h.acks ack hold range hrange i hi)
    · rw [← hkey hanswer]
      exact hrecorded range hrange i hi

theorem Truthful.shrink (h : Truthful offer s) {receiver : FileReceiver}
    (hsub : ∀ key transfer, receiver.incoming.find? key = some transfer → s.receiver.incoming.find? key = some transfer)
    (hkept : receiver.incoming.find? offer.key = s.receiver.incoming.find? offer.key) :
    Truthful offer { s with receiver := receiver } := by
  have hrecorded {i : Nat} (hi : s.receiver.Recorded offer.key i) : receiver.Recorded offer.key i := by
    obtain ⟨transfer, hfind, hget⟩ := hi
    exact ⟨transfer, hkept.trans hfind, hget⟩
  exact ⟨h.window, h.totalChunks, fun key transfer hfind => h.consistent key transfer (hsub key transfer hfind),
    fun transfer hfind => h.announced transfer (hsub _ _ hfind), h.messages,
    fun i hi => hrecorded (h.acknowledged i hi),
    fun ack hack range hrange i hi => hrecorded (h.acks ack hack range hrange i hi)⟩

theorem mem_messages {action : FileSendAction} {message : FileMessage} (h : message ∈ offer.messages action) :
    message = .header offer.header ∨ ∃ i, message = .chunk (offer.chunk i) := by
  rcases List.mem_append.mp h with hheader | hchunk
  · split_ifs at hheader
    · exact Or.inl (List.mem_singleton.mp hheader)
    · simp at hheader
  · obtain ⟨i, -, rfl⟩ := List.mem_map.mp hchunk
    exact Or.inr ⟨i, rfl⟩

theorem Truthful.step (h : Truthful offer s) {action : FileStep} (hok : Undisturbed offer s action) :
    Truthful offer (FileExchange.step offer s action) := by
  cases action with
  | poll now =>
    have hsame := s.window.sameAcks_poll now
    refine ⟨hsame.wellFormed h.window, hsame.totalChunks.trans h.totalChunks, h.consistent, h.announced,
      fun message hmessage => ?_, fun i hi => ?_, h.acks⟩
    · rcases List.mem_append.mp hmessage with hold | hnew
      · exact h.messages message hold
      · exact mem_messages hnew
    · apply h.acknowledged
      rw [← hsame.acknowledged]
      exact hi
  | deliver index faults now =>
    simp only [FileExchange.step]
    cases hget : s.toReceiver[index]? with
    | none => exact h
    | some message =>
      exact h.receive faults now (Or.inl ⟨rfl, rfl, h.messages message (List.mem_of_getElem? hget)⟩)
  | acknowledge index now =>
    simp only [FileExchange.step]
    cases hget : s.toSender[index]? with
    | none => exact h
    | some ack =>
      obtain ⟨hwf, htotal, -, hnamed⟩ := FileSendWindow.acknowledge_spec h.window ack now
      refine ⟨hwf, htotal.trans h.totalChunks, h.consistent, h.announced, h.messages, fun i hi => ?_, h.acks⟩
      rcases hnamed i hi with hold | ⟨range, hrange, hholds⟩
      · exact h.acknowledged i hold
      · exact h.acks ack (List.mem_of_getElem? hget) range hrange i hholds
  | foreign peerId message faults now => exact h.receive faults now (Or.inr ⟨rfl, hok⟩)
  | cancel key =>
    simp only [FileExchange.step, FileReceiver.handleFileCancel]
    cases hfind : s.receiver.incoming.find? key with
    | none => exact h
    | some transfer =>
      refine h.shrink (fun key' transfer' hfind' => ?_) ?_
      · simp only [SortedMap.find?_erase] at hfind'
        split_ifs at hfind'
        exact hfind'
      · simp only [SortedMap.find?_erase]
        rw [if_neg (Ne.symm hok)]
  | expire now =>
    refine h.shrink (fun key transfer hfind => (SortedMap.find?_filter_eq_some_iff.mp hfind).1) ?_
    show (s.receiver.incoming.filter _).find? offer.key = _
    rw [SortedMap.find?_filter]
    cases hfind : s.receiver.incoming.find? offer.key with
    | none => rfl
    | some transfer => simp [hok transfer hfind]

/-- The sender has set up its window and the receiver has just started. -/
def start (offer : FileOffer sha256) (config : FileSendWindowConfig) (now : Time) (overlayMtu : Nat)
    (disk : Disk) : Option FileExchange :=
  (({ config := config } : FileSendWindow).reset offer.header.totalChunks now).map fun window =>
    { window := window, receiver := { overlayMtu := overlayMtu, disk := disk } }

theorem truthful_start {config : FileSendWindowConfig} {now : Time} {overlayMtu : Nat} {disk : Disk}
    (h : start offer config now overlayMtu disk = some s) : Truthful offer s := by
  obtain ⟨window, hreset, rfl⟩ := Option.map_eq_some_iff.mp h
  obtain ⟨hwf, htotal, hflags⟩ := FileSendWindow.reset_wellFormed hreset
  exact ⟨hwf, htotal, fun key transfer hfind => by simp at hfind, fun transfer hfind => by simp at hfind,
    by simp, fun i hi => by simp [hflags] at hi, by simp⟩

/-- A digest that keeps the first 32 bytes. -/
def clearDigest (bytes : List UInt8) : CryptoHash := FixedBytes.copy 32 bytes

/-- A file of three bytes, `x`, in one chunk. -/
def sampleOffer : FileOffer clearDigest where
  sender := FixedBytes.copy 32 [1]
  content := [1, 2, 3]
  header := ⟨7, 3, 512, 1, clearDigest [1, 2, 3], [120]⟩
  valid := by decide +kernel
  fileSize := rfl
  contentHash := rfl

/-- The first commit fails at the rename; the chunk is delivered once more. -/
def sampleSteps : List FileStep :=
  [.poll 0, .deliver 0 {} 1, .acknowledge 0 2, .poll 3, .deliver 1 { rename := true } 4, .acknowledge 1 5,
    .deliver 1 {} 6, .acknowledge 2 7]

end FileExchange

end Aegis
