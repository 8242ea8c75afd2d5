import Aegis.File.Messages

/-!
# Acknowledgements on the wire

`serialize_file_ack` and `deserialize_file_ack` of `file/transfer.cpp`. Both ends make the same check of the
ranges: none is empty, none ends past the largest file, and each starts where the one before ended or later.
`Ordered` says what that check asks for, and what was written reads back.
-/

namespace Aegis

namespace FileAckRange

/-- The chunk after the last one of the range. -/
def stop (range : FileAckRange) : Nat := range.first + range.count

def write (range : FileAckRange) : List UInt8 := beBytes 4 range.first ++ beBytes 4 range.count

/-- The check of one range after one that ended at `previousEnd`. -/
def follows (previousEnd : Nat) (range : FileAckRange) : Bool :=
  !(range.count = 0 || FILE_TRANSFER_MAX_CHUNKS < range.stop || range.first < previousEnd)

/-- The check of all ranges, in order. -/
def allFollow : Nat → List FileAckRange → Bool
  | _, [] => true
  | previousEnd, range :: rest => range.follows previousEnd && allFollow range.stop rest

/-- The ranges hold chunks, stand in order and do not overlap. -/
def Ordered (ranges : List FileAckRange) : Prop :=
  (∀ range ∈ ranges, 0 < range.count) ∧ ranges.Pairwise fun range later => range.stop ≤ later.first

theorem follows_iff {previousEnd : Nat} {range : FileAckRange} :
    range.follows previousEnd = true ↔
      0 < range.count ∧ range.stop ≤ FILE_TRANSFER_MAX_CHUNKS ∧ previousEnd ≤ range.first := by
  simp only [follows, Bool.not_eq_true', Bool.or_eq_false_iff, decide_eq_false_iff_not]
  omega

theorem allFollow_of_ordered {previousEnd : Nat} {ranges : List FileAckRange} (h : Ordered ranges)
    (hstart : ∀ range ∈ ranges, previousEnd ≤ range.first)
    (hstop : ∀ range ∈ ranges, range.stop ≤ FILE_TRANSFER_MAX_CHUNKS) : allFollow previousEnd ranges = true := by
  induction ranges generalizing previousEnd with
  | nil => rfl
  | cons range rest ih =>
    obtain ⟨hcount, horder⟩ := h
    rw [List.pairwise_cons] at horder
    rw [allFollow, Bool.and_eq_true, follows_iff]
    refine ⟨⟨hcount range List.mem_cons_self, hstop range List.mem_cons_self, hstart range List.mem_cons_self⟩, ?_⟩
    exact ih ⟨fun later hlater => hcount later (List.mem_cons_of_mem _ hlater), horder.2⟩ horder.1
      fun later hlater => hstop later (List.mem_cons_of_mem _ hlater)

end FileAckRange

def serializeFileAck (ack : FileTransferAck) : Option (List UInt8) :=
  if ack.transferId = 0 ∨ FILE_ACK_MAX_RANGES < ack.ranges.length then none
  else if !FileAckRange.allFollow 0 ack.ranges then none
  else
    some (beBytes 8 ack.transferId.toNat ++ (ack.headerReceived.toUInt8 :: 0 ::
      (beBytes 2 ack.ranges.length ++ ack.ranges.flatMap FileAckRange.write)))

/-- Read `count` ranges, each checked against the end of the one before. -/
def readAckRanges : Nat → Nat → WireReader → Option (List FileAckRange × WireReader)
  | 0, _, reader => some ([], reader)
  | count + 1, previousEnd, reader => do
    let (first, reader) ← reader.readU32
    let (length, reader) ← reader.readU32
    let range : FileAckRange := ⟨first.toNat, length.toNat⟩
    if !range.follows previousEnd then none
    else
      let (ranges, reader) ← readAckRanges count range.stop reader
      some (range :: ranges, reader)

def deserializeFileAck (payload : List UInt8) : Option FileTransferAck := do
  let (transferId, reader) ← (WireReader.mk payload).readU64
  let (flags, reader) ← reader.readU8
  let (reserved, reader) ← reader.readU8
  let (rangeCount, reader) ← reader.readU16
  if transferId = 0 ∨ flags &&& 0xFE ≠ 0 ∨ reserved ≠ 0 ∨ FILE_ACK_MAX_RANGES < rangeCount.toNat then none
  else
    let (ranges, reader) ← readAckRanges rangeCount.toNat 0 reader
    if reader.finished then some ⟨transferId, flags &&& 1 ≠ 0, ranges⟩ else none

/-! ### What was written reads back -/

theorem serializeFileAck_eq_some {ack : FileTransferAck} {payload : List UInt8}
    (h : serializeFileAck ack = some payload) :
    ack.transferId ≠ 0 ∧ ack.ranges.length ≤ FILE_ACK_MAX_RANGES ∧ FileAckRange.allFollow 0 ack.ranges = true ∧
      payload = beBytes 8 ack.transferId.toNat ++ (ack.headerReceived.toUInt8 :: 0 ::
        (beBytes 2 ack.ranges.length ++ ack.ranges.flatMap FileAckRange.write)) := by
  unfold serializeFileAck at h
  split_ifs at h with hlimits hranges
  rw [not_or, not_lt] at hlimits
  exact ⟨hlimits.1, hlimits.2, by simpa using hranges, (Option.some.inj h).symm⟩

theorem readAckRanges_write {previousEnd : Nat} {ranges : List FileAckRange}
    (h : FileAckRange.allFollow previousEnd ranges = true) (rest : List UInt8) :
    readAckRanges ranges.length previousEnd ⟨ranges.flatMap FileAckRange.write ++ rest⟩
      = some (ranges, ⟨rest⟩) := by
  induction ranges generalizing previousEnd with
  | nil => rfl
  | cons range ranges ih =>
    rw [FileAckRange.allFollow, Bool.and_eq_true] at h
    obtain ⟨hfollows, hrest⟩ := h
    obtain ⟨-, hstop, -⟩ := FileAckRange.follows_iff.mp hfollows
    have hmax : FILE_TRANSFER_MAX_CHUNKS < 4294967296 := by decide
    have hfirst : range.first < 4294967296 := by
      unfold FileAckRange.stop at hstop
      omega
    have hcount : range.count < 4294967296 := by
      unfold FileAckRange.stop at hstop
      omega
    simp only [List.length_cons, readAckRanges, List.flatMap_cons, FileAckRange.write, List.append_assoc,
      WireReader.readU32_beBytes_of_lt hfirst, WireReader.readU32_beBytes_of_lt hcount, Option.bind_eq_bind,
      Option.bind_some, UInt32.toNat_ofNat_of_lt' hfirst, UInt32.toNat_ofNat_of_lt' hcount, hfollows, Bool.not_true,
      Bool.false_eq_true, if_false, ih hrest]

theorem headerFlag (received : Bool) :
    received.toUInt8 &&& 0xFE = 0 ∧ decide (received.toUInt8 &&& 1 ≠ 0) = received := by
  cases received with
  | true => decide
  | false => decide

theorem deserializeFileAck_serialize {ack : FileTransferAck} {payload : List UInt8}
    (h : serializeFileAck ack = some payload) : deserializeFileAck payload = some ack := by
  obtain ⟨hid, hcount, hranges, rfl⟩ := serializeFileAck_eq_some h
  have hsmall : ack.ranges.length < 65536 := hcount.trans_lt (by decide)
  have hread := readAckRanges_write hranges []
  rw [List.append_nil] at hread
  obtain ⟨hreserved, hflag⟩ := headerFlag ack.headerReceived
  simp only [deserializeFileAck, WireReader.readU64_beBytes, Option.bind_eq_bind, Option.bind_some,
    WireReader.readU8_cons, WireReader.readU16_beBytes_of_lt hsmall, UInt16.toNat_ofNat_of_lt' hsmall, hread, hid,
    hreserved, hflag, ne_eq, not_true_eq_false, not_lt.mpr hcount, or_self, if_false]
  rfl

end Aegis
