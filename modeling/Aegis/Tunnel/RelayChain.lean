import Aegis.Tunnel.DataPath

/-!
# Chains of relays

A relay trusts nothing in an onion: whatever hop a layer names, in whatever order, the rest is sealed for it and
sent on. Chains end all the same. A forward takes one layer off the payload, and the layers of a payload cannot be
more than its bytes allow, whoever made them.

A forward is a step between payloads. The recipient's session opens a frame with one payload; the frame it sends is
the next payload sealed for the next hop (`forwarded_eq_seal`).
Peers, sessions and quota are those of any node in any state, so a chain may pass through a node again after
everything there has changed.
-/

namespace Aegis

variable {H : Type} {P : Primitives H} {O : OnionPrimitives}

/-- A relay payload and the node it is for. -/
structure RelayMessage where
  recipient : NodeId
  payload : List UInt8
deriving DecidableEq

/-- What a relay hands to `encrypt_message` for a payload it has read. -/
def DataPath.relayed (O : OnionPrimitives) (cfg : TunnelConfig) (s : DataPath H) (payload : List UInt8) :
    Option RelayMessage :=
  (s.openRelay O cfg payload).map fun (source, contentType, peeled) =>
    ⟨peeled.nextHop, relayPayload source contentType peeled.inner⟩

/-- The recipient, in whatever state, reads the message in a frame and forwards it as `message'`. -/
def Forwards (P : Primitives H) (O : OnionPrimitives) (message message' : RelayMessage) : Prop :=
  ∃ (cfg : TunnelConfig) (allow : NodeId → Nat → Bool) (s : DataPath H) (now : Time) (frame : List UInt8)
    (sessionId : UInt32) (entropy : Entropy) (frame' : List UInt8) (endpoint : Endpoint),
    cfg.nodeId = message.recipient ∧
    (s.sessions.decryptMessage P frame).2 = some ⟨TYPE_RELAY, message.payload⟩ ∧
    (s.handleRelay P O cfg allow now frame sessionId entropy).2 = .forwarded frame' endpoint ∧
    (s.handleRelay P O cfg allow now frame sessionId entropy).1.relayed O cfg message.payload = some message'

/-! ### One forward -/

namespace DataPath

variable {cfg : TunnelConfig} {allow : NodeId → Nat → Bool} {s : DataPath H} {now : Time}
  {frame frame' payload : List UInt8} {sessionId : UInt32} {entropy : Entropy} {endpoint : Endpoint}
  {message' : RelayMessage}

theorem forwarded_eq_seal
    (hforwarded : (s.handleRelay P O cfg allow now frame sessionId entropy).2 = .forwarded frame' endpoint)
    (hpayload : (s.sessions.decryptMessage P frame).2 = some ⟨TYPE_RELAY, payload⟩)
    (hrelayed : (s.handleRelay P O cfg allow now frame sessionId entropy).1.relayed O cfg payload = some message') :
    message'.payload.length + ONION_OVERHEAD = payload.length ∧
    RELAY_SOURCE_OVERHEAD ≤ message'.payload.length ∧ message'.recipient ≠ cfg.nodeId ∧
    ((s.sessions.decryptMessage P frame).1.encryptMessage P cfg.session message'.recipient TYPE_RELAY
      message'.payload FLAG_RELAY entropy).2 = some frame' := by
  obtain ⟨payload', source, contentType, peeled, hread, hopen, -, hself, hseal⟩ := handleRelay_forwarded hforwarded
  obtain rfl : payload = payload' := congrArg DecryptedMessage.payload (Option.some.inj (hpayload.symm.trans hread))
  rw [relayed, hopen] at hrelayed
  obtain rfl := Option.some.inj hrelayed
  refine ⟨length_openRelay hopen, ?_, hself, hseal⟩
  have hsize := length_relayPayload source contentType peeled.inner
  show RELAY_SOURCE_OVERHEAD ≤ (relayPayload source contentType peeled.inner).length
  omega

end DataPath

theorem Forwards.shorter {message message' : RelayMessage} (h : Forwards P O message message') :
    message'.payload.length + ONION_OVERHEAD = message.payload.length ∧
      RELAY_SOURCE_OVERHEAD ≤ message'.payload.length ∧ message'.recipient ≠ message.recipient := by
  obtain ⟨cfg, allow, s, now, frame, sessionId, entropy, frame', endpoint, hnode, hread, hforwarded, hrelayed⟩ := h
  obtain ⟨hlength, hsource, hself, -⟩ := DataPath.forwarded_eq_seal hforwarded hread hrelayed
  exact ⟨hlength, hsource, hnode ▸ hself⟩

/-! ### Chains -/

theorem length_forwards {message : RelayMessage} {forwards : List RelayMessage}
    (hchain : List.IsChain (Forwards P O) (message :: forwards)) :
    forwards.length * ONION_OVERHEAD ≤ message.payload.length - RELAY_SOURCE_OVERHEAD := by
  induction forwards generalizing message with
  | nil => simp
  | cons message' forwards ih =>
    obtain ⟨hfirst, hrest⟩ := List.isChain_cons_cons.mp hchain
    obtain ⟨hlength, hsource, -⟩ := hfirst.shorter
    have hmore := ih hrest
    rw [List.length_cons, Nat.succ_mul]
    omega

/-- Relay forwarding terminates, whatever the onion says: each forward carries an onion 60 bytes shorter, to another
node, and a payload of `n` bytes is forwarded at most `(n - 33) / 60` times. -/
theorem relay_forwarding_terminates (P : Primitives H) (O : OnionPrimitives) :
    (∀ message message', Forwards P O message message' →
      (message'.payload.drop 33).length + 60 = (message.payload.drop 33).length ∧
        message'.recipient ≠ message.recipient) ∧
    (∀ message forwards, List.IsChain (Forwards P O) (message :: forwards) →
      forwards.length ≤ (message.payload.length - 33) / 60) ∧
    WellFounded fun message' message => Forwards P O message message' := by
  refine ⟨fun message message' h => ?_, fun message forwards hchain => ?_, ?_⟩
  · obtain ⟨hlength, hsource, hother⟩ := h.shorter
    refine ⟨?_, hother⟩
    rw [List.length_drop, List.length_drop]
    simp only [ONION_OVERHEAD, ONION_NONCE_SIZE, ONION_TAG_SIZE, ONION_NEXT_HOP_SIZE, RELAY_SOURCE_OVERHEAD,
      NODE_ID_SIZE, RELAY_CONTENT_TYPE_SIZE] at hlength hsource
    omega
  · exact (Nat.le_div_iff_mul_le (by decide)).mpr (length_forwards hchain)
  · refine Subrelation.wf ?_ (measure fun message : RelayMessage => message.payload.length).wf
    intro message' message h
    obtain ⟨hlength, -⟩ := h.shorter
    show message'.payload.length < message.payload.length
    simp only [ONION_OVERHEAD, ONION_NONCE_SIZE, ONION_TAG_SIZE, ONION_NEXT_HOP_SIZE] at hlength
    omega

/-- What node 1 sends to node 2 for a packet along the path to node 3. -/
def sampleRelayMessage : RelayMessage where
  recipient := FixedBytes.copy 32 [2]
  payload := ((sampleRelay.sessions.decryptMessage clearPrimitives sampleRelayFrame).2.map (·.payload)).getD []

/-- And what node 2 makes of it. -/
def sampleRelayed : RelayMessage :=
  (sampleRelay.relayed Mesh.clearOnion (sampleTunnel 2) sampleRelayMessage.payload).getD sampleRelayMessage

example : sampleRelayMessage.payload.length = 173 ∧ sampleRelayed.recipient = FixedBytes.copy 32 [3] ∧
    Forwards clearPrimitives Mesh.clearOnion sampleRelayMessage sampleRelayed :=
  ⟨by decide +kernel, by decide +kernel, sampleTunnel 2, fun _ _ => true, sampleRelay, 2, sampleRelayFrame, 7,
    some fun _ => 0, sampleForwardedFrame, {}, by decide +kernel, by decide +kernel, by decide +kernel,
    by decide +kernel⟩

end Aegis
