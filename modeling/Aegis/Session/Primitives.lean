import Aegis.Wire.Bytes

/-!
# Cryptographic primitives

The session layer calls a Noise IK library, ChaCha20-Poly1305, SHA-256 for node ids and BLAKE2s for
transcripts. None of them is part of the repository, so they are parameters here, gathered in
`Primitives`. What a result needs of them is a hypothesis with a name: `NoiseIk.Complete` (an exchange
between honest parties succeeds), `Aead.Correct` (what was sealed opens), `Aead.Separates` (a frame opens
under one key only).

`clearPrimitives` is an instance without secrecy for which these hold. It is what concrete runs are
evaluated with.
-/

namespace Aegis

abbrev Poly1305Tag := FixedBytes 16

/-- `chacha20_poly1305_encrypt` and `chacha20_poly1305_decrypt`. Either writes an output as long as its
input. -/
structure Aead where
  encrypt : ChaCha20Poly1305Key → ChaCha20Poly1305Nonce → List UInt8 → List UInt8 →
    Option (List UInt8 × Poly1305Tag)
  decrypt : ChaCha20Poly1305Key → ChaCha20Poly1305Nonce → List UInt8 → Poly1305Tag → List UInt8 →
    Option (List UInt8)
  length_encrypt : ∀ {key nonce plaintext aad ciphertext tag},
    encrypt key nonce plaintext aad = some (ciphertext, tag) → ciphertext.length = plaintext.length
  length_decrypt : ∀ {key nonce ciphertext tag aad plaintext},
    decrypt key nonce ciphertext tag aad = some plaintext → plaintext.length = ciphertext.length

/-- Sealing succeeds and opening undoes it. -/
def Aead.Correct (aead : Aead) : Prop :=
  ∀ key nonce plaintext aad, ∃ ciphertext tag,
    aead.encrypt key nonce plaintext aad = some (ciphertext, tag) ∧
      aead.decrypt key nonce ciphertext tag aad = some plaintext

/-- No box opens under two of the keys of `keys`, whatever its nonce and associated data. -/
def Aead.Separates (aead : Aead) (keys : List ChaCha20Poly1305Key) : Prop :=
  ∀ key ∈ keys, ∀ key' ∈ keys, ∀ nonce ciphertext tag aad,
    (aead.decrypt key nonce ciphertext tag aad).isSome →
      (aead.decrypt key' nonce ciphertext tag aad).isSome → key = key'

theorem Aead.Separates.sublist {aead : Aead} {keys keys' : List ChaCha20Poly1305Key}
    (h : aead.Separates keys) (hsub : keys'.Sublist keys) : aead.Separates keys' :=
  fun key hkey key' hkey' => h key (hsub.subset hkey) key' (hsub.subset hkey')

structure NoiseIkSplitResult where
  sendKey : ChaCha20Poly1305Key
  receiveKey : ChaCha20Poly1305Key
deriving DecidableEq

/-- `NoiseIkHandshake` with states in `H`. Messages carry no payload, and a call that fails discards the
handshake. -/
structure NoiseIk (H : Type) where
  createInitiator : X25519PrivateKey → X25519Key → List UInt8 → Entropy → Option H
  createResponder : X25519PrivateKey → List UInt8 → Entropy → Option H
  writeMessage : H → Option (List UInt8 × H)
  readMessage : H → List UInt8 → Option H
  remoteStaticPublicKey : H → Option X25519Key
  split : H → Option NoiseIkSplitResult

/-- Noise IK between honest parties with one prologue: a first message written for the responder's static
key is read by it and names the initiator's; the 48-byte answer is read by the initiator and names the
responder's; and the two splits hold the same keys crosswise. -/
def NoiseIk.Complete {H : Type} (noise : NoiseIk H) (publicKey : X25519PrivateKey → X25519Key) : Prop :=
  ∀ initiator responder prologue entropy entropy' start sent first listening,
    noise.createInitiator initiator (publicKey responder) prologue entropy = some start →
    noise.writeMessage start = some (first, sent) →
    noise.createResponder responder prologue entropy' = some listening →
    ∃ heard second answered responderKeys finished initiatorKeys,
      noise.readMessage listening first = some heard ∧
      noise.remoteStaticPublicKey heard = some (publicKey initiator) ∧
      noise.writeMessage heard = some (second, answered) ∧ second.length = 48 ∧
      noise.split answered = some responderKeys ∧
      noise.readMessage sent second = some finished ∧
      noise.remoteStaticPublicKey finished = some (publicKey responder) ∧
      noise.split finished = some initiatorKeys ∧
      initiatorKeys = ⟨responderKeys.receiveKey, responderKeys.sendKey⟩

/-- The primitives the session layer calls. `transcriptHash` is BLAKE2s-256 of one byte string. -/
structure Primitives (H : Type) where
  noise : NoiseIk H
  aead : Aead
  hashPublicKey : X25519Key → NodeId
  transcriptHash : List UInt8 → Option CryptoHash

/-! ### An instance in the clear -/

/-- A handshake that sends its static keys and one ephemeral value in the clear. -/
inductive ClearHandshake where
  | start (self peer ephemeral : X25519Key)
  | sent (peer ephemeral : X25519Key)
  | listening (self : X25519Key)
  | heard (peer ephemeral : X25519Key)
  | finished (peer : X25519Key) (keys : NoiseIkSplitResult)
deriving DecidableEq

/-- The key of the answering direction. -/
def clearReverseKey (key : X25519Key) : X25519Key := ⟨key.1.reverse, by simp [key.2]⟩

/-- A private key is its own public key, the first message is the two static keys and the ephemeral value,
and the answer is the ephemeral value and sixteen zero bytes. -/
def clearNoise : NoiseIk ClearHandshake where
  createInitiator self peer _ entropy :=
    entropy.map fun byte => .start self peer ⟨(List.range 32).map byte, by simp⟩
  createResponder self _ entropy := entropy.map fun _ => .listening self
  writeMessage
    | .start self peer ephemeral => some (self.1 ++ peer.1 ++ ephemeral.1, .sent peer ephemeral)
    | .heard peer ephemeral =>
      some (ephemeral.1 ++ List.replicate 16 0, .finished peer ⟨clearReverseKey ephemeral, ephemeral⟩)
    | _ => none
  readMessage
    | .listening self, message =>
      if h : message.length = 96 ∧ (message.drop 32).take 32 = self.1 then
        some (.heard ⟨message.take 32, by simp [h.1]⟩ ⟨message.drop 64, by simp [h.1]⟩)
      else none
    | .sent peer ephemeral, message =>
      if message = ephemeral.1 ++ List.replicate 16 0 then
        some (.finished peer ⟨ephemeral, clearReverseKey ephemeral⟩)
      else none
    | _, _ => none
  remoteStaticPublicKey
    | .heard peer _ => some peer
    | .finished peer _ => some peer
    | _ => none
  split
    | .finished _ keys => some keys
    | _ => none

/-- A box is the plaintext itself, its tag the first sixteen bytes of the key. -/
def clearAead : Aead where
  encrypt key _ plaintext _ := some (plaintext, ⟨key.1.take 16, by simp [key.2]⟩)
  decrypt key _ ciphertext tag _ := if tag.1 = key.1.take 16 then some ciphertext else none
  length_encrypt h := by cases h; rfl
  length_decrypt h := by
    obtain ⟨-, hsome⟩ := Option.ite_none_right_eq_some.mp h
    rw [Option.some.inj hsome]

/-- A digest that keeps what tells the frames of a short run apart: the first bytes after the header's
first three, and the last ones. -/
def clearTranscriptHash (message : List UInt8) : CryptoHash :=
  let kept := (message.drop 3).take 16 ++ message.reverse.take 16
  ⟨kept ++ List.replicate (32 - kept.length) 0, by
    have hlen : kept.length ≤ 32 := by simp [kept]; omega
    simp; omega⟩

def clearPrimitives : Primitives ClearHandshake where
  noise := clearNoise
  aead := clearAead
  hashPublicKey key := key
  transcriptHash message := some (clearTranscriptHash message)

theorem clearAead_correct : clearAead.Correct := by
  intro key nonce plaintext aad
  exact ⟨_, _, rfl, by simp [clearAead]⟩

theorem clearAead_separates {keys : List ChaCha20Poly1305Key}
    (h : ∀ key ∈ keys, ∀ key' ∈ keys, key.1.take 16 = key'.1.take 16 → key = key') : clearAead.Separates keys := by
  intro key hkey key' hkey' nonce ciphertext tag aad hopen hopen'
  have htag {k : ChaCha20Poly1305Key} (hsome : (clearAead.decrypt k nonce ciphertext tag aad).isSome = true) :
      tag.1 = k.1.take 16 := by
    simpa [clearAead] using hsome
  exact h key hkey key' hkey' ((htag hopen).symm.trans (htag hopen'))

theorem clearNoise_complete : clearNoise.Complete id := by
  intro initiator responder prologue entropy entropy' start sent first listening hstart hwrite hlisten
  obtain ⟨byte, -, rfl⟩ := Option.map_eq_some_iff.mp hstart
  obtain ⟨-, -, rfl⟩ := Option.map_eq_some_iff.mp hlisten
  obtain ⟨rfl, rfl⟩ := Prod.mk.inj (Option.some.inj hwrite)
  obtain ⟨self, hself⟩ := initiator
  obtain ⟨peer, hpeer⟩ := responder
  refine ⟨.heard ⟨self, hself⟩ ⟨(List.range 32).map byte, by simp⟩, _, _, _, _, _, ?_, rfl, rfl, by simp,
    rfl, if_pos rfl, rfl, rfl, rfl⟩
  have htake : (self ++ (peer ++ (List.range 32).map byte)).take 32 = self := by
    rw [List.take_append_of_le_length (by omega), List.take_of_length_le (by omega)]
  have hdrop : (self ++ (peer ++ (List.range 32).map byte)).drop 32 = peer ++ (List.range 32).map byte := by
    rw [List.drop_append_of_le_length (by omega), List.drop_of_length_le (by omega), List.nil_append]
  have hmiddle : (peer ++ (List.range 32).map byte).take 32 = peer := by
    rw [List.take_append_of_le_length (by omega), List.take_of_length_le (by omega)]
  have hlast : (self ++ (peer ++ (List.range 32).map byte)).drop 64 = (List.range 32).map byte := by
    rw [show 64 = 32 + 32 by rfl, ← List.drop_drop, hdrop, List.drop_append_of_le_length (by omega),
      List.drop_of_length_le (by omega), List.nil_append]
  simp [clearNoise, htake, hdrop, hmiddle, hlast, hself, hpeer]

end Aegis
