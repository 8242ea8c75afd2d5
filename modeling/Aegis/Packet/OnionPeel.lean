import Aegis.Packet.Onion

/-!
# Peeling an onion

`build_onion` wraps from the destination outwards, in one process. The hops peel in the other direction, each
with its own private key and the public key of the source. Between the two stand the blobs: `blobs i` is what the
loop of `build_onion` holds when the layers below `i` are still to be sealed, and what hop `i` is handed.
-/

namespace Aegis

/-- Both ends derive one secret, and the secret can be hashed. -/
def OnionPrimitives.Agrees (P : OnionPrimitives) (source hop : X25519KeyPair) : Prop :=
  ∃ shared, P.x25519DeriveSharedSecret source.privateKey hop.publicKey = some shared ∧
    P.x25519DeriveSharedSecret hop.privateKey source.publicKey = some shared ∧
    (P.sha256 (ONION_LABEL ++ shared.1)).isSome

variable {P : OnionPrimitives} {source hop : X25519KeyPair}

theorem OnionPrimitives.Agrees.layerKey (h : P.Agrees source hop) :
    ∃ key, Aegis.layerKey P source.privateKey hop.publicKey = some key ∧
      Aegis.layerKey P hop.privateKey source.publicKey = some key := by
  obtain ⟨shared, hsource, hhop, hhash⟩ := h
  obtain ⟨key, hkey⟩ := Option.isSome_iff_exists.mp hhash
  refine ⟨key, ?_, ?_⟩
  · rw [Aegis.layerKey, hsource]
    exact hkey
  · rw [Aegis.layerKey, hhop]
    exact hkey

/-- What `peel_onion` makes of a nonce, a ciphertext and a tag in a row. -/
theorem peelOnion_layer {key : ChaCha20Poly1305Key} (hkey : layerKey P hop.privateKey source.publicKey = some key)
    {nonce : ChaCha20Poly1305Nonce} {ciphertext : List UInt8} {tag : Poly1305Tag} {nextHop : NodeId}
    {inner : List UInt8} (hopen : P.aead.decrypt key nonce ciphertext tag [] = some (nextHop.1 ++ inner)) :
    peelOnion P hop source.publicKey (nonce.1 ++ (ciphertext ++ tag.1)) = some ⟨nextHop, inner⟩ := by
  have hciphertext : nextHop.1.length + inner.length = ciphertext.length := by
    rw [← List.length_append]
    exact P.aead.length_decrypt hopen
  have hblob : (nonce.1 ++ (ciphertext ++ tag.1)).length = 12 + (ciphertext.length + 16) := by
    rw [List.length_append, List.length_append, nonce.2, tag.2]
  have hlong : ¬(nonce.1 ++ (ciphertext ++ tag.1)).length < ONION_OVERHEAD := by
    rw [hblob, ← hciphertext, nextHop.2]
    simp only [ONION_OVERHEAD, ONION_NONCE_SIZE, ONION_TAG_SIZE, ONION_NEXT_HOP_SIZE]
    omega
  have hctLen : (nonce.1 ++ (ciphertext ++ tag.1)).length - ONION_NONCE_SIZE - ONION_TAG_SIZE
      = ciphertext.length := by
    rw [hblob]
    simp only [ONION_NONCE_SIZE, ONION_TAG_SIZE]
    omega
  have htag := WireReader.readArray_append tag []
  rw [List.append_nil] at htag
  unfold peelOnion
  rw [if_neg hlong, hctLen, WireReader.readArray_append]
  simp only [Option.bind_eq_bind, Option.bind_some, WireReader.readBytes_append rfl, htag, hkey, hopen,
    WireReader.readArray_append, WireReader.finished, List.isEmpty_nil, if_true]

theorem sealLayer_peels (hP : P.aead.Correct) (hagree : P.Agrees source hop) {path : List NodeId}
    {pathPubkeys : List X25519Key} {i : Nat} (hi : pathPubkeys.getD i default = hop.publicKey)
    (inner : List UInt8) (counter : UInt64) :
    ∃ encryption blob, sealLayer P source path pathPubkeys i inner counter = some (encryption, some blob) ∧
      peelOnion P hop source.publicKey blob = some ⟨path.getD (i + 1) (FixedBytes.zero 32), inner⟩ := by
  obtain ⟨key, hsource, hhop⟩ := hagree.layerKey
  obtain ⟨ciphertext, tag, hseal, hopen⟩ :=
    hP key (makeNonce counter i) ((path.getD (i + 1) (FixedBytes.zero 32)).1 ++ inner) []
  refine ⟨(key, makeNonce counter i), _, ?_, peelOnion_layer hhop hopen⟩
  simp only [sealLayer, hi, hsource, hseal, Option.map_some, List.append_assoc]

/-- The loop from layer `n - 1` down, with the blob it holds before each layer: hop `i` peels `blobs i` and finds
the hop after it and `blobs (i + 1)`. -/
theorem sealLayers_peels (hP : P.aead.Correct) {hops : List (NodeId × X25519KeyPair)}
    (hagree : ∀ hop ∈ hops, P.Agrees source hop.2) (n : Nat) (hn : n ≤ hops.length) (inner : List UInt8)
    (counter : UInt64) :
    let path := hops.map Prod.fst
    let pathPubkeys := hops.map fun hop => hop.2.publicKey
    ∃ blobs : Nat → List UInt8, blobs n = inner ∧
      (∀ i ≤ n, sealLayers P source path pathPubkeys n inner counter
        = sealLayers P source path pathPubkeys i (blobs i) (counter + UInt64.ofNat (n - i))) ∧
      ∀ i < n, ∀ hop, hops[i]? = some hop →
        peelOnion P hop.2 source.publicKey (blobs i)
          = some ⟨path.getD (i + 1) (FixedBytes.zero 32), blobs (i + 1)⟩ := by
  intro path pathPubkeys
  -- on the number of layers, with the blob and the counter general
  induction n generalizing inner counter with
  | zero =>
    refine ⟨fun _ => inner, rfl, fun i hi => ?_, by omega⟩
    obtain rfl : i = 0 := by omega
    simp [sealLayers]
  | succ n ih =>
    have hget : hops[n]? = some hops[n] := List.getElem?_eq_getElem (by omega)
    have hpubkey : pathPubkeys.getD n default = hops[n].2.publicKey := by
      simp [pathPubkeys, List.getD_eq_getElem?_getD, hget]
    obtain ⟨encryption, blob, hseal, hpeel⟩ := @sealLayer_peels P source hops[n].2 hP
      (hagree _ (List.mem_of_getElem? hget)) path pathPubkeys n hpubkey inner counter
    have hloop : sealLayers P source path pathPubkeys (n + 1) inner counter
        = sealLayers P source path pathPubkeys n blob (counter + 1) := by
      rw [sealLayers, hseal]
    obtain ⟨blobs, hlast, hsealed, hpeeled⟩ := ih (by omega) blob (counter + 1)
    refine ⟨Function.update blobs (n + 1) inner, Function.update_self _ _ _, fun i hi => ?_, fun i hi hop hhop => ?_⟩
    · by_cases hle : i ≤ n
      · have hcounter : counter + 1 + UInt64.ofNat (n - i) = counter + UInt64.ofNat (n + 1 - i) := by
          rw [show n + 1 - i = 1 + (n - i) by omega, UInt64.ofNat_add, ← UInt64.add_assoc]
          rfl
        rw [hloop, hsealed i hle, hcounter, Function.update_of_ne (by omega)]
      · obtain rfl : i = n + 1 := by omega
        simp
    · rw [Function.update_of_ne (by omega)]
      by_cases hlt : i < n
      · rw [Function.update_of_ne (by omega)]
        exact hpeeled i hlt hop hhop
      · obtain rfl : i = n := by omega
        obtain rfl : hops[i] = hop := Option.some.inj (hget.symm.trans hhop)
        rw [Function.update_self, hlast]
        exact hpeel

/-- The onion round trip: `blobs i` is the onion for hop `i` and has 60 bytes for every hop from `i` on. Hop `i`
peels it to the next hop and `blobs (i + 1)`, and only the last one sees the zero hop, and then the packet. -/
theorem onion_round_trip (P : OnionPrimitives) (hP : P.aead.Correct) (source : X25519KeyPair)
    (hops : List (NodeId × X25519KeyPair)) (hpath : 1 ≤ hops.length) (hmax : hops.length ≤ ONION_MAX_HOPS)
    (hids : ∀ hop ∈ hops, hop.1 ≠ FixedBytes.zero 32) (hagree : ∀ hop ∈ hops, P.Agrees source hop.2)
    (packet : List UInt8) (hpacket : packet ≠ []) (counter : UInt64) :
    let path := hops.map Prod.fst
    let pathPubkeys := hops.map fun hop => hop.2.publicKey
    ∃ blobs : Nat → List UInt8,
      (buildOnion P source path pathPubkeys packet counter).2 = some (blobs 0) ∧
      blobs hops.length = packet ∧
      (∀ i ≤ hops.length, (blobs i).length = packet.length + 60 * (hops.length - i) ∧
        buildOnion P source path pathPubkeys packet counter
          = sealLayers P source path pathPubkeys i (blobs i) (counter + UInt64.ofNat (hops.length - i))) ∧
      ∀ i hop, hops[i]? = some hop → ∃ nextHop,
        peelOnion P hop.2 source.publicKey (blobs i) = some ⟨nextHop, blobs (i + 1)⟩ ∧
        (∀ next, hops[i + 1]? = some next → nextHop = next.1) ∧
        (nextHop = FixedBytes.zero 32 ↔ i + 1 = hops.length) := by
  intro path pathPubkeys
  have harguments : onionArguments path pathPubkeys packet = true := by
    have hsome : hops ≠ [] := List.ne_nil_of_length_pos hpath
    simp [onionArguments, path, pathPubkeys, hsome, hmax, hpacket]
  have hbuild : buildOnion P source path pathPubkeys packet counter
      = sealLayers P source path pathPubkeys hops.length packet counter := by
    rw [buildOnion, if_pos harguments, List.length_map]
  obtain ⟨blobs, hlast, hsealed, hpeeled⟩ := sealLayers_peels hP hagree hops.length (Nat.le_refl _) packet counter
  have honion : (buildOnion P source path pathPubkeys packet counter).2 = some (blobs 0) := by
    rw [hbuild, hsealed 0 (Nat.zero_le _)]
    rfl
  refine ⟨blobs, honion, hlast, fun i hi => ⟨?_, hbuild.trans (hsealed i hi)⟩, fun i hop hhop => ?_⟩
  · -- the whole onion is measured twice: from the packet and from blob `i`
    have hwhole := length_buildOnion honion
    have hrest : (blobs 0).length = (blobs i).length + i * ONION_OVERHEAD := by
      rw [hbuild, hsealed i hi] at honion
      exact length_sealLayers i honion
    simp only [path, List.length_map, ONION_OVERHEAD, ONION_NONCE_SIZE, ONION_TAG_SIZE,
      ONION_NEXT_HOP_SIZE] at hwhole hrest
    omega
  · have hi : i < hops.length := (List.getElem?_eq_some_iff.mp hhop).1
    refine ⟨_, hpeeled i hi hop hhop, fun next hnext => ?_, ?_⟩
    · simp [List.getD_eq_getElem?_getD, hnext]
    · cases hnext : hops[i + 1]? with
      | none =>
        have hend : hops.length ≤ i + 1 := List.getElem?_eq_none_iff.mp hnext
        simp only [List.getD_eq_getElem?_getD, List.getElem?_map, hnext, Option.map_none, Option.getD_none,
          true_iff]
        omega
      | some next =>
        have hmore : i + 1 < hops.length := (List.getElem?_eq_some_iff.mp hnext).1
        simp only [List.getD_eq_getElem?_getD, List.getElem?_map, hnext, Option.map_some, Option.getD_some]
        exact ⟨fun hzero => absurd hzero (hids next (List.mem_of_getElem? hnext)), by omega⟩

theorem Mesh.clearOnion_agrees (i j : Bool) : Mesh.clearOnion.Agrees (Mesh.sampleKeys i) (Mesh.sampleKeys j) :=
  ⟨_, rfl, Mesh.clearOnion_symmetric j i, rfl⟩

/-- The first node sends through the second to a third with the second's keys. -/
def sampleHops : List (NodeId × X25519KeyPair) :=
  [(FixedBytes.copy 32 [2], Mesh.sampleKeys true), (FixedBytes.copy 32 [3], Mesh.sampleKeys true)]

theorem onion_round_trip_sampleHops :
    ∃ onion inner : List UInt8, onion.length = 123 ∧ inner.length = 63 ∧
      peelOnion Mesh.clearOnion (Mesh.sampleKeys true) (Mesh.sampleKeys false).publicKey onion
        = some ⟨FixedBytes.copy 32 [3], inner⟩ ∧
      peelOnion Mesh.clearOnion (Mesh.sampleKeys true) (Mesh.sampleKeys false).publicKey inner
        = some ⟨FixedBytes.zero 32, [7, 8, 9]⟩ := by
  obtain ⟨blobs, -, hlast, hsizes, hpeels⟩ := onion_round_trip Mesh.clearOnion clearAead_correct
    (Mesh.sampleKeys false) sampleHops (by decide) (by decide) (by decide +kernel)
    (by simp [sampleHops, Mesh.clearOnion_agrees]) [7, 8, 9] (by decide) 0
  obtain ⟨first, hfirst, hnext, -⟩ := hpeels 0 _ rfl
  obtain ⟨second, hsecond, -, hend⟩ := hpeels 1 _ rfl
  obtain rfl := hnext _ rfl
  obtain rfl := hend.mpr rfl
  refine ⟨blobs 0, blobs 1, (hsizes 0 (by decide)).1, (hsizes 1 (by decide)).1, hfirst, ?_⟩
  rw [← hlast]
  exact hsecond

end Aegis
