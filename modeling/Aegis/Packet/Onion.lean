import Aegis.Lib.Run
import Aegis.Session.Primitives
import Mathlib.Data.Sym.Sym2
import Mathlib.Logic.Function.Basic

/-!
# Onions

`packet/relay.cpp`: a source wraps a packet in one AEAD layer per hop. The key of a layer depends on the
shared secret of source and hop alone, so the two derive it both ways round; the nonce is the source's
process-wide counter followed by the layer's index.

Threads of a node, and different nodes, interleave between layers: `Mesh` takes one layer at a time, of any
call in progress. Without the cryptography a layer is a `Draw`: who seals for whom, at which layer, with
which number. `encryptions_eq` reads the keys and nonces of a run off its draws, and
`encryptions_nodup_iff` says which draws repeat a pair: those of two nodes that seal for each other.
-/

namespace Aegis

abbrev X25519SharedSecret := FixedBytes 32

structure X25519KeyPair where
  privateKey : X25519PrivateKey
  publicKey : X25519Key

/-- What `relay.cpp` calls: X25519, SHA-256 and ChaCha20-Poly1305. -/
structure OnionPrimitives where
  x25519DeriveSharedSecret : X25519PrivateKey → X25519Key → Option X25519SharedSecret
  sha256 : List UInt8 → Option ChaCha20Poly1305Key
  aead : Aead

def ONION_NEXT_HOP_SIZE : Nat := 32
def ONION_NONCE_SIZE : Nat := 12
def ONION_TAG_SIZE : Nat := 16
def ONION_OVERHEAD : Nat := ONION_NONCE_SIZE + ONION_TAG_SIZE + ONION_NEXT_HOP_SIZE
def ONION_MAX_HOPS : Nat := 8

/-- The characters of `aegis-onion-v1`. -/
def ONION_LABEL : List UInt8 := [97, 101, 103, 105, 115, 45, 111, 110, 105, 111, 110, 45, 118, 49]

def layerKey (P : OnionPrimitives) (myPriv : X25519PrivateKey) (hopPub : X25519Key) :
    Option ChaCha20Poly1305Key := do
  let shared ← P.x25519DeriveSharedSecret myPriv hopPub
  P.sha256 (ONION_LABEL ++ shared.1)

/-- The counter with its low byte first, then the layer with its high byte first. -/
def makeNonce (counter : UInt64) (layer : Nat) : ChaCha20Poly1305Nonce :=
  ⟨(beBytes 8 counter.toNat).reverse ++ beBytes 4 layer, by simp⟩

/-- One turn of the loop of `build_onion`: the key and the nonce it encrypts with, and the layer if the
encryption succeeds. Without a key no nonce is drawn. -/
def sealLayer (P : OnionPrimitives) (self : X25519KeyPair) (path : List NodeId) (pathPubkeys : List X25519Key)
    (i : Nat) (inner : List UInt8) (counter : UInt64) :
    Option ((ChaCha20Poly1305Key × ChaCha20Poly1305Nonce) × Option (List UInt8)) :=
  (layerKey P self.privateKey (pathPubkeys.getD i default)).map fun key =>
    let nonce := makeNonce counter i
    let nextHop := path.getD (i + 1) (FixedBytes.zero 32)
    ((key, nonce), (P.aead.encrypt key nonce (nextHop.1 ++ inner) []).map fun sealed =>
      nonce.1 ++ sealed.1 ++ sealed.2.1)

/-- The layers from `i - 1` down to 0, with the process's counter. -/
def sealLayers (P : OnionPrimitives) (self : X25519KeyPair) (path : List NodeId)
    (pathPubkeys : List X25519Key) : Nat → List UInt8 → UInt64 → UInt64 × Option (List UInt8)
  | 0, inner, counter => (counter, some inner)
  | i + 1, inner, counter =>
    match sealLayer P self path pathPubkeys i inner counter with
    | none => (counter, none)
    | some (_, none) => (counter + 1, none)
    | some (_, some blob) => sealLayers P self path pathPubkeys i blob (counter + 1)

/-- `build_onion` is given a packet and a path with a key for every hop. -/
def onionArguments (path : List NodeId) (pathPubkeys : List X25519Key) (packet : List UInt8) : Bool :=
  !path.isEmpty && path.length = pathPubkeys.length && path.length ≤ ONION_MAX_HOPS && !packet.isEmpty

def buildOnion (P : OnionPrimitives) (self : X25519KeyPair) (path : List NodeId)
    (pathPubkeys : List X25519Key) (packet : List UInt8) (counter : UInt64) :
    UInt64 × Option (List UInt8) :=
  if onionArguments path pathPubkeys packet then
    sealLayers P self path pathPubkeys path.length packet counter
  else (counter, none)

structure PeeledOnion where
  nextHop : NodeId
  inner : List UInt8

/-- Open the outermost layer with the key shared with the source. -/
def peelOnion (P : OnionPrimitives) (self : X25519KeyPair) (sourcePublicKey : X25519Key) (blob : List UInt8) :
    Option PeeledOnion :=
  if blob.length < ONION_OVERHEAD then none
  else do
    let ctLen := blob.length - ONION_NONCE_SIZE - ONION_TAG_SIZE
    let (nonce, reader) ← (WireReader.mk blob).readArray 12
    let (ciphertext, reader) ← reader.readBytes ctLen
    let (tag, reader) ← reader.readArray 16
    if reader.finished then
      let key ← layerKey P self.privateKey sourcePublicKey
      let plaintext ← P.aead.decrypt key nonce ciphertext tag []
      let (nextHop, reader) ← (WireReader.mk plaintext).readArray 32
      some ⟨nextHop, reader.rest⟩
    else none

/-! ### Sizes -/

theorem length_sealLayer {P : OnionPrimitives} {self : X25519KeyPair} {path : List NodeId}
    {pathPubkeys : List X25519Key} {i : Nat} {inner blob : List UInt8} {counter : UInt64}
    {encryption : ChaCha20Poly1305Key × ChaCha20Poly1305Nonce}
    (h : sealLayer P self path pathPubkeys i inner counter = some (encryption, some blob)) :
    blob.length = inner.length + ONION_OVERHEAD := by
  unfold sealLayer at h
  obtain ⟨key, -, heq⟩ := Option.map_eq_some_iff.mp h
  obtain ⟨-, hblob⟩ := Prod.mk.inj heq
  obtain ⟨sealed, hsealed, rfl⟩ := Option.map_eq_some_iff.mp hblob
  have hlength : sealed.1.length = _ := P.aead.length_encrypt hsealed
  simp only [List.length_append, hlength, (makeNonce counter i).2, sealed.2.2,
    (path.getD (i + 1) (FixedBytes.zero 32)).2, ONION_OVERHEAD, ONION_NONCE_SIZE, ONION_TAG_SIZE,
    ONION_NEXT_HOP_SIZE]
  omega

theorem length_sealLayers {P : OnionPrimitives} {self : X25519KeyPair} {path : List NodeId}
    {pathPubkeys : List X25519Key} (n : Nat) {inner onion : List UInt8} {counter : UInt64}
    (h : (sealLayers P self path pathPubkeys n inner counter).2 = some onion) :
    onion.length = inner.length + n * ONION_OVERHEAD := by
  induction n generalizing inner counter with
  | zero =>
    obtain rfl := Option.some.inj h
    simp
  | succ i ih =>
    unfold sealLayers at h
    cases hlayer : sealLayer P self path pathPubkeys i inner counter with
    | none => simp [hlayer] at h
    | some result =>
      obtain ⟨encryption, blob⟩ := result
      cases blob with
      | none => simp [hlayer] at h
      | some blob =>
        rw [hlayer] at h
        rw [ih h, length_sealLayer hlayer, Nat.succ_mul]
        omega

theorem length_buildOnion {P : OnionPrimitives} {self : X25519KeyPair} {path : List NodeId}
    {pathPubkeys : List X25519Key} {packet onion : List UInt8} {counter : UInt64}
    (h : (buildOnion P self path pathPubkeys packet counter).2 = some onion) :
    onion.length = packet.length + path.length * ONION_OVERHEAD := by
  unfold buildOnion at h
  split_ifs at h
  exact length_sealLayers path.length h

theorem length_peelOnion {P : OnionPrimitives} {self : X25519KeyPair} {sourcePublicKey : X25519Key}
    {blob : List UInt8} {peeled : PeeledOnion} (h : peelOnion P self sourcePublicKey blob = some peeled) :
    peeled.inner.length + ONION_OVERHEAD = blob.length := by
  unfold peelOnion at h
  split_ifs at h with hshort
  simp only [Option.bind_eq_bind, Option.bind_eq_some_iff] at h
  obtain ⟨⟨nonce, r₁⟩, hnonce, ⟨ciphertext, r₂⟩, hciphertext, ⟨tag, r₃⟩, -, h⟩ := h
  split_ifs at h
  simp only [Option.bind_eq_some_iff] at h
  obtain ⟨key, -, plaintext, hplaintext, ⟨nextHop, r₄⟩, hnext, heq⟩ := h
  obtain rfl := Option.some.inj heq
  obtain ⟨hct, -⟩ := WireReader.readBytes_eq_some hciphertext
  have hpt := P.aead.length_decrypt hplaintext
  have hrest := congrArg List.length (WireReader.readArray_eq_some hnext)
  simp only [List.length_append, nextHop.2] at hrest
  simp only [ONION_OVERHEAD, ONION_NONCE_SIZE, ONION_TAG_SIZE, ONION_NEXT_HOP_SIZE] at hshort hct ⊢
  omega

/-! ### Calls in progress on a mesh of nodes -/

/-- A `build_onion` call: the layers still to seal, and the onion so far unless the call has failed. -/
structure OnionCall (ι : Type) where
  builder : ι
  path : List NodeId
  pathPubkeys : List X25519Key
  layers : Nat
  inner : Option (List UInt8)

/-- The counter of every node's process and the calls in progress. -/
structure Mesh (ι : Type) where
  counters : ι → UInt64 := fun _ => 0
  calls : List (OnionCall ι) := []

inductive OnionStep (ι : Type) where
  | begin (builder : ι) (path : List NodeId) (pathPubkeys : List X25519Key) (packet : List UInt8)
  | layer (call : Nat)

namespace Mesh

variable {ι : Type} [DecidableEq ι]

/-- One step of some thread of some node, with the encryption it performs. -/
def step (P : OnionPrimitives) (keys : ι → X25519KeyPair) (s : Mesh ι) (action : OnionStep ι) :
    Mesh ι × List (ChaCha20Poly1305Key × ChaCha20Poly1305Nonce) :=
  match action with
  | .begin builder path pathPubkeys packet =>
    if onionArguments path pathPubkeys packet then
      ({ s with calls := s.calls ++ [⟨builder, path, pathPubkeys, path.length, some packet⟩] }, [])
    else (s, [])
  | .layer index =>
    match s.calls[index]? with
    | some ⟨builder, path, pathPubkeys, i + 1, some inner⟩ =>
      match sealLayer P (keys builder) path pathPubkeys i inner (s.counters builder) with
      | none => ({ s with calls := s.calls.set index ⟨builder, path, pathPubkeys, i, none⟩ }, [])
      | some (encryption, blob) =>
        (⟨Function.update s.counters builder (s.counters builder + 1),
          s.calls.set index ⟨builder, path, pathPubkeys, i, blob⟩⟩, [encryption])
    | _ => (s, [])

/-- The state after a run from the start of every process, with its encryptions, oldest first. -/
def run (P : OnionPrimitives) (keys : ι → X25519KeyPair) (schedule : List (OnionStep ι)) :
    Mesh ι × List (ChaCha20Poly1305Key × ChaCha20Poly1305Nonce) :=
  schedule.foldl (Run.record (step P keys)) ({}, [])

def encryptions (P : OnionPrimitives) (keys : ι → X25519KeyPair) (schedule : List (OnionStep ι)) :
    List (ChaCha20Poly1305Key × ChaCha20Poly1305Nonce) :=
  (run P keys schedule).2

theorem layers_of_failed {P : OnionPrimitives} {keys : ι → X25519KeyPair} {s : Mesh ι} {index : Nat}
    {call : OnionCall ι} (hget : s.calls[index]? = some call) (hfailed : call.inner = none) (n : Nat) :
    (List.replicate n (.layer index)).foldl (fun s action => (step P keys s action).1) s = s := by
  have hstep : (step P keys s (.layer index)).1 = s := by
    obtain ⟨builder, path, pathPubkeys, layers, inner⟩ := call
    obtain rfl : inner = none := hfailed
    simp [step, hget]
  induction n with
  | zero => rfl
  | succ n ih => rw [List.replicate_succ, List.foldl_cons, hstep, ih]

/-- A call whose layers are sealed with nothing in between is `build_onion`'s loop. -/
theorem layers_eq_sealLayers {P : OnionPrimitives} {keys : ι → X25519KeyPair} {builder : ι}
    {path : List NodeId} {pathPubkeys : List X25519Key} {index : Nat} (n : Nat) {s : Mesh ι}
    {inner : List UInt8} (hget : s.calls[index]? = some ⟨builder, path, pathPubkeys, n, some inner⟩) :
    let s' := (List.replicate n (.layer index)).foldl (fun s action => (step P keys s action).1) s
    (s'.counters builder, (s'.calls[index]?).bind (·.inner))
      = sealLayers P (keys builder) path pathPubkeys n inner (s.counters builder) := by
  induction n generalizing s inner with
  | zero => simp [sealLayers, hget]
  | succ i ih =>
    have hlt : index < s.calls.length := (List.getElem?_eq_some_iff.mp hget).1
    rw [List.replicate_succ, List.foldl_cons]
    simp only [sealLayers]
    rcases Option.eq_none_or_eq_some
      (sealLayer P (keys builder) path pathPubkeys i inner (s.counters builder)) with hseal | ⟨sealed, hseal⟩
    · have hstep : (step P keys s (.layer index)).1
          = { s with calls := s.calls.set index ⟨builder, path, pathPubkeys, i, none⟩ } := by
        simp [step, hget, hseal]
      rw [hstep, layers_of_failed (List.getElem?_set_self hlt) rfl]
      simp [hseal, hlt]
    · obtain ⟨encryption, blob⟩ := sealed
      have hstep : (step P keys s (.layer index)).1
          = ⟨Function.update s.counters builder (s.counters builder + 1),
              s.calls.set index ⟨builder, path, pathPubkeys, i, blob⟩⟩ := by
        simp [step, hget, hseal]
      rw [hstep]
      cases blob with
      | none =>
        rw [layers_of_failed (List.getElem?_set_self hlt) rfl]
        simp [hseal, hlt]
      | some blob =>
        rw [ih (List.getElem?_set_self hlt)]
        simp [hseal]

theorem begin_layers_eq_buildOnion {P : OnionPrimitives} {keys : ι → X25519KeyPair} (s : Mesh ι) (builder : ι)
    (path : List NodeId) (pathPubkeys : List X25519Key) (packet : List UInt8) :
    let actions := .begin builder path pathPubkeys packet
      :: List.replicate path.length (.layer s.calls.length)
    let s' := actions.foldl (fun s action => (step P keys s action).1) s
    (s'.counters builder, (s'.calls[s.calls.length]?).bind (·.inner))
      = buildOnion P (keys builder) path pathPubkeys packet (s.counters builder) := by
  intro actions s'
  cases harguments : onionArguments path pathPubkeys packet with
  | true =>
    have hbegin : (step P keys s (.begin builder path pathPubkeys packet)).1
        = { s with calls := s.calls ++ [⟨builder, path, pathPubkeys, path.length, some packet⟩] } := by
      simp [step, harguments]
    simp only [s', actions, List.foldl_cons, hbegin, buildOnion, harguments, if_true]
    exact layers_eq_sealLayers path.length (List.getElem?_concat_length)
  | false =>
    have hbegin : (step P keys s (.begin builder path pathPubkeys packet)).1 = s := by
      simp [step, harguments]
    have hidle (n : Nat) : (List.replicate n (.layer s.calls.length)).foldl
        (fun s action => (step P keys s action).1) s = s := by
      induction n with
      | zero => rfl
      | succ n ih =>
        rw [List.replicate_succ, List.foldl_cons]
        simpa [step] using ih
    simp [s', actions, List.foldl_cons, hbegin, hidle, buildOnion, harguments]

/-- A nonce drawn: draw `number` of the builder's process, for layer `layer`, sealed for `hop`. -/
structure Draw (ι : Type) where
  builder : ι
  hop : X25519Key
  layer : Nat
  number : Nat

/-- How often every process has drawn, and the layers left of every call. -/
structure DrawState (ι : Type) where
  drawn : ι → Nat := fun _ => 0
  calls : List (ι × List X25519Key × Nat) := []

/-- A step without the cryptography; `usable` says for which hops a node has a layer key. -/
def drawStep (usable : ι → X25519Key → Bool) (s : DrawState ι) (action : OnionStep ι) :
    DrawState ι × List (Draw ι) :=
  match action with
  | .begin builder path pathPubkeys packet =>
    if onionArguments path pathPubkeys packet then
      ({ s with calls := s.calls ++ [(builder, pathPubkeys, path.length)] }, [])
    else (s, [])
  | .layer index =>
    match s.calls[index]? with
    | some (builder, pathPubkeys, i + 1) =>
      let hop := pathPubkeys.getD i default
      if usable builder hop then
        (⟨Function.update s.drawn builder (s.drawn builder + 1), s.calls.set index (builder, pathPubkeys, i)⟩,
          [⟨builder, hop, i, s.drawn builder⟩])
      else ({ s with calls := s.calls.set index (builder, pathPubkeys, 0) }, [])
    | _ => (s, [])

def draws (usable : ι → X25519Key → Bool) (schedule : List (OnionStep ι)) : List (Draw ι) :=
  (schedule.foldl (Run.record (drawStep usable)) ({}, [])).2

variable (P : OnionPrimitives) (keys : ι → X25519KeyPair)

/-- The node has a layer key for the hop. -/
def usable (builder : ι) (hop : X25519Key) : Bool :=
  (layerKey P (keys builder).privateKey hop).isSome

def Draw.encryption (d : Draw ι) : ChaCha20Poly1305Key × ChaCha20Poly1305Nonce :=
  ((layerKey P (keys d.builder).privateKey d.hop).getD default, makeNonce (UInt64.ofNat d.number) d.layer)

/-- A call that has failed seals no more layers. -/
def view (call : OnionCall ι) : ι × List X25519Key × Nat :=
  (call.builder, call.pathPubkeys, if call.inner.isSome then call.layers else 0)

/-- A mesh and its draws: the same calls, and counters that hold the draws modulo their width. -/
structure Follows (s : Mesh ι × List (ChaCha20Poly1305Key × ChaCha20Poly1305Nonce))
    (t : DrawState ι × List (Draw ι)) : Prop where
  counters : ∀ i, s.1.counters i = UInt64.ofNat (t.1.drawn i)
  calls : s.1.calls.map view = t.1.calls
  encryptions : s.2 = t.2.map (Draw.encryption P keys)

variable {P keys}

theorem Follows.step (hseals : ∀ key nonce plaintext, (P.aead.encrypt key nonce plaintext []).isSome = true)
    {s : Mesh ι × List (ChaCha20Poly1305Key × ChaCha20Poly1305Nonce)} {t : DrawState ι × List (Draw ι)}
    (h : Follows P keys s t) (action : OnionStep ι) :
    Follows P keys (Run.record (step P keys) s action) (Run.record (drawStep (usable P keys)) t action) := by
  obtain ⟨⟨counters, calls⟩, log⟩ := s
  obtain ⟨⟨drawn, open_⟩, drawlog⟩ := t
  obtain ⟨hcounters, hcalls, hlog⟩ := h
  simp only at hcounters hcalls hlog
  subst hcalls hlog
  cases action with
  | begin builder path pathPubkeys packet =>
    simp only [Run.record, Mesh.step, drawStep]
    split_ifs
    · exact ⟨hcounters, by simp [view], by simp⟩
    · exact ⟨hcounters, rfl, by simp⟩
  | layer index =>
    have hidle (hcall : ∀ builder path pathPubkeys i inner,
        calls[index]? ≠ some ⟨builder, path, pathPubkeys, i + 1, some inner⟩) :
        Mesh.step P keys ⟨counters, calls⟩ (.layer index) = (⟨counters, calls⟩, []) ∧
          drawStep (usable P keys) ⟨drawn, calls.map view⟩ (.layer index) = (⟨drawn, calls.map view⟩, []) := by
      simp only [Mesh.step, drawStep, List.getElem?_map]
      cases hget : calls[index]? with
      | none => exact ⟨trivial, rfl⟩
      | some call =>
        obtain ⟨builder, path, pathPubkeys, layers, inner⟩ := call
        cases layers with
        | zero => exact ⟨trivial, by cases inner <;> rfl⟩
        | succ i =>
          cases inner with
          | none => exact ⟨trivial, rfl⟩
          | some inner => exact absurd hget (hcall builder path pathPubkeys i inner)
    by_cases hcall : ∃ builder path pathPubkeys i inner,
        calls[index]? = some ⟨builder, path, pathPubkeys, i + 1, some inner⟩
    · obtain ⟨builder, path, pathPubkeys, i, inner, hget⟩ := hcall
      simp only [Run.record, Mesh.step, drawStep, List.getElem?_map, hget, Option.map_some, view,
        Option.isSome_some, if_true, sealLayer, usable]
      rcases Option.eq_none_or_eq_some (layerKey P (keys builder).privateKey (pathPubkeys.getD i default)) with
        hkey | ⟨key, hkey⟩
      · simp only [hkey, Option.map_none, Option.isSome_none, Bool.false_eq_true, if_false]
        exact ⟨hcounters, by simp [List.map_set, view], by simp⟩
      · obtain ⟨sealed, hsealed⟩ := Option.isSome_iff_exists.mp (hseals key (makeNonce (counters builder) i)
          ((path.getD (i + 1) (FixedBytes.zero 32)).1 ++ inner))
        simp only [hkey, hsealed, Option.map_some, Option.isSome_some, if_true]
        refine ⟨fun j => ?_, by simp [List.map_set, view], ?_⟩
        · by_cases hj : j = builder
          · subst hj
            simp [hcounters j]
          · simp [Function.update_of_ne hj, hcounters j]
        · simp only [List.map_append, List.map_cons, List.map_nil, Draw.encryption, hkey, ← hcounters builder,
            Option.getD_some]
    · obtain ⟨hstep, hdraw⟩ := hidle fun builder path pathPubkeys i inner hget =>
        hcall ⟨builder, path, pathPubkeys, i, inner, hget⟩
      simp only [Run.record, hstep, hdraw]
      exact ⟨hcounters, rfl, by simp⟩

theorem encryptions_eq (hseals : ∀ key nonce plaintext, (P.aead.encrypt key nonce plaintext []).isSome = true)
    (schedule : List (OnionStep ι)) :
    encryptions P keys schedule = (draws (usable P keys) schedule).map (Draw.encryption P keys) :=
  (Run.simulation (Follows P keys) (fun _ _ action h => h.step hseals action)
    ⟨fun _ => rfl, rfl, rfl⟩ schedule).encryptions

/-! ### Which draws repeat a key and a nonce -/

/-- Draws for the same pair of nodes, whichever of them seals, for the same layer and with the same
counter. -/
def Draw.Clashes (keys : ι → X25519KeyPair) (d e : Draw ι) : Prop :=
  s((keys d.builder).publicKey, d.hop) = s((keys e.builder).publicKey, e.hop) ∧
    d.layer = e.layer ∧ d.number % 2 ^ 64 = e.number % 2 ^ 64

instance (keys : ι → X25519KeyPair) (d e : Draw ι) : Decidable (d.Clashes keys e) :=
  inferInstanceAs (Decidable (_ ∧ _ ∧ _))

/-- The layers left are layers of an onion, and so is every draw's, which is for a usable hop. -/
structure DrawsBounded (usable : ι → X25519Key → Bool) (s : DrawState ι × List (Draw ι)) : Prop where
  calls : ∀ call ∈ s.1.calls, call.2.2 ≤ ONION_MAX_HOPS
  draws : ∀ d ∈ s.2, usable d.builder d.hop = true ∧ d.layer < ONION_MAX_HOPS

theorem DrawsBounded.step {usable : ι → X25519Key → Bool} {s : DrawState ι × List (Draw ι)}
    (h : DrawsBounded usable s) (action : OnionStep ι) :
    DrawsBounded usable (Run.record (drawStep usable) s action) := by
  obtain ⟨s, log⟩ := s
  have hsame : DrawsBounded usable (s, log ++ []) := by simpa using h
  cases action with
  | begin builder path pathPubkeys packet =>
    simp only [Run.record, drawStep]
    split_ifs with harguments
    · refine ⟨fun call hcall => ?_, hsame.draws⟩
      rcases List.mem_append.mp hcall with hcall | hcall
      · exact h.calls call hcall
      · simp only [onionArguments, Bool.and_eq_true, decide_eq_true_eq] at harguments
        rw [List.mem_singleton.mp hcall]
        exact harguments.1.2
    · exact hsame
  | layer index =>
    simp only [Run.record, drawStep]
    split
    · rename_i builder pathPubkeys i hget
      have hle : i + 1 ≤ ONION_MAX_HOPS := h.calls _ (List.mem_of_getElem? hget)
      have hset (n : Nat) (hn : n ≤ ONION_MAX_HOPS) :
          ∀ call ∈ s.calls.set index (builder, pathPubkeys, n), call.2.2 ≤ ONION_MAX_HOPS := by
        intro call hcall
        rcases List.mem_or_eq_of_mem_set hcall with hcall | rfl
        · exact h.calls call hcall
        · exact hn
      split_ifs with husable
      · refine ⟨hset i (by omega), fun d hd => ?_⟩
        rcases List.mem_append.mp hd with hd | hd
        · exact h.draws d hd
        · rw [List.mem_singleton.mp hd]
          exact ⟨husable, hle⟩
      · exact ⟨hset 0 (by omega), hsame.draws⟩
    · exact hsame

theorem draws_bounded (usable : ι → X25519Key → Bool) (schedule : List (OnionStep ι)) {d : Draw ι}
    (hd : d ∈ draws usable schedule) : usable d.builder d.hop = true ∧ d.layer < ONION_MAX_HOPS :=
  (Run.invariant (DrawsBounded usable) (fun _ action h => h.step action) ⟨by simp, by simp⟩ schedule).draws d hd

theorem makeNonce_inj {c c' : UInt64} {layer layer' : Nat} (hl : layer < ONION_MAX_HOPS)
    (hl' : layer' < ONION_MAX_HOPS) (h : makeNonce c layer = makeNonce c' layer') : c = c' ∧ layer = layer' := by
  have hbytes := congrArg Subtype.val h
  obtain ⟨hcounter, hlayer⟩ := List.append_inj hbytes (by simp)
  simp only [ONION_MAX_HOPS] at hl hl'
  refine ⟨UInt64.toNat_inj.mp (beBytes_inj c.toNat_lt c'.toNat_lt (List.reverse_injective hcounter)), ?_⟩
  exact beBytes_inj (n := 4) (by omega) (by omega) hlayer

omit [DecidableEq ι] in
theorem Draw.encryption_eq_iff (hkeys : Function.Injective fun i => (keys i).publicKey)
    (hsymmetric : ∀ i j, P.x25519DeriveSharedSecret (keys i).privateKey (keys j).publicKey
      = P.x25519DeriveSharedSecret (keys j).privateKey (keys i).publicKey)
    (hhash : ∀ (s s' : X25519SharedSecret) key, P.sha256 (ONION_LABEL ++ s.1) = some key →
      P.sha256 (ONION_LABEL ++ s'.1) = some key → s = s')
    {d e : Draw ι} (hd : usable P keys d.builder d.hop = true) (he : usable P keys e.builder e.hop = true)
    (hlayer : d.layer < ONION_MAX_HOPS) (hlayer' : e.layer < ONION_MAX_HOPS)
    (hseparates : ∀ s, P.x25519DeriveSharedSecret (keys d.builder).privateKey d.hop = some s →
      P.x25519DeriveSharedSecret (keys e.builder).privateKey e.hop = some s →
      s((keys d.builder).publicKey, d.hop) = s((keys e.builder).publicKey, e.hop)) :
    d.encryption P keys = e.encryption P keys ↔ d.Clashes keys e := by
  obtain ⟨key, hkey⟩ := Option.isSome_iff_exists.mp hd
  obtain ⟨key', hkey'⟩ := Option.isSome_iff_exists.mp he
  have hnumber : UInt64.ofNat d.number = UInt64.ofNat e.number ↔ d.number % 2 ^ 64 = e.number % 2 ^ 64 := by
    rw [← UInt64.toNat_inj, UInt64.toNat_ofNat', UInt64.toNat_ofNat']
  simp only [Draw.encryption, Draw.Clashes, hkey, hkey', Option.getD_some, Prod.mk.injEq]
  constructor
  · rintro ⟨rfl, hnonce⟩
    obtain ⟨hcounter, hsame⟩ := makeNonce_inj hlayer hlayer' hnonce
    obtain ⟨s, hs, hsum⟩ := Option.bind_eq_some_iff.mp hkey
    obtain ⟨s', hs', hsum'⟩ := Option.bind_eq_some_iff.mp hkey'
    obtain rfl := hhash s s' _ hsum hsum'
    exact ⟨hseparates s hs hs', hsame, hnumber.mp hcounter⟩
  · rintro ⟨hpair, hsame, hmod⟩
    rw [hsame, hnumber.mpr hmod]
    refine ⟨Option.some.inj (hkey.symm.trans (Eq.trans ?_ hkey')), rfl⟩
    rcases Sym2.eq_iff.mp hpair with ⟨hbuilder, hhop⟩ | ⟨hbuilder, hhop⟩
    · rw [hkeys hbuilder, hhop]
    · -- each seals for the other, and the secret is the same
      simp only [layerKey]
      rw [hhop, ← hbuilder, hsymmetric]

/-- A private key is its own public key, a shared secret the bytewise sum, a digest what follows the
label. -/
def clearOnion : OnionPrimitives where
  x25519DeriveSharedSecret self peer := some ⟨List.zipWith (· + ·) self.1 peer.1, by simp [self.2, peer.2]⟩
  sha256 bytes := some (FixedBytes.copy 32 (bytes.drop ONION_LABEL.length))
  aead := clearAead

def sampleKeys (node : Bool) : X25519KeyPair :=
  ⟨FixedBytes.copy 32 [if node then 2 else 1], FixedBytes.copy 32 [if node then 2 else 1]⟩

theorem clearOnion_symmetric (i j : Bool) :
    clearOnion.x25519DeriveSharedSecret (sampleKeys i).privateKey (sampleKeys j).publicKey
      = clearOnion.x25519DeriveSharedSecret (sampleKeys j).privateKey (sampleKeys i).publicKey := by
  revert i j
  decide +kernel

theorem sampleKeys_injective : Function.Injective fun i => (sampleKeys i).publicKey := by
  intro i j
  revert i j
  decide +kernel

theorem clearOnion_sha256 (s s' : X25519SharedSecret) (key : ChaCha20Poly1305Key)
    (h : clearOnion.sha256 (ONION_LABEL ++ s.1) = some key)
    (h' : clearOnion.sha256 (ONION_LABEL ++ s'.1) = some key) : s = s' := by
  have hdigest (t : X25519SharedSecret) : clearOnion.sha256 (ONION_LABEL ++ t.1) = some t := by
    simp only [clearOnion, List.drop_left, FixedBytes.copy_self]
  rw [hdigest] at h h'
  exact (Option.some.inj h).trans (Option.some.inj h').symm

/-- The first node seals for the second, and the second two layers for the first. -/
def crossedSchedule : List (OnionStep Bool) :=
  let first := (sampleKeys false).publicKey
  let second := (sampleKeys true).publicKey
  [.begin false [second] [second] [0], .layer 0, .begin true [first, first] [first, first] [0], .layer 1, .layer 1]

end Mesh

end Aegis
