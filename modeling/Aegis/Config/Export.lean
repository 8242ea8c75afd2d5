import Aegis.Config.Config

/-!
# The exported configuration

The text that `/config export` of `cli/commands.cpp` writes, and what `parse_yaml` makes of it. Line by line the
text sets the fields to what they were, up to the entries of `allowed_ips`: an IPv6 prefix has a colon, so its
list item is taken for the start of another peer, whose key is what stands before the colon. The export reads back
exactly if all prefixes are IPv4.
-/

namespace Aegis

/-! ## The writer -/

def toHex (bytes : List UInt8) : List UInt8 :=
  bytes.flatMap fun byte : UInt8 => [hexChar ((byte >>> 4) &&& 0x0F).toUInt16, hexChar (byte &&& 0x0F).toUInt16]

def exportInterface (iface : InterfaceConfig) : List UInt8 :=
  asciiBytes "interface:\n" ++
  (asciiBytes "  address: " ++ (if iface.address = [] then asciiBytes "10.10.0.1/24" else iface.address) ++
    asciiBytes "\n") ++
  (asciiBytes "  listen_port: " ++ decimalText (if iface.listenPort ≠ 0 then iface.listenPort.toNat else 51820) ++
    asciiBytes "\n") ++
  (asciiBytes "  underlay_mtu: " ++ decimalText iface.underlayMtu.toNat ++ asciiBytes "\n") ++
  (asciiBytes "  max_relay_depth: " ++ decimalText iface.maxRelayDepth.toNat ++ asciiBytes "\n") ++
  (asciiBytes "  padding_bucket_size: " ++ decimalText iface.paddingBucketSize.toNat ++ asciiBytes "\n") ++
  match iface.stunServer with
  | some server => asciiBytes "  stun_server: " ++ server ++ asciiBytes "\n"
  | none => []

def exportIdentity (networkId : NetworkId) (invite : Option (List UInt8)) : List UInt8 :=
  asciiBytes "\nidentity:\n" ++
  (asciiBytes "  network_id: " ++ toHex networkId.1 ++ asciiBytes "\n") ++
  match invite with
  | some invite => asciiBytes "  invite: " ++ invite ++ asciiBytes "\n"
  | none => []

def exportPeer (peer : PeerConfig) : List UInt8 :=
  (asciiBytes "  - endpoint: " ++ peer.endpoint ++ asciiBytes "\n") ++
  (asciiBytes "    public_key: " ++ toHex peer.publicKey.1 ++ asciiBytes "\n") ++
  asciiBytes "    allowed_ips:\n" ++
  peer.allowedIps.flatMap fun ip => asciiBytes "      - " ++ ip ++ asciiBytes "\n"

/-- The text of the running configuration, with the network id of the identity. -/
def exportYaml (networkId : NetworkId) (cfg : AppConfig) : List UInt8 :=
  exportInterface cfg.iface ++ exportIdentity networkId cfg.invite ++
  if cfg.peers ≠ [] then asciiBytes "\npeer:\n" ++ cfg.peers.flatMap exportPeer else []

/-! ## Valid configurations -/

structure InterfaceConfig.Valid (iface : InterfaceConfig) : Prop where
  address : (IPInterfaceAddress.parse iface.address).isSome = true
  listenPort : iface.listenPort ≠ 0
  mtu : (safeOverlayMtu iface.underlayMtu.toNat iface.maxRelayDepth.toNat iface.paddingBucketSize.toNat).isSome = true
  stunServer : ∀ server ∈ iface.stunServer, PlainValue server

structure PeerConfig.Valid (peer : PeerConfig) : Prop where
  endpoint : PlainValue peer.endpoint
  publicKey : peer.publicKey ≠ FixedBytes.zero 32
  allowedIps : ∀ ip ∈ peer.allowedIps, (IPPrefix.parse ip).isSome = true

/-- Every field is valid on its own. -/
structure AppConfig.Valid (cfg : AppConfig) : Prop where
  iface : cfg.iface.Valid
  invite : ∀ invite ∈ cfg.invite, PlainValue invite
  peers : ∀ peer ∈ cfg.peers, peer.Valid

/-- All prefixes of a peer are IPv4. -/
def PeerConfig.AllowsIpv4 (peer : PeerConfig) : Prop :=
  ∀ ip ∈ peer.allowedIps, ∀ network, IPPrefix.parse ip = some network → network.address.family = .ipv4

def AppConfig.AllowsIpv4 (cfg : AppConfig) : Prop := ∀ peer ∈ cfg.peers, peer.AllowsIpv4

/-! ## Values -/

theorem isHexDigit_hexChar {nibble : UInt8} (h : nibble.toNat < 16) : isHexDigit (hexChar nibble.toUInt16) = true :=
  (hexChar_spec (show nibble.toUInt16.toNat < 16 from h)).1

theorem hexval_hexChar {nibble : UInt8} (h : nibble.toNat < 16) : hexval (hexChar nibble.toUInt16) = some nibble := by
  have hvalue := (hexChar_spec (show nibble.toUInt16.toNat < 16 from h)).2
  rw [hexval, if_pos (isHexDigit_hexChar h), Option.some.injEq]
  exact UInt8.toNat_inj.mp hvalue

theorem nibbles_spec (byte : UInt8) :
    ((byte >>> 4) &&& 0x0F).toNat < 16 ∧ (byte &&& 0x0F).toNat < 16 ∧
      ((((byte >>> 4) &&& 0x0F) <<< 4) ||| (byte &&& 0x0F)) = byte := by
  revert byte
  exact forall_byte (by decide +kernel)

theorem readHexPairs_toHex (bytes : List UInt8) : readHexPairs (toHex bytes) = some bytes := by
  induction bytes with
  | nil => rfl
  | cons byte bytes ih =>
    obtain ⟨hhigh, hlow, hbyte⟩ := nibbles_spec byte
    show readHexPairs (_ :: _ :: toHex bytes) = _
    rw [readHexPairs, hexval_hexChar hhigh, hexval_hexChar hlow, ih]
    exact congrArg (fun byte => some (byte :: bytes)) hbyte

theorem length_toHex (bytes : List UInt8) : (toHex bytes).length = 2 * bytes.length := by
  induction bytes with
  | nil => rfl
  | cons byte bytes ih =>
    show (toHex bytes).length + 1 + 1 = _
    rw [ih, List.length_cons]
    omega

theorem parseBytes32_toHex (value : FixedBytes 32) : parseBytes32 (toHex value.1) = some value := by
  refine Option.bind_eq_some_iff.mpr ⟨value.1, ?_, dif_pos value.2⟩
  rw [parseHexBytes, if_neg (by rw [length_toHex]; omega), readHexPairs_toHex]

theorem isHexDigit_toHex {bytes : List UInt8} {char : UInt8} (h : char ∈ toHex bytes) : isHexDigit char = true := by
  obtain ⟨byte, -, hchar⟩ := List.mem_flatMap.mp h
  obtain ⟨hhigh, hlow, -⟩ := nibbles_spec byte
  rcases List.mem_cons.mp hchar with rfl | hchar
  · exact isHexDigit_hexChar hhigh
  · rw [List.mem_singleton] at hchar
    rw [hchar]
    exact isHexDigit_hexChar hlow

theorem digits_decimalText (n : Nat) :
    ¬ (decimalText n = [] ∨ ∃ char ∈ decimalText n, isDecimalDigit char = false) := by
  rintro (hnil | ⟨char, hchar, hdigit⟩)
  · exact decimalText_ne_nil n hnil
  · rw [isDecimalDigit_decimalText hchar] at hdigit
    cases hdigit

theorem parsePort_decimalText {port : UInt16} (h : port ≠ 0) : parsePort (decimalText port.toNat) = some port := by
  have hlt := port.toNat_lt
  have hpositive : port.toNat ≠ 0 := fun hzero => h (UInt16.toNat_inj.mp hzero)
  rw [parsePort, if_neg (digits_decimalText _)]
  refine Option.bind_eq_some_iff.mpr ⟨_, strtoul_decimalText (hlt.trans (by decide)), ?_⟩
  rw [if_neg (by omega), UInt16.ofNat_toNat]

theorem parseBoundedUint32_decimalText {n minimum maximum : Nat} (hmin : minimum ≤ n) (hmax : n ≤ maximum)
    (hword : maximum < 2 ^ 32) : parseBoundedUint32 (decimalText n) minimum maximum = some n := by
  rw [parseBoundedUint32, if_neg (digits_decimalText _)]
  refine Option.bind_eq_some_iff.mpr ⟨_, strtoul_decimalText (by omega), ?_⟩
  exact if_neg (by omega)

theorem isYamlTrailing_of_isCidrChar {char : UInt8} (h : isCidrChar char = true) : isYamlTrailing char = false := by
  by_contra hblank
  rw [Bool.not_eq_false, isYamlTrailing] at hblank
  simp only [Bool.or_eq_true, decide_eq_true_eq] at hblank
  rcases hblank with ((rfl | rfl) | rfl) | rfl
  all_goals cases h

theorem PlainValue.of_isCidrChar {text : List UInt8} (hne : text ≠ []) (h : ∀ char ∈ text, isCidrChar char = true) :
    PlainValue text :=
  PlainValue.of_solid hne fun char hchar => isYamlTrailing_of_isCidrChar (h char hchar)

theorem PlainValue.decimalText (n : Nat) : PlainValue (decimalText n) :=
  PlainValue.of_isCidrChar (decimalText_ne_nil n) fun _ hchar =>
    isCidrChar_of_isHexDigit (isHexDigit_of_isDecimalDigit (isDecimalDigit_decimalText hchar))

theorem PlainValue.toHex (value : FixedBytes 32) : PlainValue (toHex value.1) := by
  refine PlainValue.of_isCidrChar (fun hnil => ?_) fun _ hchar => isCidrChar_of_isHexDigit (isHexDigit_toHex hchar)
  have hlength := length_toHex value.1
  rw [hnil, value.2] at hlength
  cases hlength

/-! ## Lines -/

/-- A line with a key and a value, `indent` blanks from the left. -/
def fieldLine (indent : Nat) (key : String) (value : List UInt8) : List UInt8 :=
  List.replicate indent 32 ++ (asciiBytes key ++ 58 :: 32 :: value)

/-- The fields of a section, two blanks from the left. -/
def fieldLines (fields : List (String × List UInt8)) : List (List UInt8) :=
  fields.map fun field => fieldLine 2 field.1 field.2

def interfaceFields (iface : InterfaceConfig) : List (String × List UInt8) :=
  [("address", iface.address), ("listen_port", decimalText iface.listenPort.toNat),
    ("underlay_mtu", decimalText iface.underlayMtu.toNat), ("max_relay_depth", decimalText iface.maxRelayDepth.toNat),
    ("padding_bucket_size", decimalText iface.paddingBucketSize.toNat)] ++
  iface.stunServer.toList.map fun server => ("stun_server", server)

def identityFields (networkId : NetworkId) (invite : Option (List UInt8)) : List (String × List UInt8) :=
  ("network_id", toHex networkId.1) :: invite.toList.map fun invite => ("invite", invite)

def interfaceLines (iface : InterfaceConfig) : List (List UInt8) :=
  asciiBytes "interface:" :: fieldLines (interfaceFields iface)

def identityLines (networkId : NetworkId) (invite : Option (List UInt8)) : List (List UInt8) :=
  [] :: asciiBytes "identity:" :: fieldLines (identityFields networkId invite)

def entryLine (ip : List UInt8) : List UInt8 := List.replicate 6 32 ++ (asciiBytes "- " ++ ip)

def peerLines (peer : PeerConfig) : List (List UInt8) :=
  [fieldLine 2 "- endpoint" peer.endpoint, fieldLine 4 "public_key" (toHex peer.publicKey.1),
    asciiBytes "    allowed_ips:"] ++
  peer.allowedIps.map entryLine

def peersLines (peers : List PeerConfig) : List (List UInt8) :=
  if peers ≠ [] then [[], asciiBytes "peer:"] ++ peers.flatMap peerLines else []

theorem exportInterface_eq {iface : InterfaceConfig} (haddress : iface.address ≠ []) (hport : iface.listenPort ≠ 0) :
    exportInterface iface = (interfaceLines iface).flatMap (· ++ [10]) := by
  rw [exportInterface, interfaceLines, interfaceFields, if_neg haddress, if_pos hport]
  cases iface.stunServer with
  | none => simp [fieldLines, fieldLine, asciiBytes]
  | some server => simp [fieldLines, fieldLine, asciiBytes]

theorem exportIdentity_eq (networkId : NetworkId) (invite : Option (List UInt8)) :
    exportIdentity networkId invite = (identityLines networkId invite).flatMap (· ++ [10]) := by
  cases invite with
  | none => simp [exportIdentity, identityLines, identityFields, fieldLines, fieldLine, asciiBytes]
  | some invite => simp [exportIdentity, identityLines, identityFields, fieldLines, fieldLine, asciiBytes]

theorem exportPeer_eq (peer : PeerConfig) : exportPeer peer = (peerLines peer).flatMap (· ++ [10]) := by
  rw [exportPeer, peerLines]
  simp [fieldLine, entryLine, asciiBytes, List.flatMap_map]

variable {cfg : AppConfig}

theorem exportYaml_eq (haddress : cfg.iface.address ≠ []) (hport : cfg.iface.listenPort ≠ 0) (networkId : NetworkId) :
    exportYaml networkId cfg = (interfaceLines cfg.iface ++ identityLines networkId cfg.invite
      ++ peersLines cfg.peers).flatMap (· ++ [10]) := by
  have hpeers : cfg.peers.flatMap exportPeer = (cfg.peers.flatMap peerLines).flatMap (· ++ [10]) := by
    rw [List.flatMap_assoc]
    exact List.flatMap_congr fun peer _ => exportPeer_eq peer
  rw [exportYaml, exportInterface_eq haddress hport, exportIdentity_eq, peersLines, List.flatMap_append,
    List.flatMap_append, hpeers]
  split_ifs
  · rw [List.flatMap_append]
    rfl
  · rfl

/-! ## Keys -/

/-- A key that a line can start with. -/
def PlainKey (key : List UInt8) : Prop :=
  PlainValue key ∧ key.head? ≠ some 35 ∧ 58 ∉ key

theorem plainKey_of_mem {key : String}
    (h : key ∈ ["address", "listen_port", "underlay_mtu", "max_relay_depth", "padding_bucket_size", "stun_server",
      "network_id", "invite", "- endpoint", "endpoint", "public_key"]) : PlainKey (asciiBytes key) := by
  have hall : ∀ key ∈ ["address", "listen_port", "underlay_mtu", "max_relay_depth", "padding_bucket_size",
      "stun_server", "network_id", "invite", "- endpoint", "endpoint", "public_key"],
      (asciiBytes key ≠ [] ∧ yamlTrim (asciiBytes key) = asciiBytes key ∧ 10 ∉ asciiBytes key) ∧
        (asciiBytes key).head? ≠ some 35 ∧ 58 ∉ asciiBytes key := by decide +kernel
  obtain ⟨⟨hne, htrimmed, hsingle⟩, hrest⟩ := hall key h
  exact ⟨⟨hne, htrimmed, hsingle⟩, hrest⟩

theorem foldlM_cons_ok {σ α : Type} {step : σ → α → Except YamlError σ} {state state' : σ} {entry : α}
    (h : step state entry = .ok state') (entries : List α) :
    (entry :: entries).foldlM step state = entries.foldlM step state' := by
  rw [List.foldlM_cons, h]
  rfl

/-- Fields that lines can carry. -/
def PlainFields (fields : List (String × List UInt8)) : Prop :=
  ∀ field ∈ fields, PlainKey (asciiBytes field.1) ∧ PlainValue field.2

namespace YamlState

variable {state : YamlState} {line value : List UInt8} {lines : List (List UInt8)} {key : String}

theorem plainValue_field (hkey : PlainKey (asciiBytes key)) (hvalue : PlainValue value) :
    PlainValue (asciiBytes key ++ 58 :: 32 :: value) := by
  obtain ⟨⟨hne, htrimmed, hsingle⟩, hcomment, hcolon⟩ := hkey
  obtain ⟨first, rest, hfirst⟩ := List.exists_cons_of_ne_nil hne
  have hhead : (asciiBytes key ++ [58, 32]).head? = some first := by
    rw [hfirst]
    rfl
  have hblank := (yamlTrim_eq_self_iff.mp htrimmed).1 first (by rw [hfirst]; rfl)
  have hfront : 10 ∉ asciiBytes key ++ [58, 32] := fun hmem => (List.mem_append.mp hmem).elim hsingle (by decide)
  have hline := PlainValue.append hhead hblank hfront hvalue
  rwa [List.append_assoc] at hline

theorem parseLine_field (state : YamlState) {indent : Nat} (hindent : 0 < indent) (hkey : PlainKey (asciiBytes key))
    (hvalue : PlainValue value) :
    state.parseLine (fieldLine indent key value) = state.sectionLine (asciiBytes key ++ 58 :: 32 :: value) := by
  refine parseLine_indented state hindent (plainValue_field hkey hvalue) ?_
  rw [List.head?_append_of_ne_nil _ hkey.1.ne_nil]
  exact hkey.2.1

theorem split_field (hkey : PlainKey (asciiBytes key)) (hvalue : PlainValue value) :
    yamlSplitKeyValue (asciiBytes key ++ 58 :: 32 :: value) = some (asciiBytes key, value) :=
  yamlSplitKeyValue_line hkey.2.2 hkey.1.trimmed hvalue.trimmed

/-- The lines of a section are its keys in turn; `embed` is the state with what the keys of the section set. -/
theorem foldlM_fieldLines {β : Type} {embed : β → YamlState}
    {keyStep : β → List UInt8 → List UInt8 → Except YamlError β}
    (hline : ∀ b line key value, yamlSplitKeyValue line = some (key, value) →
      (embed b).sectionLine line = (keyStep b key value).map embed)
    {fields : List (String × List UInt8)} (h : PlainFields fields) (b : β) :
    (fieldLines fields).foldlM parseLine (embed b)
      = (fields.foldlM (fun b field => keyStep b (asciiBytes field.1) field.2) b).map embed := by
  induction fields generalizing b with
  | nil => rfl
  | cons field fields ih =>
    obtain ⟨⟨hkey, hvalue⟩, h⟩ := List.forall_mem_cons.mp h
    rw [fieldLines, List.map_cons, List.foldlM_cons, List.foldlM_cons,
      parseLine_field (embed b) (by decide) hkey hvalue, hline b _ _ _ (split_field hkey hvalue)]
    cases keyStep b (asciiBytes field.1) field.2 with
    | error error => rfl
    | ok next => exact ih h next

def inInterface (iface : InterfaceConfig) : YamlState := { cfg := { iface }, inSection := .interface }

theorem sectionLine_inInterface (iface : InterfaceConfig) (line key value : List UInt8)
    (h : yamlSplitKeyValue line = some (key, value)) :
    (inInterface iface).sectionLine line = (interfaceKey iface key value).map inInterface := by
  show (inInterface iface).interfaceLine line = _
  rw [interfaceLine, h]
  show (do let next ← interfaceKey iface key value; .ok (inInterface next)) = _
  cases interfaceKey iface key value with
  | error error => rfl
  | ok next => rfl

def inIdentity (cfg : AppConfig) : YamlState := { cfg, inSection := .identity }

theorem sectionLine_inIdentity (cfg : AppConfig) (line key value : List UInt8)
    (h : yamlSplitKeyValue line = some (key, value)) :
    (inIdentity cfg).sectionLine line = (identityKey cfg key value).map inIdentity := by
  show (inIdentity cfg).identityLine line = _
  rw [identityLine, h]
  show (do let next ← identityKey cfg key value; .ok (inIdentity next)) = _
  cases identityKey cfg key value with
  | error error => rfl
  | ok next => rfl

theorem sectionLine_peers (h : state.inSection = .peers) :
    state.sectionLine line = state.peerLine line := by rw [sectionLine, h]

theorem parseLine_header (state : YamlState) {header : String} (h : header ∈ ["interface:", "identity:", "peer:"]) :
    state.parseLine (asciiBytes header) = state.topLevelLine (asciiBytes header) := by
  have hall : ∀ header ∈ ["interface:", "identity:", "peer:"], yamlIndent (asciiBytes header) = some 0 ∧
      yamlTrim (asciiBytes header) = asciiBytes header ∧ asciiBytes header ≠ [] := by decide +kernel
  obtain ⟨hindent, htrim, hne⟩ := hall header h
  rw [parseLine, hindent, htrim]
  dsimp only
  rw [if_neg hne, if_pos rfl]

theorem parseLine_interfaceHeader (state : YamlState) :
    state.parseLine (asciiBytes "interface:") = .ok (state.enter .interface) := by
  rw [parseLine_header state (by decide), topLevelLine, if_pos rfl]

theorem parseLine_identityHeader (state : YamlState) :
    state.parseLine (asciiBytes "identity:") = .ok (state.enter .identity) := by
  rw [parseLine_header state (by decide), topLevelLine, if_neg (by simp [asciiBytes]), if_pos rfl]

theorem parseLine_peerHeader (state : YamlState) : state.parseLine (asciiBytes "peer:") = .ok (state.enter .peers) := by
  rw [parseLine_header state (by decide), topLevelLine, if_neg (by simp [asciiBytes]), if_neg (by simp [asciiBytes]),
    if_pos rfl]

/-! ## The interface and the identity -/

section

variable (iface : InterfaceConfig)

theorem interfaceKey_address (h : (IPInterfaceAddress.parse value).isSome = true) :
    interfaceKey iface (asciiBytes "address") value = .ok { iface with address := value } := by
  rw [interfaceKey, if_pos rfl, if_pos h]

theorem interfaceKey_listenPort {port : UInt16} (h : parsePort value = some port) :
    interfaceKey iface (asciiBytes "listen_port") value = .ok { iface with listenPort := port } := by
  rw [interfaceKey, if_neg (by simp [asciiBytes]), if_pos rfl, h]
  rfl

theorem interfaceKey_underlayMtu {mtu : Nat} (h : parseBoundedUint32 value 1 MAXIMUM_IPV4_MTU = some mtu) :
    interfaceKey iface (asciiBytes "underlay_mtu") value = .ok { iface with underlayMtu := UInt32.ofNat mtu } := by
  rw [interfaceKey, if_neg (by simp [asciiBytes]), if_neg (by simp [asciiBytes]), if_pos rfl, h]
  rfl

theorem interfaceKey_maxRelayDepth {depth : Nat}
    (h : parseBoundedUint32 value DIRECT_ROUTE_DEPTH ONION_MAX_HOPS = some depth) :
    interfaceKey iface (asciiBytes "max_relay_depth") value
      = .ok { iface with maxRelayDepth := UInt8.ofNat depth } := by
  rw [interfaceKey, if_neg (by simp [asciiBytes]), if_neg (by simp [asciiBytes]), if_neg (by simp [asciiBytes]),
    if_pos rfl, h]
  rfl

theorem interfaceKey_paddingBucketSize {bucketSize : Nat} (h : parseBoundedUint32 value 32 256 = some bucketSize)
    (hsupported : isSupportedSessionPaddingBucket bucketSize = true) :
    interfaceKey iface (asciiBytes "padding_bucket_size") value
      = .ok { iface with paddingBucketSize := UInt16.ofNat bucketSize } := by
  rw [interfaceKey, if_neg (by simp [asciiBytes]), if_neg (by simp [asciiBytes]), if_neg (by simp [asciiBytes]),
    if_neg (by simp [asciiBytes]), if_pos rfl, h]
  exact if_pos hsupported

theorem interfaceKey_stunServer (h : value ≠ []) :
    interfaceKey iface (asciiBytes "stun_server") value = .ok { iface with stunServer := some value } := by
  rw [interfaceKey, if_neg (by simp [asciiBytes]), if_neg (by simp [asciiBytes]), if_neg (by simp [asciiBytes]),
    if_neg (by simp [asciiBytes]), if_neg (by simp [asciiBytes]), if_pos rfl, if_neg h]

end

theorem foldlM_interfaceFields {iface : InterfaceConfig} (h : iface.Valid) :
    (interfaceFields iface).foldlM (fun iface field => interfaceKey iface (asciiBytes field.1) field.2) {}
      = .ok iface := by
  obtain ⟨mtu, hmtu⟩ := Option.isSome_iff_exists.mp h.mtu
  obtain ⟨hmax, hlow, hhigh, hbucket, hmin, hsum⟩ := safeOverlayMtu_eq_some_iff.mp hmtu
  have hbounds : 32 ≤ iface.paddingBucketSize.toNat ∧ iface.paddingBucketSize.toNat ≤ 256 := by
    rcases supportedBucket_cases hbucket with heq | heq | heq | heq
    all_goals
      rw [heq]
      decide
  have hunderlay : parseBoundedUint32 (decimalText iface.underlayMtu.toNat) 1 MAXIMUM_IPV4_MTU = some _ :=
    parseBoundedUint32_decimalText (by omega) hmax (by decide)
  have hdepth : parseBoundedUint32 (decimalText iface.maxRelayDepth.toNat) DIRECT_ROUTE_DEPTH ONION_MAX_HOPS
      = some _ := parseBoundedUint32_decimalText hlow hhigh (by decide)
  have hpadding : parseBoundedUint32 (decimalText iface.paddingBucketSize.toNat) 32 256 = some _ :=
    parseBoundedUint32_decimalText hbounds.1 hbounds.2 (by decide)
  rw [interfaceFields]
  simp only [List.cons_append, List.nil_append]
  rw [foldlM_cons_ok (interfaceKey_address _ h.address),
    foldlM_cons_ok (interfaceKey_listenPort _ (parsePort_decimalText h.listenPort)),
    foldlM_cons_ok (interfaceKey_underlayMtu _ hunderlay), foldlM_cons_ok (interfaceKey_maxRelayDepth _ hdepth),
    foldlM_cons_ok (interfaceKey_paddingBucketSize _ hpadding hbucket), UInt32.ofNat_toNat, UInt8.ofNat_toNat,
    UInt16.ofNat_toNat]
  obtain ⟨address, listenPort, underlayMtu, maxRelayDepth, paddingBucketSize, stunServer⟩ := iface
  cases stunServer with
  | none => rfl
  | some server =>
    rw [Option.toList_some, List.map_singleton,
      foldlM_cons_ok (interfaceKey_stunServer _ (h.stunServer server rfl).ne_nil)]
    rfl

theorem plainFields_interface {iface : InterfaceConfig} (h : iface.Valid) : PlainFields (interfaceFields iface) := by
  obtain ⟨hne, hchars⟩ := IPInterfaceAddress.parse_chars h.address
  rw [PlainFields, interfaceFields, List.forall_mem_append]
  simp only [List.forall_mem_cons]
  refine ⟨⟨⟨plainKey_of_mem (by decide), PlainValue.of_isCidrChar hne hchars⟩,
    ⟨plainKey_of_mem (by decide), PlainValue.decimalText _⟩, ⟨plainKey_of_mem (by decide), PlainValue.decimalText _⟩,
    ⟨plainKey_of_mem (by decide), PlainValue.decimalText _⟩, ⟨plainKey_of_mem (by decide), PlainValue.decimalText _⟩,
    List.forall_mem_nil _⟩, ?_⟩
  intro field hfield
  obtain ⟨server, hserver, rfl⟩ := List.mem_map.mp hfield
  exact ⟨plainKey_of_mem (show "stun_server" ∈ _ by decide), h.stunServer server (Option.mem_toList.mp hserver)⟩

theorem foldlM_interfaceLines {iface : InterfaceConfig} (h : iface.Valid) (lines : List (List UInt8)) :
    (interfaceLines iface ++ lines).foldlM parseLine {} = lines.foldlM parseLine (inInterface iface) := by
  have hfields := foldlM_fieldLines sectionLine_inInterface (plainFields_interface h) {}
  rw [foldlM_interfaceFields h] at hfields
  rw [interfaceLines, List.cons_append, foldlM_cons_ok (parseLine_interfaceHeader _), List.foldlM_append]
  exact congrArg (· >>= fun state => lines.foldlM parseLine state) hfields

theorem identityKey_networkId (cfg : AppConfig) {networkId : NetworkId} (h : parseBytes32 value = some networkId) :
    identityKey cfg (asciiBytes "network_id") value = .ok { cfg with networkId := some networkId } := by
  rw [identityKey, if_pos rfl, h]
  rfl

theorem identityKey_invite (cfg : AppConfig) (h : value ≠ []) :
    identityKey cfg (asciiBytes "invite") value = .ok { cfg with invite := some value } := by
  rw [identityKey, if_neg (by simp [asciiBytes]), if_pos rfl, if_neg h]

theorem plainFields_identity (networkId : NetworkId) {invite : Option (List UInt8)}
    (h : ∀ text ∈ invite, PlainValue text) : PlainFields (identityFields networkId invite) := by
  rw [PlainFields, identityFields, List.forall_mem_cons]
  refine ⟨⟨plainKey_of_mem (show "network_id" ∈ _ by decide), PlainValue.toHex networkId⟩, fun field hfield => ?_⟩
  obtain ⟨text, htext, rfl⟩ := List.mem_map.mp hfield
  exact ⟨plainKey_of_mem (show "invite" ∈ _ by decide), h text (Option.mem_toList.mp htext)⟩

theorem foldlM_identityFields (iface : InterfaceConfig) (networkId : NetworkId) {invite : Option (List UInt8)}
    (h : ∀ text ∈ invite, PlainValue text) :
    (identityFields networkId invite).foldlM (fun cfg field => identityKey cfg (asciiBytes field.1) field.2) { iface }
      = .ok { iface, networkId := some networkId, invite } := by
  rw [identityFields, foldlM_cons_ok (identityKey_networkId _ (parseBytes32_toHex networkId))]
  cases invite with
  | none => rfl
  | some text =>
    rw [Option.toList_some, List.map_singleton, foldlM_cons_ok (identityKey_invite _ (h text rfl).ne_nil)]
    rfl

theorem foldlM_identityLines (iface : InterfaceConfig) (networkId : NetworkId) {invite : Option (List UInt8)}
    (h : ∀ text ∈ invite, PlainValue text) (lines : List (List UInt8)) :
    (identityLines networkId invite ++ lines).foldlM parseLine (inInterface iface)
      = lines.foldlM parseLine (inIdentity { iface, networkId := some networkId, invite }) := by
  have hfields := foldlM_fieldLines sectionLine_inIdentity (plainFields_identity networkId h) { iface }
  rw [foldlM_identityFields iface networkId h] at hfields
  rw [identityLines, List.cons_append, List.cons_append,
    foldlM_cons_ok (show (inInterface iface).parseLine [] = .ok (inInterface iface) from rfl),
    foldlM_cons_ok (parseLine_identityHeader _), List.foldlM_append]
  exact congrArg (· >>= fun state => lines.foldlM parseLine state) hfields

/-! ## The peers -/

theorem updateBack_concat (cfg : AppConfig) {front : List PeerConfig} {peer : PeerConfig}
    (h : cfg.peers = front ++ [peer]) (update : PeerConfig → PeerConfig) :
    updateBack cfg update = { cfg with peers := front ++ [update peer] } := by
  rw [updateBack, h, List.dropLast_concat, List.getLast?_concat]
  rfl

theorem peerKey_endpoint {cfg : AppConfig} {front : List PeerConfig} {peer : PeerConfig}
    (hpeers : cfg.peers = front ++ [peer]) (h : value ≠ []) :
    peerKey cfg (asciiBytes "endpoint") value
      = .ok { cfg with peers := front ++ [{ peer with endpoint := value }] } := by
  rw [peerKey, if_pos rfl, if_neg h, updateBack_concat cfg hpeers]

theorem peerKey_publicKey {cfg : AppConfig} {front : List PeerConfig} {peer : PeerConfig}
    (hpeers : cfg.peers = front ++ [peer]) {publicKey : FixedBytes 32} (h : parseBytes32 value = some publicKey) :
    peerKey cfg (asciiBytes "public_key") value
      = .ok { cfg with peers := front ++ [{ peer with publicKey }] } := by
  rw [peerKey, if_neg (by simp [asciiBytes]), if_pos rfl, h]
  exact congrArg Except.ok (updateBack_concat cfg hpeers _)

theorem parseLine_item (hsection : state.inSection = .peers) {indent : Nat} (hindent : 0 < indent) {item : List UInt8}
    (hitem : PlainValue item) :
    state.parseLine (List.replicate indent 32 ++ (asciiBytes "- " ++ item)) = state.peerItem item := by
  have hline : PlainValue (asciiBytes "- " ++ item) :=
    PlainValue.append (show _ = some 45 by rfl) (by decide) (by decide +kernel) hitem
  rw [parseLine_indented state hindent hline (by simp [asciiBytes]), sectionLine_peers hsection, peerLine]
  have htake : (asciiBytes "- " ++ item).take 2 = asciiBytes "- " := by simp [asciiBytes]
  have hdrop : (asciiBytes "- " ++ item).drop 2 = item := by simp [asciiBytes]
  rw [if_pos htake, hdrop, hitem.trimmed]

def withPeers (state : YamlState) (peers : List PeerConfig) : YamlState :=
  { state with cfg := { state.cfg with peers } }

/-- The parser is in the last peer so far. -/
structure InPeer (state : YamlState) (front : List PeerConfig) (peer : PeerConfig) : Prop where
  inSection : state.inSection = .peers
  inPeerItem : state.inPeerItem = true
  peers : state.cfg.peers = front ++ [peer]

variable {front : List PeerConfig} {peer : PeerConfig}

theorem InPeer.update (h : state.InPeer front peer) (peer' : PeerConfig) :
    (state.withPeers (front ++ [peer'])).InPeer front peer' := ⟨h.inSection, h.inPeerItem, rfl⟩

theorem InPeer.peers_ne_nil (h : state.InPeer front peer) : state.cfg.peers ≠ [] := by
  rw [h.peers]
  exact List.concat_ne_nil _ _

theorem parseLine_endpoint (hsection : state.inSection = .peers) (h : PlainValue value) :
    state.parseLine (fieldLine 2 "- endpoint" value)
      = .ok { state.withPeers (state.cfg.peers ++ [{ endpoint := value }]) with
          inPeerItem := true, inAllowed := false } := by
  have hkey : PlainKey (asciiBytes "endpoint") := plainKey_of_mem (by decide)
  have hitem := plainValue_field hkey h
  have hline : fieldLine 2 "- endpoint" value
      = List.replicate 2 32 ++ (asciiBytes "- " ++ (asciiBytes "endpoint" ++ 58 :: 32 :: value)) := by
    simp [fieldLine, asciiBytes]
  rw [hline, parseLine_item hsection (by decide) hitem, peerItem, if_neg hitem.ne_nil, split_field hkey h]
  dsimp only
  rw [peerKey_endpoint rfl h.ne_nil]
  rfl

theorem sectionLine_inPeer (h : state.InPeer front peer) (hdash : line.take 2 ≠ asciiBytes "- ")
    {key value : List UInt8} (hsplit : yamlSplitKeyValue line = some (key, value)) :
    state.sectionLine line = if key = asciiBytes "allowed_ips" then .ok { state with inAllowed := true }
      else (peerKey state.cfg key value).bind fun cfg => .ok { state with cfg := cfg } := by
  have hinside : ¬ (state.inPeerItem = false ∨ state.cfg.peers = []) := by
    rw [h.inPeerItem]
    rintro (hfalse | hnil)
    · cases hfalse
    · exact h.peers_ne_nil hnil
  rw [sectionLine_peers h.inSection, peerLine, if_neg hdash, if_neg hinside, hsplit]
  rfl

theorem parseLine_publicKey (h : state.InPeer front peer) (publicKey : FixedBytes 32) :
    state.parseLine (fieldLine 4 "public_key" (toHex publicKey.1))
      = .ok (state.withPeers (front ++ [{ peer with publicKey }])) := by
  have hkey : PlainKey (asciiBytes "public_key") := plainKey_of_mem (by decide)
  have hvalue := PlainValue.toHex publicKey
  rw [parseLine_field state (by decide) hkey hvalue, sectionLine_inPeer h ?_ (split_field hkey hvalue),
    if_neg (by simp [asciiBytes]), peerKey_publicKey h.peers (parseBytes32_toHex publicKey)]
  · rfl
  · simp [asciiBytes]

theorem parseLine_allowedIps (h : state.InPeer front peer) :
    state.parseLine (asciiBytes "    allowed_ips:") = .ok { state with inAllowed := true } := by
  have hline : PlainValue (asciiBytes "allowed_ips:") :=
    ⟨by decide +kernel, by decide +kernel, by decide +kernel⟩
  have hindent : asciiBytes "    allowed_ips:" = List.replicate 4 32 ++ asciiBytes "allowed_ips:" := by decide +kernel
  have hsplit : yamlSplitKeyValue (asciiBytes "allowed_ips:") = some (asciiBytes "allowed_ips", []) := by
    decide +kernel
  rw [hindent, parseLine_indented state (by decide) hline (by decide +kernel),
    sectionLine_inPeer h (by decide +kernel) hsplit, if_pos rfl]

theorem parseLine_entry (h : state.InPeer front peer) (hallowed : state.inAllowed = true) {ip : List UInt8}
    (hip : PlainValue ip) (hcolon : 58 ∉ ip) :
    state.parseLine (entryLine ip)
      = .ok (state.withPeers (front ++ [{ peer with allowedIps := peer.allowedIps ++ [ip] }])) := by
  have hsplit : yamlSplitKeyValue ip = none := by
    rw [yamlSplitKeyValue, Segments.cutFirst_of_not_mem hcolon]
    rfl
  rw [entryLine, parseLine_item h.inSection (by decide) hip, peerItem, if_neg hip.ne_nil, hsplit]
  dsimp only
  rw [if_pos ⟨hallowed, h.inPeerItem, h.peers_ne_nil⟩, updateBack_concat state.cfg h.peers]
  rfl

theorem parseLine_entry_colon (hsection : state.inSection = .peers) {ip : List UInt8} (hip : PlainValue ip)
    (hchars : ∀ char ∈ ip, isCidrChar char = true) (hcolon : 58 ∈ ip) :
    ∃ key, state.parseLine (entryLine ip) = .error (.unknownPeerKey key) := by
  obtain ⟨left, right, hcut, rfl⟩ := Segments.exists_cutFirst hcolon
  have hsplit : yamlSplitKeyValue (left ++ 58 :: right) = some (yamlTrim left, yamlTrim right) := by
    rw [yamlSplitKeyValue, hcut]
    rfl
  -- both keys have a `p`, which no prefix has
  have hp : 112 ∉ yamlTrim left := fun hmem =>
    absurd (hchars _ (List.mem_append_left _ (mem_of_mem_yamlTrim hmem))) (by decide)
  have hendpoint : yamlTrim left ≠ asciiBytes "endpoint" := fun heq => hp (by rw [heq]; decide +kernel)
  have hpublicKey : yamlTrim left ≠ asciiBytes "public_key" := fun heq => hp (by rw [heq]; decide +kernel)
  refine ⟨yamlTrim left, ?_⟩
  rw [entryLine, parseLine_item hsection (by decide) hip, peerItem, if_neg hip.ne_nil, hsplit]
  dsimp only
  rw [peerKey, if_neg hendpoint, if_neg hpublicKey]
  rfl

theorem foldlM_entries (h : state.InPeer front peer) (hallowed : state.inAllowed = true) {ips : List (List UInt8)}
    (hips : ∀ ip ∈ ips, PlainValue ip ∧ 58 ∉ ip) :
    (ips.map entryLine).foldlM parseLine state
      = .ok (state.withPeers (front ++ [{ peer with allowedIps := peer.allowedIps ++ ips }])) := by
  induction ips generalizing state peer with
  | nil =>
    rw [List.append_nil, ← h.peers]
    rfl
  | cons ip ips ih =>
    rw [List.forall_mem_cons] at hips
    rw [List.map_cons, foldlM_cons_ok (parseLine_entry h hallowed hips.1.1 hips.1.2), ih (h.update _) hallowed hips.2,
      List.append_assoc]
    rfl

theorem foldlM_entries_colon (h : state.InPeer front peer) (hallowed : state.inAllowed = true)
    {ips : List (List UInt8)} (hips : ∀ ip ∈ ips, PlainValue ip ∧ ∀ char ∈ ip, isCidrChar char = true)
    (hcolon : ∃ ip ∈ ips, 58 ∈ ip) :
    ∃ key, (ips.map entryLine).foldlM parseLine state = .error (.unknownPeerKey key) := by
  induction ips generalizing state peer with
  | nil =>
    obtain ⟨ip, hip, -⟩ := hcolon
    cases hip
  | cons ip ips ih =>
    rw [List.forall_mem_cons] at hips
    rw [List.map_cons]
    by_cases hfirst : 58 ∈ ip
    · obtain ⟨key, herror⟩ := @parseLine_entry_colon state h.inSection ip hips.1.1 hips.1.2 hfirst
      refine ⟨key, ?_⟩
      rw [List.foldlM_cons, herror]
      rfl
    · rw [foldlM_cons_ok (parseLine_entry h hallowed hips.1.1 hfirst)]
      refine ih (h.update _) hallowed hips.2 ?_
      obtain ⟨other, hother, hmem⟩ := hcolon
      rcases List.mem_cons.mp hother with rfl | hother
      · exact absurd hmem hfirst
      · exact ⟨other, hother, hmem⟩

/-- The parser in front of the entries of a peer. -/
def atEntries (state : YamlState) (peer : PeerConfig) : YamlState :=
  { state.withPeers (state.cfg.peers ++ [{ peer with allowedIps := [] }]) with inPeerItem := true, inAllowed := true }

theorem foldlM_peerLines (hsection : state.inSection = .peers) (h : PlainValue peer.endpoint)
    (lines : List (List UInt8)) :
    (peerLines peer ++ lines).foldlM parseLine state
      = (peer.allowedIps.map entryLine ++ lines).foldlM parseLine (state.atEntries peer) := by
  have hin : InPeer { state.withPeers (state.cfg.peers ++ [{ endpoint := peer.endpoint }]) with
      inPeerItem := true, inAllowed := false } state.cfg.peers { endpoint := peer.endpoint } := ⟨hsection, rfl, rfl⟩
  rw [peerLines, List.append_assoc]
  simp only [List.cons_append, List.nil_append]
  rw [foldlM_cons_ok (parseLine_endpoint hsection h), foldlM_cons_ok (parseLine_publicKey hin peer.publicKey),
    foldlM_cons_ok (parseLine_allowedIps (hin.update _))]
  rfl

theorem inPeer_atEntries (hsection : state.inSection = .peers) (peer : PeerConfig) :
    (state.atEntries peer).InPeer state.cfg.peers { peer with allowedIps := [] } := ⟨hsection, rfl, rfl⟩

end YamlState

theorem PeerConfig.Valid.entries {peer : PeerConfig} (h : peer.Valid) :
    ∀ ip ∈ peer.allowedIps, PlainValue ip ∧ ∀ char ∈ ip, isCidrChar char = true := by
  intro ip hip
  obtain ⟨network, hparse⟩ := Option.isSome_iff_exists.mp (h.allowedIps ip hip)
  obtain ⟨hne, hchars, -⟩ := IPPrefix.parse_chars hparse
  exact ⟨PlainValue.of_isCidrChar hne hchars, hchars⟩

theorem PeerConfig.Valid.allowsIpv4_iff {peer : PeerConfig} (h : peer.Valid) :
    peer.AllowsIpv4 ↔ ∀ ip ∈ peer.allowedIps, 58 ∉ ip := by
  refine forall₂_congr fun ip hip => ?_
  obtain ⟨network, hparse⟩ := Option.isSome_iff_exists.mp (h.allowedIps ip hip)
  obtain ⟨-, -, hcolon⟩ := IPPrefix.parse_chars hparse
  rw [hcolon]
  constructor
  · intro hfamily hipv6
    rw [hfamily network hparse] at hipv6
    cases hipv6
  · intro hnot other hother
    rw [hparse, Option.some.injEq] at hother
    subst hother
    cases hfamily : network.address.family with
    | ipv4 => rfl
    | ipv6 => exact absurd hfamily hnot

namespace YamlState

variable {state : YamlState}

theorem foldlM_peer (hsection : state.inSection = .peers) {peer : PeerConfig} (h : peer.Valid)
    (hipv4 : peer.AllowsIpv4) (lines : List (List UInt8)) :
    (peerLines peer ++ lines).foldlM parseLine state
      = lines.foldlM parseLine
          { state.withPeers (state.cfg.peers ++ [peer]) with inPeerItem := true, inAllowed := true } := by
  have hentries : ∀ ip ∈ peer.allowedIps, PlainValue ip ∧ 58 ∉ ip := fun ip hip =>
    ⟨(h.entries ip hip).1, h.allowsIpv4_iff.mp hipv4 ip hip⟩
  rw [foldlM_peerLines hsection h.endpoint, List.foldlM_append,
    foldlM_entries (inPeer_atEntries hsection peer) rfl hentries]
  rfl

theorem foldlM_peers (hsection : state.inSection = .peers) {peers : List PeerConfig}
    (h : ∀ peer ∈ peers, peer.Valid ∧ peer.AllowsIpv4) :
    ∃ state', (peers.flatMap peerLines).foldlM parseLine state = .ok state' ∧
      state'.cfg = (state.withPeers (state.cfg.peers ++ peers)).cfg := by
  induction peers generalizing state with
  | nil =>
    rw [List.append_nil]
    exact ⟨state, rfl, rfl⟩
  | cons peer peers ih =>
    rw [List.forall_mem_cons] at h
    rw [List.flatMap_cons, foldlM_peer hsection h.1.1 h.1.2]
    obtain ⟨state', hrun, hcfg⟩ := @ih
      { state.withPeers (state.cfg.peers ++ [peer]) with inPeerItem := true, inAllowed := true } hsection h.2
    refine ⟨state', hrun, hcfg.trans ?_⟩
    exact congrArg (fun peers => (state.withPeers peers).cfg) (List.append_cons state.cfg.peers peer peers).symm

/-- A peer that allows an IPv6 prefix ends the parser. -/
theorem foldlM_peers_ipv6 (hsection : state.inSection = .peers) {peers : List PeerConfig}
    (h : ∀ peer ∈ peers, peer.Valid) (hipv6 : ¬ ∀ peer ∈ peers, peer.AllowsIpv4) :
    ∃ key, (peers.flatMap peerLines).foldlM parseLine state = .error (.unknownPeerKey key) := by
  induction peers generalizing state with
  | nil => exact absurd (List.forall_mem_nil _) hipv6
  | cons peer peers ih =>
    rw [List.forall_mem_cons] at h hipv6
    rw [List.flatMap_cons]
    by_cases hfirst : peer.AllowsIpv4
    · rw [foldlM_peer hsection h.1 hfirst]
      exact ih hsection h.2 fun hrest => hipv6 ⟨hfirst, hrest⟩
    · rw [h.1.allowsIpv4_iff] at hfirst
      push Not at hfirst
      obtain ⟨key, herror⟩ := foldlM_entries_colon (inPeer_atEntries hsection peer) rfl h.1.entries hfirst
      refine ⟨key, ?_⟩
      rw [foldlM_peerLines hsection h.1.endpoint, List.foldlM_append, herror]
      rfl

end YamlState

/-! ## The whole text -/

theorem checkPeers_of_valid {peers : List PeerConfig} (h : ∀ peer ∈ peers, peer.Valid) : checkPeers peers = .ok () := by
  induction peers with
  | nil => rfl
  | cons peer peers ih =>
    rw [List.forall_mem_cons] at h
    rw [checkPeers, if_neg h.1.endpoint.ne_nil, if_neg h.1.publicKey, ih h.2]

theorem AppConfig.Valid.check (h : cfg.Valid) : cfg.check = .ok () := by
  have hrequired : ¬ (cfg.iface.address = [] ∨ cfg.iface.listenPort = 0) :=
    not_or.mpr ⟨(IPInterfaceAddress.parse_chars h.iface.address).1, h.iface.listenPort⟩
  rw [AppConfig.check, if_neg hrequired, if_neg (Option.isSome_iff_ne_none.mp h.iface.mtu), checkPeers_of_valid h.peers]

theorem not_mem_fieldLine {key : String} (hkey : PlainKey (asciiBytes key)) {value : List UInt8}
    (hvalue : PlainValue value) (indent : Nat) : 10 ∉ fieldLine indent key value := by
  rw [fieldLine, List.mem_append, not_or]
  refine ⟨fun hmem => absurd (List.eq_of_mem_replicate hmem) (by decide), ?_⟩
  exact (YamlState.plainValue_field hkey hvalue).single

theorem not_mem_fieldLines {fields : List (String × List UInt8)} (h : PlainFields fields) :
    ∀ line ∈ fieldLines fields, 10 ∉ line := by
  intro line hline
  obtain ⟨field, hfield, rfl⟩ := List.mem_map.mp hline
  exact not_mem_fieldLine (h field hfield).1 (h field hfield).2 2

theorem not_mem_peerLines {peer : PeerConfig} (h : peer.Valid) : ∀ line ∈ peerLines peer, 10 ∉ line := by
  rw [peerLines, List.forall_mem_append]
  simp only [List.forall_mem_cons]
  refine ⟨⟨not_mem_fieldLine (plainKey_of_mem (by decide)) h.endpoint 2,
    not_mem_fieldLine (plainKey_of_mem (by decide)) (PlainValue.toHex peer.publicKey) 4, by decide +kernel,
    List.forall_mem_nil _⟩, ?_⟩
  intro line hline
  obtain ⟨ip, hip, rfl⟩ := List.mem_map.mp hline
  rw [entryLine, List.mem_append, List.mem_append, not_or, not_or]
  exact ⟨by decide, by decide +kernel, (h.entries ip hip).1.single⟩

theorem not_mem_peersLines {peers : List PeerConfig} (h : ∀ peer ∈ peers, peer.Valid) :
    ∀ line ∈ peersLines peers, 10 ∉ line := by
  rw [peersLines]
  split_ifs
  · rw [List.forall_mem_append]
    refine ⟨by decide +kernel, fun line hline => ?_⟩
    obtain ⟨peer, hpeer, hline⟩ := List.mem_flatMap.mp hline
    exact not_mem_peerLines (h peer hpeer) line hline
  · exact List.forall_mem_nil _

theorem segments_exportYaml (h : cfg.Valid) (networkId : NetworkId) :
    segments 10 (exportYaml networkId cfg)
      = interfaceLines cfg.iface ++ (identityLines networkId cfg.invite ++ peersLines cfg.peers) := by
  rw [exportYaml_eq (IPInterfaceAddress.parse_chars h.iface.address).1 h.iface.listenPort,
    Segments.segments_flatMap_concat, List.append_assoc]
  rw [List.append_assoc, List.forall_mem_append, List.forall_mem_append]
  rw [interfaceLines, identityLines, List.forall_mem_cons, List.forall_mem_cons, List.forall_mem_cons]
  exact ⟨⟨by decide +kernel, not_mem_fieldLines (YamlState.plainFields_interface h.iface)⟩,
    ⟨by decide, by decide +kernel, not_mem_fieldLines (YamlState.plainFields_identity networkId h.invite)⟩,
    not_mem_peersLines h.peers⟩

theorem parseYaml_exportYaml (h : cfg.Valid) (networkId : NetworkId) :
    parseYaml (exportYaml networkId cfg) = (do
      let state ← (peersLines cfg.peers).foldlM YamlState.parseLine
        (YamlState.inIdentity ⟨cfg.iface, some networkId, cfg.invite, []⟩)
      state.cfg.check
      .ok state.cfg) := by
  rw [parseYaml, segments_exportYaml h, YamlState.foldlM_interfaceLines h.iface,
    YamlState.foldlM_identityLines cfg.iface networkId h.invite]

theorem parseYaml_exportYaml_ipv4 (h : cfg.Valid) (hipv4 : cfg.AllowsIpv4) (networkId : NetworkId) :
    parseYaml (exportYaml networkId cfg) = .ok { cfg with networkId := some networkId } := by
  have hcheck : AppConfig.check { cfg with networkId := some networkId } = .ok () := h.check
  rw [parseYaml_exportYaml h, peersLines]
  split_ifs with hpeers
  · obtain ⟨state', hrun, hcfg⟩ := @YamlState.foldlM_peers
      ((YamlState.inIdentity ⟨cfg.iface, some networkId, cfg.invite, []⟩).enter .peers) rfl cfg.peers
      fun peer hpeer => ⟨h.peers peer hpeer, hipv4 peer hpeer⟩
    have hresult : state'.cfg = { cfg with networkId := some networkId } := hcfg
    simp only [List.cons_append, List.nil_append]
    rw [foldlM_cons_ok rfl, foldlM_cons_ok (YamlState.parseLine_peerHeader _), hrun]
    show (do state'.cfg.check; .ok state'.cfg) = _
    rw [hresult, hcheck]
    rfl
  · have hnil : cfg.peers = [] := not_not.mp hpeers
    obtain ⟨iface, _, invite, peers⟩ := cfg
    dsimp only at hnil
    subst hnil
    show (do AppConfig.check { iface, networkId := some networkId, invite }; .ok _) = _
    rw [hcheck]
    rfl

theorem parseYaml_exportYaml_ipv6 (h : cfg.Valid) (hipv6 : ¬ cfg.AllowsIpv4) (networkId : NetworkId) :
    ∃ key, parseYaml (exportYaml networkId cfg) = .error (.unknownPeerKey key) := by
  have hpeers : cfg.peers ≠ [] := by
    intro hnil
    apply hipv6
    rw [AppConfig.AllowsIpv4, hnil]
    exact List.forall_mem_nil _
  obtain ⟨key, herror⟩ := @YamlState.foldlM_peers_ipv6
    ((YamlState.inIdentity ⟨cfg.iface, some networkId, cfg.invite, []⟩).enter .peers) rfl cfg.peers h.peers hipv6
  refine ⟨key, ?_⟩
  rw [parseYaml_exportYaml h, peersLines, if_pos hpeers]
  simp only [List.cons_append, List.nil_append]
  rw [foldlM_cons_ok rfl, foldlM_cons_ok (YamlState.parseLine_peerHeader _), herror]
  rfl

/-- The export of a valid configuration reads back, with the network id of the identity, if all its prefixes are
IPv4; otherwise the parser stops at the first prefix with a colon. -/
theorem exported_configuration_reads_back (cfg : AppConfig) (networkId : NetworkId) (h : cfg.Valid) :
    (cfg.AllowsIpv4 → parseYaml (exportYaml networkId cfg) = .ok { cfg with networkId := some networkId }) ∧
      (¬ cfg.AllowsIpv4 → ∃ key, parseYaml (exportYaml networkId cfg) = .error (.unknownPeerKey key)) :=
  ⟨fun hipv4 => parseYaml_exportYaml_ipv4 h hipv4 networkId, fun hipv6 => parseYaml_exportYaml_ipv6 h hipv6 networkId⟩

/-- A peer with an IPv4 and an IPv6 prefix. -/
def ipv6AllowedConfig : AppConfig where
  iface := { address := asciiBytes "10.10.0.1/24", listenPort := 51820 }
  peers := [⟨asciiBytes "203.0.113.2:51821", FixedBytes.copy 32 [1],
    [asciiBytes "10.20.0.0/24", asciiBytes "fd00::/8"]⟩]

/-- The same peer with the IPv4 prefix only. -/
def ipv4AllowedConfig : AppConfig where
  iface := ipv6AllowedConfig.iface
  peers := [⟨asciiBytes "203.0.113.2:51821", FixedBytes.copy 32 [1], [asciiBytes "10.20.0.0/24"]⟩]

theorem valid_onePeer {ips : List (List UInt8)} (hips : ∀ ip ∈ ips, (IPPrefix.parse ip).isSome = true) :
    AppConfig.Valid ⟨ipv6AllowedConfig.iface, none, none,
      [⟨asciiBytes "203.0.113.2:51821", FixedBytes.copy 32 [1], ips⟩]⟩ := by
  have hiface : ipv6AllowedConfig.iface.Valid := ⟨by decide +kernel, by decide +kernel, by decide +kernel, nofun⟩
  have hendpoint : PlainValue (asciiBytes "203.0.113.2:51821") :=
    ⟨by decide +kernel, by decide +kernel, by decide +kernel⟩
  have hkey : FixedBytes.copy 32 [1] ≠ FixedBytes.zero 32 := by decide +kernel
  refine ⟨hiface, nofun, fun peer hpeer => ?_⟩
  obtain rfl := List.mem_singleton.mp hpeer
  exact ⟨hendpoint, hkey, hips⟩

theorem exported_configuration_reads_back_ipv4 :
    ipv4AllowedConfig.Valid ∧ parseYaml (exportYaml (FixedBytes.zero 32) ipv4AllowedConfig)
      = .ok { ipv4AllowedConfig with networkId := some (FixedBytes.zero 32) } := by
  have hvalid : ipv4AllowedConfig.Valid := valid_onePeer (by decide +kernel)
  refine ⟨hvalid, (exported_configuration_reads_back ipv4AllowedConfig _ hvalid).1 ?_⟩
  intro peer hpeer ip hip network hparse
  obtain rfl := List.mem_singleton.mp hpeer
  obtain rfl := List.mem_singleton.mp hip
  have hfamily : ∀ network ∈ IPPrefix.parse (asciiBytes "10.20.0.0/24"), network.address.family = .ipv4 := by
    decide +kernel
  exact hfamily network hparse

/-- Every field is valid, but the export is refused: `fd00` is no key of a peer. -/
theorem ipv6_prefix_export_refused :
    ipv6AllowedConfig.Valid ∧
      parseYaml (exportYaml (FixedBytes.zero 32) ipv6AllowedConfig) = .error (.unknownPeerKey (asciiBytes "fd00")) :=
  ⟨valid_onePeer (by decide +kernel), by decide +kernel⟩

end Aegis
