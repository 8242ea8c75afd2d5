import Aegis.Net.EndpointText
import Aegis.Net.PrefixText
import Aegis.Packet.Mtu
import Mathlib.Data.List.DropRight

/-!
# The configuration file

`config/config.hpp` and `Config::parse_yaml` of `config/config.cpp`. The parser goes through the lines; what it
keeps between them is the configuration so far, the section, and whether it is in a peer of the list and in the
`allowed_ips` of one. A line is cut at its first colon, and a list item of the peer section that has a colon
starts a peer.

`YamlError` names the diagnostics that are printed; `refused` stands for a value that is refused without one. The
configuration of the `Config` object is replaced only when the whole text was accepted.

The blank is 32, the tab 9, the newline 10, the carriage return 13, `#` 35, `-` 45 and `:` 58.
-/

namespace Aegis

structure PeerConfig where
  endpoint : List UInt8 := []
  publicKey : FixedBytes 32 := FixedBytes.zero 32
  allowedIps : List (List UInt8) := []
deriving DecidableEq

structure InterfaceConfig where
  address : List UInt8 := []
  listenPort : UInt16 := 0
  underlayMtu : UInt32 := UInt32.ofNat DEFAULT_UNDERLAY_MTU
  maxRelayDepth : UInt8 := UInt8.ofNat ONION_MAX_HOPS
  paddingBucketSize : UInt16 := UInt16.ofNat SESSION_PADDING_BUCKET_SIZE
  stunServer : Option (List UInt8) := none
deriving DecidableEq

structure AppConfig where
  iface : InterfaceConfig := {}
  networkId : Option NetworkId := none
  invite : Option (List UInt8) := none
  peers : List PeerConfig := []
deriving DecidableEq

inductive YamlError where
  | unexpectedTopLevelKey (line : List UInt8)
  | badInterfaceLine (line : List UInt8)
  | unknownInterfaceKey (key : List UInt8)
  | badIdentityLine (line : List UInt8)
  | unknownIdentityKey (key : List UInt8)
  | emptyPeerListItem
  | unknownPeerKey (key : List UInt8)
  | unexpectedListItem (item : List UInt8)
  | peerKeyOutsideListItem (line : List UInt8)
  | badPeerLine (line : List UInt8)
  | contentBeforeSection (line : List UInt8)
  | addressAndPortRequired
  | mtuCannotSupportDepth
  | peerNeedsEndpoint
  | peerNeedsPublicKey
  | refused
deriving DecidableEq

/-! ## Lines and values -/

def isYamlBlank (char : UInt8) : Bool := char = 32 || char = 9

def isYamlTrailing (char : UInt8) : Bool := char = 32 || char = 9 || char = 13 || char = 10

/-- The blanks in front of a line; nothing for a line that is blank or a comment. -/
def yamlIndent (line : List UInt8) : Option Nat :=
  match line.dropWhile isYamlBlank with
  | [] => none
  | char :: _ => if char = 35 then none else some (line.takeWhile isYamlBlank).length

def yamlTrim (text : List UInt8) : List UInt8 := (text.dropWhile isYamlBlank).rdropWhile isYamlTrailing

def yamlSplitKeyValue (line : List UInt8) : Option (List UInt8 × List UInt8) :=
  (cutFirst 58 line).map fun (key, value) => (yamlTrim key, yamlTrim value)

def hexval (char : UInt8) : Option UInt8 := if isHexDigit char then some (hexDigit char) else none

/-- The loop over the pairs of digits. -/
def readHexPairs : List UInt8 → Option (List UInt8)
  | high :: low :: rest => do
    let hi ← hexval high
    let lo ← hexval low
    let bytes ← readHexPairs rest
    some (((hi <<< 4) ||| lo) :: bytes)
  | _ => some []

def parseHexBytes (text : List UInt8) : Option (List UInt8) :=
  if text.length % 2 ≠ 0 then none else readHexPairs text

/-- `parse_network_id` and `parse_public_key`. -/
def parseBytes32 (value : List UInt8) : Option (FixedBytes 32) := do
  let bytes ← parseHexBytes value
  if h : bytes.length = 32 then some ⟨bytes, h⟩ else none

def parseBoundedUint32 (value : List UInt8) (minimum maximum : Nat) : Option Nat :=
  if value = [] ∨ ∃ char ∈ value, isDecimalDigit char = false then none
  else do
    let parsed ← strtoul value
    if parsed < minimum ∨ maximum < parsed then none else some parsed

def parsePort (value : List UInt8) : Option UInt16 :=
  if value = [] ∨ ∃ char ∈ value, isDecimalDigit char = false then none
  else do
    let port ← strtoul value
    if port = 0 ∨ 65535 < port then none else some (UInt16.ofNat port)

/-! ## The parser -/

inductive YamlSection where
  | root
  | interface
  | identity
  | peers
deriving DecidableEq

/-- What the parser keeps between two lines. -/
structure YamlState where
  cfg : AppConfig := {}
  inSection : YamlSection := .root
  inPeerItem : Bool := false
  inAllowed : Bool := false
deriving DecidableEq

namespace YamlState

/-- A value that a parser of values did not accept. -/
def orRefuse {α : Type} : Option α → Except YamlError α
  | some value => .ok value
  | none => .error .refused

/-- The loop of the file is in a new section. -/
def enter (state : YamlState) (next : YamlSection) : YamlState :=
  { state with inSection := next, inPeerItem := false, inAllowed := false }

def topLevelLine (state : YamlState) (line : List UInt8) : Except YamlError YamlState :=
  if line = asciiBytes "interface:" then .ok (state.enter .interface)
  else if line = asciiBytes "identity:" then .ok (state.enter .identity)
  else if line = asciiBytes "peer:" then .ok (state.enter .peers)
  else .error (.unexpectedTopLevelKey line)

def interfaceKey (iface : InterfaceConfig) (key value : List UInt8) : Except YamlError InterfaceConfig :=
  if key = asciiBytes "address" then
    if (IPInterfaceAddress.parse value).isSome then .ok { iface with address := value } else .error .refused
  else if key = asciiBytes "listen_port" then do
    let port ← orRefuse (parsePort value)
    .ok { iface with listenPort := port }
  else if key = asciiBytes "underlay_mtu" then do
    let mtu ← orRefuse (parseBoundedUint32 value 1 MAXIMUM_IPV4_MTU)
    .ok { iface with underlayMtu := UInt32.ofNat mtu }
  else if key = asciiBytes "max_relay_depth" then do
    let depth ← orRefuse (parseBoundedUint32 value DIRECT_ROUTE_DEPTH ONION_MAX_HOPS)
    .ok { iface with maxRelayDepth := UInt8.ofNat depth }
  else if key = asciiBytes "padding_bucket_size" then do
    let bucketSize ← orRefuse (parseBoundedUint32 value 32 256)
    if isSupportedSessionPaddingBucket bucketSize then
      .ok { iface with paddingBucketSize := UInt16.ofNat bucketSize }
    else .error .refused
  else if key = asciiBytes "stun_server" then
    if value = [] then .error .refused else .ok { iface with stunServer := some value }
  else .error (.unknownInterfaceKey key)

def interfaceLine (state : YamlState) (line : List UInt8) : Except YamlError YamlState :=
  match yamlSplitKeyValue line with
  | none => .error (.badInterfaceLine line)
  | some (key, value) => do
    let iface ← interfaceKey state.cfg.iface key value
    .ok { state with cfg := { state.cfg with iface } }

def identityKey (cfg : AppConfig) (key value : List UInt8) : Except YamlError AppConfig :=
  if key = asciiBytes "network_id" then do
    let networkId ← orRefuse (parseBytes32 value)
    .ok { cfg with networkId := some networkId }
  else if key = asciiBytes "invite" then
    if value = [] then .error .refused else .ok { cfg with invite := some value }
  else .error (.unknownIdentityKey key)

def identityLine (state : YamlState) (line : List UInt8) : Except YamlError YamlState :=
  match yamlSplitKeyValue line with
  | none => .error (.badIdentityLine line)
  | some (key, value) => do
    let cfg ← identityKey state.cfg key value
    .ok { state with cfg }

/-- `cfg.peers.back()` after a change. -/
def updateBack (cfg : AppConfig) (update : PeerConfig → PeerConfig) : AppConfig :=
  { cfg with peers := cfg.peers.dropLast ++ cfg.peers.getLast?.toList.map update }

/-- The keys that a list item can start with. -/
def peerKey (cfg : AppConfig) (key value : List UInt8) : Except YamlError AppConfig :=
  if key = asciiBytes "endpoint" then
    if value = [] then .error .refused else .ok (updateBack cfg fun peer => { peer with endpoint := value })
  else if key = asciiBytes "public_key" then do
    let publicKey ← orRefuse (parseBytes32 value)
    .ok (updateBack cfg fun peer => { peer with publicKey })
  else .error (.unknownPeerKey key)

/-- A list item of the peer section: with a key it starts a peer, without one it is an entry of `allowed_ips`. -/
def peerItem (state : YamlState) (item : List UInt8) : Except YamlError YamlState :=
  if item = [] then .error .emptyPeerListItem
  else
    match yamlSplitKeyValue item with
    | some (key, value) => do
      let cfg ← peerKey { state.cfg with peers := state.cfg.peers ++ [{}] } key value
      .ok { state with cfg, inPeerItem := true, inAllowed := false }
    | none =>
      if state.inAllowed ∧ state.inPeerItem ∧ state.cfg.peers ≠ [] then
        .ok { state with
          cfg := updateBack state.cfg fun peer => { peer with allowedIps := peer.allowedIps ++ [item] } }
      else .error (.unexpectedListItem item)

/-- A line of the peer section; the keys are different, so `allowed_ips` may be looked for first. -/
def peerLine (state : YamlState) (line : List UInt8) : Except YamlError YamlState :=
  if line.take 2 = asciiBytes "- " then peerItem state (yamlTrim (line.drop 2))
  else if state.inPeerItem = false ∨ state.cfg.peers = [] then .error (.peerKeyOutsideListItem line)
  else
    match yamlSplitKeyValue line with
    | none => .error (.badPeerLine line)
    | some (key, value) =>
      if key = asciiBytes "allowed_ips" then .ok { state with inAllowed := true }
      else do
        let cfg ← peerKey state.cfg key value
        .ok { state with cfg }

/-- A line below a section. -/
def sectionLine (state : YamlState) (line : List UInt8) : Except YamlError YamlState :=
  match state.inSection with
  | .interface => state.interfaceLine line
  | .identity => state.identityLine line
  | .peers => state.peerLine line
  | .root => .error (.contentBeforeSection line)

def parseLine (state : YamlState) (raw : List UInt8) : Except YamlError YamlState :=
  match yamlIndent raw with
  | none => .ok state
  | some indent =>
    let line := yamlTrim raw
    if line = [] then .ok state
    else if indent = 0 then state.topLevelLine line
    else state.sectionLine line

end YamlState

/-- The loop over the peers at the end. -/
def checkPeers : List PeerConfig → Except YamlError Unit
  | [] => .ok ()
  | peer :: peers =>
    if peer.endpoint = [] then .error .peerNeedsEndpoint
    else if peer.publicKey = FixedBytes.zero 32 then .error .peerNeedsPublicKey
    else checkPeers peers

/-- The checks at the end of the file. -/
def AppConfig.check (cfg : AppConfig) : Except YamlError Unit :=
  if cfg.iface.address = [] ∨ cfg.iface.listenPort = 0 then .error .addressAndPortRequired
  else if safeOverlayMtu cfg.iface.underlayMtu.toNat cfg.iface.maxRelayDepth.toNat
      cfg.iface.paddingBucketSize.toNat = none then .error .mtuCannotSupportDepth
  else checkPeers cfg.peers

/-- The configuration of an accepted text. -/
def parseYaml (content : List UInt8) : Except YamlError AppConfig := do
  let state ← (segments 10 content).foldlM YamlState.parseLine {}
  state.cfg.check
  .ok state.cfg

/-! ## Trimmed texts -/

variable {text key value : List UInt8}

theorem isYamlTrailing_of_isYamlBlank {char : UInt8} (h : isYamlBlank char = true) : isYamlTrailing char = true := by
  rw [isYamlBlank] at h
  rw [isYamlTrailing, h, Bool.true_or, Bool.true_or]

theorem mem_of_mem_yamlTrim {char : UInt8} (h : char ∈ yamlTrim text) : char ∈ text :=
  (List.dropWhile_suffix _).subset ((List.rdropWhile_prefix _ _).subset h)

theorem yamlTrim_eq_self_iff :
    yamlTrim text = text ↔
      (∀ char, text.head? = some char → isYamlBlank char = false) ∧
        ∀ char, text.getLast? = some char → isYamlTrailing char = false := by
  have hfront : text.dropWhile isYamlBlank = text ↔ ∀ char, text.head? = some char → isYamlBlank char = false := by
    cases text with
    | nil => exact iff_of_true rfl nofun
    | cons first rest => simp [List.dropWhile_eq_self_iff]
  have hback : text.rdropWhile isYamlTrailing = text ↔
      ∀ char, text.getLast? = some char → isYamlTrailing char = false := by
    rw [List.rdropWhile_eq_self_iff]
    constructor
    · intro h char hchar
      have hne : text ≠ [] := by
        rintro rfl
        cases hchar
      rw [List.getLast?_eq_some_getLast hne, Option.some.injEq] at hchar
      rw [← hchar]
      exact Bool.eq_false_of_not_eq_true (h hne)
    · intro h hne
      rw [h _ (List.getLast?_eq_some_getLast hne)]
      exact Bool.false_ne_true
  rw [← hfront, ← hback]
  constructor
  · intro h
    -- neither step can have made the text shorter
    have hshort := (List.rdropWhile_prefix isYamlTrailing (text.dropWhile isYamlBlank)).length_le
    rw [show (text.dropWhile isYamlBlank).rdropWhile isYamlTrailing = text from h] at hshort
    have hdrop : text.dropWhile isYamlBlank = text :=
      (List.dropWhile_suffix _).eq_of_length_le hshort
    rw [yamlTrim, hdrop] at h
    exact ⟨hdrop, h⟩
  · rintro ⟨hdrop, htrim⟩
    rw [yamlTrim, hdrop, htrim]

/-- A value that a line can carry: it is trimmed and on one line. -/
structure PlainValue (text : List UInt8) : Prop where
  ne_nil : text ≠ []
  trimmed : yamlTrim text = text
  single : 10 ∉ text

theorem PlainValue.of_solid (hne : text ≠ []) (h : ∀ char ∈ text, isYamlTrailing char = false) : PlainValue text where
  ne_nil := hne
  trimmed := by
    refine yamlTrim_eq_self_iff.mpr ⟨fun char hchar => ?_, fun char hchar => h char (List.mem_of_getLast? hchar)⟩
    have hsolid := h char (List.mem_of_head? hchar)
    by_contra hblank
    rw [isYamlTrailing_of_isYamlBlank (Bool.eq_true_of_not_eq_false hblank)] at hsolid
    cases hsolid
  single hmem := by cases h 10 hmem

theorem PlainValue.append {front : List UInt8} {first : UInt8} (hfirst : front.head? = some first)
    (hblank : isYamlBlank first = false) (hsingle : 10 ∉ front) (h : PlainValue value) :
    PlainValue (front ++ value) where
  ne_nil := List.append_ne_nil_of_right_ne_nil _ h.ne_nil
  trimmed := by
    obtain ⟨-, hlast⟩ := yamlTrim_eq_self_iff.mp h.trimmed
    refine yamlTrim_eq_self_iff.mpr ⟨fun char hchar => ?_, fun char hchar => ?_⟩
    · rw [List.head?_append, hfirst, Option.some_or, Option.some.injEq] at hchar
      rwa [← hchar]
    · rw [List.getLast?_append_of_ne_nil _ h.ne_nil] at hchar
      exact hlast char hchar
  single hmem := (List.mem_append.mp hmem).elim hsingle h.single

theorem yamlTrim_blanks {blanks : List UInt8} (hblanks : ∀ char ∈ blanks, isYamlBlank char = true)
    (htext : yamlTrim text = text) : yamlTrim (blanks ++ text) = text := by
  rw [yamlTrim, List.dropWhile_append_of_pos hblanks]
  exact htext

theorem yamlSplitKeyValue_line (hcolon : 58 ∉ key) (hkey : yamlTrim key = key) (hvalue : yamlTrim value = value) :
    yamlSplitKeyValue (key ++ 58 :: 32 :: value) = some (key, value) := by
  have hblank : yamlTrim ([32] ++ value) = value := yamlTrim_blanks (List.forall_mem_singleton.mpr (by decide)) hvalue
  rw [yamlSplitKeyValue, Segments.cutFirst_append_cons hcolon, Option.map_some]
  show some (yamlTrim key, yamlTrim ([32] ++ value)) = some (key, value)
  rw [hkey, hblank]

namespace YamlState

variable {state : YamlState} {line : List UInt8}

theorem parseLine_indented (state : YamlState) {indent : Nat} (hindent : 0 < indent) (hline : PlainValue line)
    (hcomment : line.head? ≠ some 35) :
    state.parseLine (List.replicate indent 32 ++ line) = state.sectionLine line := by
  have hblanks : ∀ char ∈ List.replicate indent (32 : UInt8), isYamlBlank char = true := by
    intro char hchar
    rw [List.eq_of_mem_replicate hchar]
    decide
  obtain ⟨first, rest, rfl⟩ := List.exists_cons_of_ne_nil hline.ne_nil
  have hfirst := (yamlTrim_eq_self_iff.mp hline.trimmed).1 first rfl
  have hyamlIndent : yamlIndent (List.replicate indent 32 ++ first :: rest) = some indent := by
    rw [yamlIndent, List.dropWhile_append_of_pos hblanks, List.takeWhile_append_of_pos hblanks,
      List.dropWhile_cons_of_neg (by rw [hfirst]; exact Bool.false_ne_true),
      List.takeWhile_cons_of_neg (by rw [hfirst]; exact Bool.false_ne_true), List.append_nil, List.length_replicate]
    exact if_neg fun heq => hcomment (congrArg some heq)
  rw [parseLine, hyamlIndent, yamlTrim_blanks hblanks hline.trimmed]
  dsimp only
  rw [if_neg (List.cons_ne_nil first rest), if_neg (Nat.pos_iff_ne_zero.mp hindent)]

end YamlState

end Aegis
