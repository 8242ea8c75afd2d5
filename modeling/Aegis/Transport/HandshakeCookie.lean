import Aegis.Lib.KeyRing
import Aegis.Net.Address
import Mathlib.Algebra.Order.Group.Int
import Mathlib.Data.List.Chain

/-!
# Retry cookies

`HandshakeCookieManager` of `transport/handshake_cookie.cpp`. A cookie is a keyed hash of the address and port an
INIT came from, its session id and its bytes, under a secret that is replaced from time to time by whichever call
comes after the interval. The secrets form a `KeyRing`. The hash function is a parameter; `hmacHash` is built from
it as in `crypto/primitives.cpp`, so that a hash without collisions among the strings that are hashed gives cookies
that tell the secrets and the handshakes apart.
-/

namespace Aegis

/-! ### The keyed hash -/

/-- The block of a key: a long key is hashed first. -/
def hmacKeyBlock (hash : List UInt8 → Option CryptoHash) (key : List UInt8) : Option (FixedBytes 64) :=
  if 64 < key.length then (hash key).map fun digest => FixedBytes.copy 64 digest.1 else some (FixedBytes.copy 64 key)

def hmacPad (mask : UInt8) (block : FixedBytes 64) : List UInt8 := block.1.map (· ^^^ mask)

def hmacHash (hash : List UInt8 → Option CryptoHash) (key message : List UInt8) : Option CryptoHash := do
  let block ← hmacKeyBlock hash key
  let inner ← hash (hmacPad 0x36 block ++ message)
  hash (hmacPad 0x5c block ++ inner.1)

def HANDSHAKE_COOKIE_SIZE : Nat := 32

abbrev HandshakeCookie := FixedBytes HANDSHAKE_COOKIE_SIZE
abbrev CookieSecret := FixedBytes HANDSHAKE_COOKIE_SIZE

/-- What a cookie is for. -/
structure CookieSubject where
  source : Endpoint
  sessionId : UInt32
  initFrame : List UInt8
deriving DecidableEq

/-- `aegis-retry-cookie-v1`. -/
def COOKIE_DOMAIN : List UInt8 :=
  [0x61, 0x65, 0x67, 0x69, 0x73, 0x2d, 0x72, 0x65, 0x74, 0x72, 0x79, 0x2d, 0x63, 0x6f, 0x6f, 0x6b, 0x69, 0x65, 0x2d,
    0x76, 0x31]

/-- The string under the keyed hash. It fills the array it is written to, so no write fails. -/
def CookieSubject.context (subject : CookieSubject) (initHash : CryptoHash) : List UInt8 :=
  COOKIE_DOMAIN ++ (subject.source.address.family.toByte :: (subject.source.address.bytes.1 ++
    (beBytes 2 subject.source.port.toNat ++ (beBytes 4 subject.sessionId.toNat ++ initHash.1))))

structure HandshakeCookieConfig where
  rotationInterval : Time := 120000
deriving DecidableEq

structure HandshakeCookieManager where
  config : HandshakeCookieConfig
  currentSecret : CookieSecret := FixedBytes.zero HANDSHAKE_COOKIE_SIZE
  previousSecret : CookieSecret := FixedBytes.zero HANDSHAKE_COOKIE_SIZE
  rotatedAt : Time := 0
  hasCurrent : Bool := false
  hasPrevious : Bool := false
deriving DecidableEq

namespace HandshakeCookieManager

/-- An interval that is not positive is taken to be a millisecond. -/
def create (config : HandshakeCookieConfig) : HandshakeCookieManager where
  config := if config.rotationInterval ≤ 0 then { config with rotationInterval := 1 } else config

/-- The current secret was drawn less than `interval` ago. -/
def drawnWithin (manager : HandshakeCookieManager) (interval now : Time) : Bool :=
  manager.hasCurrent && manager.rotatedAt ≤ now && now - manager.rotatedAt < interval

/-- `draw` is what the random source fills the replacement with, if it is asked. -/
def rotateIfNeeded (manager : HandshakeCookieManager) (now : Time) (draw : Option CookieSecret) :
    HandshakeCookieManager × Bool :=
  if manager.drawnWithin manager.config.rotationInterval now then (manager, true)
  else
    match draw with
    | none => (manager, false)
    | some replacement =>
      let manager :=
        if manager.drawnWithin (2 * manager.config.rotationInterval) now then
          { manager with previousSecret := manager.currentSecret, hasPrevious := true }
        else { manager with previousSecret := FixedBytes.zero HANDSHAKE_COOKIE_SIZE, hasPrevious := false }
      ({ manager with currentSecret := replacement, rotatedAt := now, hasCurrent := true }, true)

def derive (hash : List UInt8 → Option CryptoHash) (secret : CookieSecret) (subject : CookieSubject) :
    Option HandshakeCookie := do
  let initHash ← hash subject.initFrame
  hmacHash hash secret.1 (subject.context initHash)

def issue (hash : List UInt8 → Option CryptoHash) (manager : HandshakeCookieManager) (now : Time)
    (draw : Option CookieSecret) (subject : CookieSubject) : HandshakeCookieManager × Option HandshakeCookie :=
  let (manager, ready) := manager.rotateIfNeeded now draw
  (manager, if !ready then none else derive hash manager.currentSecret subject)

def verify (hash : List UInt8 → Option CryptoHash) (manager : HandshakeCookieManager) (now : Time)
    (draw : Option CookieSecret) (cookie : HandshakeCookie) (subject : CookieSubject) :
    HandshakeCookieManager × Bool :=
  let (manager, ready) := manager.rotateIfNeeded now draw
  (manager,
    if !ready then false
    else if derive hash manager.currentSecret subject = some cookie then true
    else if !manager.hasPrevious then false
    else derive hash manager.previousSecret subject = some cookie)

/-! ### Cookies tell secrets and handshakes apart -/

end HandshakeCookieManager

/-- Two of the strings that are hashed to one digest are the same string. -/
def CollisionFreeOn (hash : List UInt8 → Option CryptoHash) (inputs : List (List UInt8)) : Prop :=
  ∀ a ∈ inputs, ∀ b ∈ inputs, ∀ digest, hash a = some digest → hash b = some digest → a = b

/-- The strings `hmacHash` hashes under a key of at most a block. -/
def hmacInputs (hash : List UInt8 → Option CryptoHash) (key message : List UInt8) : List (List UInt8) :=
  let block := FixedBytes.copy 64 key
  (hmacPad 0x36 block ++ message) ::
    ((hash (hmacPad 0x36 block ++ message)).map fun inner => hmacPad 0x5c block ++ inner.1).toList

theorem length_hmacPad (mask : UInt8) (block : FixedBytes 64) : (hmacPad mask block).length = 64 := by
  simp [hmacPad, block.2]

theorem hmacPad_inj {mask : UInt8} {block block' : FixedBytes 64} (h : hmacPad mask block = hmacPad mask block') :
    block = block' := by
  refine Subtype.ext (List.map_injective_iff.mpr (fun a b hab => ?_) h)
  have hback := congrArg (· ^^^ mask) hab
  simpa [UInt8.xor_assoc] using hback

theorem hmacHash_inj {hash : List UInt8 → Option CryptoHash} {inputs : List (List UInt8)} {key key' : FixedBytes 32}
    {message message' : List UInt8} {digest : CryptoHash} (hfree : CollisionFreeOn hash inputs)
    (hin : ∀ a ∈ hmacInputs hash key.1 message, a ∈ inputs) (hin' : ∀ a ∈ hmacInputs hash key'.1 message', a ∈ inputs)
    (h : hmacHash hash key.1 message = some digest) (h' : hmacHash hash key'.1 message' = some digest) :
    key = key' ∧ message = message' := by
  have hsplit {k : FixedBytes 32} {m : List UInt8} (hhash : hmacHash hash k.1 m = some digest)
      (hinputs : ∀ a ∈ hmacInputs hash k.1 m, a ∈ inputs) :
      ∃ inner, hash (hmacPad 0x36 (FixedBytes.copy 64 k.1) ++ m) = some inner ∧
        hash (hmacPad 0x5c (FixedBytes.copy 64 k.1) ++ inner.1) = some digest ∧
        hmacPad 0x36 (FixedBytes.copy 64 k.1) ++ m ∈ inputs ∧
        hmacPad 0x5c (FixedBytes.copy 64 k.1) ++ inner.1 ∈ inputs := by
    have hshort : ¬64 < k.1.length := by simp [k.2]
    simp only [hmacHash, hmacKeyBlock, if_neg hshort, Option.bind_eq_bind, Option.bind_some,
      Option.bind_eq_some_iff] at hhash
    obtain ⟨inner, hinner, houter⟩ := hhash
    exact ⟨inner, hinner, houter, hinputs _ (by simp [hmacInputs]), hinputs _ (by simp [hmacInputs, hinner])⟩
  obtain ⟨inner, hinner, houter, hmem, hmemOuter⟩ := hsplit h hin
  obtain ⟨inner', hinner', houter', hmem', hmemOuter'⟩ := hsplit h' hin'
  -- the outer hashes agree, so do their inputs, and with them the inner hashes
  have hequal := hfree _ hmemOuter _ hmemOuter' digest houter houter'
  obtain ⟨-, hdigests⟩ := List.append_inj hequal (by rw [length_hmacPad, length_hmacPad])
  obtain rfl := Subtype.ext hdigests
  have hequal' := hfree _ hmem _ hmem' inner hinner hinner'
  obtain ⟨hpads, hmessages⟩ := List.append_inj hequal' (by rw [length_hmacPad, length_hmacPad])
  have hkeys := (FixedBytes.copy_inj (key.2.trans key'.2.symm) (by rw [key.2]; decide)).mp (hmacPad_inj hpads)
  exact ⟨Subtype.ext hkeys, hmessages⟩

theorem CookieSubject.context_inj {subject subject' : CookieSubject} {digest digest' : CryptoHash}
    (h : subject.context digest = subject'.context digest') :
    subject.source = subject'.source ∧ subject.sessionId = subject'.sessionId ∧ digest = digest' := by
  obtain ⟨⟨⟨family, bytes⟩, port⟩, sessionId, initFrame⟩ := subject
  obtain ⟨⟨⟨family', bytes'⟩, port'⟩, sessionId', initFrame'⟩ := subject'
  simp only [context, List.append_cancel_left_eq, List.cons.injEq] at h
  obtain ⟨hfamily, h⟩ := h
  obtain ⟨hbytes, h⟩ := List.append_inj h (by rw [bytes.2, bytes'.2])
  obtain ⟨hport, h⟩ := List.append_inj h (by simp)
  obtain ⟨hid, hdigest⟩ := List.append_inj h (by simp)
  have hfamily : family = family' := by
    cases family <;> cases family' <;> first | rfl | exact absurd hfamily (by decide)
  have hport : port = port' := UInt16.toNat_inj.mp (beBytes_inj port.toNat_lt port'.toNat_lt hport)
  have hid : sessionId = sessionId' := UInt32.toNat_inj.mp (beBytes_inj sessionId.toNat_lt sessionId'.toNat_lt hid)
  obtain rfl := Subtype.ext hbytes
  subst hfamily hport hid
  exact ⟨rfl, rfl, Subtype.ext hdigest⟩

namespace HandshakeCookieManager

/-- The strings `derive` hashes. -/
def hashInputs (hash : List UInt8 → Option CryptoHash) (secret : CookieSecret) (subject : CookieSubject) :
    List (List UInt8) :=
  subject.initFrame ::
    ((hash subject.initFrame).map fun digest => hmacInputs hash secret.1 (subject.context digest)).getD []

theorem derive_inj {hash : List UInt8 → Option CryptoHash} {inputs : List (List UInt8)} {secret secret' : CookieSecret}
    {subject subject' : CookieSubject} {cookie : HandshakeCookie} (hfree : CollisionFreeOn hash inputs)
    (hin : ∀ a ∈ hashInputs hash secret subject, a ∈ inputs) (hin' : ∀ a ∈ hashInputs hash secret' subject', a ∈ inputs)
    (h : derive hash secret subject = some cookie) (h' : derive hash secret' subject' = some cookie) :
    secret = secret' ∧ subject = subject' := by
  obtain ⟨digest, hinit, hcookie⟩ := Option.bind_eq_some_iff.mp h
  obtain ⟨digest', hinit', hcookie'⟩ := Option.bind_eq_some_iff.mp h'
  obtain ⟨hsecret, hcontext⟩ := hmacHash_inj hfree (fun a ha => hin a (by simp [hashInputs, hinit, ha]))
    (fun a ha => hin' a (by simp [hashInputs, hinit', ha])) hcookie hcookie'
  obtain ⟨hsource, hid, rfl⟩ := CookieSubject.context_inj hcontext
  have hframe := hfree _ (hin _ List.mem_cons_self) _ (hin' _ List.mem_cons_self) digest hinit hinit'
  refine ⟨hsecret, ?_⟩
  obtain ⟨source, sessionId, initFrame⟩ := subject
  obtain ⟨source', sessionId', initFrame'⟩ := subject'
  simp_all

/-! ### The ring of secrets -/

def interval (manager : HandshakeCookieManager) : Time := manager.config.rotationInterval

/-- The secrets a manager holds. -/
def ring (manager : HandshakeCookieManager) : KeyRing Time CookieSecret where
  current := if manager.hasCurrent then some (manager.rotatedAt, manager.currentSecret) else none
  previous := if manager.hasPrevious then some manager.previousSecret else none

theorem config_rotateIfNeeded (manager : HandshakeCookieManager) (now : Time) (draw : Option CookieSecret) :
    (manager.rotateIfNeeded now draw).1.config = manager.config := by
  unfold rotateIfNeeded
  split_ifs
  · rfl
  · cases draw with
    | none => rfl
    | some replacement => rfl
  · cases draw with
    | none => rfl
    | some replacement => rfl

/-- With a clock that does not run backwards, a manager rotates as its ring does. -/
theorem rotateIfNeeded_some {manager : HandshakeCookieManager} {now : Time} (replacement : CookieSecret)
    (hused : manager.ring.UsedBy now) :
    (manager.rotateIfNeeded now (some replacement)).2 = true ∧
      (manager.rotateIfNeeded now (some replacement)).1.ring =
        manager.ring.rotate manager.interval now replacement ∧
      (manager.drawnWithin manager.config.rotationInterval now = false ↔ manager.ring.Draws manager.interval now) := by
  cases hcurrent : manager.hasCurrent with
  | false => simp [rotateIfNeeded, drawnWithin, hcurrent, ring, KeyRing.rotate, KeyRing.Draws]
  | true =>
    have hring : manager.ring.current = some (manager.rotatedAt, manager.currentSecret) := by simp [ring, hcurrent]
    have hle : manager.rotatedAt ≤ now := hused _ _ hring
    have hwithin (length : Time) : manager.drawnWithin length now = true ↔ now < manager.rotatedAt + length := by
      simp only [drawnWithin, hcurrent, Bool.true_and, Bool.and_eq_true, decide_eq_true_eq, hle, true_and]
      exact sub_lt_iff_lt_add'
    have htwice : manager.rotatedAt + 2 * manager.interval
        = manager.rotatedAt + manager.interval + manager.interval := by
      rw [two_mul, add_assoc]
    have hdraws : manager.ring.Draws manager.interval now ↔ ¬now < manager.rotatedAt + manager.interval := by
      rw [not_lt]
      refine ⟨fun h => h _ _ hring, fun h since key hsince => ?_⟩
      obtain ⟨rfl, rfl⟩ := Prod.mk.inj (Option.some.inj (hring.symm.trans hsince))
      exact h
    refine ⟨?_, ?_, ?_⟩
    · unfold rotateIfNeeded
      split_ifs <;> rfl
    · by_cases hearly : now < manager.rotatedAt + manager.interval
      · have hsame : manager.rotateIfNeeded now (some replacement) = (manager, true) := if_pos ((hwithin _).mpr hearly)
        rw [hsame, KeyRing.rotate, hring]
        exact (if_pos hearly).symm
      · have hold : manager.drawnWithin manager.config.rotationInterval now = false := by
          rw [← Bool.not_eq_true, hwithin]
          exact hearly
        rw [KeyRing.rotate, hring]
        simp only [if_neg hearly, ← htwice, rotateIfNeeded, hold]
        by_cases hkeep : now < manager.rotatedAt + 2 * manager.interval
        · have hkept : manager.drawnWithin (2 * manager.config.rotationInterval) now = true := (hwithin _).mpr hkeep
          simp [hkept, hkeep, ring]
        · have hkept : manager.drawnWithin (2 * manager.config.rotationInterval) now = false := by
            rw [← Bool.not_eq_true, hwithin]
            exact hkeep
          simp [hkept, hkeep, ring]
    · rw [hdraws, ← Bool.not_eq_true, hwithin]
      rfl

/-! ### Runs -/

inductive Op where
  | issue (subject : CookieSubject)
  | verify (cookie : HandshakeCookie) (subject : CookieSubject)

def Op.subject : Op → CookieSubject
  | .issue subject => subject
  | .verify _ subject => subject

/-- A call, the time its clock shows and what the random source would give it. -/
structure Call where
  now : Time
  draw : Option CookieSecret
  op : Op

inductive Event where
  | issued (now : Time) (subject : CookieSubject) (cookie : Option HandshakeCookie)
  | verified (now : Time) (cookie : HandshakeCookie) (subject : CookieSubject) (answer : Bool)
deriving DecidableEq

def Event.now : Event → Time
  | .issued now _ _ => now
  | .verified now _ _ _ => now

def step (hash : List UInt8 → Option CryptoHash) (manager : HandshakeCookieManager) (call : Call) :
    HandshakeCookieManager × Event :=
  match call.op with
  | .issue subject =>
    let result := manager.issue hash call.now call.draw subject
    (result.1, .issued call.now subject result.2)
  | .verify cookie subject =>
    let result := manager.verify hash call.now call.draw cookie subject
    (result.1, .verified call.now cookie subject result.2)

def events (hash : List UInt8 → Option CryptoHash) : HandshakeCookieManager → List Call → List Event
  | _, [] => []
  | manager, call :: rest => (manager.step hash call).2 :: events hash (manager.step hash call).1 rest

/-- The manager after the rotation every call begins with. -/
def next (manager : HandshakeCookieManager) (call : Call) : HandshakeCookieManager :=
  (manager.rotateIfNeeded call.now call.draw).1

def draws (manager : HandshakeCookieManager) (call : Call) : List CookieSecret :=
  if manager.drawnWithin manager.config.rotationInterval call.now then [] else call.draw.toList

def drawn : HandshakeCookieManager → List Call → List CookieSecret
  | _, [] => []
  | manager, call :: rest => manager.draws call ++ drawn (manager.next call) rest

def ClockOrdered (start : Time) (calls : List Call) : Prop :=
  List.IsChain (· ≤ ·) (start :: calls.map (·.now))

@[simp] theorem step_fst (hash : List UInt8 → Option CryptoHash) (manager : HandshakeCookieManager) (call : Call) :
    (manager.step hash call).1 = manager.next call := by
  unfold step
  cases call.op with
  | issue subject => rfl
  | verify cookie subject => rfl

/-- The calls to come find a clock that goes on, a random source that works, and secrets that are new; `secrets`
are those of the whole run. -/
structure Regular (secrets : List CookieSecret) (now : Time) (manager : HandshakeCookieManager) (calls : List Call) :
    Prop where
  interval_pos : 0 < manager.interval
  used : manager.ring.UsedBy now
  clock : ClockOrdered now calls
  works : ∀ call ∈ calls, call.draw.isSome = true
  distinct : (manager.drawn calls).Nodup
  fresh : ∀ secret, manager.ring.Holds secret → secret ∉ manager.drawn calls
  held : ∀ secret, manager.ring.Holds secret → secret ∈ secrets
  drawn : ∀ secret ∈ manager.drawn calls, secret ∈ secrets

section

variable {hash : List UInt8 → Option CryptoHash} {secrets : List CookieSecret} {manager : HandshakeCookieManager}
  {now : Time} {call : Call} {rest : List Call}

theorem interval_next (manager : HandshakeCookieManager) (call : Call) :
    (manager.next call).interval = manager.interval :=
  congrArg HandshakeCookieConfig.rotationInterval (manager.config_rotateIfNeeded call.now call.draw)

namespace Regular

section

variable (h : Regular secrets now manager (call :: rest))
include h

theorem le_now : now ≤ call.now := by
  have hclock := h.clock
  rw [ClockOrdered, List.map_cons, List.isChain_cons_cons] at hclock
  exact hclock.1

theorem rotates :
    ∃ replacement, (manager.rotateIfNeeded call.now call.draw).2 = true ∧
      (manager.next call).ring = manager.ring.rotate manager.interval call.now replacement ∧
      (manager.ring.Draws manager.interval call.now → manager.draws call = [replacement]) ∧
      (¬manager.ring.Draws manager.interval call.now → manager.draws call = []) := by
  obtain ⟨replacement, hdraw⟩ := Option.isSome_iff_exists.mp (h.works call List.mem_cons_self)
  obtain ⟨hready, hring, hdraws⟩ := rotateIfNeeded_some replacement (h.used.later h.le_now)
  refine ⟨replacement, hdraw ▸ hready, by rw [next, hdraw, hring], fun hold => ?_, fun hearly => ?_⟩
  · simp [draws, hdraws.mpr hold, hdraw]
  · have hwithin := Bool.eq_true_of_not_eq_false fun hfalse => hearly (hdraws.mp hfalse)
    simp [draws, hwithin]

theorem current_next :
    (manager.next call).ring.current = some ((manager.next call).rotatedAt, (manager.next call).currentSecret) ∧
      (manager.next call).rotatedAt ≤ call.now ∧ call.now < (manager.next call).rotatedAt + manager.interval := by
  obtain ⟨replacement, -, hring, -⟩ := h.rotates
  obtain ⟨since, secret, hcurrent, hle, hlt⟩ :=
    KeyRing.rotate_current replacement h.interval_pos (h.used.later h.le_now)
  rw [← hring] at hcurrent
  have hfields : since = (manager.next call).rotatedAt ∧ secret = (manager.next call).currentSecret := by
    simp only [ring, Option.ite_none_right_eq_some, Option.some.injEq, Prod.mk.injEq] at hcurrent
    exact ⟨hcurrent.2.1.symm, hcurrent.2.2.symm⟩
  obtain ⟨rfl, rfl⟩ := hfields
  exact ⟨hcurrent, hle, hlt⟩

theorem holds_next {secret : CookieSecret}
    (hholds : (manager.next call).ring.Holds secret) : manager.ring.Holds secret ∨ secret ∈ manager.draws call := by
  obtain ⟨replacement, -, hring, hdraws, -⟩ := h.rotates
  rw [hring] at hholds
  rcases manager.ring.rotate_cases manager.interval call.now replacement with
    ⟨_, _, -, -, hsame⟩ | ⟨hold, hcurrent, hkept⟩
  · exact Or.inl (hsame ▸ hholds)
  · rcases hholds with ⟨since, hsince⟩ | hprevious
    · obtain ⟨-, rfl⟩ := Prod.mk.inj (Option.some.inj (hcurrent.symm.trans hsince))
      exact Or.inr (by simp [hdraws hold])
    · obtain ⟨since, hsince, -⟩ := (hkept secret).mp hprevious
      exact Or.inl (Or.inl ⟨since, hsince⟩)

theorem next : Regular secrets call.now (manager.next call) rest := by
  have hdrawn : manager.drawn (call :: rest) = manager.draws call ++ (manager.next call).drawn rest := rfl
  have hclock := h.clock
  rw [ClockOrdered, List.map_cons, List.isChain_cons_cons] at hclock
  obtain ⟨hcurrent, hle, -⟩ := h.current_next
  have hdistinct := h.distinct
  rw [hdrawn, List.nodup_append] at hdistinct
  refine
    { interval_pos := by rw [interval_next]; exact h.interval_pos
      used := fun since secret hsince => ?_
      clock := hclock.2
      works := fun c hc => h.works c (List.mem_cons_of_mem _ hc)
      distinct := hdistinct.2.1
      fresh := fun secret hholds hmem => ?_
      held := fun secret hholds => ?_
      drawn := fun secret hmem => h.drawn secret (by rw [hdrawn]; exact List.mem_append_right _ hmem) }
  · obtain ⟨rfl, -⟩ := Prod.mk.inj (Option.some.inj (hcurrent.symm.trans hsince))
    exact hle
  · rcases h.holds_next hholds with hbefore | hnew
    · exact h.fresh secret hbefore (by rw [hdrawn]; exact List.mem_append_right _ hmem)
    · exact hdistinct.2.2 secret hnew secret hmem rfl
  · rcases h.holds_next hholds with hbefore | hnew
    · exact h.held secret hbefore
    · exact h.drawn secret (by rw [hdrawn]; exact List.mem_append_left _ hnew)

theorem kept_next {since : Time} {secret : CookieSecret} (hkept : manager.ring.Kept manager.interval since now secret) :
    (manager.next call).ring.Kept (manager.next call).interval since call.now secret := by
  obtain ⟨replacement, -, hring, -⟩ := h.rotates
  rw [interval_next, hring]
  exact hkept.rotate replacement h.le_now

theorem dated_next {since : Time} {secret : CookieSecret}
    (hdated : manager.ring.Dated manager.interval since secret) (hold : secret ∉ manager.draws call) :
    (manager.next call).ring.Dated (manager.next call).interval since secret := by
  obtain ⟨replacement, -, hring, hdraws, -⟩ := h.rotates
  rw [interval_next, hring]
  refine hdated.rotate fun hrotates hsame => hold ?_
  rw [hdraws hrotates, hsame]
  exact List.mem_singleton_self secret

theorem verify_iff (cookie : HandshakeCookie) (subject : CookieSubject) :
    (manager.verify hash call.now call.draw cookie subject).2 = true ↔
      ∃ secret, (manager.next call).ring.Holds secret ∧ derive hash secret subject = some cookie := by
  obtain ⟨replacement, hready, -⟩ := h.rotates
  obtain ⟨hcurrent, -⟩ := h.current_next
  have hanswer : (manager.verify hash call.now call.draw cookie subject).2 =
      if !(manager.rotateIfNeeded call.now call.draw).2 then false
      else if derive hash (manager.next call).currentSecret subject = some cookie then true
      else if !(manager.next call).hasPrevious then false
      else decide (derive hash (manager.next call).previousSecret subject = some cookie) := rfl
  have hholds (secret : CookieSecret) : (manager.next call).ring.Holds secret ↔
      (manager.next call).currentSecret = secret ∨
        ((manager.next call).hasPrevious = true ∧ (manager.next call).previousSecret = secret) := by
    rw [KeyRing.Holds, hcurrent]
    simp [ring]
  rw [hanswer, hready]
  simp only [hholds, or_and_right, exists_or, exists_eq_left', and_assoc, exists_and_left]
  by_cases hnow : derive hash (manager.next call).currentSecret subject = some cookie
  · simp [hnow]
  · cases hprevious : (manager.next call).hasPrevious <;> simp [hnow]

theorem issue_eq (subject : CookieSubject) :
    (manager.issue hash call.now call.draw subject).2 = derive hash (manager.next call).currentSecret subject := by
  obtain ⟨replacement, hready, -⟩ := h.rotates
  have hanswer : (manager.issue hash call.now call.draw subject).2 =
      if !(manager.rotateIfNeeded call.now call.draw).2 then none
      else derive hash (manager.next call).currentSecret subject := rfl
  rw [hanswer, hready]
  rfl

end

variable {calls : List Call}

/-- An event of a run is that of one of its calls, made by a manager that every invariant reaches. -/
theorem event_at (Inv : Time → HandshakeCookieManager → List Call → Prop)
    (hstep : ∀ now manager call rest, Regular secrets now manager (call :: rest) → Inv now manager (call :: rest) →
      Inv call.now (manager.next call) rest)
    (h : Regular secrets now manager calls) (hinv : Inv now manager calls) {i : Nat} {event : Event}
    (hevent : (manager.events hash calls)[i]? = some event) :
    ∃ now' manager' call rest, Regular secrets now' manager' (call :: rest) ∧ Inv now' manager' (call :: rest) ∧
      call ∈ calls ∧ (manager'.step hash call).2 = event ∧
      ∀ k, (manager.events hash calls)[i + 1 + k]? = ((manager'.next call).events hash rest)[k]? := by
  induction calls generalizing now manager i with
  | nil => simp [events] at hevent
  | cons call rest ih =>
    rw [events, step_fst] at hevent ⊢
    cases i with
    | zero =>
      refine ⟨now, manager, call, rest, h, hinv, List.mem_cons_self, Option.some.inj hevent, fun k => ?_⟩
      rw [Nat.zero_add, Nat.add_comm, List.getElem?_cons_succ]
    | succ i =>
      rw [List.getElem?_cons_succ] at hevent
      obtain ⟨now', manager', call', rest', hregular, hinv', hmem, hsame, hlater⟩ :=
        ih h.next (hstep now manager call rest h hinv) hevent
      refine ⟨now', manager', call', rest', hregular, hinv', List.mem_cons_of_mem _ hmem, hsame, fun k => ?_⟩
      rw [← hlater k, show i + 1 + 1 + k = i + 1 + k + 1 by omega, List.getElem?_cons_succ]

end Regular

theorem now_step (hash : List UInt8 → Option CryptoHash) (manager : HandshakeCookieManager) (call : Call) :
    (manager.step hash call).2.now = call.now := by
  unfold step
  cases call.op with
  | issue subject => rfl
  | verify cookie subject => rfl

theorem step_eq_issued {now : Time} {subject : CookieSubject} {cookie : Option HandshakeCookie}
    (h : (manager.step hash call).2 = .issued now subject cookie) :
    call.now = now ∧ call.op.subject = subject ∧ (manager.issue hash call.now call.draw subject).2 = cookie := by
  unfold step at h
  cases hop : call.op with
  | issue subject' =>
    rw [hop] at h
    obtain ⟨hnow, rfl, hcookie⟩ := Event.issued.inj h
    exact ⟨hnow, rfl, hcookie⟩
  | verify cookie' subject' =>
    rw [hop] at h
    cases h

theorem step_eq_verified {now : Time} {cookie : HandshakeCookie} {subject : CookieSubject} {answer : Bool}
    (h : (manager.step hash call).2 = .verified now cookie subject answer) :
    call.now = now ∧ call.op.subject = subject ∧
      (manager.verify hash call.now call.draw cookie subject).2 = answer := by
  unfold step at h
  cases hop : call.op with
  | issue subject' =>
    rw [hop] at h
    cases h
  | verify cookie' subject' =>
    rw [hop] at h
    obtain ⟨hnow, rfl, rfl, hanswer⟩ := Event.verified.inj h
    exact ⟨hnow, rfl, hanswer⟩

theorem Regular.now_le_now {calls : List Call} (h : Regular secrets now manager calls) {i j : Nat}
    {first second : Event} (hij : i < j) (hfirst : (manager.events hash calls)[i]? = some first)
    (hsecond : (manager.events hash calls)[j]? = some second) : first.now ≤ second.now := by
  obtain ⟨_, manager', call, rest, hregular, -, -, rfl, hlater⟩ :=
    h.event_at (fun _ _ _ => True) (fun _ _ _ _ _ _ => trivial) trivial hfirst
  obtain ⟨k, rfl⟩ := Nat.exists_eq_add_of_le hij
  rw [hlater k] at hsecond
  obtain ⟨now', manager'', call', rest', hregular', hle, -, rfl, -⟩ :=
    hregular.next.event_at (fun now' _ _ => call.now ≤ now') (fun _ _ _ _ hr hle => hle.trans hr.le_now) (le_refl _)
      hsecond
  rw [now_step, now_step]
  exact hle.trans hregular'.le_now

section

variable {calls : List Call} {i : Nat} {t since : Time} {subject : CookieSubject} {cookie : HandshakeCookie}
  {secret : CookieSecret} {answer : Bool}

section

variable (h : Regular secrets now manager calls)
include h

theorem Regular.issued_at (hissued : (manager.events hash calls)[i]? = some (.issued t subject (some cookie))) :
    ∃ manager' rest since secret, Regular secrets t manager' rest ∧ manager'.interval = manager.interval ∧
      manager'.ring.current = some (since, secret) ∧ since ≤ t ∧ t < since + manager.interval ∧
      (∃ call ∈ calls, call.op.subject = subject) ∧ derive hash secret subject = some cookie ∧
      ∀ k, (manager.events hash calls)[i + 1 + k]? = (manager'.events hash rest)[k]? := by
  obtain ⟨_, manager', call, rest, hregular, hinterval, hmem, hstep, hlater⟩ :=
    h.event_at (fun _ manager' _ => manager'.interval = manager.interval)
      (fun _ manager' call _ _ hsame => (interval_next manager' call).trans hsame) rfl hissued
  obtain ⟨rfl, rfl, hcookie⟩ := step_eq_issued hstep
  rw [hregular.issue_eq] at hcookie
  obtain ⟨hcurrent, hle, hlt⟩ := hregular.current_next
  exact ⟨manager'.next call, rest, _, _, hregular.next, (interval_next manager' call).trans hinterval, hcurrent, hle,
    hinterval ▸ hlt, ⟨call, hmem, rfl⟩, hcookie, hlater⟩

theorem Regular.verified_at (hverified : (manager.events hash calls)[i]? = some (.verified t cookie subject true)) :
    (∃ call ∈ calls, call.op.subject = subject) ∧ ∃ secret ∈ secrets, derive hash secret subject = some cookie := by
  obtain ⟨_, manager', call, rest, hregular, -, hmem, hstep, -⟩ :=
    h.event_at (fun _ _ _ => True) (fun _ _ _ _ _ _ => trivial) trivial hverified
  obtain ⟨-, hsubject, hanswer⟩ := step_eq_verified hstep
  obtain ⟨secret, hholds, hderive⟩ := (hregular.verify_iff cookie subject).mp hanswer
  exact ⟨⟨call, hmem, hsubject⟩, secret, hregular.next.held secret hholds, hderive⟩

theorem Regular.verified_of_kept
    (hkept : manager.ring.Kept manager.interval since now secret) (hderive : derive hash secret subject = some cookie)
    (hverified : (manager.events hash calls)[i]? = some (.verified t cookie subject answer))
    (hearly : t < since + manager.interval + manager.interval) : answer = true := by
  obtain ⟨_, manager', call, rest, hregular, ⟨hinterval, hkept'⟩, -, hstep, -⟩ :=
    h.event_at
      (fun now' manager' _ => manager'.interval = manager.interval ∧
        manager'.ring.Kept manager'.interval since now' secret)
      (fun _ manager' call _ hr hinv => ⟨(interval_next manager' call).trans hinv.1, hr.kept_next hinv.2⟩)
      ⟨rfl, hkept⟩ hverified
  obtain ⟨rfl, -, rfl⟩ := step_eq_verified hstep
  refine (hregular.verify_iff cookie subject).mpr ⟨secret, (hregular.kept_next hkept').holds ?_, hderive⟩
  rwa [interval_next, hinterval]

theorem Regular.not_verified_of_dated
    (hdated : manager.ring.Dated manager.interval since secret) (hdrawn : secret ∉ manager.drawn calls)
    (honly : ∀ secret' ∈ secrets, derive hash secret' subject = some cookie → secret' = secret)
    (hverified : (manager.events hash calls)[i]? = some (.verified t cookie subject answer))
    (hold : since + manager.interval + manager.interval + manager.interval ≤ t) : answer = false := by
  obtain ⟨_, manager', call, rest, hregular, ⟨hinterval, hdated', hdrawn'⟩, -, hstep, -⟩ :=
    h.event_at
      (fun _ manager' calls' => manager'.interval = manager.interval ∧
        manager'.ring.Dated manager'.interval since secret ∧ secret ∉ manager'.drawn calls')
      (fun _ manager' call _ hr hinv => ⟨(interval_next manager' call).trans hinv.1,
        hr.dated_next hinv.2.1 fun hmem => hinv.2.2 (List.mem_append_left _ hmem),
        fun hmem => hinv.2.2 (List.mem_append_right _ hmem)⟩)
      ⟨rfl, hdated, hdrawn⟩ hverified
  obtain ⟨rfl, -, rfl⟩ := step_eq_verified hstep
  rw [← Bool.not_eq_true, hregular.verify_iff]
  rintro ⟨secret', hholds, hderive⟩
  obtain rfl := honly secret' (hregular.next.held secret' hholds) hderive
  obtain ⟨hcurrent, -, hlt⟩ := hregular.current_next
  have hgone := hregular.dated_next hdated' fun hmem => hdrawn' (List.mem_append_left _ hmem)
  rw [interval_next, hinterval] at hgone
  exact hgone.not_holds hcurrent (hinterval ▸ hlt) h.interval_pos hold hholds

end

end

end

theorem interval_create (config : HandshakeCookieConfig) :
    (create config).interval = max 1 config.rotationInterval := by
  simp only [interval, create]
  split_ifs with h
  · dsimp only [Time] at *
    omega
  · dsimp only [Time] at *
    omega

theorem regular_create (config : HandshakeCookieConfig) {start : Time} {calls : List Call}
    (hclock : ClockOrdered start calls) (hworks : ∀ call ∈ calls, call.draw.isSome = true)
    (hdistinct : ((create config).drawn calls).Nodup) :
    Regular ((create config).drawn calls) start (create config) calls := by
  have hempty (secret : CookieSecret) : ¬(create config).ring.Holds secret := by simp [KeyRing.Holds, ring, create]
  exact
    { interval_pos := by rw [interval_create]; exact lt_max_of_lt_left Int.one_pos
      used := by simp [KeyRing.UsedBy, ring, create]
      clock := hclock
      works := hworks
      distinct := hdistinct
      fresh := fun secret hholds => absurd hholds (hempty secret)
      held := fun secret hholds => absurd hholds (hempty secret)
      drawn := fun _ hmem => hmem }

/-- All strings a run can hash: those of each secret it draws for each subject it is asked about. -/
def runInputs (hash : List UInt8 → Option CryptoHash) (secrets : List CookieSecret) (calls : List Call) :
    List (List UInt8) :=
  secrets.flatMap fun secret => calls.flatMap fun call => hashInputs hash secret call.op.subject

/-- A cookie verifies for what it was issued for until the interval has passed, and never three intervals after it
was issued or for anything else. -/
theorem cookie_lifetime (hash : List UInt8 → Option CryptoHash) (config : HandshakeCookieConfig) (start : Time)
    (calls : List Call) (hclock : ClockOrdered start calls) (hworks : ∀ call ∈ calls, call.draw.isSome = true)
    (hdistinct : ((create config).drawn calls).Nodup)
    (hfree : CollisionFreeOn hash (runInputs hash ((create config).drawn calls) calls))
    {i j : Nat} {t₀ t : Time} {subject subject' : CookieSubject} {cookie : HandshakeCookie} {answer : Bool}
    (hissued : ((create config).events hash calls)[i]? = some (.issued t₀ subject (some cookie)))
    (hverified : ((create config).events hash calls)[j]? = some (.verified t cookie subject' answer)) :
    (i < j → subject' = subject → t < t₀ + max 1 config.rotationInterval → answer = true) ∧
      (t₀ + 3 * max 1 config.rotationInterval ≤ t → answer = false) ∧
      (subject' ≠ subject → answer = false) := by
  have hregular := regular_create config hclock hworks hdistinct
  have hinterval := interval_create config
  have hin {secret : CookieSecret} {call : Call} (hsecret : secret ∈ (create config).drawn calls)
      (hcall : call ∈ calls) :
      ∀ a ∈ hashInputs hash secret call.op.subject, a ∈ runInputs hash ((create config).drawn calls) calls :=
    fun a ha => List.mem_flatMap.mpr ⟨secret, hsecret, List.mem_flatMap.mpr ⟨call, hcall, ha⟩⟩
  obtain ⟨manager, rest, since, secret, hregular₁, hsame, hcurrent, hle, hlt, ⟨call₀, hcall₀, rfl⟩, hderive, hlater⟩ :=
    hregular.issued_at hissued
  have hholds : manager.ring.Holds secret := Or.inl ⟨since, hcurrent⟩
  have hsecret := hregular₁.held secret hholds
  rw [hinterval] at hsame hlt
  refine ⟨fun hij hsubject hearly => ?_, fun hold => ?_, fun hne => ?_⟩
  · subst hsubject
    obtain ⟨k, rfl⟩ := Nat.exists_eq_add_of_le hij
    rw [hlater k] at hverified
    exact hregular₁.verified_of_kept (Or.inl hcurrent) hderive hverified (by rw [hsame]; lia)
  · cases answer with
    | false => rfl
    | true =>
      have hij : i < j := by
        by_contra hji
        rcases Nat.lt_or_eq_of_le (Nat.not_lt.mp hji) with hlt' | rfl
        · have hback : t ≤ t₀ := hregular.now_le_now hlt' hverified hissued
          lia
        · exact absurd (Option.some.inj (hissued.symm.trans hverified)) nofun
      obtain ⟨⟨call, hcall, rfl⟩, -⟩ := hregular.verified_at hverified
      obtain ⟨k, rfl⟩ := Nat.exists_eq_add_of_le hij
      rw [hlater k] at hverified
      refine hregular₁.not_verified_of_dated (KeyRing.dated_of_current hregular₁.interval_pos hcurrent)
        (hregular₁.fresh secret hholds) (fun secret' hsecret' hderive' => ?_) hverified (by rw [hsame]; lia)
      exact (derive_inj hfree (hin hsecret' hcall) (hin hsecret hcall₀) hderive' hderive).1
  · cases answer with
    | false => rfl
    | true =>
      obtain ⟨⟨call, hcall, rfl⟩, secret', hsecret', hderive'⟩ := hregular.verified_at hverified
      exact absurd (derive_inj hfree (hin hsecret' hcall) (hin hsecret hcall₀) hderive' hderive).2 hne

/-- A digest that tells short strings apart: the number they spell, in 32 bytes. -/
def sampleHash (message : List UInt8) : Option CryptoHash :=
  some (FixedBytes.copy 32 (beBytes 32 (beNat (1 :: message) % (2 ^ 256 - 189))))

def sampleSubject : CookieSubject := ⟨{}, 7, [1, 2, 3]⟩

def sampleCookie : HandshakeCookie :=
  (derive sampleHash (FixedBytes.copy HANDSHAKE_COOKIE_SIZE [1]) sampleSubject).getD
    (FixedBytes.zero HANDSHAKE_COOKIE_SIZE)

/-- The cookie of the first call is presented in the next interval and after three of them. -/
def sampleCalls : List Call :=
  [⟨0, some (FixedBytes.copy HANDSHAKE_COOKIE_SIZE [1]), .issue sampleSubject⟩,
    ⟨99, some (FixedBytes.copy HANDSHAKE_COOKIE_SIZE [2]), .verify sampleCookie sampleSubject⟩,
    ⟨320, some (FixedBytes.copy HANDSHAKE_COOKIE_SIZE [3]), .verify sampleCookie sampleSubject⟩]

theorem cookie_lifetime_sampleCalls :
    ∃ answer answer',
      (create ⟨100⟩).events sampleHash sampleCalls =
        [.issued 0 sampleSubject (some sampleCookie), .verified 99 sampleCookie sampleSubject answer,
          .verified 320 sampleCookie sampleSubject answer'] ∧
      answer = true ∧ answer' = false := by
  have hevents : (create ⟨100⟩).events sampleHash sampleCalls =
      [.issued 0 sampleSubject (some sampleCookie), .verified 99 sampleCookie sampleSubject true,
        .verified 320 sampleCookie sampleSubject false] := by decide +kernel
  have hfree : CollisionFreeOn sampleHash
      (runInputs sampleHash ((create ⟨100⟩).drawn sampleCalls) sampleCalls) := by
    have hequal : ∀ a ∈ runInputs sampleHash ((create ⟨100⟩).drawn sampleCalls) sampleCalls,
        ∀ b ∈ runInputs sampleHash ((create ⟨100⟩).drawn sampleCalls) sampleCalls,
        sampleHash a = sampleHash b → a = b := by decide +kernel
    exact fun a ha b hb digest hda hdb => hequal a ha b hb (hda.trans hdb.symm)
  have hlifetime {j : Nat} {t : Time} {answer : Bool} := @cookie_lifetime sampleHash ⟨100⟩ 0 sampleCalls
    (by simp [ClockOrdered, sampleCalls]) (by simp [sampleCalls]) (by decide +kernel) hfree 0 j 0 t sampleSubject
    sampleSubject sampleCookie answer (by rw [hevents]; rfl)
  rw [hevents] at hlifetime
  exact ⟨true, false, hevents, (@hlifetime 1 99 true rfl).1 (by decide) rfl (by decide),
    (@hlifetime 2 320 false rfl).2.1 (by decide)⟩

end HandshakeCookieManager

end Aegis
