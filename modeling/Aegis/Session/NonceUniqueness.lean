import Aegis.Session.FrameReplay
import Mathlib.Data.List.Range

/-!
# Nonces never repeat under one send key

`encrypt_message` takes the counter value of its frame under the lock, and uses it up whether or not the
frame is sealed. `create_session` sets the counter of an entry back while the entry still holds its old keys,
and session ids come back; what keeps the nonces apart is that a send key is installed once and that its
counter then belongs to the one active session that holds it. Over a run, the nonces used under a key are
those of the first `n` counter values in order, where `n` is the counter of the session that holds the key.
-/

namespace Aegis

variable {H : Type} {P : Primitives H} {cfg : SessionConfig} {mgr mgr' : SessionManager H}

theorem frameNonce_injective (sessionId : UInt32) : Function.Injective (frameNonce sessionId) := by
  intro a b h
  have hbytes := congrArg Subtype.val h
  simp only [frameNonce, List.append_assoc] at hbytes
  obtain ⟨hhigh, hlow⟩ := List.append_inj (List.append_cancel_left hbytes) (by simp [leBytes4])
  have ha := a.toNat_lt
  have hb := b.toNat_lt
  have hhigh' := beBytes_inj (by omega) (by omega) (List.reverse_injective hhigh)
  have hlow' := beBytes_inj (by omega) (by omega) (List.reverse_injective hlow)
  apply UInt64.toNat_inj.mp
  omega

/-- A use of the cipher: the key and the nonce. -/
abbrev SealCall := ChaCha20Poly1305Key × ChaCha20Poly1305Nonce

def SessionState.sealCall (session : SessionState) : SealCall :=
  (session.sendKey, frameNonce session.id session.sendSeq)

/-! ### What a section does to the send keys -/

/-- The change of the active sessions in a section that installs some send keys and seals under some session:
the rest keeps its keys, ids and counters. -/
inductive SendChange (mgr mgr' : SessionManager H) : List ChaCha20Poly1305Key → Option SessionState → Prop
  | kept (same : ∀ p s', mgr'.sessions.find? p = some s' → ∃ s, mgr.sessions.find? p = some s ∧
      s'.sendKey = s.sendKey ∧ s'.id = s.id ∧ s'.sendSeq = s.sendSeq) : SendChange mgr mgr' [] none
  | installed (session : SessionState) (start : session.sendSeq = 0)
      (sessions : mgr'.sessions = mgr.sessions.insert session.peerId session) :
      SendChange mgr mgr' [session.sendKey] none
  | sealed (peerId : NodeId) (session : SessionState) (found : mgr.sessions.find? peerId = some session)
      (sessions : mgr'.sessions = mgr.sessions.insert peerId { session with sendSeq := session.sendSeq + 1 }) :
      SendChange mgr mgr' [] (some session)

theorem SendChange.of_subset (h : mgr'.sessions ⊆ mgr.sessions) : SendChange mgr mgr' [] none :=
  .kept fun _ s' hs' => ⟨s', SortedMap.find?_of_subset h hs', rfl, rfl, rfl⟩

theorem SendChange.of_eq (h : mgr'.sessions = mgr.sessions) : SendChange mgr mgr' [] none :=
  .of_subset (h ▸ SortedMap.subset_refl _)

theorem SendChange.congr {mgr₀ : SessionManager H} {keys : List ChaCha20Poly1305Key} {session : Option SessionState}
    (h : SendChange mgr₀ mgr' keys session) (hsame : mgr₀.sessions = mgr.sessions) :
    SendChange mgr mgr' keys session := by
  cases h with
  | kept same => exact .kept (hsame ▸ same)
  | installed session start sessions => exact .installed session start (hsame ▸ sessions)
  | sealed peerId session found sessions => exact .sealed peerId session (hsame ▸ found) (hsame ▸ sessions)

namespace SessionState

@[simp] theorem updateReplay_sendKey (session : SessionState) (seq : UInt64) :
    (session.updateReplay seq).sendKey = session.sendKey := by
  unfold updateReplay; split_ifs <;> rfl

@[simp] theorem updateReplay_sendSeq (session : SessionState) (seq : UInt64) :
    (session.updateReplay seq).sendSeq = session.sendSeq := by
  unfold updateReplay; split_ifs <;> rfl

end SessionState

theorem SendChange.decryptMessage (P : Primitives H) (mgr : SessionManager H) (data : List UInt8) :
    SendChange mgr (mgr.decryptMessage P data).1 [] none := by
  rcases SessionManager.decryptMessage_cases P mgr data with
    hsame | ⟨header, session, -, hlive, -, -, hresult⟩
  · rw [hsame]
    exact .of_eq rfl
  · rw [hresult]
    unfold SessionManager.storeSessionById
    cases hindex : mgr.sessionToPeer.find? header.sessionId with
    | none =>
      cases mgr.retired.find? header.sessionId with
      | none => exact .of_eq rfl
      | some retired => exact .of_eq rfl
    | some peerId =>
      -- an active session is written back with its window changed
      have hactive : mgr.sessions.find? peerId = some session := by
        unfold SessionManager.findSessionByIdLocked at hlive
        rw [hindex] at hlive
        exact (Option.filter_eq_some_iff.mp hlive).1
      refine .kept fun p s' hs' => ?_
      rcases SortedMap.find?_insert_eq_some_iff.mp hs' with ⟨rfl, rfl⟩ | ⟨-, hs'⟩
      · exact ⟨session, hactive, by simp, by simp, by simp⟩
      · exact ⟨s', hs', rfl, rfl, rfl⟩

/-! ### The invariant -/

def sealsUnder (key : ChaCha20Poly1305Key) (calls : List SealCall) : List SealCall :=
  calls.filter fun call => call.1 = key

/-- The uses of a key by one session for its first `count` counter values. -/
def firstSeals (key : ChaCha20Poly1305Key) (sessionId : UInt32) (count : Nat) : List SealCall :=
  (List.range count).map fun seq => (key, frameNonce sessionId (UInt64.ofNat seq))

theorem sealsUnder_append (key : ChaCha20Poly1305Key) (calls calls' : List SealCall) :
    sealsUnder key (calls ++ calls') = sealsUnder key calls ++ sealsUnder key calls' :=
  List.filter_append _ _

theorem length_firstSeals (key : ChaCha20Poly1305Key) (sessionId : UInt32) (count : Nat) :
    (firstSeals key sessionId count).length = count := by
  rw [firstSeals, List.length_map, List.length_range]

theorem firstSeals_succ (key : ChaCha20Poly1305Key) (sessionId : UInt32) (count : Nat) :
    firstSeals key sessionId (count + 1)
      = firstSeals key sessionId count ++ [(key, frameNonce sessionId (UInt64.ofNat count))] := by
  rw [firstSeals, List.range_succ, List.map_append]
  rfl

theorem nodup_firstSeals (key : ChaCha20Poly1305Key) (sessionId : UInt32) {count : Nat} (h : count ≤ 2 ^ 64) :
    (firstSeals key sessionId count).Nodup := by
  apply List.Nodup.map_on
  · intro a ha b hb hcall
    rw [List.mem_range] at ha hb
    have hseq := congrArg UInt64.toNat (frameNonce_injective sessionId (congrArg Prod.snd hcall))
    rw [UInt64.toNat_ofNat', UInt64.toNat_ofNat', Nat.mod_eq_of_lt (by omega), Nat.mod_eq_of_lt (by omega)] at hseq
    exact hseq
  · exact List.nodup_range

/-- What is known after installing sessions with send keys `keys` and using the cipher in `calls`. -/
structure SealInvariant (mgr : SessionManager H) (keys : List ChaCha20Poly1305Key) (calls : List SealCall) :
    Prop where
  active : ∀ p s, mgr.sessions.find? p = some s → s.sendKey ∈ keys ∧
    ∃ count, sealsUnder s.sendKey calls = firstSeals s.sendKey s.id count ∧ s.sendSeq = UInt64.ofNat count
  distinct : ∀ p p' s s', mgr.sessions.find? p = some s → mgr.sessions.find? p' = some s' →
    s.sendKey = s'.sendKey → p = p'
  installed : ∀ call ∈ calls, call.1 ∈ keys
  counted : ∀ key, ∃ sessionId count, sealsUnder key calls = firstSeals key sessionId count

namespace SealInvariant

variable {keys : List ChaCha20Poly1305Key} {calls : List SealCall}

section

variable (h : SealInvariant mgr keys calls)
include h

theorem sealsUnder_eq_nil {key : ChaCha20Poly1305Key} (hkey : key ∉ keys) : sealsUnder key calls = [] := by
  refine List.filter_eq_nil_iff.mpr fun call hcall heq => hkey ?_
  obtain rfl : call.1 = key := by simpa using heq
  exact h.installed call hcall

theorem of_kept (hkept : ∀ p s', mgr'.sessions.find? p = some s' → ∃ s, mgr.sessions.find? p = some s ∧
      s'.sendKey = s.sendKey ∧ s'.id = s.id ∧ s'.sendSeq = s.sendSeq) : SealInvariant mgr' keys calls := by
  refine ⟨?_, ?_, h.installed, h.counted⟩
  · intro p s' hs'
    obtain ⟨s, hs, hkey, hid, hseq⟩ := hkept p s' hs'
    rw [hkey, hid, hseq]
    exact h.active p s hs
  · intro p p' s' t' hs' ht' heq
    obtain ⟨s, hs, hkey, -⟩ := hkept p s' hs'
    obtain ⟨t, ht, hkey', -⟩ := hkept p' t' ht'
    exact h.distinct p p' s t hs ht (by rw [← hkey, ← hkey', heq])

theorem of_installed {session : SessionState} (hnew : session.sendKey ∉ keys)
    (hstart : session.sendSeq = 0) (hsessions : mgr'.sessions = mgr.sessions.insert session.peerId session) :
    SealInvariant mgr' (keys ++ [session.sendKey]) calls := by
  have hfind : ∀ p s, mgr'.sessions.find? p = some s →
      (p = session.peerId ∧ s = session) ∨ (mgr.sessions.find? p = some s ∧ s.sendKey ≠ session.sendKey) := by
    intro p s hs
    rw [hsessions] at hs
    rcases SortedMap.find?_insert_eq_some_iff.mp hs with hown | ⟨-, hs⟩
    · exact Or.inl hown
    · exact Or.inr ⟨hs, fun heq => hnew (heq ▸ (h.active p s hs).1)⟩
  refine ⟨?_, ?_, fun call hcall => List.mem_append_left _ (h.installed call hcall), h.counted⟩
  · intro p s hs
    rcases hfind p s hs with ⟨-, rfl⟩ | ⟨hs, -⟩
    · exact ⟨by simp, 0, h.sealsUnder_eq_nil hnew, hstart⟩
    · exact ⟨List.mem_append_left _ (h.active p s hs).1, (h.active p s hs).2⟩
  · intro p p' s s' hs hs' heq
    rcases hfind p s hs with ⟨rfl, rfl⟩ | ⟨hs, hne⟩ <;> rcases hfind p' s' hs' with ⟨rfl, rfl⟩ | ⟨hs', hne'⟩
    · rfl
    · exact absurd heq.symm hne'
    · exact absurd heq hne
    · exact h.distinct p p' s s' hs hs' heq

theorem of_sealed {peerId : NodeId} {session : SessionState} (hactive : mgr.sessions.find? peerId = some session)
    (hsessions : mgr'.sessions = mgr.sessions.insert peerId { session with sendSeq := session.sendSeq + 1 }) :
    SealInvariant mgr' keys (calls ++ [session.sealCall]) := by
  obtain ⟨hmem, count, hcount, hseq⟩ := h.active peerId session hactive
  have hown : sealsUnder session.sendKey (calls ++ [session.sealCall])
      = firstSeals session.sendKey session.id (count + 1) := by
    rw [sealsUnder_append, hcount, firstSeals_succ, ← hseq]
    simp [sealsUnder, SessionState.sealCall]
  have hother : ∀ key, key ≠ session.sendKey →
      sealsUnder key (calls ++ [session.sealCall]) = sealsUnder key calls := by
    intro key hne
    rw [sealsUnder_append]
    simp [sealsUnder, SessionState.sealCall, hne.symm]
  have hfind : ∀ p s, mgr'.sessions.find? p = some s →
      (p = peerId ∧ s = { session with sendSeq := session.sendSeq + 1 }) ∨
        (p ≠ peerId ∧ mgr.sessions.find? p = some s) := by
    intro p s hs
    rw [hsessions] at hs
    exact SortedMap.find?_insert_eq_some_iff.mp hs
  refine ⟨?_, ?_, ?_, ?_⟩
  · intro p s hs
    rcases hfind p s hs with ⟨-, rfl⟩ | ⟨hp, hs⟩
    · refine ⟨hmem, count + 1, hown, ?_⟩
      show session.sendSeq + 1 = UInt64.ofNat (count + 1)
      rw [hseq, UInt64.ofNat_add]
      rfl
    · have hne : s.sendKey ≠ session.sendKey := fun heq => hp (h.distinct p peerId s session hs hactive heq)
      rw [hother _ hne]
      exact h.active p s hs
  · intro p p' s s' hs hs' heq
    rcases hfind p s hs with ⟨rfl, rfl⟩ | ⟨-, hs⟩ <;> rcases hfind p' s' hs' with ⟨rfl, rfl⟩ | ⟨-, hs'⟩
    · rfl
    · exact h.distinct _ p' session s' hactive hs' heq
    · exact h.distinct p _ s session hs hactive heq
    · exact h.distinct p p' s s' hs hs' heq
  · intro call hcall
    rcases List.mem_append.mp hcall with hcall | hcall
    · exact h.installed call hcall
    · obtain rfl := List.mem_singleton.mp hcall
      exact hmem
  · intro key
    by_cases hkey : key = session.sendKey
    · exact ⟨session.id, count + 1, hkey ▸ hown⟩
    · rw [hother key hkey]
      exact h.counted key

theorem change {newKeys : List ChaCha20Poly1305Key} {session : Option SessionState}
    (hchange : SendChange mgr mgr' newKeys session) (hkeys : (keys ++ newKeys).Nodup) :
    SealInvariant mgr' (keys ++ newKeys) (calls ++ session.toList.map SessionState.sealCall) := by
  cases hchange with
  | kept same =>
    rw [Option.toList_none, List.map_nil, List.append_nil, List.append_nil]
    exact h.of_kept same
  | installed session start sessions =>
    rw [Option.toList_none, List.map_nil, List.append_nil]
    refine h.of_installed (fun hmem => ?_) start sessions
    exact (List.nodup_append.mp hkeys).2.2 _ hmem _ (List.mem_singleton_self _) rfl
  | sealed peerId session found sessions =>
    rw [List.append_nil]
    exact h.of_sealed found sessions

/-- Under every key the counter values come once each, so no use of the cipher comes twice. -/
theorem nodup (hcount : ∀ key, (sealsUnder key calls).length ≤ 2 ^ 64) : calls.Nodup := by
  rw [List.nodup_iff_count_le_one]
  intro call
  obtain ⟨sessionId, count, hseals⟩ := h.counted call.1
  have hle := hcount call.1
  rw [hseals, length_firstSeals] at hle
  have hone := List.nodup_iff_count_le_one.mp (nodup_firstSeals call.1 sessionId hle) call
  rw [← hseals, sealsUnder, List.count_filter (by simp)] at hone
  exact hone

end

end SealInvariant

namespace Interleaving

def sendKeys (events : List SessionEvent) : List ChaCha20Poly1305Key :=
  events.filterMap fun
    | .established session => some session.sendKey
    | _ => none

theorem sendKeys_append (events events' : List SessionEvent) :
    sendKeys (events ++ events') = sendKeys events ++ sendKeys events' :=
  List.filterMap_append

/-- The session a section seals under. -/
def sealingSession (cfg : SessionConfig) (mgr : SessionManager H) : Section → Option SessionState
  | .encryptMessage peerId _ plaintext _ entropy => mgr.sealingSession cfg peerId plaintext entropy
  | _ => none

theorem sendChange_establish (htables : mgr.TableInvariant cfg) {peerId : NodeId} {sessionId : UInt32}
    (huse : mgr.sessionIdInUse sessionId = false) (hroom : mgr.hasRoomFor cfg peerId = true) (now : Time)
    (split : NoiseIkSplitResult) (local_ : Bool) :
    SendChange mgr (mgr.establish cfg now peerId sessionId split local_)
      (sendKeys (installed (mgr.establish cfg now peerId sessionId split local_) sessionId)) none := by
  rw [installed_establish htables huse hroom]
  exact .installed (.fresh peerId sessionId split local_ now) rfl SessionManager.sessions_establish

theorem sendChange_step (s : Interleaving H) (htables : s.mgr.TableInvariant cfg) (action : Time × Section) :
    SendChange s.mgr (step P cfg s action).1.mgr (sendKeys (step P cfg s action).2)
      (sealingSession cfg s.mgr action.2) := by
  obtain ⟨now, action⟩ := action
  have hsame : SendChange s.mgr s.mgr [] none := .of_eq rfl
  cases action with
  | createHandshakeInit sessionId peerId peerStatic entropy =>
    exact .of_eq (SessionManager.sameSessions_createHandshakeInit ..).sessions
  | initCheck message outerSessionId entropy =>
    have hsessions := (SessionManager.sameSessions_initCheck P cfg s.mgr now message outerSessionId entropy).sessions
    simp only [step]
    split <;> rename_i hresult <;> rw [hresult] at hsessions <;> exact .of_eq hsessions
  | initAdmit index =>
    simp only [step]
    split
    · rename_i call _
      have hsessions := (SessionManager.sameSessions_initAdmit cfg s.mgr now call.init).sessions
      split <;> rename_i hresult <;> rw [hresult] at hsessions <;> exact .of_eq hsessions
    · exact hsame
  | initInstall index =>
    simp only [step]
    split
    · rename_i call expires _
      rcases SessionManager.initInstall_cases P cfg s.mgr now call.init with
        hresult | hresult | ⟨encoded, split, -, huse, hroom, hresult⟩
      · simp only [hresult]
        exact hsame
      · simp only [hresult]
        exact .of_eq rfl
      · simp only [hresult, sendKeys_append]
        rw [show sendKeys [SessionEvent.answered call.message call.outerSessionId call.init.peerId expires] = []
          from rfl, List.append_nil]
        exact (sendChange_establish (htables.purgeIncomplete now) huse hroom now split false).congr rfl
    · exact hsame
  | handleHandshakeResp message sessionId =>
    simp only [step]
    rcases SessionManager.handleHandshakeResp_cases P cfg s.mgr now message sessionId with
      hresult | hresult | ⟨state, frame, split, hpending, -, -, -, -, hroom, hresult⟩
    · simp only [hresult]
      exact .of_eq rfl
    · simp only [hresult]
      exact .of_eq rfl
    · simp only [hresult]
      exact (sendChange_establish (htables.erasePending_purge now sessionId)
        (htables.not_inUse_erasePending hpending) hroom now split true).congr rfl
  | encryptMessage peerId packetType plaintext flags entropy =>
    rcases SessionManager.encryptMessage_cases P cfg s.mgr peerId packetType plaintext flags entropy with
      ⟨hnone, hresult⟩ | ⟨session, payload, hsome, hfind, hresult⟩
    · simp only [step, sealingSession, hnone, hresult]
      exact hsame
    · simp only [step, sealingSession, hsome, hresult]
      exact .sealed peerId session (Option.filter_eq_some_iff.mp hfind).1 rfl
  | decryptMessage data =>
    have hchange := SendChange.decryptMessage P s.mgr data
    simp only [step]
    split <;> rename_i hresult <;> rw [hresult] at hchange <;> exact hchange
  | removeSession peerId => exact .of_subset (s.mgr.sessions_removeSession_subset peerId)
  | purgeRetired => exact .of_eq rfl
  | purgeIncompleteHandshakes => exact .of_eq rfl
  | purgeHandshakeReplays => exact .of_eq rfl
  | setRetiredGrace grace => exact .of_eq rfl
  | setHandshakeTimeout timeout => exact .of_eq rfl
  | setHandshakeReplayTtl ttl => exact .of_eq rfl

/-! ### Runs -/

/-- A run, with the uses of the cipher on the way, failed ones included, oldest first. -/
def sealRun (P : Primitives H) (cfg : SessionConfig) (actions : List (Time × Section)) :
    (Interleaving H × List SessionEvent) × List SealCall :=
  actions.foldl (fun s action => (Run.record (step P cfg) s.1 action,
    s.2 ++ (sealingSession cfg s.1.1.mgr action.2).toList.map SessionState.sealCall)) (({}, []), [])

theorem sealRun_fst (P : Primitives H) (cfg : SessionConfig) (actions : List (Time × Section)) :
    (sealRun P cfg actions).1 = run P cfg actions := by
  exact Run.simulation (fun (s : (Interleaving H × List SessionEvent) × List SealCall) t => s.1 = t)
    (by rintro s _ action rfl; rfl) rfl actions

/-- No two uses of the cipher in a run have the same key and nonce, when every session is established with
a send key of its own and fewer than 2^64 frames are sent under each. -/
theorem seal_calls_nodup (P : Primitives H) (cfg : SessionConfig) (actions : List (Time × Section))
    (hkeys : (sendKeys (run P cfg actions).2).Nodup)
    (hsends : ∀ key, (sealsUnder key (sealRun P cfg actions).2).length < 2 ^ 64) :
    (sealRun P cfg actions).2.Nodup := by
  -- that the keys of the whole run are distinct holds of every prefix of it
  let Inv (s : (Interleaving H × List SessionEvent) × List SealCall) : Prop :=
    s.1.1.mgr.TableInvariant cfg ∧ ((sendKeys s.1.2).Nodup → SealInvariant s.1.1.mgr (sendKeys s.1.2) s.2)
  have hrun : Inv (sealRun P cfg actions) := by
    refine Run.invariant Inv ?_ ?_ actions
    · rintro ⟨⟨s, events⟩, calls⟩ action ⟨htables, hseals⟩
      refine ⟨(step_outcome P cfg s action).tableInvariant htables, fun hkeys => ?_⟩
      simp only [Run.record, sendKeys_append] at hkeys ⊢
      exact (hseals (hkeys.sublist (List.sublist_append_left _ _))).change (sendChange_step s htables action) hkeys
    · refine ⟨SessionManager.tableInvariant_empty, fun _ => ⟨?_, ?_, ?_, ?_⟩⟩
      · simp
      · simp
      · simp
      · exact fun key => ⟨0, 0, rfl⟩
  refine (hrun.2 ?_).nodup fun key => (hsends key).le
  rw [sealRun_fst]
  exact hkeys

/-- Node 1 answers an INIT, sends two frames, answers a rekey and sends another one. -/
def sampleSends : List (Time × Section) :=
  [(0, .initCheck (sampleInit 7 10) 7 sampleEntropy), (0, .initAdmit 0), (0, .initInstall 0),
    (1, .encryptMessage (FixedBytes.copy 32 [2]) 0x02 [0x68] 0 sampleEntropy),
    (1, .encryptMessage (FixedBytes.copy 32 [2]) 0x02 [0x69] 0 sampleEntropy),
    (2, .initCheck (sampleInit 8 50) 8 sampleEntropy), (2, .initAdmit 0), (2, .initInstall 0),
    (3, .encryptMessage (FixedBytes.copy 32 [2]) 0x02 [0x68] 0 sampleEntropy)]

theorem seal_calls_sampleSends :
    (sealRun clearPrimitives (.sample 1) sampleSends).2.map Prod.snd
        = [frameNonce 7 0, frameNonce 7 1, frameNonce 8 0] ∧
      (sealRun clearPrimitives (.sample 1) sampleSends).2.Nodup := by
  refine ⟨by decide +kernel, seal_calls_nodup clearPrimitives (.sample 1) sampleSends (by decide +kernel) ?_⟩
  intro key
  exact (List.length_filter_le _ _).trans_lt (by decide +kernel)

end Interleaving

end Aegis
