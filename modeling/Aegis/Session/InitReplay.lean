import Aegis.Session.InitDelivery
import Aegis.Session.Sections
import Mathlib.Data.List.Induction

/-!
# Replayed INITs

Three guards stand between a captured INIT and a live session: the transcript cache, whose entries expire;
the session ids in use, which a rekey retires and a purge frees; and the priority of the lower node id over
its own initiations. `handle_handshake_init` leaves the sessions alone exactly when one of them still
applies (`sessions_unchanged_iff`). The cache entry of an answered INIT lasts until the expiry written when
it was admitted (`answered_cached`), so until then the replay is harmless.
-/

namespace Aegis

variable {H : Type} {P : Primitives H} {cfg : SessionConfig}

namespace SessionManager

/-! ### One delivery -/

/-- The INIT is cryptographically valid for this node, from `peerId`. -/
def InitValid (P : Primitives H) (cfg : SessionConfig) (message : List UInt8) (outerSessionId : UInt32)
    (entropy : Entropy) (peerId : NodeId) : Prop :=
  ∃ frame replayKey init, parseInit P cfg message outerSessionId = some (frame, replayKey) ∧
    readInit P cfg frame replayKey entropy = some init ∧ init.peerId = peerId ∧
    (writeResponse P init).isSome = true

variable {mgr : SessionManager H} (clock : InitClock) {message : List UInt8} {outerSessionId : UInt32}
  {entropy : Entropy} {peerId : NodeId}

theorem admittedInit_of_valid (mgr : SessionManager H)
    (hvalid : InitValid P cfg message outerSessionId entropy peerId) :
    ∃ init encoded split, init.peerId = peerId ∧ writeResponse P init = some (encoded, split) ∧
      mgr.admittedInit P cfg clock message outerSessionId entropy
        = if mgr.refusesInit P cfg clock message outerSessionId peerId then none else some init := by
  obtain ⟨frame, replayKey, init, hparse, hread, rfl, hwrite⟩ := hvalid
  obtain ⟨⟨encoded, split⟩, hwrite⟩ := Option.isSome_iff_exists.mp hwrite
  have hverified : verifiedInit P cfg message outerSessionId entropy = some init := by
    simp [verifiedInit, hparse, hread]
  refine ⟨init, encoded, split, rfl, hwrite, ?_⟩
  cases hrefused : mgr.refusesInit P cfg clock message outerSessionId init.peerId with
  | true => simp [admittedInit, hverified, hrefused]
  | false => simp [admittedInit, hverified, hrefused]

theorem sameSessions_of_refused (hvalid : InitValid P cfg message outerSessionId entropy peerId)
    (hrefused : mgr.refusesInit P cfg clock message outerSessionId peerId = true) :
    mgr.SameSessions (mgr.handleHandshakeInit P cfg clock message outerSessionId entropy).1 := by
  obtain ⟨init, encoded, split, -, -, hadmitted⟩ := admittedInit_of_valid clock mgr hvalid
  rw [hrefused, if_pos rfl] at hadmitted
  exact (handleHandshakeInit_of_refused hadmitted).2.1

theorem establish_of_not_refused (hvalid : InitValid P cfg message outerSessionId entropy peerId)
    (hactive : mgr.sessions.contains peerId = true)
    (hrefused : mgr.refusesInit P cfg clock message outerSessionId peerId = false) :
    ∃ sessionId split, mgr.sessionToPeer.contains sessionId = false ∧
      (mgr.handleHandshakeInit P cfg clock message outerSessionId entropy).1.sessions
        = mgr.sessions.insert peerId (.fresh peerId sessionId split false clock.install) := by
  obtain ⟨init, encoded, split, rfl, hwrite, hadmitted⟩ := admittedInit_of_valid clock mgr hvalid
  rw [hrefused, if_neg Bool.false_ne_true] at hadmitted
  have huse := not_inUse_of_admittedInit hadmitted
  simp only [sessionIdInUse, Bool.or_eq_false_iff] at huse
  have hroom : mgr.hasRoomFor cfg init.peerId = true := by simp [hasRoomFor, hactive]
  refine ⟨init.sessionId, split, huse.1.1, ?_⟩
  rw [handleHandshakeInit_of_admittedInit hadmitted, hwrite]
  simp only [hroom, if_true]
  rw [sessions_establish]
  show (mgr.afterAdmission clock init).sessions.insert _ _ = _
  rw [sameSessions_afterAdmission.sessions]

theorem sessions_unchanged_iff (htables : mgr.TableInvariant cfg)
    (hvalid : InitValid P cfg message outerSessionId entropy peerId) (hactive : mgr.sessions.contains peerId = true) :
    ((mgr.handleHandshakeInit P cfg clock message outerSessionId entropy).1.sessions = mgr.sessions ∧
      (mgr.handleHandshakeInit P cfg clock message outerSessionId entropy).1.sessionToPeer = mgr.sessionToPeer) ↔
    mgr.refusesInit P cfg clock message outerSessionId peerId = true := by
  constructor
  · rintro ⟨hsessions, -⟩
    by_contra hrefused
    obtain ⟨sessionId, split, hfree, hnew⟩ :=
      establish_of_not_refused clock hvalid hactive (by simpa using hrefused)
    rw [hsessions] at hnew
    obtain ⟨s, hs⟩ := SortedMap.contains_iff.mp hactive
    have hself : s = .fresh peerId sessionId split false clock.install := by
      have := congrArg (fun m => m.find? peerId) hnew
      simpa [hs] using this
    -- the new session would carry an id that is indexed already
    have hindex := SortedMap.contains_of_find? (htables.active peerId s hs).2.2
    rw [hself] at hindex
    exact absurd (hfree.symm.trans hindex) (by simp)
  · intro hrefused
    have hsame := sameSessions_of_refused clock hvalid hrefused
    exact ⟨hsame.sessions, hsame.sessionToPeer⟩

end SessionManager

/-! ### The cache over a run -/

namespace Interleaving

variable {mgr mgr' : SessionManager H} {now : Time}

theorem Outcome.find?_replays {events : List SessionEvent} (h : Outcome P cfg now mgr mgr' events)
    {key : CryptoHash} {expires : Time} (hfind : mgr.handshakeReplays.find? key = some expires)
    (hnow : now < expires) : mgr'.handshakeReplays.find? key = some expires := by
  have hpurged : (mgr.purgeInits now).handshakeReplays.find? key = some expires :=
    SortedMap.find?_filter_eq_some_iff.mpr ⟨hfind, by simpa using hnow⟩
  cases h with
  | createHandshakeInit sessionId peerId peerStatic entropy =>
    rcases SessionManager.createHandshakeInit_cases P cfg mgr now sessionId peerId peerStatic entropy with
      hresult | hresult | ⟨_, _, _, _, _, hresult⟩ <;> rw [hresult] <;> exact hfind
  | initCheck message outerSessionId entropy =>
    rcases SessionManager.initCheck_cases P cfg mgr now message outerSessionId entropy with
      hresult | hresult | ⟨_, _, _, _, _, hresult⟩ <;> rw [hresult]
    · exact hfind
    · exact hpurged
    · exact hpurged
  | initAdmit init =>
    -- the section writes under a key that is not cached
    have hrecord (hcached : (mgr.purgeInits now).handshakeReplays.contains init.replayKey = false) :
        ((mgr.purgeInits now).recordReplay now init.replayKey).handshakeReplays.find? key = some expires := by
      have hne : key ≠ init.replayKey := by
        rintro rfl
        exact absurd (hcached.symm.trans (SortedMap.contains_of_find? hpurged)) (by simp)
      simpa [SessionManager.recordReplay, hne] using hpurged
    rcases SessionManager.initAdmit_cases cfg mgr now init with
      ⟨_, hresult⟩ | ⟨hcached, _, _, hresult⟩ | ⟨hcached, _, hresult⟩ <;> rw [hresult]
    · exact hpurged
    · exact hrecord hcached
    · rw [SessionManager.handshakeReplays_dropPendingTo]
      exact hrecord hcached
  | initInstall call expires =>
    rcases SessionManager.initInstall_cases P cfg mgr now call.init with
      hresult | hresult | ⟨_, _, _, _, _, hresult⟩ <;> rw [hresult]
    · exact hfind
    · exact hfind
    · rw [SessionManager.handshakeReplays_establish]
      exact hfind
  | handleHandshakeResp message sessionId =>
    rcases SessionManager.handleHandshakeResp_cases P cfg mgr now message sessionId with
      hresult | hresult | ⟨_, _, _, _, _, _, _, _, _, hresult⟩ <;> rw [hresult]
    · exact hfind
    · exact hfind
    · rw [SessionManager.handshakeReplays_establish]
      exact hfind
  | encryptMessage peerId packetType plaintext flags entropy =>
    rcases SessionManager.encryptMessage_cases P cfg mgr peerId packetType plaintext flags entropy with
      ⟨-, hresult⟩ | ⟨_, _, -, -, hresult⟩ <;> rw [hresult] <;> exact hfind
  | decryptMessage data =>
    rcases SessionManager.decryptMessage_cases P mgr data with hresult | ⟨_, _, _, _, _, _, hresult⟩
    · rw [hresult]
      exact hfind
    · rw [hresult, SessionManager.handshakeReplays_storeSessionById]
      exact hfind
  | removeSession peerId =>
    rw [SessionManager.handshakeReplays_removeSession]
    exact hfind
  | shrink mgr' _ _ _ _ hreplays => exact hreplays key expires hfind hnow

/-- The call was read from its message. -/
def CallRead (P : Primitives H) (cfg : SessionConfig) (call : InitCall H) : Prop :=
  ∃ frame, parseInit P cfg call.message call.outerSessionId = some (frame, call.init.replayKey)

/-- From `now` on the transcript with hash `key` stays cached until `expires`. -/
def CachedUntil (mgr : SessionManager H) (now : Time) (key : CryptoHash) (expires : Time) : Prop :=
  now < expires → mgr.handshakeReplays.find? key = some expires

theorem CachedUntil.outcome {events : List SessionEvent} {key : CryptoHash} {expires now' : Time}
    (h : CachedUntil mgr now key expires) (hle : now ≤ now') (hstep : Outcome P cfg now' mgr mgr' events) :
    CachedUntil mgr' now' key expires :=
  fun hlt => hstep.find?_replays (h (hle.trans_lt hlt)) hlt

theorem step_calls {s : Interleaving H} {action : Time × Section} {c : OpenCall H}
    (hc : c ∈ (step P cfg s action).1.calls) :
    c ∈ s.calls ∨ (∃ call, c = .verified call ∧ CallRead P cfg call) ∨
      ∃ call, .verified call ∈ s.calls ∧ c = .admitted call (action.1 + s.mgr.handshakeReplayTtl) ∧
        (s.mgr.initAdmit cfg action.1 call.init) = ((step P cfg s action).1.mgr, true) := by
  obtain ⟨now, action⟩ := action
  cases action with
  | initCheck message outerSessionId entropy =>
    rcases SessionManager.initCheck_cases P cfg s.mgr now message outerSessionId entropy with
      hresult | hresult | ⟨frame, replayKey, hparse, _, _, hresult⟩
    · simp only [step, hresult] at hc
      exact Or.inl hc
    · simp only [step, hresult] at hc
      exact Or.inl hc
    · cases hread : readInit P cfg frame replayKey entropy with
      | none =>
        rw [hread] at hresult
        simp only [step, hresult] at hc
        exact Or.inl hc
      | some init =>
        rw [hread] at hresult
        simp only [step, hresult, List.mem_append, List.mem_singleton] at hc
        rcases hc with hc | rfl
        · exact Or.inl hc
        · obtain ⟨_, hkey⟩ := SessionManager.readInit_fields P cfg hread
          exact Or.inr (Or.inl ⟨_, rfl, frame, by rw [hkey]; exact hparse⟩)
  | initAdmit index =>
    rcases hcall : s.calls[index]? with _ | ⟨call | ⟨call, expires⟩⟩
    · exact Or.inl (by simpa only [step, hcall] using hc)
    · cases hadmitted : s.mgr.initAdmit cfg now call.init with
      | mk mgr' admitted =>
        cases admitted with
        | true =>
          simp only [step, hcall, hadmitted] at hc ⊢
          rcases List.mem_or_eq_of_mem_set hc with hc | rfl
          · exact Or.inl hc
          · exact Or.inr (Or.inr ⟨call, List.mem_of_getElem? hcall, rfl, hadmitted⟩)
        | false =>
          simp only [step, hcall, hadmitted] at hc
          exact Or.inl (List.mem_of_mem_eraseIdx hc)
    · exact Or.inl (by simpa only [step, hcall] using hc)
  | initInstall index =>
    left
    simp only [step] at hc
    split at hc
    · split at hc <;> exact List.mem_of_mem_eraseIdx hc
    · exact hc
  | handleHandshakeResp message sessionId =>
    left
    simp only [step] at hc
    split at hc <;> exact hc
  | decryptMessage data =>
    left
    simp only [step] at hc
    split at hc <;> exact hc
  | _ => exact Or.inl hc

theorem step_answered {s : Interleaving H} {action : Time × Section} {message : List UInt8}
    {outerSessionId : UInt32} {peerId : NodeId} {expires : Time}
    (h : .answered message outerSessionId peerId expires ∈ (step P cfg s action).2) :
    ∃ call, .admitted call expires ∈ s.calls ∧ call.message = message ∧
      call.outerSessionId = outerSessionId := by
  obtain ⟨now, action⟩ := action
  have hinstalled (mgr : SessionManager H) (sid : UInt32) :
      .answered message outerSessionId peerId expires ∉ installed mgr sid := by
    simp [installed]
  cases action with
  | initCheck message' outerSessionId' entropy =>
    simp only [step] at h
    split at h <;> exact absurd h (by simp)
  | initAdmit index =>
    simp only [step] at h
    split at h
    · split at h <;> exact absurd h (by simp)
    · exact absurd h (by simp)
  | initInstall index =>
    rcases hcall : s.calls[index]? with _ | ⟨call | ⟨call, expires'⟩⟩
    · simp [step, hcall] at h
    · simp [step, hcall] at h
    · cases hinstall : s.mgr.initInstall P cfg now call.init with
      | mk mgr' response =>
        cases response with
        | none => simp [step, hcall, hinstall] at h
        | some response =>
          simp only [step, hcall, hinstall, List.mem_append, hinstalled, false_or, List.mem_singleton,
            SessionEvent.answered.injEq] at h
          obtain ⟨rfl, rfl, -, rfl⟩ := h
          exact ⟨call, List.mem_of_getElem? hcall, rfl, rfl⟩
  | handleHandshakeResp message' sessionId =>
    simp only [step] at h
    split at h
    · exact absurd h (hinstalled _ _)
    · exact absurd h (by simp)
  | decryptMessage data =>
    simp only [step] at h
    split at h <;> exact absurd h (by simp)
  | _ => exact absurd h (by simp [step])

/-- What is known of calls and answered INITs at time `now`. -/
structure CacheInvariant (P : Primitives H) (cfg : SessionConfig) (s : Interleaving H)
    (events : List SessionEvent) (now : Time) : Prop where
  verified : ∀ call, .verified call ∈ s.calls → CallRead P cfg call
  admitted : ∀ call expires, .admitted call expires ∈ s.calls →
    CallRead P cfg call ∧ CachedUntil s.mgr now call.init.replayKey expires
  answered : ∀ message outerSessionId peerId expires,
    .answered message outerSessionId peerId expires ∈ events →
      ∃ frame key, parseInit P cfg message outerSessionId = some (frame, key) ∧
        CachedUntil s.mgr now key expires

theorem CacheInvariant.step {s : Interleaving H} {events : List SessionEvent} {action : Time × Section}
    (h : CacheInvariant P cfg s events now) (hle : now ≤ action.1) :
    CacheInvariant P cfg (step P cfg s action).1 (events ++ (step P cfg s action).2) action.1 := by
  have houtcome := step_outcome P cfg s action
  have hkept {call expires} (hcall : .admitted call expires ∈ s.calls) :
      CallRead P cfg call ∧ CachedUntil (Interleaving.step P cfg s action).1.mgr action.1
        call.init.replayKey expires :=
    ⟨(h.admitted call expires hcall).1, (h.admitted call expires hcall).2.outcome hle houtcome⟩
  refine ⟨?_, ?_, ?_⟩
  · intro call hcall
    rcases step_calls hcall with hcall | ⟨call', heq, hread⟩ | ⟨_, _, heq, _⟩
    · exact h.verified call hcall
    · obtain rfl := OpenCall.verified.inj heq
      exact hread
    · exact absurd heq (by simp)
  · intro call expires hcall
    rcases step_calls hcall with hcall | ⟨_, heq, _⟩ | ⟨call', hcall', heq, hadmitted⟩
    · exact hkept hcall
    · exact absurd heq (by simp)
    · -- the second section has just cached the transcript
      obtain ⟨rfl, rfl⟩ := OpenCall.admitted.inj heq
      refine ⟨h.verified call hcall', fun _ => ?_⟩
      rcases SessionManager.initAdmit_cases cfg s.mgr action.1 call.init with
        ⟨_, hresult⟩ | ⟨_, _, _, hresult⟩ | ⟨_, _, hresult⟩
      · exact absurd (congrArg Prod.snd (hadmitted.symm.trans hresult)) (by simp)
      · exact absurd (congrArg Prod.snd (hadmitted.symm.trans hresult)) (by simp)
      · rw [(Prod.mk.inj (hadmitted.symm.trans hresult)).1, SessionManager.handshakeReplays_dropPendingTo]
        simp [SessionManager.recordReplay]
        rfl
  · intro message outerSessionId peerId expires hevent
    rcases List.mem_append.mp hevent with hevent | hevent
    · obtain ⟨frame, key, hparse, hcached⟩ := h.answered message outerSessionId peerId expires hevent
      exact ⟨frame, key, hparse, hcached.outcome hle houtcome⟩
    · obtain ⟨call, hcall, rfl, rfl⟩ := step_answered hevent
      obtain ⟨⟨frame, hparse⟩, hcached⟩ := hkept hcall
      exact ⟨frame, _, hparse, hcached⟩

/-- Over a run whose clock does not go back, an answered INIT stays cached until its expiry. -/
theorem run_cacheInvariant {actions : List (Time × Section)}
    (hclock : (actions.map Prod.fst).Pairwise (· ≤ ·)) {now : Time} (hlater : ∀ action ∈ actions, action.1 ≤ now) :
    CacheInvariant P cfg (run P cfg actions).1 (run P cfg actions).2 now := by
  -- the newest section is peeled off; it is the latest as well
  induction actions using List.reverseRecOn generalizing now with
  | nil =>
    refine ⟨?_, ?_, ?_⟩ <;> simp [run]
  | append_singleton actions action ih =>
    rw [List.map_append, List.pairwise_append] at hclock
    have hbefore : CacheInvariant P cfg (run P cfg actions).1 (run P cfg actions).2 action.1 :=
      ih hclock.1 fun a ha => hclock.2.2 a.1 (List.mem_map_of_mem ha) action.1 (by simp)
    have hafter := hbefore.step (le_refl action.1)
    have hrun : run P cfg (actions ++ [action])
        = ((step P cfg (run P cfg actions).1 action).1,
            (run P cfg actions).2 ++ (step P cfg (run P cfg actions).1 action).2) := by
      simp only [run, List.foldl_append, List.foldl_cons, List.foldl_nil]
      rfl
    rw [hrun]
    have hnow : action.1 ≤ now := hlater action (by simp)
    refine ⟨hafter.verified, ?_, ?_⟩
    · intro call expires hcall
      obtain ⟨hread, hcached⟩ := hafter.admitted call expires hcall
      exact ⟨hread, fun hlt => hcached (hnow.trans_lt hlt)⟩
    · intro message outerSessionId peerId expires hevent
      obtain ⟨frame, key, hparse, hcached⟩ := hafter.answered message outerSessionId peerId expires hevent
      exact ⟨frame, key, hparse, fun hlt => hcached (hnow.trans_lt hlt)⟩

/-- Node 1 answers an INIT of node 2 and then a rekey; much later it purges what has expired. -/
def rekeyedRun : List (Time × Section) :=
  [(0, .initCheck (sampleInit 7 10) 7 sampleEntropy), (0, .initAdmit 0), (0, .initInstall 0),
    (1, .initCheck (sampleInit 8 50) 8 sampleEntropy), (1, .initAdmit 0), (1, .initInstall 0),
    (110000, .purgeRetired)]

theorem sampleInit_valid :
    SessionManager.InitValid clearPrimitives (.sample 1) (sampleInit 7 10) 7 sampleEntropy
      (FixedBytes.copy 32 [2]) := by
  refine ⟨_, _, _, rfl, rfl, ?_, ?_⟩ <;> decide +kernel

end Interleaving

end Aegis
