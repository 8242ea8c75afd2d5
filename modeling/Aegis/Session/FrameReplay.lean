import Aegis.Session.Sections

/-!
# Frames are accepted at most once

A session's window travels with the session: from the active table to the retired one, to the one copy that
a lookup by id finds. Over a run, `ReplayInvariant` says that the live sessions hold pairwise different
receive keys and that the window of each has marked every accepted frame its key opens. A frame accepted a
second time would be opened by the same key, hence by the same live session, whose window refuses it.
-/

namespace Aegis

variable {H : Type} {P : Primitives H} {cfg : SessionConfig} {mgr mgr' : SessionManager H}

namespace SessionManager

/-! ### Live sessions -/

theorem TableInvariant.findSessionByIdLocked_iff (h : mgr.TableInvariant cfg) {sid : UInt32} {s : SessionState} :
    mgr.findSessionByIdLocked sid = some s ↔
      (∃ p, mgr.sessions.find? p = some s ∧ s.id = sid) ∨ ∃ r, mgr.retired.find? sid = some r ∧ r.session = s := by
  unfold findSessionByIdLocked
  cases hindex : mgr.sessionToPeer.find? sid with
  | some p =>
    simp only [h.findSessionLocked]
    constructor
    · intro hfind
      obtain ⟨s', hs', hid⟩ := h.indexed sid p hindex
      rw [hfind] at hs'
      obtain rfl := Option.some.inj hs'
      exact Or.inl ⟨p, hfind, hid⟩
    · rintro (⟨q, hq, rfl⟩ | ⟨r, hr, -⟩)
      · rw [(h.active q s hq).2.2] at hindex
        exact Option.some.inj hindex ▸ hq
      · have := h.active_retired sid (SortedMap.contains_of_find? hindex)
        simp [SortedMap.contains_of_find? hr] at this
  | none =>
    constructor
    · intro hfind
      obtain ⟨r, hr, hsession⟩ := Option.map_eq_some_iff.mp (Option.filter_eq_some_iff.mp hfind).1
      exact Or.inr ⟨r, hr, hsession⟩
    · rintro (⟨q, hq, rfl⟩ | ⟨r, hr, rfl⟩)
      · rw [(h.active q s hq).2.2] at hindex
        exact absurd hindex (by simp)
      · simp [hr, (h.retired sid r hr).1]

/-- Every live session of `mgr'` is one of `mgr`, up to its send counter. -/
def Kept (mgr mgr' : SessionManager H) : Prop :=
  ∀ sid s', mgr'.findSessionByIdLocked sid = some s' →
    ∃ s, mgr.findSessionByIdLocked sid = some s ∧ s'.recvKey = s.recvKey ∧ s'.window = s.window

theorem Kept.of_shrink (hsessions : mgr'.sessions = mgr.sessions)
    (hindex : mgr'.sessionToPeer = mgr.sessionToPeer) (hretired : mgr'.retired ⊆ mgr.retired) : mgr.Kept mgr' := by
  intro sid s' hfind
  refine ⟨s', ?_, rfl, rfl⟩
  unfold findSessionByIdLocked findSessionLocked at *
  rw [hindex, hsessions] at hfind
  cases hpeer : mgr.sessionToPeer.find? sid with
  | some p => simpa only [hpeer] using hfind
  | none =>
    simp only [hpeer] at hfind ⊢
    obtain ⟨hmap, hestablished⟩ := Option.filter_eq_some_iff.mp hfind
    obtain ⟨r, hr, rfl⟩ := Option.map_eq_some_iff.mp hmap
    simp [SortedMap.find?_of_subset hretired hr, hestablished]

theorem SameSessions.kept (h : mgr.SameSessions mgr') : mgr.Kept mgr' :=
  Kept.of_shrink h.sessions h.sessionToPeer (h.retired ▸ SortedMap.subset_refl _)

theorem Kept.of_subset (h : mgr.TableInvariant cfg) (h' : mgr'.TableInvariant cfg)
    (hsessions : mgr'.sessions ⊆ mgr.sessions) (hretired : mgr'.retired ⊆ mgr.retired) : mgr.Kept mgr' := by
  intro sid s' hfind
  refine ⟨s', h.findSessionByIdLocked_iff.mpr ?_, rfl, rfl⟩
  rcases h'.findSessionByIdLocked_iff.mp hfind with ⟨p, hp, hid⟩ | ⟨r, hr, hs⟩
  · exact Or.inl ⟨p, SortedMap.find?_of_subset hsessions hp, hid⟩
  · exact Or.inr ⟨r, SortedMap.find?_of_subset hretired hr, hs⟩

theorem sessions_removeSession_subset (mgr : SessionManager H) (peerId : NodeId) :
    (mgr.removeSession peerId).sessions ⊆ mgr.sessions := by
  unfold removeSession
  cases mgr.sessions.find? peerId with
  | none => exact SortedMap.subset_refl _
  | some session => exact SortedMap.erase_subset _ _

theorem retired_removeSession_subset (mgr : SessionManager H) (peerId : NodeId) :
    (mgr.removeSession peerId).retired ⊆ mgr.retired := by
  unfold removeSession
  cases mgr.sessions.find? peerId with
  | none => exact SortedMap.filter_subset _ _
  | some session => exact SortedMap.subset_trans (SortedMap.filter_subset _ _) (SortedMap.erase_subset _ _)

section

variable (h : mgr.TableInvariant cfg)
include h

theorem kept_removeSession (peerId : NodeId) : mgr.Kept (mgr.removeSession peerId) :=
  Kept.of_subset h (h.removeSession peerId) (sessions_removeSession_subset mgr peerId)
    (retired_removeSession_subset mgr peerId)

theorem kept_encryptMessage (P : Primitives H) (peerId : NodeId)
    (packetType : UInt8) (plaintext : List UInt8) (flags : UInt8) (entropy : Entropy) :
    mgr.Kept (mgr.encryptMessage P cfg peerId packetType plaintext flags entropy).1 := by
  have h' := h.encryptMessage P peerId packetType plaintext flags entropy
  rcases encryptMessage_cases P cfg mgr peerId packetType plaintext flags entropy with
    ⟨-, hsame⟩ | ⟨session, payload, -, hsession, hresult⟩
  · rw [hsame]
    exact Kept.of_shrink rfl rfl (SortedMap.subset_refl _)
  · rw [hresult] at h' ⊢
    rw [h.findSessionLocked] at hsession
    intro sid s' hfind
    rcases h'.findSessionByIdLocked_iff.mp hfind with ⟨p, hp, hid⟩ | ⟨r, hr, hs⟩
    · rcases SortedMap.find?_insert_eq_some_iff.mp hp with ⟨-, rfl⟩ | ⟨-, hp⟩
      · exact ⟨session, h.findSessionByIdLocked_iff.mpr (Or.inl ⟨peerId, hsession, hid⟩), rfl, rfl⟩
      · exact ⟨s', h.findSessionByIdLocked_iff.mpr (Or.inl ⟨p, hp, hid⟩), rfl, rfl⟩
    · exact ⟨s', h.findSessionByIdLocked_iff.mpr (Or.inr ⟨r, hr, hs⟩), rfl, rfl⟩

/-- After `establish` the live sessions are the new one and those that were live: the superseded session
is found under its id in the retired table, if there is room for it. -/
theorem find_establish {now : Time} {peerId : NodeId} {sessionId sid : UInt32}
    {split : NoiseIkSplitResult} {local_ : Bool} {s : SessionState} (huse : mgr.sessionIdInUse sessionId = false)
    (hroom : mgr.sessions.contains peerId = true ∨ mgr.sessions.size < cfg.capacity.active)
    (hfind : (mgr.establish cfg now peerId sessionId split local_).findSessionByIdLocked sid = some s) :
    (sid = sessionId ∧ s = .fresh peerId sessionId split local_ now) ∨
      mgr.findSessionByIdLocked sid = some s := by
  have h' : (mgr.establish cfg now peerId sessionId split local_).TableInvariant cfg := h.establish huse hroom
  rcases h'.findSessionByIdLocked_iff.mp hfind with ⟨p, hp, hid⟩ | ⟨r, hr, hs⟩
  · rw [sessions_establish] at hp
    rcases SortedMap.find?_insert_eq_some_iff.mp hp with ⟨-, rfl⟩ | ⟨-, hp⟩
    · exact Or.inl ⟨hid.symm, rfl⟩
    · exact Or.inr (h.findSessionByIdLocked_iff.mpr (Or.inl ⟨p, hp, hid⟩))
  · right
    rcases find?_retired_establish hr with ⟨old, hold, hid, rfl⟩ | hr
    · rw [h.findSessionLocked] at hold
      exact h.findSessionByIdLocked_iff.mpr (Or.inl ⟨peerId, hs ▸ hold, by rw [hid, ← hs]⟩)
    · exact h.findSessionByIdLocked_iff.mpr (Or.inr ⟨r, hr, hs⟩)

theorem find_establish_self {now : Time} {peerId : NodeId}
    {sessionId : UInt32} {split : NoiseIkSplitResult} {local_ : Bool} (huse : mgr.sessionIdInUse sessionId = false)
    (hroom : mgr.sessions.contains peerId = true ∨ mgr.sessions.size < cfg.capacity.active) :
    (mgr.establish cfg now peerId sessionId split local_).findSessionByIdLocked sessionId
      = some (.fresh peerId sessionId split local_ now) := by
  have h' : (mgr.establish cfg now peerId sessionId split local_).TableInvariant cfg := h.establish huse hroom
  exact h'.findSessionByIdLocked_iff.mpr (Or.inl ⟨peerId, by simp, rfl⟩)

theorem find_storeSessionById {sid sid' : UInt32} {s s' t : SessionState}
    (hlive : mgr.findSessionByIdLocked sid = some s) (hestablished : s'.established = true)
    (hfind : (mgr.storeSessionById sid s').findSessionByIdLocked sid' = some t) :
    (sid' = sid ∧ t = s') ∨ (sid' ≠ sid ∧ mgr.findSessionByIdLocked sid' = some t) := by
  by_cases hsid : sid' = sid
  · subst hsid
    rw [findSessionByIdLocked_store hlive hestablished] at hfind
    exact Or.inl ⟨rfl, (Option.some.inj hfind).symm⟩
  · refine Or.inr ⟨hsid, ?_⟩
    unfold storeSessionById at hfind
    cases hindex : mgr.sessionToPeer.find? sid with
    | some p =>
      -- another id leads to another peer
      simp only [hindex] at hfind
      unfold findSessionByIdLocked findSessionLocked at *
      cases hindex' : mgr.sessionToPeer.find? sid' with
      | none => simpa only [hindex'] using hfind
      | some p' =>
        have hne : p' ≠ p := by
          rintro rfl
          obtain ⟨a, ha, rfl⟩ := h.indexed sid p' hindex
          obtain ⟨b, hb, rfl⟩ := h.indexed sid' p' hindex'
          rw [ha] at hb
          exact hsid (congrArg SessionState.id (Option.some.inj hb)).symm
        simpa [hindex', hne] using hfind
    | none =>
      simp only [hindex] at hfind
      cases hretired : mgr.retired.find? sid with
      | none => simpa only [hretired] using hfind
      | some r =>
        simp only [hretired] at hfind
        unfold findSessionByIdLocked findSessionLocked at *
        simpa [hsid] using hfind

end

end SessionManager

/-! ### The invariant -/

/-- The frame's box opens under `key`. -/
def Opens (P : Primitives H) (key : ChaCha20Poly1305Key) (header : PacketHeader) (frame : List UInt8) : Prop :=
  (openFrame P key header.payloadLength.toNat frame).isSome = true

/-- What is known after installing sessions with receive keys `keys` and accepting `frames`. -/
structure ReplayInvariant (P : Primitives H) (mgr : SessionManager H) (keys : List ChaCha20Poly1305Key)
    (frames : List (List UInt8)) : Prop where
  installed : ∀ sid s, mgr.findSessionByIdLocked sid = some s → s.recvKey ∈ keys
  distinct : ∀ sid sid' s s', mgr.findSessionByIdLocked sid = some s →
    mgr.findSessionByIdLocked sid' = some s' → s.recvKey = s'.recvKey → sid = sid'
  opened : ∀ frame ∈ frames, ∃ header key, parseFrame frame = some header ∧ key ∈ keys ∧
    Opens P key header frame
  recorded : ∀ sid s, mgr.findSessionByIdLocked sid = some s → ∃ seen, s.window.Records seen ∧
    ∀ frame ∈ frames, ∀ header, parseFrame frame = some header → Opens P s.recvKey header frame →
      header.sequenceNumber.toNat ∈ seen
  nodup : frames.Nodup

namespace ReplayInvariant

variable {keys : List ChaCha20Poly1305Key} {frames : List (List UInt8)}

section

variable (h : ReplayInvariant P mgr keys frames)
include h

theorem of_kept (hkept : mgr.Kept mgr') : ReplayInvariant P mgr' keys frames := by
  refine ⟨?_, ?_, h.opened, ?_, h.nodup⟩
  · intro sid s' hs'
    obtain ⟨s, hs, hkey, -⟩ := hkept sid s' hs'
    exact hkey ▸ h.installed sid s hs
  · intro sid sid' s' t' hs' ht' heq
    obtain ⟨s, hs, hkey, -⟩ := hkept sid s' hs'
    obtain ⟨t, ht, hkey', -⟩ := hkept sid' t' ht'
    exact h.distinct sid sid' s t hs ht (by rw [← hkey, ← hkey', heq])
  · intro sid s' hs'
    obtain ⟨s, hs, hkey, hwindow⟩ := hkept sid s' hs'
    rw [hkey, hwindow]
    exact h.recorded sid s hs

theorem of_sublist {frames' : List (List UInt8)}
    (hsub : frames'.Sublist frames) : ReplayInvariant P mgr keys frames' := by
  refine ⟨h.installed, h.distinct, fun frame hframe => h.opened frame (hsub.subset hframe), ?_,
    h.nodup.sublist hsub⟩
  intro sid s hs
  obtain ⟨seen, hrecords, hmarked⟩ := h.recorded sid s hs
  exact ⟨seen, hrecords, fun frame hframe => hmarked frame (hsub.subset hframe)⟩

theorem of_fresh {sessionId : UInt32} (fresh : SessionState)
    (hkey : fresh.recvKey ∉ keys) (hsep : P.aead.Separates (keys ++ [fresh.recvKey]))
    (hwindow : fresh.window = ReplayWindow.fresh) (hfind : ∀ sid s, mgr'.findSessionByIdLocked sid = some s →
      (sid = sessionId ∧ s = fresh) ∨ mgr.findSessionByIdLocked sid = some s) :
    ReplayInvariant P mgr' (keys ++ [fresh.recvKey]) frames := by
  refine ⟨?_, ?_, ?_, ?_, h.nodup⟩
  · intro sid s hs
    rcases hfind sid s hs with ⟨-, rfl⟩ | hs
    · simp
    · exact List.mem_append_left _ (h.installed sid s hs)
  · intro sid sid' s s' hs hs' heq
    rcases hfind sid s hs with ⟨rfl, rfl⟩ | hs <;> rcases hfind sid' s' hs' with ⟨rfl, rfl⟩ | hs'
    · rfl
    · exact absurd (heq ▸ h.installed sid' s' hs') hkey
    · exact absurd (heq ▸ h.installed sid s hs) hkey
    · exact h.distinct sid sid' s s' hs hs' heq
  · intro frame hframe
    obtain ⟨header, key, hparse, hmem, hopens⟩ := h.opened frame hframe
    exact ⟨header, key, hparse, List.mem_append_left _ hmem, hopens⟩
  · intro sid s hs
    rcases hfind sid s hs with ⟨-, rfl⟩ | hs
    · refine ⟨∅, hwindow ▸ ReplayWindow.fresh_records, ?_⟩
      intro frame hframe header hparse hopens
      obtain ⟨header', key, hparse', hmem, hopens'⟩ := h.opened frame hframe
      obtain rfl : header' = header := Option.some.inj (hparse'.symm.trans hparse)
      -- the frame opened under an older key, so it does not open under this one
      have hsame := hsep key (List.mem_append_left _ hmem) s.recvKey (by simp) _ _ _ _ hopens' hopens
      exact absurd (hsame ▸ hmem) hkey
    · exact h.recorded sid s hs

theorem of_opened (hsep : P.aead.Separates keys) {frame : List UInt8}
    {header : PacketHeader} {session : SessionState} (session' : SessionState) (hparse : parseFrame frame = some header)
    (hlive : mgr.findSessionByIdLocked header.sessionId = some session)
    (hcheck : session.window.check header.sequenceNumber.toNat = true)
    (hopens : Opens P session.recvKey header frame) (hkey : session'.recvKey = session.recvKey)
    (hwindow : session'.window = session.window.update header.sequenceNumber.toNat)
    (hfind : ∀ sid s, mgr'.findSessionByIdLocked sid = some s → (sid = header.sessionId ∧ s = session') ∨
        (sid ≠ header.sessionId ∧ mgr.findSessionByIdLocked sid = some s)) :
    ReplayInvariant P mgr' keys (frames ++ [frame]) := by
  obtain ⟨seen, hrecords, hmarked⟩ := h.recorded header.sessionId session hlive
  have hmem := h.installed header.sessionId session hlive
  have hnew : frame ∉ frames := fun hold => by
    rw [hrecords.check_of_mem (hmarked frame hold header hparse hopens)] at hcheck
    exact absurd hcheck (by simp)
  refine ⟨?_, ?_, ?_, ?_, ?_⟩
  · intro sid s hs
    rcases hfind sid s hs with ⟨-, rfl⟩ | ⟨-, hs⟩
    · exact hkey ▸ hmem
    · exact h.installed sid s hs
  · intro sid sid' s s' hs hs' heq
    rcases hfind sid s hs with ⟨rfl, rfl⟩ | ⟨-, hs⟩ <;> rcases hfind sid' s' hs' with ⟨rfl, rfl⟩ | ⟨-, hs'⟩
    · rfl
    · exact h.distinct _ sid' session s' hlive hs' (hkey ▸ heq)
    · exact h.distinct sid _ s session hs hlive (heq.trans hkey)
    · exact h.distinct sid sid' s s' hs hs' heq
  · intro f hf
    rcases List.mem_append.mp hf with hf | hf
    · exact h.opened f hf
    · obtain rfl := List.mem_singleton.mp hf
      exact ⟨header, session.recvKey, hparse, hmem, hopens⟩
  · intro sid s hs
    rcases hfind sid s hs with ⟨-, rfl⟩ | ⟨hne, hs⟩
    · rw [hwindow, hkey]
      refine ⟨_, hrecords.update _, ?_⟩
      intro f hf header' hparse' hopens'
      rcases List.mem_append.mp hf with hf | hf
      · exact Set.mem_insert_of_mem _ (hmarked f hf header' hparse' hopens')
      · obtain rfl := List.mem_singleton.mp hf
        obtain rfl : header = header' := Option.some.inj (hparse.symm.trans hparse')
        exact Set.mem_insert _ _
    · obtain ⟨seen', hrecords', hmarked'⟩ := h.recorded sid s hs
      refine ⟨seen', hrecords', ?_⟩
      intro f hf header' hparse' hopens'
      rcases List.mem_append.mp hf with hf | hf
      · exact hmarked' f hf header' hparse' hopens'
      · -- the frame opens under one key only, and that key is the accepting session's
        obtain rfl := List.mem_singleton.mp hf
        obtain rfl : header = header' := Option.some.inj (hparse.symm.trans hparse')
        have hsame := hsep session.recvKey hmem s.recvKey (h.installed sid s hs) _ _ _ _ hopens hopens'
        exact absurd (h.distinct sid _ s session hs hlive hsame.symm) hne
  · exact List.nodup_append.mpr ⟨h.nodup, by simp, by
      intro a ha b hb
      obtain rfl := List.mem_singleton.mp hb
      rintro rfl
      exact hnew ha⟩

end

end ReplayInvariant

/-! ### Runs -/

namespace Interleaving

/-- The receive keys of the sessions established in a run. -/
def installedKeys (events : List SessionEvent) : List ChaCha20Poly1305Key :=
  events.filterMap fun
    | .established session => some session.recvKey
    | _ => none

def openedFrames (events : List SessionEvent) : List (List UInt8) :=
  events.filterMap fun
    | .opened frame _ => some frame
    | _ => none

theorem installedKeys_append (events events' : List SessionEvent) :
    installedKeys (events ++ events') = installedKeys events ++ installedKeys events' :=
  List.filterMap_append

theorem openedFrames_append (events events' : List SessionEvent) :
    openedFrames (events ++ events') = openedFrames events ++ openedFrames events' :=
  List.filterMap_append

theorem installedKeys_answered (message : List UInt8) (sid : UInt32) (peerId : NodeId) (expires : Time) :
    installedKeys [.answered message sid peerId expires] = [] := rfl

theorem openedFrames_answered (message : List UInt8) (sid : UInt32) (peerId : NodeId) (expires : Time) :
    openedFrames [.answered message sid peerId expires] = [] := rfl

theorem installed_establish (htables : mgr.TableInvariant cfg) {peerId : NodeId} {sessionId : UInt32}
    (huse : mgr.sessionIdInUse sessionId = false) (hroom : mgr.hasRoomFor cfg peerId = true) (now : Time)
    (split : NoiseIkSplitResult) (local_ : Bool) :
    installed (mgr.establish cfg now peerId sessionId split local_) sessionId
      = [.established (.fresh peerId sessionId split local_ now)] := by
  rw [installed, SessionManager.find_establish_self htables huse
    (SessionManager.TableInvariant.hasRoomFor_iff.mp hroom)]
  rfl

/-- A session is established from tables that keep the live sessions. -/
theorem replayInvariant_establish {now : Time} {peerId : NodeId} {sessionId : UInt32}
    {split : NoiseIkSplitResult} {local_ : Bool} {keys : List ChaCha20Poly1305Key}
    {frames : List (List UInt8)} (htables : mgr.TableInvariant cfg)
    (huse : mgr.sessionIdInUse sessionId = false) (hroom : mgr.hasRoomFor cfg peerId = true)
    (hkeys : (keys ++ installedKeys (installed (mgr.establish cfg now peerId sessionId split local_) sessionId)).Nodup)
    (hsep : P.aead.Separates (keys ++ installedKeys
      (installed (mgr.establish cfg now peerId sessionId split local_) sessionId)))
    (hinv : ReplayInvariant P mgr keys frames) :
    ReplayInvariant P (mgr.establish cfg now peerId sessionId split local_)
      (keys ++ installedKeys (installed (mgr.establish cfg now peerId sessionId split local_) sessionId))
      (frames ++ openedFrames
        (installed (mgr.establish cfg now peerId sessionId split local_) sessionId)) := by
  have hroom' := SessionManager.TableInvariant.hasRoomFor_iff.mp hroom
  rw [installed_establish htables huse hroom] at hkeys hsep ⊢
  have hnew : split.receiveKey ∉ keys := fun hmem => by
    have := (List.nodup_append.mp hkeys).2.2 _ hmem split.receiveKey (by simp [installedKeys, SessionState.fresh])
    exact this rfl
  have hframes : frames ++ openedFrames [.established (.fresh peerId sessionId split local_ now)] = frames := by
    simp [openedFrames]
  rw [hframes]
  exact hinv.of_fresh (.fresh peerId sessionId split local_ now) hnew hsep rfl
    fun sid s hfind => SessionManager.find_establish htables huse hroom' hfind

/-- A frame is marked in its session's window when its box opens, whether it is accepted or not. -/
theorem replayInvariant_decrypt {keys : List ChaCha20Poly1305Key} {frames : List (List UInt8)}
    (htables : mgr.TableInvariant cfg) (hsep : P.aead.Separates keys) (hinv : ReplayInvariant P mgr keys frames)
    (data : List UInt8) :
    ReplayInvariant P (mgr.decryptMessage P data).1 keys
      (frames ++ openedFrames ((mgr.decryptMessage P data).2.toList.map (SessionEvent.opened data))) := by
  rcases SessionManager.decryptMessage_cases P mgr data with
    hsame | ⟨header, session, hparse, hlive, hcheck, hopens, hresult⟩
  · simpa [hsame, openedFrames] using hinv
  · have hnat : header.sequenceNumber.toUInt64.toNat = header.sequenceNumber.toNat :=
      UInt32.toNat_toUInt64 _
    have hroom : header.sequenceNumber.toUInt64.toNat + 2048 < 2 ^ 64 := by
      have := header.sequenceNumber.toNat_lt
      omega
    rw [SessionState.checkReplay_eq _ hroom, hnat] at hcheck
    have hestablished := SessionManager.findSessionByIdLocked_established hlive
    have hmarked : ReplayInvariant P (mgr.decryptMessage P data).1 keys (frames ++ [data]) :=
      hinv.of_opened hsep (session.updateReplay header.sequenceNumber.toUInt64) hparse hlive hcheck hopens
      (by simp) (by rw [SessionState.window_updateReplay, hnat])
      (fun sid s hfind => by
        rw [hresult] at hfind
        exact SessionManager.find_storeSessionById htables hlive (by simpa using hestablished) hfind)
    -- a frame that opened but held no payload is marked without being accepted
    cases (mgr.decryptMessage P data).2 with
    | none => exact hmarked.of_sublist (by simp [openedFrames])
    | some message => exact hmarked

/-- The invariant is kept by every section, as long as the keys stay distinct and separated. -/
theorem Outcome.replayInvariant {now : Time} {events : List SessionEvent} {keys : List ChaCha20Poly1305Key}
    {frames : List (List UInt8)} (h : Outcome P cfg now mgr mgr' events) (htables : mgr.TableInvariant cfg)
    (hkeys : (keys ++ installedKeys events).Nodup)
    (hsep : P.aead.Separates (keys ++ installedKeys events)) (hinv : ReplayInvariant P mgr keys frames) :
    ReplayInvariant P mgr' (keys ++ installedKeys events) (frames ++ openedFrames events) := by
  -- a section that reports nothing keeps every live session
  have hsilent {mgr' : SessionManager H} (hkept : mgr.Kept mgr') :
      ReplayInvariant P mgr' (keys ++ installedKeys []) (frames ++ openedFrames []) := by
    simpa [installedKeys, openedFrames] using hinv.of_kept hkept
  have hpurge : mgr.Kept (mgr.purgeIncompleteHandshakesLocked now) :=
    SessionManager.Kept.of_shrink rfl rfl (SortedMap.subset_refl _)
  cases h with
  | createHandshakeInit sessionId peerId peerStatic entropy =>
    exact hsilent (SessionManager.sameSessions_createHandshakeInit ..).kept
  | initCheck message outerSessionId entropy =>
    exact hsilent (SessionManager.sameSessions_initCheck ..).kept
  | initAdmit init => exact hsilent (SessionManager.sameSessions_initAdmit ..).kept
  | initInstall call expires =>
    rcases SessionManager.initInstall_cases P cfg mgr now call.init with
      hresult | hresult | ⟨encoded, split, -, huse, hroom, hresult⟩
    · simp only [hresult] at *
      exact hsilent (SessionManager.Kept.of_shrink rfl rfl (SortedMap.subset_refl _))
    · simp only [hresult] at *
      exact hsilent hpurge
    · simp only [hresult, Option.elim_some, installedKeys_append, openedFrames_append,
        installedKeys_answered, openedFrames_answered, List.append_nil] at *
      exact replayInvariant_establish (htables.purgeIncomplete now) huse hroom hkeys hsep (hinv.of_kept hpurge)
  | handleHandshakeResp message sessionId =>
    have herased : mgr.Kept ((mgr.purgeIncompleteHandshakesLocked now).erasePending sessionId) :=
      SessionManager.Kept.of_shrink rfl rfl (SortedMap.subset_refl _)
    rcases SessionManager.handleHandshakeResp_cases P cfg mgr now message sessionId with
      hresult | hresult | ⟨state, frame, split, hpending, -, -, -, -, hroom, hresult⟩
    · simp only [hresult] at *
      exact hsilent hpurge
    · simp only [hresult] at *
      exact hsilent herased
    · simp only [hresult, if_true] at *
      exact replayInvariant_establish (htables.erasePending_purge now sessionId)
        (htables.not_inUse_erasePending hpending) hroom hkeys hsep (hinv.of_kept herased)
  | encryptMessage peerId packetType plaintext flags entropy =>
    exact hsilent (SessionManager.kept_encryptMessage htables _ _ _ _ _ _)
  | decryptMessage data =>
    have hkeys' : installedKeys ((mgr.decryptMessage P data).2.toList.map (SessionEvent.opened data)) = [] := by
      cases (mgr.decryptMessage P data).2 <;> rfl
    rw [hkeys', List.append_nil] at hsep ⊢
    exact replayInvariant_decrypt htables hsep hinv data
  | removeSession peerId => exact hsilent (SessionManager.kept_removeSession htables peerId)
  | shrink mgr' hsessions hindex hretired hpending _ =>
    exact hsilent (SessionManager.Kept.of_shrink hsessions hindex hretired)

/-- No frame is accepted twice, when distinct sessions have distinct receive keys and no frame opens under
two of them. -/
theorem openedFrames_nodup (P : Primitives H) (cfg : SessionConfig) (actions : List (Time × Section))
    (hkeys : (installedKeys (run P cfg actions).2).Nodup)
    (hsep : P.aead.Separates (installedKeys (run P cfg actions).2)) :
    (openedFrames (run P cfg actions).2).Nodup := by
  -- the hypotheses on the whole run hold of every prefix of it
  let Inv (s : Interleaving H × List SessionEvent) : Prop :=
    s.1.mgr.TableInvariant cfg ∧ ((installedKeys s.2).Nodup → P.aead.Separates (installedKeys s.2) →
      ReplayInvariant P s.1.mgr (installedKeys s.2) (openedFrames s.2))
  have hrun : Inv (run P cfg actions) := by
    refine Run.invariant Inv ?_ ?_ actions
    · rintro ⟨s, events⟩ action ⟨htables, hreplay⟩
      have houtcome := step_outcome P cfg s action
      refine ⟨houtcome.tableInvariant htables, fun hkeys hsep => ?_⟩
      simp only [Run.record, installedKeys_append, openedFrames_append] at hkeys hsep ⊢
      refine houtcome.replayInvariant htables hkeys hsep (hreplay (hkeys.sublist ?_) (hsep.sublist ?_))
      · exact List.sublist_append_left _ _
      · exact List.sublist_append_left _ _
    · refine ⟨SessionManager.tableInvariant_empty, fun _ _ => ⟨?_, ?_, ?_, ?_, ?_⟩⟩
      all_goals simp [SessionManager.findSessionByIdLocked, openedFrames]
  exact (hrun.2 hkeys hsep).nodup

/-- The first frame of node 2 under the session of that INIT. -/
def sampleFrame (sessionId : UInt32) (seed : UInt8) : List UInt8 :=
  (sealFrame clearPrimitives
    { id := sessionId, sendKey := FixedBytes.copy 32 ((List.range 32).map fun i => seed + UInt8.ofNat i) }
    0x02 0 (protectPayload 32 [0x68, 0x69] (List.replicate 26 0))).getD []

/-- Node 1 answers an INIT, accepts a frame, answers a rekey; the frame is replayed before and after. -/
def sampleRun : List (Time × Section) :=
  [(0, .initCheck (sampleInit 7 10) 7 sampleEntropy), (0, .initAdmit 0), (0, .initInstall 0),
    (1, .decryptMessage (sampleFrame 7 10)), (1, .decryptMessage (sampleFrame 7 10)),
    (2, .initCheck (sampleInit 8 50) 8 sampleEntropy), (2, .initAdmit 0), (2, .initInstall 0),
    (3, .decryptMessage (sampleFrame 7 10)), (3, .decryptMessage (sampleFrame 8 50))]

theorem openedFrames_sampleRun :
    openedFrames (run clearPrimitives (.sample 1) sampleRun).2 = [sampleFrame 7 10, sampleFrame 8 50] ∧
      (openedFrames (run clearPrimitives (.sample 1) sampleRun).2).Nodup :=
  ⟨by decide +kernel, openedFrames_nodup clearPrimitives (.sample 1) sampleRun (by decide +kernel)
    (clearAead_separates (by decide +kernel))⟩

end Interleaving

end Aegis
