import Aegis.Session.FrameReplay

/-!
# The grace window of a superseded session

A session superseded by a rekey goes to the retired table with a deadline, and `find_session_by_id_locked`
finds it there without looking at the deadline. It is a purge that ends the window: `purge_retired`, or the
purge that every retirement starts with. So frames under a superseded session are accepted after its deadline
as long as no purge has taken place since then, and not after one has.
-/

namespace Aegis

variable {H : Type} {P : Primitives H} {cfg : SessionConfig}

namespace Interleaving

/-- A section that starts with `mgr` and reports `events` puts another session in the place of `old`. -/
def Supersedes (mgr : SessionManager H) (events : List SessionEvent) (old : SessionState) : Prop :=
  ∃ session, SessionEvent.established session ∈ events ∧ mgr.findSessionLocked session.peerId = some old

/-- The section purges the retired sessions: on its own account, or before it retires another one. -/
def Purges (P : Primitives H) (cfg : SessionConfig) (s : Interleaving H) (action : Time × Section) : Prop :=
  action.2 = .purgeRetired ∨ ∃ old, Supersedes s.mgr (step P cfg s action).2 old

/-- The section retires a session with this id and receive key until the deadline. -/
def Retires (P : Primitives H) (cfg : SessionConfig) (sid : UInt32) (recvKey : ChaCha20Poly1305Key)
    (deadline : Time) (s : Interleaving H) (action : Time × Section) : Prop :=
  ∃ old, Supersedes s.mgr (step P cfg s action).2 old ∧ old.id = sid ∧ old.recvKey = recvKey ∧
    deadline = action.1 + s.mgr.retiredGrace

/-- A retired session with this id, receive key and deadline is in the table. -/
def RetiredUntil (sid : UInt32) (recvKey : ChaCha20Poly1305Key) (deadline : Time) (mgr : SessionManager H) :
    Prop :=
  ∃ r, mgr.retired.find? sid = some r ∧ r.session.recvKey = recvKey ∧ r.expires = deadline

variable {mgr mgr' : SessionManager H} {now : Time} {sid : UInt32} {recvKey : ChaCha20Poly1305Key}
  {deadline : Time}

theorem RetiredUntil.of_subset (h : RetiredUntil sid recvKey deadline mgr') (hsub : mgr'.retired ⊆ mgr.retired) :
    RetiredUntil sid recvKey deadline mgr := by
  obtain ⟨r, hr, hkey, hexpires⟩ := h
  exact ⟨r, SortedMap.find?_of_subset hsub hr, hkey, hexpires⟩

theorem RetiredUntil.of_eq (h : RetiredUntil sid recvKey deadline mgr') (heq : mgr'.retired = mgr.retired) :
    RetiredUntil sid recvKey deadline mgr :=
  h.of_subset (heq ▸ SortedMap.subset_refl _)

theorem RetiredUntil.of_decryptMessage {data : List UInt8}
    (h : RetiredUntil sid recvKey deadline (mgr.decryptMessage P data).1) : RetiredUntil sid recvKey deadline mgr := by
  rcases SessionManager.decryptMessage_cases P mgr data with
    hsame | ⟨header, session, -, hlive, -, -, hresult⟩
  · rwa [hsame] at h
  · rw [hresult] at h
    unfold SessionManager.storeSessionById at h
    unfold SessionManager.findSessionByIdLocked at hlive
    cases hindex : mgr.sessionToPeer.find? header.sessionId with
    | some peerId =>
      rw [hindex] at h
      exact h.of_eq rfl
    | none =>
      rw [hindex] at h hlive
      cases hretired : mgr.retired.find? header.sessionId with
      | none =>
        rw [hretired] at h
        exact h
      | some r =>
        rw [hretired] at h hlive
        obtain rfl : r.session = session := Option.some.inj (Option.filter_eq_some_iff.mp hlive).1
        obtain ⟨r', hr', hkey, hexpires⟩ := h
        rcases SortedMap.find?_insert_eq_some_iff.mp hr' with ⟨rfl, rfl⟩ | ⟨-, hr'⟩
        · exact ⟨r, hretired, by simpa using hkey, hexpires⟩
        · exact ⟨r', hr', hkey, hexpires⟩

/-- Establishing a session, after a purge of other tables: the session it supersedes is retired with a
deadline, and what was retired before has survived the purge before that. -/
theorem RetiredUntil.of_establish {mgr₀ : SessionManager H} {peerId : NodeId} {sessionId : UInt32}
    {split : NoiseIkSplitResult} {local_ : Bool} {events : List SessionEvent}
    (h : RetiredUntil sid recvKey deadline (mgr₀.establish cfg now peerId sessionId split local_))
    (hevents : ∀ session, SessionEvent.established session ∈ events ↔
      session = .fresh peerId sessionId split local_ now)
    (hsessions : mgr₀.sessions = mgr.sessions) (hretired : mgr₀.retired = mgr.retired)
    (hgrace : mgr₀.retiredGrace = mgr.retiredGrace) :
    (∃ old, Supersedes mgr events old ∧ old.id = sid ∧ old.recvKey = recvKey ∧
      deadline = now + mgr.retiredGrace) ∨
    (RetiredUntil sid recvKey deadline mgr ∧ ∀ old, Supersedes mgr events old → now < deadline) := by
  have hfind : mgr₀.findSessionLocked peerId = mgr.findSessionLocked peerId := by
    unfold SessionManager.findSessionLocked
    rw [hsessions]
  obtain ⟨r, hr, hkey, hexpires⟩ := h
  rcases SessionManager.find?_retired_establish_purged hr with ⟨old, hold, hid, rfl⟩ | ⟨hr, hpurged⟩
  · exact Or.inl ⟨old, ⟨_, (hevents _).mpr rfl, hfind ▸ hold⟩, hid.symm, hkey, hgrace ▸ hexpires.symm⟩
  · refine Or.inr ⟨⟨r, hretired ▸ hr, hkey, hexpires⟩, ?_⟩
    rintro old ⟨session, hmem, hold⟩
    obtain rfl := (hevents session).mp hmem
    exact hexpires ▸ hpurged old (hfind.trans hold)

/-- What a section can do to a retired session: it retires it, or the session was retired before; then, if the
section supersedes another session, it does so before the deadline. -/
theorem Outcome.retired {events : List SessionEvent} (h : Outcome P cfg now mgr mgr' events)
    (htables : mgr.TableInvariant cfg) (hretired : RetiredUntil sid recvKey deadline mgr') :
    (∃ old, Supersedes mgr events old ∧ old.id = sid ∧ old.recvKey = recvKey ∧
      deadline = now + mgr.retiredGrace) ∨
    (RetiredUntil sid recvKey deadline mgr ∧ ∀ old, Supersedes mgr events old → now < deadline) := by
  have hquiet : ∀ {events : List SessionEvent}, (∀ session, SessionEvent.established session ∉ events) →
      ∀ old, Supersedes mgr events old → now < deadline := by
    rintro events hnone old ⟨session, hmem, -⟩
    exact absurd hmem (hnone session)
  cases h with
  | createHandshakeInit sessionId peerId peerStatic entropy =>
    exact Or.inr ⟨hretired.of_eq (SessionManager.sameSessions_createHandshakeInit ..).retired, hquiet (by simp)⟩
  | initCheck message outerSessionId entropy =>
    exact Or.inr ⟨hretired.of_eq (SessionManager.sameSessions_initCheck ..).retired, hquiet (by simp)⟩
  | initAdmit init =>
    exact Or.inr ⟨hretired.of_eq (SessionManager.sameSessions_initAdmit ..).retired, hquiet (by simp)⟩
  | initInstall call expires =>
    rcases SessionManager.initInstall_cases P cfg mgr now call.init with
      hresult | hresult | ⟨encoded, split, -, huse, hroom, hresult⟩
    · rw [hresult] at hretired ⊢
      exact Or.inr ⟨hretired, hquiet (by simp)⟩
    · rw [hresult] at hretired ⊢
      exact Or.inr ⟨hretired.of_eq rfl, hquiet (by simp)⟩
    · have hinstalled := installed_establish (htables.purgeIncomplete now) huse hroom now split false
      rw [hresult] at hretired ⊢
      simp only [Option.elim_some, hinstalled]
      exact hretired.of_establish (by simp) rfl rfl rfl
  | handleHandshakeResp message sessionId =>
    rcases SessionManager.handleHandshakeResp_cases P cfg mgr now message sessionId with
      hresult | hresult | ⟨state, frame, split, hpending, -, -, -, -, hroom, hresult⟩
    · rw [hresult] at hretired ⊢
      exact Or.inr ⟨hretired.of_eq rfl, hquiet (by simp)⟩
    · rw [hresult] at hretired ⊢
      exact Or.inr ⟨hretired.of_eq rfl, hquiet (by simp)⟩
    · have hinstalled := installed_establish (htables.erasePending_purge now sessionId)
        (htables.not_inUse_erasePending hpending) hroom now split true
      rw [hresult] at hretired ⊢
      simp only [if_true, hinstalled]
      exact hretired.of_establish (by simp) rfl rfl rfl
  | encryptMessage peerId packetType plaintext flags entropy =>
    refine Or.inr ⟨hretired.of_eq ?_, hquiet (by simp)⟩
    rcases SessionManager.encryptMessage_cases P cfg mgr peerId packetType plaintext flags entropy with
      ⟨-, hresult⟩ | ⟨session, payload, -, -, hresult⟩
    · rw [hresult]
    · rw [hresult]
  | decryptMessage data => exact Or.inr ⟨hretired.of_decryptMessage, hquiet (by simp)⟩
  | removeSession peerId =>
    exact Or.inr ⟨hretired.of_subset (mgr.retired_removeSession_subset peerId), hquiet (by simp)⟩
  | shrink mgr' hsessions hindex hsub hpending _ => exact Or.inr ⟨hretired.of_subset hsub, hquiet (by simp)⟩

theorem retired_step (s : Interleaving H) (htables : s.mgr.TableInvariant cfg) (action : Time × Section)
    (h : RetiredUntil sid recvKey deadline (step P cfg s action).1.mgr) :
    Retires P cfg sid recvKey deadline s action ∨
      (RetiredUntil sid recvKey deadline s.mgr ∧ (Purges P cfg s action → action.1 < deadline)) := by
  rcases (step_outcome P cfg s action).retired htables h with hretires | ⟨hkept, hbefore⟩
  · exact Or.inl hretires
  · refine Or.inr ⟨hkept, ?_⟩
    rintro (hpurge | ⟨old, hold⟩)
    · -- `purge_retired` has kept what is not yet due
      obtain ⟨now, action⟩ := action
      obtain rfl : action = .purgeRetired := hpurge
      obtain ⟨r, hr, -, rfl⟩ := h
      exact of_decide_eq_true (SortedMap.find?_filter_eq_some_iff.mp hr).2
    · exact hbefore old hold

/-- A frame is accepted under a session that is no longer active only if the session was retired in the run,
and no purge has taken place since at or after its deadline. -/
theorem superseded_accepted_until_purged (P : Primitives H) (cfg : SessionConfig)
    (actions : List (Time × Section)) (data : List UInt8) (header : PacketHeader)
    (hparse : parseFrame data = some header)
    (haccepted : ((run P cfg actions).1.mgr.decryptMessage P data).2.isSome = true)
    (hsuperseded : (run P cfg actions).1.mgr.sessionToPeer.find? header.sessionId = none) :
    ∃ recvKey deadline front action back, actions = front ++ action :: back ∧
      Opens P recvKey header data ∧
      Retires P cfg header.sessionId recvKey deadline (run P cfg front).1 action ∧
      Run.Along (fun s action => (step P cfg s action).1)
        (fun s action => Purges P cfg s action → action.1 < deadline)
        (step P cfg (run P cfg front).1 action).1 back := by
  have hrun : ∀ actions, (run P cfg actions).1 = actions.foldl (fun s action => (step P cfg s action).1) {} :=
    fun actions => Run.foldl_record_fst (step P cfg) ({}, []) actions
  rcases SessionManager.decryptMessage_cases P (run P cfg actions).1.mgr data with
    hrefused | ⟨header', session, hparse', hlive, -, hopens, -⟩
  · simp [hrefused] at haccepted
  · obtain rfl : header' = header := Option.some.inj (hparse'.symm.trans hparse)
    -- the id is not active, so the session was found among the retired ones
    unfold SessionManager.findSessionByIdLocked at hlive
    rw [hsuperseded] at hlive
    obtain ⟨r, hr, rfl⟩ := Option.map_eq_some_iff.mp (Option.filter_eq_some_iff.mp hlive).1
    have hretired : RetiredUntil header'.sessionId r.session.recvKey r.expires (run P cfg actions).1.mgr :=
      ⟨r, hr, rfl, rfl⟩
    rw [hrun] at hretired
    obtain ⟨front, action, back, hactions, hmakes, halong⟩ := Run.since
      (fun s : Interleaving H => s.mgr.TableInvariant cfg)
      (fun s => RetiredUntil header'.sessionId r.session.recvKey r.expires s.mgr)
      (Retires P cfg header'.sessionId r.session.recvKey r.expires)
      (fun s action => Purges P cfg s action → action.1 < r.expires)
      (fun s action h => (step_outcome P cfg s action).tableInvariant h)
      (fun s action h => retired_step s h action) SessionManager.tableInvariant_empty
      (by rintro ⟨r, hr, -⟩; simp at hr) hretired
    rw [← hrun] at hmakes halong
    exact ⟨r.session.recvKey, r.expires, front, action, back, hactions, hopens, hmakes, halong⟩

/-- Node 1 answers an INIT and, at time 2, a rekey. -/
def sampleRekey : List (Time × Section) :=
  [(0, .initCheck (sampleInit 7 10) 7 sampleEntropy), (0, .initAdmit 0), (0, .initInstall 0),
    (2, .initCheck (sampleInit 8 50) 8 sampleEntropy), (2, .initAdmit 0), (2, .initInstall 0)]

theorem superseded_accepted_sampleRekey :
    ((run clearPrimitives (.sample 1) sampleRekey).1.mgr.decryptMessage clearPrimitives (sampleFrame 7 10)).2.isSome
        = true ∧
      ∃ recvKey deadline front action back, sampleRekey = front ++ action :: back ∧
        Opens clearPrimitives recvKey (SessionState.frameHeader { id := 7 } 0x02 0 32) (sampleFrame 7 10) ∧
        Retires clearPrimitives (.sample 1) 7 recvKey deadline (run clearPrimitives (.sample 1) front).1 action ∧
        Run.Along (fun s action => (step clearPrimitives (.sample 1) s action).1)
          (fun s action => Purges clearPrimitives (.sample 1) s action → action.1 < deadline)
          (step clearPrimitives (.sample 1) (run clearPrimitives (.sample 1) front).1 action).1 back :=
  ⟨by decide +kernel, superseded_accepted_until_purged clearPrimitives (.sample 1) sampleRekey (sampleFrame 7 10)
    (SessionState.frameHeader { id := 7 } 0x02 0 32) (by decide +kernel) (by decide +kernel) (by decide +kernel)⟩

/-- A frame of the superseded session is accepted 9998 ms after its deadline, no purge having come in
between. -/
theorem superseded_accepted_after_deadline :
    let s := (run clearPrimitives (.sample 1) sampleRekey).1
    s.mgr.sessionToPeer.find? 7 = none ∧ (s.mgr.retired.find? 7).map (·.expires) = some 10002 ∧
      (step clearPrimitives (.sample 1) s (20000, .decryptMessage (sampleFrame 7 10))).2
        = [.opened (sampleFrame 7 10) ⟨0x02, [0x68, 0x69]⟩] := by
  decide +kernel

end Interleaving

end Aegis
