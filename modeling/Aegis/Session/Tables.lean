import Aegis.Session.Transport

/-!
# The tables of the session manager

What each operation does to the lookups of the tables, and the invariant that ties the tables together: a
session id is active, retired or pending but never two of these, the id index and the session table are
inverse to each other, and no table outgrows its limit.
-/

namespace Aegis

namespace SessionManager

variable {H : Type} {cfg : SessionConfig} {mgr : SessionManager H} {now : Time} {peerId : NodeId}
  {sessionId : UInt32} {split : NoiseIkSplitResult} {local_ : Bool}

/-! ### Lookups after a session is retired or established -/

theorem find?_evictRetired {retired : SortedMap UInt32 RetiredSession} {id sid : UInt32} {r : RetiredSession}
    (h : (evictRetired cfg retired id).find? sid = some r) : retired.find? sid = some r := by
  unfold evictRetired at h
  split_ifs at h with hfull
  · cases hmin : retired.minElement? retiredBefore with
    | none => simpa only [hmin] using h
    | some victim =>
      rw [hmin] at h
      simp only [SortedMap.find?_erase] at h
      split_ifs at h
      exact h
  · exact h

theorem size_evictRetired_insert {retired : SortedMap UInt32 RetiredSession} {id : UInt32}
    (hpos : cfg.capacity.retired ≠ 0) (h : retired.size ≤ cfg.capacity.retired) (r : RetiredSession) :
    ((evictRetired cfg retired id).insert id r).size ≤ cfg.capacity.retired := by
  by_cases hcontains : retired.contains id = true
  · have hkeep : evictRetired cfg retired id = retired := by simp [evictRetired, hcontains]
    rw [hkeep]
    exact (SortedMap.size_insert_of_contains _ hcontains).trans h
  · have hinsert := SortedMap.size_insert_le (evictRetired cfg retired id) id r
    suffices (evictRetired cfg retired id).size < cfg.capacity.retired by omega
    by_cases hfull : cfg.capacity.retired ≤ retired.size
    · obtain ⟨⟨victim, v⟩, hvictim⟩ := SortedMap.minElement?_isSome retiredBefore (m := retired) (by omega)
      have hless := SortedMap.size_erase_lt (SortedMap.contains_of_find? (SortedMap.minElement?_mem hvictim))
      have hevict : evictRetired cfg retired id = retired.erase victim := by
        simp [evictRetired, hcontains, hfull, hvictim]
      rw [hevict]
      omega
    · have hkeep : evictRetired cfg retired id = retired := by simp [evictRetired, hfull]
      rw [hkeep]
      omega

theorem find?_retired_retire {session : SessionState} {sid : UInt32} {r : RetiredSession}
    (h : (mgr.retireSessionLocked cfg session now).retired.find? sid = some r) :
    (sid = session.id ∧ r = ⟨session, now + mgr.retiredGrace⟩) ∨
      (mgr.retired.find? sid = some r ∧ now < r.expires) := by
  have hpurged (hr : (mgr.purgeRetiredLocked now).retired.find? sid = some r) :
      mgr.retired.find? sid = some r ∧ now < r.expires := by
    simpa using SortedMap.find?_filter_eq_some_iff.mp hr
  unfold retireSessionLocked at h
  simp only at h
  split_ifs at h with hzero
  · exact Or.inr (hpurged h)
  · rcases SortedMap.find?_insert_eq_some_iff.mp h with hretired | ⟨-, h⟩
    · exact Or.inl hretired
    · exact Or.inr (hpurged (find?_evictRetired h))

theorem size_retired_retire {session : SessionState} (h : mgr.retired.size ≤ cfg.capacity.retired) :
    (mgr.retireSessionLocked cfg session now).retired.size ≤ cfg.capacity.retired := by
  have hpurged : (mgr.purgeRetiredLocked now).retired.size ≤ cfg.capacity.retired :=
    (SortedMap.size_filter_le _ _).trans h
  unfold retireSessionLocked
  simp only
  split_ifs with hzero
  · exact hpurged
  · exact size_evictRetired_insert hzero hpurged _

theorem retire_eq (session : SessionState) :
    mgr.retireSessionLocked cfg session now
      = { mgr with retired := (mgr.retireSessionLocked cfg session now).retired } := by
  unfold retireSessionLocked
  split_ifs <;> rfl

theorem supersede_of_some {old : SessionState} (h : mgr.findSessionLocked peerId = some old) :
    mgr.supersedeSession cfg now peerId
      = { mgr with
          retired := (mgr.retireSessionLocked cfg old now).retired
          sessionToPeer := mgr.sessionToPeer.erase old.id } := by
  obtain ⟨hfind, hold⟩ := Option.filter_eq_some_iff.mp h
  simp only [supersedeSession, hfind, hold, if_true]
  rw [retire_eq old]

theorem supersede_of_none (h : mgr.findSessionLocked peerId = none) : mgr.supersedeSession cfg now peerId = mgr := by
  unfold supersedeSession
  cases hfind : mgr.sessions.find? peerId with
  | none => rfl
  | some old =>
    have hold : old.established = false := by simpa [findSessionLocked, hfind] using h
    simp [hold]

/-- `establish` in one step: the superseded session leaves, a fresh one takes its place. -/
theorem establish_eq :
    mgr.establish cfg now peerId sessionId split local_
      = { mgr with
          sessions := mgr.sessions.insert peerId (.fresh peerId sessionId split local_ now)
          sessionToPeer := (mgr.supersedeSession cfg now peerId).sessionToPeer.insert sessionId peerId
          retired := (mgr.supersedeSession cfg now peerId).retired } := by
  have htwice (m : SortedMap NodeId SessionState) (s s' : SessionState) :
      (m.insert peerId s).insert peerId s' = m.insert peerId s' := by
    apply SortedMap.ext_find?
    intro p
    simp only [SortedMap.find?_insert]
    split_ifs <;> rfl
  have hother : mgr.supersedeSession cfg now peerId
      = { mgr with
          sessionToPeer := (mgr.supersedeSession cfg now peerId).sessionToPeer
          retired := (mgr.supersedeSession cfg now peerId).retired } := by
    cases hold : mgr.findSessionLocked peerId with
    | none => rw [supersede_of_none hold]
    | some old => rw [supersede_of_some hold]
  unfold establish createSession
  rw [hother]
  simp only [htwice]
  rfl

theorem find?_sessionToPeer_establish (sid : UInt32) :
    (mgr.establish cfg now peerId sessionId split local_).sessionToPeer.find? sid
      = if sid = sessionId then some peerId
        else if (mgr.findSessionLocked peerId).any (fun old => decide (old.id = sid)) then none
        else mgr.sessionToPeer.find? sid := by
  rw [establish_eq]
  cases hold : mgr.findSessionLocked peerId with
  | none => simp [supersede_of_none hold]
  | some old => simp [supersede_of_some hold, eq_comm (a := old.id)]

theorem find?_retired_establish_purged {sid : UInt32} {r : RetiredSession}
    (h : (mgr.establish cfg now peerId sessionId split local_).retired.find? sid = some r) :
    (∃ old, mgr.findSessionLocked peerId = some old ∧ sid = old.id ∧ r = ⟨old, now + mgr.retiredGrace⟩) ∨
      (mgr.retired.find? sid = some r ∧ ∀ old, mgr.findSessionLocked peerId = some old → now < r.expires) := by
  rw [establish_eq] at h
  cases hold : mgr.findSessionLocked peerId with
  | none =>
    rw [supersede_of_none hold] at h
    exact Or.inr ⟨h, by simp⟩
  | some old =>
    rw [supersede_of_some hold] at h
    rcases find?_retired_retire h with ⟨hsid, hr⟩ | ⟨hr, hnow⟩
    · exact Or.inl ⟨old, rfl, hsid, hr⟩
    · exact Or.inr ⟨hr, fun _ _ => hnow⟩

theorem find?_retired_establish {sid : UInt32} {r : RetiredSession}
    (h : (mgr.establish cfg now peerId sessionId split local_).retired.find? sid = some r) :
    (∃ old, mgr.findSessionLocked peerId = some old ∧ sid = old.id ∧ r = ⟨old, now + mgr.retiredGrace⟩) ∨
      mgr.retired.find? sid = some r :=
  (find?_retired_establish_purged h).imp_right And.left

theorem size_retired_establish (h : mgr.retired.size ≤ cfg.capacity.retired) :
    (mgr.establish cfg now peerId sessionId split local_).retired.size ≤ cfg.capacity.retired := by
  rw [establish_eq]
  cases hold : mgr.findSessionLocked peerId with
  | none => simpa [supersede_of_none hold] using h
  | some old => simpa [supersede_of_some hold] using size_retired_retire h

@[simp] theorem sessions_establish :
    (mgr.establish cfg now peerId sessionId split local_).sessions
      = mgr.sessions.insert peerId (.fresh peerId sessionId split local_ now) := by
  rw [establish_eq]

@[simp] theorem pendingInitiators_establish :
    (mgr.establish cfg now peerId sessionId split local_).pendingInitiators = mgr.pendingInitiators := by
  rw [establish_eq]

@[simp] theorem handshakeReplays_establish :
    (mgr.establish cfg now peerId sessionId split local_).handshakeReplays = mgr.handshakeReplays := by
  rw [establish_eq]

/-! ### The invariant -/

/-- The tables belong together and stay within their limits. -/
structure TableInvariant (cfg : SessionConfig) (mgr : SessionManager H) : Prop where
  /-- Every entry of the id index leads to an active session with that id. -/
  indexed : ∀ sid p, mgr.sessionToPeer.find? sid = some p →
    ∃ s, mgr.sessions.find? p = some s ∧ s.id = sid
  /-- Every active session is established, with the peer it is filed under, and indexed by its id. -/
  active : ∀ p s, mgr.sessions.find? p = some s →
    s.established = true ∧ s.peerId = p ∧ mgr.sessionToPeer.find? s.id = some p
  /-- Every retired session is established and filed under its id. -/
  retired : ∀ sid r, mgr.retired.find? sid = some r → r.session.established = true ∧ r.session.id = sid
  active_retired : ∀ sid, mgr.sessionToPeer.contains sid = true → mgr.retired.contains sid = false
  active_pending : ∀ sid, mgr.sessionToPeer.contains sid = true → mgr.pendingInitiators.contains sid = false
  retired_pending : ∀ sid, mgr.retired.contains sid = true → mgr.pendingInitiators.contains sid = false
  activeLimit : mgr.sessions.size ≤ cfg.capacity.active
  retiredLimit : mgr.retired.size ≤ cfg.capacity.retired
  pendingLimit : mgr.pendingInitiators.size ≤ cfg.capacity.pending

theorem tableInvariant_empty : TableInvariant cfg ({} : SessionManager H) := by
  constructor <;> intros <;> simp_all [SortedMap.contains]

namespace TableInvariant

section

variable (h : TableInvariant cfg mgr)
include h

theorem findSessionLocked (p : NodeId) : mgr.findSessionLocked p = mgr.sessions.find? p := by
  unfold SessionManager.findSessionLocked
  cases hfind : mgr.sessions.find? p with
  | none => rfl
  | some s => simp [(h.active p s hfind).1]

theorem shrink {mgr' : SessionManager H} (hsessions : mgr'.sessions = mgr.sessions)
    (hindex : mgr'.sessionToPeer = mgr.sessionToPeer) (hretired : mgr'.retired ⊆ mgr.retired)
    (hpending : mgr'.pendingInitiators ⊆ mgr.pendingInitiators) : TableInvariant cfg mgr' := by
  have hp {sid} (hc : mgr.pendingInitiators.contains sid = false) :
      mgr'.pendingInitiators.contains sid = false := by
    rw [Bool.eq_false_iff] at hc ⊢
    exact fun hc' => hc (SortedMap.contains_of_subset hpending hc')
  constructor
  · rw [hindex, hsessions]
    exact h.indexed
  · rw [hindex, hsessions]
    exact h.active
  · exact fun sid r hfind => h.retired sid r (SortedMap.find?_of_subset hretired hfind)
  · intro sid hc
    rw [Bool.eq_false_iff]
    intro hc'
    exact absurd (SortedMap.contains_of_subset hretired hc') (by simp [h.active_retired sid (hindex ▸ hc)])
  · exact fun sid hc => hp (h.active_pending sid (hindex ▸ hc))
  · exact fun sid hc => hp (h.retired_pending sid (SortedMap.contains_of_subset hretired hc))
  · exact hsessions ▸ h.activeLimit
  · exact (SortedMap.size_le_of_subset hretired).trans h.retiredLimit
  · exact (SortedMap.size_le_of_subset hpending).trans h.pendingLimit

theorem purgeIncomplete (now : Time) : TableInvariant cfg (mgr.purgeIncompleteHandshakesLocked now) :=
  h.shrink rfl rfl (SortedMap.subset_refl _) (SortedMap.filter_subset _ _)

theorem insertPending (huse : mgr.sessionIdInUse sessionId = false)
    (hroom : mgr.pendingInitiators.size < cfg.capacity.pending) (pending : PendingInitiator H) :
    TableInvariant cfg { mgr with pendingInitiators := mgr.pendingInitiators.insert sessionId pending } := by
  simp only [sessionIdInUse, Bool.or_eq_false_iff] at huse
  obtain ⟨⟨hactive, hretired⟩, -⟩ := huse
  refine ⟨h.indexed, h.active, h.retired, h.active_retired, ?_, ?_, h.activeLimit, h.retiredLimit, ?_⟩
  · intro sid hc
    have hne : sid ≠ sessionId := by
      rintro rfl
      rw [hactive] at hc
      exact absurd hc (by simp)
    simp [hne, h.active_pending sid hc]
  · intro sid hc
    have hne : sid ≠ sessionId := by
      rintro rfl
      rw [hretired] at hc
      exact absurd hc (by simp)
    simp [hne, h.retired_pending sid hc]
  · exact (SortedMap.size_insert_le _ _ _).trans hroom

theorem peer_unique {p p' : NodeId} {s s' : SessionState}
    (hs : mgr.sessions.find? p = some s) (hs' : mgr.sessions.find? p' = some s') (hid : s.id = s'.id) : p = p' := by
  have hp := (h.active p s hs).2.2
  rw [hid, (h.active p' s' hs').2.2] at hp
  exact (Option.some.inj hp).symm

theorem find?_of_establish {sid : UInt32} {p : NodeId} (hne : sid ≠ sessionId)
    (hfind : (mgr.establish cfg now peerId sessionId split local_).sessionToPeer.find? sid = some p) :
    mgr.sessionToPeer.find? sid = some p ∧ p ≠ peerId := by
  rw [find?_sessionToPeer_establish, if_neg hne] at hfind
  split_ifs at hfind with hold
  refine ⟨hfind, ?_⟩
  rintro rfl
  obtain ⟨s, hs, hid⟩ := h.indexed sid p hfind
  rw [h.findSessionLocked, hs] at hold
  simp [hid] at hold

theorem find?_establish {p : NodeId} {s : SessionState}
    (hs : mgr.sessions.find? p = some s) (hp : p ≠ peerId) (hne : s.id ≠ sessionId) :
    (mgr.establish cfg now peerId sessionId split local_).sessionToPeer.find? s.id = some p := by
  rw [find?_sessionToPeer_establish, if_neg hne, if_neg, (h.active p s hs).2.2]
  rw [h.findSessionLocked]
  cases hold : mgr.sessions.find? peerId with
  | none => simp
  | some old =>
    simp only [Option.any_some, decide_eq_true_eq]
    exact fun hid => hp (h.peer_unique hs hold hid.symm)

theorem contains_of_establish {sid : UInt32}
    (hc : (mgr.establish cfg now peerId sessionId split local_).retired.contains sid = true) :
    mgr.retired.contains sid = true ∨ mgr.sessionToPeer.find? sid = some peerId := by
  obtain ⟨r, hr⟩ := SortedMap.contains_iff.mp hc
  rcases find?_retired_establish hr with ⟨old, hold, rfl, -⟩ | hr
  · exact Or.inr (h.active peerId old (h.findSessionLocked peerId ▸ hold)).2.2
  · exact Or.inl (SortedMap.contains_of_find? hr)

theorem establish (huse : mgr.sessionIdInUse sessionId = false)
    (hroom : mgr.sessions.contains peerId = true ∨ mgr.sessions.size < cfg.capacity.active) :
    TableInvariant cfg (mgr.establish cfg now peerId sessionId split local_) := by
  simp only [sessionIdInUse, Bool.or_eq_false_iff] at huse
  obtain ⟨⟨hactive, hretired⟩, hpending⟩ := huse
  have hactive' := SortedMap.contains_eq_false_iff.mp hactive
  constructor
  · intro sid p hfind
    by_cases hsid : sid = sessionId
    · subst hsid
      rw [find?_sessionToPeer_establish, if_pos rfl] at hfind
      obtain rfl := Option.some.inj hfind
      exact ⟨.fresh peerId sid split local_ now, by simp, rfl⟩
    · obtain ⟨hfind, hne⟩ := h.find?_of_establish hsid hfind
      obtain ⟨s, hs, hid⟩ := h.indexed sid p hfind
      exact ⟨s, by simp [hne, hs], hid⟩
  · intro p s hfind
    rw [sessions_establish] at hfind
    rcases SortedMap.find?_insert_eq_some_iff.mp hfind with ⟨rfl, rfl⟩ | ⟨hp, hfind⟩
    · exact ⟨rfl, rfl, by rw [find?_sessionToPeer_establish]; exact if_pos rfl⟩
    · obtain ⟨hestablished, hpeer, hid⟩ := h.active p s hfind
      have hne : s.id ≠ sessionId := by
        intro heq
        rw [heq, hactive'] at hid
        exact absurd hid (by simp)
      exact ⟨hestablished, hpeer, h.find?_establish hfind hp hne⟩
  · intro sid r hfind
    rcases find?_retired_establish hfind with ⟨old, hold, rfl, rfl⟩ | hr
    · exact ⟨(Option.filter_eq_some_iff.mp hold).2, rfl⟩
    · exact h.retired sid r hr
  · intro sid hc
    rw [Bool.eq_false_iff]
    intro hc'
    by_cases hsid : sid = sessionId
    · subst hsid
      rcases h.contains_of_establish hc' with hr | hindex
      · exact absurd (hretired.symm.trans hr) (by simp)
      · exact absurd (hactive'.symm.trans hindex) (by simp)
    · obtain ⟨p, hp⟩ := SortedMap.contains_iff.mp hc
      obtain ⟨hp, hne⟩ := h.find?_of_establish hsid hp
      rcases h.contains_of_establish hc' with hr | hindex
      · exact absurd ((h.active_retired sid (SortedMap.contains_of_find? hp)).symm.trans hr) (by simp)
      · exact hne (Option.some.inj (hp.symm.trans hindex))
  · intro sid hc
    rw [pendingInitiators_establish]
    by_cases hsid : sid = sessionId
    · exact hsid ▸ hpending
    · obtain ⟨p, hp⟩ := SortedMap.contains_iff.mp hc
      exact h.active_pending sid (SortedMap.contains_of_find? (h.find?_of_establish hsid hp).1)
  · intro sid hc
    rw [pendingInitiators_establish]
    rcases h.contains_of_establish hc with hr | hindex
    · exact h.retired_pending sid hr
    · exact h.active_pending sid (SortedMap.contains_of_find? hindex)
  · rw [sessions_establish]
    rcases hroom with hcontains | hroom
    · exact (SortedMap.size_insert_of_contains _ hcontains).trans h.activeLimit
    · exact (SortedMap.size_insert_le _ _ _).trans hroom
  · exact size_retired_establish h.retiredLimit
  · rw [pendingInitiators_establish]
    exact h.pendingLimit

theorem replaceActive {session session' : SessionState}
    (hfind : mgr.sessions.find? peerId = some session) (hid : session'.id = session.id)
    (hpeer : session'.peerId = session.peerId) (hestablished : session'.established = session.established) :
    TableInvariant cfg { mgr with sessions := mgr.sessions.insert peerId session' } := by
  refine ⟨?_, ?_, h.retired, h.active_retired, h.active_pending, h.retired_pending, ?_, h.retiredLimit,
    h.pendingLimit⟩
  · intro sid p hindex
    obtain ⟨s, hs, hsid⟩ := h.indexed sid p hindex
    by_cases hp : p = peerId
    · subst hp
      rw [hfind] at hs
      obtain rfl := Option.some.inj hs
      exact ⟨session', by simp, hid.trans hsid⟩
    · exact ⟨s, by simpa [hp] using hs, hsid⟩
  · intro p s hs
    rcases SortedMap.find?_insert_eq_some_iff.mp hs with ⟨rfl, rfl⟩ | ⟨-, hs⟩
    · rw [hid, hpeer, hestablished]
      exact h.active _ session hfind
    · exact h.active p s hs
  · exact (SortedMap.size_insert_of_contains _ (SortedMap.contains_of_find? hfind)).trans h.activeLimit

theorem replaceRetired {r r' : RetiredSession}
    (hfind : mgr.retired.find? sessionId = some r) (hid : r'.session.id = r.session.id)
    (hestablished : r'.session.established = r.session.established) :
    TableInvariant cfg { mgr with retired := mgr.retired.insert sessionId r' } := by
  have hsame (sid : UInt32) : (mgr.retired.insert sessionId r').contains sid = mgr.retired.contains sid := by
    rw [SortedMap.contains_insert]
    by_cases hsid : sid = sessionId
    · simp [hsid, SortedMap.contains_of_find? hfind]
    · simp [hsid]
  refine ⟨h.indexed, h.active, ?_, ?_, h.active_pending, ?_, h.activeLimit, ?_, h.pendingLimit⟩
  · intro sid s hs
    rcases SortedMap.find?_insert_eq_some_iff.mp hs with ⟨rfl, rfl⟩ | ⟨-, hs⟩
    · rw [hid, hestablished]
      exact h.retired _ r hfind
    · exact h.retired sid s hs
  · exact fun sid hc => (hsame sid).trans (h.active_retired sid hc)
  · exact fun sid hc => h.retired_pending sid ((hsame sid).symm.trans hc)
  · exact (SortedMap.size_insert_of_contains _ (SortedMap.contains_of_find? hfind)).trans h.retiredLimit

theorem storeSessionById {session session' : SessionState}
    (hfind : mgr.findSessionByIdLocked sessionId = some session) (hid : session'.id = session.id)
    (hpeer : session'.peerId = session.peerId) (hestablished : session'.established = session.established) :
    TableInvariant cfg (mgr.storeSessionById sessionId session') := by
  unfold findSessionByIdLocked at hfind
  unfold SessionManager.storeSessionById
  cases hindex : mgr.sessionToPeer.find? sessionId with
  | some p =>
    simp only [hindex, h.findSessionLocked] at hfind
    exact h.replaceActive hfind hid hpeer hestablished
  | none =>
    cases hretired : mgr.retired.find? sessionId with
    | none => exact h
    | some r =>
      simp only [hindex, hretired, Option.map_some] at hfind
      obtain rfl := Option.some.inj (Option.filter_eq_some_iff.mp hfind).1
      exact h.replaceRetired hretired hid hestablished

theorem removeSession (peerId : NodeId) : TableInvariant cfg (mgr.removeSession peerId) := by
  unfold SessionManager.removeSession
  cases hfind : mgr.sessions.find? peerId with
  | none => exact h.shrink rfl rfl (SortedMap.filter_subset _ _) (SortedMap.filter_subset _ _)
  | some session =>
    -- the peer's session leaves both tables, then the other two shrink
    have hindex := (h.active peerId session hfind).2.2
    have hgone : TableInvariant cfg
        { mgr with
          sessions := mgr.sessions.erase peerId, sessionToPeer := mgr.sessionToPeer.erase session.id } := by
      refine ⟨?_, ?_, h.retired, ?_, ?_, h.retired_pending, ?_, h.retiredLimit, h.pendingLimit⟩
      · intro sid p hp
        simp only [SortedMap.find?_erase] at hp
        split_ifs at hp with hsid
        obtain ⟨s, hs, hid⟩ := h.indexed sid p hp
        have hne : p ≠ peerId := by
          rintro rfl
          rw [hfind] at hs
          exact hsid (hid ▸ congrArg SessionState.id (Option.some.inj hs).symm)
        exact ⟨s, by simpa [hne] using hs, hid⟩
      · intro p s hs
        simp only [SortedMap.find?_erase] at hs
        split_ifs at hs with hp
        obtain ⟨hestablished, hpeer, hid⟩ := h.active p s hs
        have hne : s.id ≠ session.id := by
          intro heq
          rw [heq, hindex] at hid
          exact hp (Option.some.inj hid).symm
        exact ⟨hestablished, hpeer, by simpa [hne] using hid⟩
      · exact fun sid hc => h.active_retired sid (SortedMap.contains_of_subset (SortedMap.erase_subset _ _) hc)
      · exact fun sid hc => h.active_pending sid (SortedMap.contains_of_subset (SortedMap.erase_subset _ _) hc)
      · exact (SortedMap.size_erase_le _ _).trans h.activeLimit
    refine hgone.shrink rfl rfl ?_ (SortedMap.filter_subset _ _)
    exact SortedMap.subset_trans (SortedMap.filter_subset _ _) (SortedMap.erase_subset _ _)

theorem encryptMessage (P : Primitives H) (peerId : NodeId)
    (packetType : UInt8) (plaintext : List UInt8) (flags : UInt8) (entropy : Entropy) :
    TableInvariant cfg (mgr.encryptMessage P cfg peerId packetType plaintext flags entropy).1 := by
  rcases encryptMessage_cases P cfg mgr peerId packetType plaintext flags entropy with
    ⟨-, hsame⟩ | ⟨session, payload, -, hfind, hresult⟩
  · rw [hsame]
    exact h
  · rw [hresult]
    rw [h.findSessionLocked] at hfind
    exact h.replaceActive hfind rfl rfl rfl

theorem decryptMessage (P : Primitives H) (data : List UInt8) : TableInvariant cfg (mgr.decryptMessage P data).1 := by
  rcases decryptMessage_cases P mgr data with hsame | ⟨header, session, -, hfind, -, -, hresult⟩
  · rw [hsame]
    exact h
  · rw [hresult]
    exact h.storeSessionById hfind (by simp) (by simp) (by simp)

theorem createHandshakeInit (P : Primitives H) (now : Time)
    (sessionId : UInt32) (peerId : NodeId) (peerStatic : X25519Key) (entropy : Entropy) :
    TableInvariant cfg (mgr.createHandshakeInit P cfg now sessionId peerId peerStatic entropy).1 := by
  rcases createHandshakeInit_cases P cfg mgr now sessionId peerId peerStatic entropy with
    hresult | hresult | ⟨encoded, handshake, -, huse, hroom, hresult⟩
  · exact hresult ▸ h
  · exact hresult ▸ h.purgeIncomplete now
  · exact hresult ▸ (h.purgeIncomplete now).insertPending huse hroom _

theorem purgeInits (now : Time) : TableInvariant cfg (mgr.purgeInits now) :=
  h.shrink rfl rfl (SortedMap.subset_refl _) (SortedMap.filter_subset _ _)

theorem initCheck (P : Primitives H) (now : Time) (message : List UInt8) (outerSessionId : UInt32) (entropy : Entropy) :
    TableInvariant cfg (mgr.initCheck P cfg now message outerSessionId entropy).1 := by
  rcases initCheck_cases P cfg mgr now message outerSessionId entropy with
    hresult | hresult | ⟨frame, replayKey, -, -, -, hresult⟩
  · exact hresult ▸ h
  · exact hresult ▸ h.purgeInits now
  · exact hresult ▸ h.purgeInits now

theorem dropPendingTo (peerId : NodeId) : TableInvariant cfg (mgr.dropPendingTo peerId) := by
  unfold SessionManager.dropPendingTo
  cases mgr.pendingTo? peerId with
  | none => exact h
  | some pending => exact h.shrink rfl rfl (SortedMap.subset_refl _) (SortedMap.erase_subset _ _)

theorem initAdmit (now : Time) (init : VerifiedInit H) : TableInvariant cfg (mgr.initAdmit cfg now init).1 := by
  have hrecorded : TableInvariant cfg ((mgr.purgeInits now).recordReplay now init.replayKey) :=
    (h.purgeInits now).shrink rfl rfl (SortedMap.subset_refl _) (SortedMap.subset_refl _)
  rcases initAdmit_cases cfg mgr now init with ⟨-, hresult⟩ | ⟨-, -, -, hresult⟩ | ⟨-, -, hresult⟩
  · exact hresult ▸ h.purgeInits now
  · exact hresult ▸ hrecorded
  · exact hresult ▸ hrecorded.dropPendingTo init.peerId

end

theorem hasRoomFor_iff : mgr.hasRoomFor cfg peerId = true ↔
    mgr.sessions.contains peerId = true ∨ mgr.sessions.size < cfg.capacity.active := by
  simp [SessionManager.hasRoomFor]

theorem initInstall (h : TableInvariant cfg mgr) (P : Primitives H) (now : Time) (init : VerifiedInit H) :
    TableInvariant cfg (mgr.initInstall P cfg now init).1 := by
  rcases initInstall_cases P cfg mgr now init with hresult | hresult | ⟨encoded, split, -, huse, hroom, hresult⟩
  · exact hresult ▸ h
  · exact hresult ▸ h.purgeIncomplete now
  · exact hresult ▸ (h.purgeIncomplete now).establish huse (hasRoomFor_iff.mp hroom)

theorem erasePending_purge (h : TableInvariant cfg mgr) (now : Time) (sessionId : UInt32) :
    TableInvariant cfg ((mgr.purgeIncompleteHandshakesLocked now).erasePending sessionId) :=
  (h.purgeIncomplete now).shrink rfl rfl (SortedMap.subset_refl _) (SortedMap.erase_subset _ _)

theorem not_inUse_erasePending (h : TableInvariant cfg mgr) {state : PendingInitiator H}
    (hpending : (mgr.purgeIncompleteHandshakesLocked now).pendingInitiators.find? sessionId = some state) :
    ((mgr.purgeIncompleteHandshakesLocked now).erasePending sessionId).sessionIdInUse sessionId = false := by
  have hcontains := SortedMap.contains_of_find? hpending
  have hactive : mgr.sessionToPeer.contains sessionId = false := by
    rw [Bool.eq_false_iff]
    intro hc
    simp [(h.purgeIncomplete now).active_pending sessionId hc] at hcontains
  have hretired : mgr.retired.contains sessionId = false := by
    rw [Bool.eq_false_iff]
    intro hc
    simp [(h.purgeIncomplete now).retired_pending sessionId hc] at hcontains
  simp [sessionIdInUse, SessionManager.erasePending, purgeIncompleteHandshakesLocked, hactive, hretired]

theorem handleHandshakeResp (h : TableInvariant cfg mgr) (P : Primitives H) (now : Time)
    (message : List UInt8) (sessionId : UInt32) :
    TableInvariant cfg (mgr.handleHandshakeResp P cfg now message sessionId).1 := by
  rcases handleHandshakeResp_cases P cfg mgr now message sessionId with
    hresult | hresult | ⟨state, frame, split, hpending, -, -, -, -, hroom, hresult⟩
  · exact hresult ▸ h.purgeIncomplete now
  · exact hresult ▸ h.erasePending_purge now sessionId
  · exact hresult ▸ (h.erasePending_purge now sessionId).establish (h.not_inUse_erasePending hpending)
      (hasRoomFor_iff.mp hroom)

end TableInvariant

end SessionManager

end Aegis
