import Aegis.Session.PairSteps

/-!
# Runs of the pair

Whole runs of two managers, from a state in which no handshake is under way. Along careful runs the two
sides have the same active session whenever nothing is in flight, so each can decrypt what the other sends
(`careful_decryptable`); along orderly runs every step is careful (`orderly_agreement`). Without the
conditions a rekey strands the pair (`lost_resp_strands`): the responder encrypts under the new session as
soon as it has answered, its answer may be lost, and it refuses the retransmitted INIT.
-/

namespace Aegis

/-- The manager can decrypt frames of this session: it is active, or retired and not past its expiry. -/
def SessionManager.canDecryptWith {H : Type} (mgr : SessionManager H) (now : Time) (sessionId : UInt32) : Bool :=
  mgr.sessionToPeer.contains sessionId || (mgr.retired.find? sessionId).any fun retired => now < retired.expires

variable {H : Type} {P : Primitives H} (ends : Ends P)

namespace Pair

/-- The session the side encrypts under. -/
def session (s : Pair H) (side : Side) : Option SessionState :=
  (s.mgr side).findSessionLocked (ends.nodeId side.other)

/-- No handshake is under way between the sides. -/
structure Idle (s : Pair H) : Prop where
  tables : ∀ side, SessionManager.TableInvariant (ends.config side) (s.mgr side)
  pending : ∀ side, (s.mgr side).pendingTo? (ends.nodeId side.other) = none
  sent : ∀ side, ∀ init ∈ (s.party side).sent, (s.mgr side).pendingInitiators.contains init.1 = false
  quiet : s.Quiet

/-- Both sides hold the session of one completed handshake, which one of them initiated. -/
def Shared (s : Pair H) : Prop :=
  ∃ sid locally,
    (s.session ends .lower).map (fun session => (session.id, session.initiatedLocally)) = some (sid, locally) ∧
    (s.session ends .higher).map (fun session => (session.id, session.initiatedLocally)) = some (sid, !locally)

variable {ends} {s : Pair H} {actions : List PairAction}

theorem abstract_active (htables : ∀ side, SessionManager.TableInvariant (ends.config side) (s.mgr side))
    (side : Side) : (s.abstract ends).active side =
      (s.session ends side).map fun session => (session.id, session.initiatedLocally) := by
  show ends.active side (s.mgr side) = _
  rw [session, (htables side).findSessionLocked]
  rfl

theorem Idle.inv (h : s.Idle ends)
    (hroom : ∀ side, (s.mgr side).hasRoomFor (ends.config side) (ends.nodeId side.other) = true) : s.Inv ends := by
  refine ⟨h.tables, hroom, fun side sid sid' state state' hfind _ hpeer => ?_, ?_, ?_, ?_⟩
  · have hnone : ends.pending side (s.mgr side) = none := by rw [Ends.pending, h.pending side, Option.map_none]
    exact absurd hpeer (Ends.pending_eq_none_iff.mp hnone sid state hfind)
  · simp [h.quiet.1]
  · simp [h.quiet.2]
  · intro side sid message hsent hcontains
    exact absurd hcontains (by simp [h.sent side _ hsent])

theorem Idle.abstract (h : s.Idle ends) (side : Side) :
    (s.abstract ends).pending side = none ∧ (s.abstract ends).answering side = none ∧
      (s.abstract ends).inits side = 0 ∧ (s.abstract ends).responses side = 0 := by
  have hpending : ends.pending side (s.mgr side) = none := by rw [Ends.pending, h.pending side, Option.map_none]
  refine ⟨hpending, ?_⟩
  simp [Pair.abstract, h.quiet.1, h.quiet.2, admittedId, verifiedId, inFlight]

theorem Idle.coherent (h : s.Idle ends) (hagreed : (s.abstract ends).Agreed) : (s.abstract ends).Coherent := by
  have hnone (side : Side) (id : UInt32) : ¬ (s.abstract ends).Awaits side id := by
    simp [Handshakes.Awaits, h.abstract side]
  refine ⟨.settled (h.abstract .higher).2.1 (hnone .lower) (hnone .higher) hagreed, fun id hid => ?_⟩
  rw [(h.abstract .lower).2.1] at hid
  exact absurd hid (by simp)

theorem Idle.timely (h : s.Idle ends) : (s.abstract ends).Timely := by
  have hinits (side : Side) : (s.abstract ends).inits side = 0 := (h.abstract side).2.2.1
  constructor <;> simp [hinits]

theorem Shared.agreed (htables : ∀ side, SessionManager.TableInvariant (ends.config side) (s.mgr side))
    (h : s.Shared ends) : (s.abstract ends).Agreed := by
  obtain ⟨sid, locally, hlower, hhigher⟩ := h
  exact Or.inr ⟨sid, locally, (abstract_active htables .lower).trans hlower,
    (abstract_active htables .higher).trans hhigher⟩

/-! ### Careful runs -/

/-- The run lemma: careful runs keep the invariant and the coherence of the abstract protocol. -/
theorem careful_run (hinv : s.Inv ends) (hcoherent : (s.abstract ends).Coherent)
    (hrun : Run.Along (step P ends) (Careful ends) s actions) :
    (actions.foldl (step P ends) s).Inv ends ∧ ((actions.foldl (step P ends) s).abstract ends).Coherent := by
  refine Run.Along.invariant (fun s => s.Inv ends ∧ (s.abstract ends).Coherent) ?_ ⟨hinv, hcoherent⟩ hrun
  rintro s action ⟨hinv, hcoherent⟩ hcareful
  obtain ⟨hinv', moves, hmoves, hallowed, -⟩ := sim_step hinv hcareful
  refine ⟨hinv', hmoves ▸ ?_⟩
  exact Run.Along.invariant Handshakes.Coherent (fun _ _ h hok => h.move hok) hcoherent hallowed

theorem Quiet.agreed (h : s.Quiet) (hcoherent : (s.abstract ends).Coherent) : (s.abstract ends).Agreed := by
  refine hcoherent.agreed ?_ ?_ ?_ <;> simp [Pair.abstract, h.1, h.2, admittedId, inFlight]

theorem session_id_of_agreed (htables : ∀ side, SessionManager.TableInvariant (ends.config side) (s.mgr side))
    (h : (s.abstract ends).Agreed) :
    (∀ side, s.session ends side = none) ∨ ∃ sid, ∀ side, (s.session ends side).map (·.id) = some sid := by
  rcases h with ⟨hlower, hhigher⟩ | ⟨sid, locally, hlower, hhigher⟩
  · rw [abstract_active htables, Option.map_eq_none_iff] at hlower hhigher
    exact Or.inl fun side => by cases side <;> assumption
  · rw [abstract_active htables] at hlower hhigher
    obtain ⟨lower, hlower, heq⟩ := Option.map_eq_some_iff.mp hlower
    obtain ⟨higher, hhigher, heq'⟩ := Option.map_eq_some_iff.mp hhigher
    simp only [Prod.mk.injEq] at heq heq'
    refine Or.inr ⟨sid, fun side => ?_⟩
    cases side with
    | lower => rw [hlower, Option.map_some, heq.1]
    | higher => rw [hhigher, Option.map_some, heq'.1]

/-! ### A sample pair -/

def sampleEnds : Ends clearPrimitives where
  publicKey := id
  config
    | .lower => .sample 1
    | .higher => .sample 2
  complete := clearNoise_complete
  identified side := by cases side <;> rfl
  ordered := by decide

/-- Random bytes that depend on the session id. -/
def sampleRandom (sessionId : UInt32) : Entropy := some fun i => UInt8.ofNat (sessionId.toNat + i)

/-- The lower side initiates and nothing goes wrong. -/
def sampleHandshake (now : Time) (sessionId : UInt32) : List PairAction :=
  [.initiate .lower now sessionId (sampleRandom sessionId), .deliver 0 now (sampleRandom 0),
    .admission .higher now, .install .higher now, .deliver 0 now (sampleRandom 0)]

/-- A pair that has completed its first handshake. -/
def samplePair : Pair ClearHandshake := (sampleHandshake 0 7).foldl (step clearPrimitives sampleEnds) {}

theorem idle_empty : Idle sampleEnds ({} : Pair ClearHandshake) :=
  ⟨fun _ => SessionManager.tableInvariant_empty, by decide, by decide, by decide⟩

theorem idle_samplePair : samplePair.Idle sampleEnds := by
  have hagreed : (abstract sampleEnds ({} : Pair ClearHandshake)).Agreed := Or.inl ⟨rfl, rfl⟩
  have hrun : Run.Along (step clearPrimitives sampleEnds) (Careful sampleEnds) {} (sampleHandshake 0 7) := by
    decide +kernel
  have hinv := (careful_run (idle_empty.inv (by decide)) (idle_empty.coherent hagreed) hrun).1
  exact ⟨hinv.tables, by decide +kernel, by decide +kernel, by decide +kernel⟩

theorem shared_samplePair : samplePair.Shared sampleEnds :=
  ⟨7, true, by decide +kernel, by decide +kernel⟩

/-! ### Careful runs keep the pair together -/

theorem hasRoomFor_of_session {side : Side} {session : SessionState} (h : s.session ends side = some session) :
    (s.mgr side).hasRoomFor (ends.config side) (ends.nodeId side.other) = true := by
  have hfind := (Option.filter_eq_some_iff.mp h).1
  simp [SessionManager.hasRoomFor, SortedMap.contains_of_find? hfind]

theorem canDecryptWith_of_session {side : Side} {session : SessionState}
    (htables : SessionManager.TableInvariant (ends.config side) (s.mgr side))
    (h : s.session ends side = some session) (now : Time) : (s.mgr side).canDecryptWith now session.id = true := by
  have hindex := (htables.active _ session (Option.filter_eq_some_iff.mp h).1).2.2
  simp [SessionManager.canDecryptWith, SortedMap.contains_of_find? hindex]

/-- A careful run never strands the pair: whenever it is quiet, each side can decrypt with the session the
other side encrypts under. -/
theorem careful_decryptable (hidle : s.Idle ends) (hshared : s.Shared ends)
    (hrun : Run.Along (step P ends) (Careful ends) s actions)
    (hquiet : (actions.foldl (step P ends) s).Quiet) :
    ∀ side now session, (actions.foldl (step P ends) s).session ends side = some session →
      ((actions.foldl (step P ends) s).mgr side.other).canDecryptWith now session.id = true := by
  intro side now session hsession
  have hroom : ∀ side, (s.mgr side).hasRoomFor (ends.config side) (ends.nodeId side.other) = true := by
    obtain ⟨sid, locally, hlower, hhigher⟩ := hshared
    obtain ⟨lower, hlower, -⟩ := Option.map_eq_some_iff.mp hlower
    obtain ⟨higher, hhigher, -⟩ := Option.map_eq_some_iff.mp hhigher
    intro side
    cases side with
    | lower => exact hasRoomFor_of_session hlower
    | higher => exact hasRoomFor_of_session hhigher
  obtain ⟨hinv, hcoherent⟩ := careful_run (hidle.inv hroom) (hidle.coherent (hshared.agreed hidle.tables)) hrun
  rcases session_id_of_agreed hinv.tables (hquiet.agreed hcoherent) with hnone | ⟨sid, hsame⟩
  · rw [hnone side] at hsession
    exact absurd hsession (by simp)
  · obtain ⟨other, hother, hid⟩ := Option.map_eq_some_iff.mp (hsame side.other)
    have hid' : session.id = sid := by simpa [hsession] using hsame side
    rw [hid', ← hid]
    exact canDecryptWith_of_session (hinv.tables side.other) hother now

/-- A rekey whose INIT is duplicated, and whose copy arrives while the first one is being answered. -/
theorem careful_decryptable_rekey :
    let actions : List PairAction :=
      [.initiate .lower 1 8 (sampleRandom 8), .duplicate 0, .deliver 0 1 (sampleRandom 0), .admission .higher 1,
        .install .higher 1, .retransmit .lower, .deliver 2 2 (sampleRandom 0), .deliver 0 2 (sampleRandom 0),
        .deliver 0 3 (sampleRandom 0)]
    let last := actions.foldl (step clearPrimitives sampleEnds) samplePair
    (last.session sampleEnds .lower).map (·.id) = some 8 ∧
      ∀ side now session, last.session sampleEnds side = some session →
        (last.mgr side.other).canDecryptWith now session.id = true :=
  ⟨by decide +kernel,
    careful_decryptable idle_samplePair shared_samplePair (by decide +kernel) (by decide +kernel)⟩

/-- The RESP of a rekey is lost. The responder refuses the retransmitted INIT, so with nothing in flight it
encrypts under a session the initiator does not have. -/
theorem lost_resp_strands :
    let actions : List PairAction :=
      [.initiate .lower 1 8 (sampleRandom 8), .deliver 0 1 (sampleRandom 0), .admission .higher 1,
        .install .higher 1, .lose 0, .retransmit .lower, .deliver 0 2 (sampleRandom 0)]
    let last := actions.foldl (step clearPrimitives sampleEnds) samplePair
    samplePair.Idle sampleEnds ∧ samplePair.Shared sampleEnds ∧ last.Quiet ∧
      (last.session sampleEnds .higher).map (·.id) = some 8 ∧
      ∀ now, (last.mgr .lower).canDecryptWith now 8 = false := by
  intro actions last
  refine ⟨idle_samplePair, shared_samplePair, by decide +kernel, by decide +kernel, fun now => ?_⟩
  have hactive : (last.mgr .lower).sessionToPeer.contains 8 = false := by decide +kernel
  have hretired : (last.mgr .lower).retired.find? 8 = none := by decide +kernel
  rw [SessionManager.canDecryptWith, hactive, hretired]
  rfl

/-! ### Orderly runs -/

theorem NoTimeout.pending {side : Side} {now : Time} {mgr' : SessionManager H} (h : s.NoTimeout ends side now)
    (hinv : s.Inv ends) (hpurged : Purged now (s.mgr side) mgr') :
    ends.pending side mgr' = (s.abstract ends).pending side := by
  obtain ⟨hsingle, hpending⟩ := Ends.pending_of_sub (hinv.single side) hpurged.find?
  rcases hbefore : (s.abstract ends).pending side with _ | sid
  · exact hpending.elim (fun hsame => hsame.trans hbefore) id
  · obtain ⟨state, hfind, hpeer⟩ := (Ends.pending_eq_some_iff (hinv.single side)).mp hbefore
    have hlive := h _ (SortedMap.find?_eq_some_iff.mp hfind) hpeer
    refine (Ends.pending_eq_some_iff hsingle).mpr ⟨state, ?_, hpeer⟩
    rw [hpurged.pending]
    exact SortedMap.find?_filter_eq_some_iff.mpr ⟨hfind, by simpa using hlive⟩

theorem NoTimeout.answeredInTime {side : Side} {now : Time} (h : s.NoTimeout ends side now) :
    s.AnsweredInTime ends side now :=
  fun entry hmem hpeer _ => h entry hmem hpeer

/-- The steps of an orderly run are careful: where INITs are not outdated, none is admitted late. -/
theorem careful_of_orderly (hinv : s.Inv ends) (htimely : (s.abstract ends).Timely) {action : PairAction}
    (h : s.Orderly ends action) : s.Careful ends action := by
  cases action with
  | initiate side now sid entropy =>
    obtain ⟨hno, hunused, hnone⟩ := h
    refine ⟨hno.answeredInTime, hunused, ?_⟩
    have hpending := hno.pending hinv (purged_purgeIncomplete (s.mgr side) now)
    have hbefore : (s.abstract ends).pending side = none := Option.map_eq_none_iff.mpr hnone
    exact Option.map_eq_none_iff.mp (hpending.trans hbefore)
  | retransmit side => exact h.elim
  | duplicate index => exact h.elim
  | lose index => exact h.elim
  | deliver index now entropy => exact fun packet hpacket => (h packet hpacket).answeredInTime
  | install side now => exact NoTimeout.answeredInTime h
  | purge side now => exact NoTimeout.answeredInTime h
  | admission side now =>
    have hno : s.NoTimeout ends side now := h
    refine ⟨hno.answeredInTime, fun call hcall hverified => ?_⟩
    obtain ⟨init, admitted⟩ := call
    obtain rfl : admitted = false := hverified
    obtain ⟨hpeer, -⟩ := hinv.calls side _ hcall
    change init.peerId = _ at hpeer
    have hmem : init.sessionId ∈ (s.abstract ends).inits side := by
      rw [(abstract_of_verified hcall).2]
      exact Multiset.mem_cons_self _ _
    rw [or_iff_not_imp_left, waitsFor_iff hinv]
    intro hrefuses
    cases side with
    | higher => exact htimely.higher _ hmem
    | lower =>
      simp only [refusesAdmission, hpeer, Bool.or_eq_true, Bool.and_eq_true, not_or, not_and,
        decide_eq_true_eq, Bool.not_eq_true] at hrefuses
      obtain ⟨hnone, hlocal⟩ := hrefuses.2 ends.ordered
      have hpending : (s.abstract ends).pending .lower = none := by
        rw [← hno.pending hinv (purged_purgeInits (s.mgr .lower) now), Ends.pending, Option.map_eq_none_iff]
        exact Option.not_isSome_iff_eq_none.mp (by simpa using hnone)
      rw [activeLocally_eq hinv] at hlocal
      rcases htimely.lower _ hmem with hwaits | ⟨id, hanswered, -⟩ | hactive
      · exact hwaits
      · simp [hpending] at hanswered
      · simp [hlocal] at hactive

theorem orderly_run (hinv : s.Inv ends) (hcoherent : (s.abstract ends).Coherent)
    (htimely : (s.abstract ends).Timely) (hrun : Run.Along (step P ends) (Orderly ends) s actions) :
    (actions.foldl (step P ends) s).Inv ends ∧ ((actions.foldl (step P ends) s).abstract ends).Coherent := by
  have hrun' := Run.Along.invariant
    (fun s => s.Inv ends ∧ (s.abstract ends).Coherent ∧ (s.abstract ends).Timely) ?_
    ⟨hinv, hcoherent, htimely⟩ hrun
  · exact ⟨hrun'.1, hrun'.2.1⟩
  rintro s action ⟨hinv, hcoherent, htimely⟩ horderly
  obtain ⟨hinv', moves, hmoves, -, honce⟩ := sim_step hinv (careful_of_orderly hinv htimely horderly)
  refine ⟨hinv', hmoves ▸ ?_⟩
  refine Run.Along.invariant (fun s => s.Coherent ∧ s.Timely) ?_ ⟨hcoherent, htimely⟩ (honce horderly)
  rintro s m ⟨hcoherent, htimely⟩ hok
  exact ⟨hcoherent.move (htimely.allowed hok), htimely.move hcoherent hok⟩

/-- An orderly run agrees: whenever it is quiet, neither side has a session, or both have the same. -/
theorem orderly_agreement (hidle : s.Idle ends)
    (hroom : ∀ side, (s.mgr side).hasRoomFor (ends.config side) (ends.nodeId side.other) = true)
    (hstart : (∀ side, s.session ends side = none) ∨ s.Shared ends)
    (hrun : Run.Along (step P ends) (Orderly ends) s actions)
    (hquiet : (actions.foldl (step P ends) s).Quiet) :
    (∀ side, (actions.foldl (step P ends) s).session ends side = none) ∨
      ∃ sid, ∀ side, ((actions.foldl (step P ends) s).session ends side).map (·.id) = some sid := by
  have hagreed : (s.abstract ends).Agreed := by
    rcases hstart with hnone | hshared
    · exact Or.inl (by simp [abstract_active hidle.tables, hnone])
    · exact hshared.agreed hidle.tables
  obtain ⟨hinv, hcoherent⟩ := orderly_run (hidle.inv hroom) (hidle.coherent hagreed) hidle.timely hrun
  exact session_id_of_agreed hinv.tables (hquiet.agreed hcoherent)

/-- Both sides initiate at once, and the INITs cross. -/
theorem orderly_agreement_crossing :
    let actions : List PairAction :=
      [.initiate .lower 0 7 (sampleRandom 7), .initiate .higher 0 9 (sampleRandom 9),
        .deliver 1 0 (sampleRandom 0), .deliver 0 0 (sampleRandom 0), .admission .higher 0, .admission .lower 0,
        .install .higher 0, .deliver 0 0 (sampleRandom 0)]
    let last := actions.foldl (step clearPrimitives sampleEnds) {}
    (last.session sampleEnds .lower).map (·.id) = some 7 ∧
      ((∀ side, last.session sampleEnds side = none) ∨
        ∃ sid, ∀ side, (last.session sampleEnds side).map (·.id) = some sid) :=
  ⟨by decide +kernel, orderly_agreement idle_empty (by decide) (Or.inl (by decide)) (by decide +kernel)
    (by decide +kernel)⟩

end Pair

end Aegis
