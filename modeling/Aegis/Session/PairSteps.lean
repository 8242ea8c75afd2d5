import Aegis.Session.PairRefinement

/-!
# The steps of the pair as moves

One simulation lemma per step of `Pair`: an operation of a manager is a purge, then at most one move of
the abstract protocol. `sim_step` gathers them.
-/

namespace Aegis

open Function (update)

variable {H : Type} {P : Primitives H} {ends : Ends P}

namespace Pair

variable {s s' : Pair H} {side : Side} {mgr' mgr'' : SessionManager H} {call call' : Option (PartyCall H)}
  {packet : Packet} {now : Time} {sid : UInt32} {once : Prop}

theorem put_self : s.put side (s.mgr side) (s.party side).call = s := by
  show { s with party := update s.party side (s.party side) } = s
  rw [Function.update_eq_self]

theorem put_put : (s.put side mgr' call).put side mgr'' call' = s.put side mgr'' call' := by
  simp [put]

theorem Sim.imp {once' : Prop} (h : Sim ends once s s') (himp : once' → once) : Sim ends once' s s' := by
  obtain ⟨hinv, moves, hmoves, hallowed, honce⟩ := h
  exact ⟨hinv, moves, hmoves, hallowed, fun ho => honce (himp ho)⟩

theorem purged_purgeIncomplete (mgr : SessionManager H) (now : Time) :
    Purged now mgr (mgr.purgeIncompleteHandshakesLocked now) :=
  ⟨rfl, rfl, SortedMap.subset_refl _, rfl⟩

theorem purged_purgeInits (mgr : SessionManager H) (now : Time) : Purged now mgr (mgr.purgeInits now) :=
  ⟨rfl, rfl, SortedMap.subset_refl _, rfl⟩

/-! ### Initiating -/

theorem pending_insert {mgr : SessionManager H} {state : PendingInitiator H}
    (hnone : ends.pending side mgr = none) (hpeer : state.expectedPeerId = ends.nodeId side.other) :
    ends.Single side (mgr.pendingInitiators.insert sid state) ∧
      ends.pending side { mgr with pendingInitiators := mgr.pendingInitiators.insert sid state } = some sid := by
  have honly (sid' : UInt32) (state' : PendingInitiator H)
      (hfind : (mgr.pendingInitiators.insert sid state).find? sid' = some state')
      (hpeer' : state'.expectedPeerId = ends.nodeId side.other) : sid' = sid := by
    rcases SortedMap.find?_insert_eq_some_iff.mp hfind with ⟨hsid, -⟩ | ⟨-, hfind⟩
    · exact hsid
    · exact absurd hpeer' (Ends.pending_eq_none_iff.mp hnone sid' state' hfind)
  have hsingle : ends.Single side (mgr.pendingInitiators.insert sid state) :=
    fun sid₁ sid₂ state₁ state₂ h₁ h₂ hpeer₁ hpeer₂ =>
      (honly sid₁ state₁ h₁ hpeer₁).trans (honly sid₂ state₂ h₂ hpeer₂).symm
  exact ⟨hsingle, (Ends.pending_eq_some_iff hsingle).mpr ⟨state, by simp, hpeer⟩⟩

variable {message : List UInt8}

theorem mgr_initiated (side' : Side) :
    (s.initiated side sid message mgr').mgr side' = if side' = side then mgr' else s.mgr side' := by
  simp only [mgr, initiated, Function.update_apply]
  split_ifs <;> rfl

theorem call_initiated (side' : Side) :
    ((s.initiated side sid message mgr').party side').call = (s.party side').call := by
  simp only [initiated, Function.update_apply]
  split_ifs with hside
  · rw [hside]
  · rfl

theorem Inv.initiated (hinv : s.Inv ends) (hunused : s.Unused sid)
    (htables : SessionManager.TableInvariant (ends.config side) mgr') {handshake : H} {expires : Time}
    {entropy : Entropy}
    (hwrite : writeInit P (ends.config side) sid (ends.nodeId side.other) (ends.static side.other) entropy
      = some (message, handshake))
    (hmgr : mgr' = { s.mgr side with
      pendingInitiators := (s.mgr side).pendingInitiators.insert sid
        ⟨ends.nodeId side.other, ends.static side.other, handshake, expires⟩ })
    (hnone : ends.pending side (s.mgr side) = none) : (s.initiated side sid message mgr').Inv ends := by
  obtain ⟨hfresh, hcalls, hnet⟩ := hunused
  have hother (side' : Side) {sid' : UInt32} (hne : sid' ≠ sid) (state : PendingInitiator H)
      (hfind : ((s.initiated side sid message mgr').mgr side').pendingInitiators.find? sid' = some state) :
      (s.mgr side').pendingInitiators.find? sid' = some state := by
    rw [mgr_initiated] at hfind
    split_ifs at hfind with hside
    · simpa [hmgr, hne, hside] using hfind
    · exact hfind
  have hsent : ends.InitSound mgr'.pendingInitiators side sid message := by
    refine ⟨entropy, handshake, hwrite, fun state hfind => ?_⟩
    obtain rfl : _ = state := by simpa [hmgr] using hfind
    rfl
  constructor
  · intro side'
    rw [mgr_initiated]
    split_ifs with hside
    · exact hside ▸ htables
    · exact hinv.tables side'
  · intro side'
    rw [mgr_initiated]
    split_ifs with hside
    · subst hside hmgr
      exact hinv.room side'
    · exact hinv.room side'
  · intro side'
    rw [mgr_initiated]
    split_ifs with hside
    · subst hside hmgr
      exact (pending_insert hnone rfl).1
    · exact hinv.single side'
  · intro packet hpacket
    rcases List.mem_cons.mp hpacket with rfl | hpacket
    · simpa only [PacketSound, mgr_initiated, if_true] using hsent
    · exact (hinv.packets packet hpacket).mono fun side' => hother side' (hnet packet hpacket)
  · intro side' call hcall
    rw [call_initiated] at hcall
    have hne := hcalls side' call hcall
    obtain ⟨hpeer, huse, hanswer⟩ := (hinv.calls side' call hcall).mono (hother side'.other hne)
    refine ⟨hpeer, ?_, hanswer⟩
    rw [mgr_initiated]
    split_ifs with hside
    · subst hside hmgr
      simpa [SessionManager.sessionIdInUse, hne] using huse
    · exact huse
  · intro side' sid' message' hmessage
    simp only [Pair.initiated, Function.update_apply] at hmessage
    rw [mgr_initiated]
    split_ifs at hmessage ⊢ with hside
    · obtain ⟨rfl, rfl⟩ := Prod.mk.inj (Option.some.inj hmessage)
      exact fun _ => hside ▸ hsent
    · exact hinv.sent side' sid' message' hmessage

theorem abstract_initiated (hsessions : mgr'.sessions = (s.mgr side).sessions)
    (hpending : ends.pending side mgr' = some sid) :
    (s.initiated side sid message mgr').abstract ends = (s.abstract ends).move (.initiate side sid) := by
  have hput : (s.initiated side sid message mgr').abstract ends =
      abstract ends { s.put side mgr' (s.party side).call with net := ⟨.init, side, sid, message⟩ :: s.net } := by
    have hmgr : (s.initiated side sid message mgr').mgr = (s.put side mgr' (s.party side).call).mgr := by
      funext side'
      rw [mgr_initiated, mgr_put]
    have hcall (side' : Side) : ((s.initiated side sid message mgr').party side').call =
        ((s.put side mgr' (s.party side).call).party side').call := by
      rw [call_initiated, call_put]
      split_ifs with hside
      · rw [hside]
      · rfl
    simp only [abstract, hmgr, hcall]
    rfl
  rw [hput]
  refine (abstract_cons_init (s := s.put side mgr' (s.party side).call) _ rfl).trans ?_
  rw [abstract_put_pending hsessions, hpending]
  rfl

theorem active_ne_of_not_inUse (hinv : s.Inv ends) (huse : (s.mgr side).sessionIdInUse sid = false)
    (locally : Bool) : (s.abstract ends).active side ≠ some (sid, locally) := by
  intro hactive
  obtain ⟨session, hfind, hsession⟩ := Option.map_eq_some_iff.mp hactive
  obtain ⟨rfl, rfl⟩ := Prod.mk.inj hsession
  have hindex := ((hinv.tables side).active _ session hfind).2.2
  simp [SessionManager.sessionIdInUse, SortedMap.contains_of_find? hindex] at huse

theorem fresh_of_unused (hinv : s.Inv ends) (hunused : s.Unused sid) : (s.abstract ends).Fresh sid := by
  obtain ⟨htables, hcalls, hnet⟩ := hunused
  have hflight (kind : HandshakeKind) (side : Side) : sid ∉ inFlight s.net kind side := by
    intro hmem
    obtain ⟨packet, hpacket, -, -, hid⟩ := mem_inFlight.mp hmem
    exact hnet packet hpacket hid
  constructor
  · exact fun side locally => active_ne_of_not_inUse hinv (htables side) locally
  · intro side hpending
    obtain ⟨state, hfind, -⟩ := (Ends.pending_eq_some_iff (hinv.single side)).mp hpending
    have huse := htables side
    simp [SessionManager.sessionIdInUse, SortedMap.contains_of_find? hfind] at huse
  · intro side hanswering
    obtain ⟨init, hcall, hid⟩ := admittedId_eq_some_iff.mp hanswering
    exact hcalls side _ hcall hid
  · intro side hmem
    rcases Multiset.mem_add.mp hmem with hmem | hmem
    · obtain ⟨init, hcall, hid⟩ := mem_verifiedId.mp hmem
      exact hcalls side _ hcall hid
    · exact hflight .init side hmem
  · exact fun side => hflight .resp side

theorem Unused.purged (hunused : s.Unused sid) (hpurged : Purged now (s.mgr side) mgr') :
    (s.put side mgr' (s.party side).call).Unused sid := by
  obtain ⟨htables, hcalls, hnet⟩ := hunused
  refine ⟨fun side' => ?_, fun side' call hcall => ?_, hnet⟩
  · rw [mgr_put]
    split_ifs with hside
    · exact hpurged.not_inUse (htables side)
    · exact htables side'
  · rw [call_put] at hcall
    split_ifs at hcall with hside
    · exact hcalls side call hcall
    · exact hcalls side' call hcall

theorem sim_initiated (hinv : s.Inv ends) (hunused : s.Unused sid)
    (htables : SessionManager.TableInvariant (ends.config side) mgr') {handshake : H} {expires : Time}
    {entropy : Entropy}
    (hwrite : writeInit P (ends.config side) sid (ends.nodeId side.other) (ends.static side.other) entropy
      = some (message, handshake))
    (hmgr : mgr' = { s.mgr side with
      pendingInitiators := (s.mgr side).pendingInitiators.insert sid
        ⟨ends.nodeId side.other, ends.static side.other, handshake, expires⟩ })
    (hnone : ends.pending side (s.mgr side) = none) : Sim ends once s (s.initiated side sid message mgr') := by
  have hpending : ends.pending side mgr' = some sid := by
    rw [hmgr]
    exact (pending_insert hnone rfl).2
  have hallowed : (s.abstract ends).Allowed (.initiate side sid) := ⟨hnone, fresh_of_unused hinv hunused⟩
  refine .move (hinv.initiated hunused htables hwrite hmgr hnone) (.initiate side sid) ?_ hallowed
    fun _ => hallowed
  exact (abstract_initiated (by rw [hmgr]) hpending).symm

theorem initiated_put :
    (s.put side mgr'' (s.party side).call).initiated side sid message mgr' = s.initiated side sid message mgr' := by
  simp [initiated, put]

theorem sim_initiate {entropy : Entropy} (hinv : s.Inv ends)
    (hcareful : s.Careful ends (.initiate side now sid entropy)) :
    Sim ends (s.Orderly ends (.initiate side now sid entropy)) s
      (s.step P ends (.initiate side now sid entropy)) := by
  obtain ⟨hintime, hunused, hnone⟩ := hcareful
  have hpurged := purged_purgeIncomplete (s.mgr side) now
  have hpurge := (sim_purge hinv hintime hpurged).imp
    (And.left : s.Orderly ends (.initiate side now sid entropy) → s.NoTimeout ends side now)
  rcases SessionManager.createHandshakeInit_cases P (ends.config side) (s.mgr side) now sid
    (ends.nodeId side.other) (ends.static side.other) entropy with
    hresult | hresult | ⟨message, handshake, hwrite, huse, hsize, hresult⟩
  · simp only [step, hresult, put_self]
    exact .still hinv rfl
  · simp only [step, hresult]
    exact hpurge
  · have htables := (hinv.tables side).createHandshakeInit P now sid (ends.nodeId side.other)
      (ends.static side.other) entropy
    rw [hresult] at htables
    simp only [step, hresult]
    refine hpurge.trans ?_
    rw [← initiated_put]
    exact sim_initiated hpurge.1 (hunused.purged hpurged) htables hwrite (by rw [mgr_put, if_pos rfl])
      (by rw [mgr_put, if_pos rfl, Ends.pending, hnone, Option.map_none])

/-! ### Receiving an INIT -/

variable {index : Nat} {entropy : Entropy} {init : VerifiedInit H}

theorem callSound_of_readInit (hinv : s.Inv ends) (hpacket : packet ∈ s.net) (hkind : packet.kind = .init)
    {frame : HandshakeV2InitFrame} {replayKey : CryptoHash}
    (hparse : parseInit P (ends.config packet.sender.other) packet.message packet.sessionId = some (frame, replayKey))
    (huse : mgr'.sessionIdInUse frame.sessionId = false)
    (hread : readInit P (ends.config packet.sender.other) frame replayKey entropy = some init) :
    init.sessionId = packet.sessionId ∧
      ends.CallSound mgr' (s.mgr packet.sender).pendingInitiators packet.sender.other init := by
  have hsound := hinv.packets packet hpacket
  simp only [PacketSound, hkind] at hsound
  obtain ⟨entropy', handshake, hwrite, hpending⟩ := hsound
  obtain ⟨hid, hpeer, encoded, split, hresponse, hanswers⟩ :=
    answers_of_readInit ends.complete hwrite hparse hread
  refine ⟨hid, ?_, ?_, encoded, split, hresponse, fun state hfind => ?_⟩
  · rw [hpeer, ← ends.identified, Side.other_other]
    rfl
  · rwa [(SessionManager.readInit_fields P _ hread).1]
  · rw [Side.other_other, hpending state (hid ▸ hfind), hid]
    exact ⟨rfl, hanswers _⟩

theorem sim_takeUp (hinv : s.Inv ends) (hpacket : s.net[index]? = some packet) (hkind : packet.kind = .init)
    (hidle : (s.party packet.sender.other).call = none) (hid : init.sessionId = packet.sessionId)
    (hcall : ends.CallSound (s.mgr packet.sender.other) (s.mgr packet.sender).pendingInitiators
      packet.sender.other init) :
    Sim ends once s (put { s with net := s.net.eraseIdx index } packet.sender.other (s.mgr packet.sender.other)
      (some { init := init })) := by
  refine .still ((hinv.eraseIdx index).put (hinv.tables _) (hinv.room _) (fun _ _ h => h) ?_) ?_
  · intro call hmem
    obtain rfl : _ = call := Option.some.inj hmem
    rw [Side.other_other]
    exact hcall
  · set left : Pair H := { s with net := s.net.eraseIdx index }
    have hanswering : (left.abstract ends).answering packet.sender.other = none := by
      show admittedId (s.party packet.sender.other).call = none
      rw [hidle]
      rfl
    have hinits : (left.abstract ends).inits packet.sender.other =
        inFlight left.net .init packet.sender.other := by
      show verifiedId (s.party packet.sender.other).call + _ = _
      rw [hidle]
      exact Multiset.zero_add _
    rw [abstract_getElem? hpacket, abstract_cons_init (s := left) packet hkind]
    refine Eq.trans ?_ abstract_put_call.symm
    simp only [Handshakes.move, admittedId, verifiedId, ← hanswering, Function.update_eq_self, hinits, hid,
      Multiset.singleton_add]

theorem sim_receiveInit (hinv : s.Inv ends) (hpacket : s.net[index]? = some packet) (hkind : packet.kind = .init)
    (hidle : (s.party packet.sender.other).call = none) (hintime : s.AnsweredInTime ends packet.sender.other now) :
    Sim ends (s.NoTimeout ends packet.sender.other now) s
      (receiveInit P ends { s with net := s.net.eraseIdx index } now packet entropy) := by
  have hmgr : mgr { s with net := s.net.eraseIdx index } packet.sender.other = s.mgr packet.sender.other := rfl
  have hpurged := purged_purgeInits (s.mgr packet.sender.other) now
  have hpurge := sim_purge hinv hintime hpurged
  rw [hidle] at hpurge
  have hdiscard : Sim ends (s.NoTimeout ends packet.sender.other now) s
      (put { s with net := s.net.eraseIdx index } packet.sender.other
        ((s.mgr packet.sender.other).purgeInits now) none) :=
    hpurge.trans (.move (hpurge.1.eraseIdx index) (.discard packet.sender.other packet.sessionId)
      (abstract_eraseIdx_init (s := s.put packet.sender.other _ none) hpacket hkind).symm trivial fun _ => trivial)
  rcases SessionManager.initCheck_cases P (ends.config packet.sender.other) (s.mgr packet.sender.other) now
    packet.message packet.sessionId entropy with hresult | hresult | ⟨frame, replayKey, hparse, -, huse, hresult⟩
  · simp only [receiveInit, hmgr, hresult]
    have hself : put { s with net := s.net.eraseIdx index } packet.sender.other (s.mgr packet.sender.other) none =
        { s with net := s.net.eraseIdx index } := by
      rw [← hidle]
      exact put_self
    rw [hself]
    exact .move (hinv.eraseIdx index) (.discard packet.sender.other packet.sessionId)
      (abstract_eraseIdx_init hpacket hkind).symm trivial fun _ => trivial
  · simp only [receiveInit, hmgr, hresult]
    exact hdiscard
  · cases hread : readInit P (ends.config packet.sender.other) frame replayKey entropy with
    | none =>
      simp only [receiveInit, hmgr, hresult, hread]
      exact hdiscard
    | some init =>
      simp only [receiveInit, hmgr, hresult, hread]
      have hmgr' : (s.put packet.sender.other ((s.mgr packet.sender.other).purgeInits now) none).mgr
          packet.sender.other = (s.mgr packet.sender.other).purgeInits now := by rw [mgr_put, if_pos rfl]
      obtain ⟨hid, hcall⟩ := callSound_of_readInit hpurge.1 (List.mem_of_getElem? hpacket) hkind hparse huse hread
      have htake : Sim ends (s.NoTimeout ends packet.sender.other now) _ _ :=
        sim_takeUp hpurge.1 hpacket hkind (by rw [call_put, if_pos rfl]) hid (hmgr'.symm ▸ hcall)
      rw [hmgr'] at htake
      have hput : put { s.put packet.sender.other ((s.mgr packet.sender.other).purgeInits now) none with
            net := s.net.eraseIdx index } packet.sender.other ((s.mgr packet.sender.other).purgeInits now)
            (some { init := init }) =
          put { s with net := s.net.eraseIdx index } packet.sender.other
            ((s.mgr packet.sender.other).purgeInits now) (some { init := init }) :=
        put_put (s := { s with net := s.net.eraseIdx index })
      exact hpurge.trans (hput ▸ htake)

/-! ### Receiving a RESP -/

theorem activeRemotely_eq (hinv : s.Inv ends) :
    (s.mgr side).activeRemotely (ends.nodeId side.other) = (s.abstract ends).activeRemotely side := by
  show _ = (ends.active side (s.mgr side)).any fun session => !session.2
  unfold SessionManager.activeRemotely Ends.active
  cases hfind : (s.mgr side).sessions.find? (ends.nodeId side.other) with
  | none => rfl
  | some session => simp [((hinv.tables side).active _ _ hfind).1]

theorem activeLocally_eq (hinv : s.Inv ends) :
    (s.mgr side).activeLocally (ends.nodeId side.other) = (s.abstract ends).activeLocally side := by
  show _ = (ends.active side (s.mgr side)).any fun session => session.2
  unfold SessionManager.activeLocally Ends.active
  cases hfind : (s.mgr side).sessions.find? (ends.nodeId side.other) with
  | none => rfl
  | some session => simp [((hinv.tables side).active _ _ hfind).1]

theorem active_establish {mgr : SessionManager H} {split : NoiseIkSplitResult} {locally : Bool} :
    ends.active side (mgr.establish (ends.config side) now (ends.nodeId side.other) sid split locally)
      = some (sid, locally) := by
  simp [Ends.active, SessionState.fresh]

/-- The RESP is taken, its purge done: nobody waits for it, or the initiation ends with a session unless
the other side's own one has priority. -/
theorem sim_takeResp (hpacket : s.net[index]? = some packet) (hkind : packet.kind = .resp)
    (hidle : (s.party packet.sender.other).call = none)
    (hinv' : (put { s with net := s.net.eraseIdx index } packet.sender.other mgr' none).Inv ends)
    (hpending : ends.pending packet.sender.other mgr' =
      if (s.abstract ends).pending packet.sender.other = some packet.sessionId then none
      else (s.abstract ends).pending packet.sender.other)
    (hactive : ends.active packet.sender.other mgr' =
      if (s.abstract ends).pending packet.sender.other = some packet.sessionId ∧
          ¬ (packet.sender.other = .higher ∧ (s.abstract ends).activeRemotely packet.sender.other = true)
      then some (packet.sessionId, true) else (s.abstract ends).active packet.sender.other) :
    Sim ends once s (put { s with net := s.net.eraseIdx index } packet.sender.other mgr' none) := by
  have hallowed : (s.abstract ends).Allowed (.receive packet.sender.other packet.sessionId) := by
    refine ⟨?_, mem_inFlight.mpr ⟨packet, List.mem_of_getElem? hpacket, hkind, by simp, rfl⟩⟩
    show admittedId (s.party packet.sender.other).call = none
    rw [hidle]
    rfl
  refine .move hinv' (.receive packet.sender.other packet.sessionId) ?_ hallowed fun _ => hallowed
  rw [abstract_put_none (s := { s with net := s.net.eraseIdx index }) hidle, abstract_eraseIdx_resp hpacket hkind,
    hpending, hactive]
  by_cases hwaits : (s.abstract ends).pending packet.sender.other = some packet.sessionId
  · rw [Handshakes.move_receive_of_pending hwaits]
    by_cases hrefused : packet.sender.other = .higher ∧ (s.abstract ends).activeRemotely packet.sender.other = true
    · rw [if_pos hrefused, if_pos hwaits, if_neg fun h => h.2 hrefused]
      simp [Handshakes.move]
    · rw [if_neg hrefused, if_pos hwaits, if_pos ⟨hwaits, hrefused⟩]
      simp [Handshakes.move]
  · rw [Handshakes.move_receive_of_ne hwaits]
    simp [Handshakes.move, hwaits]

/-- What `handle_handshake_resp` does to the initiation after its purge, in a pair where every RESP fits. -/
theorem sim_answer (hinv : s.Inv ends) (hpacket : s.net[index]? = some packet) (hkind : packet.kind = .resp)
    (hidle : (s.party packet.sender.other).call = none)
    (htables : SessionManager.TableInvariant (ends.config packet.sender.other) mgr')
    {state : PendingInitiator H} {split : NoiseIkSplitResult}
    (hfind : (s.mgr packet.sender.other).pendingInitiators.find? packet.sessionId = some state) (hmgr : mgr' =
      if (s.mgr packet.sender.other).activeRemotely state.expectedPeerId = true ∧
          state.expectedPeerId < (ends.config packet.sender.other).identity.nodeId then
        (s.mgr packet.sender.other).erasePending packet.sessionId else
        ((s.mgr packet.sender.other).erasePending packet.sessionId).establish (ends.config packet.sender.other) now
          state.expectedPeerId packet.sessionId split true) :
    Sim ends once s (put { s with net := s.net.eraseIdx index } packet.sender.other mgr' none) := by
  have hsound := hinv.packets packet (List.mem_of_getElem? hpacket)
  simp only [PacketSound, hkind] at hsound
  obtain ⟨hpeer, -⟩ := hsound state hfind
  have hrank : (s.mgr packet.sender.other).activeRemotely state.expectedPeerId = true ∧
      state.expectedPeerId < (ends.config packet.sender.other).identity.nodeId ↔
      packet.sender.other = .higher ∧ (s.abstract ends).activeRemotely packet.sender.other = true := by
    rw [hpeer, activeRemotely_eq hinv, and_comm]
    exact and_congr_left' Ends.nodeId_lt_iff
  have hwaits : (s.abstract ends).pending packet.sender.other = some packet.sessionId :=
    (Ends.pending_eq_some_iff (hinv.single _)).mpr ⟨state, hfind, hpeer⟩
  have hpending : mgr'.pendingInitiators =
      (s.mgr packet.sender.other).pendingInitiators.erase packet.sessionId := by
    rw [hmgr]
    split_ifs
    · rfl
    · rw [SessionManager.pendingInitiators_establish]
      rfl
  have hroom : mgr'.hasRoomFor (ends.config packet.sender.other) (ends.nodeId packet.sender.other.other) = true := by
    rw [hmgr]
    split_ifs
    · exact hinv.room packet.sender.other
    · simp [SessionManager.hasRoomFor, hpeer]
  have hinv' : (put { s with net := s.net.eraseIdx index } packet.sender.other mgr' none).Inv ends := by
    refine (hinv.eraseIdx index).put htables hroom (fun sid state h => ?_) (by simp)
    rw [hpending] at h
    exact SortedMap.find?_of_subset (SortedMap.erase_subset _ _) h
  refine sim_takeResp hpacket hkind hidle hinv' ?_ ?_
  · rw [if_pos hwaits]
    exact Ends.pending_erase (hinv.single _) hfind hpeer hpending
  · rw [hmgr]
    by_cases hrefused : packet.sender.other = .higher ∧ (s.abstract ends).activeRemotely packet.sender.other = true
    · rw [if_pos (hrank.mpr hrefused), if_neg fun h => h.2 hrefused]
      rfl
    · rw [if_neg fun h => hrefused (hrank.mp h), if_pos ⟨hwaits, hrefused⟩, hpeer, active_establish]

theorem sim_receiveResp (hinv : s.Inv ends) (hpacket : s.net[index]? = some packet) (hkind : packet.kind = .resp)
    (hidle : (s.party packet.sender.other).call = none) (hintime : s.AnsweredInTime ends packet.sender.other now) :
    Sim ends (s.NoTimeout ends packet.sender.other now) s
      (receiveResp P ends { s with net := s.net.eraseIdx index } now packet) := by
  have hpurge := sim_purge hinv hintime (purged_purgeIncomplete (s.mgr packet.sender.other) now)
  rw [hidle] at hpurge
  refine hpurge.trans ?_
  set purged := (s.mgr packet.sender.other).purgeIncompleteHandshakesLocked now with hpurged
  have hmgr : (s.put packet.sender.other purged none).mgr packet.sender.other = purged := by
    rw [mgr_put, if_pos rfl]
  have hcall : ((s.put packet.sender.other purged none).party packet.sender.other).call = none := by
    rw [call_put, if_pos rfl]
  have htables := (hinv.tables packet.sender.other).handleHandshakeResp P now packet.message packet.sessionId
  have hput : put { s.put packet.sender.other purged none with net := s.net.eraseIdx index } packet.sender.other
      ((s.mgr packet.sender.other).handleHandshakeResp P (ends.config packet.sender.other) now packet.message
        packet.sessionId).1 none = receiveResp P ends { s with net := s.net.eraseIdx index } now packet :=
    put_put (s := { s with net := s.net.eraseIdx index })
  rw [← hput]
  have hsound := hpurge.1.packets packet (List.mem_of_getElem? hpacket)
  simp only [PacketSound, hkind, hmgr] at hsound
  cases hfind : purged.pendingInitiators.find? packet.sessionId with
  | none =>
    rw [SessionManager.handleHandshakeResp_of_none hfind] at htables ⊢
    have hnot : ((s.put packet.sender.other purged none).abstract ends).pending packet.sender.other ≠
        some packet.sessionId := by
      intro hwaits
      obtain ⟨state, hstate, -⟩ := (Ends.pending_eq_some_iff (hpurge.1.single _)).mp hwaits
      rw [hmgr, hfind] at hstate
      exact absurd hstate (by simp)
    have hinv' : (put { s.put packet.sender.other purged none with net := s.net.eraseIdx index }
        packet.sender.other purged none).Inv ends := by
      refine (hpurge.1.eraseIdx index).put ?_ ?_ (fun sid state h => ?_) (by simp)
      · exact hmgr ▸ hpurge.1.tables packet.sender.other
      · exact hinv.room packet.sender.other
      · exact (congrArg (·.pendingInitiators.find? sid) hmgr).trans h
    refine sim_takeResp hpacket hkind hcall hinv' ?_ ?_
    · rw [if_neg hnot]
      exact congrArg (ends.pending _) hmgr.symm
    · rw [if_neg fun h => hnot h.1]
      exact congrArg (ends.active _) hmgr.symm
  | some state =>
    obtain ⟨hpeer, hanswers⟩ := hsound state hfind
    obtain ⟨split, hresult⟩ := SessionManager.handleHandshakeResp_of_answers hfind hanswers
      (hpeer ▸ hinv.room packet.sender.other)
    exact sim_answer hpurge.1 hpacket hkind hcall htables (hmgr.symm ▸ hfind) (by rw [hresult, hmgr]; rfl)

theorem sim_deliver (hinv : s.Inv ends) (hcareful : s.Careful ends (.deliver index now entropy)) :
    Sim ends (s.Orderly ends (.deliver index now entropy)) s (s.step P ends (.deliver index now entropy)) := by
  cases hpacket : s.net[index]? with
  | none =>
    simp only [step, hpacket]
    exact .still hinv rfl
  | some packet =>
    have horderly (h : s.Orderly ends (.deliver index now entropy)) : s.NoTimeout ends packet.sender.other now :=
      h packet hpacket
    have hintime := hcareful packet hpacket
    cases hcall : (s.party packet.sender.other).call with
    | some call =>
      simp only [step, hpacket, hcall, Option.isSome_some, if_true]
      exact .still hinv rfl
    | none =>
      cases hkind : packet.kind with
      | init =>
        simp only [step, hpacket, hcall, Option.isSome_none, Bool.false_eq_true, if_false, hkind]
        exact (sim_receiveInit hinv hpacket hkind hcall hintime).imp horderly
      | resp =>
        simp only [step, hpacket, hcall, Option.isSome_none, Bool.false_eq_true, if_false, hkind]
        exact (sim_receiveResp hinv hpacket hkind hcall hintime).imp horderly

/-! ### The later sections of an INIT -/

theorem abstract_of_verified (hcall : (s.party side).call = some ⟨init, false⟩) :
    (s.abstract ends).answering side = none ∧
      (s.abstract ends).inits side = init.sessionId ::ₘ inFlight s.net .init side := by
  simp only [abstract, hcall, admittedId, verifiedId, Multiset.singleton_add, and_self]

theorem sim_endCall (hinv : s.Inv ends) (hcall : (s.party side).call = some ⟨init, false⟩) :
    Sim ends once s (s.put side (s.mgr side) none) := by
  refine .move (hinv.put (hinv.tables side) (hinv.room side) (fun _ _ h => h) (by simp))
    (.discard side init.sessionId) ?_ trivial fun _ => trivial
  obtain ⟨hanswering, hinits⟩ : (s.abstract ends).answering side = none ∧ _ := abstract_of_verified hcall
  rw [abstract_put_call]
  simp only [Handshakes.move, admittedId, verifiedId, hinits, Multiset.erase_cons_head, Multiset.zero_add,
    ← hanswering, Function.update_eq_self]

theorem pending_dropPendingTo {mgr : SessionManager H} (hsingle : ends.Single side mgr.pendingInitiators) :
    ends.pending side (mgr.dropPendingTo (ends.nodeId side.other)) = none := by
  unfold SessionManager.dropPendingTo
  cases hfind : mgr.pendingTo? (ends.nodeId side.other) with
  | none => rw [Ends.pending, hfind, Option.map_none]
  | some found =>
    obtain ⟨sid, state⟩ := found
    obtain ⟨hstate, hpeer⟩ := SortedMap.findIf?_eq_some hfind
    exact Ends.pending_erase hsingle hstate (of_decide_eq_true hpeer) rfl

section

variable (hinv : s.Inv ends)
include hinv

theorem sim_accept (hcall : (s.party side).call = some ⟨init, false⟩)
    (hwaits : (s.abstract ends).pending side.other = some init.sessionId)
    (hrank : side = .lower → (s.abstract ends).pending side = none ∧ (s.abstract ends).activeLocally side = false) :
    Sim ends once s (s.put side ((s.mgr side).dropPendingTo init.peerId) (some ⟨init, true⟩)) := by
  obtain ⟨hpeer, huse, hanswer⟩ := hinv.calls side _ hcall
  have hsame := SessionManager.sameSessions_dropPendingTo (s.mgr side) init.peerId
  have hsubset := SessionManager.dropPendingTo_subset (s.mgr side) init.peerId
  obtain ⟨hanswering, hinits⟩ : (s.abstract ends).answering side = none ∧ _ := abstract_of_verified hcall
  have hfree := active_ne_of_not_inUse hinv huse
  refine .move ?_ (.accept side init.sessionId) ?_ ⟨hanswering, hwaits, hfree, hrank⟩
    fun _ => ⟨hanswering, by simp [hinits], hfree, hrank⟩
  · refine hinv.put ((hinv.tables side).dropPendingTo init.peerId) ?_
      (fun sid state h => SortedMap.find?_of_subset hsubset h) fun call hmem => ?_
    · simpa only [SessionManager.hasRoomFor, hsame.sessions] using hinv.room side
    · obtain rfl : _ = call := Option.some.inj hmem
      refine ⟨hpeer, ?_, hanswer⟩
      simp only [SessionManager.sessionIdInUse, Bool.or_eq_false_iff] at huse ⊢
      rw [hsame.sessionToPeer, hsame.retired]
      refine ⟨huse.1, Bool.eq_false_iff.mpr fun hc => ?_⟩
      exact Bool.eq_false_iff.mp huse.2 (SortedMap.contains_of_subset hsubset hc)
  · have hactive : ends.active side ((s.mgr side).dropPendingTo init.peerId) = (s.abstract ends).active side := by
      simp only [Ends.active, hsame.sessions]
      rfl
    have hpending : ends.pending side ((s.mgr side).dropPendingTo init.peerId) = none :=
      hpeer ▸ pending_dropPendingTo (hinv.single side)
    rw [abstract_put, hactive, hpending, Function.update_eq_self]
    simp only [Handshakes.move, admittedId, verifiedId, hinits, Multiset.erase_cons_head, Multiset.zero_add]

theorem sim_refused (hintime : s.AnsweredInTime ends side now)
    (hcall : (s.party side).call = some ⟨init, false⟩) {purged : SessionManager H}
    (hpurged : Purged now (s.mgr side) purged) : Sim ends (s.NoTimeout ends side now) s (s.put side purged none) := by
  have hpurge := sim_purge hinv hintime hpurged
  have hcall' : ((s.put side purged (s.party side).call).party side).call = some ⟨init, false⟩ := by
    rw [call_put, if_pos rfl, hcall]
  have hend : Sim ends (s.NoTimeout ends side now) _ _ := sim_endCall hpurge.1 hcall'
  rw [put_put, mgr_put, if_pos rfl] at hend
  exact hpurge.trans hend

theorem sim_admitted (hintime : s.AnsweredInTime ends side now)
    (hcall : (s.party side).call = some ⟨init, false⟩) {purged : SessionManager H}
    (hpurged : Purged now (s.mgr side) purged) (hwaits : (s.abstract ends).pending side.other = some init.sessionId)
    (hpriority : (ends.config side).identity.nodeId < init.peerId →
      purged.pendingTo? init.peerId = none ∧ purged.activeLocally init.peerId = false) :
    Sim ends (s.NoTimeout ends side now) s
      (s.put side (purged.dropPendingTo init.peerId) (some ⟨init, true⟩)) := by
  obtain ⟨hpeer, -⟩ := hinv.calls side _ hcall
  have hpurge := sim_purge hinv hintime hpurged
  refine hpurge.trans ?_
  set verified : Pair H := s.put side purged (s.party side).call
  have hmgr : verified.mgr side = purged := by rw [mgr_put, if_pos rfl]
  have hcall' : (verified.party side).call = some ⟨init, false⟩ := by rw [call_put, if_pos rfl, hcall]
  have hwaits' : (verified.abstract ends).pending side.other = some init.sessionId := by
    show ends.pending side.other (verified.mgr side.other) = _
    rw [mgr_put, if_neg side.other_ne]
    exact hwaits
  have hrank (hside : side = .lower) : (verified.abstract ends).pending side = none ∧
      (verified.abstract ends).activeLocally side = false := by
    have hlt : (ends.config side).identity.nodeId < init.peerId := by
      rw [hpeer, hside]
      exact ends.ordered
    obtain ⟨hnone, hlocal⟩ := hpriority hlt
    refine ⟨?_, ?_⟩
    · show ends.pending side (verified.mgr side) = none
      rw [hmgr, Ends.pending, ← hpeer]
      exact Option.map_eq_none_iff.mpr hnone
    · rw [← activeLocally_eq hpurge.1, hmgr, ← hpeer]
      exact hlocal
  have haccept : Sim ends (s.NoTimeout ends side now) _ _ := sim_accept hpurge.1 hcall' hwaits' hrank
  rw [hmgr, put_put] at haccept
  exact haccept

theorem sim_admission (hcareful : s.Careful ends (.admission side now)) :
    Sim ends (s.Orderly ends (.admission side now)) s (s.step P ends (.admission side now)) := by
  obtain ⟨hintime, hstale⟩ := hcareful
  rcases hcall : (s.party side).call with _ | ⟨init, _ | _⟩
  · simp only [step, hcall]
    exact .still hinv rfl
  swap
  · simp only [step, hcall]
    exact .still hinv rfl
  obtain ⟨hpeer, -⟩ := hinv.calls side _ hcall
  have hrecorded : Purged now (s.mgr side) (((s.mgr side).purgeInits now).recordReplay now init.replayKey) :=
    ⟨rfl, rfl, SortedMap.subset_refl _, rfl⟩
  rcases SessionManager.initAdmit_cases (ends.config side) (s.mgr side) now init with
    ⟨-, hresult⟩ | ⟨-, -, -, hresult⟩ | ⟨hcached, hpriority, hresult⟩
  · simp only [step, hcall, hresult]
    exact sim_refused hinv hintime hcall (purged_purgeInits (s.mgr side) now)
  · simp only [step, hcall, hresult]
    exact sim_refused hinv hintime hcall hrecorded
  · have hnotrefused : s.refusesAdmission ends side now init = false := by
      simp only [refusesAdmission, hcached, Bool.false_or, Bool.and_eq_false_iff, decide_eq_false_iff_not]
      by_cases hlt : (ends.config side).identity.nodeId < init.peerId
      · right
        simp [hpriority hlt]
      · exact Or.inl hlt
    have hwaits := (waitsFor_iff hinv).mp ((hstale _ hcall rfl).resolve_left (by simp [hnotrefused]))
    have hroom : (s.mgr side).hasRoomFor (ends.config side) init.peerId = true := by
      rw [hpeer]
      exact hinv.room side
    rw [hroom] at hresult
    simp only [step, hcall, hresult]
    exact sim_admitted hinv hintime hcall hrecorded hwaits hpriority

theorem sim_installed (hcall : (s.party side).call = some ⟨init, true⟩)
    {encoded : List UInt8} {split : NoiseIkSplitResult}
    (hresp : ends.RespSound (s.mgr side.other).pendingInitiators side.other init.sessionId encoded)
    (hmgr : mgr' = (s.mgr side).establish (ends.config side) now init.peerId init.sessionId split false) :
    Sim ends once s { s.put side mgr' none with net := ⟨.resp, side, init.sessionId, encoded⟩ :: s.net } := by
  obtain ⟨hpeer, huse, -⟩ := hinv.calls side _ hcall
  change init.peerId = _ at hpeer
  have hanswering : (s.abstract ends).answering side = some init.sessionId := by
    show admittedId (s.party side).call = _
    rw [hcall]
    rfl
  have hinits : verifiedId (none : Option (PartyCall H)) + inFlight s.net .init side =
      (s.abstract ends).inits side := by
    show _ = verifiedId (s.party side).call + _
    rw [hcall]
    rfl
  have hpending : ends.pending side mgr' = (s.abstract ends).pending side := by
    rw [hmgr, Ends.pending, SessionManager.pendingTo?, SessionManager.pendingInitiators_establish]
    rfl
  have hactive : ends.active side mgr' = some (init.sessionId, false) := by rw [hmgr, hpeer, active_establish]
  have hinstalled : (s.put side mgr' none).Inv ends := by
    have hroom := SessionManager.TableInvariant.hasRoomFor_iff.mp (hinv.room side)
    refine hinv.put (hmgr ▸ (hinv.tables side).establish huse (hpeer ▸ hroom)) ?_ (fun sid state h => ?_) (by simp)
    · simp [hmgr, SessionManager.hasRoomFor, hpeer]
    · rwa [hmgr, SessionManager.pendingInitiators_establish] at h
  refine .move (hinstalled.cons ?_) (.install side init.sessionId) ?_ hanswering fun _ => hanswering
  · simp only [PacketSound, mgr_put, if_neg side.other_ne]
    exact hresp
  · refine Eq.trans ?_ (abstract_cons_resp (s := s.put side mgr' none) _ rfl).symm
    rw [abstract_put, hactive, hpending, hinits, Function.update_eq_self, Function.update_eq_self]
    rfl

/-- The third section succeeds: the id is still free, and the answer can be written. -/
theorem sim_install (hintime : s.AnsweredInTime ends side now) :
    Sim ends (s.Orderly ends (.install side now)) s (s.step P ends (.install side now)) := by
  rcases hcall : (s.party side).call with _ | ⟨init, _ | _⟩
  · simp only [step, hcall]
    exact .still hinv rfl
  · simp only [step, hcall]
    exact .still hinv rfl
  obtain ⟨hpeer, huse, encoded, split, hwrite, hresp⟩ := hinv.calls side _ hcall
  have hpurged := purged_purgeIncomplete (s.mgr side) now
  have hpurge := sim_purge hinv hintime hpurged
  have hresult : (s.mgr side).initInstall P (ends.config side) now init = _ :=
    SessionManager.initInstall_of_writeResponse hwrite (hpurged.not_inUse huse) (hpeer ▸ hinv.room side)
  simp only [step, hcall, hresult]
  refine hpurge.trans ?_
  set purged := (s.mgr side).purgeIncompleteHandshakesLocked now
  have hmgr : purged.establish (ends.config side) now init.peerId init.sessionId split false =
      ((s.put side purged (s.party side).call).mgr side).establish (ends.config side) now init.peerId
        init.sessionId split false := by rw [mgr_put, if_pos rfl]
  have hinstalled : Sim ends (s.NoTimeout ends side now) (s.put side purged (s.party side).call) _ :=
    sim_installed hpurge.1 (by rw [call_put, if_pos rfl, hcall]) (by rwa [mgr_put, if_neg side.other_ne]) hmgr
  rw [put_put] at hinstalled
  exact hinstalled

/-- The step lemma of the refinement. -/
theorem sim_step {action : PairAction} (hcareful : s.Careful ends action) :
    Sim ends (s.Orderly ends action) s (s.step P ends action) := by
  cases action with
  | initiate side now sid entropy => exact sim_initiate hinv hcareful
  | retransmit side => exact sim_retransmit hinv
  | duplicate index => exact sim_duplicate hinv
  | lose index => exact sim_lose hinv hcareful
  | deliver index now entropy => exact sim_deliver hinv hcareful
  | admission side now => exact sim_admission hinv hcareful
  | install side now => exact sim_install hinv hcareful
  | purge side now =>
    exact sim_purge hinv hcareful ⟨rfl, rfl, SortedMap.filter_subset _ _, rfl⟩

end

end Pair

end Aegis
