import Aegis.Session.Pair

/-!
# The pair of managers refines the abstract protocol

`Pair.abstract` forgets everything about a pair but the ids of sessions, initiations and messages. A step
of the pair is a sequence of moves of the abstract protocol: `Pair.Sim` says which moves, that they are
allowed, and that they are moves of `Handshakes.Once` if the step is orderly. The invariant `Pair.Inv`
carries what the abstraction drops: the tables belong together, and every message in flight is one its
receiver accepts.
-/

namespace Aegis

open Function (update)

variable {H : Type} {P : Primitives H}

namespace Ends

variable (ends : Ends P) (side : Side)

/-- The session with the other side: its id, and whether it was initiated here. -/
def active (mgr : SessionManager H) : Option (UInt32 × Bool) :=
  (mgr.sessions.find? (ends.nodeId side.other)).map fun session => (session.id, session.initiatedLocally)

/-- The id of the initiation to the other side. -/
def pending (mgr : SessionManager H) : Option UInt32 := (mgr.pendingTo? (ends.nodeId side.other)).map Prod.fst

/-- At most one initiation to the other side. -/
def Single (pendings : SortedMap UInt32 (PendingInitiator H)) : Prop :=
  ∀ sid sid' state state', pendings.find? sid = some state → pendings.find? sid' = some state' →
    state.expectedPeerId = ends.nodeId side.other → state'.expectedPeerId = ends.nodeId side.other → sid = sid'

variable {ends side} {mgr mgr' : SessionManager H} {sid : UInt32}

theorem pending_eq_none_iff : ends.pending side mgr = none ↔
    ∀ sid state, mgr.pendingInitiators.find? sid = some state → state.expectedPeerId ≠ ends.nodeId side.other := by
  simp only [pending, Option.map_eq_none_iff, SessionManager.pendingTo?, SortedMap.findIf?_eq_none_iff]
  simp

theorem pending_eq_some_iff (hsingle : ends.Single side mgr.pendingInitiators) :
    ends.pending side mgr = some sid ↔
      ∃ state, mgr.pendingInitiators.find? sid = some state ∧ state.expectedPeerId = ends.nodeId side.other := by
  constructor
  · intro h
    obtain ⟨⟨sid', state⟩, hfind, rfl⟩ := Option.map_eq_some_iff.mp h
    obtain ⟨hstate, hpeer⟩ := SortedMap.findIf?_eq_some hfind
    exact ⟨state, hstate, of_decide_eq_true hpeer⟩
  · rintro ⟨state, hstate, hpeer⟩
    rcases hpending : ends.pending side mgr with _ | sid'
    · exact absurd hpeer (pending_eq_none_iff.mp hpending sid state hstate)
    · obtain ⟨⟨sid'', state'⟩, hfind, rfl⟩ := Option.map_eq_some_iff.mp hpending
      obtain ⟨hstate', hpeer'⟩ := SortedMap.findIf?_eq_some hfind
      rw [hsingle sid sid'' state state' hstate hstate' hpeer (of_decide_eq_true hpeer')]

theorem pending_of_sub (hsingle : ends.Single side mgr.pendingInitiators)
    (hsub : ∀ sid state, mgr'.pendingInitiators.find? sid = some state → mgr.pendingInitiators.find? sid = some state) :
    ends.Single side mgr'.pendingInitiators ∧
      (ends.pending side mgr' = ends.pending side mgr ∨ ends.pending side mgr' = none) := by
  have hsingle' : ends.Single side mgr'.pendingInitiators := fun sid sid' state state' h h' =>
    hsingle sid sid' state state' (hsub _ _ h) (hsub _ _ h')
  refine ⟨hsingle', ?_⟩
  rcases hpending : ends.pending side mgr' with _ | sid
  · exact Or.inr rfl
  · obtain ⟨state, hstate, hpeer⟩ := (pending_eq_some_iff hsingle').mp hpending
    exact Or.inl ((pending_eq_some_iff hsingle).mpr ⟨state, hsub _ _ hstate, hpeer⟩).symm

theorem pending_erase {state : PendingInitiator H} (hsingle : ends.Single side mgr.pendingInitiators)
    (hfind : mgr.pendingInitiators.find? sid = some state) (hpeer : state.expectedPeerId = ends.nodeId side.other)
    (hmgr : mgr'.pendingInitiators = mgr.pendingInitiators.erase sid) : ends.pending side mgr' = none := by
  refine pending_eq_none_iff.mpr fun sid' state' hfind' hpeer' => ?_
  rw [hmgr, SortedMap.find?_erase] at hfind'
  split_ifs at hfind' with hsid
  exact hsid (hsingle sid' sid state' state hfind' hfind hpeer' hpeer)

theorem nodeId_lt_iff : ends.nodeId side.other < ends.nodeId side ↔ side = .higher := by
  cases side with
  | lower => exact iff_of_false (lt_asymm ends.ordered) (by simp)
  | higher => exact iff_of_true ends.ordered rfl

/-! ### Messages fit the initiations they belong to -/

variable (ends) in
/-- An INIT the side wrote for the other one; its initiation, if pending, waits for the answer to it. -/
def InitSound (pendings : SortedMap UInt32 (PendingInitiator H)) (side : Side) (sid : UInt32)
    (message : List UInt8) : Prop :=
  ∃ entropy handshake,
    writeInit P (ends.config side) sid (ends.nodeId side.other) (ends.static side.other) entropy
      = some (message, handshake) ∧
    ∀ state, pendings.find? sid = some state →
      state = ⟨ends.nodeId side.other, ends.static side.other, handshake, state.expires⟩

variable (ends) in
/-- A RESP to the side; its initiation, if pending, accepts it. -/
def RespSound (pendings : SortedMap UInt32 (PendingInitiator H)) (side : Side) (sid : UInt32)
    (message : List UInt8) : Prop :=
  ∀ state, pendings.find? sid = some state →
    state.expectedPeerId = ends.nodeId side.other ∧ Answers P state sid message

variable (ends) in
/-- An INIT from the other side that the manager is answering: its id is free, and the answer can be
written. -/
def CallSound (mgr : SessionManager H) (pendings : SortedMap UInt32 (PendingInitiator H)) (side : Side)
    (init : VerifiedInit H) : Prop :=
  init.peerId = ends.nodeId side.other ∧ mgr.sessionIdInUse init.sessionId = false ∧
    ∃ encoded split, writeResponse P init = some (encoded, split) ∧
      ends.RespSound pendings side.other init.sessionId encoded

variable {pendings pendings' : SortedMap UInt32 (PendingInitiator H)} {message : List UInt8}
  {init : VerifiedInit H}

theorem InitSound.mono (h : ends.InitSound pendings side sid message)
    (hsub : ∀ state, pendings'.find? sid = some state → pendings.find? sid = some state) :
    ends.InitSound pendings' side sid message := by
  obtain ⟨entropy, handshake, hwrite, hstate⟩ := h
  exact ⟨entropy, handshake, hwrite, fun state hfind => hstate state (hsub state hfind)⟩

theorem RespSound.mono (h : ends.RespSound pendings side sid message)
    (hsub : ∀ state, pendings'.find? sid = some state → pendings.find? sid = some state) :
    ends.RespSound pendings' side sid message :=
  fun state hfind => h state (hsub state hfind)

theorem CallSound.mono (h : ends.CallSound mgr pendings side init)
    (hsub : ∀ state, pendings'.find? init.sessionId = some state → pendings.find? init.sessionId = some state) :
    ends.CallSound mgr pendings' side init := by
  obtain ⟨hpeer, huse, encoded, split, hwrite, hresp⟩ := h
  exact ⟨hpeer, huse, encoded, split, hwrite, hresp.mono hsub⟩

end Ends

namespace Pair

variable (ends : Ends P)

/-! ### The abstraction -/

/-- The ids of the messages of a kind in flight to a side. -/
def inFlight (net : List Packet) (kind : HandshakeKind) (side : Side) : Multiset UInt32 :=
  ((net : Multiset Packet).filter fun packet => packet.kind = kind ∧ packet.sender = side.other).map
    Packet.sessionId

/-- The INIT a call has read and not admitted. -/
def verifiedId : Option (PartyCall H) → Multiset UInt32
  | some ⟨init, false⟩ => {init.sessionId}
  | _ => 0

/-- The INIT a call has admitted. -/
def admittedId : Option (PartyCall H) → Option UInt32
  | some ⟨init, true⟩ => some init.sessionId
  | _ => none

theorem admittedId_eq_some_iff {call : Option (PartyCall H)} {sid : UInt32} :
    admittedId call = some sid ↔ ∃ init, call = some ⟨init, true⟩ ∧ init.sessionId = sid := by
  rcases call with _ | ⟨init, _ | _⟩ <;> simp [admittedId]

theorem mem_verifiedId {call : Option (PartyCall H)} {sid : UInt32} :
    sid ∈ verifiedId call ↔ ∃ init, call = some ⟨init, false⟩ ∧ init.sessionId = sid := by
  rcases call with _ | ⟨init, _ | _⟩ <;> simp [verifiedId, eq_comm]

/-- An INIT counts as in flight until its call admits it. -/
def abstract (s : Pair H) : Handshakes UInt32 where
  active side := ends.active side (s.mgr side)
  pending side := ends.pending side (s.mgr side)
  answering side := admittedId (s.party side).call
  inits side := verifiedId (s.party side).call + inFlight s.net .init side
  responses side := inFlight s.net .resp side

variable {ends} {s s' : Pair H} {side : Side} {mgr' : SessionManager H} {call : Option (PartyCall H)}
  {packet : Packet}

theorem mgr_put (side' : Side) : (s.put side mgr' call).mgr side' = if side' = side then mgr' else s.mgr side' := by
  simp only [mgr, put, Function.update_apply]
  split_ifs <;> rfl

theorem call_put (side' : Side) :
    ((s.put side mgr' call).party side').call = if side' = side then call else (s.party side').call := by
  simp only [put, Function.update_apply]
  split_ifs <;> rfl

theorem sent_put (side' : Side) : ((s.put side mgr' call).party side').sent = (s.party side').sent := by
  simp only [put, Function.update_apply]
  split_ifs with hside
  · rw [hside]
  · rfl

theorem abstract_put : (s.put side mgr' call).abstract ends =
    { s.abstract ends with
      active := update (s.abstract ends).active side (ends.active side mgr')
      pending := update (s.abstract ends).pending side (ends.pending side mgr')
      answering := update (s.abstract ends).answering side (admittedId call)
      inits := update (s.abstract ends).inits side (verifiedId call + inFlight s.net .init side) } := by
  apply Handshakes.ext
  · refine Function.eq_update_iff.mpr ⟨?_, fun side' h => ?_⟩
    · simp [abstract, mgr_put]
    · simp [abstract, mgr_put, h]
  · refine Function.eq_update_iff.mpr ⟨?_, fun side' h => ?_⟩
    · simp [abstract, mgr_put]
    · simp [abstract, mgr_put, h]
  · refine Function.eq_update_iff.mpr ⟨?_, fun side' h => ?_⟩
    · simp [abstract, call_put]
    · simp [abstract, call_put, h]
  · refine Function.eq_update_iff.mpr ⟨?_, fun side' h => ?_⟩
    · simp [abstract, call_put]
      rfl
    · simp [abstract, call_put, h]
      rfl
  · rfl

theorem abstract_put_pending (hsessions : mgr'.sessions = (s.mgr side).sessions) :
    (s.put side mgr' (s.party side).call).abstract ends =
      { s.abstract ends with pending := update (s.abstract ends).pending side (ends.pending side mgr') } := by
  have hactive : ends.active side mgr' = (s.abstract ends).active side := by
    simp only [Ends.active, hsessions]
    rfl
  have hanswering : admittedId (s.party side).call = (s.abstract ends).answering side := rfl
  have hinits : verifiedId (s.party side).call + inFlight s.net .init side = (s.abstract ends).inits side := rfl
  rw [abstract_put, hactive, hanswering, hinits, Function.update_eq_self, Function.update_eq_self,
    Function.update_eq_self]

theorem abstract_put_call : (s.put side (s.mgr side) call).abstract ends =
    { s.abstract ends with
      answering := update (s.abstract ends).answering side (admittedId call)
      inits := update (s.abstract ends).inits side (verifiedId call + inFlight s.net .init side) } := by
  have hactive : ends.active side (s.mgr side) = (s.abstract ends).active side := rfl
  have hpending : ends.pending side (s.mgr side) = (s.abstract ends).pending side := rfl
  rw [abstract_put, hactive, hpending, Function.update_eq_self, Function.update_eq_self]

theorem abstract_put_none (hidle : (s.party side).call = none) : (s.put side mgr' none).abstract ends =
    { s.abstract ends with
      active := update (s.abstract ends).active side (ends.active side mgr')
      pending := update (s.abstract ends).pending side (ends.pending side mgr') } := by
  have hanswering : admittedId (none : Option (PartyCall H)) = (s.abstract ends).answering side := by
    rw [← hidle]
    rfl
  have hinits : verifiedId (none : Option (PartyCall H)) + inFlight s.net .init side =
      (s.abstract ends).inits side := by
    rw [← hidle]
    rfl
  rw [abstract_put, hanswering, hinits, Function.update_eq_self, Function.update_eq_self]

theorem inFlight_cons (net : List Packet) (kind : HandshakeKind) (side : Side) :
    inFlight (packet :: net) kind side = if packet.kind = kind ∧ packet.sender = side.other
      then packet.sessionId ::ₘ inFlight net kind side else inFlight net kind side := by
  simp only [inFlight, ← Multiset.cons_coe]
  split_ifs with h
  · rw [Multiset.filter_cons_of_pos, Multiset.map_cons]
    exact h
  · rw [Multiset.filter_cons_of_neg]
    exact h

theorem mem_inFlight {net : List Packet} {kind : HandshakeKind} {sid : UInt32} :
    sid ∈ inFlight net kind side ↔
      ∃ packet ∈ net, packet.kind = kind ∧ packet.sender = side.other ∧ packet.sessionId = sid := by
  simp [inFlight, and_assoc]

theorem abstract_getElem? {index : Nat} (h : s.net[index]? = some packet) :
    s.abstract ends = abstract ends { s with net := packet :: s.net.eraseIdx index } := by
  obtain ⟨hlt, rfl⟩ := List.getElem?_eq_some_iff.mp h
  have hnet : inFlight s.net = inFlight (s.net[index] :: s.net.eraseIdx index) := by
    funext kind side
    simp only [inFlight, Multiset.coe_eq_coe.mpr (List.getElem_cons_eraseIdx_perm hlt)]
  simp only [abstract, hnet]
  rfl

theorem abstract_cons_init (packet : Packet) (h : packet.kind = .init) :
    abstract ends { s with net := packet :: s.net } =
      (s.abstract ends).move (.transmit packet.sender.other packet.sessionId) := by
  apply Handshakes.ext
  · rfl
  · rfl
  · rfl
  · funext side
    simp only [abstract, Handshakes.move, inFlight_cons, h, true_and, Function.update_apply, Side.eq_other_comm]
    split_ifs with hsender
    · rw [hsender, Side.other_other, Multiset.add_cons]
    · rfl
  · funext side
    simp [abstract, Handshakes.move, inFlight_cons, h]

theorem abstract_cons_resp (packet : Packet) (h : packet.kind = .resp) :
    abstract ends { s with net := packet :: s.net } =
      (s.abstract ends).move (.duplicate packet.sender.other packet.sessionId) := by
  apply Handshakes.ext
  · rfl
  · rfl
  · rfl
  · funext side
    simp [abstract, Handshakes.move, inFlight_cons, h]
  · funext side
    simp only [abstract, Handshakes.move, inFlight_cons, h, true_and, Function.update_apply, Side.eq_other_comm]
    split_ifs with hsender
    · rw [hsender, Side.other_other]
    · rfl

/-! ### The invariant -/

variable (ends)

def PacketSound (s : Pair H) (packet : Packet) : Prop :=
  match packet.kind with
  | .init => ends.InitSound (s.mgr packet.sender).pendingInitiators packet.sender packet.sessionId packet.message
  | .resp =>
    ends.RespSound (s.mgr packet.sender.other).pendingInitiators packet.sender.other packet.sessionId packet.message

/-- What holds of every pair a run reaches. -/
structure Inv (s : Pair H) : Prop where
  tables : ∀ side, SessionManager.TableInvariant (ends.config side) (s.mgr side)
  room : ∀ side, (s.mgr side).hasRoomFor (ends.config side) (ends.nodeId side.other) = true
  single : ∀ side, ends.Single side (s.mgr side).pendingInitiators
  packets : ∀ packet ∈ s.net, s.PacketSound ends packet
  calls : ∀ side, ∀ call ∈ (s.party side).call,
    ends.CallSound (s.mgr side) (s.mgr side.other).pendingInitiators side call.init
  sent : ∀ side sid message, (s.party side).sent = some (sid, message) →
    (s.mgr side).pendingInitiators.contains sid = true →
    ends.InitSound (s.mgr side).pendingInitiators side sid message

variable {ends}

theorem PacketSound.mono (h : s.PacketSound ends packet)
    (hsub : ∀ side state, (s'.mgr side).pendingInitiators.find? packet.sessionId = some state →
      (s.mgr side).pendingInitiators.find? packet.sessionId = some state) : s'.PacketSound ends packet := by
  unfold PacketSound at *
  split at h
  · exact h.mono (hsub _)
  · exact h.mono (hsub _)

theorem Inv.put (hinv : s.Inv ends) (htables : SessionManager.TableInvariant (ends.config side) mgr')
    (hroom : mgr'.hasRoomFor (ends.config side) (ends.nodeId side.other) = true)
    (hsub : ∀ sid state, mgr'.pendingInitiators.find? sid = some state →
      (s.mgr side).pendingInitiators.find? sid = some state)
    (hcall : ∀ c ∈ call, ends.CallSound mgr' (s.mgr side.other).pendingInitiators side c.init) :
    (s.put side mgr' call).Inv ends := by
  have hmono (side' : Side) (sid : UInt32) (state : PendingInitiator H)
      (hfind : ((s.put side mgr' call).mgr side').pendingInitiators.find? sid = some state) :
      (s.mgr side').pendingInitiators.find? sid = some state := by
    rw [mgr_put] at hfind
    split_ifs at hfind with hside
    · exact hside ▸ hsub sid state hfind
    · exact hfind
  constructor
  · intro side'
    rw [mgr_put]
    split_ifs with hside
    · exact hside ▸ htables
    · exact hinv.tables side'
  · intro side'
    rw [mgr_put]
    split_ifs with hside
    · exact hside ▸ hroom
    · exact hinv.room side'
  · exact fun side' sid sid' state state' h h' =>
      hinv.single side' sid sid' state state' (hmono _ _ _ h) (hmono _ _ _ h')
  · exact fun packet hpacket => (hinv.packets packet hpacket).mono fun side' => hmono side' _
  · intro side' c hc
    rw [call_put] at hc
    split_ifs at hc with hside
    · subst hside
      simpa only [mgr_put, if_true, if_neg (Side.other_ne _)] using hcall c hc
    · have hsound := (hinv.calls side' c hc).mono (hmono side'.other _)
      simpa only [mgr_put, if_neg hside] using hsound
  · intro side' sid message hsent hcontains
    rw [sent_put] at hsent
    obtain ⟨state, hstate⟩ := SortedMap.contains_iff.mp hcontains
    have hbefore := SortedMap.contains_of_find? (hmono side' sid state hstate)
    exact (hinv.sent side' sid message hsent hbefore).mono (hmono side' sid)

theorem Inv.net (hinv : s.Inv ends) {net : List Packet} (hnet : ∀ packet ∈ net, s.PacketSound ends packet) :
    Inv ends { s with net := net } :=
  ⟨hinv.tables, hinv.room, hinv.single, hnet, hinv.calls, hinv.sent⟩

/-! ### Steps as moves -/

variable (ends) in
/-- `s'` is reached by allowed moves, which are moves of an orderly run if `once` holds. -/
def Sim (once : Prop) (s s' : Pair H) : Prop :=
  s'.Inv ends ∧ ∃ moves : List (Move UInt32),
    moves.foldl Handshakes.move (s.abstract ends) = s'.abstract ends ∧
    Run.Along Handshakes.move Handshakes.Allowed (s.abstract ends) moves ∧
    (once → Run.Along Handshakes.move Handshakes.Once (s.abstract ends) moves)

variable {once : Prop} {s'' : Pair H}

theorem Sim.still (hinv : s'.Inv ends) (h : s.abstract ends = s'.abstract ends) : Sim ends once s s' :=
  ⟨hinv, [], h, trivial, fun _ => trivial⟩

theorem Sim.move (hinv : s'.Inv ends) (m : Move UInt32)
    (hmove : (s.abstract ends).move m = s'.abstract ends) (hallowed : (s.abstract ends).Allowed m)
    (honce : once → (s.abstract ends).Once m) : Sim ends once s s' :=
  ⟨hinv, [m], hmove, ⟨hallowed, trivial⟩, fun h => ⟨honce h, trivial⟩⟩

theorem Sim.trans (h : Sim ends once s s') (h' : Sim ends once s' s'') : Sim ends once s s'' := by
  obtain ⟨-, moves, hmoves, hallowed, honce⟩ := h
  obtain ⟨hinv, moves', hmoves', hallowed', honce'⟩ := h'
  refine ⟨hinv, moves ++ moves', ?_, hallowed.append ?_, fun ho => (honce ho).append ?_⟩
  · rw [List.foldl_append, hmoves, hmoves']
  · rw [hmoves]
    exact hallowed'
  · rw [hmoves]
    exact honce' ho

variable (ends) in
theorem respInFlight_iff {sid : UInt32} : s.respInFlight side sid = true ↔ sid ∈ (s.abstract ends).responses side := by
  show _ ↔ sid ∈ inFlight s.net .resp side
  simp [respInFlight, mem_inFlight]

variable (ends) in
theorem beingAnswered_iff {sid : UInt32} : s.beingAnswered side sid = true ↔
    (s.abstract ends).answering side.other = some sid ∨ sid ∈ (s.abstract ends).responses side := by
  simp only [beingAnswered, Bool.or_eq_true, respInFlight_iff ends]
  refine or_congr_left ?_
  show _ ↔ admittedId (s.party side.other).call = some sid
  rw [admittedId_eq_some_iff]
  rcases (s.party side.other).call with _ | ⟨init, _ | _⟩ <;> simp

theorem waitsFor_iff (hinv : s.Inv ends) {sid : UInt32} :
    s.waitsFor ends side sid = true ↔ (s.abstract ends).pending side = some sid := by
  show _ ↔ ends.pending side (s.mgr side) = some sid
  rw [Ends.pending_eq_some_iff (hinv.single side)]
  simp [waitsFor, Option.any_eq_true]

/-- What a purge at `now` may do: initiations time out, retired sessions and cached transcripts go. -/
structure Purged (now : Time) (mgr mgr' : SessionManager H) : Prop where
  sessions : mgr'.sessions = mgr.sessions
  sessionToPeer : mgr'.sessionToPeer = mgr.sessionToPeer
  retired : mgr'.retired ⊆ mgr.retired
  pending : mgr'.pendingInitiators = mgr.pendingInitiators.filter fun _ state => now < state.expires

namespace Purged

variable {now : Time} {mgr : SessionManager H}

theorem subset (h : Purged now mgr mgr') : mgr'.pendingInitiators ⊆ mgr.pendingInitiators :=
  h.pending ▸ SortedMap.filter_subset _ _

theorem find? (h : Purged now mgr mgr') (sid : UInt32) (state : PendingInitiator H)
    (hfind : mgr'.pendingInitiators.find? sid = some state) : mgr.pendingInitiators.find? sid = some state :=
  SortedMap.find?_of_subset h.subset hfind

theorem not_inUse (h : Purged now mgr mgr') {sid : UInt32} (huse : mgr.sessionIdInUse sid = false) :
    mgr'.sessionIdInUse sid = false := by
  simp only [SessionManager.sessionIdInUse, Bool.or_eq_false_iff, h.sessionToPeer] at huse ⊢
  obtain ⟨⟨hactive, hretired⟩, hpending⟩ := huse
  rw [Bool.eq_false_iff] at hretired hpending
  refine ⟨⟨hactive, ?_⟩, ?_⟩
  · exact Bool.eq_false_iff.mpr fun hc => hretired (SortedMap.contains_of_subset h.retired hc)
  · exact Bool.eq_false_iff.mpr fun hc => hpending (SortedMap.contains_of_subset h.subset hc)

end Purged

theorem sim_purge (hinv : s.Inv ends) {now : Time} (hintime : s.AnsweredInTime ends side now)
    (hpurged : Purged now (s.mgr side) mgr') :
    Sim ends (s.NoTimeout ends side now) s (s.put side mgr' (s.party side).call) := by
  have hinv' : (s.put side mgr' (s.party side).call).Inv ends := by
    refine hinv.put ((hinv.tables side).shrink hpurged.sessions hpurged.sessionToPeer hpurged.retired
      hpurged.subset) ?_ hpurged.find? fun c hc => ?_
    · simpa only [SessionManager.hasRoomFor, hpurged.sessions] using hinv.room side
    · obtain ⟨hpeer, huse, hanswer⟩ := hinv.calls side c hc
      exact ⟨hpeer, hpurged.not_inUse huse, hanswer⟩
  by_cases hsame : ends.pending side mgr' = (s.abstract ends).pending side
  · refine .still hinv' ?_
    rw [abstract_put_pending hpurged.sessions, hsame, Function.update_eq_self]
  -- The initiation has timed out.
  have hnone : ends.pending side mgr' = none :=
    (Ends.pending_of_sub (hinv.single side) hpurged.find?).2.resolve_left hsame
  obtain ⟨sid, hsid⟩ := Option.ne_none_iff_exists'.mp fun h => hsame (hnone.trans h.symm)
  obtain ⟨state, hfind, hpeer⟩ := (Ends.pending_eq_some_iff (hinv.single side)).mp hsid
  have hlate : ¬ now < state.expires := by
    intro hlive
    refine Ends.pending_eq_none_iff.mp hnone sid state ?_ hpeer
    rw [hpurged.pending]
    exact SortedMap.find?_filter_eq_some_iff.mpr ⟨hfind, by simpa using hlive⟩
  have hmem := SortedMap.find?_eq_some_iff.mp hfind
  refine .move hinv' (.expire side) ?_ (fun id hid => ?_) fun hno => ?_
  · rw [abstract_put_pending hpurged.sessions, hnone]
    rfl
  · obtain rfl : sid = id := Option.some.inj (hsid.symm.trans hid.1)
    exact hlate (hintime _ hmem hpeer ((beingAnswered_iff ends).mpr hid.2))
  · exact hlate (hno _ hmem hpeer)

/-! ### Messages that come and go -/

variable {index : Nat}

theorem Inv.eraseIdx (hinv : s.Inv ends) (index : Nat) : Inv ends { s with net := s.net.eraseIdx index } :=
  hinv.net fun packet hpacket => hinv.packets packet (List.mem_of_mem_eraseIdx hpacket)

theorem Inv.cons (hinv : s.Inv ends) (hpacket : s.PacketSound ends packet) :
    Inv ends { s with net := packet :: s.net } := by
  refine hinv.net fun packet' hmem => ?_
  rcases List.mem_cons.mp hmem with rfl | hmem
  · exact hpacket
  · exact hinv.packets packet' hmem

theorem abstract_eraseIdx_init (h : s.net[index]? = some packet) (hkind : packet.kind = .init) :
    abstract ends { s with net := s.net.eraseIdx index } =
      (s.abstract ends).move (.discard packet.sender.other packet.sessionId) := by
  rw [abstract_getElem? h, abstract_cons_init (s := { s with net := s.net.eraseIdx index }) packet hkind,
    Handshakes.move_discard_transmit]

theorem abstract_eraseIdx_resp (h : s.net[index]? = some packet) (hkind : packet.kind = .resp) :
    abstract ends { s with net := s.net.eraseIdx index } =
      (s.abstract ends).move (.lose packet.sender.other packet.sessionId) := by
  rw [abstract_getElem? h, abstract_cons_resp (s := { s with net := s.net.eraseIdx index }) packet hkind,
    Handshakes.move_lose_duplicate]

theorem sim_retransmit (hinv : s.Inv ends) :
    Sim ends (s.Orderly ends (.retransmit side)) s (s.step P ends (.retransmit side)) := by
  cases hsent : (s.party side).sent with
  | none =>
    simp only [step, hsent]
    exact .still hinv rfl
  | some sent =>
    obtain ⟨sid, message⟩ := sent
    simp only [step, hsent]
    split_ifs with hpending
    · exact .move (hinv.cons (hinv.sent side sid message hsent hpending)) (.transmit side.other sid)
        (abstract_cons_init ⟨.init, side, sid, message⟩ rfl).symm trivial False.elim
    · exact .still hinv rfl

theorem sim_duplicate (hinv : s.Inv ends) :
    Sim ends (s.Orderly ends (.duplicate index)) s (s.step P ends (.duplicate index)) := by
  cases hpacket : s.net[index]? with
  | none =>
    simp only [step, hpacket]
    exact .still hinv rfl
  | some packet =>
    simp only [step, hpacket]
    have hmem : packet ∈ s.net := List.mem_of_getElem? hpacket
    have hinv' := hinv.cons (hinv.packets packet hmem)
    cases hkind : packet.kind with
    | init =>
      exact .move hinv' (.transmit packet.sender.other packet.sessionId) (abstract_cons_init packet hkind).symm trivial
        False.elim
    | resp =>
      refine .move hinv' (.duplicate packet.sender.other packet.sessionId) (abstract_cons_resp packet hkind).symm ?_
        False.elim
      exact mem_inFlight.mpr ⟨packet, hmem, hkind, by simp, rfl⟩

theorem sim_lose (hinv : s.Inv ends) (hcareful : s.Careful ends (.lose index)) :
    Sim ends (s.Orderly ends (.lose index)) s (s.step P ends (.lose index)) := by
  simp only [step]
  cases hpacket : s.net[index]? with
  | none =>
    rw [List.eraseIdx_of_length_le (List.getElem?_eq_none_iff.mp hpacket)]
    exact .still hinv rfl
  | some packet =>
    cases hkind : packet.kind with
    | init =>
      exact .move (hinv.eraseIdx index) (.discard packet.sender.other packet.sessionId)
        (abstract_eraseIdx_init hpacket hkind).symm trivial False.elim
    | resp =>
      refine .move (hinv.eraseIdx index) (.lose packet.sender.other packet.sessionId)
        (abstract_eraseIdx_resp hpacket hkind).symm (fun hwaits => ?_) False.elim
      have hcopy := hcareful packet hpacket hkind ((waitsFor_iff hinv).mpr hwaits)
      have hresponses : (abstract ends { s with net := s.net.eraseIdx index }).responses packet.sender.other =
          ((s.abstract ends).responses packet.sender.other).erase packet.sessionId := by
        rw [abstract_eraseIdx_resp hpacket hkind]
        simp [Handshakes.move]
      rw [← hresponses]
      exact (respInFlight_iff ends).mp hcopy

end Pair

end Aegis
