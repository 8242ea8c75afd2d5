import Aegis.Tunnel.EndpointExchange

/-!
# Nominating endpoints

A response to a challenge makes the challenged endpoint the peer's. The table of challenges is shared by the
receive loop and the maintenance loop, each call on it is a critical section of its own, and punching makes
several: begin, send, and cancel if the send failed. So runs are of sections (`EndpointSection`), in any order
and with any arguments, with anything else the node does to its other tables in between. A whole call of
`begin_endpoint_punching` or of the handler for candidates is one such run (`reaches_beginEndpointPunching`,
`reaches_handleEndpointCandidatesFrame`).

An entry of the table was put there by a `begin` and not taken out since (`leaves_step`). That gives the
challenge that a nomination answers, and that no challenge nominates twice.
-/

namespace Aegis

variable {H : Type}

/-- A critical section of the endpoint handlers, of punching or of the maintenance loop. -/
inductive EndpointSection (H : Type)
  | candidates (frame : EndpointFrame)
  | punch (frame : EndpointFrame)
  | attempt (peerId : NodeId) (now : Time)
  | begin (transactionId : UInt64) (target : EndpointPunchTarget) (now : Time)
  | sendPunch (peerId : NodeId) (endpoint : Endpoint) (message : EndpointPunchMessage) (entropy : Entropy)
  | cancel (transactionId : UInt64)
  | expire (now : Time)
  | reset
  /-- The rest of the node, which does not touch the table of challenges. -/
  | elsewhere (other : EndpointExchange H)

/-- The section belongs to the rest of the node. -/
def EndpointSection.isElsewhere : EndpointSection H → Bool
  | .elsewhere _ => true
  | _ => false

namespace EndpointExchange

def step (P : Primitives H) (cfg : TunnelConfig) (s : EndpointExchange H) :
    EndpointSection H → EndpointExchange H
  | .candidates frame => (s.receiveCandidates P cfg frame).1
  | .punch frame => s.handleEndpointPunchFrame P cfg frame
  | .attempt peerId now => { s with attempts := s.attempts.insert peerId now }
  | .begin transactionId target now => { s with tracker := (s.tracker.begin? transactionId target now).getD s.tracker }
  | .sendPunch peerId endpoint message entropy => (s.sendEndpointPunch P cfg peerId endpoint message entropy).1
  | .cancel transactionId => { s with tracker := s.tracker.cancel transactionId }
  | .expire now => { s with tracker := (s.tracker.expire now).2 }
  | .reset => { s with tracker := s.tracker.reset }
  | .elsewhere other => { other with tracker := s.tracker }

/-- The challenge that a frame acknowledges, with its id. -/
def acknowledged? (P : Primitives H) (s : EndpointExchange H) (frame : EndpointFrame) :
    Option (UInt64 × EndpointPunchTarget) :=
  if !s.running then none
  else
    match (s.openFrame P frame TYPE_ENDPOINT_PUNCH deserializeEndpointPunch).2 with
    | none => none
    | some (peerId, punch) =>
      if punch.kind = .response then
        (s.tracker.answered? punch.transactionId peerId frame.sender frame.now).map (punch.transactionId, ·)
      else none

/-- The section takes the challenge out of the table: it is acknowledged, expired or cancelled. -/
def Ends (P : Primitives H) (transactionId : UInt64) (s : EndpointExchange H) : EndpointSection H → Prop
  | .punch frame => ∃ target, s.acknowledged? P frame = some (transactionId, target)
  | .cancel id => id = transactionId
  | .expire now => transactionId ∈ (s.tracker.expire now).1
  | .reset => True
  | _ => False

variable {P : Primitives H} {cfg : TunnelConfig} {s : EndpointExchange H} {frame : EndpointFrame}

/-! ### Calls as runs of sections -/

/-- The second state comes from the first by sections of the handlers and of punching alone. -/
def Reaches (P : Primitives H) (cfg : TunnelConfig) (s s' : EndpointExchange H) : Prop :=
  ∃ sections : List (EndpointSection H), (∀ a ∈ sections, a.isElsewhere = false) ∧ sections.foldl (step P cfg) s = s'

theorem Reaches.refl (s : EndpointExchange H) : Reaches P cfg s s := ⟨[], by simp, rfl⟩

variable {s' : EndpointExchange H}

theorem Reaches.tail (h : Reaches P cfg s s') (a : EndpointSection H)
    (ha : a.isElsewhere = false) : Reaches P cfg s (s'.step P cfg a) :=
  Run.exists_foldl_concat h ha

/-- Drawing ids is a run of attempts to begin, of which the last may have succeeded. -/
theorem reaches_beginUnder (target : EndpointPunchTarget) (now : Time) (h : Reaches P cfg s s')
    (ids : List (Option UInt64)) : Reaches P cfg s { s' with tracker := (beginUnder target now s'.tracker ids).1 } := by
  induction ids with
  | nil => exact h
  | cons drawn ids ih =>
    cases drawn with
    | none => exact ih
    | some id =>
      rw [beginUnder]
      split_ifs
      · exact ih
      · have hbegin := h.tail (.begin id target now) rfl
        rw [step] at hbegin
        cases hcase : s'.tracker.begin? id target now with
        | some tracker =>
          rw [hcase] at hbegin
          exact hbegin
        | none => exact ih

theorem reaches_challenge (peerId : NodeId) (now : Time) (candidate : EndpointCandidate) (draws : ChallengeDraws)
    (h : Reaches P cfg s s') : Reaches P cfg s (challenge P cfg peerId now s' candidate draws) := by
  have hbegun := reaches_beginUnder ⟨peerId, candidate.endpoint⟩ now h (draws.ids.take 8)
  unfold challenge
  split
  · rename_i tracker hresult
    rwa [hresult] at hbegun
  · rename_i tracker id hresult
    rw [hresult] at hbegun
    have hsent := hbegun.tail (.sendPunch peerId candidate.endpoint ⟨.challenge, id⟩ draws.entropy) rfl
    dsimp only
    split
    · exact hsent
    · exact hsent.tail (.cancel id) rfl

theorem reaches_beginEndpointPunching (peerId : NodeId) (now : Time) (draws : Nat → ChallengeDraws)
    (h : Reaches P cfg s s') : Reaches P cfg s (s'.beginEndpointPunching P cfg peerId now draws) := by
  unfold beginEndpointPunching
  split
  · exact h
  split
  · exact h
  split
  · exact h
  · refine Run.invariant (Reaches P cfg s) ?_ ?_ _
    · intro s'' candidate h'
      exact reaches_challenge _ _ _ _ h'
    · exact h.tail (.attempt peerId now) rfl

/-- The second state has the challenges and the endpoints of the first. -/
structure Unmoved (s s' : EndpointExchange H) : Prop where
  tracker : s'.tracker = s.tracker
  endpointOf : ∀ p, s'.endpointOf p = s.endpointOf p

theorem Unmoved.trans {s₁ s₂ s₃ : EndpointExchange H} (h : Unmoved s₁ s₂) (h' : Unmoved s₂ s₃) : Unmoved s₁ s₃ :=
  ⟨h'.tracker.trans h.tracker, fun p => (h'.endpointOf p).trans (h.endpointOf p)⟩

theorem Unmoved.of_eq {s s' : EndpointExchange H} (hpeers : s'.peers = s.peers) (htracker : s'.tracker = s.tracker) :
    Unmoved s s' :=
  ⟨htracker, fun p => by unfold EndpointExchange.endpointOf; rw [hpeers]⟩

theorem unmoved_sendControl (peerId : NodeId) (packetType : UInt8) (payload : List UInt8)
    (endpoint : Endpoint) (entropy : Entropy) :
    Unmoved s (s.sendControl P cfg peerId packetType payload endpoint entropy).1 := by
  unfold sendControl
  split <;> exact .of_eq rfl rfl

theorem unmoved_sendEndpointPunch (peerId : NodeId) (endpoint : Endpoint) (message : EndpointPunchMessage)
    (entropy : Entropy) : Unmoved s (s.sendEndpointPunch P cfg peerId endpoint message entropy).1 := by
  unfold sendEndpointPunch
  split
  · exact .of_eq rfl rfl
  · exact unmoved_sendControl ..

theorem unmoved_sendEndpointCandidateUpdate (peerId : NodeId) (update : EndpointCandidateMessage)
    (entropy : Entropy) : Unmoved s (s.sendEndpointCandidateUpdate P cfg peerId update entropy) := by
  unfold sendEndpointCandidateUpdate
  split
  · exact .of_eq rfl rfl
  split
  · exact .of_eq rfl rfl
  split
  · exact .of_eq rfl rfl
  · exact unmoved_sendControl ..

theorem unmoved_modify (nodeId : NodeId) (f : Peer → Peer) (hf : ∀ peer, (f peer).endpoint = peer.endpoint) :
    Unmoved s { s with peers := s.peers.modify nodeId f } := by
  refine ⟨rfl, fun p => ?_⟩
  unfold endpointOf
  rw [PeerManager.find?_modify]
  split_ifs
  · cases s.peers.peers.find? p with
    | none => rfl
    | some peer => exact hf peer
  · rfl

theorem unmoved_markSeen (now : Time) (nodeId : NodeId) :
    Unmoved s { s with peers := s.peers.markSeen now nodeId none } := by
  rw [PeerManager.markSeen_eq_modify]
  exact unmoved_modify nodeId _ fun _ => rfl

theorem unmoved_setEndpointCandidates (nodeId : NodeId) (candidates : List EndpointCandidate) :
    Unmoved s { s with peers := (s.peers.setEndpointCandidates nodeId candidates).1 } := by
  unfold PeerManager.setEndpointCandidates
  split_ifs
  · exact .of_eq rfl rfl
  · exact unmoved_modify nodeId _ fun _ => rfl

theorem unmoved_recordLocal (candidates : List EndpointCandidate) :
    Unmoved s (candidates.foldl recordLocalEndpointCandidate s) := by
  refine Run.invariant (Unmoved s) ?_ (.of_eq rfl rfl) candidates
  intro s' candidate h
  refine h.trans ?_
  unfold recordLocalEndpointCandidate
  split_ifs <;> exact .of_eq rfl rfl

theorem unmoved_receiveCandidates (frame : EndpointFrame) : Unmoved s (s.receiveCandidates P cfg frame).1 := by
  have hopened : Unmoved s (s.openFrame P frame TYPE_ENDPOINT_CANDIDATES deserializeEndpointCandidates).1 :=
    .of_eq rfl rfl
  unfold receiveCandidates
  split
  · exact .of_eq rfl rfl
  split
  · rename_i hcase
    rwa [hcase] at hopened
  · rename_i opened peerId update hcase
    rw [hcase] at hopened
    have hseen := hopened.trans (unmoved_markSeen frame.seenAt peerId)
    dsimp only
    split
    · exact hseen.trans (unmoved_setEndpointCandidates peerId _)
    split
    · exact hseen
    split
    · exact hseen
    have hrecorded := hseen.trans (unmoved_recordLocal update.candidates)
    split
    · exact hrecorded
    · exact hrecorded.trans (unmoved_sendEndpointCandidateUpdate ..)

/-- What a punch frame does: nothing to challenges and endpoints, or it acknowledges a challenge, which is taken
out, and the endpoint of the challenged peer becomes the challenged one. -/
theorem handleEndpointPunchFrame_cases (s : EndpointExchange H) (frame : EndpointFrame) :
    (s.acknowledged? P frame = none ∧ Unmoved s (s.handleEndpointPunchFrame P cfg frame)) ∨
    ∃ id target, s.acknowledged? P frame = some (id, target) ∧
      (s.handleEndpointPunchFrame P cfg frame).tracker = s.tracker.cancel id ∧
      ∀ p, (s.handleEndpointPunchFrame P cfg frame).endpointOf p = s.endpointOf p ∨
        (target.peerId = p ∧ (s.handleEndpointPunchFrame P cfg frame).endpointOf p = some target.endpoint) := by
  have hopened : Unmoved s (s.openFrame P frame TYPE_ENDPOINT_PUNCH deserializeEndpointPunch).1 := .of_eq rfl rfl
  unfold handleEndpointPunchFrame acknowledged?
  by_cases hrunning : (!s.running) = true
  · rw [if_pos hrunning, if_pos hrunning]
    exact Or.inl ⟨rfl, .of_eq rfl rfl⟩
  rw [if_neg hrunning, if_neg hrunning]
  generalize s.openFrame P frame TYPE_ENDPOINT_PUNCH deserializeEndpointPunch = result at hopened ⊢
  obtain ⟨opened, _ | ⟨peerId, punch⟩⟩ := result
  · exact Or.inl ⟨rfl, hopened⟩
  have hseen := hopened.trans (unmoved_markSeen frame.seenAt peerId)
  cases hkind : punch.kind with
  | challenge =>
    simp only [hkind, reduceCtorEq, if_false, true_and]
    refine Or.inl ?_
    split
    · exact hseen
    split
    · exact hseen
    · exact hseen.trans (unmoved_sendEndpointPunch ..)
  | response =>
    have htracker : opened.tracker = s.tracker := hopened.tracker
    simp only [hkind, if_true, EndpointPunchTracker.acknowledge, htracker]
    cases hanswered : s.tracker.answered? punch.transactionId peerId frame.sender frame.now with
    | none => exact Or.inl ⟨rfl, htracker ▸ hseen⟩
    | some target =>
      refine Or.inr ⟨punch.transactionId, target, rfl, rfl, fun p => ?_⟩
      simp only [endpointOf, PeerManager.markHolePunched, PeerManager.find?_modify]
      split_ifs with hp
      · cases hpeer : (opened.peers.markSeen frame.seenAt peerId none).peers.find? p with
        | none =>
          have hnone := hseen.endpointOf p
          simp only [endpointOf, hpeer] at hnone
          exact Or.inl hnone
        | some peer => exact Or.inr ⟨hp.symm, rfl⟩
      · exact Or.inl (hseen.endpointOf p)

theorem endpointOf_step {a : EndpointSection H} {p : NodeId} (ha : a.isElsewhere = false)
    (hchanged : (s.step P cfg a).endpointOf p ≠ s.endpointOf p) :
    ∃ frame id target, a = .punch frame ∧ s.acknowledged? P frame = some (id, target) ∧ target.peerId = p ∧
      (s.step P cfg a).endpointOf p = some target.endpoint := by
  cases a with
  | candidates frame => exact absurd ((unmoved_receiveCandidates frame).endpointOf p) hchanged
  | punch frame =>
    rcases handleEndpointPunchFrame_cases (P := P) s frame with ⟨-, hunmoved⟩ | ⟨id, target, hacknowledged, -, hends⟩
    · exact absurd (hunmoved.endpointOf p) hchanged
    · rcases hends p with hsame | ⟨hid, hwritten⟩
      · exact absurd hsame hchanged
      · exact ⟨frame, id, target, rfl, hacknowledged, hid, hwritten⟩
  | sendPunch peerId endpoint message entropy =>
    exact absurd ((unmoved_sendEndpointPunch peerId endpoint message entropy).endpointOf p) hchanged
  | attempt | begin | cancel | expire | reset => exact absurd rfl hchanged
  | elsewhere other => exact absurd ha (by simp [EndpointSection.isElsewhere])

def Begins (transactionId : UInt64) (target : EndpointPunchTarget) (sentAt : Time) (s : EndpointExchange H)
    (a : EndpointSection H) : Prop :=
  a = .begin transactionId target sentAt ∧ (s.tracker.begin? transactionId target sentAt).isSome = true

/-- What a section may leave in the table: the challenge that it begins, and challenges that were there and that
it does not end. -/
structure Leaves (P : Primitives H) (s : EndpointExchange H) (a : EndpointSection H) (after : EndpointPunchTracker) :
    Prop where
  timeout : after.timeout = s.tracker.timeout
  pending : ∀ id entry, after.pending.find? id = some entry →
    Begins id entry.target entry.sentAt s a ∨ (s.tracker.pending.find? id = some entry ∧ ¬Ends P id s a)

theorem Leaves.of_eq {a : EndpointSection H} {after : EndpointPunchTracker} (h : after = s.tracker)
    (hends : ∀ id, ¬Ends P id s a) : Leaves P s a after := by
  refine ⟨by rw [h], fun id entry hfind => ?_⟩
  rw [h] at hfind
  exact Or.inr ⟨hfind, hends id⟩

theorem Leaves.of_cancel {a : EndpointSection H} {ended : UInt64} (hends : ∀ id, Ends P id s a → id = ended) :
    Leaves P s a (s.tracker.cancel ended) := by
  refine ⟨rfl, fun id entry hfind => ?_⟩
  rw [EndpointPunchTracker.cancel, SortedMap.find?_erase] at hfind
  split_ifs at hfind with hid
  exact Or.inr ⟨hfind, fun h => hid (hends id h)⟩

theorem leaves_begin (id : UInt64) (target : EndpointPunchTarget) (now : Time) :
    Leaves P s (.begin id target now) ((s.tracker.begin? id target now).getD s.tracker) := by
  cases hbegin : s.tracker.begin? id target now with
  | none => exact .of_eq rfl fun _ => not_false
  | some tracker =>
    rw [Option.getD_some, EndpointPunchTracker.begin?_eq_some hbegin]
    refine ⟨rfl, fun id' entry hfind => ?_⟩
    rcases SortedMap.find?_insert_eq_some_iff.mp hfind with ⟨rfl, rfl⟩ | ⟨-, hfind⟩
    · exact Or.inl ⟨rfl, by rw [hbegin]; rfl⟩
    · exact Or.inr ⟨hfind, not_false⟩

theorem leaves_expire (now : Time) : Leaves P s (.expire now) (s.tracker.expire now).2 := by
  refine ⟨rfl, fun id entry hfind => ?_⟩
  rw [EndpointPunchTracker.expire, SortedMap.find?_filter_eq_some_iff] at hfind
  refine Or.inr ⟨hfind.1, fun hexpired => ?_⟩
  obtain ⟨pending, hpending, hoverdue⟩ := EndpointPunchTracker.mem_expired_iff.mp hexpired
  obtain rfl : pending = entry := by simpa [hpending] using hfind.1
  simp [hoverdue] at hfind

theorem leaves_punch (frame : EndpointFrame) :
    Leaves P s (.punch frame) (s.handleEndpointPunchFrame P cfg frame).tracker := by
  rcases @handleEndpointPunchFrame_cases _ P cfg s frame with
    ⟨hnone, hunmoved⟩ | ⟨ended, target, hacknowledged, htracker, -⟩
  · exact .of_eq hunmoved.tracker fun id => by simp [Ends, hnone]
  · rw [htracker]
    refine .of_cancel ?_
    rintro id ⟨target', hacknowledged'⟩
    rw [hacknowledged, Option.some_inj, Prod.mk.injEq] at hacknowledged'
    exact hacknowledged'.1.symm

theorem leaves_step (a : EndpointSection H) : Leaves P s a (s.step P cfg a).tracker := by
  cases a with
  | candidates frame => exact .of_eq (unmoved_receiveCandidates frame).tracker fun _ => not_false
  | punch frame => exact leaves_punch frame
  | sendPunch peerId endpoint message entropy =>
    exact .of_eq (unmoved_sendEndpointPunch peerId endpoint message entropy).tracker fun _ => not_false
  | attempt | elsewhere => exact .of_eq rfl fun _ => not_false
  | begin id target now => exact leaves_begin id target now
  | cancel ended => exact .of_cancel fun _ => Eq.symm
  | expire now => exact leaves_expire now
  | reset => exact ⟨rfl, fun id entry hfind => by simp [step, EndpointPunchTracker.reset] at hfind⟩

/-! ### Nominations along a run -/

/-- The frame opens under the key of a session with the peer, as a response to the challenge. -/
def Responds (P : Primitives H) (s : EndpointExchange H) (frame : EndpointFrame) (peerId : NodeId)
    (transactionId : UInt64) : Prop :=
  (s.openFrame P frame TYPE_ENDPOINT_PUNCH deserializeEndpointPunch).2 = some (peerId, ⟨.response, transactionId⟩) ∧
    ∃ header session, parseFrame frame.data = some header ∧
      s.sessions.findSessionByIdLocked header.sessionId = some session ∧ session.peerId = peerId ∧
      (Aegis.openFrame P session.recvKey header.payloadLength.toNat frame.data).isSome = true

/-- The run from `start` has begun the challenge and nothing in it has ended it since; the frame responds to it
in time, from the challenged endpoint and under a session with the challenged peer. -/
def Answers (P : Primitives H) (cfg : TunnelConfig) (start : EndpointExchange H) (run : List (EndpointSection H))
    (frame : EndpointFrame) (transactionId : UInt64) (target : EndpointPunchTarget) : Prop :=
  Responds P (run.foldl (step P cfg) start) frame target.peerId transactionId ∧ frame.sender = target.endpoint ∧
    ∃ sentAt front a back, run = front ++ a :: back ∧
      Begins transactionId target sentAt (front.foldl (step P cfg) start) a ∧
      sentAt ≤ frame.now ∧ frame.now - sentAt < start.tracker.timeout ∧
      Run.Along (step P cfg) (fun s b => ¬Ends P transactionId s b) (step P cfg (front.foldl (step P cfg) start) a) back

theorem responds_of_openFrame {peerId : NodeId} {transactionId : UInt64}
    (h : (s.openFrame P frame TYPE_ENDPOINT_PUNCH deserializeEndpointPunch).2
      = some (peerId, ⟨.response, transactionId⟩)) : Responds P s frame peerId transactionId := by
  refine ⟨h, ?_⟩
  obtain ⟨msg, header, session, hmsg, hheader, hsession, -, rfl⟩ := openFrame_eq_some h
  rcases SessionManager.decryptMessage_cases P s.sessions frame.data with
    hrefused | ⟨header', opener, hparse, hfind, -, hopens, hafter⟩
  · simp [hrefused] at hmsg
  · refine ⟨header', opener, hparse, hfind, ?_, hopens⟩
    obtain rfl : header' = header := Option.some.inj ((parsePacketHeader_of_parseFrame hparse).symm.trans hheader)
    have hestablished := SessionManager.findSessionByIdLocked_established hfind
    have hstored := SessionManager.findSessionByIdLocked_store hfind
      (show (opener.updateReplay header'.sequenceNumber.toUInt64).established = true by simpa using hestablished)
    rw [hafter, SessionManager.getSessionById_of_find hstored] at hsession
    rw [← Option.some.inj hsession]
    simp

theorem acknowledged?_eq_some {id : UInt64} {target : EndpointPunchTarget}
    (h : s.acknowledged? P frame = some (id, target)) :
    Responds P s frame target.peerId id ∧ frame.sender = target.endpoint ∧
      ∃ sentAt, s.tracker.pending.find? id = some ⟨target, sentAt⟩ ∧ sentAt ≤ frame.now ∧
        frame.now - sentAt < s.tracker.timeout := by
  unfold acknowledged? at h
  split_ifs at h
  cases hopened : (s.openFrame P frame TYPE_ENDPOINT_PUNCH deserializeEndpointPunch).2 with
  | none => simp [hopened] at h
  | some opened =>
    obtain ⟨peerId, kind, transactionId⟩ := opened
    rw [hopened] at h
    dsimp only at h
    split_ifs at h with hkind
    obtain ⟨target', hanswered, heq⟩ := Option.map_eq_some_iff.mp h
    obtain ⟨rfl, rfl⟩ := Prod.mk.inj heq
    obtain ⟨sentAt, hfind, rfl, hsender, hafter, hintime⟩ := EndpointPunchTracker.answered?_eq_some hanswered
    subst hkind
    exact ⟨responds_of_openFrame hopened, hsender.symm, sentAt, hfind, hafter, hintime⟩

variable {start : EndpointExchange H}

theorem timeout_foldl (run : List (EndpointSection H)) :
    (run.foldl (step P cfg) start).tracker.timeout = start.tracker.timeout :=
  Run.invariant (fun s : EndpointExchange H => s.tracker.timeout = start.tracker.timeout)
    (fun _ a h => (leaves_step a).timeout.trans h) rfl run

theorem begun_of_pending {id : UInt64} {entry : PendingPunch} (hstart : start.tracker.pending.find? id = none)
    {run : List (EndpointSection H)} (h : (run.foldl (step P cfg) start).tracker.pending.find? id = some entry) :
    ∃ front a back, run = front ++ a :: back ∧
      Begins id entry.target entry.sentAt (front.foldl (step P cfg) start) a ∧
      Run.Along (step P cfg) (fun s b => ¬Ends P id s b) (step P cfg (front.foldl (step P cfg) start) a) back :=
  Run.since (fun _ => True) (fun s => s.tracker.pending.find? id = some entry)
    (Begins id entry.target entry.sentAt) (fun s b => ¬Ends P id s b) (fun _ _ _ => trivial)
    (fun _ a _ => (leaves_step a).pending id entry) trivial (by simp [hstart]) h

theorem answers_of_acknowledged (hstart : start.tracker.pending = ∅) {run : List (EndpointSection H)} {id : UInt64}
    {target : EndpointPunchTarget} (h : (run.foldl (step P cfg) start).acknowledged? P frame = some (id, target)) :
    Answers P cfg start run frame id target := by
  obtain ⟨hresponds, hsender, sentAt, hfind, hafter, hintime⟩ := acknowledged?_eq_some h
  rw [timeout_foldl] at hintime
  obtain ⟨front, a, back, hrun, hbegins, halong⟩ := begun_of_pending (by rw [hstart]; rfl) hfind
  exact ⟨hresponds, hsender, sentAt, front, a, back, hrun, hbegins, hafter, hintime, halong⟩

theorem pending_of_acknowledged {id : UInt64} {target : EndpointPunchTarget}
    (h : s.acknowledged? P frame = some (id, target)) :
    (s.step P cfg (.punch frame)).tracker.pending.find? id = none := by
  rcases @handleEndpointPunchFrame_cases _ P cfg s frame with
    ⟨hnone, -⟩ | ⟨ended, target', hacknowledged, htracker, -⟩
  · simp [hnone] at h
  · obtain rfl : ended = id := by
      rw [h, Option.some_inj, Prod.mk.injEq] at hacknowledged
      exact hacknowledged.1.symm
    rw [step, htracker, EndpointPunchTracker.cancel, SortedMap.find?_erase, if_pos rfl]

/-- The handlers change the endpoint of a peer only to one that they have challenged, by a response to the
challenge, and an acknowledged challenge has to be begun again before it is acknowledged once more. -/
theorem nomination_answers_challenge (hstart : start.tracker.pending = ∅) (run : List (EndpointSection H)) :
    (∀ a p, a.isElsewhere = false →
      (step P cfg (run.foldl (step P cfg) start) a).endpointOf p ≠ (run.foldl (step P cfg) start).endpointOf p →
      ∃ frame id endpoint, a = .punch frame ∧
        (step P cfg (run.foldl (step P cfg) start) a).endpointOf p = some endpoint ∧
        Answers P cfg start run frame id ⟨p, endpoint⟩) ∧
    ∀ before first between id, run = before ++ .punch first :: between →
      (∃ target, (before.foldl (step P cfg) start).acknowledged? P first = some (id, target)) →
      ∀ again, (∃ target, (run.foldl (step P cfg) start).acknowledged? P again = some (id, target)) →
      ∃ front a back target sentAt, between = front ++ a :: back ∧
        Begins id target sentAt ((before ++ .punch first :: front).foldl (step P cfg) start) a := by
  constructor
  · intro a p ha hchanged
    obtain ⟨frame, id, target, rfl, hacknowledged, rfl, hwritten⟩ := endpointOf_step ha hchanged
    exact ⟨frame, id, target.endpoint, rfl, hwritten, answers_of_acknowledged hstart hacknowledged⟩
  · rintro before first between id rfl ⟨target, hfirst⟩ again ⟨target', hagain⟩
    rw [List.foldl_append, List.foldl_cons] at hagain
    obtain ⟨-, -, sentAt, hfind, -, -⟩ := acknowledged?_eq_some hagain
    obtain ⟨front, a, back, hbetween, hbegins, -⟩ := begun_of_pending (pending_of_acknowledged hfirst) hfind
    refine ⟨front, a, back, target', sentAt, hbetween, ?_⟩
    rwa [List.foldl_append, List.foldl_cons]

/-- Node 2 challenges node 1 at 10.0.0.1, port 7000. -/
def sampleTarget : EndpointPunchTarget := ⟨FixedBytes.copy 32 [1], ⟨IPAddress.fromIpv4 0x0a000001, 7000⟩⟩

def sampleResponse : EndpointFrame :=
  sampleEndpointFrame TYPE_ENDPOINT_PUNCH (serializeEndpointPunch ⟨.response, 5⟩) sampleTarget.endpoint

theorem nomination_answers_sampleTarget :
    Answers clearPrimitives (sampleTunnel 2) sampleExchange [.begin 5 sampleTarget 1] sampleResponse 5
      sampleTarget := by
  have hwritten : (step clearPrimitives (sampleTunnel 2) (step clearPrimitives (sampleTunnel 2) sampleExchange
      (.begin 5 sampleTarget 1)) (.punch sampleResponse)).endpointOf sampleTarget.peerId
        = some sampleTarget.endpoint := by decide +kernel
  have hrun := @nomination_answers_challenge _ clearPrimitives (sampleTunnel 2) sampleExchange rfl
    [.begin 5 sampleTarget 1]
  obtain ⟨frame, id, endpoint, hframe, hendpoint, hanswers⟩ :=
    hrun.1 (.punch sampleResponse) sampleTarget.peerId rfl (by decide +kernel)
  obtain rfl := EndpointSection.punch.inj hframe
  obtain rfl : sampleTarget.endpoint = endpoint := Option.some.inj (hwritten.symm.trans hendpoint)
  have hopened : (openFrame clearPrimitives (step clearPrimitives (sampleTunnel 2) sampleExchange
      (.begin 5 sampleTarget 1)) sampleResponse TYPE_ENDPOINT_PUNCH deserializeEndpointPunch).2
        = some (sampleTarget.peerId, ⟨.response, 5⟩) := by decide +kernel
  obtain rfl : 5 = id := by simpa using hopened.symm.trans hanswers.1.1
  exact hanswers

end EndpointExchange

end Aegis
