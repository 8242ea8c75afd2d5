import Aegis.Transport.QueueRuns

/-!
# Fairness of the send queue

Each class is served in turn: over any stretch of enqueues and pops its fair queue serves exactly the peers
that the trace shows popped in the class (`serves_run`), whatever the other class does meanwhile. What holds
of a row of users therefore holds of the code: between two pops of one peer every backlogged peer is popped,
and while a peer waits nobody else is popped twice.
-/

namespace Aegis

variable {Key : Type} [DecidableEq Key]

def SendEvent.served (priority : SendPriority) : SendEvent Key → List Key
  | .popped (some datagram) => if datagram.priority = priority then [datagram.peerKey] else []
  | _ => []

def servedIn (priority : SendPriority) (trace : List (SendEvent Key)) : List Key :=
  trace.flatMap (SendEvent.served priority)

omit [DecidableEq Key] in
theorem servedIn_append (priority : SendPriority) (trace trace' : List (SendEvent Key)) :
    servedIn priority (trace ++ trace') = servedIn priority trace ++ servedIn priority trace' :=
  List.flatMap_append

namespace SendModel

theorem serves_step (limits : SendQueueLimits) (m : SendModel Key) {op : SendOp Key} (hop : op ≠ .clear)
    (priority : SendPriority) :
    (m priority).Serves (servedIn priority (m.step limits op).2) ((m.step limits op).1 priority) := by
  cases op with
  | clear => exact absurd rfl hop
  | enqueue peerKey buffer other =>
    simp only [step, enqueue, servedIn, SendEvent.served, List.flatMap_cons, List.flatMap_nil, List.append_nil]
    split_ifs with hqueued
    · by_cases hclass : priority = other
      · subst hclass
        rw [Function.update_self]
        exact .push peerKey buffer.bytes (.done _)
      · rw [Function.update_of_ne hclass]
        exact .done _
    · exact .done _
  | pop =>
    simp only [step, servedIn, List.flatMap_cons, List.flatMap_nil, List.append_nil]
    rcases m.pop_cases with ⟨-, hpop⟩ | ⟨datagram, hdatagram, -, rest, hserved, hnext⟩
    · rw [hpop]
      exact .done _
    · rw [hdatagram, hnext]
      by_cases hclass : datagram.priority = priority
      · subst hclass
        simp only [SendEvent.served, if_true, Function.update_self]
        exact .pop hserved (.done _)
      · simp only [SendEvent.served, if_neg hclass, Function.update_of_ne (Ne.symm hclass)]
        exact .done _

end SendModel

namespace BoundedSendQueue

/-- The queue and the trace of some operations from a given queue. -/
def runFrom (q : BoundedSendQueue Key) (ops : List (SendOp Key)) : BoundedSendQueue Key × List (SendEvent Key) :=
  ops.foldl (Run.record step) (q, [])

/-- The peer has datagrams of the class waiting. -/
def Backlogged (q : BoundedSendQueue Key) (peerKey : Key) (priority : SendPriority) : Prop :=
  (q.laneOf peerKey priority).items ≠ []

/-- The next pop returns a datagram of the peer in the class. -/
def Pops (q : BoundedSendQueue Key) (peerKey : Key) (priority : SendPriority) : Prop :=
  ∃ datagram, q.pop.1 = some datagram ∧ datagram.peerKey = peerKey ∧ datagram.priority = priority

/-- Two consecutive pops of one peer in one class, and the enqueues and pops between them. -/
structure ConsecutivePops (q : BoundedSendQueue Key) (between : List (SendOp Key)) (peerKey : Key)
    (priority : SendPriority) : Prop where
  first : q.Pops peerKey priority
  operations : .clear ∉ between
  notBetween : peerKey ∉ servedIn priority (q.pop.2.runFrom between).2
  second : (q.pop.2.runFrom between).1.Pops peerKey priority

-- two datagrams of peer 1 with one of peer 2 between them
example : (run {} [.enqueue 1 ⟨some [10], 1, by simp⟩ .data, .enqueue 2 ⟨some [20], 1, by simp⟩ .data,
    .enqueue 1 ⟨some [11], 1, by simp⟩ .data] : BoundedSendQueue Nat × _).1.ConsecutivePops [.pop] 1 .data := by
  refine ⟨⟨⟨1, .data, [10]⟩, ?_, rfl, rfl⟩, ?_, ?_, ⟨⟨1, .data, [11]⟩, ?_, rfl, rfl⟩⟩
  · decide +kernel
  · simp
  · decide +kernel
  · decide +kernel

variable {q : BoundedSendQueue Key} {m : SendModel Key} {peerKey k : Key} {priority : SendPriority}

omit [DecidableEq Key] in
theorem Represents.backlogged_iff (h : q.Represents m) : q.Backlogged k priority ↔ k ∈ (m priority).turn := by
  rw [Backlogged, h.items_laneOf, FairQueue.mem_turn]

theorem Represents.pops (h : q.Represents m) (hpops : q.Pops peerKey priority) :
    ∃ bytes rest, (m priority).pop = some ((peerKey, bytes), rest) ∧ q.pop.2.Represents m.pop.2 ∧
      m.pop.2 priority = rest := by
  obtain ⟨datagram, hpop, rfl, rfl⟩ := hpops
  obtain ⟨hdatagram, -, hnext⟩ := h.pop
  rw [hpop] at hdatagram
  rcases m.pop_cases with ⟨-, hnone⟩ | ⟨datagram', hsome, -, rest, hserved, hrest⟩
  · simp [hnone] at hdatagram
  · obtain rfl : datagram' = datagram := by simpa [hsome] using hdatagram.symm
    exact ⟨datagram'.bytes, rest, hserved, hnext, by rw [hrest, Function.update_self]⟩

theorem Represents.serves_runFrom (h : q.Represents m) {ops : List (SendOp Key)} (hops : .clear ∉ ops)
    (priority : SendPriority) :
    ∃ m', (q.runFrom ops).1.Represents m' ∧
      (m priority).Serves (servedIn priority (q.runFrom ops).2) (m' priority) := by
  refine Run.invariant_of_mem
    (fun s : BoundedSendQueue Key × List (SendEvent Key) =>
      ∃ m', s.1.Represents m' ∧ (m priority).Serves (servedIn priority s.2) (m' priority)) ?_ ⟨m, h, .done _⟩
  rintro s op hop ⟨m', hrep, hserves⟩
  obtain ⟨hevents, -, hnext⟩ := hrep.step op
  refine ⟨_, hnext, ?_⟩
  simp only [Run.record, servedIn_append, hevents]
  exact hserves.trans (m'.serves_step _ (fun hclear => hops (hclear ▸ hop)) priority)

/-- While a peer waits in its class, no other peer is popped twice there. -/
theorem Represents.count_le_one (h : q.Represents m) {ops : List (SendOp Key)} (hops : .clear ∉ ops)
    (hpeer : q.Backlogged peerKey priority) (hwaits : peerKey ∉ servedIn priority (q.runFrom ops).2)
    (hne : k ≠ peerKey) :
    (servedIn priority (q.runFrom ops).2).count k ≤ 1 ∧
      (¬q.Backlogged k priority → (servedIn priority (q.runFrom ops).2).count k = 0) := by
  obtain ⟨m', -, hserves⟩ := h.serves_runFrom hops priority
  rw [h.backlogged_iff] at hpeer ⊢
  exact hserves.count_le_one hpeer hwaits hne

/-- Between two pops of a peer everybody else who was backlogged at the first one is popped. -/
theorem ConsecutivePops.mem_served {between : List (SendOp Key)} (h : q.ConsecutivePops between peerKey priority)
    (hrep : q.Represents m) (hne : k ≠ peerKey) (hk : q.Backlogged k priority) :
    k ∈ servedIn priority (q.pop.2.runFrom between).2 := by
  obtain ⟨bytes, rest, hpop, hnext, hrest⟩ := hrep.pops h.first
  obtain ⟨m', hrep', hserves⟩ := hnext.serves_runFrom h.operations priority
  obtain ⟨bytes', rest', hpop', -⟩ := hrep'.pops h.second
  rw [hrest] at hserves
  exact (FairQueue.ahead_of_pop hpop (hrep.backlogged_iff.mp hk) hne).mem_of_pop hne hserves hpop'

theorem Represents.backlogged_pop (hrep : q.Represents m) (hpops : q.Pops peerKey priority) (hne : k ≠ peerKey) :
    q.pop.2.Backlogged k priority ↔ q.Backlogged k priority := by
  obtain ⟨bytes, rest, hpop, hnext, hrest⟩ := hrep.pops hpops
  rw [Backlogged, Backlogged, hnext.items_laneOf, hrep.items_laneOf, hrest, FairQueue.lane_pop hpop k,
    if_neg (Ne.symm hne), List.nil_append]

/-- Between two consecutive pops of a peer in a class, every other peer with a backlog at the first one is
popped there; if the peer has more waiting, such a peer is popped once and the others not at all. So a
backlogged peer waits for at most one datagram of any other peer. -/
theorem pops_in_turn (limits : SendQueueLimits) (before between : List (SendOp Key)) (peerKey : Key)
    (priority : SendPriority) :
    ((run limits before).1.ConsecutivePops between peerKey priority →
      (∀ k ≠ peerKey, (run limits before).1.Backlogged k priority →
        k ∈ servedIn priority ((run limits before).1.pop.2.runFrom between).2) ∧
      ((run limits before).1.pop.2.Backlogged peerKey priority → ∀ k ≠ peerKey,
        ((run limits before).1.Backlogged k priority →
          (servedIn priority ((run limits before).1.pop.2.runFrom between).2).count k = 1) ∧
        (¬(run limits before).1.Backlogged k priority →
          (servedIn priority ((run limits before).1.pop.2.runFrom between).2).count k = 0))) ∧
    ((run limits before).1.Backlogged peerKey priority → .clear ∉ between →
      peerKey ∉ servedIn priority ((run limits before).1.runFrom between).2 →
      ∀ k ≠ peerKey, (servedIn priority ((run limits before).1.runFrom between).2).count k ≤ 1) := by
  obtain ⟨-, -, hrep⟩ := represents_run limits before
  refine ⟨fun h => ⟨fun k hne hk => h.mem_served hrep hne hk, fun hmore k hne => ?_⟩,
    fun hpeer hops hwaits k hne => (hrep.count_le_one hops hpeer hwaits hne).1⟩
  obtain ⟨bytes, rest, -, hnext, -⟩ := hrep.pops h.first
  obtain ⟨hle, hzero⟩ := hnext.count_le_one h.operations hmore h.notBetween hne
  refine ⟨fun hk => ?_, fun hk => hzero (mt (hrep.backlogged_pop h.first hne).mp hk)⟩
  have hpos := List.count_pos_iff.mpr (h.mem_served hrep hne hk)
  omega

end BoundedSendQueue

end Aegis
