import Aegis.Transport.QueueRefinement

/-!
# Whole runs of the send queue

A run enqueues, pops and clears in any order, and its trace says what was answered and what came out. The
traces of the queue and of the model are the same (`represents_run`), so what is shown of the model's lanes
holds of the code: a lane is what was accepted for it and not popped yet, as many pops as there are datagrams
take everything out, and the control class never looks at the data class.
-/

namespace Aegis

variable {Key : Type} [DecidableEq Key]

inductive SendOp (Key : Type)
  | enqueue (peerKey : Key) (buffer : SendBuffer) (priority : SendPriority)
  | pop
  | clear

inductive SendEvent (Key : Type)
  | answered (datagram : QueuedDatagram Key) (result : SendQueueResult)
  | popped (datagram : Option (QueuedDatagram Key))
  | cleared
deriving DecidableEq

def SendOp.isDataEnqueue : SendOp Key → Bool
  | .enqueue _ _ .data => true
  | _ => false

namespace BoundedSendQueue

def step (q : BoundedSendQueue Key) : SendOp Key → BoundedSendQueue Key × List (SendEvent Key)
  | .enqueue peerKey buffer priority =>
    let answer := q.enqueue peerKey buffer priority
    (answer.2, [.answered { peerKey, priority, bytes := buffer.bytes } answer.1])
  | .pop => (q.pop.2, [.popped q.pop.1])
  | .clear => (q.clear, [.cleared])

/-- The queue and the trace after a run from an empty queue. -/
def run (limits : SendQueueLimits) (ops : List (SendOp Key)) :
    BoundedSendQueue Key × List (SendEvent Key) :=
  ops.foldl (Run.record step) ({ limits }, [])

end BoundedSendQueue

namespace SendModel

def step (limits : SendQueueLimits) (m : SendModel Key) : SendOp Key → SendModel Key × List (SendEvent Key)
  | .enqueue peerKey buffer priority =>
    let answer := m.enqueue limits peerKey buffer priority
    (answer.2, [.answered { peerKey, priority, bytes := buffer.bytes } answer.1])
  | .pop => (m.pop.2, [.popped m.pop.1])
  | .clear => (fun _ => {}, [.cleared])

def run (limits : SendQueueLimits) (ops : List (SendOp Key)) : SendModel Key × List (SendEvent Key) :=
  ops.foldl (Run.record (step limits)) (fun _ => {}, [])

end SendModel

theorem BoundedSendQueue.Represents.step {q : BoundedSendQueue Key} {m : SendModel Key}
    (h : q.Represents m) (op : SendOp Key) :
    (q.step op).2 = (m.step q.limits op).2 ∧ (q.step op).1.limits = q.limits ∧
      (q.step op).1.Represents (m.step q.limits op).1 := by
  cases op with
  | enqueue peerKey buffer priority =>
    obtain ⟨hresult, hlimits, hnext⟩ := h.enqueue peerKey buffer priority
    refine ⟨?_, hlimits, hnext⟩
    simp only [BoundedSendQueue.step, SendModel.step, hresult]
  | pop =>
    obtain ⟨hdatagram, hlimits, hnext⟩ := h.pop
    refine ⟨?_, hlimits, hnext⟩
    simp only [BoundedSendQueue.step, SendModel.step, hdatagram]
  | clear => exact ⟨rfl, rfl, represents_empty q.limits⟩

theorem BoundedSendQueue.represents_run (limits : SendQueueLimits) (ops : List (SendOp Key)) :
    (run limits ops).2 = (SendModel.run limits ops).2 ∧ (run limits ops).1.limits = limits ∧
      (run limits ops).1.Represents (SendModel.run limits ops).1 := by
  refine Run.simulation
    (fun (s : BoundedSendQueue Key × List (SendEvent Key)) (t : SendModel Key × List (SendEvent Key)) =>
      s.2 = t.2 ∧ s.1.limits = limits ∧ s.1.Represents t.1) ?_ ⟨rfl, rfl, represents_empty limits⟩ ops
  rintro s t op ⟨htrace, hlimits, hrep⟩
  obtain ⟨hevents, hkept, hnext⟩ := hrep.step op
  rw [hlimits] at hevents hkept hnext
  refine ⟨?_, hkept, hnext⟩
  show s.2 ++ _ = t.2 ++ _
  rw [htrace, hevents]

/-! ### First in, first out -/

/-- What an answer adds to one lane. -/
def SendEvent.accepted (peerKey : Key) (priority : SendPriority) : SendEvent Key → List (List UInt8)
  | .answered datagram result =>
    if result = .queued ∧ datagram.peerKey = peerKey ∧ datagram.priority = priority then [datagram.bytes] else []
  | _ => []

/-- What a pop took from one lane. -/
def SendEvent.taken (peerKey : Key) (priority : SendPriority) : SendEvent Key → List (List UInt8)
  | .popped (some datagram) =>
    if datagram.peerKey = peerKey ∧ datagram.priority = priority then [datagram.bytes] else []
  | _ => []

/-- What the events since the last clear contribute, in order. -/
def sinceClear (part : SendEvent Key → List (List UInt8)) (trace : List (SendEvent Key)) : List (List UInt8) :=
  trace.foldl (fun collected event =>
    match event with
    | .cleared => []
    | event => collected ++ part event) []

def acceptedFor (peerKey : Key) (priority : SendPriority) : List (SendEvent Key) → List (List UInt8) :=
  sinceClear (SendEvent.accepted peerKey priority)

def poppedFor (peerKey : Key) (priority : SendPriority) : List (SendEvent Key) → List (List UInt8) :=
  sinceClear (SendEvent.taken peerKey priority)

omit [DecidableEq Key] in
theorem sinceClear_concat (part : SendEvent Key → List (List UInt8)) (trace : List (SendEvent Key))
    {event : SendEvent Key} (h : event ≠ .cleared) :
    sinceClear part (trace ++ [event]) = sinceClear part trace ++ part event := by
  rw [sinceClear, List.foldl_append]
  cases event with
  | cleared => exact absurd rfl h
  | answered datagram result => rfl
  | popped datagram => rfl

omit [DecidableEq Key] in
theorem sinceClear_cleared (part : SendEvent Key → List (List UInt8)) (trace : List (SendEvent Key)) :
    sinceClear part (trace ++ [.cleared]) = [] := by
  rw [sinceClear, List.foldl_append]
  rfl

namespace SendModel

variable {m : SendModel Key}

/-- What a pop does: nothing waits, or one datagram leaves its lane, a data one only if no control waits. -/
theorem pop_cases (m : SendModel Key) :
    ((∀ priority, (m priority).turn = []) ∧ m.pop = (none, m)) ∨
    ∃ datagram, m.pop.1 = some datagram ∧
      (datagram.priority = .data → (m .control).turn = []) ∧
      (∃ rest, (m datagram.priority).pop = some ((datagram.peerKey, datagram.bytes), rest) ∧
        m.pop.2 = Function.update m datagram.priority rest) := by
  cases hcontrol : (m .control).pop with
  | some served =>
    refine Or.inr ⟨{ peerKey := served.1.1, priority := .control, bytes := served.1.2 }, ?_, ?_, served.2, hcontrol, ?_⟩
    · simp [pop, serve, hcontrol]
    · intro h
      exact absurd h (by simp)
    · simp [pop, serve, hcontrol]
  | none =>
    cases hdata : (m .data).pop with
    | some served =>
      refine Or.inr ⟨{ peerKey := served.1.1, priority := .data, bytes := served.1.2 }, ?_, ?_, served.2, hdata, ?_⟩
      · simp [pop, serve, hcontrol, hdata]
      · intro _
        exact (FairQueue.pop_eq_none_iff _).mp hcontrol
      · simp [pop, serve, hcontrol, hdata]
    | none =>
      refine Or.inl ⟨?_, by simp [pop, serve, hcontrol, hdata]⟩
      intro priority
      cases priority
      · exact (FairQueue.pop_eq_none_iff _).mp hdata
      · exact (FairQueue.pop_eq_none_iff _).mp hcontrol

theorem lane_enqueue (limits : SendQueueLimits) (m : SendModel Key) (peerKey : Key) (buffer : SendBuffer)
    (priority : SendPriority) (k : Key) (p : SendPriority) :
    ((m.enqueue limits peerKey buffer priority).2 p).lane k
      = (m p).lane k ++ (SendEvent.answered { peerKey, priority, bytes := buffer.bytes }
          (m.enqueue limits peerKey buffer priority).1).accepted k p := by
  simp only [enqueue, SendEvent.accepted]
  by_cases hqueued : verdict limits m peerKey buffer priority = .queued
  · by_cases hp : p = priority
    · subst hp
      simp [hqueued, FairQueue.lane_push]
    · simp [hqueued, hp, Ne.symm hp]
  · simp [hqueued]

theorem lane_pop (m : SendModel Key) (k : Key) (p : SendPriority) :
    (m p).lane k = (SendEvent.popped m.pop.1).taken k p ++ (m.pop.2 p).lane k := by
  rcases m.pop_cases with ⟨-, hpop⟩ | ⟨datagram, hdatagram, -, rest, hserved, hnext⟩
  · simp [hpop, SendEvent.taken]
  · rw [hdatagram, hnext]
    by_cases hp : p = datagram.priority
    · subst hp
      simp [SendEvent.taken, FairQueue.lane_pop hserved k]
    · simp [SendEvent.taken, hp, Ne.symm hp]

/-- Every lane is what was accepted for it without what was popped from it. -/
def InOrder (s : SendModel Key × List (SendEvent Key)) : Prop :=
  ∀ peerKey priority, acceptedFor peerKey priority s.2
    = poppedFor peerKey priority s.2 ++ (s.1 priority).lane peerKey

theorem InOrder.step {s : SendModel Key × List (SendEvent Key)} (h : InOrder s) (limits : SendQueueLimits)
    (op : SendOp Key) : InOrder (Run.record (SendModel.step limits) s op) := by
  intro k p
  have hk := h k p
  cases op with
  | enqueue peerKey buffer priority =>
    show sinceClear _ (s.2 ++ [_])
      = sinceClear _ (s.2 ++ [_]) ++ ((s.1.enqueue limits peerKey buffer priority).2 p).lane k
    have htaken (datagram result) : (SendEvent.answered datagram result).taken k p = [] := rfl
    rw [sinceClear_concat _ _ (by simp), sinceClear_concat _ _ (by simp), lane_enqueue, htaken, List.append_nil,
      ← List.append_assoc]
    exact congrArg (· ++ _) hk
  | pop =>
    show sinceClear _ (s.2 ++ [_]) = sinceClear _ (s.2 ++ [_]) ++ (s.1.pop.2 p).lane k
    rw [sinceClear_concat _ _ (by simp), sinceClear_concat _ _ (by simp), List.append_assoc, ← lane_pop]
    exact (List.append_nil _).trans hk
  | clear =>
    show sinceClear _ (s.2 ++ [_]) = sinceClear _ (s.2 ++ [_]) ++ []
    rw [sinceClear_cleared, sinceClear_cleared, List.append_nil]

theorem inOrder_run (limits : SendQueueLimits) (ops : List (SendOp Key)) : InOrder (run limits ops) :=
  Run.invariant InOrder (fun _ op h => h.step limits op) (fun _ _ => rfl) ops

/-! ### Draining -/

def size (m : SendModel Key) : Nat := (m .control).total (fun _ => 1) + (m .data).total fun _ => 1

theorem size_pop (m : SendModel Key) : m.pop.2.size = m.size - 1 := by
  rcases m.pop_cases with ⟨hempty, hpop⟩ | ⟨datagram, -, -, rest, hserved, hnext⟩
  · simp [hpop, size, (FairQueue.total_one_eq_zero_iff _).mpr (hempty _)]
  · have htotal := FairQueue.total_pop (fun _ => 1) hserved
    rw [hnext, size, size]
    cases hp : datagram.priority <;> rw [hp] at htotal <;> simp <;> omega

omit [DecidableEq Key] in
theorem lane_eq_nil_of_size (h : m.size = 0) (k : Key) (p : SendPriority) : (m p).lane k = [] := by
  have hturn : (m p).turn = [] := by
    rw [← FairQueue.total_one_eq_zero_iff]
    cases p <;> simp only [size] at h <;> omega
  exact FairQueue.lane_eq_nil hturn k

theorem run_pops (limits : SendQueueLimits) (ops : List (SendOp Key)) (n : Nat) :
    (run limits (ops ++ List.replicate n .pop)).1.size = (run limits ops).1.size - n ∧
      ∀ k p, acceptedFor k p (run limits (ops ++ List.replicate n .pop)).2
        = acceptedFor k p (run limits ops).2 := by
  induction n with
  | zero => simp
  | succ n ih =>
    obtain ⟨hsize, haccepted⟩ := ih
    rw [List.replicate_succ', ← List.append_assoc, run, List.foldl_append, ← run]
    refine ⟨?_, ?_⟩
    · show (SendModel.pop _).2.size = _
      rw [size_pop, hsize]
      omega
    · intro k p
      show sinceClear _ (_ ++ [_]) = _
      rw [sinceClear_concat _ _ (by simp)]
      exact (List.append_nil _).trans (haccepted k p)

theorem poppedFor_drained (limits : SendQueueLimits) (ops : List (SendOp Key)) {n : Nat}
    (hn : (run limits ops).1.size ≤ n) (k : Key) (p : SendPriority) :
    poppedFor k p (run limits (ops ++ List.replicate n .pop)).2 = acceptedFor k p (run limits ops).2 := by
  obtain ⟨hsize, haccepted⟩ := run_pops limits ops n
  have hlane := lane_eq_nil_of_size (by omega : (run limits (ops ++ List.replicate n .pop)).1.size = 0) k p
  have horder := inOrder_run limits (ops ++ List.replicate n .pop) k p
  rw [haccepted, hlane, List.append_nil] at horder
  exact horder.symm

/-! ### Control does not see data -/

theorem control_step_data (limits : SendQueueLimits) (m : SendModel Key) {op : SendOp Key}
    (h : op.isDataEnqueue) : (m.step limits op).1 .control = m .control := by
  cases op with
  | enqueue peerKey buffer priority =>
    cases priority with
    | data =>
      show (if _ then Function.update m .data _ else m) .control = _
      split_ifs
      · rw [Function.update_of_ne (by simp)]
      · rfl
    | control => exact absurd h (by simp [SendOp.isDataEnqueue])
  | pop => exact absurd h (by simp [SendOp.isDataEnqueue])
  | clear => exact absurd h (by simp [SendOp.isDataEnqueue])

theorem control_pop (m : SendModel Key) : m.pop.2 .control = ((m .control).pop.map Prod.snd).getD (m .control) := by
  cases hcontrol : (m .control).pop with
  | some served => simp [pop, serve, hcontrol]
  | none => cases hdata : (m .data).pop <;> simp [pop, serve, hcontrol, hdata]

omit [DecidableEq Key] in
theorem verdict_control {m m' : SendModel Key} (h : m .control = m' .control) (limits : SendQueueLimits)
    (peerKey : Key) (buffer : SendBuffer) :
    verdict limits m peerKey buffer .control = verdict limits m' peerKey buffer .control := by
  simp only [verdict, h]

theorem control_step_congr {m m' : SendModel Key} (h : m .control = m' .control) (limits : SendQueueLimits)
    (op : SendOp Key) : (m.step limits op).1 .control = (m'.step limits op).1 .control := by
  cases op with
  | enqueue peerKey buffer priority =>
    cases priority with
    | data =>
      rw [control_step_data limits m rfl, control_step_data limits m' rfl, h]
    | control =>
      simp only [SendModel.step, SendModel.enqueue, verdict_control h]
      split_ifs
      · rw [Function.update_self, Function.update_self, h]
      · exact h
  | pop =>
    show m.pop.2 .control = m'.pop.2 .control
    rw [control_pop, control_pop, h]
  | clear => rfl

theorem control_run_filter (limits : SendQueueLimits) (ops : List (SendOp Key)) :
    (run limits ops).1 .control = (run limits (ops.filter fun op => !op.isDataEnqueue)).1 .control := by
  simp only [run, Run.foldl_record_fst]
  suffices ∀ m m' : SendModel Key, m .control = m' .control →
      (ops.foldl (fun m op => (SendModel.step limits m op).1) m) .control
        = ((ops.filter fun op => !op.isDataEnqueue).foldl (fun m op => (SendModel.step limits m op).1) m') .control from
    this _ _ rfl
  induction ops with
  | nil => exact fun _ _ h => h
  | cons op ops ih =>
    intro m m' h
    by_cases hdata : op.isDataEnqueue
    · rw [List.filter_cons_of_neg (by simp [hdata]), List.foldl_cons]
      exact ih _ _ ((control_step_data limits m hdata).trans h)
    · rw [List.filter_cons_of_pos (by simp [hdata]), List.foldl_cons, List.foldl_cons]
      exact ih _ _ (control_step_congr h limits op)

end SendModel

/-! ### The queue after any run -/

namespace BoundedSendQueue

/-- The counters, the active lists and the entries of the queue agree with its lanes, and every limit
holds. -/
structure Consistent (q : BoundedSendQueue Key) : Prop where
  items : ∀ p, (q.items p).toNat = ((q.active p).map fun k => (q.laneOf k p).items.length).sum
  bytes : ∀ p, (q.bytes p).toNat
    = ((q.active p).map fun k => ((q.laneOf k p).items.map List.length).sum).sum
  laneBytes : ∀ k p, (q.laneOf k p).bytes.toNat = ((q.laneOf k p).items.map List.length).sum
  active_nodup : ∀ p, (q.active p).Nodup
  mem_active : ∀ k p, k ∈ q.active p ↔ (q.laneOf k p).items ≠ []
  entries : ∀ k, (q.peers k).isSome ↔ ∃ p, (q.laneOf k p).items ≠ []
  peerItems : ∀ k p, (q.laneOf k p).items.length ≤ (q.limits.ofClass p).maxItemsPerPeer.toNat
  peerBytes : ∀ k p, (q.laneOf k p).bytes ≤ (q.limits.ofClass p).maxBytesPerPeer
  globalItems : ∀ p, q.items p ≤ (q.limits.ofClass p).maxItemsGlobal
  globalBytes : ∀ p, q.bytes p ≤ (q.limits.ofClass p).maxBytesGlobal

variable {q : BoundedSendQueue Key} {m : SendModel Key}

omit [DecidableEq Key] in
theorem Represents.items_laneOf (h : q.Represents m) (k : Key) (p : SendPriority) :
    (q.laneOf k p).items = (m p).lane k := (h.classes p).lane k

omit [DecidableEq Key] in
theorem Represents.consistent (h : q.Represents m) : q.Consistent := by
  have hactive : ∀ p, q.active p = (m p).turn := fun p => (h.classes p).active
  exact
    { items := by
        intro p
        have htotal : (q.items p).toNat = (m p).total fun _ => 1 := (h.classes p).items
        simp [htotal, hactive, h.items_laneOf, FairQueue.total]
      bytes := by
        intro p
        have htotal : (q.bytes p).toNat = (m p).total List.length := (h.classes p).bytes
        simp only [htotal, hactive, h.items_laneOf, FairQueue.total]
      laneBytes := by
        intro k p
        rw [h.items_laneOf]
        exact (h.classes p).laneBytes k
      active_nodup := by
        intro p
        rw [hactive]
        exact (m p).nodup
      mem_active := by
        intro k p
        rw [hactive, h.items_laneOf]
        exact (m p).mem_turn k
      entries := h.entries
      peerItems := fun k p => (h.classes p).peerItems k
      peerBytes := fun k p => (h.classes p).peerBytes k
      globalItems := fun p => (h.classes p).globalItems
      globalBytes := fun p => (h.classes p).globalBytes }

omit [DecidableEq Key] in
theorem Consistent.empty_of_lanes (h : q.Consistent) (hlanes : ∀ k p, (q.laneOf k p).items = []) : q.empty = true := by
  have hitems : ∀ p, q.items p = 0 := by
    intro p
    have hactive : q.active p = [] := by
      apply List.eq_nil_iff_forall_not_mem.mpr
      intro k hk
      exact (h.mem_active k p).mp hk (hlanes k p)
    have hsum := h.items p
    rw [hactive] at hsum
    exact UInt64.toNat_inj.mp hsum
  have hcontrol : q.controlItems = 0 := hitems .control
  have hdata : q.dataItems = 0 := hitems .data
  simp [empty, size, hcontrol, hdata]

theorem Represents.lane_eq_nil_of_pop (h : q.Represents m) (hpop : q.pop.1 = none) (k : Key)
    (p : SendPriority) : (q.laneOf k p).items = [] := by
  rw [h.items_laneOf]
  rcases m.pop_cases with ⟨hempty, -⟩ | ⟨datagram, hdatagram, -⟩
  · exact FairQueue.lane_eq_nil (hempty p) k
  · rw [h.pop.1, hdatagram] at hpop
    exact absurd hpop (by simp)

theorem Represents.control_eq_nil_of_pop (h : q.Represents m) {datagram : QueuedDatagram Key}
    (hpop : q.pop.1 = some datagram) (hdata : datagram.priority = .data) (k : Key) :
    (q.laneOf k .control).items = [] := by
  rw [h.items_laneOf]
  rcases m.pop_cases with ⟨-, hnone⟩ | ⟨served, hserved, hcontrol, -⟩
  · rw [h.pop.1, hnone] at hpop
    exact absurd hpop (by simp)
  · rw [h.pop.1, hserved, Option.some_inj] at hpop
    subst hpop
    exact FairQueue.lane_eq_nil (hcontrol hdata) k

/-- For any limits and any sequence of enqueues, pops and clears, the queue answers as the model does, its
counters, active lists and entries agree with its lanes and every limit holds. Every lane is what was
accepted for it since the last clear without what was popped, and pops take out all of it. A data datagram
is popped only when no control datagram waits, a pop returns a datagram unless nothing waits, and the answer
to a control enqueue is the same without the data that was offered. -/
theorem refines_model (limits : SendQueueLimits) (ops : List (SendOp Key)) :
    let q := (run limits ops).1
    let trace := (run limits ops).2
    trace = (SendModel.run limits ops).2 ∧ q.limits = limits ∧ q.Consistent ∧
    (∀ k p, acceptedFor k p trace = poppedFor k p trace ++ (q.laneOf k p).items) ∧
    (∀ k p, poppedFor k p (run limits (ops ++
        List.replicate ((q.items .control).toNat + (q.items .data).toNat) .pop)).2 = acceptedFor k p trace) ∧
    (∀ datagram, q.pop.1 = some datagram → datagram.priority = .data →
      ∀ k, (q.laneOf k .control).items = []) ∧
    (∀ k p, (q.laneOf k p).items ≠ [] → q.pop.1.isSome) ∧
    (q.empty = false → q.pop.1.isSome) ∧
    (∀ k buffer, (q.enqueue k buffer .control).1
      = ((run limits (ops.filter fun op => !op.isDataEnqueue)).1.enqueue k buffer .control).1) := by
  intro q trace
  obtain ⟨htrace, hlimits, hrep⟩ := represents_run limits ops
  have hsome : ∀ k p, (q.laneOf k p).items ≠ [] → q.pop.1.isSome := by
    intro k p hne
    rw [Option.isSome_iff_ne_none]
    exact fun hnone => hne (hrep.lane_eq_nil_of_pop hnone k p)
  refine ⟨htrace, hlimits, hrep.consistent, ?_, ?_, fun _ => hrep.control_eq_nil_of_pop, hsome, ?_, ?_⟩
  · intro k p
    show acceptedFor k p (run limits ops).2 = poppedFor k p (run limits ops).2 ++ ((run limits ops).1.laneOf k p).items
    rw [htrace, hrep.items_laneOf]
    exact SendModel.inOrder_run limits ops k p
  · intro k p
    rw [(represents_run limits _).1]
    show _ = acceptedFor k p (run limits ops).2
    rw [htrace]
    apply SendModel.poppedFor_drained
    show _ ≤ ((run limits ops).1.view .control).items.toNat + ((run limits ops).1.view .data).items.toNat
    rw [(hrep.classes .control).items, (hrep.classes .data).items]
    exact Nat.le_refl _
  · intro hempty
    rw [Option.isSome_iff_ne_none]
    intro hnone
    have hzero := hrep.consistent.empty_of_lanes (hrep.lane_eq_nil_of_pop hnone)
    exact absurd (hzero.symm.trans hempty) (by simp)
  · intro k buffer
    obtain ⟨-, hlimits', hrep'⟩ := represents_run limits (ops.filter fun op => !op.isDataEnqueue)
    show (run limits ops).1.verdict k buffer .control = BoundedSendQueue.verdict _ k buffer .control
    rw [hrep.verdict_eq, hrep'.verdict_eq, hlimits, hlimits']
    exact SendModel.verdict_control (SendModel.control_run_filter limits ops) limits k buffer

end BoundedSendQueue

end Aegis
