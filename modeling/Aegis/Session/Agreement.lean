import Aegis.Lib.Run
import Mathlib.Data.Fintype.Basic
import Mathlib.Data.Multiset.UnionInter
import Mathlib.Logic.Function.Basic

/-!
# Two sides that may initiate at once

The protocol two session managers run with each other, with session ids of any type and nothing else in a
message. A side initiates with an INIT, the other side answers in two moves (it accepts the INIT, which
ends its own initiation, and installs the session), and the initiator installs the session when the RESP
reaches it. Collisions are settled by rank: the lower side refuses INITs while it has an initiation
pending or an active session it initiated, and the higher side refuses a RESP while its active session was
initiated by the lower one.

`Allowed` says when a move cannot separate the two sides, `Coherent` is the invariant such moves keep, and
`Coherent.agreed` is what it says once nothing is in flight. `Once` are the moves of a run without timeouts
in which every message arrives exactly once; `Timely` is the invariant that makes them allowed.
-/

namespace Aegis

/-- The two sides, by the order of their node ids. -/
inductive Side where
  | lower
  | higher
deriving DecidableEq

instance : Fintype Side := ⟨{.lower, .higher}, fun side => by cases side <;> simp⟩

def Side.other : Side → Side
  | .lower => .higher
  | .higher => .lower

@[simp] theorem Side.other_other (side : Side) : side.other.other = side := by cases side <;> rfl

theorem Side.eq_other_comm {side side' : Side} : side = side'.other ↔ side' = side.other := by
  cases side <;> cases side' <;> simp [Side.other]

theorem Side.other_ne (side : Side) : side.other ≠ side := by cases side <;> simp [Side.other]

/-- What matters of two managers and the messages between them. An active session is its id and whether it
was initiated on this side; `inits` and `responses` are in flight to the side. -/
@[ext]
structure Handshakes (α : Type) where
  active : Side → Option (α × Bool)
  pending : Side → Option α
  answering : Side → Option α
  inits : Side → Multiset α
  responses : Side → Multiset α

/-- The side of a move is the one that acts, or the one the message is for. -/
inductive Move (α : Type) where
  | initiate (side : Side) (id : α)
  | expire (side : Side)
  /-- Another copy of an INIT. -/
  | transmit (side : Side) (id : α)
  /-- An INIT is lost or refused. -/
  | discard (side : Side) (id : α)
  | accept (side : Side) (id : α)
  | install (side : Side) (id : α)
  | receive (side : Side) (id : α)
  /-- Another copy of a RESP. -/
  | duplicate (side : Side) (id : α)
  /-- A RESP is lost. -/
  | lose (side : Side) (id : α)

namespace Handshakes

open Function (update)

variable {α : Type} [DecidableEq α]

/-- The side's active session was initiated on the other side. -/
def activeRemotely (s : Handshakes α) (side : Side) : Bool := (s.active side).any fun session => !session.2

/-- The side's active session was initiated on this side. -/
def activeLocally (s : Handshakes α) (side : Side) : Bool := (s.active side).any fun session => session.2

def move (s : Handshakes α) : Move α → Handshakes α
  | .initiate side id =>
    { s with
      pending := update s.pending side (some id)
      inits := update s.inits side.other (id ::ₘ s.inits side.other) }
  | .expire side => { s with pending := update s.pending side none }
  | .transmit side id => { s with inits := update s.inits side (id ::ₘ s.inits side) }
  | .discard side id => { s with inits := update s.inits side ((s.inits side).erase id) }
  | .accept side id =>
    { s with
      pending := update s.pending side none
      answering := update s.answering side (some id)
      inits := update s.inits side ((s.inits side).erase id) }
  | .install side id =>
    { s with
      active := update s.active side (some (id, false))
      answering := update s.answering side none
      responses := update s.responses side.other (id ::ₘ s.responses side.other) }
  | .receive side id =>
    let s := { s with responses := update s.responses side ((s.responses side).erase id) }
    if s.pending side = some id then
      { s with
        pending := update s.pending side none
        active :=
          if side = .higher ∧ s.activeRemotely side then s.active
          else update s.active side (some (id, true)) }
    else s
  | .duplicate side id => { s with responses := update s.responses side (id ::ₘ s.responses side) }
  | .lose side id => { s with responses := update s.responses side ((s.responses side).erase id) }

@[simp] theorem move_discard_transmit (s : Handshakes α) (side : Side) (id : α) :
    (s.move (.transmit side id)).move (.discard side id) = s := by
  simp [move]

@[simp] theorem move_lose_duplicate (s : Handshakes α) (side : Side) (id : α) :
    (s.move (.duplicate side id)).move (.lose side id) = s := by
  simp [move]

/-- The id occurs nowhere. -/
structure Fresh (s : Handshakes α) (id : α) : Prop where
  active : ∀ side locally, s.active side ≠ some (id, locally)
  pending : ∀ side, s.pending side ≠ some id
  answering : ∀ side, s.answering side ≠ some id
  inits : ∀ side, id ∉ s.inits side
  responses : ∀ side, id ∉ s.responses side

/-- The side's pending initiation has been accepted, and the RESP is not lost: it is still to be sent, or
in flight. -/
def Answered (s : Handshakes α) (side : Side) (id : α) : Prop :=
  s.pending side = some id ∧ (s.answering side.other = some id ∨ id ∈ s.responses side)

def Allowed (s : Handshakes α) : Move α → Prop
  | .initiate side id => s.pending side = none ∧ s.Fresh id
  | .expire side => ∀ id, ¬ s.Answered side id
  | .transmit _ _ => True
  | .discard _ _ => True
  | .accept side id =>
    s.answering side = none ∧ s.pending side.other = some id ∧ (∀ locally, s.active side ≠ some (id, locally)) ∧
      (side = .lower → s.pending side = none ∧ s.activeLocally side = false)
  | .install side id => s.answering side = some id
  | .receive side id => s.answering side = none ∧ id ∈ s.responses side
  | .duplicate side id => id ∈ s.responses side
  | .lose side id => s.pending side = some id → id ∈ (s.responses side).erase id

/-- The sides have no session, or one session that one of them initiated. -/
def Agreed (s : Handshakes α) : Prop :=
  (s.active .lower = none ∧ s.active .higher = none) ∨
    ∃ id locally, s.active .lower = some (id, locally) ∧ s.active .higher = some (id, !locally)

/-! ### The invariant -/

variable {s t : Handshakes α} {side : Side} {id : α}

/-- A RESP is in flight to a side that waits for it. -/
def Awaits (s : Handshakes α) (side : Side) (id : α) : Prop :=
  s.pending side = some id ∧ id ∈ s.responses side

/-- Where the sides stand. The sides agree, or one of them has gone ahead and the answer that lets the
other one follow is under way; it is the lower side's initiation that is answered when both are. -/
inductive Phase (s : Handshakes α) : Prop where
  | higherAnswers (id : α) (hanswering : s.answering .higher = some id) (hpending : s.pending .lower = some id)
      (hlower : ∀ id, ¬ s.Awaits .lower id) (hhigher : ∀ id, ¬ s.Awaits .higher id)
  | lowerAwaits (id : α) (hanswering : s.answering .higher = none) (hlower : s.Awaits .lower id)
      (hhigher : ∀ id, ¬ s.Awaits .higher id) (hactive : s.active .higher = some (id, false))
  | higherAwaits (id : α) (hanswering : s.answering .higher = none) (hlower : ∀ id, ¬ s.Awaits .lower id)
      (hhigher : s.Awaits .higher id) (hactive : s.active .lower = some (id, false))
      (hremote : s.activeRemotely .higher = false)
  | settled (hanswering : s.answering .higher = none) (hlower : ∀ id, ¬ s.Awaits .lower id)
      (hhigher : ∀ id, ¬ s.Awaits .higher id) (hagreed : s.Agreed)

/-- The invariant of allowed moves. While the lower side answers an INIT, the higher side still waits for
the answer, unless it has accepted an INIT of the lower side that overtakes it. -/
structure Coherent (s : Handshakes α) : Prop where
  phase : s.Phase
  lowerAnswers : ∀ id, s.answering .lower = some id → id ∉ s.responses .higher ∧ s.activeLocally .lower = false ∧
    (s.pending .higher = some id ↔ ∀ id', ¬ s.Answered .lower id')

theorem answered_iff : s.Answered side id ↔
    s.pending side = some id ∧ s.answering side.other = some id ∨ s.Awaits side id := by
  unfold Answered Awaits
  tauto

theorem Coherent.congr (h : s.Coherent) (hactive : t.active = s.active) (hpending : t.pending = s.pending)
    (hanswering : t.answering = s.answering) (hresponses : ∀ side, ∀ id ∈ t.responses side, id ∈ s.responses side)
    (hawaits : ∀ side id, t.Awaits side id ↔ s.Awaits side id) : t.Coherent := by
  have hremote : t.activeRemotely = s.activeRemotely := by
    funext side
    simp only [activeRemotely, hactive]
  refine ⟨?_, fun id hid => ?_⟩
  · cases h.phase with
    | higherAnswers id ha hp hlower hhigher =>
      refine .higherAnswers id ?_ ?_ ?_ ?_ <;> simpa only [hanswering, hpending, hawaits]
    | lowerAwaits id ha hlower hhigher hactive' =>
      refine .lowerAwaits id ?_ ?_ ?_ ?_ <;> simpa only [hanswering, hactive, hawaits]
    | higherAwaits id ha hlower hhigher hactive' hremote' =>
      refine .higherAwaits id ?_ ?_ ?_ ?_ ?_ <;> simpa only [hanswering, hactive, hremote, hawaits]
    | settled ha hlower hhigher hagreed =>
      refine .settled ?_ ?_ ?_ ?_ <;> simpa only [Agreed, hanswering, hactive, hawaits]
  · obtain ⟨hnot, hlocal, hiff⟩ := h.lowerAnswers id (by rwa [← hanswering])
    refine ⟨fun hmem => hnot (hresponses _ _ hmem), by simpa only [activeLocally, hactive] using hlocal, ?_⟩
    simpa only [answered_iff, hpending, hanswering, hawaits] using hiff

theorem Coherent.duplicate (h : s.Coherent) (hok : s.Allowed (.duplicate side id)) :
    (s.move (.duplicate side id)).Coherent := by
  have hmem (side' : Side) (id' : α) : id' ∈ (s.move (.duplicate side id)).responses side' ↔
      id' ∈ s.responses side' := by
    simp only [Handshakes.move, Function.update_apply]
    split_ifs with hside
    · subst hside
      rw [Multiset.mem_cons, or_iff_right_of_imp]
      rintro rfl
      exact hok
    · rfl
  refine h.congr rfl rfl rfl (fun side id => (hmem side id).mp) fun side id => ?_
  simp only [Awaits, hmem]
  rfl

theorem Coherent.lose (h : s.Coherent) (hok : s.Allowed (.lose side id)) : (s.move (.lose side id)).Coherent := by
  refine h.congr rfl rfl rfl (fun side' id' hmem => ?_) fun side' id' => ?_
  · simp only [Handshakes.move, Function.update_apply] at hmem
    split_ifs at hmem with hside
    · exact hside ▸ Multiset.mem_of_mem_erase hmem
    · exact hmem
  · simp only [Awaits, Handshakes.move, Function.update_apply]
    split_ifs with hside
    · subst hside
      refine and_congr_right fun hpending => ⟨Multiset.mem_of_mem_erase, fun hmem => ?_⟩
      by_cases hid : id' = id
      · subst hid
        exact hok hpending
      · exact (Multiset.mem_erase_of_ne hid).mpr hmem
    · rfl

theorem Phase.update_pending (hphase : s.Phase) (hunanswered : ∀ id, ¬ s.Answered side id) {pending : Option α}
    {inits : Side → Multiset α}
    (hnone : ∀ id, ¬ { s with pending := update s.pending side pending, inits := inits }.Awaits side id) :
    { s with pending := update s.pending side pending, inits := inits }.Phase := by
  simp only [answered_iff, not_or] at hunanswered
  cases side with
  | lower =>
    cases hphase with
    | higherAnswers id ha hp => exact absurd ⟨hp, ha⟩ (hunanswered id).1
    | lowerAwaits id _ hlower => exact absurd hlower (hunanswered id).2
    | higherAwaits id ha _ hhigher hactive hremote => exact .higherAwaits id ha hnone hhigher hactive hremote
    | settled ha _ hhigher hagreed => exact .settled ha hnone hhigher hagreed
  | higher =>
    cases hphase with
    | higherAnswers id ha hp hlower => exact .higherAnswers id ha hp hlower hnone
    | lowerAwaits id ha hlower _ hactive => exact .lowerAwaits id ha hlower hnone hactive
    | higherAwaits id _ _ hhigher => exact absurd hhigher (hunanswered id).2
    | settled ha hlower _ hagreed => exact .settled ha hlower hnone hagreed

theorem Coherent.initiate (h : s.Coherent) (hok : s.Allowed (.initiate side id)) :
    (s.move (.initiate side id)).Coherent := by
  obtain ⟨hpending, hfresh⟩ := hok
  have hnone (id') : ¬ (s.move (.initiate side id)).Awaits side id' := by
    rintro ⟨hid, hmem⟩
    simp only [Handshakes.move, Function.update_self, Option.some.injEq] at hid hmem
    exact hfresh.responses side (hid ▸ hmem)
  obtain ⟨hphase, hlowerAnswers⟩ := h
  have hunanswered (id') : ¬ s.Answered side id' := by simp [hpending, Answered]
  refine ⟨hphase.update_pending hunanswered hnone, fun id' hid' => ?_⟩
  obtain ⟨hnot, hlocal, hiff⟩ := hlowerAnswers id' hid'
  refine ⟨hnot, hlocal, ?_⟩
  cases side with
  | lower =>
    have hp : s.pending .higher = some id' := hiff.mpr hunanswered
    refine iff_of_true hp ?_
    rintro id'' ⟨hid, hanswered⟩
    obtain rfl : id = id'' := Option.some.inj hid
    exact hanswered.elim (hfresh.answering .higher) (hfresh.responses .lower)
  | higher =>
    refine iff_of_false (fun hp => ?_) fun hnone => ?_
    · obtain rfl : id = id' := Option.some.inj hp
      exact hfresh.answering .lower hid'
    · have hp := hiff.mpr hnone
      simp [hpending] at hp

theorem Coherent.expire (h : s.Coherent) (hok : s.Allowed (.expire side)) : (s.move (.expire side)).Coherent := by
  have hnone (id) : ¬ (s.move (.expire side)).Awaits side id := by simp [Handshakes.move, Awaits]
  obtain ⟨hphase, hlowerAnswers⟩ := h
  refine ⟨hphase.update_pending hok hnone, fun id' hid' => ?_⟩
  obtain ⟨hnot, hlocal, hiff⟩ := hlowerAnswers id' hid'
  refine ⟨hnot, hlocal, ?_⟩
  cases side with
  | lower =>
    have hleft : s.pending .higher = some id' := hiff.mpr hok
    exact iff_of_true hleft (by simp [Answered, Handshakes.move])
  | higher =>
    refine iff_of_false (by simp [Handshakes.move]) fun hnone => ?_
    exact hok id' ⟨hiff.mpr hnone, Or.inl hid'⟩

theorem Coherent.accept (h : s.Coherent) (hok : s.Allowed (.accept side id)) : (s.move (.accept side id)).Coherent := by
  obtain ⟨hanswering, hpending, hactive, hrank⟩ := hok
  have hnone (id') : ¬ (s.move (.accept side id)).Awaits side id' := by simp [Handshakes.move, Awaits]
  cases side with
  | lower =>
    obtain ⟨hown, hlocal⟩ := hrank rfl
    have hawaits (id') : ¬ s.Awaits .higher id' := by
      intro hawaits
      cases h.phase with
      | higherAnswers _ _ _ _ hhigher => exact hhigher id' hawaits
      | lowerAwaits _ _ _ hhigher => exact hhigher id' hawaits
      | higherAwaits id'' _ _ hhigher hactive' =>
        obtain rfl : id = id'' := Option.some.inj (hpending.symm.trans hhigher.1)
        exact hactive false hactive'
      | settled _ _ hhigher => exact hhigher id' hawaits
    constructor
    · cases h.phase with
      | higherAnswers _ _ hp => simp [hown] at hp
      | lowerAwaits _ _ hlower => simp [hown, Awaits] at hlower
      | higherAwaits id' _ _ hhigher => exact absurd hhigher (hawaits id')
      | settled ha _ hhigher hagreed => exact .settled ha hnone hhigher hagreed
    · intro id' hid'
      obtain rfl : id = id' := by simpa [Handshakes.move] using hid'
      exact ⟨fun hmem => hawaits id ⟨hpending, hmem⟩, hlocal,
        iff_of_true hpending (by simp [Answered, Handshakes.move])⟩
  | higher =>
    have hanswered : (s.move (.accept .higher id)).Answered .lower id := ⟨hpending, Or.inl rfl⟩
    constructor
    · cases h.phase with
      | higherAnswers _ ha => simp [hanswering] at ha
      | lowerAwaits id' _ hlower _ hactive' =>
        obtain rfl : id = id' := Option.some.inj (hpending.symm.trans hlower.1)
        exact absurd hactive' (hactive false)
      | higherAwaits _ _ hlower => exact .higherAnswers id rfl hpending hlower hnone
      | settled _ hlower => exact .higherAnswers id rfl hpending hlower hnone
    · intro id' hid'
      obtain ⟨hnot, hlocal, -⟩ := h.lowerAnswers id' hid'
      exact ⟨hnot, hlocal, iff_of_false (by simp [Handshakes.move]) fun hnone => hnone id hanswered⟩

theorem Coherent.install (h : s.Coherent) (hok : s.Allowed (.install side id)) :
    (s.move (.install side id)).Coherent := by
  have hanswering : s.answering side = some id := hok
  cases side with
  | lower =>
    obtain ⟨hnot, hlocal, hiff⟩ := h.lowerAnswers id hanswering
    -- The RESP is one the higher side waits for unless its own answer overtakes it.
    have hawaits (id') (hanswered : s.Answered .lower id') (hhigher : ∀ id, ¬ s.Awaits .higher id) (id'') :
        ¬ (s.move (.install .lower id)).Awaits .higher id'' := by
      rintro ⟨hp, hmem⟩
      simp only [Handshakes.move, Side.other, Function.update_self, Multiset.mem_cons] at hp hmem
      rcases hmem with rfl | hmem
      · exact hiff.mp hp id' hanswered
      · exact hhigher id'' ⟨hp, hmem⟩
    constructor
    · cases h.phase with
      | higherAnswers id' ha hp hlower hhigher =>
        exact .higherAnswers id' ha hp hlower (hawaits id' ⟨hp, Or.inl ha⟩ hhigher)
      | lowerAwaits id' ha hlower hhigher hactive =>
        exact .lowerAwaits id' ha hlower (hawaits id' ⟨hlower.1, Or.inr hlower.2⟩ hhigher) hactive
      | higherAwaits id' ha hlower hhigher =>
        have hp := hiff.mpr fun id' => by simp [answered_iff, hlower, Side.other, ha]
        obtain rfl : id = id' := Option.some.inj (hp.symm.trans hhigher.1)
        exact absurd hhigher.2 hnot
      | settled ha hlower hhigher hagreed =>
        have hp := hiff.mpr fun id' => by simp [answered_iff, hlower, Side.other, ha]
        refine .higherAwaits id ha hlower ⟨hp, by simp [Handshakes.move, Side.other]⟩ rfl ?_
        show s.activeRemotely .higher = false
        rcases hagreed with ⟨-, hnone⟩ | ⟨id', locally, hactive, hactive'⟩
        · simp [activeRemotely, hnone]
        · simpa [activeLocally, activeRemotely, hactive, hactive'] using hlocal
    · intro id' hid'
      simp [Handshakes.move] at hid'
  | higher =>
    cases h.phase with
    | higherAnswers id' ha hp hlower hhigher =>
      obtain rfl : id = id' := Option.some.inj (hanswering.symm.trans ha)
      have hawaits : (s.move (.install .higher id)).Awaits .lower id :=
        ⟨hp, by simp [Handshakes.move, Side.other]⟩
      refine ⟨.lowerAwaits id rfl hawaits hhigher rfl, fun id' hid' => ?_⟩
      obtain ⟨hnot, hlocal, hiff⟩ := h.lowerAnswers id' hid'
      refine ⟨hnot, hlocal, iff_of_false (fun hp' => hiff.mp hp' id ⟨hp, Or.inl ha⟩) fun hnone => ?_⟩
      exact hnone id (answered_iff.mpr (Or.inr hawaits))
    | lowerAwaits _ ha => simp [hanswering] at ha
    | higherAwaits _ ha => simp [hanswering] at ha
    | settled ha => simp [hanswering] at ha

theorem move_receive_of_ne (h : s.pending side ≠ some id) : s.move (.receive side id) = s.move (.lose side id) := by
  simp [Handshakes.move, h]

theorem move_receive_of_pending (h : s.pending side = some id) :
    s.move (.receive side id) =
      { s with
        responses := update s.responses side ((s.responses side).erase id)
        pending := update s.pending side none
        active :=
          if side = .higher ∧ s.activeRemotely side then s.active
          else update s.active side (some (id, true)) } := by
  simp only [Handshakes.move, h, if_true]
  rfl

theorem Coherent.receive (h : s.Coherent) (hok : s.Allowed (.receive side id)) :
    (s.move (.receive side id)).Coherent := by
  obtain ⟨hanswering, hmem⟩ := hok
  by_cases hpending : s.pending side = some id
  swap
  · rw [move_receive_of_ne hpending]
    exact h.lose fun hp => absurd hp hpending
  have hawaits : s.Awaits side id := ⟨hpending, hmem⟩
  have hnone (id') : ¬ (s.move (.receive side id)).Awaits side id' := by
    simp [Handshakes.move, hpending, Awaits]
  cases side with
  | lower =>
    cases h.phase with
    | higherAnswers _ _ _ hlower => exact absurd hawaits (hlower id)
    | higherAwaits _ _ hlower => exact absurd hawaits (hlower id)
    | settled _ hlower => exact absurd hawaits (hlower id)
    | lowerAwaits id' ha hlower hhigher hactive =>
      obtain rfl : id = id' := Option.some.inj (hpending.symm.trans hlower.1)
      rw [move_receive_of_pending hpending, if_neg (by simp)] at hnone ⊢
      refine ⟨.settled ha hnone hhigher (Or.inr ⟨id, true, rfl, hactive⟩), fun id' hid' => ?_⟩
      simp [hanswering] at hid'
  | higher =>
    cases h.phase with
    | higherAnswers _ _ _ _ hhigher => exact absurd hawaits (hhigher id)
    | lowerAwaits _ _ _ hhigher => exact absurd hawaits (hhigher id)
    | settled _ _ hhigher => exact absurd hawaits (hhigher id)
    | higherAwaits id' ha hlower hhigher hactive hremote =>
      obtain rfl : id = id' := Option.some.inj (hpending.symm.trans hhigher.1)
      rw [move_receive_of_pending hpending, if_neg (by simp [hremote])] at hnone ⊢
      refine ⟨.settled ha hlower hnone (Or.inr ⟨id, false, hactive, rfl⟩), fun id' hid' => ?_⟩
      obtain ⟨hnot, hlocal, hiff⟩ := h.lowerAnswers id' hid'
      have hne : s.pending .higher ≠ some id' := by
        rw [hpending]
        rintro ⟨rfl⟩
        exact hnot hmem
      exact ⟨fun hmem' => hnot (Multiset.mem_of_mem_erase hmem'), hlocal,
        iff_of_false (by simp) fun hnone => hne (hiff.mpr hnone)⟩

/-- The step lemma: allowed moves keep the sides coherent. -/
theorem Coherent.move (h : s.Coherent) {m : Move α} (hok : s.Allowed m) : (s.move m).Coherent := by
  cases m with
  | initiate side id => exact h.initiate hok
  | expire side => exact h.expire hok
  | transmit side id => exact h.congr rfl rfl rfl (fun _ _ hmem => hmem) fun _ _ => Iff.rfl
  | discard side id => exact h.congr rfl rfl rfl (fun _ _ hmem => hmem) fun _ _ => Iff.rfl
  | accept side id => exact h.accept hok
  | install side id => exact h.install hok
  | receive side id => exact h.receive hok
  | duplicate side id => exact h.duplicate hok
  | lose side id => exact h.lose hok

omit [DecidableEq α] in
theorem Coherent.agreed (h : s.Coherent) (hanswering : s.answering .higher = none)
    (hlower : s.responses .lower = 0) (hhigher : s.responses .higher = 0) : s.Agreed := by
  cases h.phase with
  | higherAnswers _ ha => simp [hanswering] at ha
  | lowerAwaits _ _ hawaits => simp [Awaits, hlower] at hawaits
  | higherAwaits _ _ _ hawaits => simp [Awaits, hhigher] at hawaits
  | settled _ _ _ hagreed => exact hagreed

/-! ### Messages that arrive exactly once -/

/-- The moves of runs without timeouts in which every message arrives exactly once. -/
def Once (s : Handshakes α) : Move α → Prop
  | .expire _ | .transmit _ _ | .duplicate _ _ | .lose _ _ => False
  | .accept side id =>
    s.answering side = none ∧ id ∈ s.inits side ∧ (∀ locally, s.active side ≠ some (id, locally)) ∧
      (side = .lower → s.pending side = none ∧ s.activeLocally side = false)
  | m => s.Allowed m

/-- INITs in flight are not outdated: those of the lower side belong to its pending initiation, and those
of the higher side do unless the lower side will refuse them. -/
structure Timely (s : Handshakes α) : Prop where
  nodup : ∀ side, (s.inits side).Nodup
  unanswered : ∀ side, ∀ id ∈ s.inits side, s.answering side ≠ some id ∧ id ∉ s.responses side.other
  higher : ∀ id ∈ s.inits .higher, s.pending .lower = some id
  lower : ∀ id ∈ s.inits .lower, s.pending .higher = some id ∨ (∃ id', s.Answered .lower id') ∨
    s.activeLocally .lower = true

theorem Timely.allowed (h : s.Timely) {m : Move α} (hok : s.Once m) : s.Allowed m := by
  cases m with
  | accept side id =>
    obtain ⟨hanswering, hmem, hactive, hrank⟩ := hok
    refine ⟨hanswering, ?_, hactive, hrank⟩
    cases side with
    | higher => exact h.higher id hmem
    | lower =>
      obtain ⟨hpending, hlocal⟩ := hrank rfl
      rcases h.lower id hmem with hp | ⟨id', hanswered, -⟩ | hactive'
      · exact hp
      · simp [hpending] at hanswered
      · simp [hlocal] at hactive'
  | initiate side id => exact hok
  | discard side id => exact hok
  | install side id => exact hok
  | receive side id => exact hok
  | expire side => exact hok.elim
  | transmit side id => exact hok.elim
  | duplicate side id => exact hok.elim
  | lose side id => exact hok.elim

theorem Timely.initiate (h : s.Timely) (hok : s.Allowed (.initiate side id)) : (s.move (.initiate side id)).Timely := by
  obtain ⟨hpending, hfresh⟩ := hok
  have hinits {side' id'} (hmem : id' ∈ (s.move (.initiate side id)).inits side') :
      side' = side.other ∧ id' = id ∨ id' ∈ s.inits side' := by
    simp only [Handshakes.move, Function.update_apply] at hmem
    split_ifs at hmem with hside
    · exact (Multiset.mem_cons.mp hmem).imp (fun hid => ⟨hside, hid⟩) fun hmem => hside ▸ hmem
    · exact Or.inr hmem
  refine ⟨fun side' => ?_, fun side' id' hmem => ?_, fun id' hmem => ?_, fun id' hmem => ?_⟩
  · simp only [Handshakes.move, Function.update_apply]
    split_ifs
    · exact Multiset.nodup_cons.mpr ⟨hfresh.inits _, h.nodup _⟩
    · exact h.nodup side'
  · rcases hinits hmem with ⟨-, rfl⟩ | hbefore
    · exact ⟨hfresh.answering side', hfresh.responses side'.other⟩
    · exact h.unanswered side' id' hbefore
  · rcases hinits hmem with ⟨hside, rfl⟩ | hbefore
    · obtain rfl : side = .lower := Side.eq_other_comm.mp hside
      rfl
    · have hp := h.higher id' hbefore
      cases side with
      | lower => simp [hpending] at hp
      | higher => exact hp
  · rcases hinits hmem with ⟨hside, rfl⟩ | hbefore
    · obtain rfl : side = .higher := Side.eq_other_comm.mp hside
      exact Or.inl rfl
    · cases side with
      | lower =>
        rcases h.lower id' hbefore with hp | ⟨id'', hanswered, -⟩ | hlocal
        · exact Or.inl hp
        · simp [hpending] at hanswered
        · exact Or.inr (Or.inr hlocal)
      | higher =>
        rcases h.lower id' hbefore with hp | hrefused
        · simp [hpending] at hp
        · exact Or.inr hrefused

omit [DecidableEq α] in
/-- Where the INITs in flight are some of those before and no side has begun to answer one of them, only
what the INITs belong to is left to see. -/
theorem Timely.of_le (h : s.Timely) (hinits : ∀ side, t.inits side ≤ s.inits side)
    (hanswering : ∀ side, ∀ id ∈ t.inits side, t.answering side = some id → s.answering side = some id)
    (hresponses : ∀ side, ∀ id ∈ t.inits side, id ∈ t.responses side.other → id ∈ s.responses side.other)
    (hhigher : ∀ id ∈ t.inits .higher, s.pending .lower = some id → t.pending .lower = some id)
    (hlower : ∀ id ∈ t.inits .lower,
      s.pending .higher = some id ∨ (∃ id', s.Answered .lower id') ∨ s.activeLocally .lower = true →
      t.pending .higher = some id ∨ (∃ id', t.Answered .lower id') ∨ t.activeLocally .lower = true) : t.Timely := by
  refine ⟨fun side => Multiset.nodup_of_le (hinits side) (h.nodup side), fun side id hmem => ?_,
    fun id hmem => ?_, fun id hmem => ?_⟩
  · obtain ⟨hnot, hnot'⟩ := h.unanswered side id (Multiset.mem_of_le (hinits side) hmem)
    exact ⟨fun ha => hnot (hanswering side id hmem ha), fun hr => hnot' (hresponses side id hmem hr)⟩
  · exact hhigher id hmem (h.higher id (Multiset.mem_of_le (hinits _) hmem))
  · exact hlower id hmem (h.lower id (Multiset.mem_of_le (hinits _) hmem))

theorem update_erase_le {f : Side → Multiset α} (side' : Side) : update f side ((f side).erase id) side' ≤ f side' := by
  rw [Function.update_apply]
  split_ifs with hside
  · exact hside ▸ Multiset.erase_le id _
  · exact le_refl _

theorem Timely.discard (h : s.Timely) : (s.move (.discard side id)).Timely :=
  h.of_le update_erase_le (fun _ _ _ ha => ha) (fun _ _ _ hr => hr) (fun _ _ hp => hp) fun _ _ hl => hl

/-- The accepted INIT was the only one in flight to the lower side; at the higher side the initiation it
belongs to is now being answered. -/
theorem Timely.accept (h : s.Timely) (hok : s.Once (.accept side id)) : (s.move (.accept side id)).Timely := by
  obtain ⟨-, hpending, -, -⟩ := h.allowed hok
  obtain ⟨-, -, -, hrank⟩ := hok
  have hgone : id ∉ (s.move (.accept side id)).inits side := by
    simp only [Handshakes.move, Function.update_self]
    exact fun hmem => ((h.nodup side).mem_erase_iff.mp hmem).1 rfl
  refine h.of_le update_erase_le (fun side' id' hmem ha => ?_) (fun _ _ _ hr => hr) (fun id' hmem hp => ?_)
    fun id' hmem hl => ?_
  · simp only [Handshakes.move, Function.update_apply] at ha
    split_ifs at ha with hside
    · subst hside
      exact absurd (Option.some.inj ha ▸ hmem) hgone
    · exact ha
  · cases side with
    | lower => simp [(hrank rfl).1] at hp
    | higher => exact hp
  · cases side with
    | lower =>
      obtain ⟨hown, hlocal⟩ := hrank rfl
      rcases hl with hp | ⟨id'', hanswered, -⟩ | hactive
      · exact Or.inl hp
      · simp [hown] at hanswered
      · simp [hlocal] at hactive
    | higher => exact Or.inr (Or.inl ⟨id, hpending, Or.inl rfl⟩)

/-- The lower side answers only while its active session is not its own, so no refusal rests on one. -/
theorem Timely.install (h : s.Timely) (hcoherent : s.Coherent) (hok : s.Allowed (.install side id)) :
    (s.move (.install side id)).Timely := by
  have hanswering : s.answering side = some id := hok
  refine h.of_le (fun _ => le_refl _) (fun side' id' _ ha => ?_) (fun side' id' hmem hr => ?_)
    (fun _ _ hp => hp) fun id' hmem hl => ?_
  · simp only [Handshakes.move, Function.update_apply] at ha
    split_ifs at ha
    exact ha
  · simp only [Handshakes.move, Function.update_apply] at hr
    split_ifs at hr with hside
    · obtain rfl : side' = side := by simpa using congrArg Side.other hside
      rcases Multiset.mem_cons.mp hr with rfl | hr
      · exact absurd hanswering (h.unanswered side' id' hmem).1
      · exact hr
    · exact hr
  · rcases hl with hp | ⟨id'', hp, hanswered⟩ | hactive
    · exact Or.inl hp
    · refine Or.inr (Or.inl ⟨id'', hp, ?_⟩)
      cases side with
      | lower => exact hanswered
      | higher =>
        -- The answer that was to be sent is in flight.
        refine Or.inr ?_
        simp only [Handshakes.move, Side.other, Function.update_self, Multiset.mem_cons]
        exact hanswered.imp (fun ha => Option.some.inj (ha.symm.trans hanswering)) fun hr => hr
    · cases side with
      | lower => simp [(hcoherent.lowerAnswers id hanswering).2.1] at hactive
      | higher => exact Or.inr (Or.inr hactive)

theorem Timely.receive (h : s.Timely) (hok : s.Allowed (.receive side id)) : (s.move (.receive side id)).Timely := by
  obtain ⟨-, hmem⟩ := hok
  -- The initiation a RESP answers has no INIT in flight any more.
  have hnone (id') (hin : id' ∈ s.inits side.other) : id' ≠ id := by
    rintro rfl
    exact (h.unanswered side.other id' hin).2 (by simpa using hmem)
  have hfewer (side') (id') (hr : id' ∈ update s.responses side ((s.responses side).erase id) side') :
      id' ∈ s.responses side' := Multiset.mem_of_le (update_erase_le side') hr
  by_cases hpending : s.pending side = some id
  · rw [move_receive_of_pending hpending]
    refine h.of_le (fun _ => le_refl _) (fun _ _ _ ha => ha) (fun _ id' _ hr => hfewer _ id' hr)
      (fun id' hin hp => ?_) fun id' hin hl => ?_
    · cases side with
      | lower => exact absurd (Option.some.inj (hp.symm.trans hpending)) (hnone id' hin)
      | higher => exact hp
    · cases side with
      | lower => exact Or.inr (Or.inr (by simp [activeLocally]))
      | higher =>
        rcases hl with hp | hanswered | hactive
        · exact absurd (Option.some.inj (hp.symm.trans hpending)) (hnone id' hin)
        · exact Or.inr (Or.inl hanswered)
        · refine Or.inr (Or.inr ?_)
          simp only [activeLocally]
          split_ifs <;> exact hactive
  · rw [move_receive_of_ne hpending]
    refine h.of_le (fun _ => le_refl _) (fun _ _ _ ha => ha) (fun _ id' _ hr => hfewer _ id' hr)
      (fun _ _ hp => hp) fun id' _ hl => ?_
    rcases hl with hp | ⟨id'', hp, hanswered⟩ | hactive
    · exact Or.inl hp
    · refine Or.inr (Or.inl ⟨id'', hp, hanswered.imp_right fun hr => ?_⟩)
      simp only [Handshakes.move, Function.update_apply]
      split_ifs with hside
      · subst hside
        have hne : id'' ≠ id := by
          rintro rfl
          exact hpending hp
        exact (Multiset.mem_erase_of_ne hne).mpr hr
      · exact hr
    · exact Or.inr (Or.inr hactive)

theorem Timely.move (h : s.Timely) (hcoherent : s.Coherent) {m : Move α} (hok : s.Once m) : (s.move m).Timely := by
  cases m with
  | initiate side id => exact h.initiate hok
  | discard side id => exact h.discard
  | accept side id => exact h.accept hok
  | install side id => exact h.install hcoherent hok
  | receive side id => exact h.receive hok
  | expire side => exact hok.elim
  | transmit side id => exact hok.elim
  | duplicate side id => exact hok.elim
  | lose side id => exact hok.elim

end Handshakes

end Aegis
