import Aegis.File.SendWindow
import Aegis.Lib.Run
import Aegis.Peer.Manager

/-!
# The loop of `send_file`

`Tunnel::send_file` polls the window of every recipient in rounds. A pass over the recipients rebuilds the
list of those still active; a recipient that has given up, or has no window any more, ends the pass and the
loop. When the loop ends with a failure, the recipients on the list are sent a cancellation.

Between the passes other threads handle acknowledgements and cancellations, and `stop` clears the table;
they are part of a `SendRound`, with the outcome of the file reads. What is sent to whom does not matter to
the loop and is left out.
-/

namespace Aegis

/-- What `send_file` has settled before its loop: the recipients, with their records, and the transfer. -/
structure SendFileJob where
  establishedPeers : SortedMap NodeId Peer
  transferId : UInt64
  totalChunks : Nat
  reachable : ∀ nodeId peer, establishedPeers.find? nodeId = some peer → peer.endpoint.isSome = true

/-- The recipients are the peers with a session and an endpoint, or the one of them that is asked for. -/
def SendFileJob.toPeers (peers : PeerManager) (sessionEstablished : NodeId → Bool) (target : Option NodeId)
    (transferId : UInt64) (totalChunks : Nat) : SendFileJob where
  establishedPeers := peers.peers.filter fun nodeId peer =>
    sessionEstablished nodeId && peer.endpoint.isSome && target.all (nodeId = ·)
  transferId := transferId
  totalChunks := totalChunks
  reachable nodeId peer h := by
    have hpasses := (SortedMap.find?_filter_eq_some_iff.mp h).2
    simp only [Bool.and_eq_true] at hpasses
    exact hpasses.1.2

/-- An action for a recipient, to be carried out after the pass. -/
structure PendingFileSend where
  peerId : NodeId
  endpoint : Endpoint
  action : FileSendAction

abbrev OutgoingTransfers := SortedMap FileTransferKey FileSendWindow

/-- What other threads do to the table of outgoing transfers. -/
inductive OutgoingEvent where
  | ack (peerId : NodeId) (ack : FileTransferAck) (now : Time)
  | cancel (key : FileTransferKey)
  | stop

def OutgoingEvent.apply (outgoing : OutgoingTransfers) : OutgoingEvent → OutgoingTransfers
  | .ack peerId message now =>
    match outgoing.find? ⟨peerId, message.transferId⟩ with
    | some window => outgoing.insert ⟨peerId, message.transferId⟩ (window.acknowledge message now)
    | none => outgoing
  | .cancel key =>
    match outgoing.find? key with
    | some window => outgoing.insert key window.cancel
    | none => outgoing
  | .stop => ∅

/-- A round of the loop, as its surroundings see it. -/
structure SendRound where
  running : Bool := true
  now : Time
  /-- Before the pass. -/
  before : List OutgoingEvent := []
  /-- While the pass is carried out. -/
  during : List OutgoingEvent := []
  /-- The bytes of a chunk, unless the read comes short. -/
  read : Nat → Option (List UInt8) := fun _ => some []

structure SendLoop where
  outgoing : OutgoingTransfers
  transferKeys : List FileTransferKey
  failed : Bool := false
deriving DecidableEq

/-- The state of a pass over the recipients. -/
structure SendPass where
  outgoing : OutgoingTransfers
  active : List FileTransferKey := []
  sends : List PendingFileSend := []
  failed : Bool := false

namespace SendFileJob

variable (job : SendFileJob)

/-- `all_transfer_keys` -/
def allTransferKeys : List FileTransferKey :=
  job.establishedPeers.entries.map fun entry => ⟨entry.1, job.transferId⟩

/-- The endpoint of the recipient, among the established peers. -/
def endpointOf (key : FileTransferKey) : Option Endpoint :=
  (job.establishedPeers.find? key.sender).bind (·.endpoint)

/-- Set up a window for every recipient. -/
def setUp (now : Time) (outgoing : OutgoingTransfers) : Option SendLoop :=
  (({} : FileSendWindow).reset job.totalChunks now).map fun window =>
    { outgoing := job.allTransferKeys.foldl (fun outgoing key => outgoing.insert key window) outgoing
      transferKeys := job.allTransferKeys }

/-- The pass over the recipients, up to the first failure. -/
def pollPass (now : Time) : List FileTransferKey → SendPass → SendPass
  | [], pass => pass
  | key :: rest, pass =>
    match pass.outgoing.find? key with
    | none => { pass with failed := true }
    | some window =>
      if window.complete then pollPass now rest { pass with outgoing := pass.outgoing.erase key }
      else
        let (window, action) := window.poll now
        let pass := { pass with outgoing := pass.outgoing.insert key window }
        if window.failed then { pass with failed := true }
        else
          let pass := { pass with active := pass.active ++ [key] }
          if !action.sendHeader && action.chunks.isEmpty then pollPass now rest pass
          else
            match job.endpointOf key with
            | none => { pass with failed := true }
            | some endpoint =>
              pollPass now rest { pass with sends := pass.sends ++ [⟨key.sender, endpoint, action⟩] }

/-- Some chunk to be sent cannot be read or encoded. -/
def sendsFail (read : Nat → Option (List UInt8)) (sends : List PendingFileSend) : Bool :=
  sends.any fun pending => pending.action.chunks.any fun index =>
    !(read index).any fun bytes => isValidFileChunk ⟨job.transferId, index, bytes⟩

def round (loop : SendLoop) (r : SendRound) : SendLoop :=
  if !r.running || loop.transferKeys.isEmpty || loop.failed then loop
  else
    let pass := job.pollPass r.now loop.transferKeys
      { outgoing := r.before.foldl OutgoingEvent.apply loop.outgoing }
    if pass.failed || pass.active.isEmpty then ⟨pass.outgoing, pass.active, pass.failed⟩
    else
      ⟨r.during.foldl OutgoingEvent.apply pass.outgoing, pass.active, job.sendsFail r.read pass.sends⟩

/-- The recipients that `send_file_cancel` is called for after the loop. -/
def cancelled (loop : SendLoop) : List FileTransferKey :=
  if loop.failed then loop.transferKeys.filter fun key => (job.endpointOf key).isSome else []

end SendFileJob

/-- The recipient's window is there and not complete. -/
def OutgoingTransfers.unfinished (outgoing : OutgoingTransfers) (key : FileTransferKey) : Bool :=
  (outgoing.find? key).any fun window => !window.complete

/-- The pass goes on after the recipient: its window is there, and complete or not out of attempts. -/
def OutgoingTransfers.polls (outgoing : OutgoingTransfers) (now : Time) (key : FileTransferKey) : Bool :=
  (outgoing.find? key).any fun window => window.complete || !(window.poll now).1.failed

/-! ### One pass -/

namespace SendFileJob

variable {job : SendFileJob}

theorem dropWhile_congr {α : Type} {p q : α → Bool} {l : List α} (h : ∀ a ∈ l, p a = q a) :
    l.dropWhile p = l.dropWhile q := by
  induction l with
  | nil => rfl
  | cons a l ih =>
    rw [List.dropWhile_cons, List.dropWhile_cons, h a List.mem_cons_self,
      ih fun b hb => h b (List.mem_cons_of_mem _ hb)]

/-- What a pass over `keys` makes of `pass`: the recipients before the first failure are active if they
are not complete, and gone if they are. -/
structure PassSpec (now : Time) (keys : List FileTransferKey) (pass result : SendPass) : Prop where
  failed : result.failed = true ↔ keys.dropWhile (pass.outgoing.polls now) ≠ []
  sublist : result.active.Sublist (pass.active ++ keys)
  active : ∀ key, key ∈ result.active ↔ key ∈ pass.active ∨
    (key ∈ keys ∧ key ∉ keys.dropWhile (pass.outgoing.polls now) ∧ pass.outgoing.unfinished key = true)
  unfinished : ∀ key, result.outgoing.unfinished key = pass.outgoing.unfinished key
  gone : ∀ key ∈ keys, key ∉ keys.dropWhile (pass.outgoing.polls now) →
    pass.outgoing.unfinished key = false → result.outgoing.find? key = none
  absent : ∀ key, pass.outgoing.find? key = none → result.outgoing.find? key = none

variable {key : FileTransferKey} {outgoing : OutgoingTransfers} {loop : SendLoop}

theorem PassSpec.stopped {now : Time} {rest : List FileTransferKey} {pass : SendPass}
    (hstop : pass.outgoing.polls now key = false)
    (hunfinished : ∀ k, outgoing.unfinished k = pass.outgoing.unfinished k)
    (habsent : ∀ k, pass.outgoing.find? k = none → outgoing.find? k = none) :
    PassSpec now (key :: rest) pass { pass with outgoing := outgoing, failed := true } := by
  have hdrop : (key :: rest).dropWhile (pass.outgoing.polls now) = key :: rest := by
    rw [List.dropWhile_cons, hstop]
    rfl
  refine ⟨by simp [hdrop], List.sublist_append_left _ _, fun k => ?_, hunfinished, fun k hk hnot => ?_, habsent⟩
  · rw [hdrop]
    exact ⟨Or.inl, fun h => h.resolve_right fun h => h.2.1 h.1⟩
  · rw [hdrop] at hnot
    exact absurd hk hnot

theorem PassSpec.cons {now : Time} {rest : List FileTransferKey} {pass pass' result : SendPass}
    (hpolls : pass.outgoing.polls now key = true) (hnew : key ∉ rest)
    (hothers : ∀ k, k ≠ key → pass'.outgoing.find? k = pass.outgoing.find? k)
    (hunfinished : pass'.outgoing.unfinished key = pass.outgoing.unfinished key)
    (habsent : pass.outgoing.unfinished key = false → pass'.outgoing.find? key = none)
    (hactive : pass'.active = pass.active ++ if pass.outgoing.unfinished key then [key] else [])
    (h : PassSpec now rest pass' result) : PassSpec now (key :: rest) pass result := by
  have hsame (k : FileTransferKey) : pass'.outgoing.unfinished k = pass.outgoing.unfinished k := by
    by_cases hk : k = key
    · rw [hk, hunfinished]
    · simp only [OutgoingTransfers.unfinished, hothers k hk]
  have hdrop : (key :: rest).dropWhile (pass.outgoing.polls now) = rest.dropWhile (pass'.outgoing.polls now) := by
    rw [List.dropWhile_cons, if_pos hpolls]
    refine dropWhile_congr fun k hk => ?_
    have hne : k ≠ key := fun heq => hnew (heq ▸ hk)
    simp only [OutgoingTransfers.polls, hothers k hne]
  have hstop : key ∉ rest.dropWhile (pass'.outgoing.polls now) :=
    fun hmem => hnew ((List.dropWhile_sublist _).subset hmem)
  refine ⟨by rw [hdrop]; exact h.failed, ?_, fun k => ?_, fun k => (h.unfinished k).trans (hsame k),
    fun k hk hnot hdone => ?_, fun k hnone => ?_⟩
  · refine h.sublist.trans ?_
    rw [hactive, List.append_assoc]
    refine (List.Sublist.refl _).append ?_
    split_ifs
    · exact List.Sublist.refl _
    · exact List.sublist_cons_self _ _
  · rw [hdrop, h.active k, hsame k, hactive, List.mem_append, List.mem_cons]
    by_cases hk : k = key
    · subst hk
      cases hflag : pass.outgoing.unfinished k <;> simp [hnew, hstop]
    · split_ifs <;> simp [hk]
  · rw [hdrop] at hnot
    rcases List.mem_cons.mp hk with rfl | hk
    · exact h.absent k (habsent hdone)
    · exact h.gone k hk hnot ((hsame k).trans hdone)
  · by_cases hk : k = key
    · subst hk
      have hdone : pass.outgoing.unfinished k = false := by simp [OutgoingTransfers.unfinished, hnone]
      exact h.absent k (habsent hdone)
    · exact h.absent k ((hothers k hk).trans hnone)

theorem pollPass_spec {keys : List FileTransferKey} (hkeys : keys.Nodup)
    (hpeers : ∀ key ∈ keys, (job.endpointOf key).isSome = true) (now : Time) (pass : SendPass)
    (hpass : pass.failed = false) : PassSpec now keys pass (job.pollPass now keys pass) := by
  induction keys generalizing pass with
  | nil => exact ⟨by simp [pollPass, hpass], by simp [pollPass], by simp [pollPass], by simp [pollPass],
      by simp, by simp [pollPass]⟩
  | cons key rest ih =>
    obtain ⟨hnew, hrest⟩ := List.nodup_cons.mp hkeys
    have hpeers' : ∀ k ∈ rest, (job.endpointOf k).isSome = true :=
      fun k hk => hpeers k (List.mem_cons_of_mem _ hk)
    unfold pollPass
    cases hfind : pass.outgoing.find? key with
    | none => exact .stopped (by simp [OutgoingTransfers.polls, hfind]) (fun _ => rfl) fun _ h => h
    | some window =>
      simp only
      have hacks := window.sameAcks_poll now
      have hinserted (k : FileTransferKey) :
          OutgoingTransfers.unfinished (pass.outgoing.insert key (window.poll now).1) k
            = pass.outgoing.unfinished k := by
        simp only [OutgoingTransfers.unfinished, SortedMap.find?_insert]
        split_ifs with hk
        · rw [hk, hfind]
          simp [hacks.complete]
        · rfl
      -- an incomplete window that is not out of attempts is active
      have hactive (hcomplete : ¬window.complete = true) (hfailed : ¬(window.poll now).1.failed = true)
          (sends : List PendingFileSend) :
          PassSpec now (key :: rest) pass (job.pollPass now rest
            { pass with
              outgoing := pass.outgoing.insert key (window.poll now).1
              active := pass.active ++ [key]
              sends := sends }) := by
        have hunfinished : pass.outgoing.unfinished key = true := by
          simp [OutgoingTransfers.unfinished, hfind, hcomplete]
        refine .cons (by simp [OutgoingTransfers.polls, hfind, hfailed]) hnew (fun k hk => ?_) (hinserted key)
          (fun hdone => absurd (hunfinished.symm.trans hdone) (by simp)) ?_ (ih hrest hpeers' _ hpass)
        · simp [hk]
        · simp [hunfinished]
      split_ifs with hcomplete hfailed hidle
      · -- complete: the window is erased
        have hdone : pass.outgoing.unfinished key = false := by
          simp [OutgoingTransfers.unfinished, hfind, hcomplete]
        refine .cons (by simp [OutgoingTransfers.polls, hfind, hcomplete]) hnew (fun k hk => ?_) ?_ (fun _ => ?_) ?_
          (ih hrest hpeers' { pass with outgoing := pass.outgoing.erase key } hpass)
        · simp [hk]
        · rw [hdone]
          simp [OutgoingTransfers.unfinished]
        · simp
        · simp [hdone]
      · -- out of attempts
        refine .stopped ?_ hinserted fun k hnone => ?_
        · simp [OutgoingTransfers.polls, hfind, hcomplete, hfailed]
        · rw [SortedMap.find?_insert, if_neg, hnone]
          rintro rfl
          exact absurd (hfind.symm.trans hnone) (by simp)
      · exact hactive hcomplete hfailed pass.sends
      · obtain ⟨endpoint, hendpoint⟩ := Option.isSome_iff_exists.mp (hpeers key List.mem_cons_self)
        simp only [hendpoint]
        exact hactive hcomplete hfailed _

/-! ### Whole runs -/

/-- While the loop goes on, the recipients left are some of those it started with, and the others have no
window any more. -/
structure LoopInvariant (job : SendFileJob) (loop : SendLoop) : Prop where
  sublist : loop.transferKeys.Sublist job.allTransferKeys
  gone : loop.failed = false → ∀ key ∈ job.allTransferKeys, key ∉ loop.transferKeys →
    loop.outgoing.find? key = none

theorem allTransferKeys_nodup (job : SendFileJob) : job.allTransferKeys.Nodup := by
  unfold allTransferKeys
  rw [List.Nodup, List.pairwise_map]
  refine job.establishedPeers.sorted.imp fun hlt heq => ?_
  have hsame := congrArg FileTransferKey.sender heq
  simp only at hsame
  exact absurd hlt (by rw [hsame]; exact lt_irrefl _)

theorem endpointOf_isSome (h : key ∈ job.allTransferKeys) : (job.endpointOf key).isSome = true := by
  obtain ⟨⟨nodeId, peer⟩, hmem, rfl⟩ := List.mem_map.mp h
  have hfind : job.establishedPeers.find? nodeId = some peer := SortedMap.find?_eq_some_iff.mpr hmem
  simp only [endpointOf, hfind, Option.bind_some]
  exact job.reachable nodeId peer hfind

theorem find?_apply (event : OutgoingEvent)
    (h : outgoing.find? key = none) : (event.apply outgoing).find? key = none := by
  have hinsert {target : FileTransferKey} {window window' : FileSendWindow}
      (hfind : outgoing.find? target = some window) : (outgoing.insert target window').find? key = none := by
    rw [SortedMap.find?_insert, if_neg, h]
    rintro rfl
    exact absurd (hfind.symm.trans h) (by simp)
  cases event with
  | ack peerId message now =>
    simp only [OutgoingEvent.apply]
    split
    · rename_i hfind
      exact hinsert hfind
    · exact h
  | cancel target =>
    simp only [OutgoingEvent.apply]
    split
    · rename_i hfind
      exact hinsert hfind
    · exact h
  | stop => rfl

theorem find?_foldl_apply (events : List OutgoingEvent)
    (h : outgoing.find? key = none) : (events.foldl OutgoingEvent.apply outgoing).find? key = none :=
  Run.invariant (fun outgoing : OutgoingTransfers => outgoing.find? key = none)
    (fun _ event h => find?_apply event h) h events

theorem LoopInvariant.pass (h : LoopInvariant job loop) (r : SendRound) :
    PassSpec r.now loop.transferKeys { outgoing := r.before.foldl OutgoingEvent.apply loop.outgoing }
      (job.pollPass r.now loop.transferKeys
        { outgoing := r.before.foldl OutgoingEvent.apply loop.outgoing }) :=
  pollPass_spec (h.sublist.nodup job.allTransferKeys_nodup)
    (fun _ hkey => endpointOf_isSome (h.sublist.subset hkey)) r.now _ rfl

/-- The recipients from the first one on at which the pass of the round ends. -/
def notPolled (loop : SendLoop) (r : SendRound) : List FileTransferKey :=
  loop.transferKeys.dropWhile
    (OutgoingTransfers.polls (r.before.foldl OutgoingEvent.apply loop.outgoing) r.now)

theorem LoopInvariant.find?_pass (h : LoopInvariant job loop) (hgoing : loop.failed = false) {r : SendRound}
    {result : SendPass} (hpass : PassSpec r.now loop.transferKeys
      { outgoing := r.before.foldl OutgoingEvent.apply loop.outgoing } result) (hstop : notPolled loop r = [])
    (hall : key ∈ job.allTransferKeys) (hnot : key ∉ result.active) : result.outgoing.find? key = none := by
  unfold notPolled at hstop
  by_cases hkey : key ∈ loop.transferKeys
  · refine hpass.gone key hkey (by simp only [hstop]; simp) ?_
    rw [Bool.eq_false_iff]
    intro hunfinished
    exact hnot ((hpass.active key).mpr (Or.inr ⟨hkey, by simp only [hstop]; simp, hunfinished⟩))
  · exact hpass.absent key (find?_foldl_apply r.before (h.gone hgoing key hall hkey))

theorem LoopInvariant.round (h : LoopInvariant job loop) (r : SendRound) : LoopInvariant job (job.round loop r) := by
  have hpass := h.pass r
  unfold SendFileJob.round
  split_ifs with hended
  · exact h
  · simp only [Bool.or_eq_true, not_or, Bool.not_eq_true] at hended
    simp only
    generalize job.pollPass r.now loop.transferKeys
      { outgoing := r.before.foldl OutgoingEvent.apply loop.outgoing } = result at hpass ⊢
    have hsub : result.active.Sublist job.allTransferKeys := hpass.sublist.trans (by simpa using h.sublist)
    have hgone (hfailed : result.failed = false) (key : FileTransferKey) (hall : key ∈ job.allTransferKeys)
        (hnot : key ∉ result.active) : result.outgoing.find? key = none := by
      refine h.find?_pass hended.2 hpass ?_ hall hnot
      by_contra hne
      exact absurd (hfailed.symm.trans (hpass.failed.mpr hne)) (by simp)
    split_ifs with hbreak
    · exact ⟨hsub, hgone⟩
    · simp only [Bool.or_eq_true, not_or, Bool.not_eq_true] at hbreak
      exact ⟨hsub, fun _ key hall hnot => find?_foldl_apply r.during (hgone hbreak.1 key hall hnot)⟩

theorem LoopInvariant.run {now : Time} {start : SendLoop} (hstart : job.setUp now outgoing = some start)
    (rounds : List SendRound) : LoopInvariant job (rounds.foldl job.round start) := by
  have hinit : LoopInvariant job start := by
    obtain ⟨window, -, rfl⟩ := Option.map_eq_some_iff.mp hstart
    exact ⟨List.Sublist.refl _, fun _ key hall hnot => absurd hall hnot⟩
  exact Run.invariant (LoopInvariant job) (fun _ r h => h.round r) hinit rounds

theorem LoopInvariant.mem_cancelled (h : LoopInvariant job loop) (hfailed : loop.failed = true)
    (key : FileTransferKey) : key ∈ job.cancelled loop ↔ key ∈ loop.transferKeys := by
  simp only [cancelled, hfailed, if_true, List.mem_filter]
  exact ⟨fun hmem => hmem.1, fun hmem => ⟨hmem, endpointOf_isSome (h.sublist.subset hmem)⟩⟩

/-- Where the pass breaks off, the active recipients are the unfinished ones before the failure. -/
theorem LoopInvariant.active_unfinished_iff (h : LoopInvariant job loop) (hgoing : loop.failed = false)
    {r : SendRound} {result : SendPass} (hpass : PassSpec r.now loop.transferKeys
      { outgoing := r.before.foldl OutgoingEvent.apply loop.outgoing } result) :
    (∀ key ∈ job.allTransferKeys, result.outgoing.unfinished key = true → key ∈ result.active) ↔
      ∀ key ∈ notPolled loop r,
        OutgoingTransfers.unfinished (r.before.foldl OutgoingEvent.apply loop.outgoing) key = false := by
  constructor
  · intro hall key hstop
    rw [Bool.eq_false_iff]
    intro hunfinished
    have hmem : key ∈ loop.transferKeys := (List.dropWhile_sublist _).subset hstop
    have hactive := hall key (h.sublist.subset hmem) ((hpass.unfinished key).trans hunfinished)
    rcases (hpass.active key).mp hactive with habsurd | ⟨-, hnot, -⟩
    · simp at habsurd
    · exact hnot hstop
  · intro hdone key hall hunfinished
    rw [hpass.unfinished key] at hunfinished
    refine (hpass.active key).mpr (Or.inr ⟨?_, fun hstop => ?_, hunfinished⟩)
    · by_contra hnot
      have hnone := find?_foldl_apply r.before (h.gone hgoing key hall hnot)
      simp [OutgoingTransfers.unfinished, hnone] at hunfinished
    · exact absurd ((hdone key hstop).symm.trans hunfinished) (by simp)

/-- When a round ends the loop with a failure, every unfinished recipient is sent a cancellation exactly
when none of those from the first failed poll on is unfinished. -/
theorem cancelled_unfinished_iff (job : SendFileJob) {now : Time} {outgoing : OutgoingTransfers}
    {start : SendLoop} (hstart : job.setUp now outgoing = some start) (rounds : List SendRound)
    (r : SendRound) :
    let loop := rounds.foldl job.round start
    let last := job.round loop r
    loop.failed = false → last.failed = true →
    ((∀ key ∈ job.allTransferKeys, last.outgoing.unfinished key = true → key ∈ job.cancelled last) ↔
      ∀ key ∈ notPolled loop r,
        OutgoingTransfers.unfinished (r.before.foldl OutgoingEvent.apply loop.outgoing) key = false) := by
  intro loop last hgoing hfailed
  have h : LoopInvariant job loop := .run hstart rounds
  have hpass := h.pass r
  have hended : (!r.running || loop.transferKeys.isEmpty || loop.failed) = false := by
    rw [Bool.eq_false_iff]
    intro hended
    have hsame : last = loop := if_pos hended
    rw [hsame, hgoing] at hfailed
    exact absurd hfailed (by simp)
  have hcancelled : ∀ key, key ∈ job.cancelled last ↔ key ∈ last.transferKeys := (h.round r).mem_cancelled hfailed
  simp only [hcancelled]
  have hlast : last = job.round loop r := rfl
  unfold SendFileJob.round at hlast
  rw [if_neg (by simp [hended])] at hlast
  simp only at hlast
  generalize job.pollPass r.now loop.transferKeys
    { outgoing := r.before.foldl OutgoingEvent.apply loop.outgoing } = result at hpass hlast
  cases hpolled : result.failed with
  | true =>
    -- the pass broke off: the list holds the recipients before the failure
    have hbroken : last = ⟨result.outgoing, result.active, true⟩ := by rw [hlast, hpolled]; rfl
    rw [hbroken]
    exact h.active_unfinished_iff hgoing hpass
  | false =>
    -- every recipient was polled: those not on the list have no window
    have hstop : notPolled loop r = [] := by
      by_contra hne
      exact absurd (hpolled.symm.trans (hpass.failed.mpr hne)) (by simp)
    have hempty : result.active.isEmpty = false := by
      rw [Bool.eq_false_iff]
      intro hempty
      rw [hlast, hpolled, hempty] at hfailed
      exact absurd hfailed (by simp)
    rw [hpolled, hempty] at hlast
    refine iff_of_true (fun key hall hunfinished => ?_) (by simp [hstop])
    by_contra hnot
    have hactive : key ∉ result.active := by
      rw [hlast] at hnot
      exact hnot
    have hnone := find?_foldl_apply r.during (h.find?_pass hgoing hpass hstop hall hactive)
    rw [hlast] at hunfinished
    simp [OutgoingTransfers.unfinished, hnone] at hunfinished

/-- Two recipients, nodes 1 and 2. -/
def sampleJob : SendFileJob :=
  let endpoint : Endpoint := { port := 1 }
  .toPeers ⟨256, (∅ : SortedMap NodeId Peer).insert (FixedBytes.copy 32 [1])
      { nodeId := FixedBytes.copy 32 [1], publicKey := FixedBytes.copy 32 [1], endpoint := some endpoint }
    |>.insert (FixedBytes.copy 32 [2])
      { nodeId := FixedBytes.copy 32 [2], publicKey := FixedBytes.copy 32 [2], endpoint := some endpoint }⟩
    (fun _ => true) none 7 1

/-- The loop of the sample job as it starts. -/
def sampleLoop : SendLoop := (sampleJob.setUp 0 ∅).getD ⟨∅, [], false⟩

/-- Both recipients take the header, then a chunk cannot be read: both are cancelled. -/
theorem cancelled_after_read_failure :
    let heard (node : UInt8) : OutgoingEvent := .ack (FixedBytes.copy 32 [node]) ⟨7, true, []⟩ 1
    let unreadable : SendRound := { now := 2, before := [heard 1, heard 2], read := fun _ => none }
    let loop := [({ now := 0 } : SendRound)].foldl sampleJob.round sampleLoop
    let last := sampleJob.round loop unreadable
    last.failed = true ∧
      ∀ key ∈ sampleJob.allTransferKeys, last.outgoing.unfinished key = true → key ∈ sampleJob.cancelled last := by
  intro heard unreadable loop last
  have hstart : sampleJob.setUp 0 ∅ = some sampleLoop := by decide +kernel
  have hfailed : last.failed = true := by decide +kernel
  refine ⟨hfailed, (sampleJob.cancelled_unfinished_iff hstart [{ now := 0 }] unreadable (by decide +kernel)
    hfailed).mpr ?_⟩
  decide +kernel

/-- The first recipient cancels; the second, which has not got its file, is not told. -/
theorem second_recipient_not_cancelled :
    let first : FileTransferKey := ⟨FixedBytes.copy 32 [1], 7⟩
    let second : FileTransferKey := ⟨FixedBytes.copy 32 [2], 7⟩
    let loop := [({ now := 0 } : SendRound)].foldl sampleJob.round sampleLoop
    let last := sampleJob.round loop { now := 1, before := [.cancel first] }
    loop.failed = false ∧ last.failed = true ∧ second ∈ sampleJob.allTransferKeys ∧
      last.outgoing.unfinished second = true ∧ second ∉ sampleJob.cancelled last := by
  decide +kernel

end SendFileJob

end Aegis
