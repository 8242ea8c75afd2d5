import Aegis.Identity.Revocation
import Aegis.Lib.HighWater
import Mathlib.Data.Finset.Card
import Mathlib.Order.WithBot

/-!
# Stores of revocations that converge

Revocations reach the nodes of a network in any order and any number of times. The epochs a store has for the
enrollments are the highest ones that were added (`HighWater`), as long as there is room: the enrollments in the
store are among those of the revocations, so there is room for a new one while there are no more than the store
holds.
-/

namespace Aegis

abbrev Enrollment := NetworkId × SigningKey × FixedBytes 32

namespace MembershipRevocationStore

variable {E : SignatureScheme}

/-- The epoch that is stored for an enrollment, below all epochs if there is none. -/
def epoch (store : MembershipRevocationStore E) (enrollment : Enrollment) : WithBot UInt64 :=
  (store.records.find? fun current => current.enrollment = enrollment).elim ⊥ fun current => current.revocationEpoch

/-- The epoch of a revocation, as one for the store. -/
def mark (revocation : MembershipRevocation) : WithBot UInt64 := revocation.revocationEpoch

def addAll (store : MembershipRevocationStore E) (revocations : List MembershipRevocation) :
    MembershipRevocationStore E :=
  revocations.foldl (fun store revocation => (store.add revocation).2) store

variable {store : MembershipRevocationStore E} {revocation : MembershipRevocation}

theorem epoch_of_find? {enrollment : Enrollment} {found : MembershipRevocation}
    (h : store.records.find? (fun current => current.enrollment = enrollment) = some found) :
    store.epoch enrollment = mark found := by
  rw [epoch, h]
  rfl

theorem epoch_of_notMem {enrollment : Enrollment}
    (h : enrollment ∉ store.records.map MembershipRevocation.enrollment) : store.epoch enrollment = ⊥ := by
  have hnone : store.records.find? (fun current => current.enrollment = enrollment) = none :=
    List.find?_eq_none.mpr fun current hcurrent hsame =>
      h (List.mem_map.mpr ⟨current, hcurrent, of_decide_eq_true hsame⟩)
  rw [epoch, hnone]
  rfl

theorem epoch_eq_update {next : MembershipRevocationStore E}
    (hfound : next.records.find? (fun current => current.enrollment = revocation.enrollment) = some revocation)
    (hothers : ∀ enrollment ≠ revocation.enrollment,
      next.records.filter (fun current => current.enrollment = enrollment)
        = store.records.filter fun current => current.enrollment = enrollment) :
    next.epoch = Function.update store.epoch revocation.enrollment (mark revocation) := by
  funext enrollment
  by_cases hsame : enrollment = revocation.enrollment
  · rw [hsame, Function.update_self, epoch_of_find? hfound]
  · rw [Function.update_of_ne hsame, epoch, epoch, ← List.head?_filter, ← List.head?_filter, hothers enrollment hsame]

/-- What an addition can do: nothing, for a revocation that is not verified, not newer, or for which there is no
room; or store the revocation. -/
theorem add_cases (store : MembershipRevocationStore E) (revocation : MembershipRevocation) :
    (store.add revocation).2 = store ∧
      (verifyMembershipRevocation E revocation = false ∨ mark revocation ≤ store.epoch revocation.enrollment ∨
        (revocation.enrollment ∉ store.records.map MembershipRevocation.enrollment ∧
          MEMBERSHIP_REVOCATION_MAX_STORED ≤ store.records.length)) ∨
    store.epoch revocation.enrollment ≤ mark revocation ∧
      (store.add revocation).2.epoch = Function.update store.epoch revocation.enrollment (mark revocation) ∧
      ((store.add revocation).2.records.map MembershipRevocation.enrollment
          = store.records.map MembershipRevocation.enrollment ∨
        (store.add revocation).2.records.map MembershipRevocation.enrollment
          = store.records.map MembershipRevocation.enrollment ++ [revocation.enrollment]) := by
  unfold add
  split
  case isFalse hverified => exact Or.inl ⟨rfl, Or.inl (by simpa using hverified)⟩
  split
  case h_1 found hfound =>
    have hepoch : store.epoch revocation.enrollment = mark found := epoch_of_find? hfound
    have hsame : found.enrollment = revocation.enrollment := by simpa using List.find?_some hfound
    by_cases hle : revocation.revocationEpoch ≤ found.revocationEpoch
    · rw [if_pos hle, hepoch]
      exact Or.inl ⟨rfl, Or.inr (Or.inl (WithBot.coe_le_coe.mpr hle))⟩
    · rw [if_neg hle, hepoch]
      refine Or.inr ⟨WithBot.coe_le_coe.mpr (le_of_not_ge hle), ?_, Or.inl ?_⟩
      · refine epoch_eq_update (List.find?_updateFirst hfound (by simp)) fun enrollment hne => ?_
        refine List.filter_updateFirst fun current hcurrent => ?_
        have hkey : current.enrollment = revocation.enrollment := by simpa using List.find?_some hcurrent
        simp [hkey, Ne.symm hne]
      · refine List.map_updateFirst fun current hcurrent => ?_
        have hkey : current.enrollment = revocation.enrollment := by simpa using List.find?_some hcurrent
        exact hkey.symm
  case h_2 hfound =>
    have hnew : revocation.enrollment ∉ store.records.map MembershipRevocation.enrollment := by
      intro hmem
      obtain ⟨current, hcurrent, hsame⟩ := List.mem_map.mp hmem
      exact List.find?_eq_none.mp hfound current hcurrent (by simp [hsame])
    by_cases hroom : store.records.length < MEMBERSHIP_REVOCATION_MAX_STORED
    · rw [dif_pos hroom, epoch_of_notMem hnew]
      refine Or.inr ⟨bot_le, epoch_eq_update ?_ fun enrollment hne => ?_, Or.inr (by simp)⟩
      · rw [List.find?_append, hfound]
        simp
      · simp [List.filter_append, Ne.symm hne]
    · rw [dif_neg hroom]
      exact Or.inl ⟨rfl, Or.inr (Or.inr ⟨hnew, Nat.not_lt.mp hroom⟩)⟩

theorem add_mono (store : MembershipRevocationStore E) (revocation : MembershipRevocation) :
    store.epoch ≤ (store.add revocation).2.epoch ∧
      store.records.map MembershipRevocation.enrollment
        ⊆ (store.add revocation).2.records.map MembershipRevocation.enrollment := by
  rcases store.add_cases revocation with ⟨hsame, -⟩ | ⟨hle, hepoch, hkeys⟩
  · rw [hsame]
    exact ⟨le_refl _, List.Subset.refl _⟩
  · refine ⟨?_, ?_⟩
    · rw [hepoch]
      exact le_update_self_iff.mpr hle
    · rcases hkeys with hkeys | hkeys
      · rw [hkeys]
        exact List.Subset.refl _
      · rw [hkeys]
        exact List.subset_append_left _ _

theorem epoch_add (hverified : verifyMembershipRevocation E revocation = true)
    (hroom : revocation.enrollment ∉ store.records.map MembershipRevocation.enrollment →
      store.records.length < MEMBERSHIP_REVOCATION_MAX_STORED) :
    (store.add revocation).2.epoch = HighWater.raise MembershipRevocation.enrollment mark store.epoch revocation := by
  rcases store.add_cases revocation with ⟨hsame, hwhy⟩ | ⟨hle, hepoch, -⟩
  · rw [hsame]
    rcases hwhy with hfalse | hold | ⟨hnew, hfull⟩
    · exact absurd (hverified.symm.trans hfalse) (by simp)
    · rw [HighWater.raise, sup_eq_left.mpr hold, Function.update_eq_self]
    · exact absurd hfull (Nat.not_le.mpr (hroom hnew))
  · rw [hepoch, HighWater.raise, sup_eq_right.mpr hle]

theorem length_lt_of_notMem {keys : Finset Enrollment}
    (hkeys : ∀ enrollment ∈ store.records.map MembershipRevocation.enrollment, enrollment ∈ keys)
    (hmem : revocation.enrollment ∈ keys)
    (hnew : revocation.enrollment ∉ store.records.map MembershipRevocation.enrollment) :
    store.records.length < keys.card := by
  have hcard : (store.records.map MembershipRevocation.enrollment).toFinset.card = store.records.length := by
    rw [List.toFinset_card_of_nodup store.nodup, List.length_map]
  rw [← hcard]
  refine Finset.card_lt_card (Finset.ssubset_iff_subset_ne.mpr ⟨fun enrollment h => ?_, fun hsame => ?_⟩)
  · exact hkeys enrollment (List.mem_toFinset.mp h)
  · rw [← hsame, List.mem_toFinset] at hmem
    exact hnew hmem

theorem mem_keys_add {keys : Finset Enrollment}
    (hkeys : ∀ enrollment ∈ store.records.map MembershipRevocation.enrollment, enrollment ∈ keys)
    (hmem : revocation.enrollment ∈ keys) :
    ∀ enrollment ∈ (store.add revocation).2.records.map MembershipRevocation.enrollment, enrollment ∈ keys := by
  intro enrollment henrollment
  rcases store.add_cases revocation with ⟨hsame, -⟩ | ⟨-, -, hkept | hadded⟩
  · exact hkeys enrollment (hsame ▸ henrollment)
  · exact hkeys enrollment (hkept ▸ henrollment)
  · rw [hadded] at henrollment
    rcases List.mem_append.mp henrollment with hbefore | hnow
    · exact hkeys enrollment hbefore
    · rwa [List.mem_singleton.mp hnow]

/-- While there is room, a store takes the highest epochs of what is added. -/
theorem epoch_addAll {keys : Finset Enrollment} (hroom : keys.card ≤ MEMBERSHIP_REVOCATION_MAX_STORED)
    (hkeys : ∀ enrollment ∈ store.records.map MembershipRevocation.enrollment, enrollment ∈ keys)
    {revocations : List MembershipRevocation} (hverified : ∀ r ∈ revocations, verifyMembershipRevocation E r = true)
    (hmem : ∀ r ∈ revocations, r.enrollment ∈ keys) :
    (store.addAll revocations).epoch =
      revocations.foldl (HighWater.raise MembershipRevocation.enrollment mark) store.epoch := by
  induction revocations generalizing store with
  | nil => rfl
  | cons r rest ih =>
    have hr := hmem r List.mem_cons_self
    have hepoch := epoch_add (hverified r List.mem_cons_self)
      fun hnew => Nat.lt_of_lt_of_le (length_lt_of_notMem hkeys hr hnew) hroom
    rw [List.foldl_cons, ← hepoch]
    exact ih (mem_keys_add hkeys hr) (fun r' hr' => hverified r' (List.mem_cons_of_mem r hr'))
      fun r' hr' => hmem r' (List.mem_cons_of_mem r hr')

theorem addAll_mono (store : MembershipRevocationStore E) (revocations : List MembershipRevocation) :
    store.epoch ≤ (store.addAll revocations).epoch ∧
      store.records.map MembershipRevocation.enrollment
        ⊆ (store.addAll revocations).records.map MembershipRevocation.enrollment := by
  induction revocations generalizing store with
  | nil => exact ⟨le_refl _, List.Subset.refl _⟩
  | cons r rest ih =>
    obtain ⟨hepoch, hkeys⟩ := store.add_mono r
    obtain ⟨hepoch', hkeys'⟩ := ih (store.add r).2
    exact ⟨hepoch.trans hepoch', List.Subset.trans hkeys hkeys'⟩

/-- Stores that were given the same verified revocations, of no more enrollments than a store holds, in any orders
and however often, have the same epochs, the highest of each enrollment. Over any additions to any store no epoch
falls, no enrollment is dropped, and there is one record for each. -/
theorem stores_converge (E : SignatureScheme) :
    (∀ revocations : Finset MembershipRevocation, (∀ r ∈ revocations, verifyMembershipRevocation E r = true) →
      (revocations.image MembershipRevocation.enrollment).card ≤ MEMBERSHIP_REVOCATION_MAX_STORED →
      ∀ first second : List MembershipRevocation, first.toFinset = revocations → second.toFinset = revocations →
      ∀ enrollment, (addAll (E := E) {} first).epoch enrollment = (addAll (E := E) {} second).epoch enrollment ∧
        (addAll (E := E) {} first).epoch enrollment =
          (revocations.filter fun r => r.enrollment = enrollment).sup mark) ∧
    ∀ (store : MembershipRevocationStore E) (revocations : List MembershipRevocation),
      (∀ enrollment, store.epoch enrollment ≤ (store.addAll revocations).epoch enrollment) ∧
      (∀ enrollment ∈ store.records.map MembershipRevocation.enrollment,
        enrollment ∈ (store.addAll revocations).records.map MembershipRevocation.enrollment) ∧
      ((store.addAll revocations).records.map MembershipRevocation.enrollment).Nodup := by
  refine ⟨fun revocations hverified hroom first second hfirst hsecond enrollment => ?_, fun store revocations =>
    ⟨(store.addAll_mono revocations).1, (store.addAll_mono revocations).2, (store.addAll revocations).nodup⟩⟩
  have hhighest {added : List MembershipRevocation} (hadded : added.toFinset = revocations) :
      (addAll (E := E) {} added).epoch enrollment =
        (revocations.filter fun r => r.enrollment = enrollment).sup mark := by
    have hmem {r : MembershipRevocation} (hr : r ∈ added) : r ∈ revocations := hadded ▸ List.mem_toFinset.mpr hr
    rw [epoch_addAll hroom (by simp) (fun r hr => hverified r (hmem hr))
      (fun r hr => Finset.mem_image_of_mem _ (hmem hr)), HighWater.foldl_raise, hadded]
    exact bot_sup_eq _
  exact ⟨(hhighest hfirst).trans (hhighest hsecond).symm, hhighest hfirst⟩

end MembershipRevocationStore

end Aegis
