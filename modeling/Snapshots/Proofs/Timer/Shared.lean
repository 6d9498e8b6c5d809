import Snapshots.Proofs.Timer.Registry

/-! # Registries that share a timer

A timer may hold entries of which a registry knows nothing. A registry is sound if each of its keys
has an entry to itself; then whatever is done for a key changes the entry of that key and no other.
-/

namespace Snapshots.Timer.Registry

open Cron Time

variable {ι : Type}

/-- The entry of a key. -/
def slot? (r : Registry) (e : Engine ι) (id : String) : Option (Schedule × ι) :=
  (r.get? id).bind e.lookup

/-- Every key has an entry to itself. -/
structure Sound (r : Registry) (e : Engine ι) : Prop where
  live : ∀ {id h}, r.get? id = some h → ∃ x, e.lookup h = some x
  distinct : ∀ {id id' h}, r.get? id = some h → r.get? id' = some h → id = id'
  number_le : ∀ {id h}, r.get? id = some h → h.number ≤ e.lastNumber

/-- What is done for a key: the entries of the others stay, and this one becomes another. -/
structure Changes (r : Registry) (e : Engine ι) (id : String) (x? : Option (Schedule × ι))
    (r' : Registry) (e' : Engine ι) : Prop where
  sound : r'.Sound e'
  slot?_self : r'.slot? e' id = x?
  slot?_other : ∀ {k}, k ≠ id → r'.slot? e' k = r.slot? e k

namespace Sound

variable {r r' : Registry} {e e' : Engine ι} {id : String}

theorem empty (e : Engine ι) : Sound .empty e :=
  ⟨nofun, nofun, nofun⟩

theorem withdraw (hs : r.Sound e) (hh : ∀ k, r'.get? k = if k = id then none else r.get? k)
    (hk : ∀ h, e'.lookup h = if r.get? id = some h then none else e.lookup h)
    (hl : e'.lastNumber = e.lastNumber) : Changes r e id none r' e' := by
  have hold : ∀ {k h}, r'.get? k = some h →
      k ≠ id ∧ r.get? k = some h ∧ e'.lookup h = e.lookup h := by
    intro k h hkh
    rw [hh] at hkh
    split at hkh
    · cases hkh
    · rename_i hne
      refine ⟨hne, hkh, ?_⟩
      rw [hk, if_neg fun hid => hne (hs.distinct hkh hid)]
  refine ⟨⟨fun hkh => ?_, fun h₁ h₂ => ?_, fun hkh => ?_⟩, ?_, fun {k} hne => ?_⟩
  · obtain ⟨-, hkh, hlookup⟩ := hold hkh
    rw [hlookup]
    exact hs.live hkh
  · exact hs.distinct (hold h₁).2.1 (hold h₂).2.1
  · rw [hl]
    exact hs.number_le (hold hkh).2.1
  · rw [slot?, hh, if_pos rfl]
    rfl
  · rw [slot?, slot?, hh, if_neg hne]
    cases hkh : r.get? k with
    | none => rfl
    | some h => exact (hold (by rw [hh, if_neg hne, hkh])).2.2

theorem unregister (hs : r.Sound e) (id : String) :
    Changes r e id none (r.unregister e id).1 (r.unregister e id).2 :=
  hs.withdraw (get?_unregister r e id) (lookup_unregister r e id) (lastNumber_unregister ..)

variable {wall : Instant} {expression : String} {job : ι}

theorem register_error (hs : r.Sound e) {f : RegisterError}
    (hr : r.register e wall id expression job = (r', e', .error f)) :
    Changes r e id none r' e' := by
  obtain ⟨hh, hk, hl⟩ := Registry.register_error hr
  exact hs.withdraw hh hk hl

theorem add (hs : r.Sound e) {h : Handle}
    (hr : e.register wall expression job = (e', .ok h)) :
    ∃ schedule, Schedule.parse wall expression = .ok schedule ∧
      Changes r e id (some (schedule, job)) (r.insert id h) e' := by
  obtain ⟨schedule, hp, rfl, hl, hk⟩ := Engine.register_ok hr
  have hfresh : ∀ {k h'}, r.get? k = some h' → h' ≠ ⟨e.lastNumber + 1⟩ := by
    rintro k h' hkh rfl
    exact Nat.not_succ_le_self _ (hs.number_le hkh)
  have hentry : e'.lookup ⟨e.lastNumber + 1⟩ = some (schedule, job) := by
    rw [hk, if_pos rfl]
  have hcases : ∀ {k h'}, (r.insert id ⟨e.lastNumber + 1⟩).get? k = some h' →
      (k = id ∧ h' = ⟨e.lastNumber + 1⟩) ∨ (r.get? k = some h' ∧ e'.lookup h' = e.lookup h') := by
    intro k h' hkh
    rw [Table.get?_insert] at hkh
    split at hkh
    · exact .inl ⟨‹_›, (Option.some.inj hkh).symm⟩
    · exact .inr ⟨hkh, by rw [hk, if_neg (hfresh hkh)]⟩
  refine ⟨schedule, hp, ⟨fun hkh => ?_, fun h₁ h₂ => ?_, fun hkh => ?_⟩, ?_, fun {k} hne => ?_⟩
  · rcases hcases hkh with ⟨-, rfl⟩ | ⟨hkh, hlookup⟩
    · exact ⟨_, hentry⟩
    · rw [hlookup]
      exact hs.live hkh
  · rcases hcases h₁ with ⟨hk₁, hh₁⟩ | ⟨hg₁, -⟩ <;> rcases hcases h₂ with ⟨hk₂, hh₂⟩ | ⟨hg₂, -⟩
    · exact hk₁.trans hk₂.symm
    · exact absurd hh₁ (hfresh hg₂)
    · exact absurd hh₂ (hfresh hg₁)
    · exact hs.distinct hg₁ hg₂
  · rw [hl]
    rcases hcases hkh with ⟨-, rfl⟩ | ⟨hkh, -⟩
    · exact Nat.le_refl _
    · exact Nat.le_succ_of_le (hs.number_le hkh)
  · rw [slot?, Table.get?_insert_self]
    exact hentry
  · rw [slot?, slot?, Table.get?_insert, if_neg hne]
    cases hkh : r.get? k with
    | none => rfl
    | some h' => exact (hk h').trans (if_neg (hfresh hkh))

theorem register_ok (hs : r.Sound e) {h : Handle}
    (hr : r.register e wall id expression job = (r', e', .ok h)) :
    ∃ schedule, Schedule.parse wall expression = .ok schedule ∧
      Changes r e id (some (schedule, job)) r' e' := by
  have hu := hs.unregister id
  rw [register_eq] at hr
  split at hr
  · rename_i he
    cases hr
    obtain ⟨schedule, hp, ha⟩ := hu.sound.add he
    exact ⟨schedule, hp, ha.sound, ha.slot?_self,
      fun hne => (ha.slot?_other hne).trans (hu.slot?_other hne)⟩
  · cases hr

theorem turn (hs : r.Sound e) (t : Turn) : r.Sound (e.turn t) :=
  ⟨fun h => by simpa using hs.live h, hs.distinct, fun h => by simpa using hs.number_le h⟩

end Sound

@[simp] theorem slot?_turn (r : Registry) (e : Engine ι) (t : Turn) (id : String) :
    r.slot? (e.turn t) id = r.slot? e id := by
  unfold slot?
  congr 1
  funext h
  exact e.lookup_turn t h

end Snapshots.Timer.Registry
