import Mathlib.Data.List.Basic

/-!
# Keys with values that are minted

Each key has at most one value, and no two keys have the same. A value comes from a mint that never
makes one twice; once no key has it, none gets it again.
-/

namespace Claudebase.Base

universe u v

variable {α : Type u} {β : Type v}

/-- Each key has its own value, one of those that were minted. -/
structure Minted (values : List β) (f : α → Option β) : Prop where
  apart : ∀ k k' v, f k = some v → f k' = some v → k = k'
  known : ∀ k v, f k = some v → v ∈ values

/-- The values afterwards were values before or have just been minted. -/
def Succeeds (values : List β) (f f' : α → Option β) : Prop :=
  ∀ k v, f' k = some v → (∃ k', f k' = some v) ∨ v ∈ values

variable {values values' : List β} {f f' f'' : α → Option β} {key key' : α} {v w : β}

theorem succeeds_refl : Succeeds values f f := fun k _ h ↦ .inl ⟨k, h⟩

theorem Succeeds.trans (h : Succeeds values f f') (h' : Succeeds values' f' f'') :
    Succeeds (values ++ values') f f'' := by
  intro k x hk
  rcases h' k x hk with ⟨k', hk'⟩ | hmem
  · exact (h k' x hk').imp_right (List.mem_append_left values')
  · exact .inr (List.mem_append_right values hmem)

theorem Minted.mono (h : Minted values f) (hsub : values ⊆ values') : Minted values' f :=
  ⟨h.apart, fun k x hk ↦ hsub (h.known k x hk)⟩

variable [DecidableEq α]

/-! ### A value is put under a key -/

theorem succeeds_put : Succeeds [v] f (Function.update f key (some v)) := by
  intro k x h
  by_cases hk : k = key
  · rw [hk, Function.update_self] at h
    exact .inr (List.mem_singleton.mpr (Option.some.inj h).symm)
  · rw [Function.update_of_ne hk] at h
    exact .inl ⟨k, h⟩

/-- A value that is new. -/
theorem Minted.put (h : Minted values f) (hnew : v ∉ values) :
    Minted (values ++ [v]) (Function.update f key (some v)) where
  apart k k' x hk hk' := by
    by_cases heq : k = key
    · rw [heq, Function.update_self] at hk
      cases hk
      by_cases heq' : k' = key
      · rw [heq, heq']
      · rw [Function.update_of_ne heq'] at hk'
        exact absurd (h.known k' v hk') hnew
    · rw [Function.update_of_ne heq] at hk
      by_cases heq' : k' = key
      · rw [heq', Function.update_self] at hk'
        cases hk'
        exact absurd (h.known k v hk) hnew
      · rw [Function.update_of_ne heq'] at hk'
        exact h.apart k k' x hk hk'
  known k x hk := by
    rcases succeeds_put k x hk with ⟨k', hk'⟩ | hmem
    · exact List.mem_append_left _ (h.known k' x hk')
    · exact List.mem_append_right _ hmem

/-- No key has a value that another has taken the place of. -/
theorem Minted.gone_put (h : Minted values f) (hw : f key = some w) (hne : v ≠ w) (k : α) :
    Function.update f key (some v) k ≠ some w := by
  by_cases hk : k = key
  · rw [hk, Function.update_self]
    exact fun heq ↦ hne (Option.some.inj heq)
  · rw [Function.update_of_ne hk]
    exact fun heq ↦ hk (h.apart k key w heq hw)

/-! ### A value goes from one key to another -/

theorem succeeds_move (h : f key = some v) :
    Succeeds [] f (Function.update (Function.update f key none) key' (some v)) := by
  intro k x hk
  by_cases heq' : k = key'
  · rw [heq', Function.update_self] at hk
    exact .inl ⟨key, h.trans hk⟩
  · rw [Function.update_of_ne heq'] at hk
    by_cases heq : k = key
    · rw [heq, Function.update_self] at hk
      cases hk
    · rw [Function.update_of_ne heq] at hk
      exact .inl ⟨k, hk⟩

theorem Minted.move (h : Minted values f) (hv : f key = some v) :
    Minted values (Function.update (Function.update f key none) key' (some v)) where
  apart k k' x hk hk' := by
    have hother : ∀ m, m ≠ key' → Function.update (Function.update f key none) key' (some v) m =
        some x → m ≠ key ∧ f m = some x := by
      intro m hm hupdate
      rw [Function.update_of_ne hm] at hupdate
      by_cases hmkey : m = key
      · rw [hmkey, Function.update_self] at hupdate
        cases hupdate
      · rw [Function.update_of_ne hmkey] at hupdate
        exact ⟨hmkey, hupdate⟩
    by_cases hkey : k = key'
    · rw [hkey, Function.update_self] at hk
      cases hk
      by_contra hne
      obtain ⟨hk'key, hk'⟩ := hother k' (fun heq ↦ hne (hkey.trans heq.symm)) hk'
      exact hk'key (h.apart k' key v hk' hv)
    · obtain ⟨hkkey, hk⟩ := hother k hkey hk
      by_cases hkey' : k' = key'
      · rw [hkey', Function.update_self] at hk'
        cases hk'
        exact absurd (h.apart k key v hk hv) hkkey
      · exact h.apart k k' x hk (hother k' hkey' hk').2
  known k x hk := by
    rcases succeeds_move hv k x hk with ⟨k', hk'⟩ | hmem
    · exact h.known k' x hk'
    · cases hmem

/-- No key has a value that was under one of the two keys, when another goes along. -/
theorem Minted.gone_move (h : Minted values f) (hw : f key = some w ∨ f key' = some w)
    (hne : v ≠ w) (k : α) :
    Function.update (Function.update f key none) key' (some v) k ≠ some w := by
  by_cases hk' : k = key'
  · rw [hk', Function.update_self]
    exact fun heq ↦ hne (Option.some.inj heq)
  · rw [Function.update_of_ne hk']
    by_cases hk : k = key
    · rw [hk, Function.update_self]
      exact (Option.some_ne_none w).symm
    · rw [Function.update_of_ne hk]
      rcases hw with hw | hw
      · exact fun heq ↦ hk (h.apart k key w heq hw)
      · exact fun heq ↦ hk' (h.apart k key' w heq hw)

end Claudebase.Base
