import Mathlib.Data.List.Basic
import Mathlib.Tactic

universe u

namespace Slots

variable {α : Type u} {slots : List α} {x y z : α} {k l : ℕ}

theorem getElem?_set_cases (h : (slots.set k y)[l]? = some z) :
    l = k ∧ z = y ∨ l ≠ k ∧ slots[l]? = some z := by
  by_cases hkl : l = k
  · subst hkl
    rw [List.getElem?_set_self'] at h
    obtain ⟨_, -, rfl⟩ := Option.map_eq_some_iff.mp h
    exact .inl ⟨rfl, rfl⟩
  · rw [List.getElem?_set_ne (Ne.symm hkl)] at h
    exact .inr ⟨hkl, h⟩

theorem getElem?_set_self (h : slots[k]? = some x) : (slots.set k y)[k]? = some y := by
  obtain ⟨hlt, -⟩ := List.getElem?_eq_some_iff.mp h
  exact List.getElem?_set_self hlt

theorem getElem?_concat_cases (h : (slots ++ [y])[l]? = some z) :
    l = slots.length ∧ z = y ∨ l ≠ slots.length ∧ slots[l]? = some z := by
  obtain hlt | rfl | hgt := lt_trichotomy l slots.length
  · rw [List.getElem?_append_left hlt] at h
    exact .inr ⟨hlt.ne, h⟩
  · rw [List.getElem?_concat_length] at h
    exact .inl ⟨rfl, (Option.some.inj h).symm⟩
  · rw [List.getElem?_eq_none (by simpa using hgt)] at h
    cases h

theorem getElem?_concat_left (h : slots[l]? = some z) : (slots ++ [y])[l]? = some z := by
  obtain ⟨hlt, -⟩ := List.getElem?_eq_some_iff.mp h
  rw [List.getElem?_append_left hlt, h]

end Slots
