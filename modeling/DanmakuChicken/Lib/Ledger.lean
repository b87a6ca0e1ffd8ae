import Mathlib.Data.List.Nodup
import Mathlib.Data.List.Perm.Basic
import Mathlib.Tactic.Common

universe u

namespace Ledger

open scoped List

variable {κ : Type u}

def Leaves (held created deleted held' : List κ) : Prop := held' ++ deleted ~ held ++ created

namespace Leaves

variable {held held' held'' created created' deleted deleted' : List κ} {a : κ}

theorem refl (held : List κ) : Leaves held [] [] held := List.Perm.refl _

theorem trans (h : Leaves held created deleted held') (h' : Leaves held' created' deleted' held'') :
    Leaves held (created ++ created') (deleted ++ deleted') held'' := by
  calc held'' ++ (deleted ++ deleted')
      ~ (held'' ++ deleted') ++ deleted := by
        rw [List.append_assoc]
        exact List.Perm.append_left _ List.perm_append_comm
    _ ~ (held' ++ created') ++ deleted := h'.append_right _
    _ ~ (held' ++ deleted) ++ created' := by
        rw [List.append_assoc, List.append_assoc]
        exact List.Perm.append_left _ List.perm_append_comm
    _ ~ (held ++ created) ++ created' := h.append_right _
    _ = held ++ (created ++ created') := List.append_assoc _ _ _

section Nodup

variable (h : Leaves held created deleted held') (hnodup : (held ++ created).Nodup)

include h hnodup

theorem nodup : (held' ++ deleted).Nodup := (List.Perm.nodup_iff h).mpr hnodup

theorem disjoint : held'.Disjoint deleted := (List.nodup_append'.mp (h.nodup hnodup)).2.2

theorem mem_iff : a ∈ held' ↔ a ∈ held ++ created ∧ a ∉ deleted := by
  rw [← List.Perm.mem_iff h, List.mem_append]
  constructor
  · intro hheld
    exact ⟨.inl hheld, fun hdeleted => h.disjoint hnodup hheld hdeleted⟩
  · rintro ⟨ha, hdeleted⟩
    exact ha.resolve_right hdeleted

theorem mem_deleted_iff : a ∈ deleted ↔ a ∈ held ++ created ∧ a ∉ held' := by
  rw [← List.Perm.mem_iff h, List.mem_append]
  constructor
  · intro hdeleted
    exact ⟨.inr hdeleted, fun hheld => h.disjoint hnodup hheld hdeleted⟩
  · rintro ⟨ha, hheld⟩
    exact ha.resolve_left hheld

end Nodup

end Leaves

end Ledger
