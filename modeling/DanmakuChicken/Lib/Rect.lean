import Mathlib.Order.BourbakiWitt
import Mathlib.Order.CompletePartialOrder
import Mathlib.Order.Interval.Set.Disjoint
import Mathlib.Data.Set.Prod
import Mathlib.Algebra.Order.Group.Basic
import Mathlib.Tactic.Common

universe u

@[ext] structure Rect (α : Type u) where
  left : α
  top : α
  width : α
  height : α
  deriving DecidableEq

namespace Rect

variable {α : Type u} [AddCommGroup α] [LinearOrder α]

def right (r : Rect α) : α := r.left + r.width

def bottom (r : Rect α) : α := r.top + r.height

def points (r : Rect α) : Set (α × α) := Set.Ico r.left r.right ×ˢ Set.Ico r.top r.bottom

def Meets (r s : Rect α) : Prop :=
  s.left < r.right ∧ r.left < s.right ∧ s.top < r.bottom ∧ r.top < s.bottom

instance (r s : Rect α) : Decidable (r.Meets s) := by
  unfold Meets; infer_instance

theorem mem_points {r : Rect α} {p : α × α} :
    p ∈ r.points ↔ (r.left ≤ p.1 ∧ p.1 < r.right) ∧ r.top ≤ p.2 ∧ p.2 < r.bottom := Iff.rfl

theorem meets_of_mem {r s : Rect α} {p : α × α} (hr : p ∈ r.points) (hs : p ∈ s.points) :
    r.Meets s := by
  obtain ⟨⟨hr₁, hr₂⟩, hr₃, hr₄⟩ := mem_points.mp hr
  obtain ⟨⟨hs₁, hs₂⟩, hs₃, hs₄⟩ := mem_points.mp hs
  exact ⟨hs₁.trans_lt hr₂, hr₁.trans_lt hs₂, hs₃.trans_lt hr₄, hr₃.trans_lt hs₄⟩

theorem disjoint_of_not_meets {r s : Rect α} (h : ¬r.Meets s) : Disjoint r.points s.points :=
  Set.disjoint_left.mpr fun _ hr hs => h (meets_of_mem hr hs)

def shiftLeft (v : α) (r : Rect α) : Rect α := { r with left := r.left - v }

variable [IsOrderedAddMonoid α]

theorem not_disjoint_of_meets {r s : Rect α} (hr : 0 < r.width) (hr' : 0 < r.height)
    (hs : 0 < s.width) (hs' : 0 < s.height) (h : r.Meets s) :
    ¬Disjoint r.points s.points := by
  obtain ⟨h₁, h₂, h₃, h₄⟩ := h
  refine Set.not_disjoint_iff.mpr ⟨(max r.left s.left, max r.top s.top), ?_, ?_⟩
  · refine mem_points.mpr ⟨⟨le_max_left _ _, max_lt ?_ h₁⟩, le_max_left _ _, max_lt ?_ h₃⟩
    · exact lt_add_of_pos_right _ hr
    · exact lt_add_of_pos_right _ hr'
  · refine mem_points.mpr ⟨⟨le_max_right _ _, max_lt h₂ ?_⟩, le_max_right _ _, max_lt h₄ ?_⟩
    · exact lt_add_of_pos_right _ hs
    · exact lt_add_of_pos_right _ hs'

@[simp] theorem meets_shiftLeft (v : α) (r s : Rect α) :
    (r.shiftLeft v).Meets (s.shiftLeft v) ↔ r.Meets s := by
  simp only [Meets, right, bottom, shiftLeft, sub_add_eq_add_sub, sub_lt_sub_iff_right]

end Rect
