import DanmakuChicken.Overlay.Danmaku

namespace DanmakuChicken.Overlay

open Danmaku

namespace Danmaku

def advance (speed : ℤ) (d : Danmaku) : Danmaku := d.setX (d.pos.x - speed)

@[simp] theorem advance_x (v : ℤ) (d : Danmaku) : (d.advance v).pos.x = d.pos.x - v := rfl
@[simp] theorem advance_y (v : ℤ) (d : Danmaku) : (d.advance v).pos.y = d.pos.y := rfl
@[simp] theorem advance_size (v : ℤ) (d : Danmaku) : (d.advance v).size = d.size := rfl
@[simp] theorem advance_bottom (v : ℤ) (d : Danmaku) : (d.advance v).bottom = d.bottom := rfl

theorem advance_right (v : ℤ) (d : Danmaku) : (d.advance v).right = d.right - v := by
  simp only [right, advance_x, advance_size]
  omega

theorem rect_advance (v : ℤ) (d : Danmaku) : (d.advance v).rect = d.rect.shiftLeft v := rfl

end Danmaku

/-- The `for` of `UpdateDanmaku` from the iterator `begin + it` on. -/
def updateFrom (speed : ℤ) (set : List Danmaku) (it : ℕ) : List Danmaku :=
  if _end : it < set.length then
    let danmaku := set[it].advance speed
    let set := set.set it danmaku
    if danmaku.right ≤ 0 then updateFrom speed (erase set it) it
    else updateFrom speed set (it + 1)
  else set
termination_by set.length - it
decreasing_by
  · simp only [erase_eq_eraseIdx, List.length_eraseIdx, List.length_set]
    split <;> omega
  · simp only [List.length_set]
    omega

def updateDanmaku (speed : ℤ) (set : List Danmaku) : List Danmaku := updateFrom speed set 0

def ticked (speed : ℤ) (set : List Danmaku) : List Danmaku :=
  (set.map (advance speed)).filter fun d => 0 < d.right

@[simp] theorem ticked_nil (v : ℤ) : ticked v [] = [] := rfl

theorem ticked_cons (v : ℤ) (d : Danmaku) (set : List Danmaku) :
    ticked v (d :: set) =
      if 0 < (d.advance v).right then d.advance v :: ticked v set else ticked v set := by
  simp only [ticked, List.map_cons, List.filter_cons, decide_eq_true_eq]

@[simp] theorem ticked_append (v : ℤ) (set more : List Danmaku) :
    ticked v (set ++ more) = ticked v set ++ ticked v more := by
  simp [ticked]

theorem mem_ticked {v : ℤ} {set : List Danmaku} {d : Danmaku} :
    d ∈ ticked v set ↔ (∃ i ∈ set, i.advance v = d) ∧ 0 < d.right := by
  simp [ticked]

theorem updateFrom_eq (v : ℤ) (done rest : List Danmaku) :
    updateFrom v (done ++ rest) done.length = done ++ ticked v rest := by
  -- the elements before the iterator are settled, an erase pulls the next one under it
  induction rest generalizing done with
  | nil => rw [updateFrom]; simp
  | cons d rest ih =>
    rw [updateFrom, dif_pos (by simp)]
    have hset : (done ++ d :: rest).set done.length (d.advance v) =
        done ++ d.advance v :: rest := by simp
    simp only [List.getElem_append_right (Nat.le_refl _), Nat.sub_self, List.getElem_cons_zero,
      hset, ticked_cons]
    by_cases h : 0 < (d.advance v).right
    · rw [if_neg (not_le.mpr h), if_pos h]
      simpa using ih (done ++ [d.advance v])
    · have herase : erase (done ++ d.advance v :: rest) done.length = done ++ rest := by
        rw [erase_eq_eraseIdx, List.eraseIdx_append_of_length_le (Nat.le_refl _)]
        simp
      rw [if_pos (not_lt.mp h), if_neg h, herase, ih]

theorem updateDanmaku_eq (v : ℤ) (set : List Danmaku) : updateDanmaku v set = ticked v set :=
  updateFrom_eq v [] set

end DanmakuChicken.Overlay
