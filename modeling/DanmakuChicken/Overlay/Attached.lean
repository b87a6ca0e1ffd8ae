import DanmakuChicken.Overlay.Bitmap

namespace DanmakuChicken.Overlay

open Danmaku ImageOp

/-- `Create`, for what the allocation of a bitmap would yield. -/
def CImage.create (width height : ℕ) (allocated : Option ℕ) : CImage :=
  if width = 0 ∨ height = 0 then ⟨none⟩ else ⟨allocated⟩

/-- An operation with what the libraries answer it: the bounds of the path, the allocation of the
bitmap and whether `push_back` reallocates. -/
inductive Input
  | addDanmaku (content : CString) (width height : ℕ) (allocated : Option ℕ) (reallocates : Bool)
  | updateDanmaku
  | renderDanmakuSet
  | onHScroll (slider : Slider) (nPos : ℕ)
  deriving DecidableEq

namespace Input

def turn : Input → Turn
  | addDanmaku content width height allocated reallocates =>
    .addDanmaku content ⟨width, height, .create width height allocated⟩ reallocates
  | updateDanmaku => .updateDanmaku
  | renderDanmakuSet => .renderDanmakuSet
  | onHScroll slider nPos => .onHScroll slider nPos

def Draws : Input → Prop
  | addDanmaku _ width height allocated _ => 0 < width ∧ 0 < height ∧ allocated.isSome
  | _ => True

theorem creates_turn_iff (i : Input) : i.turn.Creates ↔ i.Draws := by
  cases i with
  | addDanmaku content width height allocated reallocates =>
    simp only [turn, Turn.Creates, Draws, CImage.create]
    split_ifs with h
    · simp only [Option.isSome_none, Bool.false_eq_true, false_iff]
      omega
    · have hpos : 0 < width ∧ 0 < height := by omega
      simp [hpos]
  | updateDanmaku | renderDanmakuSet | onHScroll => exact Iff.rfl

end Input

theorem attached_of_mem_turnOps {m : DanmakuManager} {t : Turn} (h : AllAttached m.danmakuSet)
    (ht : t.Creates) : ∀ op ∈ m.turnOps t, op.Attached := by
  refine forall_mem_turnOps (P := Attached) ?_ ?_ ?_ ?_
  · rintro content drawn reallocates rfl
    have hsome : drawn.img.hBitmap.isSome := ht
    simpa [constructOps, Attached] using hsome
  · intro this other hother
    have hsome : other.img.hBitmap.isSome := by
      rcases hother with hother | hother
      · exact h other hother
      · exact h.turn ht other hother
    simpa [moveAssignOps, Attached, CImage.detach] using hsome
  · simp [destructOps, Attached]
  · exact h

theorem creates_of_attached {m : DanmakuManager} {t : Turn}
    (h : ∀ op ∈ m.turnOps t, op.Attached) : t.Creates := by
  cases t with
  | addDanmaku content drawn reallocates =>
    exact h (getDC drawn.img) (by simp [DanmakuManager.turnOps, constructOps])
  | updateDanmaku | renderDanmakuSet | onHScroll => trivial

theorem attached_turnsOps_iff {m : DanmakuManager} (h : AllAttached m.danmakuSet)
    (ts : List Turn) : (∀ op ∈ m.turnsOps ts, op.Attached) ↔ ∀ t ∈ ts, t.Creates := by
  induction ts generalizing m with
  | nil => exact ⟨fun _ => nofun, fun _ => nofun⟩
  | cons t ts ih =>
    rw [DanmakuManager.turnsOps, List.forall_mem_append, List.forall_mem_cons]
    constructor
    · rintro ⟨hfirst, hrest⟩
      have ht := creates_of_attached hfirst
      exact ⟨ht, (ih (h.turn ht)).mp hrest⟩
    · rintro ⟨ht, hts⟩
      exact ⟨attached_of_mem_turnOps h ht, (ih (h.turn ht)).mpr hts⟩

theorem attached_iff_draws (m : DanmakuManager) (inputs : List Input) :
    (∀ op ∈ { m with danmakuSet := [] }.turnsOps (inputs.map Input.turn), op.Attached) ↔
      ∀ i ∈ inputs, i.Draws := by
  rw [attached_turnsOps_iff allAttached_nil, List.forall_mem_map]
  exact forall₂_congr fun i _ => i.creates_turn_iff

def emptyContent : List Input := [.addDanmaku [] 0 0 (some 1) false, .renderDanmakuSet]

theorem turnsOps_emptyContent :
    ({} : DanmakuManager).turnsOps (emptyContent.map Input.turn) =
      [create ⟨none⟩, getDC ⟨none⟩, releaseDC ⟨none⟩, destroy ⟨none⟩, detach ⟨none⟩,
        attach ⟨none⟩ none, destroy ⟨none⟩, alphaBlend ⟨none⟩] := by
  have himg : (DanmakuManager.placed {} [] ⟨0, 0, ⟨none⟩⟩).img = ⟨none⟩ := placed_img _ _ _
  have hdefault : (default : Danmaku).img = ⟨none⟩ := rfl
  simp [emptyContent, Input.turn, CImage.create, DanmakuManager.turnsOps, DanmakuManager.turnOps,
    DanmakuManager.turn, constructOps, pushBackOps, moveConstructOps, moveAssignOps, destructOps,
    emptied, moveAssign, CImage.destroy, CImage.detach, himg, hdefault]

theorem not_attached_emptyContent :
    ¬∀ op ∈ ({} : DanmakuManager).turnsOps (emptyContent.map Input.turn), op.Attached := by
  rw [turnsOps_emptyContent]
  decide

end DanmakuChicken.Overlay
