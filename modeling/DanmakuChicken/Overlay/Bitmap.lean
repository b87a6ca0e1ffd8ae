import DanmakuChicken.Overlay.Manager

namespace DanmakuChicken.Overlay

/-- A member function of `CImage` and the image as it was when it was called, save that `create`
comes with what it left.  `destroy` stands for the destructor too. -/
inductive ImageOp
  | create (img : CImage)
  | getDC (img : CImage)
  | releaseDC (img : CImage)
  | destroy (img : CImage)
  | detach (img : CImage)
  | attach (img : CImage) (hBitmap : Option ℕ)
  | alphaBlend (img : CImage)
  deriving DecidableEq

namespace ImageOp

def created : ImageOp → Option ℕ
  | create img => img.hBitmap
  | _ => none

def deleted : ImageOp → Option ℕ
  | destroy img => img.hBitmap
  | _ => none

def Attached : ImageOp → Prop
  | getDC img | detach img | alphaBlend img => img.hBitmap.isSome
  | attach _ hBitmap => hBitmap.isSome
  | _ => True

def Vacant : ImageOp → Prop
  | attach img _ => img.hBitmap = none
  | _ => True

instance (op : ImageOp) : Decidable op.Attached := by
  cases op <;> unfold Attached <;> infer_instance

instance (op : ImageOp) : Decidable op.Vacant := by cases op <;> unfold Vacant <;> infer_instance

end ImageOp

open ImageOp

namespace Danmaku

def constructOps (drawn : Drawing) : List ImageOp :=
  [create drawn.img, getDC drawn.img, releaseDC drawn.img]

def destructOps (d : Danmaku) : List ImageOp := [destroy d.img]

def moveAssignOps (this other : Danmaku) : List ImageOp :=
  let destroyed := this.img.destroy
  let (hBitmap, _) := other.img.detach
  [destroy this.img, detach other.img, attach destroyed hBitmap]

def moveConstructOps (other : Danmaku) : List ImageOp := (default : Danmaku).moveAssignOps other

def emptied (other : Danmaku) : Danmaku := ((default : Danmaku).moveAssign other).2

end Danmaku

open Danmaku

/-- A reallocation: the elements are moved to the new storage and the old ones destroyed. -/
def reallocateOps (set : List Danmaku) : List ImageOp :=
  set.flatMap moveConstructOps ++ (set.map emptied).flatMap destructOps

def pushBackOps (reallocates : Bool) (set : List Danmaku) (danmaku : Danmaku) : List ImageOp :=
  danmaku.moveConstructOps ++ if reallocates then reallocateOps set else []

def shiftDownOps (hole : Danmaku) : List Danmaku → List ImageOp
  | [] => hole.destructOps
  | next :: rest => hole.moveAssignOps next ++ shiftDownOps (hole.moveAssign next).2 rest

def eraseOps (set : List Danmaku) (it : ℕ) : List ImageOp :=
  match set.drop it with
  | [] => []
  | hole :: rest => shiftDownOps hole rest

def updateFromOps (speed : ℤ) (set : List Danmaku) (it : ℕ) : List ImageOp :=
  if _end : it < set.length then
    let danmaku := set[it].advance speed
    let set := set.set it danmaku
    if danmaku.right ≤ 0 then eraseOps set it ++ updateFromOps speed (erase set it) it
    else updateFromOps speed set (it + 1)
  else []
termination_by set.length - it
decreasing_by
  · simp only [erase_eq_eraseIdx, List.length_eraseIdx, List.length_set]
    split <;> omega
  · simp only [List.length_set]
    omega

/-- The operations with all that the libraries may do differently: what GDI+ draws, and whether
`push_back` reallocates. -/
inductive Turn
  | addDanmaku (content : CString) (drawn : Drawing) (reallocates : Bool)
  | updateDanmaku
  | renderDanmakuSet
  | onHScroll (slider : Slider) (nPos : ℕ)
  deriving DecidableEq

namespace DanmakuManager

def turn (m : DanmakuManager) : Turn → DanmakuManager
  | .addDanmaku content drawn _ => m.addDrawn content drawn
  | .updateDanmaku => m.updateDanmaku
  | .renderDanmakuSet => m
  | .onHScroll slider nPos => m.onHScroll slider nPos

def turnOps (m : DanmakuManager) : Turn → List ImageOp
  | .addDanmaku content drawn reallocates =>
    let danmaku := m.placed content drawn
    constructOps drawn ++ pushBackOps reallocates m.danmakuSet danmaku ++ danmaku.emptied.destructOps
  | .updateDanmaku => updateFromOps m.danmakuSpeed m.danmakuSet 0
  | .renderDanmakuSet => m.danmakuSet.map fun d => alphaBlend d.img
  | .onHScroll _ _ => []

def turns (m : DanmakuManager) (ts : List Turn) : DanmakuManager := ts.foldl turn m

def turnsOps (m : DanmakuManager) : List Turn → List ImageOp
  | [] => []
  | t :: ts => m.turnOps t ++ (m.turn t).turnsOps ts

end DanmakuManager

def Turn.op : Turn → Option Op
  | addDanmaku content drawn _ => some (.addDanmaku content drawn)
  | updateDanmaku => some .updateDanmaku
  | renderDanmakuSet => none
  | onHScroll slider nPos => some (.onHScroll slider nPos)

theorem turns_eq_run (m : DanmakuManager) (ts : List Turn) :
    m.turns ts = m.run (ts.filterMap Turn.op) := by
  induction ts generalizing m with
  | nil => rfl
  | cons t ts ih =>
    cases t with
    | renderDanmakuSet => exact ih m
    | addDanmaku | updateDanmaku | onHScroll => exact ih _

theorem updateFromOps_cons (v : ℤ) (done : List Danmaku) (d : Danmaku) (rest : List Danmaku) :
    updateFromOps v (done ++ d :: rest) done.length =
      if 0 < (d.advance v).right then
        updateFromOps v ((done ++ [d.advance v]) ++ rest) (done ++ [d.advance v]).length
      else shiftDownOps (d.advance v) rest ++ updateFromOps v (done ++ rest) done.length := by
  have hset : (done ++ d :: rest).set done.length (d.advance v) = done ++ d.advance v :: rest := by
    simp
  rw [updateFromOps, dif_pos (by simp)]
  simp only [List.getElem_append_right (Nat.le_refl _), Nat.sub_self, List.getElem_cons_zero, hset]
  by_cases h : 0 < (d.advance v).right
  · rw [if_neg (not_le.mpr h), if_pos h]
    simp
  · have herase : erase (done ++ d.advance v :: rest) done.length = done ++ rest := by
      rw [erase_eq_eraseIdx, List.eraseIdx_append_of_length_le (Nat.le_refl _)]
      simp
    have hops : eraseOps (done ++ d.advance v :: rest) done.length =
        shiftDownOps (d.advance v) rest := by
      rw [eraseOps, List.drop_left]
    rw [if_pos (not_lt.mp h), if_neg h, herase, hops]

theorem updateFromOps_end (v : ℤ) (done : List Danmaku) :
    updateFromOps v done done.length = [] := by rw [updateFromOps, dif_neg (lt_irrefl _)]

section ForallMem

variable {P : ImageOp → Prop} {set : List Danmaku}
  (hmove : ∀ this, ∀ other ∈ set, ∀ op ∈ moveAssignOps this other, P op)
  (hdestruct : ∀ d, ∀ op ∈ destructOps d, P op)

include hmove hdestruct

theorem forall_mem_reallocateOps : ∀ op ∈ reallocateOps set, P op := by
  intro op hop
  rw [reallocateOps, List.mem_append, List.mem_flatMap, List.mem_flatMap] at hop
  rcases hop with ⟨d, hd, hop⟩ | ⟨d, -, hop⟩
  · exact hmove default d hd op hop
  · exact hdestruct d op hop

theorem forall_mem_shiftDownOps (hole : Danmaku) : ∀ op ∈ shiftDownOps hole set, P op := by
  induction set generalizing hole with
  | nil => exact hdestruct hole
  | cons next rest ih =>
    intro op hop
    rcases List.mem_append.mp hop with hop | hop
    · exact hmove hole next (by simp) op hop
    · exact ih (fun this other hother => hmove this other (by simp [hother])) _ op hop

theorem forall_mem_updateFromOps (v : ℤ) (done : List Danmaku) :
    ∀ op ∈ updateFromOps v (done ++ set) done.length, P op := by
  induction set generalizing done with
  | nil => simp [updateFromOps_end]
  | cons d rest ih =>
    have hrest : ∀ this, ∀ other ∈ rest, ∀ op ∈ moveAssignOps this other, P op :=
      fun this other hother => hmove this other (by simp [hother])
    rw [updateFromOps_cons]
    split_ifs with h
    · exact ih hrest _
    · intro op hop
      rcases List.mem_append.mp hop with hop | hop
      · exact forall_mem_shiftDownOps hrest hdestruct _ op hop
      · exact ih hrest done op hop

end ForallMem

theorem forall_mem_turnOps {P : ImageOp → Prop} {m : DanmakuManager} {t : Turn}
    (hconstruct : ∀ content drawn reallocates, t = .addDanmaku content drawn reallocates →
      ∀ op ∈ constructOps drawn, P op)
    (hmove : ∀ this other, other ∈ m.danmakuSet ∨ other ∈ (m.turn t).danmakuSet →
      ∀ op ∈ moveAssignOps this other, P op)
    (hdestruct : ∀ d, ∀ op ∈ destructOps d, P op)
    (hrender : ∀ d ∈ m.danmakuSet, P (alphaBlend d.img)) : ∀ op ∈ m.turnOps t, P op := by
  intro op hop
  cases t with
  | addDanmaku content drawn reallocates =>
    simp only [DanmakuManager.turnOps, pushBackOps, List.mem_append] at hop
    rcases hop with (hop | hop | hop) | hop
    · exact hconstruct content drawn reallocates rfl op hop
    · exact hmove default _ (.inr (by simp [DanmakuManager.turn])) op hop
    · split_ifs at hop
      · exact forall_mem_reallocateOps (fun this other h => hmove this other (.inl h)) hdestruct op hop
      · cases hop
    · exact hdestruct _ op hop
  | updateDanmaku =>
    exact forall_mem_updateFromOps (fun this other h => hmove this other (.inl h)) hdestruct _ []
      op hop
  | renderDanmakuSet =>
    obtain ⟨d, hd, rfl⟩ := List.mem_map.mp hop
    exact hrender d hd
  | onHScroll slider nPos => cases hop

def AllAttached (set : List Danmaku) : Prop := ∀ d ∈ set, d.img.hBitmap.isSome

theorem allAttached_nil : AllAttached [] := fun _ hd => absurd hd List.not_mem_nil

def Turn.Creates : Turn → Prop
  | addDanmaku _ drawn _ => drawn.img.hBitmap.isSome
  | _ => True

theorem placed_img (m : DanmakuManager) (content : CString) (drawn : Drawing) :
    (m.placed content drawn).img = drawn.img := by
  rw [DanmakuManager.placed_eq]
  rfl

theorem AllAttached.turn {m : DanmakuManager} {t : Turn} (h : AllAttached m.danmakuSet)
    (ht : t.Creates) : AllAttached (m.turn t).danmakuSet := by
  intro d hd
  cases t with
  | addDanmaku content drawn reallocates =>
    rw [DanmakuManager.turn, DanmakuManager.addDrawn_set, List.mem_append,
      List.mem_singleton] at hd
    rcases hd with hd | rfl
    · exact h d hd
    · rw [placed_img]
      exact ht
  | updateDanmaku =>
    rw [DanmakuManager.turn, DanmakuManager.updateDanmaku_set] at hd
    obtain ⟨⟨i, hi, rfl⟩, -⟩ := mem_ticked.mp hd
    exact h i hi
  | renderDanmakuSet => exact h d hd
  | onHScroll slider nPos =>
    rw [DanmakuManager.turn, DanmakuManager.onHScroll_set] at hd
    exact h d hd

theorem AllAttached.turns {m : DanmakuManager} {ts : List Turn} (h : AllAttached m.danmakuSet)
    (hts : ∀ t ∈ ts, t.Creates) : AllAttached (m.turns ts).danmakuSet := by
  induction ts generalizing m with
  | nil => exact h
  | cons t ts ih => exact ih (h.turn (hts t (by simp))) fun u hu => hts u (by simp [hu])

theorem vacant_of_mem_turnsOps (m : DanmakuManager) (ts : List Turn) :
    ∀ op ∈ m.turnsOps ts, op.Vacant := by
  induction ts generalizing m with
  | nil => exact nofun
  | cons t ts ih =>
    intro op hop
    rcases List.mem_append.mp hop with hop | hop
    · refine forall_mem_turnOps (P := Vacant) ?_ ?_ ?_ ?_ op hop
      · simp [constructOps, Vacant]
      · simp [moveAssignOps, Vacant, CImage.destroy]
      · simp [destructOps, Vacant]
      · simp [Vacant]
    · exact ih (m.turn t) op hop

end DanmakuChicken.Overlay
