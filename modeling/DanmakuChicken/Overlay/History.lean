import DanmakuChicken.Overlay.Manager

namespace DanmakuChicken.Overlay

open Danmaku

structure Entry where
  pushed : Danmaku
  travelled : ℤ
  deriving DecidableEq

namespace Entry

def travel (v : ℤ) (e : Entry) : Entry := { e with travelled := e.travelled + v }

def Visible (box : Size) (e : Entry) : Prop := 0 < box.width - e.travelled + e.pushed.size.width

instance (box : Size) (e : Entry) : Decidable (e.Visible box) := by
  unfold Visible; infer_instance

def shown (box : Size) (e : Entry) : Danmaku := e.pushed.setX (box.width - e.travelled)

@[simp] theorem travel_zero : travel 0 = id := by
  funext e
  simp [travel]

theorem travel_travel (v u : ℤ) (e : Entry) : (e.travel v).travel u = e.travel (v + u) := by
  simp only [travel, add_assoc]

theorem Visible.of_travel {box : Size} {v : ℤ} {e : Entry} (hv : 0 ≤ v)
    (h : (e.travel v).Visible box) : e.Visible box := by
  simp only [Visible, travel] at *
  omega

theorem shown_travel (box : Size) (v : ℤ) (e : Entry) :
    (e.travel v).shown box = (e.shown box).advance v := by
  simp only [shown, travel, advance, setX_x, setX_setX, sub_add_eq_sub_sub]

theorem visible_iff_right (box : Size) (e : Entry) : e.Visible box ↔ 0 < (e.shown box).right :=
  Iff.rfl

end Entry

def view (box : Size) (entries : List Entry) : List Danmaku :=
  (entries.filter (·.Visible box)).map (·.shown box)

@[simp] theorem view_nil (box : Size) : view box [] = [] := rfl

theorem view_cons (box : Size) (e : Entry) (entries : List Entry) :
    view box (e :: entries) =
      if e.Visible box then e.shown box :: view box entries else view box entries := by
  by_cases h : e.Visible box <;> simp [view, h]

@[simp] theorem view_append (box : Size) (es fs : List Entry) :
    view box (es ++ fs) = view box es ++ view box fs := by simp [view]

theorem ticked_view (box : Size) {v : ℤ} (hv : 0 ≤ v) (entries : List Entry) :
    ticked v (view box entries) = view box (entries.map (Entry.travel v)) := by
  induction entries with
  | nil => rfl
  | cons e entries ih =>
    rw [List.map_cons, view_cons, view_cons, Entry.shown_travel]
    by_cases hout : (e.travel v).Visible box
    · have hlive : 0 < ((e.shown box).advance v).right := by
        rw [← Entry.shown_travel, ← Entry.visible_iff_right]
        exact hout
      rw [if_pos hout, if_pos (hout.of_travel hv), ticked_cons, if_pos hlive, ih]
    · have hdead : ¬0 < ((e.shown box).advance v).right := by
        rw [← Entry.shown_travel, ← Entry.visible_iff_right]
        exact hout
      rw [if_neg hout]
      by_cases hin : e.Visible box
      · rw [if_pos hin, ticked_cons, if_neg hdead, ih]
      · rw [if_neg hin, ih]

/-- The abstract store: it keeps every danmaku ever added. -/
structure Log where
  entries : List Entry := []
  boxSize : Size
  speed : ℤ := 4

namespace Log

def placed (log : Log) (content : CString) (drawn : Drawing) : Danmaku :=
  findRow log.boxSize (view log.boxSize log.entries) ((construct content drawn).enter log.boxSize)

def apply (log : Log) : Op → Log
  | .addDanmaku content drawn =>
    { log with entries := log.entries ++ [⟨log.placed content drawn, 0⟩] }
  | .updateDanmaku => { log with entries := log.entries.map (Entry.travel log.speed) }
  | .onHScroll .danmakuSpeed nPos => { log with speed := nPos }
  | .onHScroll .danmakuSize _ => log

def run (log : Log) (ops : List Op) : Log := ops.foldl apply log

end Log

structure Refines (m : DanmakuManager) (log : Log) : Prop where
  set : m.danmakuSet = view log.boxSize log.entries
  boxSize : m.danmakuBoxSize = log.boxSize
  speed : m.danmakuSpeed = log.speed
  forward : 0 ≤ log.speed
  wide : 0 < log.boxSize.width

theorem Refines.placed_eq {m : DanmakuManager} {log : Log} (h : Refines m log)
    (content : CString) (drawn : Drawing) : m.placed content drawn = log.placed content drawn := by
  rw [DanmakuManager.placed, Log.placed, h.set, h.boxSize]

theorem Refines.apply {m : DanmakuManager} {log : Log} (h : Refines m log) (op : Op) :
    Refines (m.apply op) (log.apply op) := by
  cases op with
  | addDanmaku content drawn =>
    refine ⟨?_, h.boxSize, h.speed, h.forward, h.wide⟩
    have hvisible : Entry.Visible log.boxSize ⟨log.placed content drawn, 0⟩ := by
      have hsize : (log.placed content drawn).size = ⟨drawn.width, drawn.height⟩ := by
        rw [← h.placed_eq, DanmakuManager.placed_size]
      have hwide := h.wide
      simp only [Entry.Visible, hsize]
      omega
    have hshown : Entry.shown log.boxSize ⟨log.placed content drawn, 0⟩ =
        log.placed content drawn := by
      have hx : (log.placed content drawn).pos.x = log.boxSize.width := by
        rw [← h.placed_eq, DanmakuManager.placed_x, h.boxSize]
      simp only [Entry.shown, sub_zero, ← hx, setX_self]
    simp only [DanmakuManager.apply, DanmakuManager.addDrawn_set, Log.apply, view_append, h.set,
      h.placed_eq, view_cons, hvisible, hshown, if_true, view_nil]
  | updateDanmaku =>
    refine ⟨?_, h.boxSize, h.speed, h.forward, h.wide⟩
    simp only [DanmakuManager.apply, DanmakuManager.updateDanmaku_set, Log.apply, h.set, h.speed]
    exact ticked_view _ h.forward _
  | onHScroll slider nPos =>
    cases slider with
    | danmakuSize => exact ⟨h.set, h.boxSize, h.speed, h.forward, h.wide⟩
    | danmakuSpeed => exact ⟨h.set, h.boxSize, rfl, Int.natCast_nonneg nPos, h.wide⟩

theorem Refines.run {m : DanmakuManager} {log : Log} (h : Refines m log) (ops : List Op) :
    Refines (m.run ops) (log.run ops) := by
  induction ops generalizing m log with
  | nil => exact h
  | cons op ops ih => exact ih (h.apply op)

def distance (v : ℤ) : List Op → ℤ
  | [] => 0
  | .updateDanmaku :: ops => v + distance v ops
  | .onHScroll .danmakuSpeed nPos :: ops => distance nPos ops
  | .onHScroll .danmakuSize _ :: ops => distance v ops
  | .addDanmaku _ _ :: ops => distance v ops

def history (m : DanmakuManager) : List Op → List Entry
  | [] => []
  | .addDanmaku content drawn :: ops =>
    ⟨m.placed content drawn, distance m.danmakuSpeed ops⟩ ::
      history (m.apply (.addDanmaku content drawn)) ops
  | op :: ops => history (m.apply op) ops

theorem entries_run {m : DanmakuManager} {log : Log} (h : Refines m log) (ops : List Op) :
    (log.run ops).entries =
      log.entries.map (Entry.travel (distance log.speed ops)) ++ history m ops := by
  induction ops generalizing m log with
  | nil => simp [Log.run, distance, history]
  | cons op ops ih =>
    have hrun : log.run (op :: ops) = (log.apply op).run ops := rfl
    rw [hrun, ih (h.apply op)]
    cases op with
    | addDanmaku content drawn =>
      simp [Log.apply, distance, history, Entry.travel, h.placed_eq, h.speed]
    | updateDanmaku =>
      simp only [Log.apply, distance, history, List.map_map]
      congr 2
      funext e
      exact Entry.travel_travel _ _ e
    | onHScroll slider nPos => cases slider <;> rfl

theorem refines_empty {box : Size} (hbox : 0 < box.width) :
    Refines { danmakuBoxSize := box } { boxSize := box } :=
  ⟨rfl, rfl, rfl, by simp, hbox⟩

theorem danmakuSet_eq_history {box : Size} (hbox : 0 < box.width) (ops : List Op) :
    (DanmakuManager.run { danmakuBoxSize := box } ops).danmakuSet =
      ((history { danmakuBoxSize := box } ops).filter fun e =>
          0 < box.width - e.travelled + e.pushed.size.width).map fun e =>
        { e.pushed with pos := ⟨box.width - e.travelled, e.pushed.pos.y⟩ } := by
  have hset := ((refines_empty hbox).run ops).set
  rw [entries_run (refines_empty hbox)] at hset
  have hlog : (Log.run { boxSize := box } ops).boxSize = box := by
    rw [← ((refines_empty hbox).run ops).boxSize, DanmakuManager.run_box]
  simp only [hlog, List.map_nil, List.nil_append] at hset
  exact hset

theorem danmakuSet_eq_history_of_leaving :
    (DanmakuManager.run { danmakuBoxSize := ⟨10, 50⟩ }
      [.addDanmaku [1] ⟨3, 20, ⟨some 1⟩⟩, .updateDanmaku, .onHScroll .danmakuSpeed 9,
        .addDanmaku [2] ⟨3, 20, ⟨some 2⟩⟩, .updateDanmaku]).danmakuSet =
      [⟨[2], ⟨1, 0⟩, ⟨3, 20⟩, ⟨some 2⟩⟩] := by
  rw [danmakuSet_eq_history (by decide)]
  simp [history, distance, DanmakuManager.apply, DanmakuManager.onHScroll, DanmakuManager.placed,
    DanmakuManager.updateDanmaku, updateDanmaku_eq, ticked, findRow, scan, construct, enter,
    Collides, right, bottom, advance, setX]

end DanmakuChicken.Overlay
