import DanmakuChicken.Overlay.History

namespace DanmakuChicken.Overlay

open Danmaku

/-- A speed of the slider's range, and a danmaku of at most this width. -/
def Op.Within (width : ℕ) : Op → Prop
  | .addDanmaku _ drawn => drawn.width ≤ width
  | .onHScroll .danmakuSpeed nPos => 1 ≤ nPos
  | .onHScroll .danmakuSize _ | .updateDanmaku => True

def Op.isTick : Op → Bool
  | .updateDanmaku => true
  | _ => false

def Op.isAdd : Op → Bool
  | .addDanmaku _ _ => true
  | _ => false

theorem countP_isTick_le {width : ℕ} {v : ℤ} (hv : 1 ≤ v) {ops : List Op}
    (h : ∀ op ∈ ops, op.Within width) : (ops.countP Op.isTick : ℤ) ≤ distance v ops := by
  induction ops generalizing v with
  | nil => simp [distance]
  | cons op ops ih =>
    obtain ⟨hop, hops⟩ := List.forall_mem_cons.mp h
    cases op with
    | addDanmaku content drawn => simpa [distance, Op.isTick] using ih hv hops
    | updateDanmaku =>
      have hrest := ih hv hops
      rw [List.countP_cons_of_pos rfl, distance]
      push_cast
      omega
    | onHScroll slider nPos =>
      cases slider with
      | danmakuSize => simpa [distance, Op.isTick] using ih hv hops
      | danmakuSpeed =>
        have hnPos : 1 ≤ nPos := hop
        simpa [distance, Op.isTick] using ih (Int.ofNat_le.mpr hnPos) hops

theorem length_history (m : DanmakuManager) (ops : List Op) :
    (history m ops).length = ops.countP Op.isAdd := by
  induction ops generalizing m with
  | nil => rfl
  | cons op ops ih =>
    cases op with
    | addDanmaku content drawn =>
      rw [history, List.length_cons, ih, List.countP_cons_of_pos rfl]
    | updateDanmaku | onHScroll => simpa [history, Op.isAdd] using ih _

structure Log.Within (width : ℕ) (log : Log) : Prop where
  travelled : ∀ e ∈ log.entries, 0 ≤ e.travelled ∧ e.pushed.size.width ≤ width
  speed : 1 ≤ log.speed

theorem Log.Within.apply {width : ℕ} {log : Log} (h : log.Within width) {m : DanmakuManager}
    (hm : Refines m log) {op : Op} (hop : op.Within width) : (log.apply op).Within width := by
  have hspeed := h.speed
  cases op with
  | addDanmaku content drawn =>
    refine ⟨fun e he => ?_, hspeed⟩
    obtain he | he := List.mem_append.mp he
    · exact h.travelled e he
    · obtain rfl := List.mem_singleton.mp he
      have hsize : (log.placed content drawn).size = ⟨drawn.width, drawn.height⟩ := by
        rw [← hm.placed_eq, DanmakuManager.placed_size]
      refine ⟨le_rfl, ?_⟩
      have hwidth : drawn.width ≤ width := hop
      rw [hsize]
      exact Int.ofNat_le.mpr hwidth
  | updateDanmaku =>
    refine ⟨fun e he => ?_, hspeed⟩
    obtain ⟨e', he', rfl⟩ := List.mem_map.mp he
    obtain ⟨htravelled, hwidth⟩ := h.travelled e' he'
    exact ⟨by simp only [Entry.travel]; omega, hwidth⟩
  | onHScroll slider nPos =>
    cases slider with
    | danmakuSize => exact ⟨h.travelled, hspeed⟩
    | danmakuSpeed =>
      have hnPos : 1 ≤ nPos := hop
      exact ⟨h.travelled, Int.ofNat_le.mpr hnPos⟩

theorem Log.Within.run {width : ℕ} {log : Log} (h : log.Within width) {m : DanmakuManager}
    (hm : Refines m log) {ops : List Op} (hops : ∀ op ∈ ops, op.Within width) :
    (log.run ops).Within width := by
  induction ops generalizing m log with
  | nil => exact h
  | cons op ops ih =>
    obtain ⟨hop, hops⟩ := List.forall_mem_cons.mp hops
    exact ih (h.apply hm hop) (hm.apply op) hops

theorem danmakuSet_eq_recent {box : Size} (hbox : 0 < box.width) {width : ℕ}
    {before after : List Op} (hops : ∀ op ∈ before ++ after, op.Within width)
    (hticks : box.width + width ≤ after.countP Op.isTick) :
    (DanmakuManager.run { danmakuBoxSize := box } (before ++ after)).danmakuSet =
        view box (history (DanmakuManager.run { danmakuBoxSize := box } before) after) ∧
      (DanmakuManager.run { danmakuBoxSize := box } (before ++ after)).danmakuSet.length ≤
        after.countP Op.isAdd := by
  obtain ⟨hbefore, hafter⟩ := List.forall_mem_append.mp hops
  have hm := (refines_empty hbox).run before
  have hwithin : (Log.run { boxSize := box } before).Within width :=
    Log.Within.run ⟨by simp, by simp⟩ (refines_empty hbox) hbefore
  -- what was there has moved at least by 1 in each tick
  have hgone : view box ((Log.run { boxSize := box } before).entries.map
      (Entry.travel (distance (Log.run { boxSize := box } before).speed after))) = [] := by
    have hdistance := countP_isTick_le hwithin.speed hafter
    rw [view, List.map_eq_nil_iff, List.filter_eq_nil_iff]
    intro e he
    obtain ⟨e', he', rfl⟩ := List.mem_map.mp he
    obtain ⟨htravelled, hwidth⟩ := hwithin.travelled e' he'
    rw [decide_eq_true_eq]
    simp only [Entry.Visible, Entry.travel]
    omega
  have hset : (DanmakuManager.run { danmakuBoxSize := box } (before ++ after)).danmakuSet =
      view box (history (DanmakuManager.run { danmakuBoxSize := box } before) after) := by
    have hrun : DanmakuManager.run { danmakuBoxSize := box } (before ++ after) =
        (DanmakuManager.run { danmakuBoxSize := box } before).run after := List.foldl_append
    have hbox' : ((Log.run { boxSize := box } before).run after).boxSize = box := by
      rw [← (hm.run after).boxSize, DanmakuManager.run_box, DanmakuManager.run_box]
    rw [hrun, (hm.run after).set, hbox', entries_run hm, view_append, hgone, List.nil_append]
  refine ⟨hset, ?_⟩
  rw [hset, view, List.length_map, ← length_history]
  exact List.length_filter_le _ _

def cleared : List Op :=
  List.replicate 6 .updateDanmaku ++
    [.onHScroll .danmakuSpeed 1, .addDanmaku [2] ⟨4, 20, ⟨some 2⟩⟩] ++
    List.replicate 8 .updateDanmaku

theorem danmakuSet_eq_recent_cleared :
    (DanmakuManager.run { danmakuBoxSize := ⟨10, 50⟩ }
        ([.addDanmaku [1] ⟨3, 20, ⟨some 1⟩⟩] ++ cleared)).danmakuSet =
        view ⟨10, 50⟩ (history (DanmakuManager.run { danmakuBoxSize := ⟨10, 50⟩ }
          [.addDanmaku [1] ⟨3, 20, ⟨some 1⟩⟩]) cleared) ∧
      (DanmakuManager.run { danmakuBoxSize := ⟨10, 50⟩ }
        ([.addDanmaku [1] ⟨3, 20, ⟨some 1⟩⟩] ++ cleared)).danmakuSet.length ≤
        cleared.countP Op.isAdd := by
  have hops : ∀ op ∈ [.addDanmaku [1] ⟨3, 20, ⟨some 1⟩⟩] ++ cleared, op.Within 4 := by
    simp [cleared, Op.Within]
  exact danmakuSet_eq_recent (by decide) hops (by decide)

end DanmakuChicken.Overlay
