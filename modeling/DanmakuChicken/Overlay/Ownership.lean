import DanmakuChicken.Lib.Ledger
import DanmakuChicken.Overlay.Bitmap

namespace DanmakuChicken.Overlay

open Danmaku ImageOp

def handles (set : List Danmaku) : List ℕ := set.filterMap fun d => d.img.hBitmap

def createdIn (ops : List ImageOp) : List ℕ := ops.filterMap created

def deletedIn (ops : List ImageOp) : List ℕ := ops.filterMap deleted

def Turn.hBitmap : Turn → Option ℕ
  | .addDanmaku _ drawn _ => drawn.img.hBitmap
  | _ => none

/-- Every `Create` succeeds, with a handle that no other one yields. -/
structure CreatesFresh (ts : List Turn) : Prop where
  succeeds : ∀ t ∈ ts, t.Creates
  fresh : (ts.filterMap Turn.hBitmap).Nodup

/-- The handles not yet deleted are those of the elements, one each. -/
structure Linear (set : List Danmaku) (ops : List ImageOp) : Prop where
  held : AllAttached set
  once : (handles set).Nodup
  live : ∀ h, h ∈ handles set ↔ h ∈ createdIn ops ∧ h ∉ deletedIn ops
  deletedOnce : (deletedIn ops).Nodup
  vacant : ∀ op ∈ ops, op.Vacant

structure DeletesLeaving (m : DanmakuManager) (t : Turn) : Prop where
  leaving : ∀ h, h ∈ deletedIn (m.turnOps t) ↔
    h ∈ handles m.danmakuSet ∧ h ∉ handles (m.turn t).danmakuSet
  tick : deletedIn (m.turnOps t) ≠ [] → t = .updateDanmaku

section lists

variable (set more : List Danmaku) (ops ops' : List ImageOp)

@[simp] theorem handles_append : handles (set ++ more) = handles set ++ handles more := by
  simp [handles]

@[simp] theorem createdIn_append : createdIn (ops ++ ops') = createdIn ops ++ createdIn ops' := by
  simp [createdIn]

@[simp] theorem deletedIn_append : deletedIn (ops ++ ops') = deletedIn ops ++ deletedIn ops' := by
  simp [deletedIn]

theorem deletedIn_eq_nil_iff : deletedIn ops = [] ↔ ∀ op ∈ ops, op.deleted = none :=
  List.filterMap_eq_nil_iff

@[simp] theorem handles_map_advance (v : ℤ) : handles (set.map (advance v)) = handles set := by
  simp only [handles, List.filterMap_map]
  rfl

end lists

theorem deletedIn_reallocateOps (set : List Danmaku) : deletedIn (reallocateOps set) = [] := by
  rw [deletedIn_eq_nil_iff]
  intro op hop
  rw [reallocateOps, List.mem_append, List.mem_flatMap, List.mem_flatMap] at hop
  rcases hop with ⟨d, -, hop⟩ | ⟨d, hd, hop⟩
  · simp only [moveConstructOps, moveAssignOps, List.mem_cons, List.not_mem_nil, or_false] at hop
    rcases hop with rfl | rfl | rfl <;> rfl
  · obtain ⟨d', -, rfl⟩ := List.mem_map.mp hd
    rw [destructOps, List.mem_singleton] at hop
    subst hop
    rfl

theorem deletedIn_shiftDownOps (hole : Danmaku) (rest : List Danmaku) :
    deletedIn (shiftDownOps hole rest) = hole.img.hBitmap.toList := by
  induction rest generalizing hole with
  | nil =>
    rw [shiftDownOps]
    cases h : hole.img.hBitmap <;> simp [deletedIn, destructOps, deleted, h]
  | cons next rest ih =>
    have hempty : (hole.moveAssign next).2.img.hBitmap = none := rfl
    rw [shiftDownOps, deletedIn_append, ih, hempty]
    cases h : hole.img.hBitmap <;> simp [deletedIn, moveAssignOps, deleted, h]

def leavers (v : ℤ) (set : List Danmaku) : List Danmaku :=
  (set.map (advance v)).filter fun d => !decide (0 < d.right)

theorem handles_cons (d : Danmaku) (set : List Danmaku) :
    handles (d :: set) = d.img.hBitmap.toList ++ handles set := by
  cases h : d.img.hBitmap <;> simp [handles, h]

theorem deletedIn_updateFromOps (v : ℤ) (done rest : List Danmaku) :
    deletedIn (updateFromOps v (done ++ rest) done.length) = handles (leavers v rest) := by
  induction rest generalizing done with
  | nil =>
    rw [List.append_nil, updateFromOps_end]
    rfl
  | cons d rest ih =>
    rw [updateFromOps_cons, leavers, List.map_cons, List.filter_cons]
    by_cases h : 0 < (d.advance v).right
    · rw [if_pos h, ih, if_neg (by simpa using h)]
      rfl
    · rw [if_neg h, deletedIn_append, deletedIn_shiftDownOps, ih, if_pos (by simpa using h),
        handles_cons]
      rfl

theorem createdIn_eq_nil_iff {ops : List ImageOp} :
    createdIn ops = [] ↔ ∀ op ∈ ops, op.created = none := List.filterMap_eq_nil_iff

theorem created_of_mem_moveAssignOps (this other : Danmaku) :
    ∀ op ∈ moveAssignOps this other, op.created = none := by simp [moveAssignOps, created]

theorem created_of_mem_destructOps (d : Danmaku) : ∀ op ∈ destructOps d, op.created = none := by
  simp [destructOps, created]

theorem createdIn_updateFromOps (v : ℤ) (set : List Danmaku) :
    createdIn (updateFromOps v set 0) = [] := by
  rw [createdIn_eq_nil_iff]
  exact forall_mem_updateFromOps (P := fun op => op.created = none)
    (fun this other _ => created_of_mem_moveAssignOps this other) created_of_mem_destructOps v []

theorem createdIn_pushBackOps (reallocates : Bool) (set : List Danmaku) (d : Danmaku) :
    createdIn (pushBackOps reallocates set d) = [] := by
  rw [pushBackOps, moveConstructOps, createdIn_append,
    createdIn_eq_nil_iff.mpr (created_of_mem_moveAssignOps default d), List.nil_append]
  cases reallocates with
  | false => rfl
  | true =>
    rw [if_pos rfl, createdIn_eq_nil_iff]
    exact forall_mem_reallocateOps (P := fun op => op.created = none)
      (fun this other _ => created_of_mem_moveAssignOps this other) created_of_mem_destructOps

theorem deletedIn_pushBackOps (reallocates : Bool) (set : List Danmaku) (d : Danmaku) :
    deletedIn (pushBackOps reallocates set d) = [] := by
  cases reallocates with
  | false => rfl
  | true =>
    rw [pushBackOps, deletedIn_append, if_pos rfl, deletedIn_reallocateOps]
    rfl

theorem createdIn_constructOps (drawn : Drawing) :
    createdIn (constructOps drawn) = drawn.img.hBitmap.toList := by
  cases h : drawn.img.hBitmap <;> simp [createdIn, constructOps, created, h]

theorem createdIn_addDanmaku (m : DanmakuManager) (content : CString) (drawn : Drawing)
    (reallocates : Bool) :
    createdIn (m.turnOps (.addDanmaku content drawn reallocates)) = drawn.img.hBitmap.toList := by
  rw [DanmakuManager.turnOps, createdIn_append, createdIn_append, createdIn_constructOps,
    createdIn_pushBackOps, List.append_nil]
  exact List.append_nil _

theorem deletedIn_addDanmaku (m : DanmakuManager) (content : CString) (drawn : Drawing)
    (reallocates : Bool) : deletedIn (m.turnOps (.addDanmaku content drawn reallocates)) = [] := by
  rw [DanmakuManager.turnOps, deletedIn_append, deletedIn_append, deletedIn_pushBackOps]
  rfl

theorem deletedIn_updateDanmaku (m : DanmakuManager) :
    deletedIn (m.turnOps .updateDanmaku) = handles (leavers m.danmakuSpeed m.danmakuSet) :=
  deletedIn_updateFromOps m.danmakuSpeed [] m.danmakuSet

theorem ops_renderDanmakuSet (m : DanmakuManager) :
    createdIn (m.turnOps .renderDanmakuSet) = [] ∧ deletedIn (m.turnOps .renderDanmakuSet) = [] := by
  rw [createdIn_eq_nil_iff, deletedIn_eq_nil_iff]
  simp [DanmakuManager.turnOps, created, deleted]

theorem leaves_turn (m : DanmakuManager) (t : Turn) :
    Ledger.Leaves (handles m.danmakuSet) (createdIn (m.turnOps t)) (deletedIn (m.turnOps t))
      (handles (m.turn t).danmakuSet) := by
  cases t with
  | addDanmaku content drawn reallocates =>
    have hset : handles (m.turn (.addDanmaku content drawn reallocates)).danmakuSet =
        handles m.danmakuSet ++ drawn.img.hBitmap.toList := by
      rw [DanmakuManager.turn, DanmakuManager.addDrawn_set, handles_append, handles_cons,
        placed_img]
      exact congrArg _ (List.append_nil _)
    rw [Ledger.Leaves, hset, createdIn_addDanmaku, deletedIn_addDanmaku, List.append_nil]
  | updateDanmaku =>
    rw [Ledger.Leaves, deletedIn_updateDanmaku, DanmakuManager.turn,
      DanmakuManager.updateDanmaku_set, DanmakuManager.turnOps, createdIn_updateFromOps,
      List.append_nil, ticked, leavers, ← handles_append,
      ← handles_map_advance m.danmakuSet m.danmakuSpeed]
    exact (List.filter_append_perm (fun d : Danmaku => decide (0 < d.right)) _).filterMap _
  | renderDanmakuSet =>
    obtain ⟨hcreated, hdeleted⟩ := ops_renderDanmakuSet m
    rw [hcreated, hdeleted]
    exact Ledger.Leaves.refl _
  | onHScroll slider nPos =>
    rw [DanmakuManager.turn, DanmakuManager.onHScroll_set]
    exact Ledger.Leaves.refl _

theorem leaves_turns (m : DanmakuManager) (ts : List Turn) :
    Ledger.Leaves (handles m.danmakuSet) (createdIn (m.turnsOps ts)) (deletedIn (m.turnsOps ts))
      (handles (m.turns ts).danmakuSet) := by
  induction ts generalizing m with
  | nil => exact Ledger.Leaves.refl _
  | cons t ts ih =>
    rw [DanmakuManager.turnsOps, createdIn_append, deletedIn_append]
    exact (leaves_turn m t).trans (ih (m.turn t))

theorem createdIn_turnOps (m : DanmakuManager) (t : Turn) :
    createdIn (m.turnOps t) = t.hBitmap.toList := by
  cases t with
  | addDanmaku content drawn reallocates => exact createdIn_addDanmaku m content drawn reallocates
  | updateDanmaku => exact createdIn_updateFromOps _ _
  | renderDanmakuSet => exact (ops_renderDanmakuSet m).1
  | onHScroll slider nPos => rfl

theorem createdIn_turnsOps (m : DanmakuManager) (ts : List Turn) :
    createdIn (m.turnsOps ts) = ts.filterMap Turn.hBitmap := by
  induction ts generalizing m with
  | nil => rfl
  | cons t ts ih =>
    rw [DanmakuManager.turnsOps, createdIn_append, createdIn_turnOps, ih]
    cases h : t.hBitmap <;> simp [h]

theorem deletedIn_of_ne {t : Turn} (h : t ≠ .updateDanmaku) (m : DanmakuManager) :
    deletedIn (m.turnOps t) = [] := by
  cases t with
  | addDanmaku content drawn reallocates => exact deletedIn_addDanmaku m content drawn reallocates
  | updateDanmaku => exact absurd rfl h
  | renderDanmakuSet => exact (ops_renderDanmakuSet m).2
  | onHScroll slider nPos => rfl

theorem deletesLeaving {m : DanmakuManager} (hm : (handles m.danmakuSet).Nodup) (t : Turn) :
    DeletesLeaving m t := by
  have hleaves := leaves_turn m t
  by_cases ht : t = .updateDanmaku
  · subst ht
    rw [createdIn_turnOps] at hleaves
    refine ⟨fun h => ?_, fun _ => rfl⟩
    rw [hleaves.mem_deleted_iff (by simpa [Turn.hBitmap] using hm)]
    simp [Turn.hBitmap]
  · have hnil := deletedIn_of_ne ht m
    rw [hnil, Ledger.Leaves, List.append_nil] at hleaves
    refine ⟨fun h => ?_, fun hne => absurd hnil hne⟩
    rw [hnil]
    constructor
    · exact nofun
    · rintro ⟨hheld, hgone⟩
      exact absurd (hleaves.mem_iff.mpr (List.mem_append_left _ hheld)) hgone

theorem leaves_of_empty {m : DanmakuManager} (hm : m.danmakuSet = []) (ts : List Turn) :
    Ledger.Leaves [] (createdIn (m.turnsOps ts)) (deletedIn (m.turnsOps ts))
      (handles (m.turns ts).danmakuSet) := by
  have hleaves := leaves_turns m ts
  rw [hm] at hleaves
  exact hleaves

theorem nodup_of_fresh {m : DanmakuManager} (hm : m.danmakuSet = []) {ts : List Turn}
    (hts : (ts.filterMap Turn.hBitmap).Nodup) :
    (handles (m.turns ts).danmakuSet ++ deletedIn (m.turnsOps ts)).Nodup := by
  apply (leaves_of_empty hm ts).nodup
  rw [List.nil_append, createdIn_turnsOps]
  exact hts

theorem linear_of_run {m : DanmakuManager} (hm : m.danmakuSet = []) {ts : List Turn}
    (hts : CreatesFresh ts) :
    Linear (m.turns ts).danmakuSet (m.turnsOps ts) ∧
      ∀ past t future, ts = past ++ t :: future → DeletesLeaving (m.turns past) t := by
  have hnodup := nodup_of_fresh hm hts.fresh
  have hcreated : ([] ++ createdIn (m.turnsOps ts)).Nodup := by
    rw [List.nil_append, createdIn_turnsOps]
    exact hts.fresh
  have hheld : AllAttached m.danmakuSet := by
    rw [hm]
    exact allAttached_nil
  refine ⟨⟨hheld.turns hts.succeeds, hnodup.of_append_left, ?_, hnodup.of_append_right,
    vacant_of_mem_turnsOps m ts⟩, ?_⟩
  · exact fun h => (leaves_of_empty hm ts).mem_iff hcreated
  · rintro past t future rfl
    have hpast : (past.filterMap Turn.hBitmap).Nodup := by
      have hfresh := hts.fresh
      rw [List.filterMap_append] at hfresh
      exact hfresh.of_append_left
    exact deletesLeaving (nodup_of_fresh hm hpast).of_append_left t

def fast : DanmakuManager := { danmakuSpeed := 900 }

def narrowAndWide : List Turn :=
  [.addDanmaku [97] ⟨40, 30, ⟨some 1⟩⟩ false, .addDanmaku [98] ⟨400, 30, ⟨some 2⟩⟩ true,
    .updateDanmaku]

theorem handles_narrowAndWide : handles (fast.turns narrowAndWide).danmakuSet = [2] := by
  let narrow := fast.placed [97] ⟨40, 30, ⟨some 1⟩⟩
  let wide := (fast.addDrawn [97] ⟨40, 30, ⟨some 1⟩⟩).placed [98] ⟨400, 30, ⟨some 2⟩⟩
  have hset : (fast.turns narrowAndWide).danmakuSet = ticked 900 [narrow, wide] :=
    DanmakuManager.updateDanmaku_set _
  have hright (m : DanmakuManager) (content : CString) (drawn : Drawing) :
      ((m.placed content drawn).advance 900).right =
        m.danmakuBoxSize.width + drawn.width - 900 := by
    rw [advance_right, right, DanmakuManager.placed_x, DanmakuManager.placed_size]
  have hnarrow : ¬0 < (narrow.advance 900).right := by
    rw [hright]
    decide
  have hwide : 0 < (wide.advance 900).right := by
    rw [hright]
    decide
  rw [hset, ticked_cons, if_neg hnarrow, ticked_cons, if_pos hwide, ticked_nil, handles_cons]
  change wide.img.hBitmap.toList ++ [] = [2]
  rw [placed_img]
  rfl

theorem linear_of_narrowAndWide :
    handles (fast.turns narrowAndWide).danmakuSet = [2] ∧
      Linear (fast.turns narrowAndWide).danmakuSet (fast.turnsOps narrowAndWide) ∧
      DeletesLeaving (fast.turns (narrowAndWide.take 2)) .updateDanmaku := by
  have hts : CreatesFresh narrowAndWide := by
    refine ⟨?_, by decide⟩
    simp [narrowAndWide, Turn.Creates]
  obtain ⟨hlinear, hleaving⟩ := linear_of_run (m := fast) rfl hts
  exact ⟨handles_narrowAndWide, hlinear, hleaving (narrowAndWide.take 2) .updateDanmaku [] rfl⟩

end DanmakuChicken.Overlay
