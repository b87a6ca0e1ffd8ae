import DanmakuChicken.Lib.Lts
import DanmakuChicken.Lib.Slots
import DanmakuChicken.Overlay.Manager

/-! `DanmakuManager` as its threads see it: what runs under `m_danmakuSetLock` is one step,
and any number of `AddDanmaku` calls stand between two of theirs. -/

namespace DanmakuChicken.Overlay

/-- Where a call of `AddDanmaku` stands between two critical sections. -/
inductive Call
  | searching (danmaku : Danmaku)
  | inserting (danmaku : Danmaku) (hasCollision : Bool)
  | returned
  deriving DecidableEq

def Call.enter (box : Size) (content : CString) (drawn : Drawing) : Call :=
  .searching ((Danmaku.construct content drawn).enter box)

/-- The next critical section of a call, and the code after it up to the next lock. -/
def Call.critical (box : Size) (set : List Danmaku) : Call → Option (List Danmaku × Call)
  | .searching danmaku =>
    let (danmaku, hasCollision) := scan set danmaku
    if hasCollision ∧ danmaku.bottom ≤ box.height then some (set, .searching danmaku)
    else some (set, .inserting danmaku hasCollision)
  | .inserting danmaku _ => some (pushBack set danmaku, .returned)
  | .returned => none

namespace Call

variable {box : Size} {set set' : List Danmaku}

theorem critical_again {d d' : Danmaku} (h : scan set d = (d', true))
    (hle : d'.bottom ≤ box.height) :
    (Call.searching d).critical box set = some (set, .searching d') := by
  simp [critical, h, hle]

theorem critical_past {d d' : Danmaku} (h : scan set d = (d', true))
    (hlt : box.height < d'.bottom) :
    (Call.searching d).critical box set = some (set, .inserting d' true) := by
  simp [critical, h, hlt]

theorem critical_free {d : Danmaku} (h : ∀ i ∈ set, ¬i.Collides d) :
    (Call.searching d).critical box set = some (set, .inserting d false) := by
  simp [critical, scan_miss_iff.mpr ⟨rfl, h⟩]

@[simp] theorem critical_inserting (d : Danmaku) (hit : Bool) :
    (Call.inserting d hit).critical box set = some (set ++ [d], .returned) := rfl

@[simp] theorem critical_returned : Call.returned.critical box set = none := rfl

theorem critical_cases {c c' : Call} (h : c.critical box set = some (set', c')) :
    (∃ d d', c = .searching d ∧ scan set d = (d', true) ∧ d'.bottom ≤ box.height ∧
      set' = set ∧ c' = .searching d') ∨
    (∃ d d', c = .searching d ∧ scan set d = (d', true) ∧ box.height < d'.bottom ∧
      set' = set ∧ c' = .inserting d' true) ∨
    (∃ d, c = .searching d ∧ (∀ i ∈ set, ¬i.Collides d) ∧
      set' = set ∧ c' = .inserting d false) ∨
    ∃ d hit, c = .inserting d hit ∧ set' = set ++ [d] ∧ c' = .returned := by
  cases c with
  | searching d =>
    rcases hscan : scan set d with ⟨d', hit⟩
    cases hit with
    | true =>
      by_cases hle : d'.bottom ≤ box.height
      · obtain ⟨rfl, rfl⟩ : set = set' ∧ Call.searching d' = c' := by
          simpa [critical_again hscan hle] using h
        exact .inl ⟨d, d', rfl, hscan, hle, rfl, rfl⟩
      · obtain ⟨rfl, rfl⟩ : set = set' ∧ Call.inserting d' true = c' := by
          simpa [critical_past hscan (not_le.mp hle)] using h
        exact .inr (.inl ⟨d, d', rfl, hscan, not_le.mp hle, rfl, rfl⟩)
    | false =>
      obtain ⟨rfl, hfree⟩ := scan_miss_iff.mp hscan
      obtain ⟨rfl, rfl⟩ : set = set' ∧ Call.inserting d' false = c' := by
        simpa [critical_free hfree] using h
      exact .inr (.inr (.inl ⟨d', rfl, hfree, rfl, rfl⟩))
  | inserting d hit =>
    obtain ⟨rfl, rfl⟩ : set ++ [d] = set' ∧ Call.returned = c' := by simpa using h
    exact .inr (.inr (.inr ⟨d, hit, rfl, rfl, rfl⟩))
  | returned => simp at h

theorem critical_isSome {c : Call} (hc : c ≠ .returned) : (c.critical box set).isSome := by
  cases c with
  | searching d =>
    simp only [critical]
    split_ifs <;> rfl
  | inserting d hit => rfl
  | returned => exact absurd rfl hc

end Call

structure World where
  manager : DanmakuManager
  calls : List Call := []
  deriving DecidableEq

inductive Action
  | call (content : CString) (drawn : Drawing)
  | critical (k : ℕ)
  | updateDanmaku
  | onHScroll (slider : Slider) (nPos : ℕ)
  deriving DecidableEq

namespace World

def setSet (w : World) (set : List Danmaku) : World :=
  { w with manager := { w.manager with danmakuSet := set } }

def step : Lts.Step World Action
  | w, .call content drawn =>
    some { w with calls := w.calls ++ [.enter w.manager.danmakuBoxSize content drawn] }
  | w, .critical k =>
    (w.calls[k]?).bind fun c =>
      (c.critical w.manager.danmakuBoxSize w.manager.danmakuSet).map fun (set, c) =>
        { w.setSet set with calls := w.calls.set k c }
  | w, .updateDanmaku => some { w with manager := w.manager.updateDanmaku }
  | w, .onHScroll slider nPos => some { w with manager := w.manager.onHScroll slider nPos }

theorem step_critical_eq_some {w w' : World} {k : ℕ} (h : w.step (.critical k) = some w') :
    ∃ c c' set, w.calls[k]? = some c ∧
      c.critical w.manager.danmakuBoxSize w.manager.danmakuSet = some (set, c') ∧
      w' = { w.setSet set with calls := w.calls.set k c' } := by
  simp only [step, Option.bind_eq_some_iff, Option.map_eq_some_iff] at h
  obtain ⟨c, hc, ⟨set, c'⟩, hcrit, rfl⟩ := h
  exact ⟨c, c', set, hc, hcrit, rfl⟩

theorem step_critical {w : World} {k : ℕ} {c c' : Call} {set : List Danmaku}
    (hk : w.calls[k]? = some c)
    (hc : c.critical w.manager.danmakuBoxSize w.manager.danmakuSet = some (set, c')) :
    w.step (.critical k) = some { w.setSet set with calls := w.calls.set k c' } := by
  simp [step, hk, hc]

theorem step_critical_isSome {w : World} {k : ℕ} {c : Call} (hk : w.calls[k]? = some c)
    (hc : c ≠ .returned) : ∃ w', w.step (.critical k) = some w' := by
  obtain ⟨⟨set, c'⟩, hcrit⟩ := Option.isSome_iff_exists.mp (Call.critical_isSome hc)
  exact ⟨_, step_critical hk hcrit⟩

theorem step_box {w w' : World} {a : Action} (h : w.step a = some w') :
    w'.manager.danmakuBoxSize = w.manager.danmakuBoxSize := by
  cases a with
  | call content drawn =>
    cases h
    rfl
  | critical j =>
    obtain ⟨c, c', set, -, -, rfl⟩ := step_critical_eq_some h
    rfl
  | updateDanmaku =>
    cases h
    rfl
  | onHScroll slider nPos =>
    cases h
    exact DanmakuManager.onHScroll_box _ _ _

theorem step_call {w w' : World} {a : Action} {k : ℕ} {c : Call} (hk : w.calls[k]? = some c)
    (h : w.step a = some w') :
    (a = .critical k ∧ ∃ set c', w'.calls[k]? = some c' ∧
      c.critical w.manager.danmakuBoxSize w.manager.danmakuSet = some (set, c')) ∨
    (a ≠ .critical k ∧ w'.calls[k]? = some c) := by
  cases a with
  | call content drawn =>
    cases h
    exact .inr ⟨nofun, Slots.getElem?_concat_left hk⟩
  | critical j =>
    obtain ⟨b, c', set, hj, hcrit, rfl⟩ := step_critical_eq_some h
    by_cases hjk : j = k
    · subst hjk
      obtain rfl : c = b := Option.some.inj (hk.symm.trans hj)
      exact .inl ⟨rfl, set, c', Slots.getElem?_set_self hk, hcrit⟩
    · refine .inr ⟨by simpa using hjk, ?_⟩
      simpa [List.getElem?_set_ne hjk] using hk
  | updateDanmaku =>
    cases h
    exact .inr ⟨nofun, hk⟩
  | onHScroll slider nPos =>
    cases h
    exact .inr ⟨nofun, hk⟩

theorem run_searching (m : DanmakuManager) (calls : List Call) (k : ℕ) (d : Danmaku)
    (hk : calls[k]? = some (.searching d)) :
    Lts.run step ⟨m, calls⟩
        (List.replicate (scans m.danmakuBoxSize m.danmakuSet d + 1) (.critical k)) =
      some ⟨{ m with danmakuSet :=
        m.danmakuSet ++ [findRow m.danmakuBoxSize m.danmakuSet d] }, calls.set k .returned⟩ := by
  obtain ⟨hlt, -⟩ := List.getElem?_eq_some_iff.mp hk
  have hget (c : Call) : (calls.set k c)[k]? = some c := List.getElem?_set_self hlt
  induction d using findRow.induct m.danmakuBoxSize m.danmakuSet generalizing calls with
  | case1 d moved hscan hle ih =>
    have hrest := ih (calls.set k (.searching moved)) (hget _) (by simpa using hlt)
      (fun c => by simpa using hget c)
    rw [scans_of_hit hscan, if_pos hle, List.replicate_succ, Lts.run_cons,
      step_critical hk (Call.critical_again hscan hle), findRow_of_hit hscan, if_pos hle]
    simpa [setSet] using hrest
  | case2 d moved hscan hle =>
    rw [scans_of_hit hscan, if_neg hle, List.replicate_succ, Lts.run_cons,
      step_critical hk (Call.critical_past hscan (not_le.mp hle)),
      findRow_of_hit hscan, if_neg hle]
    simp [step, hget, setSet]
  | case3 d moved hscan =>
    obtain ⟨rfl, hfree⟩ := scan_miss_iff.mp hscan
    rw [scans_of_miss hfree, List.replicate_succ, Lts.run_cons,
      step_critical hk (Call.critical_free hfree), findRow_of_miss hfree]
    simp [step, hget, setSet]

end World

namespace Action

def ofOp : Op → Action
  | .addDanmaku content drawn => .call content drawn
  | .updateDanmaku => .updateDanmaku
  | .onHScroll slider nPos => .onHScroll slider nPos

def isCritical : Action → Bool
  | .critical _ => true
  | _ => false

end Action

namespace World

theorem exists_run_op (w : World) (op : Op) :
    ∃ n calls, Lts.run step w (.ofOp op :: List.replicate n (.critical w.calls.length)) =
      some ⟨w.manager.apply op, w.calls ++ calls⟩ ∧ ∀ c ∈ calls, c = .returned := by
  cases op with
  | addDanmaku content drawn =>
    let d := (Danmaku.construct content drawn).enter w.manager.danmakuBoxSize
    have hrun := run_searching w.manager (w.calls ++ [.searching d]) w.calls.length d (by simp)
    refine ⟨scans w.manager.danmakuBoxSize w.manager.danmakuSet d + 1, [.returned], ?_, by simp⟩
    rw [Lts.run_cons]
    change Lts.run step ⟨w.manager, w.calls ++ [.searching d]⟩ _ = _
    rw [hrun]
    simp [DanmakuManager.apply, DanmakuManager.addDrawn, DanmakuManager.placed, pushBack_eq, d]
  | updateDanmaku => exact ⟨0, [], by simp [Action.ofOp, step, DanmakuManager.apply], by simp⟩
  | onHScroll slider nPos =>
    exact ⟨0, [], by simp [Action.ofOp, step, DanmakuManager.apply], by simp⟩

theorem exists_run_ops (w : World) (ops : List Op) :
    ∃ actions calls, Lts.run step w actions = some ⟨w.manager.run ops, w.calls ++ calls⟩ ∧
      (∀ c ∈ calls, c = .returned) ∧ actions.filter (!·.isCritical) = ops.map .ofOp := by
  induction ops generalizing w with
  | nil => exact ⟨[], [], by simp, by simp, rfl⟩
  | cons op ops ih =>
    obtain ⟨n, calls, hop, hcalls⟩ := exists_run_op w op
    obtain ⟨actions, calls', hrun, hcalls', hactions⟩ :=
      ih ⟨w.manager.apply op, w.calls ++ calls⟩
    refine ⟨.ofOp op :: List.replicate n (.critical w.calls.length) ++ actions, calls ++ calls',
      Lts.run_append_eq_some.mpr ⟨⟨w.manager.apply op, w.calls ++ calls⟩, hop, ?_⟩,
      List.forall_mem_append.mpr ⟨hcalls, hcalls'⟩, ?_⟩
    · rw [hrun]
      simp
    · have hop' : (Action.ofOp op).isCritical = false := by cases op <;> rfl
      have hcritical : (Action.critical w.calls.length).isCritical = true := rfl
      simp [hop', hcritical, hactions]

end World

end DanmakuChicken.Overlay
