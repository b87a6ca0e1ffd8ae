import DanmakuChicken.Overlay.NoOverlap

/-! The sums of `AddDanmaku` and `UpdateDanmaku` in 32-bit arithmetic.  The critical sections
are written once more, with a value `r x` for every sum or difference that is exactly `x`. -/

namespace DanmakuChicken.Overlay

open Danmaku
open NoOverlap (start)

/-- Arithmetic on 32-bit `int`s: exact where the value is one of them, anything elsewhere. -/
def IntArithmetic (r : ℤ → ℤ) : Prop := ∀ x, -2 ^ 31 ≤ x → x < 2 ^ 31 → r x = x

section Rounded

variable (r : ℤ → ℤ)

def Danmaku.CollidesBy (i danmaku : Danmaku) : Prop :=
  r i.right > danmaku.pos.x ∧ i.pos.x < r danmaku.right
    ∧ r i.bottom > danmaku.pos.y ∧ i.pos.y < r danmaku.bottom

instance (i danmaku : Danmaku) : Decidable (i.CollidesBy r danmaku) := by
  unfold Danmaku.CollidesBy; infer_instance

def scanBy : List Danmaku → Danmaku → Danmaku × Bool
  | [], danmaku => (danmaku, false)
  | i :: rest, danmaku =>
    if i.CollidesBy r danmaku then (danmaku.setY (r i.bottom), true) else scanBy rest danmaku

def Call.criticalBy (box : Size) (set : List Danmaku) : Call → Option (List Danmaku × Call)
  | .searching danmaku =>
    let (danmaku, hasCollision) := scanBy r set danmaku
    if hasCollision ∧ r danmaku.bottom ≤ box.height then some (set, .searching danmaku)
    else some (set, .inserting danmaku hasCollision)
  | .inserting danmaku _ => some (pushBack set danmaku, .returned)
  | .returned => none

def updateFromBy (speed : ℤ) (set : List Danmaku) (it : ℕ) : List Danmaku :=
  if _end : it < set.length then
    let danmaku := set[it].setX (r (set[it].pos.x - speed))
    let set := set.set it danmaku
    if r danmaku.right ≤ 0 then updateFromBy speed (erase set it) it
    else updateFromBy speed set (it + 1)
  else set
termination_by set.length - it
decreasing_by
  · simp only [erase_eq_eraseIdx, List.length_eraseIdx, List.length_set]
    split <;> omega
  · simp only [List.length_set]
    omega

def World.stepBy : Lts.Step World Action
  | w, .call content drawn =>
    some { w with calls := w.calls ++ [.enter w.manager.danmakuBoxSize content drawn] }
  | w, .critical k =>
    (w.calls[k]?).bind fun c =>
      (c.criticalBy r w.manager.danmakuBoxSize w.manager.danmakuSet).map fun (set, c) =>
        { w.setSet set with calls := w.calls.set k c }
  | w, .updateDanmaku =>
    some { w with manager := { w.manager with
      danmakuSet := updateFromBy r w.manager.danmakuSpeed w.manager.danmakuSet 0 } }
  | w, .onHScroll slider nPos => some { w with manager := w.manager.onHScroll slider nPos }

end Rounded

def Danmaku.sums (i danmaku : Danmaku) : List ℤ :=
  [i.right, danmaku.right, i.bottom, danmaku.bottom]

def Call.sums (set : List Danmaku) : Call → List ℤ
  | .searching danmaku => (scan set danmaku).1.bottom :: set.flatMap fun i => i.sums danmaku
  | .inserting _ _ | .returned => []

def tickSums (speed : ℤ) (set : List Danmaku) : List ℤ :=
  set.flatMap fun i => [i.pos.x - speed, (i.advance speed).right]

def World.sums (w : World) : Action → List ℤ
  | .critical k => (w.calls[k]?).elim [] (Call.sums w.manager.danmakuSet)
  | .updateDanmaku => tickSums w.manager.danmakuSpeed w.manager.danmakuSet
  | .call _ _ | .onHScroll _ _ => []

section Exact

variable {r : ℤ → ℤ}

theorem scanBy_eq {set : List Danmaku} {d : Danmaku} (h : ∀ i ∈ set, ∀ x ∈ i.sums d, r x = x) :
    scanBy r set d = scan set d := by
  induction set with
  | nil => rfl
  | cons i rest ih =>
    have hi := h i (by simp)
    simp only [Danmaku.sums, List.mem_cons, List.not_mem_nil, or_false, forall_eq_or_imp,
      forall_eq] at hi
    obtain ⟨hright, hright', hbottom, hbottom'⟩ := hi
    have hrest := ih fun j hj => h j (by simp [hj])
    simp only [scanBy, scan, CollidesBy, Collides, hright, hright', hbottom, hbottom', hrest]

theorem criticalBy_eq {box : Size} {set : List Danmaku} {c : Call}
    (h : ∀ x ∈ c.sums set, r x = x) : c.criticalBy r box set = c.critical box set := by
  cases c with
  | searching d =>
    simp only [Call.sums, List.mem_cons, List.mem_flatMap, forall_eq_or_imp] at h
    obtain ⟨hguard, htests⟩ := h
    have hscan : scanBy r set d = scan set d :=
      scanBy_eq fun i hi x hx => htests x ⟨i, hi, hx⟩
    simp only [Call.criticalBy, Call.critical, hscan, hguard]
  | inserting d hit => rfl
  | returned => rfl

theorem drop_erase_set {set : List Danmaku} {it : ℕ} (h : it < set.length) (d : Danmaku) :
    (erase (set.set it d) it).drop it = set.drop (it + 1) := by
  rw [erase_eq_eraseIdx, List.eraseIdx_set_eq, List.eraseIdx_eq_take_drop_succ]
  exact List.drop_left' (List.length_take_of_le h.le)

theorem updateFromBy_eq {speed : ℤ} {set : List Danmaku} {it : ℕ}
    (h : ∀ x ∈ tickSums speed (set.drop it), r x = x) :
    updateFromBy r speed set it = updateFrom speed set it := by
  have hat {set : List Danmaku} {it : ℕ} (hlt : it < set.length)
      (h : ∀ x ∈ tickSums speed (set.drop it), r x = x) :
      r (set[it].pos.x - speed) = set[it].pos.x - speed ∧
        r (set[it].advance speed).right = (set[it].advance speed).right ∧
        ∀ x ∈ tickSums speed (set.drop (it + 1)), r x = x := by
    rw [List.drop_eq_getElem_cons hlt, tickSums, List.flatMap_cons] at h
    exact ⟨h _ (by simp), h _ (by simp), fun x hx => h x (List.mem_append_right _ hx)⟩
  induction set, it using updateFrom.induct speed with
  | case1 set it hlt danmaku moved hgone ih =>
    obtain ⟨hx, hright, hrest⟩ := hat hlt h
    have hnext := ih (by rwa [drop_erase_set hlt])
    rw [updateFromBy, updateFrom, dif_pos hlt, dif_pos hlt]
    dsimp only
    rw [hx]
    change (if r (set[it].advance speed).right ≤ 0 then _ else _) = _
    rw [hright, if_pos hgone, if_pos hgone]
    exact hnext
  | case2 set it hlt danmaku moved hstays ih =>
    obtain ⟨hx, hright, hrest⟩ := hat hlt h
    have hnext := ih (by rwa [List.drop_set_of_lt (Nat.lt_succ_self it)])
    rw [updateFromBy, updateFrom, dif_pos hlt, dif_pos hlt]
    dsimp only
    rw [hx]
    change (if r (set[it].advance speed).right ≤ 0 then _ else _) = _
    rw [hright, if_neg hstays, if_neg hstays]
    exact hnext
  | case3 set it hend =>
    rw [updateFromBy, updateFrom, dif_neg hend, dif_neg hend]

theorem stepBy_eq {w : World} {a : Action} (h : ∀ x ∈ w.sums a, r x = x) :
    w.stepBy r a = w.step a := by
  cases a with
  | call content drawn => rfl
  | critical k =>
    cases hk : w.calls[k]? with
    | none => simp [World.stepBy, World.step, hk]
    | some c =>
      simp only [World.sums, hk, Option.elim_some] at h
      simp only [World.stepBy, World.step, hk, Option.bind_some, criticalBy_eq h]
  | updateDanmaku =>
    have hupdate : updateFromBy r w.manager.danmakuSpeed w.manager.danmakuSet 0 =
        updateFrom w.manager.danmakuSpeed w.manager.danmakuSet 0 := updateFromBy_eq h
    simp only [World.stepBy, hupdate]
    rfl
  | onHScroll slider nPos => rfl

end Exact

structure Limits where
  box : Size
  width : ℕ
  height : ℕ
  box_width_pos : 0 < box.width
  box_height_pos : 0 < box.height
  width_lt : box.width + 2 * width + 100 < 2 ^ 31
  height_lt : max box.height height + 3 * height < 2 ^ 31

namespace Limits

variable (l : Limits)

def Allows : Action → Prop
  | .call _ drawn =>
    (0 < drawn.width ∧ drawn.width ≤ l.width) ∧ 0 < drawn.height ∧ drawn.height ≤ l.height
  | .onHScroll .danmakuSpeed nPos => 1 ≤ nPos ∧ nPos ≤ 100
  | _ => True

def InRange (d : Danmaku) : Prop :=
  (-d.size.width < d.pos.x ∧ d.pos.x ≤ l.box.width) ∧
    0 ≤ d.pos.y ∧ d.pos.y < max l.box.height l.height + l.height

def Sized (d : Danmaku) : Prop :=
  (0 < d.size.width ∧ d.size.width ≤ l.width) ∧ 0 < d.size.height ∧ d.size.height ≤ l.height

end Limits

def Call.danmaku? : Call → Option Danmaku
  | .searching danmaku | .inserting danmaku _ => some danmaku
  | .returned => none

namespace Coordinates

def Guarded (box : Size) : Call → Prop
  | .searching d => d.pos.y = 0 ∨ d.bottom ≤ box.height
  | .inserting _ _ | .returned => True

structure Inv (l : Limits) (w : World) : Prop where
  boxSize : w.manager.danmakuBoxSize = l.box
  speed : 1 ≤ w.manager.danmakuSpeed ∧ w.manager.danmakuSpeed ≤ 100
  set : ∀ d ∈ w.manager.danmakuSet, l.InRange d ∧ l.Sized d
  calls : ∀ c ∈ w.calls, Guarded l.box c ∧ ∀ d, c.danmaku? = some d → l.InRange d ∧ l.Sized d

variable {l : Limits} {w w' : World}

theorem inv_start (l : Limits) : Inv l (start l.box) where
  boxSize := rfl
  speed := by simp [start]
  set := by simp [start]
  calls := by simp [start]

theorem inRange_hit {i d : Danmaku} (hi : l.InRange i ∧ l.Sized i) (hd : l.InRange d ∧ l.Sized d)
    (hguard : d.pos.y = 0 ∨ d.bottom ≤ l.box.height) (h : i.Collides d) :
    l.InRange (d.setY i.bottom) := by
  obtain ⟨-, -, hbottom, htop⟩ := h
  obtain ⟨⟨-, -, -⟩, -, -, hheight⟩ := hi
  obtain ⟨⟨hx, hy, -⟩, -, -, hheight'⟩ := hd
  have hlt : i.pos.y < max l.box.height l.height := by
    apply htop.trans_le
    simp only [bottom] at hguard ⊢
    omega
  refine ⟨hx, ?_, ?_⟩
  · rw [setY_y]
    exact hy.trans hbottom.le
  · rw [setY_y]
    simp only [bottom]
    omega

theorem inRange_scan {set : List Danmaku} {d : Danmaku}
    (hset : ∀ i ∈ set, l.InRange i ∧ l.Sized i) (hd : l.InRange d ∧ l.Sized d)
    (hguard : d.pos.y = 0 ∨ d.bottom ≤ l.box.height) :
    l.InRange (scan set d).1 ∧ l.Sized (scan set d).1 := by
  rcases hscan : scan set d with ⟨d', hit⟩
  cases hit with
  | true =>
    obtain ⟨i, hi, hcollides, rfl⟩ := exists_of_scan_hit hscan
    exact ⟨inRange_hit (hset i hi) hd hguard hcollides, hd.2⟩
  | false =>
    obtain ⟨rfl, -⟩ := scan_miss_iff.mp hscan
    exact hd

theorem inv_call {content : CString} {drawn : Drawing} (h : Inv l w)
    (ha : l.Allows (.call content drawn)) (hs : w.step (.call content drawn) = some w') :
    Inv l w' := by
  cases hs
  refine ⟨h.boxSize, h.speed, h.set, ?_⟩
  intro c hc
  rcases List.mem_append.mp hc with hc | hc
  · exact h.calls c hc
  · rw [List.mem_singleton.mp hc, h.boxSize]
    refine ⟨.inl rfl, ?_⟩
    rintro d ⟨⟩
    obtain ⟨⟨hwidth, hwidth'⟩, hheight, hheight'⟩ := ha
    have hbox := l.box_width_pos
    have hbox' := l.box_height_pos
    simp only [Limits.InRange, Limits.Sized, Danmaku.construct, enter_x, enter_y, enter_size]
    omega

theorem inv_critical {k : ℕ} (h : Inv l w) (hs : w.step (.critical k) = some w') : Inv l w' := by
  obtain ⟨c, c', set, hk, hcrit, rfl⟩ := World.step_critical_eq_some hs
  obtain ⟨hguard, hd⟩ := h.calls c (List.mem_of_getElem? hk)
  have hcalls (hc' : Guarded l.box c' ∧ ∀ d, c'.danmaku? = some d → l.InRange d ∧ l.Sized d) :
      ∀ c ∈ w.calls.set k c',
        Guarded l.box c ∧ ∀ d, c.danmaku? = some d → l.InRange d ∧ l.Sized d := by
    intro e he
    rcases List.mem_or_eq_of_mem_set he with hold | rfl
    · exact h.calls e hold
    · exact hc'
  rw [h.boxSize] at hcrit
  obtain ⟨d, d', rfl, hscan, hle, rfl, rfl⟩ | ⟨d, d', rfl, hscan, -, rfl, rfl⟩ |
    ⟨d, rfl, -, rfl, rfl⟩ | ⟨d, hit, rfl, rfl, rfl⟩ := Call.critical_cases hcrit
  · have hmoved := inRange_scan h.set (hd d rfl) hguard
    rw [hscan] at hmoved
    refine ⟨h.boxSize, h.speed, h.set, hcalls ⟨.inr hle, ?_⟩⟩
    rintro e ⟨⟩
    exact hmoved
  · have hmoved := inRange_scan h.set (hd d rfl) hguard
    rw [hscan] at hmoved
    refine ⟨h.boxSize, h.speed, h.set, hcalls ⟨trivial, ?_⟩⟩
    rintro e ⟨⟩
    exact hmoved
  · exact ⟨h.boxSize, h.speed, h.set, hcalls ⟨trivial, hd⟩⟩
  · refine ⟨h.boxSize, h.speed, ?_, hcalls ⟨trivial, nofun⟩⟩
    intro e he
    rcases List.mem_append.mp he with he | he
    · exact h.set e he
    · rw [List.mem_singleton.mp he]
      exact hd d rfl

theorem inv_update (h : Inv l w) (hs : w.step .updateDanmaku = some w') : Inv l w' := by
  cases hs
  refine ⟨h.boxSize, h.speed, ?_, h.calls⟩
  intro d hd
  rw [DanmakuManager.updateDanmaku_set] at hd
  obtain ⟨⟨i, hi, rfl⟩, hright⟩ := mem_ticked.mp hd
  obtain ⟨⟨⟨-, hx⟩, hy⟩, hsized⟩ := h.set i hi
  have hspeed := h.speed.1
  refine ⟨⟨⟨?_, ?_⟩, hy⟩, hsized⟩
  · simp only [right] at hright
    omega
  · rw [advance_x]
    omega

theorem inv_step {a : Action} (h : Inv l w) (ha : l.Allows a) (hs : w.step a = some w') :
    Inv l w' := by
  cases a with
  | call content drawn => exact inv_call h ha hs
  | critical k => exact inv_critical h hs
  | updateDanmaku => exact inv_update h hs
  | onHScroll slider nPos =>
    cases hs
    refine ⟨by simpa using h.boxSize, ?_, by simpa using h.set, h.calls⟩
    cases slider with
    | danmakuSize => exact h.speed
    | danmakuSpeed =>
      obtain ⟨hlow, hhigh⟩ := ha
      exact ⟨Int.ofNat_le.mpr hlow, Int.ofNat_le.mpr hhigh⟩

theorem sums_inRange {x : ℤ} (h : Inv l w) {a : Action} (hx : x ∈ w.sums a) :
    -2 ^ 31 ≤ x ∧ x < 2 ^ 31 := by
  have hwidth := l.width_lt
  have hheight := l.height_lt
  have hright (d : Danmaku) (hd : l.InRange d ∧ l.Sized d) : -2 ^ 31 ≤ d.right ∧ d.right < 2 ^ 31 := by
    obtain ⟨⟨hx, -⟩, hw, -⟩ := hd
    simp only [right]
    omega
  have hbottom (d : Danmaku) (hd : l.InRange d ∧ l.Sized d) :
      -2 ^ 31 ≤ d.bottom ∧ d.bottom < 2 ^ 31 := by
    obtain ⟨⟨-, hy⟩, -, hh⟩ := hd
    simp only [bottom]
    omega
  cases a with
  | call content drawn => cases hx
  | onHScroll slider nPos => cases hx
  | critical k =>
    cases hk : w.calls[k]? with
    | none => simp [World.sums, hk] at hx
    | some c =>
      simp only [World.sums, hk, Option.elim_some] at hx
      obtain ⟨hguard, hd⟩ := h.calls c (List.mem_of_getElem? hk)
      cases c with
      | searching d =>
        rcases List.mem_cons.mp hx with rfl | hx
        · exact hbottom _ (inRange_scan h.set (hd d rfl) hguard)
        · obtain ⟨i, hi, hx⟩ := List.mem_flatMap.mp hx
          simp only [Danmaku.sums, List.mem_cons, List.not_mem_nil, or_false] at hx
          rcases hx with rfl | rfl | rfl | rfl
          · exact hright i (h.set i hi)
          · exact hright d (hd d rfl)
          · exact hbottom i (h.set i hi)
          · exact hbottom d (hd d rfl)
      | inserting d hit => cases hx
      | returned => cases hx
  | updateDanmaku =>
    obtain ⟨i, hi, hx⟩ := List.mem_flatMap.mp hx
    obtain ⟨⟨⟨hleft, hentered⟩, -⟩, ⟨hw, hw'⟩, -⟩ := h.set i hi
    have hspeed := h.speed
    simp only [List.mem_cons, List.not_mem_nil, or_false, right, advance_x, advance_size] at hx
    omega

theorem exact_of_run {r : ℤ → ℤ} (hr : IntArithmetic r) {actions : List Action}
    (hallows : ∀ a ∈ actions, l.Allows a)
    (hrun : Lts.run (World.stepBy r) (start l.box) actions = some w) :
    (∀ d ∈ w.manager.danmakuSet ++ w.calls.filterMap Call.danmaku?, l.InRange d) ∧
      (∀ a, ∀ x ∈ w.sums a, r x = x) ∧
      Lts.run World.step (start l.box) actions = some w := by
  have hsums {w : World} (h : Inv l w) (a : Action) : ∀ x ∈ w.sums a, r x = x := by
    intro x hx
    obtain ⟨hlow, hhigh⟩ := sums_inRange h hx
    exact hr x hlow hhigh
  have hstep (w : World) (a : Action) (w' : World) (h : Inv l w) (ha : l.Allows a)
      (hs : w.step a = some w') : Inv l w' := inv_step h ha hs
  have hagree (w : World) (a : Action) (h : Inv l w) : w.stepBy r a = w.step a :=
    stepBy_eq (hsums h a)
  rw [Lts.run_congr hstep hagree hallows (inv_start l)] at hrun
  have halong : Lts.Along World.step (fun _ a => l.Allows a) (start l.box) actions :=
    Lts.along_of_forall (fun a ha _ => hallows a ha) _
  have hinv : Inv l w := halong.invariant hstep (inv_start l) hrun
  refine ⟨?_, hsums hinv, hrun⟩
  intro d hd
  rcases List.mem_append.mp hd with hd | hd
  · exact (hinv.set d hd).1
  · obtain ⟨c, hc, hd⟩ := List.mem_filterMap.mp hd
    exact ((hinv.calls c hc).2 d hd).1

def wrap (x : ℤ) : ℤ := x.bmod (2 ^ 32)

theorem intArithmetic_wrap : IntArithmetic wrap := by
  intro x hlow hhigh
  apply Int.bmod_eq_of_le_mul_two
  · push_cast
    omega
  · push_cast
    omega

def smallScreen : Limits where
  box := ⟨100, 50⟩
  width := 30
  height := 40
  box_width_pos := by decide
  box_height_pos := by decide
  width_lt := by decide
  height_lt := by decide

def sideBySide : List Action :=
  [.call [] ⟨30, 40, ⟨none⟩⟩, .call [] ⟨20, 30, ⟨none⟩⟩, .critical 0, .critical 0, .critical 1] ++
    [.updateDanmaku, .critical 1]

def entered : Danmaku := ⟨[], ⟨100, 0⟩, ⟨30, 40⟩, ⟨none⟩⟩

def below : Danmaku := ⟨[], ⟨100, 40⟩, ⟨20, 30⟩, ⟨none⟩⟩

theorem run_sideBySide : Lts.run (World.stepBy wrap) (start smallScreen.box) sideBySide =
    some ⟨⟨[entered.advance 4, below], smallScreen.box, 40, 4⟩, [.returned, .returned]⟩ := by
  have hcalls : Lts.run (World.stepBy wrap) (start smallScreen.box) (sideBySide.take 5) =
      some ⟨⟨[entered], smallScreen.box, 40, 4⟩, [.returned, .inserting below true]⟩ := by decide
  have htick : updateFromBy wrap 4 [entered] 0 = [entered.advance 4] := by
    rw [updateFromBy_eq (by decide)]
    exact updateDanmaku_eq 4 [entered]
  rw [← List.take_append_drop 5 sideBySide, Lts.run_append, hcalls]
  simp [sideBySide, World.stepBy, htick, World.setSet, Call.criticalBy]

theorem exact_of_sideBySide : (∀ d ∈ [entered.advance 4, below], smallScreen.InRange d) ∧
    Lts.run World.step (start smallScreen.box) sideBySide =
      some ⟨⟨[entered.advance 4, below], smallScreen.box, 40, 4⟩, [.returned, .returned]⟩ := by
  have hallows : ∀ a ∈ sideBySide, smallScreen.Allows a := by
    simp [sideBySide, Limits.Allows, smallScreen]
  obtain ⟨hrange, -, hrun⟩ := exact_of_run intArithmetic_wrap hallows run_sideBySide
  exact ⟨hrange, hrun⟩

end Coordinates

end DanmakuChicken.Overlay
