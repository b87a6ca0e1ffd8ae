import DanmakuChicken.Overlay.Critical

namespace DanmakuChicken.Overlay.NoOverlap

open Danmaku

/-- `j`, pushed after `i`, keeps off it or hangs over the bottom edge of the box. -/
def Apart (box : Size) (i j : Danmaku) : Prop := ¬i.Collides j ∨ box.height < j.bottom

theorem Apart.disjoint {box : Size} {i j : Danmaku} (h : Apart box i j) :
    Disjoint i.rect.points j.rect.points ∨ box.height < j.bottom := by
  apply h.imp_left
  intro hfree
  exact Rect.disjoint_of_not_meets hfree

theorem not_collides_advance {i d : Danmaku} {v : ℤ} (hv : 0 ≤ v) (hx : i.pos.x ≤ d.pos.x)
    (hw : 0 < d.size.width) (h : ¬i.Collides d) : ¬(i.advance v).Collides d := by
  intro hc
  apply h
  obtain ⟨hright, -, hbottom, htop⟩ := hc
  refine ⟨?_, ?_, hbottom, htop⟩
  · rw [advance_right] at hright
    omega
  · simp only [right]
    omega

theorem Apart.advance_left {box : Size} {i d : Danmaku} {v : ℤ} (hv : 0 ≤ v)
    (hx : i.pos.x ≤ d.pos.x) (hw : 0 < d.size.width) (h : Apart box i d) :
    Apart box (i.advance v) d := h.imp_left (not_collides_advance hv hx hw)

theorem Apart.advance {box : Size} {i j : Danmaku} (v : ℤ) (h : Apart box i j) :
    Apart box (i.advance v) (j.advance v) := by
  apply h.imp_left
  intro hfree hc
  apply hfree
  rw [collides_iff_meets, rect_advance, rect_advance, Rect.meets_shiftLeft] at hc
  exact hc

def CallInv (box : Size) (set : List Danmaku) : Call → Prop
  | .searching d => d.pos.x = box.width ∧ 0 < d.size.width
  | .inserting d _ => d.pos.x = box.width ∧ 0 < d.size.width ∧ ∀ i ∈ set, Apart box i d
  | .returned => True

structure Inv (box : Size) (w : World) : Prop where
  boxSize : w.manager.danmakuBoxSize = box
  speed : 1 ≤ w.manager.danmakuSpeed
  entered : ∀ i ∈ w.manager.danmakuSet, i.pos.x ≤ box.width
  apart : w.manager.danmakuSet.Pairwise (Apart box)
  calls : ∀ c ∈ w.calls, CallInv box w.manager.danmakuSet c
  single : ∀ (j k : ℕ) (c c' : Call), w.calls[j]? = some c → w.calls[k]? = some c' →
    c ≠ .returned → c' ≠ .returned → j = k

def Idle (w : World) : Prop := ∀ c ∈ w.calls, c = .returned

def start (box : Size) : World := { manager := { danmakuBoxSize := box } }

theorem inv_start (box : Size) : Inv box (start box) where
  boxSize := rfl
  speed := by simp [start]
  entered := by simp [start]
  apart := by simp [start]
  calls := by simp [start]
  single := by simp [start]

theorem inv_call {box : Size} {w w' : World} {content : CString} {drawn : Drawing}
    (h : Inv box w) (hidle : Idle w) (hw : 0 < drawn.width)
    (hs : w.step (.call content drawn) = some w') : Inv box w' := by
  cases hs
  refine ⟨h.boxSize, h.speed, h.entered, h.apart, ?_, ?_⟩
  · intro c hc
    rcases List.mem_append.mp hc with hc | hc
    · exact h.calls c hc
    · rw [List.mem_singleton.mp hc, h.boxSize]
      refine ⟨rfl, ?_⟩
      simpa [Danmaku.construct] using hw
  · -- every earlier call has returned, so only the new one can be in progress
    intro j k c c' hj hk hc hc'
    have hlast (n : ℕ) (e : Call) (hn : (w.calls ++ [Call.enter w.manager.danmakuBoxSize
        content drawn])[n]? = some e) (he : e ≠ .returned) : n = w.calls.length := by
      obtain ⟨heq, -⟩ | ⟨-, hn⟩ := Slots.getElem?_concat_cases hn
      · exact heq
      · exact absurd (hidle e (List.mem_of_getElem? hn)) he
    rw [hlast j c hj hc, hlast k c' hk hc']

theorem Inv.returned_of_ne {box : Size} {w : World} (h : Inv box w) {j k : ℕ} {c c' : Call}
    (hk : w.calls[k]? = some c) (hc : c ≠ .returned) (hj : w.calls[j]? = some c')
    (hne : j ≠ k) : c' = .returned := by
  by_contra hc'
  exact hne (h.single j k c' c hj hk hc' hc)

theorem inv_set {box : Size} {w : World} {k : ℕ} {c c' : Call} {set : List Danmaku}
    (h : Inv box w) (hk : w.calls[k]? = some c) (hc : c ≠ .returned)
    (hentered : ∀ i ∈ set, i.pos.x ≤ box.width) (hapart : set.Pairwise (Apart box))
    (hc' : CallInv box set c') : Inv box { w.setSet set with calls := w.calls.set k c' } := by
  have hset (j : ℕ) (e : Call) (hj : (w.calls.set k c')[j]? = some e) :
      (j = k ∧ e = c') ∨ (j ≠ k ∧ e = .returned) := by
    rcases Slots.getElem?_set_cases hj with hself | ⟨hjk, hj⟩
    · exact .inl hself
    · exact .inr ⟨hjk, h.returned_of_ne hk hc hj hjk⟩
  refine ⟨h.boxSize, h.speed, hentered, hapart, ?_, ?_⟩
  · intro e he
    obtain ⟨j, hj⟩ := List.mem_iff_getElem?.mp he
    rcases hset j e hj with ⟨-, rfl⟩ | ⟨-, rfl⟩
    · exact hc'
    · trivial
  · intro i j e e' hi hj he he'
    rcases hset i e hi with ⟨rfl, -⟩ | ⟨-, rfl⟩
    · rcases hset j e' hj with ⟨rfl, -⟩ | ⟨-, rfl⟩
      · rfl
      · exact absurd rfl he'
    · exact absurd rfl he

theorem callInv_of_scan {box : Size} {set : List Danmaku} {d d' : Danmaku}
    (h : CallInv box set (.searching d)) (hscan : scan set d = (d', true)) :
    d'.pos.x = box.width ∧ 0 < d'.size.width := by
  obtain ⟨i, -, -, rfl⟩ := exists_of_scan_hit hscan
  exact h

theorem inv_critical {box : Size} {w w' : World} {k : ℕ} (h : Inv box w)
    (hs : w.step (.critical k) = some w') : Inv box w' := by
  obtain ⟨c, c', set, hk, hcrit, rfl⟩ := World.step_critical_eq_some hs
  have hc : CallInv box w.manager.danmakuSet c := h.calls c (List.mem_of_getElem? hk)
  rw [h.boxSize] at hcrit
  obtain ⟨d, d', rfl, hscan, -, rfl, rfl⟩ | ⟨d, d', rfl, hscan, hlt, rfl, rfl⟩ |
    ⟨d, rfl, hfree, rfl, rfl⟩ | ⟨d, hit, rfl, rfl, rfl⟩ := Call.critical_cases hcrit
  · exact inv_set h hk nofun h.entered h.apart (callInv_of_scan hc hscan)
  · obtain ⟨hx, hw⟩ := callInv_of_scan hc hscan
    exact inv_set h hk nofun h.entered h.apart ⟨hx, hw, fun i _ => .inr hlt⟩
  · exact inv_set h hk nofun h.entered h.apart ⟨hc.1, hc.2, fun i hi => .inl (hfree i hi)⟩
  · obtain ⟨hx, -, hd⟩ := hc
    refine inv_set h hk nofun ?_ ?_ trivial
    · intro i hi
      rcases List.mem_append.mp hi with hi | hi
      · exact h.entered i hi
      · rw [List.mem_singleton.mp hi, hx]
    · apply List.pairwise_append.mpr
      refine ⟨h.apart, List.pairwise_singleton _ _, ?_⟩
      intro i hi j hj
      rw [List.mem_singleton.mp hj]
      exact hd i hi

theorem inv_update {box : Size} {w w' : World} (h : Inv box w)
    (hs : w.step .updateDanmaku = some w') : Inv box w' := by
  cases hs
  have hv : 0 ≤ w.manager.danmakuSpeed := zero_le_one.trans h.speed
  refine ⟨h.boxSize, h.speed, ?_, ?_, ?_, h.single⟩
  · intro i hi
    rw [DanmakuManager.updateDanmaku_set] at hi
    obtain ⟨⟨j, hj, rfl⟩, -⟩ := mem_ticked.mp hi
    have hx := h.entered j hj
    rw [advance_x]
    omega
  · rw [DanmakuManager.updateDanmaku_set]
    apply List.Pairwise.filter
    apply List.pairwise_map.mpr
    apply h.apart.imp
    intro i j hij
    exact hij.advance _
  · intro c hc
    have hcall := h.calls c hc
    cases c with
    | searching d => exact hcall
    | inserting d hit =>
      obtain ⟨hx, hw, hd⟩ := hcall
      refine ⟨hx, hw, ?_⟩
      intro i hi
      rw [DanmakuManager.updateDanmaku_set] at hi
      obtain ⟨⟨j, hj, rfl⟩, -⟩ := mem_ticked.mp hi
      exact (hd j hj).advance_left hv (by rw [hx]; exact h.entered j hj) hw
    | returned => trivial

/-- What is asked of a step: danmakus of positive width, slider positions from 1 on. -/
def Admissible : Action → Prop
  | .call _ drawn => 0 < drawn.width
  | .onHScroll .danmakuSpeed nPos => 1 ≤ nPos
  | _ => True

/-- A call of `AddDanmaku` begins only while no other is in progress. -/
def OneAtATime (w : World) : Action → Prop
  | .call _ _ => Idle w
  | _ => True

theorem inv_step {box : Size} {w w' : World} {a : Action} (h : Inv box w) (ha : Admissible a)
    (hone : OneAtATime w a) (hs : w.step a = some w') : Inv box w' := by
  cases a with
  | call content drawn => exact inv_call h hone ha hs
  | critical k => exact inv_critical h hs
  | updateDanmaku => exact inv_update h hs
  | onHScroll slider nPos =>
    cases hs
    refine ⟨by simpa using h.boxSize, ?_, by simpa using h.entered, by simpa using h.apart,
      by simpa using h.calls, h.single⟩
    cases slider with
    | danmakuSize => exact h.speed
    | danmakuSpeed => exact Int.ofNat_le.mpr ha

theorem inv_run {box : Size} {w : World} {actions : List Action}
    (hadm : ∀ a ∈ actions, Admissible a)
    (hone : Lts.Along World.step OneAtATime (start box) actions)
    (hrun : Lts.run World.step (start box) actions = some w) : Inv box w := by
  have hall : Lts.Along World.step (fun _ a => Admissible a) (start box) actions :=
    Lts.along_of_forall (fun a ha _ => hadm a ha) _
  exact (hall.and hone).invariant (fun w a w' h hP hs => inv_step h hP.1 hP.2 hs)
    (inv_start box) hrun

theorem pairwise_disjoint_of_run {box : Size} {w : World} {actions : List Action}
    (hadm : ∀ a ∈ actions, Admissible a)
    (hone : Lts.Along World.step OneAtATime (start box) actions)
    (hrun : Lts.run World.step (start box) actions = some w) :
    w.manager.danmakuSet.Pairwise fun i j =>
      Disjoint i.rect.points j.rect.points ∨ box.height < j.bottom := by
  apply (inv_run hadm hone hrun).apart.imp
  intro i j hij
  exact hij.disjoint

def twoCalls : List Action :=
  [.call [] ⟨10, 20, ⟨none⟩⟩, .critical 0, .updateDanmaku, .critical 0,
    .call [] ⟨30, 20, ⟨none⟩⟩, .critical 1, .critical 1, .updateDanmaku, .critical 1, .updateDanmaku]

theorem pairwise_disjoint_of_twoCalls : ∃ w,
    Lts.run World.step (start ⟨100, 50⟩) twoCalls = some w ∧
    w.manager.danmakuSet.map rect = [⟨92, 0, 10, 20⟩, ⟨96, 20, 30, 20⟩] ∧
    w.manager.danmakuSet.Pairwise fun i j =>
      Disjoint i.rect.points j.rect.points ∨ 50 < j.bottom := by
  have hone : Lts.Along World.step OneAtATime (start ⟨100, 50⟩) twoCalls := by
    simp [twoCalls, Lts.along_cons, OneAtATime, Idle, start, World.step, World.setSet, Call.enter,
      Call.critical, scan, Danmaku.construct, Danmaku.enter, bottom]
  obtain ⟨w, hrun, hrects⟩ : ∃ w, Lts.run World.step (start ⟨100, 50⟩) twoCalls = some w ∧
      w.manager.danmakuSet.map rect = [⟨92, 0, 10, 20⟩, ⟨96, 20, 30, 20⟩] := by
    simp [twoCalls, start, World.step, World.setSet, Call.enter, Call.critical, scan, Collides,
      Danmaku.construct, Danmaku.enter, right, bottom, setY, DanmakuManager.updateDanmaku,
      updateDanmaku_eq, ticked, advance, setX, rect]
  refine ⟨w, hrun, hrects, pairwise_disjoint_of_run ?_ hone hrun⟩
  simp [twoCalls, Admissible]

end DanmakuChicken.Overlay.NoOverlap
