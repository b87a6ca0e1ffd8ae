import DanmakuChicken.Lib.Lts
import DanmakuChicken.Overlay.Manager

namespace DanmakuChicken.Overlay

open Danmaku

/-- `i` stands in the way of `danmaku`: it is the first of the set that `danmaku` meets in
the top row, or right below another one that stands in its way and leaves it room. -/
inductive Blocks (box : Size) (set : List Danmaku) (danmaku : Danmaku) : Danmaku → Prop
  | first {i} : set.find? (Collides · danmaku) = some i → Blocks box set danmaku i
  | next {i j} : Blocks box set danmaku i → i.bottom + danmaku.size.height ≤ box.height →
      set.find? (Collides · (danmaku.setY i.bottom)) = some j → Blocks box set danmaku j

theorem Tries.eq_or_blocks {box : Size} {set : List Danmaku} {d e : Danmaku}
    (h : Tries box set d e) : e = d ∨
      ∃ i, Blocks box set d i ∧ i.bottom + d.size.height ≤ box.height ∧ e = d.setY i.bottom := by
  induction h with
  | start => exact .inl rfl
  | again _ hscan hle ih =>
    right
    obtain ⟨j, hj, rfl⟩ := scan_hit_iff.mp hscan
    rcases ih with rfl | ⟨i, hi, hroom, rfl⟩
    · exact ⟨j, .first hj, by simpa using hle, rfl⟩
    · exact ⟨j, .next hi hroom hj, by simpa using hle, rfl⟩

theorem Tries.blocks {box : Size} {set : List Danmaku} {d e i : Danmaku}
    (h : Tries box set d e) (hi : set.find? (Collides · e) = some i) : Blocks box set d i := by
  rcases h.eq_or_blocks with rfl | ⟨j, hj, hroom, rfl⟩
  · exact .first hi
  · exact .next hj hroom hi

theorem Blocks.tries {box : Size} {set : List Danmaku} {d i : Danmaku}
    (h : Blocks box set d i) : ∃ e, Tries box set d e ∧ e.size = d.size ∧
      scan set e = (e.setY i.bottom, true) := by
  induction h with
  | first hi => exact ⟨d, .start, rfl, scan_hit_iff.mpr ⟨_, hi, rfl⟩⟩
  | @next i j _ hroom hj ih =>
    obtain ⟨e, he, hsize, hscan⟩ := ih
    have heq : e.setY i.bottom = d.setY i.bottom := by
      rcases he.eq_or_blocks with rfl | ⟨k, -, -, rfl⟩ <;> rfl
    refine ⟨d.setY i.bottom, ?_, rfl, scan_hit_iff.mpr ⟨_, hj, rfl⟩⟩
    rw [← heq]
    apply he.again hscan
    simpa [hsize] using hroom

namespace DanmakuManager

/-- Nothing that stands in the way of the danmaku reaches down to the bottom edge. -/
def ClearsBottom (m : DanmakuManager) : Op → Prop
  | .addDanmaku content drawn =>
    ∀ i, Blocks m.danmakuBoxSize m.danmakuSet
      ((construct content drawn).enter m.danmakuBoxSize) i → i.bottom < m.danmakuBoxSize.height
  | _ => True

def Fits (box : Size) : Op → Prop
  | .addDanmaku _ drawn => 0 < drawn.height ∧ drawn.height ≤ box.height
  | _ => True

def OnScreen (box : Size) (d : Danmaku) : Prop := 0 ≤ d.pos.y ∧ d.pos.y < box.height

def AllOnScreen (m : DanmakuManager) : Prop :=
  ∀ d ∈ m.danmakuSet, OnScreen m.danmakuBoxSize d

theorem placed_nonneg {m : DanmakuManager} (hset : ∀ i ∈ m.danmakuSet, 0 ≤ i.bottom)
    (content : CString) (drawn : Drawing) : 0 ≤ (m.placed content drawn).pos.y := by
  refine findRow_induction (P := fun e => 0 ≤ e.pos.y) le_rfl ?_
  intro e e' _ hscan
  obtain ⟨i, hi, -, rfl⟩ := exists_of_scan_hit hscan
  exact hset i hi

theorem onScreen_placed_iff {m : DanmakuManager} (hset : ∀ i ∈ m.danmakuSet, 0 ≤ i.bottom)
    {content : CString} {drawn : Drawing} (hfits : Fits m.danmakuBoxSize (.addDanmaku content drawn)) :
    OnScreen m.danmakuBoxSize (m.placed content drawn) ↔
      m.ClearsBottom (.addDanmaku content drawn) := by
  obtain ⟨hpos, hle⟩ := hfits
  have hsize : ((construct content drawn).enter m.danmakuBoxSize).size.height = drawn.height := rfl
  constructor
  · rintro ⟨-, hlt⟩ i hi
    by_contra hbottom
    obtain ⟨e, he, hesize, hscan⟩ := hi.tries
    have hpast : m.danmakuBoxSize.height < (e.setY i.bottom).bottom := by
      rw [setY_bottom, hesize, hsize]
      omega
    have hplaced : m.placed content drawn = e.setY i.bottom := (Found.past he hscan hpast).eq
    rw [hplaced] at hlt
    exact hbottom hlt
  · intro hclears
    refine ⟨placed_nonneg hset content drawn, ?_⟩
    have hfound := found_findRow m.danmakuBoxSize m.danmakuSet
      ((construct content drawn).enter m.danmakuBoxSize)
    change (findRow _ _ _).pos.y < _
    generalize findRow _ _ _ = placed at hfound
    cases hfound with
    | free ht _ =>
      rcases ht.eq_or_blocks with rfl | ⟨i, hi, -, rfl⟩
      · rw [enter_y]
        omega
      · exact hclears i hi
    | past ht hscan _ =>
      obtain ⟨i, hi, rfl⟩ := scan_hit_iff.mp hscan
      exact hclears i (ht.blocks hi)

def Grounded (m : DanmakuManager) : Prop :=
  ∀ i ∈ m.danmakuSet, 0 ≤ i.pos.y ∧ 0 < i.size.height

theorem Grounded.bottom_nonneg {m : DanmakuManager} (h : m.Grounded) :
    ∀ i ∈ m.danmakuSet, 0 ≤ i.bottom := by
  intro i hi
  obtain ⟨hy, hheight⟩ := h i hi
  simp only [bottom]
  omega

theorem mem_apply {m : DanmakuManager} {op : Op} {d : Danmaku} (hd : d ∈ (m.apply op).danmakuSet) :
    (∃ i ∈ m.danmakuSet, i.pos.y = d.pos.y ∧ i.size = d.size) ∨
      ∃ content drawn, op = .addDanmaku content drawn ∧ d = m.placed content drawn := by
  cases op with
  | addDanmaku content drawn =>
    rcases List.mem_append.mp hd with hd | hd
    · exact .inl ⟨d, hd, rfl, rfl⟩
    · exact .inr ⟨content, drawn, rfl, List.mem_singleton.mp hd⟩
  | updateDanmaku =>
    rw [apply, updateDanmaku_set] at hd
    obtain ⟨⟨i, hi, rfl⟩, -⟩ := mem_ticked.mp hd
    exact .inl ⟨i, hi, rfl, rfl⟩
  | onHScroll slider nPos =>
    rw [apply, onHScroll_set] at hd
    exact .inl ⟨d, hd, rfl, rfl⟩

theorem Grounded.apply {m : DanmakuManager} {op : Op} (h : m.Grounded)
    (hfits : Fits m.danmakuBoxSize op) : (m.apply op).Grounded := by
  intro d hd
  rcases mem_apply hd with ⟨i, hi, hy, hsize⟩ | ⟨content, drawn, rfl, rfl⟩
  · rw [← hy, ← hsize]
    exact h i hi
  · refine ⟨placed_nonneg h.bottom_nonneg content drawn, ?_⟩
    rw [placed_size]
    exact Int.natCast_pos.mpr hfits.1

theorem allOnScreen_apply_iff {m : DanmakuManager} {op : Op} (h : m.Grounded)
    (hfits : Fits m.danmakuBoxSize op) (hon : m.AllOnScreen) :
    (m.apply op).AllOnScreen ↔ m.ClearsBottom op := by
  constructor
  · intro hall
    cases op with
    | addDanmaku content drawn =>
      apply (onScreen_placed_iff h.bottom_nonneg hfits).mp
      exact hall (m.placed content drawn) (by simp [apply])
    | updateDanmaku => trivial
    | onHScroll slider nPos => trivial
  · intro hclears d hd
    rw [apply_box]
    rcases mem_apply hd with ⟨i, hi, hy, -⟩ | ⟨content, drawn, rfl, rfl⟩
    · rw [OnScreen, ← hy]
      exact hon i hi
    · exact (onScreen_placed_iff h.bottom_nonneg hfits).mpr hclears

def step : Lts.Step DanmakuManager Op := fun m op => some (m.apply op)

theorem allOnScreen_run_iff {m : DanmakuManager} {ops : List Op} (h : m.Grounded)
    (hfits : ∀ op ∈ ops, Fits m.danmakuBoxSize op) (hon : m.AllOnScreen) :
    (∀ pre, pre <+: ops → (m.run pre).AllOnScreen) ↔ Lts.Along step ClearsBottom m ops := by
  induction ops generalizing m with
  | nil =>
    simp only [List.prefix_nil, Lts.along_nil, iff_true]
    rintro pre rfl
    exact hon
  | cons op ops ih =>
    have hop : Fits m.danmakuBoxSize op := hfits op (by simp)
    have hops : ∀ op' ∈ ops, Fits (m.apply op).danmakuBoxSize op' := by
      intro op' hop'
      rw [apply_box]
      exact hfits op' (by simp [hop'])
    rw [Lts.along_cons, ← allOnScreen_apply_iff h hop hon]
    constructor
    · intro hall
      have hnext : (m.apply op).AllOnScreen := hall [op] (by simp)
      refine ⟨hnext, ?_⟩
      rintro m' ⟨⟩
      apply (ih (h.apply hop) hops hnext).mp
      intro pre hpre
      exact hall (op :: pre) (List.cons_prefix_cons.mpr ⟨rfl, hpre⟩)
    · rintro ⟨hnext, hrest⟩ pre hpre
      cases pre with
      | nil => exact hon
      | cons op' pre =>
        obtain ⟨heq, htail⟩ := List.cons_prefix_cons.mp hpre
        subst heq
        exact (ih (h.apply hop) hops hnext).mpr (hrest _ rfl) pre htail

theorem onScreen_iff_clearsBottom {box : Size} {ops : List Op} (hfits : ∀ op ∈ ops, Fits box op) :
    (∀ pre, pre <+: ops → (run { danmakuBoxSize := box } pre).AllOnScreen) ↔
      Lts.Along step ClearsBottom { danmakuBoxSize := box } ops :=
  allOnScreen_run_iff (by simp [Grounded]) hfits (by simp [AllOnScreen])

def threeHalves : List Op := List.replicate 3 (.addDanmaku [] ⟨40, 300, ⟨none⟩⟩)

theorem run_threeHalves : ((run {} threeHalves).danmakuSet.map fun d => d.pos.y) = [0, 300, 600] := by
  simp [threeHalves, apply, placed, findRow, scan, construct, enter, Collides, right, bottom, setY]

theorem not_allOnScreen_threeHalves :
    (∀ op ∈ threeHalves, Fits ⟨800, 600⟩ op) ∧ ¬(run {} threeHalves).AllOnScreen := by
  constructor
  · simp [threeHalves, Fits]
  · intro hall
    obtain ⟨d, hd, hy⟩ : ∃ d ∈ (run {} threeHalves).danmakuSet, d.pos.y = 600 := by
      simpa using List.mem_map.mp (show (600 : ℤ) ∈ _ by rw [run_threeHalves]; simp)
    have hlt := (hall d hd).2
    rw [run_box, hy] at hlt
    exact absurd hlt (by decide)

theorem onScreen_iff_clearsBottom_threeHalves :
    (∀ pre, pre <+: threeHalves → (run {} pre).AllOnScreen) ↔
      Lts.Along step ClearsBottom {} threeHalves :=
  onScreen_iff_clearsBottom (by simp [threeHalves, Fits])

end DanmakuManager

end DanmakuChicken.Overlay
