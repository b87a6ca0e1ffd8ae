import DanmakuChicken.Overlay.AddDanmaku

namespace DanmakuChicken.Overlay

open Danmaku

def RowFree (set : List Danmaku) (danmaku : Danmaku) (y : ℤ) : Prop :=
  ∀ i ∈ set, ¬i.Collides (danmaku.setY y)

def freeRows (box : Size) (set : List Danmaku) (danmaku : Danmaku) : Set ℤ :=
  {y | 0 ≤ y ∧ y + danmaku.size.height ≤ box.height ∧ RowFree set danmaku y}

def SkipsNone (set : List Danmaku) (d e : Danmaku) : Prop :=
  e = d.setY e.pos.y ∧ ∀ y, d.pos.y ≤ y → y < e.pos.y → ¬RowFree set d y

theorem SkipsNone.hit {set : List Danmaku} {d e e' : Danmaku} (h : SkipsNone set d e)
    (hscan : scan set e = (e', true)) : SkipsNone set d e' := by
  obtain ⟨i, hi, ⟨hright, hleft, hbottom, htop⟩, rfl⟩ := exists_of_scan_hit hscan
  obtain ⟨he, hskips⟩ := h
  rw [he] at hright hleft htop
  refine ⟨by rw [he]; rfl, ?_⟩
  intro y hy hlt hfree
  by_cases hbefore : y < e.pos.y
  · exact hskips y hy hbefore hfree
  · -- the danmaku that was hit covers every row from the candidate down to its own bottom
    refine hfree i hi ⟨hright, hleft, hlt, ?_⟩
    simp only [setY_bottom] at htop ⊢
    omega

theorem Tries.skipsNone {box : Size} {set : List Danmaku} {d e : Danmaku}
    (h : Tries box set d e) : SkipsNone set d e := by
  induction h with
  | start => exact ⟨rfl, fun y hy hlt => absurd hy (not_le.mpr hlt)⟩
  | again _ hscan _ ih => exact ih.hit hscan

theorem Found.skipsNone {box : Size} {set : List Danmaku} {d e : Danmaku}
    (h : Found box set d e) : SkipsNone set d e := by
  cases h with
  | free ht _ => exact ht.skipsNone
  | past ht hscan _ => exact ht.skipsNone.hit hscan

theorem Found.free_or_past {box : Size} {set : List Danmaku} {d e : Danmaku}
    (h : Found box set d e) : (∀ i ∈ set, ¬i.Collides e) ∨ box.height < e.bottom := by
  cases h with
  | free _ hfree => exact .inl hfree
  | past _ _ hlt => exact .inr hlt

theorem countP_lt_countP {p q : Danmaku → Bool} {set : List Danmaku} {i : Danmaku}
    (h : ∀ j, q j = true → p j = true) (hi : i ∈ set) (hp : p i = true) (hq : q i = false) :
    set.countP q < set.countP p := by
  have hfilter : set.countP q = (set.filter p).countP q := by
    rw [List.countP_filter]
    apply List.countP_congr
    intro j _
    simpa using h j
  have hlength : set.countP p = (set.filter p).length := List.countP_eq_length_filter
  rw [hfilter, hlength, List.countP_lt_length_iff]
  exact ⟨i, List.mem_filter.mpr ⟨hi, hp⟩, by simp [hq]⟩

theorem countP_below_lt {set : List Danmaku} {d d' : Danmaku} (h : scan set d = (d', true)) :
    set.countP (fun i => d'.pos.y < i.bottom) < set.countP (fun i => d.pos.y < i.bottom) := by
  have hlt := scan_hit_lt h
  obtain ⟨i, hi, hcollides, rfl⟩ := exists_of_scan_hit h
  refine countP_lt_countP ?_ hi (decide_eq_true hcollides.2.2.1) (by simp)
  intro j hj
  rw [decide_eq_true_eq] at hj ⊢
  exact hlt.trans hj

theorem scans_le (box : Size) (set : List Danmaku) (d : Danmaku) :
    scans box set d ≤ set.countP (fun i => d.pos.y < i.bottom) + 1 := by
  induction d using findRow.induct box set with
  | case1 d moved hscan hle ih =>
    have hlt := countP_below_lt hscan
    rw [scans_of_hit hscan, if_pos hle]
    omega
  | case2 d moved hscan hle =>
    rw [scans_of_hit hscan, if_neg hle]
    omega
  | case3 d moved hscan =>
    rw [scans_of_miss (scan_miss_iff.mp hscan).2]
    omega

theorem findRow_topmost (box : Size) (set : List Danmaku) (danmaku : Danmaku) :
    ((freeRows box set (danmaku.enter box)).Nonempty →
      IsLeast (freeRows box set (danmaku.enter box)) (findRow box set (danmaku.enter box)).pos.y) ∧
    (freeRows box set (danmaku.enter box) = ∅ →
      box.height < (findRow box set (danmaku.enter box)).bottom ∧
        ∀ y, 0 ≤ y → y < (findRow box set (danmaku.enter box)).pos.y →
          ¬RowFree set (danmaku.enter box) y) ∧
    scans box set (danmaku.enter box) ≤ set.length + 1 := by
  have hfound := found_findRow box set (danmaku.enter box)
  obtain ⟨hplaced, hskips⟩ := hfound.skipsNone
  have hend := hfound.free_or_past
  have hnonneg : 0 ≤ (findRow box set (danmaku.enter box)).pos.y := by
    refine findRow_induction (P := fun e => 0 ≤ e.pos.y) le_rfl ?_
    intro e e' he hscan
    exact he.trans (scan_hit_lt hscan).le
  generalize findRow box set (danmaku.enter box) = placed at hplaced hskips hend hnonneg
  have hsize : placed.size.height = (danmaku.enter box).size.height := by rw [hplaced]; rfl
  have hfree (hfree : ∀ i ∈ set, ¬i.Collides placed) : RowFree set (danmaku.enter box) placed.pos.y := by
    rw [hplaced] at hfree
    exact hfree
  have habove {y : ℤ} (hy : y ∈ freeRows box set (danmaku.enter box)) : placed.pos.y ≤ y := by
    by_contra hlt
    exact hskips y hy.1 (not_le.mp hlt) hy.2.2
  refine ⟨?_, ?_, ?_⟩
  · rintro ⟨y, hy⟩
    have hle := habove hy
    have hfits : placed.bottom ≤ box.height := by
      have hbottom := hy.2.1
      simp only [bottom]
      omega
    refine ⟨⟨hnonneg, ?_, ?_⟩, fun y' hy' => habove hy'⟩
    · rw [← hsize]
      exact hfits
    · exact hfree (hend.resolve_right (not_lt.mpr hfits))
  · intro hempty
    refine ⟨?_, hskips⟩
    by_contra hfits
    rw [not_lt] at hfits
    have hmem : placed.pos.y ∈ freeRows box set (danmaku.enter box) := by
      refine ⟨hnonneg, ?_, hfree (hend.resolve_right (not_lt.mpr hfits))⟩
      rw [← hsize]
      exact hfits
    rw [hempty] at hmem
    exact hmem
  · apply (scans_le box set (danmaku.enter box)).trans
    exact Nat.succ_le_succ List.countP_le_length

end DanmakuChicken.Overlay
