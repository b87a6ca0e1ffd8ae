import DanmakuChicken.Overlay.Danmaku

namespace DanmakuChicken.Overlay

namespace Danmaku

def Collides (i danmaku : Danmaku) : Prop :=
  i.right > danmaku.pos.x ∧ i.pos.x < danmaku.right
    ∧ i.bottom > danmaku.pos.y ∧ i.pos.y < danmaku.bottom

instance (i danmaku : Danmaku) : Decidable (i.Collides danmaku) := by
  unfold Collides; infer_instance

theorem collides_iff_meets (i d : Danmaku) : i.Collides d ↔ i.rect.Meets d.rect := Iff.rfl

def enter (danmaku : Danmaku) (box : Size) : Danmaku := { danmaku with pos := ⟨box.width, 0⟩ }

@[simp] theorem enter_x (d : Danmaku) (box : Size) : (d.enter box).pos.x = box.width := rfl
@[simp] theorem enter_y (d : Danmaku) (box : Size) : (d.enter box).pos.y = 0 := rfl
@[simp] theorem enter_size (d : Danmaku) (box : Size) : (d.enter box).size = d.size := rfl

end Danmaku

open Danmaku

/-- The scan inside one critical section: `danmaku` as the scan leaves it, and `hasCollision`. -/
def scan : List Danmaku → Danmaku → Danmaku × Bool
  | [], danmaku => (danmaku, false)
  | i :: rest, danmaku =>
    if i.Collides danmaku then (danmaku.setY i.bottom, true) else scan rest danmaku

theorem scan_eq_find (set : List Danmaku) (d : Danmaku) :
    scan set d = match set.find? (Collides · d) with
      | some i => (d.setY i.bottom, true)
      | none => (d, false) := by
  induction set with
  | nil => rfl
  | cons i rest ih =>
    by_cases h : i.Collides d
    · simp [scan, h]
    · simp [scan, h, ih]

theorem scan_hit_iff {set : List Danmaku} {d d' : Danmaku} :
    scan set d = (d', true) ↔
      ∃ i, set.find? (Collides · d) = some i ∧ d' = d.setY i.bottom := by
  rw [scan_eq_find]
  cases set.find? (Collides · d) with
  | none => simp
  | some i => simp [eq_comm]

theorem scan_miss_iff {set : List Danmaku} {d d' : Danmaku} :
    scan set d = (d', false) ↔ d' = d ∧ ∀ i ∈ set, ¬i.Collides d := by
  rw [scan_eq_find]
  cases h : set.find? (Collides · d) with
  | none =>
    have hfree : ∀ i ∈ set, ¬i.Collides d := by simpa using h
    simpa [eq_comm] using fun _ => hfree
  | some i =>
    have hi : i.Collides d := by simpa using List.find?_some h
    simpa using fun _ => ⟨i, List.mem_of_find?_eq_some h, hi⟩

theorem exists_of_scan_hit {set : List Danmaku} {d d' : Danmaku} (h : scan set d = (d', true)) :
    ∃ i ∈ set, i.Collides d ∧ d' = d.setY i.bottom := by
  obtain ⟨i, hi, rfl⟩ := scan_hit_iff.mp h
  exact ⟨i, List.mem_of_find?_eq_some hi, by simpa using List.find?_some hi, rfl⟩

theorem scan_hit_lt {set : List Danmaku} {d d' : Danmaku} (h : scan set d = (d', true)) :
    d.pos.y < d'.pos.y := by
  obtain ⟨i, -, hi, rfl⟩ := exists_of_scan_hit h
  exact hi.2.2.1

theorem scan_hit_size {set : List Danmaku} {d d' : Danmaku} (h : scan set d = (d', true)) :
    d'.size = d.size := by
  obtain ⟨i, -, -, rfl⟩ := exists_of_scan_hit h
  rfl

theorem scan_hit_append {set : List Danmaku} {d d' : Danmaku} (h : scan set d = (d', true))
    (more : List Danmaku) : scan (set ++ more) d = (d', true) := by
  obtain ⟨i, hi, rfl⟩ := scan_hit_iff.mp h
  exact scan_hit_iff.mpr ⟨i, by simp [List.find?_append, hi], rfl⟩

/-- The `do … while` of `AddDanmaku` over a set that nobody changes meanwhile. -/
def findRow (box : Size) (set : List Danmaku) (danmaku : Danmaku) : Danmaku :=
  match _hit : scan set danmaku with
  | (moved, true) => if moved.bottom ≤ box.height then findRow box set moved else moved
  | (moved, false) => moved
termination_by (box.height + 1 - danmaku.bottom).toNat
decreasing_by
  have hlt := scan_hit_lt _hit
  have hsize := scan_hit_size _hit
  simp only [bottom, hsize] at *
  omega

theorem findRow_of_miss {box : Size} {set : List Danmaku} {d : Danmaku}
    (h : ∀ i ∈ set, ¬i.Collides d) : findRow box set d = d := by
  have hscan : scan set d = (d, false) := scan_miss_iff.mpr ⟨rfl, h⟩
  rw [findRow]
  split
  · next moved heq => simp [hscan] at heq
  · next moved heq => simpa [hscan] using heq.symm

theorem findRow_of_hit {box : Size} {set : List Danmaku} {d d' : Danmaku}
    (h : scan set d = (d', true)) :
    findRow box set d = if d'.bottom ≤ box.height then findRow box set d' else d' := by
  rw [findRow]
  split
  · next moved heq =>
    obtain rfl : d' = moved := by simpa [h] using heq
    rfl
  · next moved heq => simp [h] at heq

def scans (box : Size) (set : List Danmaku) (danmaku : Danmaku) : ℕ :=
  match _hit : scan set danmaku with
  | (moved, true) => if moved.bottom ≤ box.height then scans box set moved + 1 else 1
  | (_, false) => 1
termination_by (box.height + 1 - danmaku.bottom).toNat
decreasing_by
  have hlt := scan_hit_lt _hit
  have hsize := scan_hit_size _hit
  simp only [bottom, hsize] at *
  omega

theorem scans_of_miss {box : Size} {set : List Danmaku} {d : Danmaku}
    (h : ∀ i ∈ set, ¬i.Collides d) : scans box set d = 1 := by
  have hscan : scan set d = (d, false) := scan_miss_iff.mpr ⟨rfl, h⟩
  rw [scans]
  split
  · next moved heq => simp [hscan] at heq
  · rfl

theorem scans_of_hit {box : Size} {set : List Danmaku} {d d' : Danmaku}
    (h : scan set d = (d', true)) :
    scans box set d = if d'.bottom ≤ box.height then scans box set d' + 1 else 1 := by
  rw [scans]
  split
  · next moved heq =>
    obtain rfl : d' = moved := by simpa [h] using heq
    rfl
  · next moved heq => simp [h] at heq

/-- `Tries box set d e`: a search that starts at `d` scans the set with the candidate `e`. -/
inductive Tries (box : Size) (set : List Danmaku) (d : Danmaku) : Danmaku → Prop
  | start : Tries box set d d
  | again {e e'} : Tries box set d e → scan set e = (e', true) → e'.bottom ≤ box.height →
      Tries box set d e'

theorem Tries.append {box : Size} {set : List Danmaku} {d e : Danmaku}
    (h : Tries box set d e) (more : List Danmaku) : Tries box (set ++ more) d e := by
  induction h with
  | start => exact .start
  | again _ hscan hle ih => exact .again ih (scan_hit_append hscan more) hle

theorem Tries.findRow_eq {box : Size} {set : List Danmaku} {d e : Danmaku}
    (h : Tries box set d e) : findRow box set d = findRow box set e := by
  induction h with
  | start => rfl
  | again _ hscan hle ih => rw [ih, findRow_of_hit hscan, if_pos hle]

inductive Found (box : Size) (set : List Danmaku) (d : Danmaku) : Danmaku → Prop
  | free {e} : Tries box set d e → (∀ i ∈ set, ¬i.Collides e) → Found box set d e
  | past {e e'} : Tries box set d e → scan set e = (e', true) → box.height < e'.bottom →
      Found box set d e'

theorem Found.eq {box : Size} {set : List Danmaku} {d e : Danmaku} (h : Found box set d e) :
    findRow box set d = e := by
  cases h with
  | free ht hfree => rw [ht.findRow_eq, findRow_of_miss hfree]
  | past ht hscan hlt => rw [ht.findRow_eq, findRow_of_hit hscan, if_neg (not_le.mpr hlt)]

theorem found_findRow (box : Size) (set : List Danmaku) (d : Danmaku) :
    Found box set d (findRow box set d) := by
  have go : ∀ e, Tries box set d e → Found box set d (findRow box set e) := by
    intro e
    induction e using findRow.induct box set with
    | case1 e moved hscan hle ih =>
      intro ht
      rw [findRow_of_hit hscan, if_pos hle]
      exact ih (ht.again hscan hle)
    | case2 e moved hscan hle =>
      intro ht
      rw [findRow_of_hit hscan, if_neg hle]
      exact .past ht hscan (not_le.mp hle)
    | case3 e moved hscan =>
      intro ht
      obtain ⟨-, hfree⟩ := scan_miss_iff.mp hscan
      rw [findRow_of_miss hfree]
      exact .free ht hfree
  exact go d .start

theorem findRow_induction {box : Size} {set : List Danmaku} {d : Danmaku} {P : Danmaku → Prop}
    (hd : P d) (hstep : ∀ e e', P e → scan set e = (e', true) → P e') :
    P (findRow box set d) := by
  have htries : ∀ e, Tries box set d e → P e := by
    intro e he
    induction he with
    | start => exact hd
    | again _ hscan _ ih => exact hstep _ _ ih hscan
  cases found_findRow box set d with
  | free ht _ => exact htries _ ht
  | past ht hscan _ => exact hstep _ _ (htries _ ht) hscan

theorem findRow_eq_setY (box : Size) (set : List Danmaku) (d : Danmaku) :
    findRow box set d = d.setY (findRow box set d).pos.y := by
  refine findRow_induction (P := fun e => e = d.setY e.pos.y) rfl ?_
  intro e e' he hscan
  obtain ⟨i, -, -, rfl⟩ := exists_of_scan_hit hscan
  rw [he]
  rfl

end DanmakuChicken.Overlay
