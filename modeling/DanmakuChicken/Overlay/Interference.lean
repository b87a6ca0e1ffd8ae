import DanmakuChicken.Lib.Loop
import DanmakuChicken.Overlay.Critical

namespace DanmakuChicken.Overlay

open Danmaku

/-- A pass of the `do … while`, with the scans made so far: the scan number `k` finds `sets k`. -/
def searchPass (box : Size) (sets : ℕ → List Danmaku) : ℕ × Danmaku → (ℕ × Danmaku) ⊕ (ℕ × Danmaku)
  | (k, danmaku) =>
    let (danmaku, hasCollision) := scan (sets k) danmaku
    if hasCollision ∧ danmaku.bottom ≤ box.height then .inl (k + 1, danmaku)
    else .inr (k + 1, danmaku)

def room (box : Size) (danmaku : Danmaku) : ℕ := (box.height - danmaku.bottom).toNat

theorem room_lt {box : Size} {set : List Danmaku} {d d' : Danmaku} (h : scan set d = (d', true))
    (hle : d'.bottom ≤ box.height) : room box d' < room box d := by
  have hlt := scan_hit_lt h
  have hsize := scan_hit_size h
  simp only [room, bottom, hsize] at hle ⊢
  omega

theorem ends_searchPass (box : Size) (sets : ℕ → List Danmaku) (k : ℕ) (d : Danmaku) :
    ∃ n e, Loop.Ends (searchPass box sets) (k, d) (k + n, e) ∧ n ≤ room box d + 1 := by
  induction hroom : room box d using Nat.strongRecOn generalizing k d with
  | ind r ih =>
    rcases hscan : scan (sets k) d with ⟨d', hit⟩
    by_cases hagain : hit ∧ d'.bottom ≤ box.height
    · have hpass : searchPass box sets (k, d) = .inl (k + 1, d') := by
        simp only [searchPass, hscan, if_pos hagain]
      obtain ⟨rfl, hle⟩ := hagain
      have hlt := room_lt hscan hle
      obtain ⟨n, e, hends, hn⟩ := ih (room box d') (hroom ▸ hlt) (k + 1) d' rfl
      rw [Nat.add_assoc, Nat.add_comm 1 n] at hends
      exact ⟨n + 1, e, .next hpass hends, by omega⟩
    · have hpass : searchPass box sets (k, d) = .inr (k + 1, d') := by
        simp only [searchPass, hscan, if_neg hagain]
      exact ⟨1, d', .done hpass, by omega⟩

theorem search_ends (box : Size) (sets : ℕ → List Danmaku) (danmaku : Danmaku) :
    (∀ set d d', scan set d = (d', true) → d.pos.y < d'.pos.y) ∧
      ∃ n e, Loop.Ends (searchPass box sets) (0, danmaku.enter box) (n, e) ∧
        (n : ℤ) ≤ max 0 (box.height - danmaku.size.height) + 1 := by
  refine ⟨fun set d d' => scan_hit_lt, ?_⟩
  obtain ⟨n, e, hends, hn⟩ := ends_searchPass box sets 0 (danmaku.enter box)
  rw [Nat.zero_add] at hends
  refine ⟨n, e, hends, ?_⟩
  simp only [room, bottom, enter_y, enter_size] at hn
  omega

theorem ends_findRow (box : Size) (set : List Danmaku) (k : ℕ) (d : Danmaku) :
    Loop.Ends (searchPass box fun _ => set) (k, d) (k + scans box set d, findRow box set d) := by
  induction d using findRow.induct box set generalizing k with
  | case1 d moved hscan hle ih =>
    have hrest := ih (k + 1)
    rw [Nat.add_assoc, Nat.add_comm 1] at hrest
    rw [scans_of_hit hscan, if_pos hle, findRow_of_hit hscan, if_pos hle]
    exact .next (by simp [searchPass, hscan, hle]) hrest
  | case2 d moved hscan hle =>
    rw [scans_of_hit hscan, if_neg hle, findRow_of_hit hscan, if_neg hle]
    exact .done (by simp [searchPass, hscan, hle])
  | case3 d moved hscan =>
    obtain ⟨rfl, hfree⟩ := scan_miss_iff.mp hscan
    rw [scans_of_miss hfree, findRow_of_miss hfree]
    exact .done (by simp [searchPass, hscan])

theorem scans_le_room (box : Size) (set : List Danmaku) (d : Danmaku) :
    scans box set d ≤ room box d + 1 := by
  obtain ⟨n, e, hends, hn⟩ := ends_searchPass box (fun _ => set) 0 d
  have heq : 0 + n = 0 + scans box set d :=
    congrArg Prod.fst (hends.unique (ends_findRow box set 0 d))
  omega

theorem searchPass_congr {box : Size} {sets sets' : ℕ → List Danmaku} {s : ℕ × Danmaku}
    (h : sets' s.1 = sets s.1) : searchPass box sets' s = searchPass box sets s := by
  simp only [searchPass, h]

theorem searchPass_again {box : Size} {sets : ℕ → List Danmaku} {s t : ℕ × Danmaku}
    (h : searchPass box sets s = .inl t) : t.1 = s.1 + 1 := by
  simp only [searchPass] at h
  split_ifs at h
  cases h
  rfl

theorem ends_searchPass_congr {box : Size} {sets sets' : ℕ → List Danmaku} {s r : ℕ × Danmaku}
    (h : Loop.Ends (searchPass box sets) s r) (hsets : ∀ i, s.1 ≤ i → sets' i = sets i) :
    Loop.Ends (searchPass box sets') s r := by
  induction h with
  | done hdone => exact .done ((searchPass_congr (hsets _ le_rfl)).trans hdone)
  | next hnext _ ih =>
    have hindex := searchPass_again hnext
    refine .next ((searchPass_congr (hsets _ le_rfl)).trans hnext) (ih ?_)
    intro i hi
    exact hsets i (by omega)

namespace Call

def left (box : Size) : Call → ℕ
  | .searching danmaku => room box danmaku + 2
  | .inserting _ _ => 1
  | .returned => 0

theorem left_lt_of_critical {box : Size} {set set' : List Danmaku} {c c' : Call}
    (h : c.critical box set = some (set', c')) : c'.left box < c.left box := by
  obtain ⟨d, d', rfl, hscan, hle, -, rfl⟩ | ⟨d, d', rfl, -, -, -, rfl⟩ |
    ⟨d, rfl, -, -, rfl⟩ | ⟨d, hit, rfl, -, rfl⟩ := critical_cases h
  · have hlt := room_lt hscan hle
    simpa [left] using hlt
  · simp [left]
  · simp [left]
  · simp [left]

end Call

namespace World

variable {w w' : World} {k : ℕ} {actions : List Action}

theorem length_lt_of_step {a : Action} (h : w.step a = some w') (hk : k < w.calls.length) :
    k < w'.calls.length := by
  rcases step_call (List.getElem?_eq_getElem hk) h with ⟨-, set, c', hc', -⟩ | ⟨-, hc'⟩
  · exact (List.getElem?_eq_some_iff.mp hc').1
  · exact (List.getElem?_eq_some_iff.mp hc').1

def left (w : World) (k : ℕ) : ℕ := (w.calls[k]?).elim 0 (Call.left w.manager.danmakuBoxSize)

theorem left_eq {c : Call} (hk : w.calls[k]? = some c) :
    w.left k = c.left w.manager.danmakuBoxSize := by simp [left, hk]

theorem left_of_step {a : Action} (h : w.step a = some w') (hk : k < w.calls.length) :
    w'.left k ≤ w.left k ∧ (a = .critical k → w'.left k < w.left k) := by
  have hc := List.getElem?_eq_getElem hk
  rcases step_call hc h with ⟨rfl, set, c', hc', hcrit⟩ | ⟨hne, hc'⟩
  · have hlt : w'.left k < w.left k := by
      rw [left_eq hc, left_eq hc', step_box h]
      exact Call.left_lt_of_critical hcrit
    exact ⟨hlt.le, fun _ => hlt⟩
  · have heq : w'.left k = w.left k := by rw [left_eq hc, left_eq hc', step_box h]
    exact ⟨heq.le, fun ha => absurd ha hne⟩

theorem count_critical_add_left_le (hk : k < w.calls.length)
    (hrun : Lts.run step w actions = some w') :
    actions.count (.critical k) + w'.left k ≤ w.left k := by
  refine Lts.countP_add_le (I := fun w => k < w.calls.length) (f := (left · k)) ?_ ?_ hk hrun
  · intro w a w' hlt h
    exact ⟨length_lt_of_step h hlt, (left_of_step h hlt).1⟩
  · intro w a w' hlt h ha
    exact (left_of_step h hlt).2 (by simpa using ha)

theorem run_inserting {d e : Danmaku} {hit hit' : Bool}
    (hk : w.calls[k]? = some (.inserting d hit)) (hrun : Lts.run step w actions = some w')
    (hk' : w'.calls[k]? = some (.inserting e hit')) :
    actions.count (.critical k) = 0 ∧ d = e := by
  induction actions generalizing w with
  | nil =>
    cases hrun
    rw [hk] at hk'
    cases hk'
    exact ⟨rfl, rfl⟩
  | cons a actions ih =>
    obtain ⟨t, ht, hrest⟩ := Lts.run_cons_eq_some.mp hrun
    rcases step_call hk ht with ⟨rfl, set, c', hc', hcrit⟩ | ⟨hne, hc⟩
    · -- the call has returned, and could not be at its insertion again
      obtain ⟨-, rfl⟩ : _ ∧ Call.returned = c' := by simpa using hcrit
      have hle := count_critical_add_left_le (List.getElem?_eq_some_iff.mp hc').1 hrest
      rw [left_eq hc', left_eq hk'] at hle
      simp [Call.left] at hle
    · rw [List.count_cons_of_ne hne]
      exact ih hc hrest

theorem exists_ends_searchPass {d e : Danmaku} {hit : Bool}
    (hk : w.calls[k]? = some (.searching d)) (hrun : Lts.run step w actions = some w')
    (hk' : w'.calls[k]? = some (.inserting e hit)) (n : ℕ) :
    ∃ sets, Loop.Ends (searchPass w.manager.danmakuBoxSize sets) (n, d)
      (n + actions.count (.critical k), e) := by
  induction actions generalizing w d n with
  | nil =>
    cases hrun
    rw [hk] at hk'
    cases hk'
  | cons a actions ih =>
    obtain ⟨t, ht, hrest⟩ := Lts.run_cons_eq_some.mp hrun
    rcases step_call hk ht with ⟨rfl, set, c', hc', hcrit⟩ | ⟨hne, hc⟩
    · rw [List.count_cons_self]
      obtain ⟨_, d', ⟨⟩, hscan, hle, -, rfl⟩ | ⟨_, d', ⟨⟩, hscan, hlt, -, rfl⟩ |
        ⟨_, ⟨⟩, hfree, -, rfl⟩ | ⟨_, _, ⟨⟩, -, -⟩ := Call.critical_cases hcrit
      · -- the scans to come may find other sets, but none of them is the scan number `n`
        obtain ⟨sets, hends⟩ := ih hc' hrest (n + 1)
        rw [step_box ht, Nat.add_assoc, Nat.add_comm 1] at hends
        refine ⟨Function.update sets n w.manager.danmakuSet, .next (t := (n + 1, d')) ?_ ?_⟩
        · simp [searchPass, hscan, hle]
        · refine ends_searchPass_congr hends ?_
          intro i hi
          exact Function.update_of_ne (Nat.ne_of_gt hi) _ _
      · obtain ⟨hcount, rfl⟩ := run_inserting hc' hrest hk'
        refine ⟨fun _ => w.manager.danmakuSet, .done ?_⟩
        simp [searchPass, hscan, hcount, not_le.mpr hlt]
      · obtain ⟨hcount, rfl⟩ := run_inserting hc' hrest hk'
        refine ⟨fun _ => w.manager.danmakuSet, .done ?_⟩
        simp [searchPass, scan_miss_iff.mpr ⟨rfl, hfree⟩, hcount]
    · rw [List.count_cons_of_ne hne]
      obtain ⟨sets, hends⟩ := ih hc hrest n
      rw [step_box ht] at hends
      exact ⟨sets, hends⟩

theorem call_ends {content : CString} {drawn : Drawing}
    (hrun : Lts.run step w (.call content drawn :: actions) = some w') :
    (actions.count (.critical w.calls.length) : ℤ) ≤
        max 0 (w.manager.danmakuBoxSize.height - drawn.height) + 2 ∧
      (w'.calls[w.calls.length]? = some .returned ∨
        ∃ w'', w'.step (.critical w.calls.length) = some w'') := by
  obtain ⟨t, ht, hrest⟩ := Lts.run_cons_eq_some.mp hrun
  have hk : t.calls[w.calls.length]? = some (.enter w.manager.danmakuBoxSize content drawn) := by
    cases ht
    simp
  have hlt := (List.getElem?_eq_some_iff.mp hk).1
  refine ⟨?_, ?_⟩
  · have hcount := count_critical_add_left_le hlt hrest
    rw [left_eq hk, step_box ht] at hcount
    simp only [Call.enter, Call.left, room, bottom, enter_y, enter_size, construct] at hcount
    omega
  · have hlt' := Lts.invariant (fun _ _ _ hlt h => length_lt_of_step h hlt) hlt hrest
    by_cases hreturned : w'.calls[w.calls.length] = .returned
    · exact .inl (List.getElem?_eq_some_iff.mpr ⟨hlt', hreturned⟩)
    · exact .inr (step_critical_isSome (List.getElem?_eq_getElem hlt') hreturned)

end World

end DanmakuChicken.Overlay
