import DanmakuChicken.Lib.Commit
import DanmakuChicken.Overlay.NoOverlap

namespace DanmakuChicken.Overlay.Serial

open Danmaku
open NoOverlap (Apart)
open scoped List

abbrev Added := CString × Drawing

def addOne (m : DanmakuManager) (a : Added) : DanmakuManager := m.addDrawn a.1 a.2

def serial (m : DanmakuManager) (order : List Added) : DanmakuManager := order.foldl addOne m

def begin (m : DanmakuManager) (calls : List Added) : World where
  manager := m
  calls := calls.map fun a => .enter m.danmakuBoxSize a.1 a.2

def Finished (w : World) : Prop := ∀ c ∈ w.calls, c = .returned

instance (w : World) : Decidable (Finished w) := by
  unfold Finished; infer_instance

def placement (d : Danmaku) : Point × Size := (d.pos, d.size)

/-- The danmakus lie where some order of the calls, one after the other, puts them. -/
def Serializable (m : DanmakuManager) (calls : List Added) (m' : DanmakuManager) : Prop :=
  ∃ order, order ~ calls ∧
    m'.danmakuSet.map placement ~ (serial m order).danmakuSet.map placement

def NoPixelShared (box : Size) (i j : Danmaku) : Prop :=
  Disjoint i.rect.points j.rect.points ∨ box.height < i.bottom ∨ box.height < j.bottom

def AddedApart (m m' : DanmakuManager) : Prop :=
  ∃ added, m'.danmakuSet = m.danmakuSet ++ added ∧
    (∀ i ∈ m.danmakuSet, ∀ j ∈ added, NoPixelShared m.danmakuBoxSize i j) ∧
    added.Pairwise (NoPixelShared m.danmakuBoxSize)

theorem noPixelShared_of_apart {box : Size} {i j : Danmaku} (h : Apart box i j) :
    NoPixelShared box i j := h.disjoint.imp_right .inr

theorem apart_placed (m : DanmakuManager) (a : Added) :
    ∀ i ∈ m.danmakuSet, Apart m.danmakuBoxSize i (m.placed a.1 a.2) := by
  intro i hi
  have hfound := found_findRow m.danmakuBoxSize m.danmakuSet
    ((construct a.1 a.2).enter m.danmakuBoxSize)
  change Apart _ i (findRow _ _ _)
  generalize findRow _ _ _ = placed at hfound
  cases hfound with
  | free _ hfree => exact .inl (hfree i hi)
  | past _ _ hlt => exact .inr hlt

theorem addedApart_serial (m : DanmakuManager) (order : List Added) :
    AddedApart m (serial m order) := by
  induction order generalizing m with
  | nil => exact ⟨[], by simp [serial], by simp, .nil⟩
  | cons a order ih =>
    obtain ⟨added, hset, hold, hnew⟩ := ih (addOne m a)
    refine ⟨m.placed a.1 a.2 :: added, ?_, ?_, ?_⟩
    · change (serial (addOne m a) order).danmakuSet = _
      rw [hset, addOne, DanmakuManager.addDrawn_set, List.append_assoc, List.singleton_append]
    · intro i hi j hj
      rcases List.mem_cons.mp hj with rfl | hj
      · exact noPixelShared_of_apart (apart_placed m a i hi)
      · exact hold i (by simp [addOne, hi]) j hj
    · refine .cons ?_ hnew
      intro j hj
      exact hold _ (by simp [addOne]) j hj

def pending : List Added → List Call → List Added
  | a :: as, c :: cs => if c = .returned then pending as cs else a :: pending as cs
  | _, _ => []

theorem pending_set {as : List Added} {cs : List Call} {k : ℕ} {c c' : Call}
    (hk : cs[k]? = some c) (hc : c ≠ .returned) (hc' : c' ≠ .returned) :
    pending as (cs.set k c') = pending as cs := by
  induction as generalizing cs k with
  | nil => rfl
  | cons a as ih =>
    cases cs with
    | nil => rfl
    | cons b cs =>
      cases k with
      | zero =>
        cases hk
        simp [pending, hc, hc']
      | succ k =>
        have htail : pending as (cs.set k c') = pending as cs := ih hk
        simp only [List.set_cons_succ, pending, htail]

theorem pending_set_returned {as : List Added} {cs : List Call} {k : ℕ} {a : Added} {c : Call}
    (ha : as[k]? = some a) (hk : cs[k]? = some c) (hc : c ≠ .returned) :
    pending as cs ~ a :: pending as (cs.set k .returned) := by
  induction as generalizing cs k with
  | nil => simp at ha
  | cons b as ih =>
    cases cs with
    | nil => simp at hk
    | cons e cs =>
      cases k with
      | zero =>
        cases ha
        cases hk
        simp [pending, hc]
      | succ k =>
        have hperm := ih (k := k) ha hk
        by_cases he : e = .returned
        · simpa [pending, he] using hperm
        · simpa [pending, he] using (hperm.cons b).trans (.swap _ _ _)

theorem pending_of_finished {as : List Added} {cs : List Call} (h : ∀ c ∈ cs, c = .returned) :
    pending as cs = [] := by
  induction as generalizing cs with
  | nil => rfl
  | cons a as ih =>
    cases cs with
    | nil => rfl
    | cons c cs =>
      have hcs : pending as cs = [] := ih fun e he => h e (by simp [he])
      simp [pending, h c (by simp), hcs]

theorem pending_begin (box : Size) (as : List Added) :
    pending as (as.map fun a => .enter box a.1 a.2) = as := by
  induction as with
  | nil => rfl
  | cons a as ih =>
    simp only [List.map_cons, pending, ih]
    rfl

def Follows (box : Size) (set : List Danmaku) (a : Added) : Call → Prop
  | .searching d => Tries box set ((construct a.1 a.2).enter box) d
  | .inserting d true => ∃ e, Tries box set ((construct a.1 a.2).enter box) e ∧
      scan set e = (d, true) ∧ box.height < d.bottom
  | .inserting d false => Tries box set ((construct a.1 a.2).enter box) d
  | .returned => True

theorem Follows.append {box : Size} {set : List Danmaku} {a : Added} {c : Call}
    (h : Follows box set a c) (more : List Danmaku) : Follows box (set ++ more) a c := by
  cases c with
  | searching d => exact Tries.append h more
  | inserting d hit =>
    cases hit with
    | true =>
      obtain ⟨e, he, hscan, hlt⟩ := h
      exact ⟨e, he.append more, scan_hit_append hscan more, hlt⟩
    | false => exact Tries.append h more
  | returned => trivial

/-- No danmaku is pushed onto one that came since its last, collision-free scan. -/
def Undisturbed (w : World) : Action → Prop
  | .critical k => ∀ d, w.calls[k]? = some (.inserting d false) →
      ∀ i ∈ w.manager.danmakuSet, ¬i.Collides d
  | _ => True

instance (w : World) (a : Action) : Decidable (Undisturbed w a) :=
  match a with
  | .critical k =>
    match hcall : w.calls[k]? with
    | some (.inserting d false) =>
      decidable_of_iff (∀ i ∈ w.manager.danmakuSet, ¬i.Collides d) (by simp [Undisturbed, hcall])
    | some (.inserting _ true) | some (.searching _) | some .returned | none =>
      isTrue (by simp [Undisturbed, hcall])
  | .call _ _ | .updateDanmaku | .onHScroll _ _ => isTrue trivial

structure Inv (m : DanmakuManager) (calls : List Added) (w : World) : Prop where
  boxSize : w.manager.danmakuBoxSize = m.danmakuBoxSize
  length : w.calls.length = calls.length
  follows : ∀ (k : ℕ) (a : Added) (c : Call), calls[k]? = some a → w.calls[k]? = some c →
    Follows m.danmakuBoxSize w.manager.danmakuSet a c

theorem inv_begin (m : DanmakuManager) (calls : List Added) : Inv m calls (begin m calls) := by
  refine ⟨rfl, by simp [begin], ?_⟩
  intro k a c ha hc
  simp only [begin, List.getElem?_map, ha, Option.map_some, Option.some.injEq] at hc
  subst hc
  exact .start

theorem found_of_inserting {m : DanmakuManager} {calls : List Added} {w : World} {k : ℕ}
    {a : Added} {d : Danmaku} {hit : Bool} (h : Inv m calls w) (ha : calls[k]? = some a)
    (hk : w.calls[k]? = some (.inserting d hit)) (hfree : Undisturbed w (.critical k)) :
    w.manager.placed a.1 a.2 = d := by
  have hfollows := h.follows k a _ ha hk
  rw [DanmakuManager.placed, h.boxSize]
  apply Found.eq
  cases hit with
  | true =>
    obtain ⟨e, he, hscan, hlt⟩ := hfollows
    exact .past he hscan hlt
  | false => exact .free hfollows (hfree d hk)

theorem inv_set {m : DanmakuManager} {calls : List Added} {w : World} {k : ℕ} {a : Added}
    {c' : Call} (more : List Danmaku) (h : Inv m calls w) (ha : calls[k]? = some a)
    (hc' : Follows m.danmakuBoxSize (w.manager.danmakuSet ++ more) a c') :
    Inv m calls
      { w.setSet (w.manager.danmakuSet ++ more) with calls := w.calls.set k c' } := by
  refine ⟨h.boxSize, by simpa using h.length, ?_⟩
  intro j b e hb hj
  rcases Slots.getElem?_set_cases hj with ⟨rfl, rfl⟩ | ⟨-, hj⟩
  · rw [ha] at hb
    cases hb
    exact hc'
  · exact (h.follows j b e hb hj).append more

theorem step_commits {m : DanmakuManager} {calls : List Added} {w w' : World} {k : ℕ}
    (h : Inv m calls w) (hfree : Undisturbed w (.critical k))
    (hs : w.step (.critical k) = some w') :
    Inv m calls w' ∧ Commit.SilentOrCommits World.manager (fun w => pending calls w.calls)
      addOne w w' := by
  obtain ⟨c, c', set, hk, hcrit, rfl⟩ := World.step_critical_eq_some hs
  obtain ⟨hlt, -⟩ := List.getElem?_eq_some_iff.mp hk
  obtain ⟨a, ha⟩ : ∃ a, calls[k]? = some a := ⟨_, List.getElem?_eq_getElem (h.length ▸ hlt)⟩
  have hfollows := h.follows k a c ha hk
  have hsilent (c' : Call) (hc' : Follows m.danmakuBoxSize w.manager.danmakuSet a c') :
      Inv m calls { w.setSet w.manager.danmakuSet with calls := w.calls.set k c' } := by
    simpa using inv_set [] h ha (by simpa using hc')
  rw [h.boxSize] at hcrit
  obtain ⟨d, d', rfl, hscan, hle, rfl, rfl⟩ | ⟨d, d', rfl, hscan, hlt, rfl, rfl⟩ |
    ⟨d, rfl, -, rfl, rfl⟩ | ⟨d, hit, rfl, rfl, rfl⟩ := Call.critical_cases hcrit
  · exact ⟨hsilent _ (hfollows.again hscan hle), .inl ⟨rfl, pending_set hk nofun nofun⟩⟩
  · exact ⟨hsilent _ ⟨d, hfollows, hscan, hlt⟩, .inl ⟨rfl, pending_set hk nofun nofun⟩⟩
  · exact ⟨hsilent (.inserting d false) hfollows, .inl ⟨rfl, pending_set hk nofun nofun⟩⟩
  · refine ⟨inv_set _ h ha trivial, .inr ⟨a, pending_set_returned ha hk nofun, ?_⟩⟩
    rw [addOne, DanmakuManager.addDrawn, found_of_inserting h ha hk hfree, pushBack_eq]
    rfl

theorem eq_serial_of_undisturbed {m : DanmakuManager} {calls : List Added} {ks : List ℕ}
    {w : World} (hfree : Lts.Along World.step Undisturbed (begin m calls) (ks.map .critical))
    (hrun : Lts.run World.step (begin m calls) (ks.map .critical) = some w) (hw : Finished w) :
    ∃ order, order ~ calls ∧ w.manager = serial m order := by
  have hcritical : Lts.Along World.step (fun _ a => ∃ k, a = .critical k) (begin m calls)
      (ks.map .critical) := by
    apply Lts.along_of_forall
    intro a ha _
    obtain ⟨k, -, rfl⟩ := List.mem_map.mp ha
    exact ⟨k, rfl⟩
  have hstep (w : World) (a : Action) (w' : World) (hI : Inv m calls w)
      (ha : Undisturbed w a ∧ ∃ k, a = .critical k) (hs : w.step a = some w') :
      Inv m calls w' ∧ Commit.SilentOrCommits World.manager (fun w => pending calls w.calls)
        addOne w w' := by
    obtain ⟨hfree, k, rfl⟩ := ha
    exact step_commits hI hfree hs
  obtain ⟨order, hperm, hfold⟩ :=
    Commit.exists_order hstep (hfree.and hcritical) (inv_begin m calls) hrun
  refine ⟨order, ?_, hfold⟩
  have hall : pending calls (begin m calls).calls = calls := pending_begin _ _
  have hnone : pending calls w.calls = [] := pending_of_finished hw
  rw [hall, hnone, List.append_nil] at hperm
  exact hperm.symm

theorem serializable_of_undisturbed {m : DanmakuManager} {calls : List Added} {ks : List ℕ}
    {w : World} (hfree : Lts.Along World.step Undisturbed (begin m calls) (ks.map .critical))
    (hrun : Lts.run World.step (begin m calls) (ks.map .critical) = some w) (hw : Finished w) :
    Serializable m calls w.manager ∧ AddedApart m w.manager := by
  obtain ⟨order, hperm, heq⟩ := eq_serial_of_undisturbed hfree hrun hw
  rw [heq]
  exact ⟨⟨order, hperm, .refl _⟩, addedApart_serial m order⟩

def racers : List Added := List.replicate 2 ([], ⟨40, 30, ⟨none⟩⟩)

def entering : DanmakuManager where
  danmakuSet := [⟨[], ⟨790, 0⟩, ⟨40, 20⟩, ⟨none⟩⟩]

theorem serializable_of_interleaving :
    Serializable entering racers
      ⟨entering.danmakuSet ++
        [⟨[], ⟨800, 20⟩, ⟨40, 30⟩, ⟨none⟩⟩, ⟨[], ⟨800, 50⟩, ⟨40, 30⟩, ⟨none⟩⟩], ⟨800, 600⟩, 40, 4⟩ ∧
    AddedApart entering
      ⟨entering.danmakuSet ++
        [⟨[], ⟨800, 20⟩, ⟨40, 30⟩, ⟨none⟩⟩, ⟨[], ⟨800, 50⟩, ⟨40, 30⟩, ⟨none⟩⟩], ⟨800, 600⟩, 40, 4⟩ := by
  have hfree : Lts.Along World.step Undisturbed (begin entering racers)
      ([0, 1, 1, 1, 0, 0, 0].map .critical) := by decide
  have hrun : Lts.run World.step (begin entering racers) ([0, 1, 1, 1, 0, 0, 0].map .critical) =
      some ⟨⟨entering.danmakuSet ++
        [⟨[], ⟨800, 20⟩, ⟨40, 30⟩, ⟨none⟩⟩, ⟨[], ⟨800, 50⟩, ⟨40, 30⟩, ⟨none⟩⟩], ⟨800, 600⟩, 40, 4⟩,
        [.returned, .returned]⟩ := by decide
  exact serializable_of_undisturbed hfree hrun (by decide)

def raced : World where
  manager := { danmakuSet := List.replicate 2 ⟨[], ⟨800, 0⟩, ⟨40, 30⟩, ⟨none⟩⟩ }
  calls := [.returned, .returned]

theorem not_serializable_of_race :
    Lts.run World.step (begin {} racers) ([0, 1, 0, 1].map .critical) = some raced ∧
      Finished raced ∧ ¬Serializable {} racers raced.manager ∧ ¬AddedApart {} raced.manager := by
  refine ⟨by decide, by decide, ?_, ?_⟩
  · rintro ⟨order, horder, hperm⟩
    obtain rfl : order = racers := List.perm_replicate.mp horder
    have hserial : (serial {} racers).danmakuSet.map placement =
        [(⟨800, 0⟩, ⟨40, 30⟩), (⟨800, 30⟩, ⟨40, 30⟩)] := by
      simp [serial, racers, addOne, placement, DanmakuManager.placed, findRow, scan, construct,
        enter, Collides, right, bottom, setY]
    rw [hserial] at hperm
    revert hperm
    decide
  · rintro ⟨added, hadded, -, hpair⟩
    obtain rfl : raced.manager.danmakuSet = added := hadded
    have hshared : NoPixelShared ⟨800, 600⟩ ⟨[], ⟨800, 0⟩, ⟨40, 30⟩, ⟨none⟩⟩
        ⟨[], ⟨800, 0⟩, ⟨40, 30⟩, ⟨none⟩⟩ := by
      simpa [raced] using hpair
    rcases hshared with hdisj | hlt | hlt
    · exact Rect.not_disjoint_of_meets (by decide) (by decide) (by decide) (by decide)
        (by decide) hdisj
    · exact absurd hlt (by decide)
    · exact absurd hlt (by decide)

end DanmakuChicken.Overlay.Serial
