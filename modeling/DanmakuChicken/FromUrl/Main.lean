import DanmakuChicken.Lib.Cursor
import DanmakuChicken.Lib.Lts
import Mathlib.Algebra.Order.Ring.Int
import Mathlib.Tactic

namespace DanmakuChicken.FromUrl

open scoped List

def addDanmaku : Option ℕ → Bool
  | none => false
  | some statusCode => statusCode == 200

structure Posted where
  id : ℤ
  content : String
  deriving DecidableEq

inductive Client
  | starting
  | looping (lastDanmakuId : ℤ) (res : List Posted)
  deriving DecidableEq

/-- The backend's danmakus in order of arrival, and what `main` has passed to `add_danmaku` and
printed.  The last three fields only record: which danmakus the contents passed belong to, what
`getlastid` answered and what was stored when the last `getdanmaku` came in. -/
structure State where
  stored : List Posted := []
  client : Client := .starting
  passed : List String := []
  printed : List String := []
  submitted : List Posted := []
  lastid : Option ℤ := none
  polled : List Posted := []
  deriving DecidableEq

inductive Action
  | arrive (danmaku : Posted)
  | getLastId (lastid : ℤ)
  | getDanmaku (res : List Posted)
  | addDanmaku (response : Option ℕ)
  deriving DecidableEq

/-- What the backend may answer to `getlastid`: its greatest id, anything if it has none. -/
def AnswersLastId (stored : List Posted) (lastid : ℤ) : Prop :=
  (∀ x ∈ stored, x.id ≤ lastid) ∧ (stored = [] ∨ ∃ x ∈ stored, x.id = lastid)

instance (stored : List Posted) (lastid : ℤ) : Decidable (AnswersLastId stored lastid) := by
  unfold AnswersLastId; infer_instance

/-- What it may answer to `getdanmaku`: everything from the id `start` on, in any order. -/
def AnswersDanmaku (stored : List Posted) (start : ℤ) (res : List Posted) : Prop :=
  res ~ stored.filter fun x => start ≤ x.id

instance (stored : List Posted) (start : ℤ) (res : List Posted) :
    Decidable (AnswersDanmaku stored start res) := by
  unfold AnswersDanmaku; infer_instance

def step : Lts.Step State Action
  | s, .arrive danmaku =>
    if ∀ x ∈ s.stored, x.id < danmaku.id then some { s with stored := s.stored ++ [danmaku] }
    else none
  | s, .getLastId lastid =>
    match s.client with
    | .starting =>
      if AnswersLastId s.stored lastid then
        some { s with client := .looping lastid [], lastid := some lastid }
      else none
    | .looping _ _ => none
  | s, .getDanmaku res =>
    match s.client with
    | .looping lastDanmakuId [] =>
      if AnswersDanmaku s.stored (lastDanmakuId + 1) res then
        some { s with client := .looping lastDanmakuId res, polled := s.stored }
      else none
    | _ => none
  | s, .addDanmaku response =>
    match s.client with
    | .looping lastDanmakuId (danmaku :: res) =>
      let lastDanmakuId := if danmaku.id > lastDanmakuId then danmaku.id else lastDanmakuId
      some { s with
        client := .looping lastDanmakuId res
        passed := s.passed ++ [danmaku.content]
        printed := s.printed ++ danmaku.content ::
          if addDanmaku response then [] else ["添加弹幕失败！"]
        submitted := s.submitted ++ [danmaku] }
    | _ => none

def ClientInv (s : State) : Client → Prop
  | .starting => s.submitted = [] ∧ s.polled = [] ∧ s.lastid = none
  | .looping lastDanmakuId res => ∃ lastid, s.lastid = some lastid ∧
      Cursor.Delivers Posted.id lastid lastDanmakuId s.polled res s.submitted

structure Inv (s : State) : Prop where
  sorted : s.stored.Pairwise fun x y => x.id < y.id
  seen : s.polled <+: s.stored
  passed : s.passed = s.submitted.map Posted.content
  client : ClientInv s s.client

theorem inv_init : Inv {} := ⟨.nil, List.prefix_rfl, rfl, rfl, rfl, rfl⟩

theorem inv_arrive {s t : State} {danmaku : Posted} (h : Inv s)
    (hs : step s (.arrive danmaku) = some t) : Inv t := by
  simp only [step, Option.ite_none_right_eq_some, Option.some.injEq] at hs
  obtain ⟨hnew, rfl⟩ := hs
  refine ⟨?_, h.seen.trans (List.prefix_append _ _), h.passed, h.client⟩
  apply List.pairwise_append.mpr
  refine ⟨h.sorted, List.pairwise_singleton _ _, ?_⟩
  intro x hx y hy
  rw [List.mem_singleton.mp hy]
  exact hnew x hx

theorem inv_getLastId {s t : State} {lastid : ℤ} (h : Inv s)
    (hs : step s (.getLastId lastid) = some t) : Inv t := by
  have hclient := h.client
  cases hc : s.client with
  | starting =>
    rw [hc] at hclient
    obtain ⟨hsubmitted, hpolled, -⟩ := hclient
    simp only [step, hc, Option.ite_none_right_eq_some, Option.some.injEq] at hs
    obtain ⟨-, rfl⟩ := hs
    refine ⟨h.sorted, h.seen, h.passed, lastid, rfl, ?_⟩
    simp only [hsubmitted, hpolled]
    exact .start lastid
  | looping lastDanmakuId res => simp [step, hc] at hs

theorem inv_getDanmaku {s t : State} {res : List Posted} (h : Inv s)
    (hs : step s (.getDanmaku res) = some t) : Inv t := by
  have hclient := h.client
  cases hc : s.client with
  | starting => simp [step, hc] at hs
  | looping lastDanmakuId rest =>
    cases rest with
    | cons danmaku rest => simp [step, hc] at hs
    | nil =>
      rw [hc] at hclient
      obtain ⟨lastid, hlastid, hdelivers⟩ := hclient
      simp only [step, hc, Option.ite_none_right_eq_some, Option.some.injEq] at hs
      obtain ⟨hanswer, rfl⟩ := hs
      refine ⟨h.sorted, List.prefix_rfl, h.passed, lastid, hlastid, ?_⟩
      obtain ⟨new, hnew⟩ := h.seen
      change Cursor.Delivers _ _ _ s.stored _ _
      rw [← hnew]
      apply hdelivers.poll
      · have hsorted := h.sorted
        rw [← hnew] at hsorted
        exact (List.pairwise_append.mp hsorted).2.2
      · rw [hnew]
        exact hanswer

theorem inv_addDanmaku {s t : State} {response : Option ℕ} (h : Inv s)
    (hs : step s (.addDanmaku response) = some t) : Inv t := by
  have hclient := h.client
  cases hc : s.client with
  | starting => simp [step, hc] at hs
  | looping lastDanmakuId rest =>
    cases rest with
    | nil => simp [step, hc] at hs
    | cons danmaku rest =>
      rw [hc] at hclient
      obtain ⟨lastid, hlastid, hdelivers⟩ := hclient
      simp only [step, hc, Option.some.injEq] at hs
      subst hs
      refine ⟨h.sorted, h.seen, by simp [h.passed], lastid, hlastid, ?_⟩
      have hmax : (if danmaku.id > lastDanmakuId then danmaku.id else lastDanmakuId) =
          max lastDanmakuId danmaku.id := by
        rw [max_def]
        split_ifs <;> omega
      simp only [hmax]
      exact hdelivers.next

theorem inv_step {s t : State} {a : Action} (h : Inv s) (hs : step s a = some t) : Inv t := by
  cases a with
  | arrive danmaku => exact inv_arrive h hs
  | getLastId lastid => exact inv_getLastId h hs
  | getDanmaku res => exact inv_getDanmaku h hs
  | addDanmaku response => exact inv_addDanmaku h hs

theorem passed_exactly_once {s : State} {actions : List Action} {lastid lastDanmakuId : ℤ}
    {res : List Posted} (hrun : Lts.run step {} actions = some s)
    (hclient : s.client = .looping lastDanmakuId res) (hlastid : s.lastid = some lastid) :
    s.passed = s.submitted.map Posted.content ∧ s.polled.Nodup ∧
      s.submitted ++ res ~ s.polled.filter (fun x => lastid < x.id) ∧
      IsGreatest (insert lastid {k | ∃ x ∈ s.submitted, x.id = k}) lastDanmakuId := by
  have hinv : Inv s := Lts.invariant (fun _ _ _ => inv_step) inv_init hrun
  have hclientInv := hinv.client
  rw [hclient] at hclientInv
  obtain ⟨l, hl, hdelivers⟩ := hclientInv
  obtain rfl : lastid = l := Option.some.inj (hlastid.symm.trans hl)
  refine ⟨hinv.passed, ?_, hdelivers.once, hdelivers.greatest⟩
  have hsorted : s.polled.Pairwise fun x y => x.id < y.id :=
    List.Pairwise.sublist hinv.seen.sublist hinv.sorted
  apply hsorted.imp
  rintro x y hlt rfl
  exact lt_irrefl _ hlt

def twoPolls : List Action :=
  [.arrive ⟨3, "a"⟩, .getLastId 3, .arrive ⟨5, "b"⟩, .arrive ⟨9, "c"⟩,
    .getDanmaku [⟨9, "c"⟩, ⟨5, "b"⟩], .addDanmaku none, .arrive ⟨10, "b"⟩, .addDanmaku (some 200),
    .getDanmaku [⟨10, "b"⟩], .addDanmaku (some 400)]

theorem passed_exactly_once_of_twoPolls : ∃ s, Lts.run step {} twoPolls = some s ∧
    s.passed = ["c", "b", "b"] ∧ s.submitted ++ [] ~ s.polled.filter (fun x => 3 < x.id) ∧
    IsGreatest (insert 3 {k | ∃ x ∈ s.submitted, x.id = k}) 10 := by
  have hrun : Lts.run step {} twoPolls = some
      { stored := [⟨3, "a"⟩, ⟨5, "b"⟩, ⟨9, "c"⟩, ⟨10, "b"⟩]
        client := .looping 10 []
        passed := ["c", "b", "b"]
        printed := ["c", "添加弹幕失败！", "b", "b", "添加弹幕失败！"]
        submitted := [⟨9, "c"⟩, ⟨5, "b"⟩, ⟨10, "b"⟩]
        lastid := some 3
        polled := [⟨3, "a"⟩, ⟨5, "b"⟩, ⟨9, "c"⟩, ⟨10, "b"⟩] } := by decide
  obtain ⟨-, -, hperm, hgreatest⟩ := passed_exactly_once hrun rfl rfl
  exact ⟨_, hrun, rfl, hperm, hgreatest⟩

end DanmakuChicken.FromUrl
