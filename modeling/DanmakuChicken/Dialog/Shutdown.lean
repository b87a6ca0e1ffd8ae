import DanmakuChicken.Lib.Lts

/-! How the main window is closed: its thread stops the server, whose thread may still be starting
it, and then the overlay, whose thread renders. -/

namespace DanmakuChicken.Dialog

inductive Start
  | service
  | reset
  | acceptor
  | openSocket
  | setOption
  | bind
  | listen
  | accept
  | run
  | handling
  | returned
  deriving DecidableEq

def Start.next : Start → Start
  | .service => .reset
  | .reset => .acceptor
  | .acceptor => .openSocket
  | .openSocket => .setOption
  | .setOption => .bind
  | .bind => .listen
  | .listen => .accept
  | .accept | .handling => .run
  | .run => .handling
  | .returned => .returned

/-- Where the window's thread is in `OnDestroy`: `check`, `close` and `stop` are those of the
server's `stop`, `destroyWindow` and `joinRender` of the overlay's `OnDestroy`. -/
inductive Destroy
  | shown
  | check
  | close
  | stop
  | join
  | destroyWindow
  | joinRender
  | closed
  deriving DecidableEq

inductive Render
  | check
  | frame
  | returned
  deriving DecidableEq

/-- `acceptor` is none until it is created and then whether it is open.  An exception that leaves
the server's thread has `aborted` the program. -/
structure State where
  start : Start := .service
  acceptor : Option Bool := none
  stopped : Bool := false
  aborted : Bool := false
  destroy : Destroy := .shown
  stopThreads : Bool := false
  render : Render := .check
  deriving DecidableEq

/-- `serve` is a step of the server's thread, with whether a call to the system succeeds, if it
makes one; `outOfWork` is the return of `run` without `stop`. -/
inductive Action
  | serve (ok : Bool)
  | outOfWork
  | destroy
  | render
  deriving DecidableEq

namespace State

def serve (s : State) (ok : Bool) : Option State :=
  match s.start, ok with
  | .service, true | .accept, true | .handling, true => some { s with start := s.start.next }
  | .reset, true => some { s with start := .acceptor, stopped := false }
  | .acceptor, true => some { s with start := .openSocket, acceptor := some false }
  | .openSocket, true => some { s with start := .setOption, acceptor := some true }
  | .setOption, true | .bind, true | .listen, true =>
    if s.acceptor = some true then some { s with start := s.start.next }
    else some { s with aborted := true }
  | .run, true => some { s with start := if s.stopped then .returned else .handling }
  | .openSocket, false | .setOption, false | .bind, false | .listen, false =>
    some { s with aborted := true }
  | _, _ => none

def onDestroy (s : State) : Option State :=
  match s.destroy with
  | .shown => some { s with destroy := .check }
  | .check => some { s with destroy := if s.acceptor.isSome then .close else .join }
  | .close => some { s with destroy := .stop, acceptor := some false }
  | .stop => some { s with destroy := .join, stopped := true }
  | .join => if s.start = .returned then some { s with destroy := .destroyWindow } else none
  | .destroyWindow => some { s with destroy := .joinRender, stopThreads := true }
  | .joinRender => if s.render = .returned then some { s with destroy := .closed } else none
  | .closed => none

def renderLoop (s : State) : Option State :=
  match s.render with
  | .check => some { s with render := if s.stopThreads then .returned else .frame }
  | .frame => some { s with render := .check }
  | .returned => none

def act (s : State) : Action → Option State
  | .serve ok => s.serve ok
  | .outOfWork =>
    if s.start = .run ∧ s.acceptor = some false then some { s with start := .returned } else none
  | .destroy => s.onDestroy
  | .render => s.renderLoop

end State

def step (s : State) (action : Action) : Option State := if s.aborted then none else s.act action

def Start.settingUp : Start → Bool
  | .setOption | .bind | .listen => true
  | _ => false

def Start.left : Start → ℕ
  | .service => 9
  | .reset => 8
  | .acceptor => 7
  | .openSocket => 6
  | .setOption => 5
  | .bind => 4
  | .listen => 3
  | .accept | .handling => 2
  | .run => 1
  | .returned => 0

def Destroy.left : Destroy → ℕ
  | .shown => 7
  | .check => 6
  | .close => 5
  | .stop => 4
  | .join => 3
  | .destroyWindow => 2
  | .joinRender => 1
  | .closed => 0

def Render.left : Render → ℕ
  | .frame => 2
  | .check => 1
  | .returned => 0

/-- The system refuses nothing, and `stop` comes when the server can be stopped. -/
def Timely (s : State) : Action → Prop
  | .serve ok => ok
  | .destroy => (s.destroy = .check → s.acceptor.isSome) ∧
    (s.destroy = .close → s.start.settingUp = false)
  | _ => True

structure Closable (s : State) : Prop where
  alive : s.aborted = false
  created : s.acceptor.isSome ↔ s.start.left ≤ 6
  usable : s.start.settingUp → s.acceptor = some true
  found : s.destroy.left ≤ 5 → s.start.left ≤ 6
  stopped : s.stopped ↔ s.destroy.left ≤ 3

variable {s t u : State} {action : Action}

theorem step_eq_some : step s action = some t ↔ s.aborted = false ∧ s.act action = some t := by
  rw [step, Option.ite_none_left_eq_some, Bool.not_eq_true]

theorem eq_of_serve {ok : Bool} (ht : s.serve ok = some t) :
    s.start ≠ .returned ∧ t.destroy = s.destroy ∧ t.stopThreads = s.stopThreads ∧
      t.render = s.render := by
  unfold State.serve at ht
  split at ht
  all_goals first
    | cases ht
      exact ⟨by simp [*], rfl, rfl, rfl⟩
    | split_ifs at ht <;> cases ht <;> exact ⟨by simp [*], rfl, rfl, rfl⟩
    | cases ht

theorem aborted_of_serve (ht : s.serve false = some t) :
    t.aborted ∧ t.start ≠ .returned := by
  cases hstart : s.start with
  | openSocket | setOption | bind | listen =>
    simp only [State.serve, hstart] at ht
    cases ht
    exact ⟨rfl, by simp⟩
  | service | reset | acceptor | accept | run | handling | returned =>
    simp [State.serve, hstart] at ht

theorem eq_of_renderLoop (ht : s.renderLoop = some t) :
    s.render ≠ .returned ∧ ∃ render, t = { s with render := render } := by
  unfold State.renderLoop at ht
  split at ht
  · exact ⟨by simp [*], _, (Option.some.inj ht).symm⟩
  · exact ⟨by simp [*], _, (Option.some.inj ht).symm⟩
  · cases ht

theorem Closable.start (h : Closable s) {start : Start} {acceptor : Option Bool}
    (created : acceptor.isSome ↔ start.left ≤ 6) (usable : start.settingUp → acceptor = some true)
    (hpast : s.start.left ≤ 6 → start.left ≤ 6) :
    Closable { s with start := start, acceptor := acceptor } :=
  ⟨h.alive, created, usable, fun hdestroy => hpast (h.found hdestroy), h.stopped⟩

theorem Closable.past (h : Closable s) (hstart : s.start.left ≤ 6) {start : Start}
    (hleft : start.left ≤ 6) (usable : start.settingUp → s.acceptor = some true) :
    Closable { s with start := start } :=
  h.start (iff_of_true (h.created.mpr hstart) hleft) usable fun _ => hleft

theorem Closable.serve (h : Closable s) (ht : s.serve true = some t) : Closable t := by
  cases hstart : s.start with
  | service =>
    simp only [State.serve, hstart] at ht
    cases ht
    have hnone : s.acceptor = none := by simpa [hstart, Start.left] using h.created
    exact h.start (by simp [hnone, Start.next, Start.left]) nofun (by simp [hstart, Start.left])
  | reset =>
    simp only [State.serve, hstart] at ht
    cases ht
    have hfound (hdestroy : s.destroy.left ≤ 5) : False := by
      simpa [hstart, Start.left] using h.found hdestroy
    have hlate : 5 < s.destroy.left := Nat.not_le.mp hfound
    refine ⟨h.alive, by simpa [hstart, Start.left] using h.created, nofun,
      fun hdestroy => (hfound hdestroy).elim, iff_of_false Bool.false_ne_true ?_⟩
    dsimp only
    omega
  | acceptor =>
    simp only [State.serve, hstart] at ht
    cases ht
    exact h.start (by decide) nofun fun _ => by decide
  | openSocket =>
    simp only [State.serve, hstart] at ht
    cases ht
    exact h.start (by decide) (fun _ => rfl) fun _ => by decide
  | setOption | bind | listen =>
    have husable := h.usable (by rw [hstart]; rfl)
    simp only [State.serve, hstart, if_pos husable] at ht
    cases ht
    exact h.past (by rw [hstart]; decide) (by decide) fun _ => husable
  | accept | handling =>
    simp only [State.serve, hstart] at ht
    cases ht
    exact h.past (by rw [hstart]; decide) (by decide) nofun
  | run =>
    simp only [State.serve, hstart] at ht
    cases ht
    exact h.past (by rw [hstart]; decide) (by split_ifs <;> decide) (by split_ifs <;> nofun)
  | returned => simp [State.serve, hstart] at ht

theorem Closable.leave (h : Closable s) {destroy : Destroy}
    (found : destroy.left ≤ 5 → s.start.left ≤ 6)
    (hstop : s.destroy.left ≤ 3 ↔ destroy.left ≤ 3) : Closable { s with destroy := destroy } :=
  ⟨h.alive, h.created, h.usable, found, h.stopped.trans hstop⟩

theorem Closable.destroy (h : Closable s) (htimely : Timely s .destroy)
    (ht : s.onDestroy = some t) : Closable t := by
  cases hdestroy : s.destroy with
  | shown =>
    simp only [State.onDestroy, hdestroy] at ht
    cases ht
    exact h.leave (absurd · (by decide)) (by rw [hdestroy]; decide)
  | check =>
    have hfound := htimely.1 hdestroy
    simp only [State.onDestroy, hdestroy, hfound, if_true] at ht
    cases ht
    exact h.leave (fun _ => h.created.mp hfound) (by rw [hdestroy]; decide)
  | close =>
    simp only [State.onDestroy, hdestroy] at ht
    cases ht
    have hfound := h.found (by rw [hdestroy]; decide)
    have hfree := htimely.2 hdestroy
    have hclosed : Closable { s with acceptor := some false } :=
      h.start (iff_of_true rfl hfound) (by simp [hfree]) id
    exact hclosed.leave (fun _ => hfound) (by rw [hdestroy]; decide)
  | stop =>
    simp only [State.onDestroy, hdestroy] at ht
    cases ht
    exact ⟨h.alive, h.created, h.usable, fun _ => h.found (by rw [hdestroy]; decide),
      iff_of_true rfl (Nat.le_refl 3)⟩
  | join =>
    obtain ⟨-, rfl⟩ : s.start = .returned ∧ { s with destroy := .destroyWindow } = t := by
      simpa [State.onDestroy, hdestroy] using ht
    exact h.leave (fun _ => h.found (by rw [hdestroy]; decide)) (by rw [hdestroy]; decide)
  | destroyWindow =>
    simp only [State.onDestroy, hdestroy] at ht
    cases ht
    have hleave : Closable { s with destroy := .joinRender } :=
      h.leave (fun _ => h.found (by rw [hdestroy]; decide)) (by rw [hdestroy]; decide)
    exact ⟨hleave.alive, hleave.created, hleave.usable, hleave.found, hleave.stopped⟩
  | joinRender =>
    obtain ⟨-, rfl⟩ : s.render = .returned ∧ { s with destroy := .closed } = t := by
      simpa [State.onDestroy, hdestroy] using ht
    exact h.leave (fun _ => h.found (by rw [hdestroy]; decide)) (by rw [hdestroy]; decide)
  | closed => simp [State.onDestroy, hdestroy] at ht

theorem Closable.step (h : Closable s) (htimely : Timely s action) (ht : step s action = some t) :
    Closable t := by
  obtain ⟨-, ht⟩ := step_eq_some.mp ht
  cases action with
  | serve ok =>
    obtain rfl : ok = true := htimely
    exact h.serve ht
  | outOfWork =>
    obtain ⟨⟨hrun, -⟩, ht⟩ := Option.ite_none_right_eq_some.mp ht
    cases ht
    exact h.past (by rw [hrun]; decide) (by decide) nofun
  | destroy => exact h.destroy htimely ht
  | render =>
    obtain ⟨-, render, rfl⟩ := eq_of_renderLoop ht
    exact ⟨h.alive, h.created, h.usable, h.found, h.stopped⟩

theorem closable_start : Closable {} := ⟨rfl, by decide, nofun, by decide, by decide⟩

structure Joined (s : State) : Prop where
  server : s.destroy.left ≤ 2 → s.start = .returned
  told : s.stopThreads ↔ s.destroy.left ≤ 1
  render : s.destroy = .closed → s.render = .returned

theorem Joined.leave (h : Joined s) {destroy : Destroy} {acceptor : Option Bool} {stopped : Bool}
    (hserver : destroy.left ≤ 2 → s.start = .returned)
    (htold : s.destroy.left ≤ 1 ↔ destroy.left ≤ 1)
    (hrender : destroy = .closed → s.render = .returned) :
    Joined { s with destroy := destroy, acceptor := acceptor, stopped := stopped } :=
  ⟨hserver, h.told.trans htold, hrender⟩

theorem Joined.destroy (h : Joined s) (ht : s.onDestroy = some t) : Joined t := by
  cases hdestroy : s.destroy with
  | shown | close | stop =>
    simp only [State.onDestroy, hdestroy] at ht
    cases ht
    exact h.leave (absurd · (by decide)) (by rw [hdestroy]; decide) nofun
  | check =>
    simp only [State.onDestroy, hdestroy] at ht
    cases ht
    split_ifs
    · exact h.leave (absurd · (by decide)) (by rw [hdestroy]; decide) nofun
    · exact h.leave (absurd · (by decide)) (by rw [hdestroy]; decide) nofun
  | join =>
    obtain ⟨hreturned, rfl⟩ : s.start = .returned ∧ { s with destroy := .destroyWindow } = t := by
      simpa [State.onDestroy, hdestroy] using ht
    exact h.leave (fun _ => hreturned) (by rw [hdestroy]; decide) nofun
  | destroyWindow =>
    simp only [State.onDestroy, hdestroy] at ht
    cases ht
    exact ⟨fun _ => h.server (by rw [hdestroy]; decide), iff_of_true rfl (Nat.le_refl 1), nofun⟩
  | joinRender =>
    obtain ⟨hreturned, rfl⟩ : s.render = .returned ∧ { s with destroy := .closed } = t := by
      simpa [State.onDestroy, hdestroy] using ht
    exact h.leave (fun _ => h.server (by rw [hdestroy]; decide)) (by rw [hdestroy]; decide)
      fun _ => hreturned
  | closed => simp [State.onDestroy, hdestroy] at ht

theorem Joined.congr (h : Joined s) (hstart : s.start ≠ .returned)
    (hdestroy : t.destroy = s.destroy) (hstop : t.stopThreads = s.stopThreads)
    (hrender : t.render = s.render) : Joined t := by
  refine ⟨fun hleft => ?_, ?_, ?_⟩
  · rw [hdestroy] at hleft
    exact absurd (h.server hleft) hstart
  · rw [hstop, hdestroy]
    exact h.told
  · rw [hdestroy, hrender]
    exact h.render

theorem Joined.step (h : Joined s) (ht : step s action = some t) : Joined t := by
  obtain ⟨-, ht⟩ := step_eq_some.mp ht
  cases action with
  | serve ok =>
    obtain ⟨hstart, hdestroy, hstop, hrender⟩ := eq_of_serve ht
    exact h.congr hstart hdestroy hstop hrender
  | outOfWork =>
    obtain ⟨⟨hrun, -⟩, ht⟩ := Option.ite_none_right_eq_some.mp ht
    cases ht
    exact h.congr (by simp [hrun]) rfl rfl rfl
  | destroy => exact h.destroy ht
  | render =>
    obtain ⟨hrender, render, rfl⟩ := eq_of_renderLoop ht
    exact ⟨h.server, h.told, fun hclosed => absurd (h.render hclosed) hrender⟩

theorem joined_start : Joined {} := ⟨by decide, by decide, nofun⟩

inductive Doomed (s : State) : Prop
  | aborted (haborted : s.aborted) (hstart : s.start ≠ .returned)
  | missed (hdestroy : s.destroy = .join) (hstopped : s.stopped = false)
    (hstart : s.start ≠ .returned) (hopen : s.start.left ≤ 5 → s.acceptor ≠ some false)
  | broken (hdestroy : s.destroy = .stop ∨ s.destroy = .join) (hsetup : s.start.settingUp)
    (hclosed : s.acceptor = some false)

theorem ne_returned_of_settingUp (h : s.start.settingUp) : s.start ≠ .returned := by
  intro hstart
  rw [hstart] at h
  cases h

theorem Doomed.ne_returned (h : Doomed s) : s.start ≠ .returned := by
  cases h with
  | aborted _ hstart => exact hstart
  | missed _ _ hstart _ => exact hstart
  | broken _ hsetup _ => exact ne_returned_of_settingUp hsetup

theorem doomed_serve_of_missed (hdestroy : s.destroy = .join) (hstopped : s.stopped = false)
    (hopen : s.start.left ≤ 5 → s.acceptor ≠ some false) (ht : s.serve true = some t) :
    Doomed t := by
  cases hstart : s.start with
  | service | reset | acceptor | openSocket =>
    simp only [State.serve, hstart] at ht
    cases ht
    exact .missed hdestroy (by simp [hstopped]) (by simp [Start.next])
      (by simp [Start.next, Start.left])
  | setOption | bind | listen =>
    simp only [State.serve, hstart] at ht
    split_ifs at ht with hacceptor
    · cases ht
      exact .missed hdestroy hstopped (by simp [Start.next]) (by simp [hacceptor])
    · cases ht
      exact .aborted rfl (by simp)
  | accept | handling =>
    simp only [State.serve, hstart] at ht
    cases ht
    exact .missed hdestroy hstopped (by simp [Start.next]) fun _ => hopen (by rw [hstart]; decide)
  | run =>
    simp only [State.serve, hstart, hstopped] at ht
    cases ht
    exact .missed hdestroy rfl (by simp) fun _ => hopen (by rw [hstart]; decide)
  | returned => simp [State.serve, hstart] at ht

theorem doomed_serve_of_broken (hsetup : s.start.settingUp) (hclosed : s.acceptor = some false)
    (ht : s.serve true = some t) : Doomed t := by
  have hne : s.acceptor ≠ some true := by simp [hclosed]
  cases hstart : s.start with
  | setOption | bind | listen =>
    simp only [State.serve, hstart, if_neg hne] at ht
    cases ht
    exact .aborted rfl (by simp)
  | service | reset | acceptor | openSocket | accept | run | handling | returned =>
    rw [hstart] at hsetup
    cases hsetup

theorem Doomed.serve {ok : Bool} (h : Doomed s) (haborted : s.aborted = false)
    (ht : s.serve ok = some t) : Doomed t := by
  cases ok with
  | false => exact .aborted (aborted_of_serve ht).1 (aborted_of_serve ht).2
  | true =>
    cases h with
    | aborted haborted' _ =>
      rw [haborted] at haborted'
      cases haborted'
    | missed hdestroy hstopped _ hopen => exact doomed_serve_of_missed hdestroy hstopped hopen ht
    | broken _ hsetup hclosed => exact doomed_serve_of_broken hsetup hclosed ht

theorem not_join (hdestroy : s.destroy = .join) (hstart : s.start ≠ .returned) :
    s.onDestroy = none := by
  simp only [State.onDestroy, hdestroy, if_neg hstart]

theorem Doomed.destroy (h : Doomed s) (haborted : s.aborted = false)
    (ht : s.onDestroy = some t) : Doomed t := by
  have hnot (hdestroy : s.destroy = .join) : Doomed t := by
    rw [not_join hdestroy h.ne_returned] at ht
    cases ht
  cases h with
  | aborted haborted' _ =>
    rw [haborted] at haborted'
    cases haborted'
  | missed hdestroy _ _ _ => exact hnot hdestroy
  | broken hdestroy hsetup hclosed =>
    obtain hdestroy | hdestroy := hdestroy
    · simp only [State.onDestroy, hdestroy] at ht
      cases ht
      exact .broken (.inr rfl) hsetup hclosed
    · exact hnot hdestroy

theorem Doomed.step (h : Doomed s) (ht : step s action = some t) : Doomed t := by
  obtain ⟨haborted, ht⟩ := step_eq_some.mp ht
  cases action with
  | serve ok => exact h.serve haborted ht
  | outOfWork =>
    obtain ⟨⟨hrun, hclosed⟩, -⟩ := Option.ite_none_right_eq_some.mp ht
    cases h with
    | aborted haborted' _ =>
      rw [haborted] at haborted'
      cases haborted'
    | missed _ _ _ hopen => exact absurd hclosed (hopen (by rw [hrun]; decide))
    | broken _ hsetup _ =>
      rw [hrun] at hsetup
      cases hsetup
  | destroy => exact h.destroy haborted ht
  | render =>
    obtain ⟨-, render, rfl⟩ := eq_of_renderLoop ht
    cases h with
    | aborted haborted hstart => exact .aborted haborted hstart
    | missed hdestroy hstopped hstart hopen => exact .missed hdestroy hstopped hstart hopen
    | broken hdestroy hsetup hclosed => exact .broken hdestroy hsetup hclosed

theorem Closable.doomed (h : Closable s) (htimely : ¬Timely s action)
    (ht : Dialog.step s action = some t) : Doomed t := by
  obtain ⟨-, ht⟩ := step_eq_some.mp ht
  cases action with
  | outOfWork | render => exact absurd trivial htimely
  | serve ok =>
    obtain rfl : ok = false := Bool.eq_false_iff.mpr htimely
    exact .aborted (aborted_of_serve ht).1 (aborted_of_serve ht).2
  | destroy =>
    obtain ⟨hcheck, hnone⟩ | ⟨hclose, hsetup⟩ :
        s.destroy = .check ∧ s.acceptor.isSome = false ∨
          s.destroy = .close ∧ s.start.settingUp := by
      by_contra hnot
      simp only [not_or, not_and] at hnot
      exact htimely ⟨fun h => eq_true_of_ne_false (hnot.1 h),
        fun h => eq_false_of_ne_true (hnot.2 h)⟩
    · have hleft : ¬s.start.left ≤ 6 := fun hleft => by simp [h.created.mpr hleft] at hnone
      have hstopped : s.stopped = false := by
        rw [Bool.eq_false_iff, Ne, h.stopped, hcheck]
        decide
      simp only [State.act, State.onDestroy, hcheck, hnone] at ht
      cases ht
      refine .missed rfl hstopped (fun hstart => hleft ?_) fun hopen => absurd ?_ hleft
      · rw [hstart]
        decide
      · exact Nat.le_succ_of_le hopen
    · simp only [State.act, State.onDestroy, hclose] at ht
      cases ht
      exact .broken (.inl rfl) hsetup rfl

def State.left (s : State) : ℕ := s.start.left + s.destroy.left + s.render.left

theorem Closable.exists_serve (h : Closable s) (hleft : 1 < s.start.left) :
    ∃ t, s.serve true = some t ∧ t.left < s.left := by
  cases hstart : s.start with
  | service | reset | acceptor | openSocket | accept | handling =>
    refine ⟨_, by simp only [State.serve, hstart]; rfl, ?_⟩
    simp [State.left, hstart, Start.next, Start.left]
  | setOption | bind | listen =>
    have husable := h.usable (by rw [hstart]; rfl)
    refine ⟨_, by simp only [State.serve, hstart, if_pos husable]; rfl, ?_⟩
    simp [State.left, hstart, Start.next, Start.left]
  | run | returned =>
    rw [hstart] at hleft
    exact absurd hleft (by decide)

theorem Closable.exists_step (h : Closable s) (hjoined : Joined s) (hclosed : s.destroy ≠ .closed) :
    ∃ action t, Timely s action ∧ Dialog.step s action = some t ∧ t.left < s.left := by
  have hact (action : Action) {t : State} (htimely : Timely s action)
      (ht : s.act action = some t) (hlt : t.left < s.left) :
      ∃ action t, Timely s action ∧ Dialog.step s action = some t ∧ t.left < s.left :=
    ⟨action, t, htimely, step_eq_some.mpr ⟨h.alive, ht⟩, hlt⟩
  by_cases hleft : 1 < s.start.left
  · obtain ⟨t, ht, hlt⟩ := h.exists_serve hleft
    exact hact (.serve true) rfl ht hlt
  have hwaits : s.start = .run ∨ s.start = .returned := by
    cases hstart : s.start <;> simp_all [Start.left]
  have htimely : Timely s .destroy := by
    refine ⟨fun _ => h.created.mpr (by omega), fun _ => ?_⟩
    obtain hstart | hstart := hwaits <;> rw [hstart] <;> rfl
  cases hdestroy : s.destroy with
  | shown | close | stop | destroyWindow =>
    refine hact .destroy htimely (by simp only [State.act, State.onDestroy, hdestroy]; rfl) ?_
    simp [State.left, hdestroy, Destroy.left]
  | check =>
    have hfound := htimely.1 hdestroy
    refine hact .destroy htimely
      (by simp only [State.act, State.onDestroy, hdestroy, if_pos hfound]; rfl) ?_
    simp [State.left, hdestroy, Destroy.left]
  | join =>
    obtain hrun | hreturned := hwaits
    · have hstopped : s.stopped := h.stopped.mpr (by rw [hdestroy]; decide)
      refine hact (.serve true) rfl (by simp only [State.act, State.serve, hrun, hstopped]; rfl) ?_
      simp [State.left, hrun, Start.left]
    · refine hact .destroy htimely
        (by simp only [State.act, State.onDestroy, hdestroy, if_pos hreturned]; rfl) ?_
      simp [State.left, hdestroy, Destroy.left]
  | joinRender =>
    have htold : s.stopThreads := hjoined.told.mpr (by rw [hdestroy]; decide)
    cases hrender : s.render with
    | check =>
      refine hact .render trivial
        (by simp only [State.act, State.renderLoop, hrender, htold]; rfl) ?_
      simp [State.left, hrender, Render.left]
    | frame =>
      refine hact .render trivial (by simp only [State.act, State.renderLoop, hrender]; rfl) ?_
      simp [State.left, hrender, Render.left]
    | returned =>
      refine hact .destroy htimely
        (by simp only [State.act, State.onDestroy, hdestroy, if_pos hrender]; rfl) ?_
      simp [State.left, hdestroy, Destroy.left]
  | closed => exact absurd hdestroy hclosed

theorem closes_iff_of_run {actions : List Action} (hrun : Lts.run step {} actions = some u) :
    ((∃ more v, Lts.run step u more = some v ∧ v.destroy = .closed) ↔
        Lts.Along step Timely {} actions) ∧
      (u.stopThreads → u.start = .returned) ∧
        (u.destroy = .closed → u.start = .returned ∧ u.render = .returned) := by
  have hjoined : Joined u := Lts.invariant (fun _ _ _ h ht => h.step ht) joined_start hrun
  refine ⟨⟨fun ⟨more, v, hmore, hclosed⟩ => ?_, fun htimely => ?_⟩, fun htold => ?_,
    fun hclosed => ?_⟩
  · obtain ⟨htimely, -⟩ | hdoomed := Lts.along_or (fun _ _ _ h hl ht => h.step hl ht)
      (fun _ _ _ h hl ht => h.doomed hl ht) (fun _ _ _ h ht => Doomed.step h ht) closable_start hrun
    · exact htimely
    · -- the server's thread would have to return
      have hv : Joined v := Lts.invariant (fun _ _ _ h ht => h.step ht) hjoined hmore
      have hne := (Lts.invariant (fun _ _ _ h ht => Doomed.step h ht) hdoomed hmore).ne_returned
      exact absurd (hv.server (by rw [hclosed]; decide)) hne
  · have h : Closable u := htimely.invariant (fun _ _ _ h hl ht => h.step hl ht) closable_start hrun
    refine Lts.exists_run (I := fun s => Closable s ∧ Joined s) State.left ?_ ⟨h, hjoined⟩
    intro s ⟨h, hjoined⟩ hclosed
    obtain ⟨action, t, htimely, ht, hlt⟩ := h.exists_step hjoined hclosed
    exact ⟨action, t, ht, ⟨h.step htimely ht, hjoined.step ht⟩, hlt⟩
  · exact hjoined.server (Nat.le_succ_of_le (hjoined.told.mp htold))
  · exact ⟨hjoined.server (by rw [hclosed]; decide), hjoined.render hclosed⟩

def closedEarly : List Action :=
  [.serve true, .destroy, .destroy] ++ List.replicate 9 (.serve true)

theorem isSome_closedEarly : (Lts.run step {} closedEarly).isSome := by decide

theorem closes_iff_of_run_closedEarly : ∃ u, Lts.run step {} closedEarly = some u ∧
    ((∃ more v, Lts.run step u more = some v ∧ v.destroy = .closed) ↔
        Lts.Along step Timely {} closedEarly) ∧
      (u.stopThreads → u.start = .returned) ∧
        (u.destroy = .closed → u.start = .returned ∧ u.render = .returned) :=
  ⟨_, (Option.some_get isSome_closedEarly).symm,
    closes_iff_of_run (Option.some_get isSome_closedEarly).symm⟩

end DanmakuChicken.Dialog
