import DanmakuChicken.Http.Server
import DanmakuChicken.SimpleWeb.Sequence

/-! The server's thread and those of the window.  Between two critical sections of a call of
`AddDanmaku`, danmakus are added, moved and erased; but the server's thread runs no other handler
before its call has returned. -/

namespace DanmakuChicken.Http.Threads

open Overlay SimpleWeb

def act (w : World) (a : Action) : World := (w.step a).getD w

section

variable (readJson : List UInt8 → Except String (Json String)) (gdi : Gdi)

/-- `HandleAddDanmaku`, whose call of `AddDanmaku` is only begun. -/
def handleAddDanmaku (w : World) (body : Str) : Response × World :=
  match posted readJson body with
  | .ok content => (.success, act w (.call content (gdi content w.manager.danmakuSize)))
  | .error what => (.failure what, w)

def resource : SimpleWeb.Resource World := fun w request content =>
  (findResource [(danmakuRegex, [(literal "POST", handleAddDanmaku readJson gdi)])] []
    request).map fun handler =>
      let (response, w) := handler w content
      (w, Utf8.encode response.text, false)

/-- The connection that a call of `AddDanmaku` is for, none if the window makes it, and the
content. -/
abbrev Caller := Option ℕ × CString

structure Tracked where
  world : World
  callers : List Caller := []
  pushed : List Caller := []

namespace Tracked

def pushedAt (t : Tracked) (k : ℕ) : List Caller :=
  match t.callers[k]?, t.world.calls[k]? with
  | some caller, some (.inserting danmaku _) => [(caller.1, danmaku.content)]
  | _, _ => []

def track (t : Tracked) : SimpleWeb.Entry ⊕ Action → Tracked
  | .inl e =>
    match posted readJson e.content with
    | .ok content =>
      { t with
        world := act t.world (.call content (gdi content t.world.manager.danmakuSize))
        callers := t.callers ++ [(some e.connection, content)] }
    | .error _ => t
  | .inr (.call content drawn) =>
    { t with
      world := act t.world (.call content drawn)
      callers := t.callers ++ [(none, content)] }
  | .inr (.critical k) =>
    { t with
      world := act t.world (.critical k)
      pushed := t.pushed ++ t.pushedAt k }
  | .inr a => { t with world := act t.world a }

def Idle (t : Tracked) : Prop :=
  ∀ p ∈ t.callers.zip t.world.calls, p.1.1.isSome → p.2 = .returned

instance (t : Tracked) : Decidable t.Idle := by
  unfold Idle; infer_instance

end Tracked

def tracked (m : DanmakuManager) (history : List (SimpleWeb.Entry ⊕ Action)) : Tracked :=
  history.foldl (Tracked.track readJson gdi) { world := ⟨m, []⟩ }

/-- The handlers of the server run one after the other. -/
def OneThread (m : DanmakuManager) (s : Server World Action) :
    (ℕ × Connection.Action) ⊕ Action → Prop
  | .inl (_, .read (.arrive _)) | .inr _ => True
  | .inl _ => (tracked readJson gdi m s.history).Idle

instance (m : DanmakuManager) (s : Server World Action) :
    (a : (ℕ × Connection.Action) ⊕ Action) → Decidable (OneThread readJson gdi m s a)
  | .inl (_, .read (.arrive _)) | .inr _ => isTrue trivial
  | .inl (_, .read (.receive _)) | .inl (_, .read .complete) | .inl (_, .read .close)
  | .inl (_, .sent) | .inl (_, .fail) => inferInstanceAs (Decidable (Tracked.Idle _))

end

def danmaku? : Call → Option Danmaku
  | .searching danmaku | .inserting danmaku _ => some danmaku
  | .returned => none

theorem danmaku?_critical {box : Size} {set set' : List Danmaku} {c c' : Call} {d' : Danmaku}
    (h : c.critical box set = some (set', c')) (hd' : danmaku? c' = some d') :
    ∃ d, danmaku? c = some d ∧ d.content = d'.content := by
  obtain ⟨d, e, rfl, hscan, -, -, rfl⟩ | ⟨d, e, rfl, hscan, -, -, rfl⟩ | ⟨d, rfl, -, -, rfl⟩ |
    ⟨d, hit, rfl, -, rfl⟩ := Call.critical_cases h
  · cases hd'
    obtain ⟨i, -, -, rfl⟩ := exists_of_scan_hit hscan
    exact ⟨d, rfl, rfl⟩
  · cases hd'
    obtain ⟨i, -, -, rfl⟩ := exists_of_scan_hit hscan
    exact ⟨d, rfl, rfl⟩
  · cases hd'
    exact ⟨_, rfl, rfl⟩
  · cases hd'

def own (callers : List Caller) : List Caller := callers.filter (·.1.isSome)

namespace Tracked

variable {t : Tracked}

def IdleBut (t : Tracked) (k : ℕ) : Prop :=
  ∀ j caller c, t.callers[j]? = some caller → caller.1.isSome = true →
    t.world.calls[j]? = some c → c = .returned ∨ j = k

theorem idle_iff : t.Idle ↔ ∀ (k : ℕ) (caller : Caller) (c : Call), t.callers[k]? = some caller →
    caller.1.isSome = true → t.world.calls[k]? = some c → c = .returned := by
  constructor
  · intro h k caller c hcaller hsome hc
    exact h (caller, c) (List.mem_iff_getElem?.mpr
      ⟨k, List.getElem?_zip_eq_some.mpr ⟨hcaller, hc⟩⟩) hsome
  · rintro h ⟨caller, c⟩ hp hsome
    obtain ⟨k, hk⟩ := List.mem_iff_getElem?.mp hp
    obtain ⟨hcaller, hc⟩ := List.getElem?_zip_eq_some.mp hk
    exact h k caller c hcaller hsome hc

/-- What the server's calls have pushed is what they were made for, in order, except for the call
that has not returned yet. -/
inductive InOrder (t : Tracked) : Prop
  | idle (hidle : t.Idle) (hpushed : own t.callers = own t.pushed)
  | busy {k : ℕ} {caller : Caller} {c : Call} (hcaller : t.callers[k]? = some caller)
    (hsome : caller.1.isSome = true) (hc : t.world.calls[k]? = some c) (hne : c ≠ .returned)
    (hothers : t.IdleBut k) (hpushed : own t.callers = own t.pushed ++ [caller])

structure Inv (t : Tracked) : Prop where
  length : t.callers.length = t.world.calls.length
  content : ∀ (k : ℕ) (caller : Caller) (c : Call) (d : Danmaku), t.callers[k]? = some caller →
    t.world.calls[k]? = some c → danmaku? c = some d → d.content = caller.2
  inOrder : t.InOrder

theorem InOrder.pushed_of_idle (h : t.InOrder) (hidle : t.Idle) :
    own t.pushed = own t.callers := by
  cases h with
  | idle _ hpushed => exact hpushed.symm
  | busy hcaller hsome hc hne _ _ => exact absurd (idle_iff.mp hidle _ _ _ hcaller hsome hc) hne

theorem InOrder.of_running (h : t.InOrder) {k : ℕ} {caller : Caller} {c : Call}
    (hcaller : t.callers[k]? = some caller) (hsome : caller.1.isSome = true)
    (hc : t.world.calls[k]? = some c) (hne : c ≠ .returned) :
    t.IdleBut k ∧ own t.callers = own t.pushed ++ [caller] := by
  cases h with
  | idle hidle _ => exact absurd (idle_iff.mp hidle k caller c hcaller hsome hc) hne
  | @busy k' running _ hrunning _ _ _ hothers hpushed =>
    obtain rfl : k = k' := (hothers k caller c hcaller hsome hc).resolve_left hne
    obtain rfl : caller = running := Option.some.inj (hcaller.symm.trans hrunning)
    exact ⟨hothers, hpushed⟩

theorem InOrder.congr {u : Tracked} (h : t.InOrder)
    (hsame : ∀ (k : ℕ) (caller : Caller) (c : Call), caller.1.isSome = true →
      (u.callers[k]? = some caller ∧ u.world.calls[k]? = some c ↔
        t.callers[k]? = some caller ∧ t.world.calls[k]? = some c))
    (hcallers : own u.callers = own t.callers) (hpushed : own u.pushed = own t.pushed) :
    u.InOrder := by
  cases h with
  | idle hidle heq =>
    refine .idle (idle_iff.mpr fun k caller c hcaller hsome hc => ?_)
      (by rw [hcallers, heq, hpushed])
    obtain ⟨hcaller, hc⟩ := (hsame k caller c hsome).mp ⟨hcaller, hc⟩
    exact idle_iff.mp hidle k caller c hcaller hsome hc
  | busy hcaller hsome hc hne hothers heq =>
    obtain ⟨hcaller', hc'⟩ := (hsame _ _ _ hsome).mpr ⟨hcaller, hc⟩
    refine .busy hcaller' hsome hc' hne (fun j other e hother hsome he => ?_)
      (by rw [hcallers, heq, hpushed])
    obtain ⟨hother, he⟩ := (hsame j other e hsome).mp ⟨hother, he⟩
    exact hothers j other e hother hsome he

theorem Inv.enter (h : t.Inv) (caller : Caller) (drawn : Drawing)
    (hidle : caller.1.isSome = true → t.Idle) :
    Inv { t with
      world := act t.world (.call caller.2 drawn)
      callers := t.callers ++ [caller] } := by
  let entered : Call := .enter t.world.manager.danmakuBoxSize caller.2 drawn
  have hcalls : (act t.world (.call caller.2 drawn)).calls = t.world.calls ++ [entered] := rfl
  have hcases {k : ℕ} {other : Caller} {c : Call}
      (hother : (t.callers ++ [caller])[k]? = some other)
      (hc : (act t.world (.call caller.2 drawn)).calls[k]? = some c) :
      (t.callers[k]? = some other ∧ t.world.calls[k]? = some c) ∨
        k = t.world.calls.length ∧ other = caller ∧ c = entered := by
    rw [hcalls] at hc
    obtain ⟨hk, rfl⟩ | ⟨hk, hc⟩ := Slots.getElem?_concat_cases hc
    · obtain ⟨-, rfl⟩ | ⟨hne, -⟩ := Slots.getElem?_concat_cases hother
      · exact .inr ⟨hk, rfl, rfl⟩
      · exact absurd (hk.trans h.length.symm) hne
    · obtain ⟨heq, -⟩ | ⟨-, hother⟩ := Slots.getElem?_concat_cases hother
      · exact absurd (heq.trans h.length) hk
      · exact .inl ⟨hother, hc⟩
  refine ⟨by rw [hcalls, List.length_append, List.length_append, h.length]; rfl, ?_, ?_⟩
  · intro k other c d hother hc hd
    obtain ⟨hother, hc⟩ | ⟨-, rfl, rfl⟩ := hcases hother hc
    · exact h.content k other c d hother hc hd
    · cases hd
      rfl
  by_cases hsome : caller.1.isSome = true
  · have hreturned := idle_iff.mp (hidle hsome)
    have hown : own (t.callers ++ [caller]) = own t.callers ++ [caller] := by
      simp [own, List.filter_append, hsome]
    refine .busy (k := t.world.calls.length) (c := entered) ?_ hsome ?_ nofun ?_ ?_
    · rw [← h.length, List.getElem?_concat_length]
    · rw [hcalls, List.getElem?_concat_length]
    · intro k other c hother hsome hc
      obtain ⟨hother, hc⟩ | ⟨rfl, -, -⟩ := hcases hother hc
      · exact .inl (hreturned k other c hother hsome hc)
      · exact .inr rfl
    · rw [hown, h.inOrder.pushed_of_idle (hidle hsome)]
  · refine h.inOrder.congr (fun k other c hother => ?_) (by simp [own, List.filter_append, hsome])
      rfl
    constructor
    · rintro ⟨hget, hc⟩
      obtain hold | ⟨-, rfl, -⟩ := hcases hget hc
      · exact hold
      · exact absurd hother hsome
    · rintro ⟨hget, hc⟩
      rw [hcalls]
      exact ⟨Slots.getElem?_concat_left hget, Slots.getElem?_concat_left hc⟩

theorem Inv.of_calls (h : t.Inv) {w : World} (hcalls : w.calls = t.world.calls) :
    Inv { t with world := w } := by
  refine ⟨by rw [hcalls]; exact h.length, ?_, ?_⟩
  · intro k caller c d hcaller hc
    rw [hcalls] at hc
    exact h.content k caller c d hcaller hc
  · exact h.inOrder.congr (fun k caller c _ => by rw [hcalls]) rfl rfl

theorem pushedAt_of_step_none {k : ℕ} (h : t.world.step (.critical k) = none) :
    t.pushedAt k = [] := by
  unfold pushedAt
  split
  · next caller danmaku hit _ hc =>
    obtain ⟨w, hw⟩ := World.step_critical_isSome hc nofun
    rw [h] at hw
    cases hw
  · rfl

theorem Inv.pushedAt_cases (h : t.Inv) {k : ℕ} {caller : Caller} {c c' : Call} {box : Size}
    {set set' : List Danmaku} (hcaller : t.callers[k]? = some caller)
    (hc : t.world.calls[k]? = some c) (hcritical : c.critical box set = some (set', c')) :
    c ≠ .returned ∧
      (c' ≠ .returned ∧ t.pushedAt k = [] ∨ c' = .returned ∧ t.pushedAt k = [caller]) := by
  obtain ⟨d, e, rfl, -, -, -, rfl⟩ | ⟨d, e, rfl, -, -, -, rfl⟩ | ⟨d, rfl, -, -, rfl⟩ |
    ⟨d, hit, rfl, -, rfl⟩ := Call.critical_cases hcritical
  · exact ⟨nofun, .inl ⟨nofun, by simp [pushedAt, hcaller, hc]⟩⟩
  · exact ⟨nofun, .inl ⟨nofun, by simp [pushedAt, hcaller, hc]⟩⟩
  · exact ⟨nofun, .inl ⟨nofun, by simp [pushedAt, hcaller, hc]⟩⟩
  · have hcontent := h.content k caller _ d hcaller hc rfl
    exact ⟨nofun, .inr ⟨rfl, by simp [pushedAt, hcaller, hc, hcontent]⟩⟩

theorem Inv.critical (h : t.Inv) (k : ℕ) :
    Inv { t with
      world := act t.world (.critical k)
      pushed := t.pushed ++ t.pushedAt k } := by
  cases hstep : t.world.step (.critical k) with
  | none =>
    have hact : act t.world (.critical k) = t.world := by rw [act, hstep]; rfl
    rw [hact, pushedAt_of_step_none hstep, List.append_nil]
    exact h
  | some w =>
    obtain ⟨c, c', set, hc, hcritical, rfl⟩ := World.step_critical_eq_some hstep
    have hact : act t.world (.critical k) =
        { t.world.setSet set with calls := t.world.calls.set k c' } := by rw [act, hstep]; rfl
    obtain ⟨hlt, -⟩ := List.getElem?_eq_some_iff.mp hc
    obtain ⟨caller, hcaller⟩ : ∃ caller, t.callers[k]? = some caller :=
      ⟨_, List.getElem?_eq_getElem (h.length ▸ hlt)⟩
    obtain ⟨hne, hpushedAt⟩ := h.pushedAt_cases hcaller hc hcritical
    have hget : (t.world.calls.set k c')[k]? = some c' := Slots.getElem?_set_self hc
    rw [hact]
    refine ⟨by simpa using h.length, ?_, ?_⟩
    · intro j other e d hother he hd
      obtain ⟨rfl, rfl⟩ | ⟨-, he⟩ := Slots.getElem?_set_cases he
      · obtain ⟨d', hd', heq⟩ := danmaku?_critical hcritical hd
        rw [← heq]
        exact h.content j other c d' hother hc hd'
      · exact h.content j other e d hother he hd
    by_cases hsome : caller.1.isSome = true
    · obtain ⟨hothers, hpushed⟩ := h.inOrder.of_running hcaller hsome hc hne
      obtain ⟨hne', hnone⟩ | ⟨rfl, hone⟩ := hpushedAt
      · refine .busy hcaller hsome hget hne' ?_ (by rw [hnone, List.append_nil]; exact hpushed)
        intro j other e hother hsome he
        obtain ⟨rfl, -⟩ | ⟨-, he⟩ := Slots.getElem?_set_cases he
        · exact .inr rfl
        · exact hothers j other e hother hsome he
      · refine .idle (idle_iff.mpr fun j other e hother hsome he => ?_) ?_
        · obtain ⟨rfl, rfl⟩ | ⟨hjk, he⟩ := Slots.getElem?_set_cases he
          · rfl
          · exact (hothers j other e hother hsome he).resolve_right hjk
        · rw [hone, hpushed]
          simp [own, List.filter_append, hsome]
    · have hown : own (t.pushed ++ t.pushedAt k) = own t.pushed := by
        obtain ⟨-, hnone⟩ | ⟨-, hone⟩ := hpushedAt
        · rw [hnone, List.append_nil]
        · simp [hone, own, List.filter_append, hsome]
      refine h.inOrder.congr (fun j other e hother => and_congr_right fun hget => ?_) rfl hown
      have hkj : k ≠ j := by
        rintro rfl
        cases hcaller.symm.trans hget
        exact hsome hother
      rw [List.getElem?_set_ne hkj]

end Tracked

section Run

variable {readJson : List UInt8 → Except String (Json String)} {gdi : Gdi} {m : DanmakuManager}

theorem Tracked.Inv.track {t : Tracked} (h : t.Inv) {event : SimpleWeb.Entry ⊕ Action}
    (hidle : event.isLeft → t.Idle) : (t.track readJson gdi event).Inv := by
  cases event with
  | inl e =>
    simp only [Tracked.track]
    cases posted readJson e.content with
    | ok content => exact h.enter (some e.connection, content) _ fun _ => hidle rfl
    | error what => exact h
  | inr a =>
    cases a with
    | call content drawn => exact h.enter (none, content) drawn nofun
    | critical k => exact h.critical k
    | updateDanmaku => exact h.of_calls rfl
    | onHScroll slider nPos => exact h.of_calls rfl

theorem Tracked.pushed_isPrefix_track (t : Tracked) (event : SimpleWeb.Entry ⊕ Action) :
    t.pushed <+: (t.track readJson gdi event).pushed := by
  cases event with
  | inl e =>
    simp only [Tracked.track]
    cases posted readJson e.content <;> exact List.prefix_rfl
  | inr a =>
    cases a with
    | critical k => exact List.prefix_append _ _
    | call | updateDanmaku | onHScroll => exact List.prefix_rfl

theorem tracked_concat (history : List (SimpleWeb.Entry ⊕ Action))
    (event : SimpleWeb.Entry ⊕ Action) :
    tracked readJson gdi m (history ++ [event]) =
      (tracked readJson gdi m history).track readJson gdi event := by
  simp [tracked, List.foldl_append]

def contents (i : ℕ) (callers : List Caller) : List CString :=
  (callers.filter (·.1 = some i)).map Prod.snd

theorem contents_own (i : ℕ) (callers : List Caller) :
    contents i (own callers) = contents i callers := by
  have hboth (caller : Caller) : (decide (caller.1 = some i) && caller.1.isSome) =
      decide (caller.1 = some i) := by
    cases h : caller.1 <;> simp
  simp only [contents, own, List.filter_filter, hboth]

theorem contents_tracked (readJson : List UInt8 → Except String (Json String)) (gdi : Gdi)
    (m : DanmakuManager) (i : ℕ) (history : List (SimpleWeb.Entry ⊕ Action)) :
    contents i (tracked readJson gdi m history).callers =
      ((history.filterMap Sum.getLeft?).filter (·.connection = i)).filterMap fun e =>
        (posted readJson e.content).toOption := by
  induction history using List.reverseRecOn with
  | nil => rfl
  | append_singleton history event ih =>
    rw [tracked_concat, List.filterMap_append, List.filter_append, List.filterMap_append, ← ih]
    cases event with
    | inl e =>
      simp only [Tracked.track]
      cases hposted : posted readJson e.content with
      | ok content =>
        by_cases hi : e.connection = i <;>
          simp [contents, List.filter_append, hi, hposted, Except.toOption]
      | error what =>
        by_cases hi : e.connection = i <;> simp [hi, hposted, Except.toOption]
    | inr a => cases a <;> simp [Tracked.track, contents, List.filter_append]

structure Sound (readJson : List UInt8 → Except String (Json String)) (gdi : Gdi)
    (m : DanmakuManager) (s : Server World Action) : Prop where
  logged : Server.Logged act (resource readJson gdi) ⟨m, []⟩ s
  inv : (tracked readJson gdi m s.history).Inv
  sent : ∀ i, (s.connection i).sent.length ≤
    (contents i (tracked readJson gdi m s.history).pushed).length +
      (s.entries i).countP fun e => (posted readJson e.content).toOption.isNone

variable {s t : Server World Action} {i : ℕ}

theorem Sound.pushed_of_idle (h : Sound readJson gdi m s)
    (hidle : (tracked readJson gdi m s.history).Idle) (i : ℕ) :
    contents i (tracked readJson gdi m s.history).pushed =
      (s.entries i).filterMap fun e => (posted readJson e.content).toOption := by
  rw [← contents_own, h.inv.inOrder.pushed_of_idle hidle, contents_own, contents_tracked]
  rfl

theorem length_filterMap_add_countP {α β : Type} (f : α → Option β) (l : List α) :
    (l.filterMap f).length + l.countP (fun a => (f a).isNone) = l.length := by
  have hnone : (fun a => (f a).isNone) = fun a => decide ¬(f a).isSome := by
    funext a
    cases f a <;> rfl
  rw [hnone, List.length_filterMap_eq_countP, ← List.length_eq_countP_add_countP]

theorem Sound.of_history (h : Sound readJson gdi m s)
    (hlogged : Server.Logged act (resource readJson gdi) ⟨m, []⟩ t)
    (hhistory : t.history = s.history)
    (hsent : ∀ j, (t.connection j).sent = (s.connection j).sent ∨
      (tracked readJson gdi m s.history).Idle) : Sound readJson gdi m t := by
  have hentries (j : ℕ) : t.entries j = s.entries j := by rw [Server.entries, hhistory]; rfl
  refine ⟨hlogged, by rw [hhistory]; exact h.inv, fun j => ?_⟩
  rw [hentries, hhistory]
  obtain heq | hidle := hsent j
  · rw [heq]
    exact h.sent j
  · rw [h.pushed_of_idle hidle, length_filterMap_add_countP, ← hentries]
    simpa using (hlogged.sent_of_history j).length_le

theorem Sound.concat (h : Sound readJson gdi m s)
    (hlogged : Server.Logged act (resource readJson gdi) ⟨m, []⟩ t)
    {event : SimpleWeb.Entry ⊕ Action} (hhistory : t.history = s.history ++ [event])
    (hidle : event.isLeft → (tracked readJson gdi m s.history).Idle)
    (hsent : ∀ j, (t.connection j).sent = (s.connection j).sent) : Sound readJson gdi m t := by
  refine ⟨hlogged, by rw [hhistory, tracked_concat]; exact h.inv.track hidle, fun j => ?_⟩
  have hpushed : contents j (tracked readJson gdi m s.history).pushed <+:
      contents j (tracked readJson gdi m t.history).pushed := by
    rw [hhistory, tracked_concat]
    exact (Tracked.pushed_isPrefix_track _ _).filter _ |>.map _
  have herrors : (s.entries j).countP (fun e => (posted readJson e.content).toOption.isNone) ≤
      (t.entries j).countP fun e => (posted readJson e.content).toOption.isNone := by
    apply List.Sublist.countP_le
    rw [Server.entries, Server.entries, hhistory, List.filterMap_append, List.filter_append]
    exact List.sublist_append_left _ _
  have hold := h.sent j
  have hle := hpushed.length_le
  rw [hsent]
  omega

theorem Sound.step {a : Connection.Action} {bits : ℕ} (h : Sound readJson gdi m s)
    (hthread : OneThread readJson gdi m s (.inl (i, a)))
    (ht : s.connectionStep bits (resource readJson gdi) i a = some t) : Sound readJson gdi m t := by
  have hlogged := h.logged.step ht
  have hsent (hsame : (t.connection i).sent = (s.connection i).sent) (j : ℕ) :
      (t.connection j).sent = (s.connection j).sent := by
    by_cases hij : j = i
    · subst hij
      exact hsame
    · rw [Server.connection_of_ne hij ht]
  cases Server.steps_of_step ht with
  | arriveReading | arriveWriting | fail =>
    exact h.of_history hlogged rfl fun j => .inl (hsent (by rw [Server.connection_set_self]) j)
  | sent => exact h.of_history hlogged rfl fun _ => .inr hthread
  | @handled action reading reading' haction hstate hreading =>
    have hidle : (tracked readJson gdi m s.history).Idle := by
      cases action with
      | arrive => cases haction
      | receive | complete | close => exact hthread
    obtain ⟨state, hhandled⟩ | ⟨program, request, response, closeConnection, hhandled⟩ :=
      @Server.handled_cases _ _ (resource readJson gdi) s i reading'
    · rw [hhandled] at hlogged hsent ⊢
      exact h.of_history hlogged rfl fun j => .inl (hsent (by rw [Server.connection_set_self]) j)
    · rw [hhandled] at hlogged hsent ⊢
      exact h.concat hlogged rfl (fun _ => hidle) (hsent (by simp [Server.set]))

end Run

end DanmakuChicken.Http.Threads
