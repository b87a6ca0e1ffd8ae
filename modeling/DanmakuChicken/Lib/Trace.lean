import DanmakuChicken.Lib.Loop

universe u v w

def Except.OnlyErrors {ε : Type v} {α : Type w} (P : ε → Prop) (x : Except ε α) : Prop :=
  ∀ e, x = .error e → P e

namespace Except.OnlyErrors

variable {ε : Type v} {α β : Type w} {P : ε → Prop}

theorem ok (a : α) : (Except.ok a : Except ε α).OnlyErrors P := nofun

theorem error {e : ε} (h : P e) : (Except.error e : Except ε α).OnlyErrors P := by
  intro e' he
  cases he
  exact h

theorem bind {x : Except ε α} {f : α → Except ε β} (hx : x.OnlyErrors P)
    (hf : ∀ a, (f a).OnlyErrors P) : (x >>= f).OnlyErrors P := by
  cases x with
  | ok a => exact hf a
  | error e => exact error (hx e rfl)

end Except.OnlyErrors

structure Trace (ω : Type u) (ε : Type v) (α : Type w) where
  log : List ω
  result : Except ε α

namespace Trace

variable {ω : Type u} {ε : Type v} {α β σ : Type w}

protected def pure (a : α) : Trace ω ε α := ⟨[], .ok a⟩

protected def bind (x : Trace ω ε α) (f : α → Trace ω ε β) : Trace ω ε β :=
  match x.result with
  | .ok a => ⟨x.log ++ (f a).log, (f a).result⟩
  | .error e => ⟨x.log, .error e⟩

instance : Monad (Trace ω ε) where
  pure := Trace.pure
  bind := Trace.bind

def emit (e : ω) : Trace ω ε PUnit := ⟨[e], .ok ⟨⟩⟩

def ofExcept (x : Except ε α) : Trace ω ε α := ⟨[], x⟩

theorem pure_def (a : α) : (pure a : Trace ω ε α) = ⟨[], .ok a⟩ := rfl

theorem bind_ok {x : Trace ω ε α} {a : α} (h : x.result = .ok a) (f : α → Trace ω ε β) :
    (x >>= f) = ⟨x.log ++ (f a).log, (f a).result⟩ := by
  change Trace.bind x f = _
  simp only [Trace.bind, h]

theorem bind_error {x : Trace ω ε α} {e : ε} (h : x.result = .error e)
    (f : α → Trace ω ε β) : (x >>= f) = ⟨x.log, .error e⟩ := by
  change Trace.bind x f = _
  simp only [Trace.bind, h]

@[simp] theorem ofExcept_ok_bind (a : α) (f : α → Trace ω ε β) :
    ((ofExcept (.ok a) : Trace ω ε α) >>= f) = f a := by
  rw [bind_ok rfl]
  rfl

@[simp] theorem ofExcept_error_bind (e : ε) (f : α → Trace ω ε β) :
    ((ofExcept (.error e) : Trace ω ε α) >>= f) = ⟨[], .error e⟩ := bind_error rfl f

@[simp] theorem emit_bind {β : Type} (e : ω) (f : PUnit → Trace ω ε β) :
    (emit e >>= f) = ⟨e :: (f ⟨⟩).log, (f ⟨⟩).result⟩ := bind_ok rfl f

theorem result_bind_eq_error {x : Trace ω ε α} {f : α → Trace ω ε β} {e : ε} :
    (x >>= f).result = .error e ↔
      x.result = .error e ∨ ∃ a, x.result = .ok a ∧ (f a).result = .error e := by
  cases h : x.result with
  | ok a => simp [bind_ok h]
  | error e' => simp [bind_error h]

def forEach (f : β → Trace ω ε PUnit) : List β → Trace ω ε PUnit
  | [] => pure ⟨⟩
  | b :: bs => f b >>= fun _ => forEach f bs

theorem bind_assoc {γ : Type w} (x : Trace ω ε α) (f : α → Trace ω ε β) (g : β → Trace ω ε γ) :
    (x >>= f) >>= g = x >>= fun a => f a >>= g := by
  cases h : x.result with
  | error e => rw [bind_error h, bind_error h, bind_error rfl]
  | ok a =>
    rw [bind_ok h, bind_ok h]
    cases hf : (f a).result with
    | ok b =>
      rw [bind_ok (f := g) hf, bind_ok (f := g) rfl, List.append_assoc]
    | error e => rw [bind_error (f := g) hf, bind_error (f := g) rfl]

theorem pure_bind (a : α) (f : α → Trace ω ε β) : (pure a >>= f) = f a := bind_ok rfl f

@[simp] theorem forEach_nil (f : β → Trace ω ε PUnit) : forEach f [] = pure ⟨⟩ := rfl

@[simp] theorem forEach_cons (f : β → Trace ω ε PUnit) (b : β) (bs : List β) :
    forEach f (b :: bs) = f b >>= fun _ => forEach f bs := rfl

theorem forEach_singleton (f : β → Trace ω ε PUnit) (b : β) : forEach f [b] = f b := by
  rw [forEach_cons, forEach_nil]
  cases h : (f b).result with
  | ok u =>
    rw [bind_ok h, pure_def, List.append_nil]
    cases u
    rw [← h]
  | error e =>
    rw [bind_error h, ← h]

theorem forEach_append (f : β → Trace ω ε PUnit) (bs cs : List β) :
    forEach f (bs ++ cs) = forEach f bs >>= fun _ => forEach f cs := by
  induction bs with
  | nil => exact (pure_bind PUnit.unit fun _ => forEach f cs).symm
  | cons b bs ih => simp only [List.cons_append, forEach_cons, ih, bind_assoc]

theorem forEach_of_ok {f : β → Trace ω ε PUnit} {bs : List β}
    (h : ∀ b ∈ bs, (f b).result = .ok ⟨⟩) :
    forEach f bs = ⟨bs.flatMap fun b => (f b).log, .ok ⟨⟩⟩ := by
  induction bs with
  | nil => rfl
  | cons b bs ih =>
    rw [forEach_cons, bind_ok (h b (by simp)), ih fun c hc => h c (by simp [hc])]
    rfl

theorem forEach_raises_iff {f : β → Trace ω ε PUnit} {bs : List β} :
    (∃ e, (forEach f bs).result = .error e) ↔ ∃ b ∈ bs, ∃ e, (f b).result = .error e := by
  induction bs with
  | nil => simp [pure_def]
  | cons b bs ih =>
    cases h : (f b).result with
    | ok u => simp [bind_ok h, ih, h]
    | error e => simp [bind_error h, h]

def Raises (P : ε → Prop) (x : Trace ω ε α) : Prop := x.result.OnlyErrors P

namespace Raises

variable {P : ε → Prop}

theorem pure (a : α) : (Pure.pure a : Trace ω ε α).Raises P := .ok a

theorem emit (e : ω) : (Trace.emit e : Trace ω ε PUnit).Raises P := .ok _

theorem ofExcept {x : Except ε α} (h : x.OnlyErrors P) :
    (Trace.ofExcept x : Trace ω ε α).Raises P := h

theorem bind {x : Trace ω ε α} {f : α → Trace ω ε β} (hx : x.Raises P)
    (hf : ∀ a, (f a).Raises P) : (x >>= f).Raises P := by
  intro e he
  cases result_bind_eq_error.mp he with
  | inl herror => exact hx e herror
  | inr hrest =>
    obtain ⟨a, -, herror⟩ := hrest
    exact hf a e herror

theorem forEach {f : β → Trace ω ε PUnit} (h : ∀ b, (f b).Raises P) (bs : List β) :
    (Trace.forEach f bs).Raises P := by
  induction bs with
  | nil => exact .pure _
  | cons b bs ih => exact (h b).bind fun _ => ih

end Raises

/-- A pass of `while cond`, over what was traced so far and the loop's own state; the body
yields `none` to break. -/
def whilePass (cond : σ → Bool) (body : σ → Trace ω ε (Option σ)) :
    List ω × σ → (List ω × σ) ⊕ Trace ω ε PUnit
  | (log, s) =>
    if cond s then
      match (body s).result with
      | .ok (some t) => .inl (log ++ (body s).log, t)
      | .ok none => .inr ⟨log ++ (body s).log, .ok ⟨⟩⟩
      | .error e => .inr ⟨log ++ (body s).log, .error e⟩
    else .inr ⟨log, .ok ⟨⟩⟩

section While

variable {cond : σ → Bool} {body : σ → Trace ω ε (Option σ)} {log : List ω} {s : σ}

theorem whilePass_done (h : cond s = false) :
    whilePass cond body (log, s) = .inr ⟨log, .ok ⟨⟩⟩ := by simp [whilePass, h]

theorem whilePass_break (h : cond s = true) (hs : (body s).result = .ok none) :
    whilePass cond body (log, s) = .inr ⟨log ++ (body s).log, .ok ⟨⟩⟩ := by
  simp [whilePass, h, hs]

theorem whilePass_next (h : cond s = true) {t : σ} (hs : (body s).result = .ok (some t)) :
    whilePass cond body (log, s) = .inl (log ++ (body s).log, t) := by simp [whilePass, h, hs]

theorem whilePass_raise (h : cond s = true) {e : ε} (hs : (body s).result = .error e) :
    whilePass cond body (log, s) = .inr ⟨log ++ (body s).log, .error e⟩ := by
  simp [whilePass, h, hs]

end While

end Trace
