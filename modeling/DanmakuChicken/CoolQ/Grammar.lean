import DanmakuChicken.CoolQ.Frame

namespace DanmakuChicken.CoolQ

variable (codec : Codec)

/-- The token lists that stand for a frame: a row's prefix and as many tokens as its class has
fields, which are the values save that the text of a message is encoded. -/
inductive Accepts : List Str → Frame → Prop
  | plain {row : FrameType} {frameClass : FrameClass} {tokens : List Str}
      (hrow : row ∈ frameTypes) (hrcvd : row.rcvd = some frameClass)
      (hplain : frameClass.isRcvdMessage = false)
      (arity : tokens.length = frameClass.fields.length) :
      Accepts (row.framePrefix :: tokens) ⟨frameClass, tokens, arity⟩
  | message {row : FrameType} {frameClass : FrameClass} {tokens : List Str} {payload text : Str}
      (hrow : row ∈ frameTypes) (hrcvd : row.rcvd = some frameClass)
      (hmessage : frameClass.isRcvdMessage = true) (htext : decodeText codec payload = .ok text)
      (arity : (tokens ++ [text]).length = frameClass.fields.length) :
      Accepts (row.framePrefix :: (tokens ++ [payload])) ⟨frameClass, tokens ++ [text], arity⟩

variable {codec}

theorem nodup_prefixes : (frameTypes.map FrameType.framePrefix).Nodup := by decide

theorem call_eq_ok_iff {entry : Option FrameClass} {payload : List Str} {frame : Frame} :
    call entry payload = .ok frame ↔ entry = some frame.frameClass ∧ frame.values = payload := by
  cases entry with
  | none => simp [call]
  | some frameClass =>
    obtain ⟨c, values, arity⟩ := frame
    simp only [call, Option.some.injEq]
    split_ifs with h
    · simp only [Except.ok.injEq, Frame.mk.injEq]
      exact and_congr_right fun _ => eq_comm
    · simp only [false_iff, not_and]
      rintro rfl rfl
      exact h arity

theorem mapLast_concat (f : Str → Except Raised Str) (payload : List Str) (last : Str) :
    mapLast f (payload ++ [last]) = return payload ++ [← f last] := by
  simp [mapLast]

theorem mapLast_eq_ok_iff {f : Str → Except Raised Str} {payload values : List Str} :
    mapLast f payload = .ok values ↔
      ∃ init last text, payload = init ++ [last] ∧ f last = .ok text ∧ values = init ++ [text] := by
  rcases List.eq_nil_or_concat payload with rfl | ⟨init, last, rfl⟩
  · simp [mapLast]
  · rw [List.concat_eq_append, mapLast_concat]
    cases h : f last with
    | error e =>
      simp [bind, Except.bind, h]
    | ok text =>
      simp [bind, Except.bind, pure, Except.pure, h, eq_comm]

section lookup

variable {name : Str} {payload : List Str} {rows : List FrameType} {frame : Option Frame}

theorem lookup_of_not_mem (h : name ∉ rows.map FrameType.framePrefix) :
    lookup name payload rows frame = .ok frame := by
  induction rows with
  | nil => rfl
  | cons row rows ih =>
    rw [List.map_cons, List.mem_cons, not_or] at h
    rw [lookup, List.foldlM_cons, if_neg h.1]
    exact ih h.2

theorem lookup_of_mem {row : FrameType} (hrows : (rows.map FrameType.framePrefix).Nodup)
    (hrow : row ∈ rows) :
    lookup row.framePrefix payload rows frame = some <$> call row.rcvd payload := by
  induction rows with
  | nil => cases hrow
  | cons row' rows ih =>
    rw [List.map_cons, List.nodup_cons] at hrows
    rw [lookup, List.foldlM_cons]
    rcases List.mem_cons.mp hrow with rfl | hrow
    · rw [if_pos rfl]
      cases h : call row.rcvd payload with
      | error e => rfl
      | ok f => exact lookup_of_not_mem hrows.1
    · have hne : row.framePrefix ≠ row'.framePrefix := by
        intro heq
        apply hrows.1
        rw [← heq]
        exact List.mem_map_of_mem hrow
      rw [if_neg hne]
      exact ih hrows.2 hrow

end lookup

theorem bind_eq_ok_iff {α β : Type} {x : Except Raised α} {f : α → Except Raised β} {b : β} :
    (x >>= f) = .ok b ↔ ∃ a, x = .ok a ∧ f a = .ok b := by
  cases x with
  | error e => simp [bind, Except.bind]
  | ok a => simp [bind, Except.bind]

theorem loadFrame_of_row {row : FrameType} (hrow : row ∈ frameTypes) (payload : List Str) :
    loadFrame codec (.list (row.framePrefix :: payload)) = do
      let frame ← call row.rcvd payload
      return some (← decodeFrame codec payload frame) := by
  have hlookup : lookup row.framePrefix payload frameTypes none =
      some <$> call row.rcvd payload := lookup_of_mem nodup_prefixes hrow
  simp only [loadFrame, Data.parts, bind, Except.bind, hlookup]
  cases call row.rcvd payload with
  | error e => rfl
  | ok frame => rfl

theorem loadFrame_of_unknown {name : Str} (h : name ∉ frameTypes.map FrameType.framePrefix)
    (payload : List Str) : loadFrame codec (.list (name :: payload)) = .ok none := by
  simp only [loadFrame, Data.parts, bind, Except.bind, lookup_of_not_mem h]
  rfl

theorem decodeFrame_eq_ok_iff {payload : List Str} {f frame : Frame} :
    decodeFrame codec payload f = .ok frame ↔
      (f.frameClass.isRcvdMessage = false ∧ frame = f) ∨
        (f.frameClass.isRcvdMessage = true ∧ frame.frameClass = f.frameClass ∧
          mapLast (decodeText codec) payload = .ok frame.values) := by
  rw [decodeFrame]
  split_ifs with hmessage
  · simp only [bind_eq_ok_iff, call_eq_ok_iff, Option.some.injEq, hmessage, Bool.true_eq_false,
      false_and, false_or, true_and]
    constructor
    · rintro ⟨values, hvalues, hclass, rfl⟩
      exact ⟨hclass.symm, hvalues⟩
    · rintro ⟨hclass, hvalues⟩
      exact ⟨_, hvalues, hclass.symm, rfl⟩
  · have hplain : f.frameClass.isRcvdMessage = false := by simpa using hmessage
    simp only [pure, Except.pure, Except.ok.injEq, hplain, true_and, Bool.false_eq_true, false_and,
      or_false]
    exact eq_comm

theorem loadFrame_of_accepts {parts : List Str} {frame : Frame} (h : Accepts codec parts frame) :
    loadFrame codec (.list parts) = .ok (some frame) := by
  cases h with
  | @plain row frameClass tokens hrow hrcvd hplain arity =>
    have hcall : call row.rcvd tokens = .ok ⟨frameClass, tokens, arity⟩ :=
      call_eq_ok_iff.mpr ⟨hrcvd, rfl⟩
    have hdecode : decodeFrame codec tokens ⟨frameClass, tokens, arity⟩ = .ok _ :=
      decodeFrame_eq_ok_iff.mpr (.inl ⟨hplain, rfl⟩)
    rw [loadFrame_of_row hrow]
    simp only [hcall, hdecode, bind, Except.bind, pure, Except.pure]
  | @message row frameClass tokens payload text hrow hrcvd hmessage htext arity =>
    have harity : (tokens ++ [payload]).length = frameClass.fields.length := by
      simpa using arity
    have hcall : call row.rcvd (tokens ++ [payload]) = .ok ⟨frameClass, tokens ++ [payload], harity⟩ :=
      call_eq_ok_iff.mpr ⟨hrcvd, rfl⟩
    have hdecode : decodeFrame codec (tokens ++ [payload])
        ⟨frameClass, tokens ++ [payload], harity⟩ = .ok ⟨frameClass, tokens ++ [text], arity⟩ :=
      decodeFrame_eq_ok_iff.mpr
        (.inr ⟨hmessage, rfl, mapLast_eq_ok_iff.mpr ⟨tokens, payload, text, rfl, htext, rfl⟩⟩)
    rw [loadFrame_of_row hrow]
    simp only [hcall, hdecode, bind, Except.bind, pure, Except.pure]

theorem accepts_of_loadFrame {parts : List Str} {frame : Frame}
    (h : loadFrame codec (.list parts) = .ok (some frame)) : Accepts codec parts frame := by
  cases parts with
  | nil => simp [loadFrame, Data.parts, bind, Except.bind, throw, throwThe, MonadExceptOf.throw] at h
  | cons name payload =>
    by_cases hname : name ∈ frameTypes.map FrameType.framePrefix
    · obtain ⟨row, hrow, rfl⟩ := List.mem_map.mp hname
      rw [loadFrame_of_row hrow] at h
      obtain ⟨f, hcall, hrest⟩ := bind_eq_ok_iff.mp h
      obtain ⟨frame', hdecode, hframe⟩ := bind_eq_ok_iff.mp hrest
      obtain rfl : frame' = frame := by simpa [pure, Except.pure] using hframe
      obtain ⟨hrcvd, rfl⟩ := call_eq_ok_iff.mp hcall
      obtain ⟨frameClass, values, arity⟩ := frame'
      obtain ⟨hplain, rfl⟩ | ⟨hmessage, hclass, hvalues⟩ := decodeFrame_eq_ok_iff.mp hdecode
      · exact .plain hrow hrcvd hplain arity
      · obtain ⟨tokens, last, text, hf, htext, hdecoded⟩ := mapLast_eq_ok_iff.mp hvalues
        dsimp only at hclass hdecoded
        subst hclass hdecoded
        rw [hf]
        exact .message hrow hrcvd hmessage htext arity
    · rw [loadFrame_of_unknown hname] at h
      cases h

theorem loadFrame_eq_some_iff {parts : List Str} {frame : Frame} :
    loadFrame codec (.list parts) = .ok (some frame) ↔ Accepts codec parts frame :=
  ⟨accepts_of_loadFrame, loadFrame_of_accepts⟩

theorem accepts_unique {parts : List Str} {frame frame' : Frame} (h : Accepts codec parts frame)
    (h' : Accepts codec parts frame') : frame = frame' := by
  have hload := loadFrame_of_accepts h
  rw [loadFrame_of_accepts h'] at hload
  exact (Option.some.inj (Except.ok.inj hload)).symm

end DanmakuChicken.CoolQ
