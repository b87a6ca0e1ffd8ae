import DanmakuChicken.CoolQ.RoundTrip
import DanmakuChicken.Lib.Trace

namespace DanmakuChicken.CoolQ

variable {ε : Type}

/-- A `FrameListener`: how its handler ends for a message, in a value that counts as true or false
or with an exception, and `isinstance` of a class with its `frame_type`. -/
structure Listener (ε : Type) where
  handler : Frame → Except ε Bool
  frameType : FrameClass → Except ε Bool

inductive Event (ε : Type)
  | unknownMessage (parts : List Str)
  | called (listener : Listener ε) (message : Frame)
  | traceback (e : ε)

def answer (message : Frame) (listener : Listener ε) : Trace (Event ε) ε Bool := do
  if ← Trace.ofExcept (listener.frameType message.frameClass) then
    Trace.emit (.called listener message)
    Trace.ofExcept (listener.handler message)
  else return false

def dispatch (message : Frame) : List (Listener ε) → List (Event ε)
  | [] => []
  | listener :: listeners =>
    let answered := answer message listener
    answered.log ++
      match answered.result with
      | .ok true => []
      | .ok false => dispatch message listeners
      | .error e => .traceback e :: dispatch message listeners

def handle (codec : Codec) (listeners : List (Listener ε)) (data : List UInt8) :
    Trace (Event ε) Raised PUnit := do
  let parts ← Trace.ofExcept (tokens data)
  match (loadFrame codec (.list parts)).toOption.join with
  | none => Trace.emit (.unknownMessage parts)
  | some message => ⟨dispatch message listeners, .ok ⟨⟩⟩

def Event.call? : Event ε → Option (Listener ε × Frame)
  | .called listener message => some (listener, message)
  | _ => none

def calls (log : List (Event ε)) : List (Listener ε × Frame) := log.filterMap Event.call?

def holds : Except ε Bool → Bool
  | .ok b => b
  | .error _ => false

/-- The listeners for a class, in order, up to and including the first whose handler returns a
true value for the message. -/
def addressed (message : Frame) (listeners : List (Listener ε)) : List (Listener ε) :=
  let matching := listeners.filter fun listener => holds (listener.frameType message.frameClass)
  let returnsTrue (listener : Listener ε) := holds (listener.handler message)
  matching.takeWhile (!returnsTrue ·) ++ (matching.find? returnsTrue).toList

section dispatch

variable {message : Frame} {listener : Listener ε} {listeners : List (Listener ε)}

theorem addressed_of_not_matching (h : holds (listener.frameType message.frameClass) = false) :
    addressed message (listener :: listeners) = addressed message listeners := by
  simp only [addressed, List.filter_cons, h, Bool.false_eq_true, if_false]

theorem addressed_of_true (h : holds (listener.frameType message.frameClass) = true)
    (htrue : holds (listener.handler message) = true) :
    addressed message (listener :: listeners) = [listener] := by
  simp [addressed, h, htrue]

theorem addressed_of_false (h : holds (listener.frameType message.frameClass) = true)
    (hfalse : holds (listener.handler message) = false) :
    addressed message (listener :: listeners) = listener :: addressed message listeners := by
  simp [addressed, h, hfalse]

theorem calls_dispatch (message : Frame) (listeners : List (Listener ε)) :
    calls (dispatch message listeners) = (addressed message listeners).map (·, message) := by
  induction listeners with
  | nil => rfl
  | cons listener listeners ih =>
    cases htype : listener.frameType message.frameClass with
    | error e =>
      rw [addressed_of_not_matching (by rw [htype]; rfl), ← ih, dispatch, answer, htype,
        Trace.ofExcept_error_bind]
      rfl
    | ok b =>
      cases b with
      | false =>
        rw [addressed_of_not_matching (by rw [htype]; rfl), ← ih, dispatch, answer, htype,
          Trace.ofExcept_ok_bind]
        rfl
      | true =>
        rw [dispatch, answer, htype, Trace.ofExcept_ok_bind, if_pos rfl, Trace.emit_bind]
        cases hanswer : listener.handler message with
        | error e =>
          rw [addressed_of_false (by rw [htype]; rfl) (by rw [hanswer]; rfl), List.map_cons, ← ih]
          rfl
        | ok b =>
          cases b with
          | false =>
            rw [addressed_of_false (by rw [htype]; rfl) (by rw [hanswer]; rfl), List.map_cons, ← ih]
            rfl
          | true =>
            rw [addressed_of_true (by rw [htype]; rfl) (by rw [hanswer]; rfl)]
            rfl

end dispatch

section handle

variable {codec : Codec} {data : List UInt8} {parts : List Str} {frame : Frame}

theorem handle_of_accepts (hparts : tokens data = .ok parts) (h : Accepts codec parts frame)
    (listeners : List (Listener ε)) :
    handle codec listeners data = ⟨dispatch frame listeners, .ok ⟨⟩⟩ := by
  rw [handle, hparts, Trace.ofExcept_ok_bind, loadFrame_of_accepts h]
  rfl

theorem handle_of_not_accepts (hparts : tokens data = .ok parts)
    (h : ∀ frame, ¬Accepts codec parts frame) (listeners : List (Listener ε)) :
    handle codec listeners data = Trace.emit (.unknownMessage parts) := by
  rw [handle, hparts, Trace.ofExcept_ok_bind]
  cases hload : loadFrame codec (.list parts) with
  | error e => rfl
  | ok frame? =>
    cases frame? with
    | none => rfl
    | some frame => exact absurd (accepts_of_loadFrame hload) (h frame)

end handle

theorem handle_calls_addressed (codec : Codec) (listeners : List (Listener ε)) {data : List UInt8}
    {text : String} (htext : Utf8.decode data = some text) :
    (handle codec listeners data).result = .ok ⟨⟩ ∧
      (∀ call ∈ calls (handle codec listeners data).log,
        Accepts codec (split text.toList) call.2) ∧
      (∀ frame, Accepts codec (split text.toList) frame →
        calls (handle codec listeners data).log =
          (addressed frame listeners).map (·, frame)) ∧
      ((∀ frame, ¬Accepts codec (split text.toList) frame) →
        calls (handle codec listeners data).log = []) := by
  have hparts : tokens data = .ok (split text.toList) := by rw [tokens, htext]
  by_cases hsome : ∃ frame, Accepts codec (split text.toList) frame
  · obtain ⟨frame, hframe⟩ := hsome
    have hcalls : calls (handle codec listeners data).log =
        (addressed frame listeners).map (·, frame) := by
      rw [handle_of_accepts hparts hframe]
      exact calls_dispatch frame listeners
    refine ⟨?_, ?_, ?_, ?_⟩
    · rw [handle_of_accepts hparts hframe]
    · intro call hcall
      rw [hcalls] at hcall
      obtain ⟨listener, -, rfl⟩ := List.mem_map.mp hcall
      exact hframe
    · intro frame' hframe'
      rw [accepts_unique hframe' hframe]
      exact hcalls
    · intro hnone
      exact absurd hframe (hnone frame)
  · have hnone : ∀ frame, ¬Accepts codec (split text.toList) frame :=
      fun frame h => hsome ⟨frame, h⟩
    rw [handle_of_not_accepts hparts hnone]
    refine ⟨rfl, ?_, fun frame h => absurd h (hnone frame), fun _ => rfl⟩
    intro call hcall
    cases hcall

def constant (frameType : FrameClass → Bool) (outcome : Except Unit Bool) : Listener Unit :=
  ⟨fun _ => outcome, fun c => .ok (frameType c)⟩

def fourListeners : List (Listener Unit) :=
  [constant (· = .groupBan) (.ok true), constant FrameClass.isRcvdMessage (.error ()),
    constant (· = .rcvdGroupMessage) (.ok true), constant (· = .rcvdGroupMessage) (.ok true)]

def hello : Frame := ⟨.rcvdGroupMessage, groupIds ++ ["hello".toList], rfl⟩

theorem handle_calls_addressed_hello :
    (handle ascii fourListeners
        (Utf8.encode "GroupMessage 414754582 10001 aGVsbG8=")).result = .ok ⟨⟩ ∧
      calls (handle ascii fourListeners
        (Utf8.encode "GroupMessage 414754582 10001 aGVsbG8=")).log =
        [(constant FrameClass.isRcvdMessage (.error ()), hello),
          (constant (· = .rcvdGroupMessage) (.ok true), hello)] := by
  have hrow : ⟨"GroupMessage".toList, some .rcvdGroupMessage, some .sendGroupMessage⟩ ∈
      frameTypes := by decide
  have htext : decodeText ascii "aGVsbG8=".toList = .ok "hello".toList := by decide
  have hsplit : split "GroupMessage 414754582 10001 aGVsbG8=".toList =
      "GroupMessage".toList :: (groupIds ++ ["aGVsbG8=".toList]) := by decide
  have haccepts : Accepts ascii (split "GroupMessage 414754582 10001 aGVsbG8=".toList) hello := by
    rw [hsplit]
    exact .message hrow rfl rfl htext rfl
  have hhandle := handle_calls_addressed ascii fourListeners
    (Utf8.decode_encode "GroupMessage 414754582 10001 aGVsbG8=")
  exact ⟨hhandle.1, hhandle.2.2.1 hello haccepts⟩

end DanmakuChicken.CoolQ
