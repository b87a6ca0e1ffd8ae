import DanmakuChicken.BLive.Packet
import DanmakuChicken.Lib.Trace

/-! Commands and their handler.  Lists of commands nest to any depth: the interpreter's recursion
limit is not part of the model. -/

namespace DanmakuChicken.BLive

inductive Event
  | handleCommand (command : PyJson)
  | onGetPopularity (popularity : ℕ)
  | onGetDanmaku (content userName : PyJson)
  | unknownCommand (command : PyJson)
  | unknownPacket (header : HeaderTuple) (body : Bytes)

abbrev Handler := Trace Event PyExc

def PyJson.string (s : String) : PyJson := .str (PyStr.ofString s)

def getItem (d : PyJson) (key : String) : Except PyExc PyJson :=
  match d with
  | .obj members =>
    match members.lookup (PyStr.ofString key) with
    | some value => .ok value
    | none => .error .keyError
  | _ => .error .typeError

def getIndex (d : PyJson) (index : ℕ) : Except PyExc PyJson :=
  match d with
  | .arr items =>
    match items[index]? with
    | some value => .ok value
    | none => .error .indexError
  | .str s =>
    match s[index]? with
    | some c => .ok (.str [c])
    | none => .error .indexError
  | .obj _ => .error .keyError
  | _ => .error .typeError

def isString (d : PyJson) (s : String) : Bool :=
  match d with
  | .str t => t = PyStr.ofString s
  | _ => false

def ignoredCommands : List String :=
  ["SEND_GIFT", "WELCOME", "WELCOME_GUARD", "SYS_MSG", "PREPARING", "LIVE", "WISH_BOTTLE"]

def danmakuArgs (command : PyJson) : Except PyExc (PyJson × PyJson) := do
  let content ← getIndex (← getItem command "info") 1
  let userName ← getIndex (← getIndex (← getItem command "info") 2) 1
  return (content, userName)

/-- `_handle_command` on anything but a list. -/
def handleSingle (command : PyJson) : Handler Unit := do
  let cmd ← Trace.ofExcept (getItem command "cmd")
  if isString cmd "DANMU_MSG" then
    let (content, userName) ← Trace.ofExcept (danmakuArgs command)
    Trace.emit (.onGetDanmaku content userName)
  else if ignoredCommands.any (isString cmd) then
    pure ()
  else
    Trace.emit (.unknownCommand command)

mutual

def handleCommand : PyJson → Handler Unit
  | .arr commands => handleCommands commands
  | command => handleSingle command

def handleCommands : List PyJson → Handler Unit
  | [] => pure ()
  | oneCommand :: commands => do
    handleCommand oneCommand
    handleCommands commands

end

mutual

def flatten : PyJson → List PyJson
  | .arr commands => flattenAll commands
  | command => [command]

def flattenAll : List PyJson → List PyJson
  | [] => []
  | command :: commands => flatten command ++ flattenAll commands

end

mutual

theorem handleCommand_eq_forEach : (command : PyJson) →
    handleCommand command = Trace.forEach handleSingle (flatten command)
  | .arr commands => by
    rw [handleCommand, flatten]
    exact handleCommands_eq_forEach commands
  | .null | .bool _ | .num _ | .str _ | .obj _ => (Trace.forEach_singleton handleSingle _).symm

theorem handleCommands_eq_forEach : (commands : List PyJson) →
    handleCommands commands = Trace.forEach handleSingle (flattenAll commands)
  | [] => rfl
  | oneCommand :: commands => by
    rw [handleCommands, flattenAll, Trace.forEach_append, handleCommand_eq_forEach oneCommand,
      handleCommands_eq_forEach commands]

end

section handleSingle

variable {command cmd : PyJson}

theorem handleSingle_of_error {e : PyExc} (h : getItem command "cmd" = .error e) :
    handleSingle command = ⟨[], .error e⟩ := by
  rw [handleSingle, h, Trace.ofExcept_error_bind]

theorem handleSingle_of_danmu (h : getItem command "cmd" = .ok cmd)
    (hdanmu : isString cmd "DANMU_MSG" = true) :
    handleSingle command = Trace.ofExcept (danmakuArgs command) >>= fun args =>
      Trace.emit (.onGetDanmaku args.1 args.2) := by
  rw [handleSingle, h, Trace.ofExcept_ok_bind, if_pos hdanmu]

theorem handleSingle_of_other (h : getItem command "cmd" = .ok cmd)
    (hdanmu : isString cmd "DANMU_MSG" = false) :
    handleSingle command =
      ⟨if ignoredCommands.any (isString cmd) then [] else [.unknownCommand command], .ok ()⟩ := by
  rw [handleSingle, h, Trace.ofExcept_ok_bind, if_neg (by simp [hdanmu])]
  split <;> rfl

end handleSingle

def Answerable (command : PyJson) : Prop :=
  ∃ cmd, getItem command "cmd" = .ok cmd ∧
    (isString cmd "DANMU_MSG" = true → ∃ args, danmakuArgs command = .ok args)

def isDanmaku (command : PyJson) : Bool :=
  match getItem command "cmd" with
  | .ok cmd => isString cmd "DANMU_MSG"
  | .error _ => false

def danmaku? (command : PyJson) : Option (PyJson × PyJson) :=
  if isDanmaku command then (danmakuArgs command).toOption else none

def Event.danmaku? : Event → Option (PyJson × PyJson)
  | .onGetDanmaku content userName => some (content, userName)
  | _ => none

def Event.topLevel? : Event → Option PyJson
  | .handleCommand command => some command
  | _ => none

theorem handleSingle_raises_iff {command : PyJson} :
    (∃ e, (handleSingle command).result = .error e) ↔ ¬Answerable command := by
  unfold Answerable
  cases hcmd : getItem command "cmd" with
  | error e => simp [handleSingle_of_error hcmd]
  | ok cmd =>
    cases hdanmu : isString cmd "DANMU_MSG" with
    | false => simp [handleSingle_of_other hcmd hdanmu, hdanmu]
    | true =>
      rw [handleSingle_of_danmu hcmd hdanmu]
      cases hargs : danmakuArgs command with
      | error e => simp [hdanmu]
      | ok args => simp [Trace.emit]

theorem handleSingle_of_answerable {command : PyJson} (h : Answerable command) :
    (handleSingle command).result = .ok () := by
  cases hresult : (handleSingle command).result with
  | ok u => rfl
  | error e => exact absurd h (handleSingle_raises_iff.mp ⟨e, hresult⟩)

theorem danmakus_handleSingle {command : PyJson} (h : Answerable command) :
    (handleSingle command).log.filterMap Event.danmaku? = (danmaku? command).toList := by
  obtain ⟨cmd, hcmd, hargs⟩ := h
  cases hdanmu : isString cmd "DANMU_MSG" with
  | false =>
    rw [handleSingle_of_other hcmd hdanmu]
    simp only [danmaku?, isDanmaku, hcmd, hdanmu]
    split <;> rfl
  | true =>
    obtain ⟨args, hargs⟩ := hargs hdanmu
    rw [handleSingle_of_danmu hcmd hdanmu, hargs, Trace.ofExcept_ok_bind]
    simp only [danmaku?, isDanmaku, hcmd, hdanmu, hargs]
    rfl

theorem topLevel_handleSingle (command : PyJson) :
    (handleSingle command).log.filterMap Event.topLevel? = [] := by
  cases hcmd : getItem command "cmd" with
  | error e =>
    rw [handleSingle_of_error hcmd]
    rfl
  | ok cmd =>
    cases hdanmu : isString cmd "DANMU_MSG" with
    | false =>
      rw [handleSingle_of_other hcmd hdanmu]
      dsimp only
      split <;> rfl
    | true =>
      rw [handleSingle_of_danmu hcmd hdanmu]
      cases danmakuArgs command <;> rfl

theorem handleCommand_raises_iff {command : PyJson} :
    (∃ e, (handleCommand command).result = .error e) ↔
      ∃ single ∈ flatten command, ¬Answerable single := by
  rw [handleCommand_eq_forEach, Trace.forEach_raises_iff]
  simp only [handleSingle_raises_iff]

theorem handleCommand_of_answerable {command : PyJson}
    (h : ∀ single ∈ flatten command, Answerable single) :
    handleCommand command = ⟨(flatten command).flatMap fun c => (handleSingle c).log, .ok ()⟩ := by
  rw [handleCommand_eq_forEach]
  apply Trace.forEach_of_ok
  intro single hsingle
  exact handleSingle_of_answerable (h single hsingle)

theorem danmakus_handleCommand {command : PyJson}
    (h : ∀ single ∈ flatten command, Answerable single) :
    (handleCommand command).log.filterMap Event.danmaku? =
      (flatten command).filterMap danmaku? := by
  rw [handleCommand_of_answerable h]
  dsimp only
  generalize flatten command = singles at h
  induction singles with
  | nil => rfl
  | cons single singles ih =>
    have hsingle := danmakus_handleSingle (h single (by simp))
    have htail := ih fun c hc => h c (by simp [hc])
    rw [List.flatMap_cons, List.filterMap_append, hsingle, htail]
    cases hdanmaku : danmaku? single <;> simp [hdanmaku]

theorem topLevel_handleCommand {command : PyJson}
    (h : ∀ single ∈ flatten command, Answerable single) :
    (handleCommand command).log.filterMap Event.topLevel? = [] := by
  rw [handleCommand_of_answerable h, List.filterMap_flatMap]
  simp [topLevel_handleSingle]

end DanmakuChicken.BLive
