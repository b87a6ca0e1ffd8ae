import DanmakuChicken.BLive.Message

namespace DanmakuChicken.BLive

inductive Piece
  | command (d : PyJson)
  | heartbeatReply (headerLen protoVer : UInt16) (sequence : UInt32) (body : Bytes)

namespace Piece

def body (json : JsonModule) : Piece → Bytes
  | .command d => Utf8.encode (json.dumps d)
  | .heartbeatReply _ _ _ body => body

def header (json : JsonModule) (p : Piece) : HeaderTuple :=
  match p with
  | .command _ => ⟨headerSize + (p.body json).length, headerSize, 1, Operation.command.value, 1⟩
  | .heartbeatReply headerLen protoVer sequence _ =>
    ⟨headerSize + (p.body json).length, headerLen.toNat, protoVer.toNat,
      Operation.recvHeartbeat.value, sequence.toNat⟩

def packet (json : JsonModule) (p : Piece) : Except PyExc Bytes :=
  match p with
  | .command d => makePacket json d .command
  | .heartbeatReply .. => do
    let header ← pack (p.header json)
    return header ++ p.body json

def size (json : JsonModule) (p : Piece) : ℕ := headerSize + (p.body json).length

def command? : Piece → Option PyJson
  | .command d => some d
  | .heartbeatReply .. => none

def log : Piece → List Event
  | .command d => .handleCommand d :: (handleCommand d).log
  | .heartbeatReply .. => []

end Piece

def IsCommand (command : PyJson) : Prop :=
  ∃ cmd, getItem command "cmd" = .ok cmd ∧
    (isString cmd "DANMU_MSG" = true →
      ∃ content userName, danmakuArgs command = .ok (.str content, userName))

theorem IsCommand.answerable {command : PyJson} (h : IsCommand command) : Answerable command := by
  obtain ⟨cmd, hcmd, hargs⟩ := h
  refine ⟨cmd, hcmd, ?_⟩
  intro hdanmu
  obtain ⟨content, userName, hargs⟩ := hargs hdanmu
  exact ⟨_, hargs⟩

structure Admissible (json : JsonModule) (p : Piece) : Prop where
  size : p.size json < 2 ^ 32
  command : ∀ d, p.command? = some d →
    (∀ single ∈ flatten d, IsCommand single) ∧ json.loads (json.dumps d) = some d

variable {json : JsonModule} {p : Piece}

namespace Piece

theorem totalLen_header : (p.header json).totalLen = p.size json := by cases p <;> rfl

theorem inRange_header (h : p.size json < 2 ^ 32) : (p.header json).InRange := by
  rw [HeaderTuple.inRange_iff, totalLen_header]
  refine ⟨h, ?_⟩
  cases p with
  | command d => simp [header, Operation.value]
  | heartbeatReply headerLen protoVer sequence body =>
    exact ⟨headerLen.toNat_lt, protoVer.toNat_lt, by simp [header, Operation.value],
      sequence.toNat_lt⟩

def bytes (json : JsonModule) (p : Piece) : Bytes :=
  Struct.pack headerStruct (p.header json).fields ++ p.body json

theorem packet_eq (h : p.size json < 2 ^ 32) : p.packet json = .ok (p.bytes json) := by
  have hpack : pack (p.header json) = .ok (Struct.pack headerStruct (p.header json).fields) :=
    if_pos (inRange_header h)
  cases p with
  | command d =>
    change (pack ((command d).header json) >>= fun header => _) = _
    rw [hpack]
    rfl
  | heartbeatReply headerLen protoVer sequence body =>
    rw [packet, hpack]
    rfl

theorem length_bytes (h : p.size json < 2 ^ 32) : (p.bytes json).length = p.size json := by
  rw [bytes, List.length_append, length_pack (inRange_header h), size]

theorem packets_eq {pieces : List Piece} (h : ∀ p ∈ pieces, p.size json < 2 ^ 32) :
    pieces.mapM (packet json) = .ok (pieces.map (bytes json)) := by
  induction pieces with
  | nil => rfl
  | cons p pieces ih =>
    rw [List.mapM_cons, packet_eq (h p (by simp)), ih fun q hq => h q (by simp [hq])]
    rfl

end Piece

theorem dispatch_piece (h : Admissible json p) (before rest : Bytes) :
    dispatch json (before ++ (p.bytes json ++ rest)) before.length (p.header json) =
      ⟨p.log, .ok ()⟩ := by
  cases p with
  | heartbeatReply headerLen protoVer sequence body => exact dispatch_recvHeartbeat rfl
  | command d =>
    obtain ⟨hcommand, hloads⟩ := h.command d rfl
    have hslice : slice (before ++ ((Piece.command d).bytes json ++ rest))
        (before.length + headerSize) (before.length + ((Piece.command d).header json).totalLen) =
        Utf8.encode (json.dumps d) := by
      apply slice_append
      exact length_pack (Piece.inRange_header h.size)
    have hanswer : (handleCommand d).result = .ok () := by
      rw [handleCommand_of_answerable fun single hs => (hcommand single hs).answerable]
    rw [dispatch_command rfl, hslice, handleBody_of_load (Utf8.decode_encode _) hloads, hanswer]
    rfl

theorem ends_pieces {pieces : List Piece} (h : ∀ p ∈ pieces, Admissible json p) (before : Bytes)
    (log : List Event) :
    Loop.Ends (messagePass json (before ++ (pieces.map (Piece.bytes json)).flatten))
      (log, before.length) ⟨log ++ pieces.flatMap Piece.log, .ok ()⟩ := by
  induction pieces generalizing before log with
  | nil =>
    apply Loop.Ends.done
    rw [messagePass_end (by simp)]
    simp
  | cons p pieces ih =>
    have hp : Admissible json p := h p (by simp)
    have hrest := ih (fun q hq => h q (by simp [hq])) (before ++ p.bytes json) (log ++ p.log)
    have hlength := Piece.length_bytes hp.size
    have hheader := unpackFrom_append (Piece.inRange_header hp.size) before
      (p.body json ++ (pieces.map (Piece.bytes json)).flatten)
    have hdispatch := dispatch_piece hp before (pieces.map (Piece.bytes json)).flatten
    rw [List.append_assoc, List.length_append, hlength, ← Piece.totalLen_header] at hrest
    rw [List.map_cons, List.flatten_cons]
    rw [← List.append_assoc (Struct.pack _ _)] at hheader
    have hlt : before.length <
        (before ++ (p.bytes json ++ (pieces.map (Piece.bytes json)).flatten)).length := by
      simp only [List.length_append, hlength, Piece.size, headerSize_eq]
      omega
    have hok := congrArg Trace.result hdispatch
    have hpass := messagePass_next log hlt hheader hok
    rw [hdispatch] at hpass
    rw [List.flatMap_cons, ← List.append_assoc log]
    exact .next hpass hrest

theorem topLevel_log (h : Admissible json p) :
    p.log.filterMap Event.topLevel? = p.command?.toList := by
  cases p with
  | heartbeatReply headerLen protoVer sequence body => rfl
  | command d =>
    have hanswer : ∀ single ∈ flatten d, Answerable single :=
      fun single hs => ((h.command d rfl).1 single hs).answerable
    have hcall : (Event.handleCommand d).topLevel? = some d := rfl
    rw [Piece.log, List.filterMap_cons_some hcall, topLevel_handleCommand hanswer]
    rfl

theorem danmakus_log (h : Admissible json p) :
    p.log.filterMap Event.danmaku? = (p.command?.toList.flatMap flatten).filterMap danmaku? := by
  cases p with
  | heartbeatReply headerLen protoVer sequence body => rfl
  | command d =>
    have hanswer : ∀ single ∈ flatten d, Answerable single :=
      fun single hs => ((h.command d rfl).1 single hs).answerable
    have hcall : (Event.handleCommand d).danmaku? = none := rfl
    rw [Piece.log, List.filterMap_cons_none hcall, danmakus_handleCommand hanswer]
    simp [Piece.command?]

theorem commands_cons (p : Piece) (pieces : List Piece) :
    (p :: pieces).filterMap Piece.command? =
      p.command?.toList ++ pieces.filterMap Piece.command? := by
  cases h : p.command? <;> simp [h]

theorem topLevel_logs {pieces : List Piece} (h : ∀ p ∈ pieces, Admissible json p) :
    (pieces.flatMap Piece.log).filterMap Event.topLevel? = pieces.filterMap Piece.command? := by
  induction pieces with
  | nil => rfl
  | cons p pieces ih =>
    rw [List.flatMap_cons, List.filterMap_append, topLevel_log (h p (by simp)),
      ih fun q hq => h q (by simp [hq]), commands_cons]

theorem danmakus_logs {pieces : List Piece} (h : ∀ p ∈ pieces, Admissible json p) :
    (pieces.flatMap Piece.log).filterMap Event.danmaku? =
      ((pieces.filterMap Piece.command?).flatMap flatten).filterMap danmaku? := by
  induction pieces with
  | nil => rfl
  | cons p pieces ih =>
    rw [List.flatMap_cons, List.filterMap_append, danmakus_log (h p (by simp)),
      ih fun q hq => h q (by simp [hq]), commands_cons, List.flatMap_append,
      List.filterMap_append]

theorem handleMessage_packets {pieces : List Piece} (h : ∀ p ∈ pieces, Admissible json p) :
    ∃ packets log, pieces.mapM (Piece.packet json) = .ok packets ∧
      handleMessage json packets.flatten = some ⟨log, .ok ()⟩ ∧
      log.filterMap Event.topLevel? = pieces.filterMap Piece.command? ∧
      log.filterMap Event.danmaku? =
        ((pieces.filterMap Piece.command?).flatMap flatten).filterMap danmaku? := by
  refine ⟨pieces.map (Piece.bytes json), pieces.flatMap Piece.log,
    Piece.packets_eq fun p hp => (h p hp).size, ?_, topLevel_logs h, danmakus_logs h⟩
  rw [handleMessage_eq_some_iff]
  exact ends_pieces h [] []

def live : PyJson := .obj [(PyStr.ofString "cmd", PyJson.string "LIVE")]

def danmu : PyJson :=
  .obj [(PyStr.ofString "cmd", PyJson.string "DANMU_MSG"),
    (PyStr.ofString "info",
      .arr [.arr [], PyJson.string "hi", .arr [.num "1", PyJson.string "bob"]])]

def nested : PyJson := .arr [danmu, .arr [live]]

def jsonOf (d : PyJson) (text : String) : JsonModule where
  dumps _ := text
  loads t := if t = text then some d else none

theorem loads_jsonOf (d : PyJson) (text : String) :
    (jsonOf d text).loads ((jsonOf d text).dumps d) = some d := if_pos rfl

def nestedJson : JsonModule := jsonOf nested
  ("[\x7b\"cmd\": \"DANMU_MSG\", \"info\": [[], \"hi\", [1, \"bob\"]]\x7d, " ++
    "[\x7b\"cmd\": \"LIVE\"\x7d]]")

def replyThenNested : List Piece := [.heartbeatReply 16 1 1 [0, 0, 0, 7], .command nested]

theorem handleMessage_packets_of_nested : ∃ packets log,
    replyThenNested.mapM (Piece.packet nestedJson) = .ok packets ∧
      handleMessage nestedJson packets.flatten = some ⟨log, .ok ()⟩ ∧
      log.filterMap Event.topLevel? = [nested] ∧
      log.filterMap Event.danmaku? = [(PyJson.string "hi", PyJson.string "bob")] := by
  have hcommands : ∀ single ∈ flatten nested, IsCommand single := by
    intro single hsingle
    have hmem : single = danmu ∨ single = live := by
      simpa [nested, danmu, live, flatten, flattenAll] using hsingle
    cases hmem with
    | inl hdanmu =>
      rw [hdanmu]
      refine ⟨PyJson.string "DANMU_MSG", rfl, ?_⟩
      intro _
      exact ⟨PyStr.ofString "hi", PyJson.string "bob", rfl⟩
    | inr hlive =>
      rw [hlive]
      refine ⟨PyJson.string "LIVE", rfl, ?_⟩
      intro h
      exact absurd h (by decide)
  apply handleMessage_packets
  intro p hp
  have hmem : p = .heartbeatReply 16 1 1 [0, 0, 0, 7] ∨ p = .command nested := by
    simpa [replyThenNested] using hp
  cases hmem with
  | inl hreply =>
    rw [hreply]
    exact ⟨by decide, nofun⟩
  | inr hcommand =>
    rw [hcommand]
    refine ⟨by decide, ?_⟩
    intro d hd
    cases hd
    exact ⟨hcommands, loads_jsonOf _ _⟩

end DanmakuChicken.BLive
