import DanmakuChicken.Lib.Json
import DanmakuChicken.Lib.Struct
import DanmakuChicken.Lib.Utf8

namespace DanmakuChicken.BLive

abbrev Bytes := List UInt8

abbrev PyStr := List (Fin 0x110000)

def PyStr.ofString (s : String) : PyStr := s.toList.map fun c => Fin.ofNat 0x110000 c.toNat

/-- What `json.loads` makes and `json.dumps` takes.  Only its strings and containers are read. -/
abbrev PyJson := Json PyStr

inductive PyExc
  | cancelledError | connectionClosed | osError | structError | unicodeDecodeError
  | jsonDecodeError | keyError | indexError | typeError | attributeError
  deriving DecidableEq

/-- The `json` module: `dumps` gives a text, `loads` a value or a `JSONDecodeError`. -/
structure JsonModule where
  dumps : PyJson → String
  loads : String → Option PyJson

inductive Operation
  | sendHeartbeat | popularity | command | auth | recvHeartbeat
  deriving DecidableEq

def Operation.value : Operation → ℕ
  | .sendHeartbeat => 2
  | .popularity => 3
  | .command => 5
  | .auth => 7
  | .recvHeartbeat => 8

structure HeaderTuple where
  totalLen : ℕ
  headerLen : ℕ
  protoVer : ℕ
  operation : ℕ
  sequence : ℕ
  deriving DecidableEq

def headerStruct : List ℕ := [4, 2, 2, 4, 4]

def headerSize : ℕ := Struct.size headerStruct

@[simp] theorem headerSize_eq : headerSize = 16 := rfl

namespace HeaderTuple

def fields (header : HeaderTuple) : List ℕ :=
  [header.totalLen, header.headerLen, header.protoVer, header.operation, header.sequence]

def ofFields : List ℕ → Option HeaderTuple
  | [totalLen, headerLen, protoVer, operation, sequence] =>
    some ⟨totalLen, headerLen, protoVer, operation, sequence⟩
  | _ => none

@[simp] theorem ofFields_fields (header : HeaderTuple) : ofFields header.fields = some header := rfl

def InRange (header : HeaderTuple) : Prop := Struct.InRange headerStruct header.fields

instance (header : HeaderTuple) : Decidable header.InRange := by unfold InRange; infer_instance

theorem inRange_iff (header : HeaderTuple) :
    header.InRange ↔ header.totalLen < 2 ^ 32 ∧ header.headerLen < 2 ^ 16 ∧
      header.protoVer < 2 ^ 16 ∧ header.operation < 2 ^ 32 ∧ header.sequence < 2 ^ 32 := by
  have h2 : 256 ^ 2 = 2 ^ 16 := by norm_num
  have h4 : 256 ^ 4 = 2 ^ 32 := by norm_num
  simp only [InRange, Struct.InRange, headerStruct, fields, List.forall₂_cons,
    List.forall₂_nil_left_iff, and_true, h2, h4]

end HeaderTuple

def pack (header : HeaderTuple) : Except PyExc Bytes :=
  if header.InRange then .ok (Struct.pack headerStruct header.fields) else .error .structError

def unpackFrom (message : Bytes) (offset : ℕ) : Except PyExc HeaderTuple :=
  if offset + headerSize ≤ message.length then
    match HeaderTuple.ofFields (Struct.unpack headerStruct (message.drop offset)) with
    | some header => .ok header
    | none => .error .typeError
  else .error .structError

def slice (message : Bytes) (start stop : ℕ) : Bytes := (message.take stop).drop start

def makePacket (json : JsonModule) (data : PyJson) (operation : Operation) : Except PyExc Bytes := do
  let body := Utf8.encode (json.dumps data)
  let header ← pack ⟨headerSize + body.length, headerSize, 1, operation.value, 1⟩
  return header ++ body

theorem unpackFrom_eq_ok_or (message : Bytes) (offset : ℕ) :
    (∃ header, unpackFrom message offset = .ok header) ∨
      unpackFrom message offset = .error .structError := by
  unfold unpackFrom
  split
  · exact .inl ⟨_, rfl⟩
  · exact .inr rfl

theorem unpackFrom_of_short {message : Bytes} {offset : ℕ}
    (h : message.length < offset + headerSize) :
    unpackFrom message offset = .error .structError := if_neg (by omega)

theorem length_pack {header : HeaderTuple} (h : header.InRange) :
    (Struct.pack headerStruct header.fields).length = headerSize := Struct.length_pack h

theorem unpackFrom_append {header : HeaderTuple} (h : header.InRange) (before rest : Bytes) :
    unpackFrom (before ++ (Struct.pack headerStruct header.fields ++ rest)) before.length =
      .ok header := by
  have hlen : before.length + headerSize ≤
      (before ++ (Struct.pack headerStruct header.fields ++ rest)).length := by
    simp only [List.length_append, length_pack h]
    omega
  rw [unpackFrom, if_pos hlen, List.drop_left, Struct.unpack_pack h, HeaderTuple.ofFields_fields]

theorem slice_append {header body : Bytes} (before rest : Bytes) (hheader : header.length = headerSize) :
    slice (before ++ (header ++ body ++ rest)) (before.length + headerSize)
      (before.length + (headerSize + body.length)) = body := by
  have hlen : before.length + (headerSize + body.length) = (before ++ (header ++ body)).length := by
    simp [hheader]
  have htake : before ++ (header ++ body ++ rest) = (before ++ (header ++ body)) ++ rest := by simp
  have hdrop : before ++ (header ++ body) = (before ++ header) ++ body := by simp
  rw [slice, hlen, htake, List.take_left, hdrop]
  exact List.drop_left' (by simp [hheader])

end DanmakuChicken.BLive
