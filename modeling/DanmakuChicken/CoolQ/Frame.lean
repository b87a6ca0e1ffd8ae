import DanmakuChicken.Lib.Base64
import DanmakuChicken.Lib.Utf8
import DanmakuChicken.Lib.Words

namespace DanmakuChicken.CoolQ

abbrev Str := List Char

def isSpace (c : Char) : Bool :=
  let n := c.toNat
  (0x09 ≤ n && n ≤ 0x0d) || (0x1c ≤ n && n ≤ 0x20) || n == 0x85 || n == 0xa0 || n == 0x1680 ||
    (0x2000 ≤ n && n ≤ 0x200a) || n == 0x2028 || n == 0x2029 || n == 0x202f || n == 0x205f ||
    n == 0x3000

def split (data : Str) : List Str := Words.split isSpace data

example : split " a\t\u3000b ".toList = ["a".toList, "b".toList] := by decide

inductive Raised
  | typeError
  | valueError
  | indexError
  | attributeError
  deriving DecidableEq

def tokens (data : List UInt8) : Except Raised (List Str) :=
  match Utf8.decode data with
  | some data => .ok (split data.toList)
  | none => .error .valueError

inductive FrameClass
  | clientHello
  | serverHello
  | rcvdPrivateMessage
  | sendPrivateMessage
  | rcvdGroupMessage
  | sendGroupMessage
  | rcvdDiscussMessage
  | sendDiscussMessage
  | groupMemberDecrease
  | groupMemberIncrease
  | groupBan
  | fatal
  deriving DecidableEq

namespace FrameClass

def fields : FrameClass → List String
  | clientHello => ["port"]
  | serverHello => []
  | rcvdPrivateMessage => ["qq", "text"]
  | sendPrivateMessage => ["qq", "text"]
  | rcvdGroupMessage => ["group", "qq", "text"]
  | sendGroupMessage => ["group", "text"]
  | rcvdDiscussMessage => ["discuss", "qq", "text"]
  | sendDiscussMessage => ["discuss", "text"]
  | groupMemberDecrease => ["group", "qq", "operatedQQ"]
  | groupMemberIncrease => ["group", "qq", "operatedQQ"]
  | groupBan => ["group", "qq", "duration"]
  | fatal => ["text"]

def isRcvdMessage : FrameClass → Bool
  | rcvdPrivateMessage | rcvdGroupMessage | rcvdDiscussMessage => true
  | _ => false

def isSendMessage : FrameClass → Bool
  | sendPrivateMessage | sendGroupMessage | sendDiscussMessage | fatal => true
  | _ => false

end FrameClass

structure Frame where
  frameClass : FrameClass
  values : List Str
  arity : values.length = frameClass.fields.length
  deriving DecidableEq

def Frame.getAttr (frame : Frame) (field : String) : Except Raised Str :=
  match (frame.frameClass.fields.zip frame.values).lookup field with
  | some value => .ok value
  | none => .error .attributeError

/-- A row of `FRAME_TYPES`, with `none` where the source has `()`. -/
structure FrameType where
  framePrefix : Str
  rcvd : Option FrameClass
  send : Option FrameClass
  deriving DecidableEq

def frameTypes : List FrameType :=
  [⟨"ClientHello".toList, none, some .clientHello⟩,
    ⟨"ServerHello".toList, some .serverHello, none⟩,
    ⟨"PrivateMessage".toList, some .rcvdPrivateMessage, some .sendPrivateMessage⟩,
    ⟨"DiscussMessage".toList, some .rcvdDiscussMessage, some .sendDiscussMessage⟩,
    ⟨"GroupMessage".toList, some .rcvdGroupMessage, some .sendGroupMessage⟩,
    ⟨"GroupMemberDecrease".toList, some .groupMemberDecrease, none⟩,
    ⟨"GroupMemberIncrease".toList, some .groupMemberIncrease, none⟩,
    ⟨"GroupBan".toList, none, some .groupBan⟩,
    ⟨"Fatal".toList, none, some .fatal⟩]

/-- Calling an entry of the table: `()` is not callable, a class checks the arity. -/
def call (entry : Option FrameClass) (payload : List Str) : Except Raised Frame :=
  match entry with
  | none => .error .typeError
  | some frameClass =>
    if h : payload.length = frameClass.fields.length then .ok ⟨frameClass, payload, h⟩
    else .error .typeError

/-- The `gb18030` codec, `none` where it raises. -/
structure Codec where
  encode : Str → Option (List UInt8)
  decode : List UInt8 → Option Str

variable (codec : Codec)

def decodeText (payload : Str) : Except Raised Str :=
  match (Base64.decode payload).bind codec.decode with
  | some text => .ok text
  | none => .error .valueError

def encodeText (text : Str) : Except Raised Str :=
  match codec.encode text with
  | some bytes => .ok (Base64.encode bytes)
  | none => .error .valueError

def mapLast (f : Str → Except Raised Str) (payload : List Str) : Except Raised (List Str) :=
  match payload.getLast? with
  | none => .error .indexError
  | some last => do return payload.dropLast ++ [← f last]

inductive Data
  | str (data : Str)
  | list (data : List Str)
  | other

def Data.parts : Data → Except Raised (List Str)
  | .str data => .ok (split data)
  | .list data => .ok data
  | .other => .error .typeError

/-- The frame of the row with a prefix; a later row would replace what an earlier one gave. -/
def lookup (name : Str) (payload : List Str) (rows : List FrameType) (frame : Option Frame) :
    Except Raised (Option Frame) :=
  rows.foldlM (fun frame row =>
    if name = row.framePrefix then some <$> call row.rcvd payload else pure frame) frame

def decodeFrame (payload : List Str) (frame : Frame) : Except Raised Frame :=
  if frame.frameClass.isRcvdMessage then do
    let payload ← mapLast (decodeText codec) payload
    call (some frame.frameClass) payload
  else return frame

def loadFrame (data : Data) : Except Raised (Option Frame) := do
  match ← data.parts with
  | [] => throw .valueError
  | name :: payload =>
    match ← lookup name payload frameTypes none with
    | none => return none
    | some frame => return some (← decodeFrame codec payload frame)

def line (framePrefix : Str) (payload : List Str) : Str :=
  List.intercalate [' '] (framePrefix :: payload)

def dumpFrame (frame : Frame) : Except Raised (Option Str) := do
  let payload ← if frame.frameClass.isSendMessage then mapLast (encodeText codec) frame.values
    else pure frame.values
  return frameTypes.foldl (fun data row =>
    if row.send = some frame.frameClass then some (line row.framePrefix payload) else data) none

end DanmakuChicken.CoolQ
