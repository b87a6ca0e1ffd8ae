import DanmakuChicken.Lib.Lts
import DanmakuChicken.Lib.Strtoul
import DanmakuChicken.SimpleWeb.Message

/-! Reading a message from a socket, however the network cuts what it delivers: the header, then
a content of known length, or in chunks, or up to the end of the connection. -/

namespace DanmakuChicken.SimpleWeb

/-- What the reader of a server and that of a client differ in.  `bits` is the width of
`unsigned long`. -/
structure Format (μ : Type) where
  firstLine : Str → Option μ
  withHeader : μ → CaseInsensitiveMultimap → μ
  header : μ → CaseInsensitiveMultimap
  toEnd : μ → Bool
  bits : ℕ

namespace Format

variable {μ : Type} (fmt : Format μ)

def contentLength (message : μ) : Option Str := (fmt.header message).find (literal "Content-Length")

def isChunked (message : μ) : Bool :=
  (fmt.header message).find (literal "Transfer-Encoding") = some (literal "chunked")

def parse (stream : Istream) : Option (Istream × Option μ) :=
  parseMessage fmt.firstLine fmt.withHeader stream

end Format

def requestFormat (bits : ℕ) : Format RequestMessage where
  firstLine line := RequestMessage.requestLine line []
  withHeader request header := { request with header := header }
  header := RequestMessage.header
  toEnd _ := false
  bits := bits

def responseFormat (bits : ℕ) : Format ResponseMessage where
  firstLine := ResponseMessage.statusLine
  withHeader response header := { response with header := header }
  header := ResponseMessage.header
  toEnd response := response.version < literal "1.1" ∨
    response.header.find (literal "Session") = some (literal "close")
  bits := bits

/-- What a reader waits for: the empty line, `need` bytes more, the end of a line, or the end.
`hung` is a parser that never returns; `undefined` is a `pop_back` of an empty string, or a read
past the end of the buffer. -/
inductive Phase (μ : Type)
  | head
  | content (message : μ) (need : ℕ)
  | chunkSize (message : μ) (chunks : Str)
  | chunk (message : μ) (chunks : Str) (length need : ℕ)
  | toEnd (message : μ)
  | done (message : μ)
  | failed
  | hung
  | undefined

/-- `incoming` has arrived at the socket, `stream` is the buffer. -/
structure Reading (μ : Type) where
  incoming : Str := []
  stream : Istream := ⟨[], true⟩
  phase : Phase μ := .head

namespace Reading

variable {μ : Type} (fmt : Format μ)

def crlf : Str := literal "\r\n"

def readChunk (incoming : Str) (message : μ) (chunks : Str) (length : ℕ) (stream : Istream) :
    Reading μ :=
  if length ≤ stream.buf.length then
    let chunks := chunks ++ stream.buf.take length
    let stream : Istream := ⟨stream.buf.drop (length + 2),
      stream.good && decide (length + 2 ≤ stream.buf.length)⟩
    if 0 < length then ⟨incoming, stream, .chunkSize message chunks⟩
    else ⟨incoming, { stream with buf := stream.buf ++ chunks }, .done message⟩
  else ⟨incoming, stream, .undefined⟩

/-- The handler of the read that `read_chunked_transfer_encoded` starts. -/
def onChunkSize (incoming : Str) (message : μ) (chunks : Str) (stream : Istream)
    (bytesTransferred : ℕ) : Reading μ :=
  let (stream, line) := getline stream []
  let bytesTransferred := bytesTransferred - (line.length + 1)
  -- `pop_back` of an empty string
  if line = [] then ⟨incoming, stream, .undefined⟩
  else
    match Strtoul.stoul fmt.bits 16 line.dropLast with
    | none => ⟨incoming, stream, .failed⟩
    | some length =>
      let numAdditionalBytes := stream.buf.length - bytesTransferred
      let total := (2 + length) % 2 ^ fmt.bits
      if numAdditionalBytes < total then
        ⟨incoming, stream, .chunk message chunks length (total - numAdditionalBytes)⟩
      else readChunk incoming message chunks length stream

/-- The handler of the read that `read` starts. -/
def onHead (incoming : Str) (stream : Istream) (bytesTransferred : ℕ) : Reading μ :=
  let numAdditionalBytes := stream.buf.length - bytesTransferred
  match fmt.parse stream with
  | none => ⟨incoming, stream, .hung⟩
  | some (stream, none) => ⟨incoming, stream, .failed⟩
  | some (stream, some message) =>
    match fmt.contentLength message with
    | some value =>
      match Strtoul.stoul 64 10 value with
      | none => ⟨incoming, stream, .failed⟩
      | some contentLength =>
        if numAdditionalBytes < contentLength then
          ⟨incoming, stream, .content message (contentLength - numAdditionalBytes)⟩
        else ⟨incoming, stream, .done message⟩
    | none =>
      if fmt.isChunked message then ⟨incoming, stream, .chunkSize message []⟩
      else if fmt.toEnd message then ⟨incoming, stream, .toEnd message⟩
      else ⟨incoming, stream, .done message⟩

/-- A read that ends at a delimiter may take more than it needs, one of so many bytes never. -/
inductive Action
  | arrive (bytes : Str)
  | receive (n : ℕ)
  | complete
  | close
  deriving DecidableEq

def Action.isArrival : Action → Bool
  | .arrive _ => true
  | _ => false

def arrivedBy : Action → Str
  | .arrive bytes => bytes
  | _ => []

def arrived (actions : List Action) : Str := actions.flatMap arrivedBy

def takes (s : Reading μ) (n : ℕ) : Bool :=
  match s.phase with
  | .head => Search.through headEnd s.stream.buf = none
  | .chunkSize _ _ => Search.through crlf s.stream.buf = none
  | .content _ need | .chunk _ _ _ need => n ≤ need
  | .toEnd _ => true
  | .done _ | .failed | .hung | .undefined => false

def receive (s : Reading μ) (n : ℕ) : Reading μ where
  incoming := s.incoming.drop n
  stream := { s.stream with buf := s.stream.buf ++ s.incoming.take n }
  phase :=
    match s.phase with
    | .content message need => .content message (need - n)
    | .chunk message chunks length need => .chunk message chunks length (need - n)
    | phase => phase

def complete (s : Reading μ) : Option (Reading μ) :=
  match s.phase with
  | .head => (Search.through headEnd s.stream.buf).map fun (x, _) =>
    onHead fmt s.incoming s.stream x.length
  | .content message 0 => some ⟨s.incoming, s.stream, .done message⟩
  | .chunkSize message chunks => (Search.through crlf s.stream.buf).map fun (x, _) =>
    onChunkSize fmt s.incoming message chunks s.stream x.length
  | .chunk message chunks length 0 => some (readChunk s.incoming message chunks length s.stream)
  | _ => none

def step (s : Reading μ) : Action → Option (Reading μ)
  | .arrive bytes => some { s with incoming := s.incoming ++ bytes }
  | .receive n =>
    if 0 < n ∧ n ≤ s.incoming.length ∧ s.takes n then some (s.receive n) else none
  | .complete => s.complete fmt
  | .close =>
    if s.incoming = [] ∧ s.takes 1 then
      match s.phase with
      | .toEnd message => some { s with phase := .done message }
      | _ => some { s with phase := .failed }
    else none

end Reading

end DanmakuChicken.SimpleWeb
