import DanmakuChicken.SimpleWeb.Segmentation

namespace DanmakuChicken.SimpleWeb

def isContentLength (field : Str × Str) : Bool :=
  caseInsensitiveEqual field.1 (literal "Content-Length")

namespace Response

/-- The loop of `write_header`: what it writes, `content_length_written` and
`chunked_transfer_encoding`. -/
def writeFields (contentLengthWritten chunkedTransferEncoding : Bool) :
    CaseInsensitiveMultimap → Str × Bool × Bool
  | [] => ([], contentLengthWritten, chunkedTransferEncoding)
  | field :: header =>
    let (contentLengthWritten, chunkedTransferEncoding) :=
      if !contentLengthWritten && caseInsensitiveEqual field.1 (literal "content-length") then
        (true, chunkedTransferEncoding)
      else if !chunkedTransferEncoding &&
          caseInsensitiveEqual field.1 (literal "transfer-encoding") &&
            caseInsensitiveEqual field.2 (literal "chunked") then
        (contentLengthWritten, true)
      else (contentLengthWritten, chunkedTransferEncoding)
    let (out, written) := writeFields contentLengthWritten chunkedTransferEncoding header
    (field.1 ++ literal ": " ++ field.2 ++ literal "\r\n" ++ out, written)

def writeHeader (closeConnectionAfterResponse : Bool) (header : CaseInsensitiveMultimap)
    (size : ℕ) : Str :=
  let (out, contentLengthWritten, chunkedTransferEncoding) := writeFields false false header
  if !contentLengthWritten && !chunkedTransferEncoding && !closeConnectionAfterResponse then
    out ++ literal "Content-Length: " ++ Strtoul.decimal size ++ literal "\r\n\r\n"
  else out ++ literal "\r\n"

/-- `write(status_code, content, header)`; the other overloads have no content, or no header, or
read the content from a stream. -/
def write (closeConnectionAfterResponse : Bool) (statusCode content : Str)
    (header : CaseInsensitiveMultimap) : Str :=
  literal "HTTP/1.1 " ++ statusCode ++ literal "\r\n" ++
    writeHeader closeConnectionAfterResponse header content.length ++ content

def isChunkedEncoding (field : Str × Str) : Bool :=
  caseInsensitiveEqual field.1 (literal "transfer-encoding") &&
    caseInsensitiveEqual field.2 (literal "chunked")

theorem isContentLength_eq (field : Str × Str) :
    isContentLength field = caseInsensitiveEqual field.1 (literal "content-length") := by
  have htolower : (literal "Content-Length").map tolower =
      (literal "content-length").map tolower := by decide
  rw [isContentLength, Bool.eq_iff_iff, caseInsensitiveEqual_iff, caseInsensitiveEqual_iff,
    htolower]

theorem writeFields_eq (contentLengthWritten chunkedTransferEncoding : Bool)
    (header : CaseInsensitiveMultimap) :
    writeFields contentLengthWritten chunkedTransferEncoding header =
      (HttpHeader.text header, contentLengthWritten || header.any isContentLength,
        chunkedTransferEncoding || header.any isChunkedEncoding) := by
  induction header generalizing contentLengthWritten chunkedTransferEncoding with
  | nil => simp [writeFields, HttpHeader.text]
  | cons field header ih =>
    have hexcl : isContentLength field → isChunkedEncoding field = false := by
      intro h
      rw [isContentLength_eq, caseInsensitiveEqual_iff] at h
      have hne : ¬caseInsensitiveEqual field.1 (literal "transfer-encoding") := by
        rw [caseInsensitiveEqual_iff, h]
        decide
      simp [isChunkedEncoding, hne]
    have htext : HttpHeader.text (field :: header) =
        field.1 ++ literal ": " ++ field.2 ++ literal "\r\n" ++ HttpHeader.text header := by
      simp [HttpHeader.text]
    rw [writeFields, ← isContentLength_eq, Bool.and_assoc (!chunkedTransferEncoding),
      ← isChunkedEncoding, htext]
    cases hlength : isContentLength field with
    | true =>
      have hchunked := hexcl hlength
      cases contentLengthWritten <;> simp [ih, hlength, hchunked]
    | false =>
      cases hchunked : isChunkedEncoding field <;> cases chunkedTransferEncoding <;>
        simp [ih, hlength, hchunked]

def fieldsWritten (closeConnectionAfterResponse : Bool) (header : CaseInsensitiveMultimap)
    (size : ℕ) : CaseInsensitiveMultimap :=
  if header.any isContentLength || header.any isChunkedEncoding || closeConnectionAfterResponse then
    header
  else header ++ [(literal "Content-Length", Strtoul.decimal size)]

theorem write_eq (closeConnectionAfterResponse : Bool) (statusCode content : Str)
    (header : CaseInsensitiveMultimap) :
    write closeConnectionAfterResponse statusCode content header =
      headText (literal "HTTP/1.1 " ++ statusCode)
        (fieldsWritten closeConnectionAfterResponse header content.length) ++ content := by
  have hend : literal "\r\n\r\n" = literal "\r\n" ++ literal "\r\n" := by decide
  have hname : literal "Content-Length: " = literal "Content-Length" ++ literal ": " := by decide
  rw [write, writeHeader, writeFields_eq, Bool.false_or, Bool.false_or, fieldsWritten]
  cases header.any isContentLength <;> cases header.any isChunkedEncoding <;>
    cases closeConnectionAfterResponse <;> simp [headText, HttpHeader.text, hend, hname]

end Response

/-- A reader that has got a whole text, in whatever pieces, and can go on no further, has read this
message and content and nothing else. -/
def ReadsBack {μ : Type} (fmt : Format μ) (text : Str) (message : μ) (content : Str) : Prop :=
  ∀ actions u, .close ∉ actions → Reading.arrived actions = text →
    Lts.run (Reading.step fmt) {} actions = some u → Reading.step fmt u (.receive 1) = none →
      Reading.step fmt u .complete = none → u = ⟨[], ⟨content, true⟩, .done message⟩

theorem Body.readsBack {μ : Type} {fmt : Format μ} {head body content : Str} {message : μ}
    (hbody : Body fmt message body content) (hhead : IsHead fmt head message) :
    ReadsBack fmt (head ++ body) message content := by
  intro actions u hclose htext hrun hreceive hcomplete
  have hreads : Reading.Reads fmt head message content [] u [] :=
    Reading.reads_of_run hhead hbody hclose (by simpa using htext) hrun
  exact hreads.eq_of_stuck hhead hreceive hcomplete

theorem readsBack_iff_eq_nil {μ : Type} {fmt : Format μ} {head content : Str} {message : μ}
    (hhead : IsHead fmt head message) (hlength : fmt.contentLength message = none)
    (hchunked : fmt.isChunked message = false) (hend : fmt.toEnd message = false) :
    ReadsBack fmt (head ++ content) message content ↔ content = [] := by
  constructor
  · intro h
    have hparse := hhead.parse []
    rw [List.append_nil] at hparse
    have hempty : Search.through headEnd ([] : Str) = none := by decide
    have hpos : 0 < head.length := List.length_pos_iff.mpr hhead.ne_nil
    have hdone : Reading.onHead fmt [] ⟨head, true⟩ head.length =
        ⟨[], ⟨[], true⟩, .done message⟩ := by
      simp [Reading.onHead, hparse, hlength, hchunked, hend]
    -- the content arrives when the reader has already finished
    have hrun : Lts.run (Reading.step fmt) {}
        [.arrive head, .receive head.length, .complete, .arrive content] =
          some ⟨content, ⟨[], true⟩, .done message⟩ := by
      simp [Reading.step, Reading.takes, Reading.receive, Reading.complete, hempty, hhead.through,
        hdone, hpos]
    have hu := h [.arrive head, .receive head.length, .complete, .arrive content] _ (by simp)
      (by simp [Reading.arrived, Reading.arrivedBy]) hrun (by simp [Reading.step, Reading.takes])
      rfl
    exact congrArg Reading.incoming hu
  · rintro rfl
    exact (Body.empty hlength hchunked hend).readsBack hhead

namespace CaseInsensitiveMultimap

variable {header : CaseInsensitiveMultimap}

theorem find_append (header header' : CaseInsensitiveMultimap) (name : Str) :
    find (header ++ header') name = (find header name).or (find header' name) := by
  rw [find, List.find?_append, find, find]
  cases List.find? (fun field => caseInsensitiveEqual field.1 name) header <;> rfl

theorem find_contentLength_eq_none (h : header.any isContentLength = false) :
    header.find (literal "Content-Length") = none := by
  rw [List.any_eq_false] at h
  simp only [find, Option.map_eq_none_iff, List.find?_eq_none]
  exact h

theorem find_cons_of_ne {field : Str × Str} {name : Str}
    (h : caseInsensitiveEqual field.1 name = false) :
    find (field :: header) name = find header name := by
  simp [find, h]

theorem find_contentLength (value : Str) :
    find [(literal "Content-Length", value)] (literal "Content-Length") = some value := by
  have hrefl : caseInsensitiveEqual (literal "Content-Length") (literal "Content-Length") := by
    decide
  simp [find, hrefl]

end CaseInsensitiveMultimap

theorem stoul_decimal {n : ℕ} (h : n < 2 ^ 64) :
    Strtoul.stoul 64 10 (Strtoul.decimal n) = some n := by
  have hstoul := Strtoul.stoul_decimal h (s := []) (by simp)
  rwa [List.append_nil] at hstoul

theorem isField_contentLength (n : ℕ) :
    HttpHeader.IsField (literal "Content-Length", Strtoul.decimal n) := by
  have hname : ':'.toUInt8 ∉ literal "Content-Length" ∧
      '\n'.toUInt8 ∉ literal "Content-Length" := by decide
  refine ⟨hname.1, hname.2, ?_⟩
  intro hmem
  exact absurd (Strtoul.digit_of_mem_decimal hmem).1 (by decide)

namespace Response

variable {bits : ℕ} {statusCode content : Str} {header : CaseInsensitiveMultimap}
  {closeConnectionAfterResponse : Bool}

theorem isHead_write (bits : ℕ) (closeConnectionAfterResponse : Bool) (size : ℕ)
    (hstatus : '\n'.toUInt8 ∉ statusCode) (hheader : ∀ field ∈ header, HttpHeader.IsField field) :
    IsHead (responseFormat bits) (headText (literal "HTTP/1.1 " ++ statusCode)
        (fieldsWritten closeConnectionAfterResponse header size))
      ⟨literal "1.1", statusCode, fieldsWritten closeConnectionAfterResponse header size⟩ := by
  have hline : (responseFormat bits).firstLine
      (literal "HTTP/1.1 " ++ statusCode ++ ['\r'.toUInt8]) =
        some ⟨literal "1.1", statusCode, []⟩ := by
    have hparts : literal "HTTP/1.1 " ++ statusCode ++ ['\r'.toUInt8] =
        literal "HTTP/" ++ literal "1.1" ++ ' '.toUInt8 :: (statusCode ++ ['\r'.toUInt8]) := by
      have hliteral : literal "HTTP/1.1 " = literal "HTTP/" ++ literal "1.1" ++ [' '.toUInt8] := by
        decide
      simp [hliteral]
    rw [hparts]
    exact ResponseMessage.statusLine_text (by decide) statusCode _
  have hline' : '\n'.toUInt8 ∉ literal "HTTP/1.1 " ++ statusCode := by
    rw [List.mem_append, not_or]
    exact ⟨by decide, hstatus⟩
  refine isHead_headText hline hline' ?_
  intro field hfield
  rw [fieldsWritten] at hfield
  split_ifs at hfield
  · exact hheader field hfield
  · obtain hfield | hfield := List.mem_append.mp hfield
    · exact hheader field hfield
    · obtain rfl := List.mem_singleton.mp hfield
      exact isField_contentLength size

theorem readsBack_write (hstatus : '\n'.toUInt8 ∉ statusCode)
    (hheader : ∀ field ∈ header, HttpHeader.IsField field)
    (hlength : header.any isContentLength = false)
    (hencoding : header.any isChunkedEncoding = false) (hsize : content.length < 2 ^ 64) :
    ReadsBack (responseFormat bits) (write false statusCode content header)
      ⟨literal "1.1", statusCode, fieldsWritten false header content.length⟩ content := by
  have hvalue : (responseFormat bits).contentLength ⟨literal "1.1", statusCode,
      fieldsWritten false header content.length⟩ = some (Strtoul.decimal content.length) := by
    have hfind := CaseInsensitiveMultimap.find_contentLength_eq_none hlength
    simp [Format.contentLength, responseFormat, fieldsWritten, hlength, hencoding, hfind,
      CaseInsensitiveMultimap.find_append, CaseInsensitiveMultimap.find_contentLength]
  rw [write_eq]
  exact (Body.length hvalue (stoul_decimal hsize)).readsBack
    (isHead_write bits false content.length hstatus hheader)

theorem readsBack_write_iff (hstatus : '\n'.toUInt8 ∉ statusCode)
    (hheader : ∀ field ∈ header, HttpHeader.IsField field)
    (hlength : header.any isContentLength = false)
    (hchunked : header.find (literal "Transfer-Encoding") ≠ some (literal "chunked"))
    (hsession : header.find (literal "Session") ≠ some (literal "close"))
    (hsize : content.length < 2 ^ 64) :
    ReadsBack (responseFormat bits) (write closeConnectionAfterResponse statusCode content header)
        ⟨literal "1.1", statusCode,
          fieldsWritten closeConnectionAfterResponse header content.length⟩ content ↔
      closeConnectionAfterResponse = false ∧ header.any isChunkedEncoding = false ∨
        content = [] := by
  by_cases hsized : closeConnectionAfterResponse = false ∧ header.any isChunkedEncoding = false
  · obtain ⟨rfl, hencoding⟩ := hsized
    exact iff_of_true (readsBack_write hstatus hheader hlength hencoding hsize)
      (.inl ⟨rfl, hencoding⟩)
  · have hhead := isHead_write bits closeConnectionAfterResponse content.length hstatus hheader
    have hfind := CaseInsensitiveMultimap.find_contentLength_eq_none hlength
    have hfields : fieldsWritten closeConnectionAfterResponse header content.length = header := by
      rw [fieldsWritten, if_pos]
      cases closeConnectionAfterResponse with
      | true => simp
      | false => simpa [hlength] using hsized
    rw [write_eq]
    rw [hfields] at hhead ⊢
    rw [readsBack_iff_eq_nil hhead, or_iff_right hsized]
    · simpa [Format.contentLength, responseFormat] using hfind
    · simpa [Format.isChunked, responseFormat] using hchunked
    · have hversion : ¬literal "1.1" < literal "1.1" := by decide
      simp [responseFormat, hversion, hsession]

theorem readsBack_write_iff_capital :
    ¬ReadsBack (responseFormat 32) (write false (literal "200 OK") (literal "hi")
        [(literal "Transfer-Encoding", literal "Chunked")])
      ⟨literal "1.1", literal "200 OK",
        fieldsWritten false [(literal "Transfer-Encoding", literal "Chunked")] 2⟩
      (literal "hi") := by
  exact (readsBack_write_iff (by decide) (by decide) (by decide) (by decide) (by decide)
    (by decide)).not.mpr (by decide)

end Response

structure Client where
  host : Str
  port : ℕ
  proxyServer : Str := []

namespace Client

def correctedPath (client : Client) (path : Str) : Str :=
  let path := if path = [] then literal "/" else path
  if client.proxyServer = [] then path
  else literal "http://" ++ client.host ++ literal ":" ++ Strtoul.decimal client.port ++ path

def createRequestHeader (client : Client) (method path : Str) (header : CaseInsensitiveMultimap) :
    Str :=
  method ++ literal " " ++ client.correctedPath path ++ literal " HTTP/1.1\r\n" ++
    literal "Host: " ++ client.host ++ literal "\r\n" ++ HttpHeader.text header

def lengthField (content : Str) (header : CaseInsensitiveMultimap) : CaseInsensitiveMultimap :=
  if 0 < content.length ∧ header.find (literal "Content-Length") = none ∧
      header.find (literal "Transfer-Encoding") ≠ some (literal "chunked") then
    [(literal "Content-Length", Strtoul.decimal content.length)]
  else []

def request (client : Client) (method path content : Str) (header : CaseInsensitiveMultimap) :
    Str :=
  client.createRequestHeader method path header ++ HttpHeader.text (lengthField content header) ++
    literal "\r\n" ++ content

/-- The request that a server reads: a proxy gets the whole address as the path. -/
def received (client : Client) (method path content : Str) (header : CaseInsensitiveMultimap) :
    RequestMessage :=
  let (path, queryString) := (Scan.last '?'.toUInt8 (client.correctedPath path)).getD
    (client.correctedPath path, [])
  ⟨method, path, queryString, literal "1.1",
    (literal "Host", client.host) :: header ++ lengthField content header⟩

def Sized (content : Str) (header : CaseInsensitiveMultimap) : Prop :=
  match header.find (literal "Content-Length") with
  | some value => Strtoul.stoul 64 10 value = some content.length
  | none => header.find (literal "Transfer-Encoding") ≠ some (literal "chunked") ∧
    content.length < 2 ^ 64

instance (content : Str) (header : CaseInsensitiveMultimap) : Decidable (Sized content header) := by
  unfold Sized
  split <;> infer_instance

variable {client : Client} {method path content : Str} {header : CaseInsensitiveMultimap}

theorem request_eq (client : Client) (method path content : Str)
    (header : CaseInsensitiveMultimap) :
    client.request method path content header =
      headText (method ++ ' '.toUInt8 :: (client.correctedPath path ++ literal " HTTP/1.1"))
        ((literal "Host", client.host) :: header ++ lengthField content header) ++ content := by
  have hspace : literal " " = [' '.toUInt8] := by decide
  have hline : literal " HTTP/1.1\r\n" = literal " HTTP/1.1" ++ literal "\r\n" := by decide
  have hhost : literal "Host: " = literal "Host" ++ literal ": " := by decide
  simp [request, createRequestHeader, headText, HttpHeader.text, hspace, hline, hhost]

theorem not_mem_correctedPath {c : UInt8} (hc : ¬(48 ≤ c ∧ c ≤ 57)) (hhttp : c ∉ literal "http://")
    (hcolon : c ∉ literal ":") (hslash : c ∉ literal "/") (hhost : c ∉ client.host)
    (hpath : c ∉ path) : c ∉ client.correctedPath path := by
  have hpath' : c ∉ if path = [] then literal "/" else path := by
    split_ifs
    · exact hslash
    · exact hpath
  have hport : c ∉ Strtoul.decimal client.port := fun hmem =>
    hc (Strtoul.digit_of_mem_decimal hmem).2
  simp only [correctedPath]
  generalize (if path = [] then literal "/" else path) = path at hpath'
  split_ifs
  · exact hpath'
  · simp only [List.mem_append, not_or]
    exact ⟨⟨⟨⟨hhttp, hhost⟩, hcolon⟩, hport⟩, hpath'⟩

theorem isHead_request (bits : ℕ) (hmethod : ' '.toUInt8 ∉ method)
    (hmethod' : '\n'.toUInt8 ∉ method)
    (hhost : ' '.toUInt8 ∉ client.host) (hhost' : '\n'.toUInt8 ∉ client.host)
    (hpath : ' '.toUInt8 ∉ path) (hpath' : '\n'.toUInt8 ∉ path)
    (hheader : ∀ field ∈ header, HttpHeader.IsField field) :
    IsHead (requestFormat bits)
      (headText (method ++ ' '.toUInt8 :: (client.correctedPath path ++ literal " HTTP/1.1"))
        ((literal "Host", client.host) :: header ++ lengthField content header))
      (client.received method path content header) := by
  have htarget : ' '.toUInt8 ∉ client.correctedPath path :=
    not_mem_correctedPath (by decide) (by decide) (by decide) (by decide) hhost hpath
  have htarget' : '\n'.toUInt8 ∉ client.correctedPath path :=
    not_mem_correctedPath (by decide) (by decide) (by decide) (by decide) hhost' hpath'
  have hline : '\n'.toUInt8 ∉
      method ++ ' '.toUInt8 :: (client.correctedPath path ++ literal " HTTP/1.1") := by
    simp only [List.mem_append, List.mem_cons, not_or]
    exact ⟨hmethod', by decide, htarget', by decide⟩
  have hfields : ∀ field ∈ (literal "Host", client.host) :: header ++ lengthField content header,
      HttpHeader.IsField field := by
    intro field hfield
    obtain hfield | hfield := List.mem_append.mp hfield
    · obtain rfl | hfield := List.mem_cons.mp hfield
      · have hname : ':'.toUInt8 ∉ literal "Host" ∧ '\n'.toUInt8 ∉ literal "Host" := by decide
        exact ⟨hname.1, hname.2, hhost'⟩
      · exact hheader field hfield
    · rw [lengthField] at hfield
      split_ifs at hfield
      · obtain rfl := List.mem_singleton.mp hfield
        exact isField_contentLength _
      · cases hfield
  have hfirst : ∃ message, (requestFormat bits).firstLine
      (method ++ ' '.toUInt8 :: (client.correctedPath path ++ literal " HTTP/1.1") ++
        ['\r'.toUInt8]) = some message ∧ (requestFormat bits).withHeader message
          ((literal "Host", client.host) :: header ++ lengthField content header) =
            client.received method path content header := by
    have hparts : method ++ ' '.toUInt8 :: (client.correctedPath path ++ literal " HTTP/1.1") ++
        ['\r'.toUInt8] = method ++ ' '.toUInt8 :: (client.correctedPath path ++ ' '.toUInt8 ::
          (literal "HTTP" ++ '/'.toUInt8 :: (literal "1.1" ++ ['\r'.toUInt8]))) := by
      have hliteral : literal " HTTP/1.1" =
          ' '.toUInt8 :: (literal "HTTP" ++ '/'.toUInt8 :: literal "1.1") := by decide
      simp [hliteral]
    have hprotocol : '/'.toUInt8 ∉ literal "HTTP" := by decide
    have hline := RequestMessage.requestLine_eq hmethod htarget hprotocol
      (literal "1.1" ++ ['\r'.toUInt8])
    rw [if_pos rfl, List.dropLast_concat] at hline
    simp only [requestFormat, hparts, hline, received]
    cases Scan.last '?'.toUInt8 (client.correctedPath path) with
    | none => exact ⟨_, rfl, rfl⟩
    | some r => exact ⟨_, rfl, rfl⟩
  obtain ⟨message, hmessage, heq⟩ := hfirst
  rw [← heq]
  exact isHead_headText hmessage hline hfields

theorem find_received (method path : Str) {name : Str}
    (hname : caseInsensitiveEqual (literal "Host") name = false) :
    (client.received method path content header).header.find name =
      (header.find name).or ((lengthField content header).find name) := by
  have hfields : (client.received method path content header).header =
      (literal "Host", client.host) :: header ++ lengthField content header := rfl
  rw [hfields, CaseInsensitiveMultimap.find_append, CaseInsensitiveMultimap.find_cons_of_ne hname]

theorem body_request (bits : ℕ) (hsized : Sized content header) :
    Body (requestFormat bits) (client.received method path content header) content content := by
  have hvalue : (requestFormat bits).contentLength (client.received method path content header) =
      (header.find (literal "Content-Length")).or
        ((lengthField content header).find (literal "Content-Length")) :=
    find_received method path (by decide)
  have hencoding : (requestFormat bits).isChunked (client.received method path content header) =
      decide ((header.find (literal "Transfer-Encoding")).or
        ((lengthField content header).find (literal "Transfer-Encoding")) =
          some (literal "chunked")) := by
    rw [← find_received method path (by decide)]
    rfl
  rw [Sized] at hsized
  cases hfind : header.find (literal "Content-Length") with
  | some value =>
    rw [hfind] at hsized hvalue
    exact .length hvalue hsized
  | none =>
    simp only [hfind] at hsized
    rw [hfind, Option.none_or] at hvalue
    cases content with
    | nil =>
      have hfield : lengthField [] header = [] := by simp [lengthField]
      have hnone (name : Str) : CaseInsensitiveMultimap.find [] name = none := rfl
      rw [hfield, hnone] at hvalue
      rw [hfield, hnone, Option.or_none, decide_eq_false hsized.1] at hencoding
      exact .empty hvalue hencoding rfl
    | cons c content =>
      have hfield : lengthField (c :: content) header =
          [(literal "Content-Length", Strtoul.decimal (c :: content).length)] := by
        simp [lengthField, hfind, hsized.1]
      rw [hfield, CaseInsensitiveMultimap.find_contentLength] at hvalue
      exact .length hvalue (stoul_decimal hsized.2)

theorem readsBack_request (bits : ℕ) (hmethod : ' '.toUInt8 ∉ method)
    (hmethod' : '\n'.toUInt8 ∉ method)
    (hhost : ' '.toUInt8 ∉ client.host) (hhost' : '\n'.toUInt8 ∉ client.host)
    (hpath : ' '.toUInt8 ∉ path) (hpath' : '\n'.toUInt8 ∉ path)
    (hheader : ∀ field ∈ header, HttpHeader.IsField field) (hsized : Sized content header) :
    ReadsBack (requestFormat bits) (client.request method path content header)
      (client.received method path content header) content := by
  rw [request_eq]
  exact (body_request bits hsized).readsBack
    (isHead_request bits hmethod hmethod' hhost hhost' hpath hpath' hheader)

theorem readsBack_request_proxy :
    ReadsBack (requestFormat 32)
      (Client.request ⟨literal "localhost", 12450, literal "proxy"⟩ (literal "POST")
        (literal "/danmaku?a?b") (literal "hi") [(literal "Accept", literal "*/*")])
      (Client.received ⟨literal "localhost", 12450, literal "proxy"⟩ (literal "POST")
        (literal "/danmaku?a?b") (literal "hi") [(literal "Accept", literal "*/*")])
      (literal "hi") :=
  readsBack_request 32 (by decide) (by decide) (by decide) (by decide) (by decide) (by decide)
    (by decide) (by decide)

end Client

end DanmakuChicken.SimpleWeb
