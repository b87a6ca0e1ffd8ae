import DanmakuChicken.SimpleWeb.Reading

namespace DanmakuChicken.SimpleWeb

/-- A text that the parser takes for the header of `message`, whatever follows it. -/
structure IsHead {μ : Type} (fmt : Format μ) (head : Str) (message : μ) : Prop where
  through : Search.through headEnd head = some (head, [])
  parse (z : Str) : fmt.parse ⟨head ++ z, true⟩ = some (⟨z, true⟩, some message)

theorem IsHead.ne_nil {μ : Type} {fmt : Format μ} {head : Str} {message : μ}
    (h : IsHead fmt head message) : head ≠ [] := by
  have hempty : Search.through headEnd ([] : Str) = none := by decide
  rintro rfl
  have hthrough := h.through
  rw [hempty] at hthrough
  cases hthrough

theorem isHead_headText {μ : Type} {fmt : Format μ} {line : Str} {message : μ}
    (hmessage : fmt.firstLine (line ++ ['\r'.toUInt8]) = some message)
    (hline : '\n'.toUInt8 ∉ line) {header : CaseInsensitiveMultimap}
    (hheader : ∀ field ∈ header, HttpHeader.IsField field) :
    IsHead fmt (headText line header) (fmt.withHeader message header) :=
  ⟨through_headText hline hheader, parse_headText hmessage hline hheader⟩

structure IsSize (bits : ℕ) (line : Str) (n : ℕ) : Prop where
  not_mem : '\n'.toUInt8 ∉ line
  stoul : Strtoul.stoul bits 16 line = some n
  lt : 2 + n < 2 ^ bits

mutual

inductive Chunked (bits : ℕ) : Str → Str → Prop
  | chunk {line data text content : Str} (hline : IsSize bits line data.length)
    (h : Behind bits data text content) :
    Chunked bits (line ++ Reading.crlf ++ (data ++ Reading.crlf ++ text)) (data ++ content)

inductive Behind (bits : ℕ) : Str → Str → Str → Prop
  | last : Behind bits [] [] []
  | more {data text content : Str} (hdata : data ≠ []) (h : Chunked bits text content) :
    Behind bits data text content

end

variable {μ : Type} (fmt : Format μ)

inductive Body (message : μ) : Str → Str → Prop
  | length {value content : Str} (hvalue : fmt.contentLength message = some value)
    (hlength : Strtoul.stoul 64 10 value = some content.length) : Body message content content
  | chunked {text content : Str} (hlength : fmt.contentLength message = none)
    (hchunked : fmt.isChunked message) (h : Chunked fmt.bits text content) :
    Body message text content
  | empty (hlength : fmt.contentLength message = none)
    (hchunked : fmt.isChunked message = false) (hend : fmt.toEnd message = false) :
    Body message [] []

def Format.delivered (message : μ) (content surplus : Str) : Str :=
  if fmt.contentLength message = none ∧ fmt.isChunked message then surplus ++ content
  else content ++ surplus

namespace Reading

/-- The text that a phase of reading still expects from `buf` on. -/
inductive Expects (head : Str) (message : μ) (content : Str) : Phase μ → Str → Str → Prop
  | head {buf body : Str} (hbody : Body fmt message body content) :
    Expects head message content .head buf (head ++ body)
  | content {buf : Str} {need : ℕ} (hneed : buf.length + need = content.length)
    (hlength : fmt.contentLength message ≠ none) :
    Expects head message content (.content message need) buf content
  | chunkSize {buf chunks text rest : Str} (htext : Chunked fmt.bits text rest)
    (hcontent : content = chunks ++ rest) (hlength : fmt.contentLength message = none)
    (hchunked : fmt.isChunked message) :
    Expects head message content (.chunkSize message chunks) buf text
  | chunk {buf chunks data text rest : Str} {need : ℕ} (hneed : buf.length + need = data.length + 2)
    (htext : Behind fmt.bits data text rest) (hcontent : content = chunks ++ (data ++ rest))
    (hlength : fmt.contentLength message = none) (hchunked : fmt.isChunked message) :
    Expects head message content (.chunk message chunks data.length need) buf
      (data ++ crlf ++ text)

/-- The state of a reader while `unsent` has not arrived yet of the message and of what the
sender sends `extra`. -/
inductive Reads (head : Str) (message : μ) (content extra : Str) : Reading μ → Str → Prop
  | pending {incoming buf text unsent : Str} {phase : Phase μ}
    (h : Expects fmt head message content phase buf text)
    (heq : buf ++ (incoming ++ unsent) = text ++ extra) :
    Reads head message content extra ⟨incoming, ⟨buf, true⟩, phase⟩ unsent
  | done {incoming surplus unsent : Str} (hextra : extra = surplus ++ (incoming ++ unsent)) :
    Reads head message content extra
      ⟨incoming, ⟨fmt.delivered message content surplus, true⟩, .done message⟩ unsent

variable {fmt} {head content extra : Str} {message : μ}

theorem exists_of_append_eq {s t p r : Str} (h : s ++ t = p ++ r) (hlen : p.length ≤ s.length) :
    ∃ s', s = p ++ s' ∧ s' ++ t = r := by
  obtain ⟨s', rfl⟩ : p <+: s :=
    List.prefix_of_prefix_length_le ⟨r, h.symm⟩ (List.prefix_append s t) hlen
  rw [List.append_assoc] at h
  exact ⟨s', rfl, List.append_cancel_left h⟩

theorem readChunk_reads {incoming buf chunks data text rest unsent : Str}
    (hlen : data.length + 2 ≤ buf.length) (htext : Behind fmt.bits data text rest)
    (hcontent : content = chunks ++ (data ++ rest)) (hlength : fmt.contentLength message = none)
    (hchunked : fmt.isChunked message)
    (heq : buf ++ (incoming ++ unsent) = data ++ crlf ++ text ++ extra) :
    Reads fmt head message content extra
      (readChunk incoming message chunks data.length ⟨buf, true⟩) unsent := by
  have hcrlf : crlf.length = 2 := by decide
  rw [List.append_assoc] at heq
  obtain ⟨buf, rfl, hrest⟩ :=
    exists_of_append_eq heq (by rw [List.length_append, hcrlf]; exact hlen)
  have hdata : data.length ≤ (data ++ crlf ++ buf).length := by omega
  have htake : (data ++ crlf ++ buf).take data.length = data := by
    rw [List.append_assoc, List.take_left]
  have hdrop : (data ++ crlf ++ buf).drop (data.length + 2) = buf := by
    rw [← hcrlf, ← List.length_append, List.drop_left]
  rw [readChunk, if_pos hdata]
  simp only [htake, hdrop, hlen, decide_true, Bool.and_self]
  cases htext with
  | last =>
    have hdelivered : buf ++ (chunks ++ []) = fmt.delivered message content buf := by
      simp [Format.delivered, hlength, hchunked, hcontent]
    rw [if_neg (by simp), hdelivered]
    exact .done hrest.symm
  | more hdata h =>
    rw [if_pos (List.length_pos_iff.mpr hdata)]
    exact .pending (.chunkSize h (by rw [hcontent, List.append_assoc]) hlength hchunked) hrest

theorem through_crlf {line : Str} (h : '\n'.toUInt8 ∉ line) (s : Str) :
    Search.through crlf (line ++ crlf ++ s) = some (line ++ crlf, s) := by
  have hcrlf : crlf = ['\r'.toUInt8, '\n'.toUInt8] := by decide
  induction line with
  | nil =>
    rw [List.nil_append, Search.through_of_isPrefix (List.prefix_append _ _), List.drop_left]
  | cons c line ih =>
    rw [List.mem_cons, not_or] at h
    rw [List.cons_append, List.cons_append, Search.through_cons_of_not_isPrefix, ih h.2]
    · rfl
    · intro hpre
      cases line with
      | nil =>
        rw [hcrlf, List.nil_append, List.cons_append, List.cons_prefix_cons,
          List.cons_prefix_cons] at hpre
        exact absurd hpre.2.1 (by decide)
      | cons d line =>
        rw [List.mem_cons, not_or] at h
        rw [hcrlf, List.cons_append, List.cons_append, List.cons_prefix_cons,
          List.cons_prefix_cons] at hpre
        exact h.2.1 hpre.2.1

theorem eq_of_through {delim buf t x y s r : Str} (h : Search.through delim buf = some (x, y))
    (heq : buf ++ t = s ++ r) (hs : Search.through delim (s ++ r) = some (s, r)) :
    x = s ∧ buf = s ++ y ∧ y ++ t = r := by
  have hwhole := Search.through_append h t
  rw [heq, hs] at hwhole
  simp only [Option.some.injEq, Prod.mk.injEq] at hwhole
  obtain ⟨rfl, rfl⟩ := hwhole
  exact ⟨rfl, (Search.eq_append_of_through h).1, rfl⟩

theorem onChunkSize_reads {incoming buf x y chunks text rest unsent : Str}
    (hthrough : Search.through crlf buf = some (x, y)) (htext : Chunked fmt.bits text rest)
    (hcontent : content = chunks ++ rest) (hlength : fmt.contentLength message = none)
    (hchunked : fmt.isChunked message)
    (heq : buf ++ (incoming ++ unsent) = text ++ extra) :
    Reads fmt head message content extra
      (onChunkSize fmt incoming message chunks ⟨buf, true⟩ x.length) unsent := by
  cases htext with
  | @chunk line data text rest hline h =>
    rw [List.append_assoc] at heq
    obtain ⟨rfl, rfl, hrest⟩ := eq_of_through hthrough heq (through_crlf hline.not_mem _)
    have hcrlf : crlf = ['\r'.toUInt8, '\n'.toUInt8] := by decide
    have hgetline : getline ⟨line ++ crlf ++ y, true⟩ [] =
        (⟨y, true⟩, line ++ ['\r'.toUInt8]) := by
      have hmem : '\n'.toUInt8 ∉ line ++ ['\r'.toUInt8] := by
        rw [List.mem_append, not_or]
        exact ⟨hline.not_mem, by decide⟩
      have hparts : line ++ crlf ++ y = (line ++ ['\r'.toUInt8]) ++ '\n'.toUInt8 :: y := by
        simp [hcrlf]
      rw [hparts, getline_line hmem]
    have htransferred : (line ++ crlf).length - ((line ++ ['\r'.toUInt8]).length + 1) = 0 := by
      simp [hcrlf]
    simp only [onChunkSize, hgetline, htransferred, List.append_eq_nil_iff, List.cons_ne_nil,
      and_false, if_false, List.dropLast_concat, hline.stoul, Nat.mod_eq_of_lt hline.lt,
      Nat.sub_zero]
    split_ifs with hmore
    · refine .pending (.chunk ?_ h hcontent hlength hchunked) hrest
      omega
    · exact readChunk_reads (by omega) h hcontent hlength hchunked hrest

theorem onHead_reads {incoming buf x y body unsent : Str}
    (hthrough : Search.through headEnd buf = some (x, y)) (hhead : IsHead fmt head message)
    (hbody : Body fmt message body content)
    (heq : buf ++ (incoming ++ unsent) = head ++ body ++ extra) :
    Reads fmt head message content extra (onHead fmt incoming ⟨buf, true⟩ x.length) unsent := by
  rw [List.append_assoc] at heq
  have hwhole := Search.through_append hhead.through (body ++ extra)
  rw [List.nil_append] at hwhole
  obtain ⟨rfl, rfl, hrest⟩ := eq_of_through hthrough heq hwhole
  have hadditional : (x ++ y).length - x.length = y.length := by simp
  simp only [onHead, hhead.parse, hadditional]
  cases hbody with
  | @length value _ hvalue hlength =>
    simp only [hvalue, hlength]
    split_ifs with hmore
    · exact .pending (.content (by omega) (by simp [hvalue])) hrest
    · obtain ⟨surplus, rfl, hextra⟩ := exists_of_append_eq hrest (not_lt.mp hmore)
      have hdelivered : content ++ surplus = fmt.delivered message content surplus := by
        rw [Format.delivered, if_neg (by simp [hvalue])]
      rw [hdelivered]
      exact .done hextra.symm
  | chunked hlength hchunked h =>
    simp only [hlength, hchunked, if_true]
    exact .pending (.chunkSize h rfl hlength hchunked) hrest
  | empty hlength hchunked hend =>
    have hdelivered : y = fmt.delivered message [] y := by simp [Format.delivered, hchunked]
    simp only [hlength, hchunked, hend, Bool.false_eq_true, if_false]
    rw [hdelivered]
    exact .done hrest.symm

theorem Reads.receive {s : Reading μ} {unsent : Str} {n : ℕ}
    (h : Reads fmt head message content extra s unsent) (hle : n ≤ s.incoming.length)
    (htakes : s.takes n) : Reads fmt head message content extra (s.receive n) unsent := by
  cases h with
  | @pending incoming buf text unsent phase h heq =>
    have hlen : (incoming.take n).length = n := List.length_take_of_le hle
    have hrest : buf ++ incoming.take n ++ (incoming.drop n ++ unsent) = text ++ extra := by
      rw [← heq, List.append_assoc, ← List.append_assoc _ _ unsent, List.take_append_drop]
    cases h with
    | head hbody => exact .pending (.head hbody) hrest
    | @content _ need hneed hlength =>
      have hn : n ≤ need := of_decide_eq_true htakes
      have hneed' : (buf ++ incoming.take n).length + (need - n) = content.length := by
        rw [List.length_append, hlen]
        omega
      exact .pending (.content hneed' hlength) hrest
    | chunkSize htext hcontent hlength hchunked =>
      exact .pending (.chunkSize htext hcontent hlength hchunked) hrest
    | @chunk _ chunks data text rest need hneed htext hcontent hlength hchunked =>
      have hn : n ≤ need := of_decide_eq_true htakes
      have hneed' : (buf ++ incoming.take n).length + (need - n) = data.length + 2 := by
        rw [List.length_append, hlen]
        omega
      exact .pending (.chunk hneed' htext hcontent hlength hchunked) hrest
  | done hextra => cases htakes

theorem Reads.complete {s t : Reading μ} {unsent : Str} (hhead : IsHead fmt head message)
    (h : Reads fmt head message content extra s unsent) (ht : s.complete fmt = some t) :
    Reads fmt head message content extra t unsent := by
  cases h with
  | @pending incoming buf text unsent phase h heq =>
    cases h with
    | head hbody =>
      obtain ⟨⟨x, y⟩, hthrough, rfl⟩ := Option.map_eq_some_iff.mp ht
      exact onHead_reads hthrough hhead hbody heq
    | @content _ need hneed hlength =>
      cases need with
      | succ need => cases ht
      | zero =>
        cases ht
        obtain ⟨surplus, rfl, hextra⟩ := exists_of_append_eq heq (by omega)
        obtain rfl : surplus = [] := by simpa using hneed
        have hdelivered : content ++ [] = fmt.delivered message content [] := by
          simp [Format.delivered]
        rw [hdelivered]
        exact .done hextra.symm
    | chunkSize htext hcontent hlength hchunked =>
      obtain ⟨⟨x, y⟩, hthrough, rfl⟩ := Option.map_eq_some_iff.mp ht
      exact onChunkSize_reads hthrough htext hcontent hlength hchunked heq
    | @chunk _ chunks data text rest need hneed htext hcontent hlength hchunked =>
      cases need with
      | succ need => cases ht
      | zero =>
        cases ht
        exact readChunk_reads (by omega) htext hcontent hlength hchunked heq
  | done hextra => cases ht

theorem Reads.step {s t : Reading μ} {unsent : Str} {a : Action} (hhead : IsHead fmt head message)
    (h : Reads fmt head message content extra s (arrivedBy a ++ unsent)) (ha : a ≠ .close)
    (ht : step fmt s a = some t) : Reads fmt head message content extra t unsent := by
  cases a with
  | arrive bytes =>
    cases ht
    cases h with
    | pending h heq => exact .pending h (by rw [List.append_assoc]; exact heq)
    | done hextra => exact .done (by rw [List.append_assoc]; exact hextra)
  | receive n =>
    obtain ⟨⟨-, hle, htakes⟩, rfl⟩ := Option.ite_none_right_eq_some.mp ht |>.imp_right
      Option.some.inj
    exact h.receive hle htakes
  | complete => exact h.complete hhead ht
  | close => exact absurd rfl ha

theorem reads_of_run {body incoming unsent : Str} {actions : List Action} {u : Reading μ}
    (hhead : IsHead fmt head message) (hbody : Body fmt message body content)
    (hclose : .close ∉ actions)
    (htext : incoming ++ (arrived actions ++ unsent) = head ++ body ++ extra)
    (hrun : Lts.run (Reading.step fmt) { incoming := incoming } actions = some u) :
    Reads fmt head message content extra u unsent := by
  have hgeneral {s : Reading μ} {actions : List Action} (hclose : .close ∉ actions)
      (h : Reads fmt head message content extra s (arrived actions ++ unsent))
      (hrun : Lts.run (Reading.step fmt) s actions = some u) :
      Reads fmt head message content extra u unsent := by
    induction actions generalizing s with
    | nil =>
      cases hrun
      exact h
    | cons a actions ih =>
      obtain ⟨t, ht, hrun⟩ := Lts.run_cons_eq_some.mp hrun
      rw [List.mem_cons, not_or] at hclose
      rw [arrived, List.flatMap_cons, List.append_assoc] at h
      exact ih hclose.2 (h.step hhead (Ne.symm hclose.1) ht) hrun
  exact hgeneral hclose (.pending (.head hbody) htext) hrun

theorem Reads.progress {s : Reading μ} (hhead : IsHead fmt head message)
    (h : Reads fmt head message content extra s []) :
    s.phase = .done message ∨ (Reading.step fmt s (.receive 1)).isSome ∨
      (Reading.step fmt s .complete).isSome := by
  cases h with
  | done hextra => exact .inl rfl
  | @pending incoming buf text _ phase h heq =>
    rw [List.append_nil] at heq
    have hreceive (htakes : takes ⟨incoming, ⟨buf, true⟩, phase⟩ 1) (hne : incoming ≠ []) :
        (Reading.step fmt ⟨incoming, ⟨buf, true⟩, phase⟩ (.receive 1)).isSome := by
      have hlen := List.length_pos_iff.mpr hne
      rw [Reading.step, if_pos ⟨one_pos, hlen, htakes⟩]
      rfl
    have hlens := congrArg List.length heq
    rw [List.length_append, List.length_append] at hlens
    right
    cases h with
    | @head _ body hbody =>
      cases hthrough : Search.through headEnd buf with
      | some r => exact .inr (by simp [Reading.step, Reading.complete, hthrough])
      | none =>
        refine .inl (hreceive (by simp [takes, hthrough]) ?_)
        rintro rfl
        rw [List.append_nil, List.append_assoc] at heq
        rw [heq, Search.through_append hhead.through] at hthrough
        cases hthrough
    | @content _ need hneed hlength =>
      cases need with
      | zero => exact .inr (by simp [Reading.step, Reading.complete])
      | succ need =>
        refine .inl (hreceive (by simp [takes]) ?_)
        rintro rfl
        rw [List.length_nil] at hlens
        omega
    | @chunkSize _ chunks _ rest htext hcontent hlength hchunked =>
      cases hthrough : Search.through crlf buf with
      | some r => exact .inr (by simp [Reading.step, Reading.complete, hthrough])
      | none =>
        refine .inl (hreceive (by simp [takes, hthrough]) ?_)
        rintro rfl
        cases htext with
        | chunk hline h =>
          rw [List.append_nil, List.append_assoc] at heq
          rw [heq, through_crlf hline.not_mem] at hthrough
          cases hthrough
    | @chunk _ chunks data text rest need hneed htext hcontent hlength hchunked =>
      cases need with
      | zero => exact .inr (by simp [Reading.step, Reading.complete])
      | succ need =>
        refine .inl (hreceive (by simp [takes]) ?_)
        rintro rfl
        have hcrlf : crlf.length = 2 := by decide
        simp only [List.length_append, List.length_nil, hcrlf] at hlens
        omega

theorem content_of_run {body incoming unsent : Str} {actions : List Action} {u : Reading μ}
    (hhead : IsHead fmt head message) (hbody : Body fmt message body content)
    (hclose : .close ∉ actions)
    (htext : incoming ++ (arrived actions ++ unsent) = head ++ body ++ extra)
    (hrun : Lts.run (Reading.step fmt) { incoming := incoming } actions = some u) :
    u.phase ≠ .failed ∧ u.phase ≠ .hung ∧ u.phase ≠ .undefined ∧
      ∀ message', u.phase = .done message' → message' = message ∧
        ∃ surplus, extra = surplus ++ (u.incoming ++ unsent) ∧
          u.stream.buf = fmt.delivered message content surplus := by
  cases reads_of_run hhead hbody hclose htext hrun with
  | pending h heq =>
    cases h <;> simp
  | @done incoming surplus unsent hextra =>
    refine ⟨by simp, by simp, by simp, ?_⟩
    rintro message' hdone
    cases hdone
    exact ⟨rfl, surplus, hextra, rfl⟩

def chunkedHead : Str :=
  headText (literal "GET / HTTP/1.1") [(literal "Transfer-Encoding", literal "chunked")]

def chunkedRequest : RequestMessage :=
  ⟨literal "GET", literal "/", [], literal "1.1",
    [(literal "Transfer-Encoding", literal "chunked")]⟩

theorem isHead_chunkedHead : IsHead (requestFormat 32) chunkedHead chunkedRequest := by
  have hline : (requestFormat 32).firstLine (literal "GET / HTTP/1.1" ++ ['\r'.toUInt8]) =
      some ⟨literal "GET", literal "/", [], literal "1.1", []⟩ := by decide
  exact isHead_headText hline (by decide) (by decide)

def chunkedBody : Str := literal "2\r\nhi\r\n0\r\n\r\n"

theorem body_chunkedBody :
    Body (requestFormat 32) chunkedRequest chunkedBody (literal "hi") := by
  have hlast : Chunked 32 (literal "0" ++ crlf ++ (literal "" ++ crlf ++ [])) (literal "" ++ []) :=
    .chunk ⟨by decide, by decide, by decide⟩ .last
  have hchunks : Chunked 32 (literal "2" ++ crlf ++ (literal "hi" ++ crlf ++
      (literal "0" ++ crlf ++ (literal "" ++ crlf ++ [])))) (literal "hi" ++ (literal "" ++ [])) :=
    .chunk ⟨by decide, by decide, by decide⟩ (.more (by decide) hlast)
  exact .chunked (by decide) (by decide) hchunks

def chunkedAtOnce : List Action :=
  [.arrive (chunkedHead ++ chunkedBody ++ literal "!"), .receive 59, .complete, .complete,
    .complete]

theorem isSome_chunkedAtOnce : (Lts.run (step (requestFormat 32)) {} chunkedAtOnce).isSome := by
  decide

theorem content_of_run_chunkedAtOnce :
    ∃ u, Lts.run (step (requestFormat 32)) {} chunkedAtOnce = some u ∧
      u.phase ≠ .failed ∧ u.phase ≠ .hung ∧ u.phase ≠ .undefined ∧
        ∀ message', u.phase = .done message' → message' = chunkedRequest ∧
          ∃ surplus, literal "!" = surplus ++ (u.incoming ++ []) ∧
            u.stream.buf = (requestFormat 32).delivered chunkedRequest (literal "hi") surplus :=
  ⟨_, (Option.some_get isSome_chunkedAtOnce).symm,
    content_of_run isHead_chunkedHead body_chunkedBody (by decide) (by decide)
      (Option.some_get isSome_chunkedAtOnce).symm⟩

theorem Reads.eq_of_stuck {s : Reading μ} (hhead : IsHead fmt head message)
    (h : Reads fmt head message content [] s []) (hreceive : Reading.step fmt s (.receive 1) = none)
    (hcomplete : Reading.step fmt s .complete = none) :
    s = ⟨[], ⟨content, true⟩, .done message⟩ := by
  obtain hdone | hsome | hsome := h.progress hhead
  · cases h with
    | pending h _ => cases h <;> cases hdone
    | @done incoming surplus _ hextra =>
      obtain ⟨rfl, rfl⟩ : surplus = [] ∧ incoming = [] := by simpa using hextra
      simp [Format.delivered]
  · simp [hreceive] at hsome
  · simp [hcomplete] at hsome

theorem content_of_stuck {body : Str} {actions : List Action} {u : Reading μ}
    (hhead : IsHead fmt head message) (hbody : Body fmt message body content)
    (hclose : .close ∉ actions) (htext : arrived actions = head ++ body)
    (hrun : Lts.run (Reading.step fmt) {} actions = some u)
    (hreceive : step fmt u (.receive 1) = none) (hcomplete : step fmt u .complete = none) :
    u = ⟨[], ⟨content, true⟩, .done message⟩ := by
  have h : Reads fmt head message content [] u [] :=
    reads_of_run hhead hbody hclose (by simpa using htext) hrun
  exact h.eq_of_stuck hhead hreceive hcomplete

def chunkedInPieces : List Action :=
  [.arrive (chunkedHead.take 20), .receive 20, .arrive (chunkedHead.drop 20 ++ chunkedBody.take 4),
    .receive 30, .complete, .complete, .arrive (chunkedBody.drop 4), .receive 3, .complete,
    .receive 5, .complete]

theorem isSome_chunkedInPieces :
    (Lts.run (step (requestFormat 32)) {} chunkedInPieces).isSome := by decide

theorem content_of_stuck_chunkedInPieces :
    Lts.run (step (requestFormat 32)) {} chunkedInPieces =
      some ⟨[], ⟨literal "hi", true⟩, .done chunkedRequest⟩ := by
  have hrun := (Option.some_get isSome_chunkedInPieces).symm
  rw [hrun, content_of_stuck isHead_chunkedHead body_chunkedBody (by decide) (by decide) hrun rfl
    rfl]

end Reading

end DanmakuChicken.SimpleWeb
