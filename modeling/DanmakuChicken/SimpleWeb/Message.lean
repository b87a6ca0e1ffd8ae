import DanmakuChicken.Lib.Search
import DanmakuChicken.SimpleWeb.HttpHeader

namespace DanmakuChicken.SimpleWeb

/-- What `RequestMessage::parse` and `ResponseMessage::parse` do: the stream behind the header,
and the message unless they return `false`. -/
def parseMessage {μ : Type} (firstLine : Str → Option μ)
    (withHeader : μ → CaseInsensitiveMultimap → μ) (stream : Istream) :
    Option (Istream × Option μ) :=
  let (stream, line) := getline stream []
  match firstLine line with
  | none => some (stream, none)
  | some message =>
    (HttpHeader.parse stream).map fun (stream, header) =>
      (stream, some (withHeader message header))

structure RequestMessage where
  method : Str
  path : Str
  queryString : Str
  version : Str
  header : CaseInsensitiveMultimap := []
  deriving DecidableEq

namespace RequestMessage

def pathAndQueryString : ℕ → Str → Option ℕ → Option (Option ℕ × ℕ)
  | _, [], _ => none
  | i, chr :: rest, queryStart =>
    if chr = '?'.toUInt8 ∧ rest ≠ [] then pathAndQueryString (i + 1) rest (some (i + 1))
    else if chr = ' '.toUInt8 then some (queryStart, i)
    else pathAndQueryString (i + 1) rest queryStart

/-- The request line, where `queryString` is what the variable holds before. -/
def requestLine (line queryString : Str) : Option RequestMessage := do
  let methodEnd ← line.idxOf? ' '.toUInt8
  let (queryStart, pathAndQueryStringEnd) ←
    pathAndQueryString (methodEnd + 1) (line.drop (methodEnd + 1)) none
  let path :=
    match queryStart with
    | some queryStart => substr line (methodEnd + 1) (queryStart - methodEnd - 2)
    | none => substr line (methodEnd + 1) (pathAndQueryStringEnd - methodEnd - 1)
  let queryString :=
    match queryStart with
    | some queryStart => substr line queryStart (pathAndQueryStringEnd - queryStart)
    | none => queryString
  let protocol ← (line.drop (pathAndQueryStringEnd + 1)).idxOf? '/'.toUInt8
  let protocolEnd := pathAndQueryStringEnd + 1 + protocol
  if substr line (pathAndQueryStringEnd + 1) (protocolEnd - pathAndQueryStringEnd - 1) =
      literal "HTTP" then
    some
      { method := substr line 0 methodEnd
        path := path
        queryString := queryString
        version := substr line (protocolEnd + 1) (line.length - protocolEnd - 2) }
  else none

def parse (stream : Istream) : Option (Istream × Option RequestMessage) :=
  parseMessage (requestLine · []) (fun request header => { request with header := header }) stream

theorem pathAndQueryString_append {target : Str} (h : ' '.toUInt8 ∉ target) (rest : Str) (i : ℕ)
    (queryStart : Option ℕ) :
    pathAndQueryString i (target ++ ' '.toUInt8 :: rest) queryStart =
      some (match Scan.last '?'.toUInt8 target with
        | none => queryStart
        | some (path, _) => some (i + path.length + 1), i + target.length) := by
  induction target generalizing i queryStart with
  | nil =>
    rw [List.nil_append, pathAndQueryString, if_neg fun hchr => absurd hchr.1 (by decide),
      if_pos rfl]
    rfl
  | cons chr target ih =>
    rw [List.mem_cons, not_or] at h
    rw [List.cons_append, pathAndQueryString, Scan.last]
    by_cases hchr : chr = '?'.toUInt8
    · rw [if_pos ⟨hchr, by simp⟩, ih h.2]
      cases Scan.last '?'.toUInt8 target with
      | none => simp [hchr, add_assoc, add_comm 1]
      | some r => simp [add_assoc, add_comm 1]
    · rw [if_neg fun hboth => hchr hboth.1, if_neg (Ne.symm h.1), ih h.2]
      cases Scan.last '?'.toUInt8 target with
      | none => simp [hchr, add_assoc, add_comm 1]
      | some r => simp [add_assoc, add_comm 1]

theorem requestLine_eq {method target protocol : Str} (hmethod : ' '.toUInt8 ∉ method)
    (htarget : ' '.toUInt8 ∉ target) (hprotocol : '/'.toUInt8 ∉ protocol) (version : Str) :
    requestLine (method ++ ' '.toUInt8 :: (target ++ ' '.toUInt8 ::
        (protocol ++ '/'.toUInt8 :: version))) [] =
      if protocol = literal "HTTP" then
        match Scan.last '?'.toUInt8 target with
        | none => some ⟨method, target, [], version.dropLast, []⟩
        | some (path, queryString) => some ⟨method, path, queryString, version.dropLast, []⟩
      else none := by
  generalize hline : method ++ ' '.toUInt8 :: (target ++ ' '.toUInt8 ::
    (protocol ++ '/'.toUInt8 :: version)) = line
  have hlen : line.length =
      method.length + 1 + target.length + 1 + protocol.length + 1 + version.length := by
    rw [← hline]
    simp only [List.length_append, List.length_cons]
    omega
  have hmethodEnd : line.idxOf? ' '.toUInt8 = some method.length := by
    rw [← hline, Scan.idxOf?_append_cons hmethod]
  have hbehind : line.drop (method.length + 1) =
      target ++ ' '.toUInt8 :: (protocol ++ '/'.toUInt8 :: version) := by
    rw [← hline, drop_append_cons]
  have htargetEnd : line.drop (method.length + 1 + target.length + 1) =
      protocol ++ '/'.toUInt8 :: version := by
    rw [add_assoc _ target.length, ← List.drop_drop, hbehind, drop_append_cons]
  have hprotocolEnd : (line.drop (method.length + 1 + target.length + 1)).idxOf? '/'.toUInt8 =
      some protocol.length := by rw [htargetEnd, Scan.idxOf?_append_cons hprotocol]
  have hprotocol' : substr line (method.length + 1 + target.length + 1) (method.length + 1 +
      target.length + 1 + protocol.length - (method.length + 1 + target.length) - 1) =
        protocol :=
    substr_of_eq (method ++ ' '.toUInt8 :: (target ++ [' '.toUInt8]))
      ('/'.toUInt8 :: version) (by simp [← hline])
      (by simp only [List.length_append, List.length_cons, List.length_nil]; omega) (by omega)
  have hversion : substr line (method.length + 1 + target.length + 1 + protocol.length + 1)
      (line.length - (method.length + 1 + target.length + 1 + protocol.length) - 2) =
        version.dropLast := by
    have hdrop : line.drop (method.length + 1 + target.length + 1 + protocol.length + 1) =
        version := by
      rw [add_assoc _ protocol.length, ← List.drop_drop, htargetEnd, drop_append_cons]
    rw [substr, hdrop, List.dropLast_eq_take]
    congr 1
    omega
  have hmethod' : substr line 0 method.length = method :=
    substr_of_eq [] (' '.toUInt8 :: (target ++ ' '.toUInt8 ::
      (protocol ++ '/'.toUInt8 :: version))) (by simp [← hline]) rfl rfl
  rw [requestLine, hmethodEnd, Option.bind_eq_bind, Option.bind_some, hbehind,
    pathAndQueryString_append htarget]
  dsimp only [Option.bind_eq_bind, Option.bind_some]
  rw [hprotocolEnd]
  dsimp only [Option.bind_eq_bind, Option.bind_some]
  rw [hprotocol', hversion, hmethod']
  split_ifs with hhttp
  · cases hlast : Scan.last '?'.toUInt8 target with
    | none =>
      have hpath : substr line (method.length + 1)
          (method.length + 1 + target.length - method.length - 1) = target :=
        substr_of_eq (method ++ [' '.toUInt8])
          (' '.toUInt8 :: (protocol ++ '/'.toUInt8 :: version)) (by simp [← hline])
          (by simp) (by omega)
      simp only [hpath]
    | some r =>
      obtain ⟨path, queryString⟩ := r
      obtain ⟨rfl, -⟩ := Scan.eq_of_last hlast
      have hpath : substr line (method.length + 1)
          (method.length + 1 + path.length + 1 - method.length - 2) = path :=
        substr_of_eq (method ++ [' '.toUInt8])
          ('?'.toUInt8 :: (queryString ++ ' '.toUInt8 ::
            (protocol ++ '/'.toUInt8 :: version))) (by simp [← hline]) (by simp) (by omega)
      have hquery : substr line (method.length + 1 + path.length + 1) (method.length + 1 +
          (path ++ '?'.toUInt8 :: queryString).length - (method.length + 1 + path.length + 1)) =
            queryString :=
        substr_of_eq (method ++ ' '.toUInt8 :: (path ++ ['?'.toUInt8]))
          (' '.toUInt8 :: (protocol ++ '/'.toUInt8 :: version)) (by simp [← hline])
          (by simp only [List.length_append, List.length_cons, List.length_nil]; omega)
          (by simp only [List.length_append, List.length_cons]; omega)
      simp only [hpath, hquery]
  · rfl

end RequestMessage

structure ResponseMessage where
  version : Str
  statusCode : Str
  header : CaseInsensitiveMultimap := []
  deriving DecidableEq

namespace ResponseMessage

def statusLine (line : Str) : Option ResponseMessage := do
  let versionEnd ← line.idxOf? ' '.toUInt8
  if 5 < line.length ∧ versionEnd + 1 < line.length then
    some
      -- a count that wraps around takes the rest
      { version := if versionEnd < 5 then line.drop 5 else substr line 5 (versionEnd - 5)
        statusCode := substr line (versionEnd + 1) (line.length - (versionEnd + 1) - 1) }
  else none

def parse (stream : Istream) : Option (Istream × Option ResponseMessage) :=
  parseMessage statusLine (fun response header => { response with header := header }) stream

theorem statusLine_text {version : Str} (hversion : ' '.toUInt8 ∉ version) (statusCode : Str)
    (chr : UInt8) :
    statusLine (literal "HTTP/" ++ version ++ ' '.toUInt8 :: (statusCode ++ [chr])) =
      some ⟨version, statusCode, []⟩ := by
  have hhttp : literal "HTTP/" = ['H'.toUInt8, 'T'.toUInt8, 'T'.toUInt8, 'P'.toUInt8,
    '/'.toUInt8] := by decide
  have hspace : ' '.toUInt8 ∉ literal "HTTP/" ++ version := by
    rw [List.mem_append, not_or]
    exact ⟨by decide, hversion⟩
  have hlen : (literal "HTTP/" ++ version).length = 5 + version.length := by
    rw [List.length_append]
    rfl
  generalize hline : literal "HTTP/" ++ version ++ ' '.toUInt8 :: (statusCode ++ [chr]) = line
  have hlen' : line.length = 5 + version.length + 1 + statusCode.length + 1 := by
    rw [← hline, List.length_append, hlen]
    simp only [List.length_cons, List.length_append, List.length_nil]
    omega
  have hversion' : substr line 5 (5 + version.length - 5) = version :=
    substr_of_eq (literal "HTTP/") (' '.toUInt8 :: (statusCode ++ [chr]))
      hline.symm rfl (by omega)
  have hstatusCode : substr line (5 + version.length + 1)
      (line.length - (5 + version.length + 1) - 1) = statusCode :=
    substr_of_eq (literal "HTTP/" ++ version ++ [' '.toUInt8]) ([chr])
      (by simp [← hline]) (by rw [List.length_append, hlen]; rfl) (by omega)
  have hversionEnd : line.idxOf? ' '.toUInt8 = some (5 + version.length) := by
    rw [← hline, Scan.idxOf?_append_cons hspace, hlen]
  rw [statusLine, hversionEnd, Option.bind_eq_bind, Option.bind_some, if_pos (by omega),
    if_neg (by omega), hversion', hstatusCode]

end ResponseMessage

section Head

variable {μ : Type} (firstLine : Str → Option μ) (withHeader : μ → CaseInsensitiveMultimap → μ)

def headEnd : Str := literal "\r\n\r\n"

theorem headEnd_eq : headEnd = ['\r'.toUInt8, '\n'.toUInt8, '\r'.toUInt8, '\n'.toUInt8] := by
  decide

theorem parse_append {head : Str} (h : headEnd <:+ head) :
    ∃ rest message, ∀ z, parseMessage firstLine withHeader ⟨head ++ z, true⟩ =
      some (⟨rest ++ z, true⟩, message) := by
  obtain ⟨w, rfl⟩ := h
  have hempty : '\n'.toUInt8 ∉ ['\r'.toUInt8] ∧ ':'.toUInt8 ∉ ['\r'.toUInt8] := by decide
  have hlines (z : Str) : (w ++ headEnd ++ z).splitOn '\n'.toUInt8 =
      (w ++ ['\r'.toUInt8]).splitOn '\n'.toUInt8 ++ ([['\r'.toUInt8]] ++
        z.splitOn '\n'.toUInt8) := by
    have hz := List.splitOn_append_cons_self_of_not_mem hempty.1 z
    have hw := List.splitOn_append_cons_self (a := '\n'.toUInt8) (w ++ ['\r'.toUInt8])
      (['\r'.toUInt8] ++ '\n'.toUInt8 :: z)
    rw [hz] at hw
    simpa [headEnd_eq] using hw
  cases hsplit : (w ++ ['\r'.toUInt8]).splitOn '\n'.toUInt8 with
  | nil => exact absurd hsplit (List.splitOn_ne_nil _ _)
  | cons line lines =>
    have hmem : ∀ l ∈ line :: lines, '\n'.toUInt8 ∉ l := by
      rw [← hsplit]
      exact fun l => Scan.not_mem_of_mem_splitOn
    have hstream (z : Str) : getline ⟨w ++ headEnd ++ z, true⟩ [] =
        (.ofLines (lines ++ [['\r'.toUInt8]] ++ z.splitOn '\n'.toUInt8), line) := by
      rw [← ofLines_splitOn, hlines, hsplit, List.append_assoc]
      exact getline_ofLines (hmem line (by simp)) _ _
    cases hmessage : firstLine line with
    | none =>
      refine ⟨(lines ++ [['\r'.toUInt8]]).flatMap (· ++ ['\n'.toUInt8]), none, fun z => ?_⟩
      simp only [parseMessage, hstream, hmessage, ofLines_append_splitOn]
    | some message =>
      have hexists : ∃ r, HttpHeader.Cut (lines ++ [['\r'.toUInt8]]) [] r :=
        HttpHeader.exists_cut ⟨['\r'.toUInt8], by simp, hempty.2⟩
      obtain ⟨-, init, last, rest, hcut, hinit, hlast, -⟩ := hexists
      refine ⟨rest.flatMap (· ++ ['\n'.toUInt8]),
        some (withHeader message (init.flatMap HttpHeader.fields)), fun z => ?_⟩
      have hparse : HttpHeader.parse
          (.ofLines (lines ++ [['\r'.toUInt8]] ++ z.splitOn '\n'.toUInt8)) =
            some (.ofLines (rest ++ z.splitOn '\n'.toUInt8), init.flatMap HttpHeader.fields) := by
        rw [HttpHeader.parse_eq_some_iff, HttpHeader.parses_ofLines_iff (by simp)]
        · exact ⟨init, last, rest ++ z.splitOn '\n'.toUInt8, by rw [hcut]; simp, hinit, hlast,
            by simp⟩
        · intro l hl
          rw [List.mem_append, List.mem_append, List.mem_singleton] at hl
          obtain (hl | rfl) | hl := hl
          · exact hmem l (by simp [hl])
          · exact hempty.1
          · exact Scan.not_mem_of_mem_splitOn hl
      simp only [parseMessage, hstream, hmessage, hparse, Option.map_some]
      rw [ofLines_append_splitOn]

def headText (line : Str) (header : CaseInsensitiveMultimap) : Str :=
  line ++ literal "\r\n" ++ HttpHeader.text header ++ literal "\r\n"

variable {firstLine withHeader}

theorem parse_headText {line : Str} {message : μ} (hmessage : firstLine (line ++ ['\r'.toUInt8]) =
    some message) (hline : '\n'.toUInt8 ∉ line) {header : CaseInsensitiveMultimap}
    (hheader : ∀ field ∈ header, HttpHeader.IsField field) (z : Str) :
    parseMessage firstLine withHeader ⟨headText line header ++ z, true⟩ =
      some (⟨z, true⟩, some (withHeader message header)) := by
  have hcrlf : literal "\r\n" = ['\r'.toUInt8, '\n'.toUInt8] := by decide
  have hparse := HttpHeader.parse_eq_some_iff.mpr (HttpHeader.parses_text hheader z)
  have hfirst : '\n'.toUInt8 ∉ line ++ ['\r'.toUInt8] := by
    rw [List.mem_append, not_or]
    exact ⟨hline, by decide⟩
  have hhead : headText line header ++ z = (line ++ ['\r'.toUInt8]) ++ '\n'.toUInt8 ::
      (HttpHeader.text header ++ literal "\r\n" ++ z) := by simp [headText, hcrlf]
  rw [parseMessage, hhead, getline_line hfirst]
  simp only [hmessage, hparse, Option.map_some]

theorem not_headEnd_isPrefix {a b : UInt8} {s : Str} (h : b ≠ '\n'.toUInt8) :
    ¬headEnd <+: a :: b :: s := by
  rw [headEnd_eq, List.cons_prefix_cons, List.cons_prefix_cons]
  exact fun hpre => h hpre.2.1.symm

theorem through_line {line s : Str} (hline : '\n'.toUInt8 ∉ line)
    (hs : ¬['\r'.toUInt8, '\n'.toUInt8] <+: s) :
    Search.through headEnd (line ++ '\n'.toUInt8 :: s) =
      (Search.through headEnd s).map fun (x, y) => (line ++ '\n'.toUInt8 :: x, y) := by
  induction line with
  | nil =>
    rw [List.nil_append, Search.through_cons_of_not_isPrefix]
    · rfl
    · rw [headEnd_eq, List.cons_prefix_cons]
      exact fun hpre => absurd hpre.1 (by decide)
  | cons c line ih =>
    rw [List.mem_cons, not_or] at hline
    rw [List.cons_append, Search.through_cons_of_not_isPrefix, ih hline.2, Option.map_map]
    · rfl
    · cases line with
      | nil =>
        rw [List.nil_append, headEnd_eq, List.cons_prefix_cons, List.cons_prefix_cons]
        exact fun hpre => hs hpre.2.2
      | cons d line =>
        rw [List.mem_cons, not_or] at hline
        exact not_headEnd_isPrefix (Ne.symm hline.2.1)

theorem through_empty_line {line : Str} (hline : '\n'.toUInt8 ∉ line) (s : Str) :
    Search.through headEnd (line ++ headEnd ++ s) = some (line ++ headEnd, s) := by
  induction line with
  | nil =>
    rw [List.nil_append, Search.through_of_isPrefix (List.prefix_append _ _), List.drop_left]
  | cons c line ih =>
    rw [List.mem_cons, not_or] at hline
    rw [List.cons_append, List.cons_append, Search.through_cons_of_not_isPrefix, ih hline.2]
    · rfl
    · cases line with
      | nil => exact not_headEnd_isPrefix (by decide)
      | cons d line =>
        rw [List.mem_cons, not_or] at hline
        exact not_headEnd_isPrefix (Ne.symm hline.2.1)

theorem through_headText {line : Str} (hline : '\n'.toUInt8 ∉ line)
    {header : CaseInsensitiveMultimap} (hheader : ∀ field ∈ header, HttpHeader.IsField field) :
    Search.through headEnd (headText line header) = some (headText line header, []) := by
  have hcrlf : literal "\r\n" = ['\r'.toUInt8, '\n'.toUInt8] := by decide
  have hreturn : '\n'.toUInt8 ∉ ['\r'.toUInt8] := by decide
  induction header generalizing line with
  | nil =>
    have hend := through_empty_line hline []
    simpa [headText, HttpHeader.text, hcrlf, headEnd_eq] using hend
  | cons field header ih =>
    obtain ⟨hname, hname', hvalue⟩ := hheader field (by simp)
    have hfield : '\n'.toUInt8 ∉ field.1 ++ literal ": " ++ field.2 := by
      have hliteral : '\n'.toUInt8 ∉ literal ": " := by decide
      simp only [List.mem_append, not_or]
      exact ⟨⟨hname', hliteral⟩, hvalue⟩
    have hhead : headText line (field :: header) = (line ++ ['\r'.toUInt8]) ++ '\n'.toUInt8 ::
        headText (field.1 ++ literal ": " ++ field.2) header := by
      simp [headText, HttpHeader.text, hcrlf]
    have hrest := ih hfield fun f hf => hheader f (by simp [hf])
    rw [hhead, through_line, hrest]
    · rfl
    · rw [List.mem_append, not_or]
      exact ⟨hline, hreturn⟩
    · intro hempty
      have hcolon : ':'.toUInt8 ≠ '\r'.toUInt8 ∧ ':'.toUInt8 ≠ '\n'.toUInt8 := by decide
      have hliteral : literal ": " = [':'.toUInt8, ' '.toUInt8] := by decide
      obtain hnil | ⟨c, hone⟩ | ⟨c, d, name, hmore⟩ : field.1 = [] ∨ (∃ c, field.1 = [c]) ∨
          ∃ c d name, field.1 = c :: d :: name := by
        rcases field.1 with _ | ⟨c, _ | ⟨d, name⟩⟩ <;> simp
      · simp [headText, hnil, hliteral, hcolon.1.symm] at hempty
      · simp [headText, hone, hliteral, hcolon.2.symm] at hempty
      · have hd : '\n'.toUInt8 = d := by
          simp only [headText, hmore, List.cons_append, List.cons_prefix_cons] at hempty
          exact hempty.2.1
        simp [hmore, hd] at hname'

end Head

end DanmakuChicken.SimpleWeb
