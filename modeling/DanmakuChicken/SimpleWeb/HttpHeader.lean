import DanmakuChicken.Lib.Loop
import DanmakuChicken.SimpleWeb.QueryString

namespace DanmakuChicken.SimpleWeb

structure Istream where
  buf : Str
  good : Bool := true

/-- `getline(stream, line)`, where `line` is what the variable holds before. -/
def getline (stream : Istream) (line : Str) : Istream × Str :=
  if stream.good then
    match stream.buf.dropWhile (· ≠ '\n'.toUInt8) with
    | [] => (⟨[], false⟩, stream.buf)
    | _ :: rest => (⟨rest, true⟩, stream.buf.takeWhile (· ≠ '\n'.toUInt8))
  else (stream, line)

theorem getline_line {l : Str} (hl : '\n'.toUInt8 ∉ l) (rest line : Str) :
    getline ⟨l ++ '\n'.toUInt8 :: rest, true⟩ line = (⟨rest, true⟩, l) := by
  have hne : ∀ c ∈ l, (decide (c ≠ '\n'.toUInt8)) = true := by
    intro c hc
    simpa using fun heq : c = '\n'.toUInt8 => hl (heq ▸ hc)
  rw [getline, if_pos rfl, List.dropWhile_append_of_pos hne, List.takeWhile_append_of_pos hne,
    List.dropWhile_cons_of_neg (by simp), List.takeWhile_cons_of_neg (by simp), List.append_nil]

theorem getline_last {l : Str} (hl : '\n'.toUInt8 ∉ l) (line : Str) :
    getline ⟨l, true⟩ line = (⟨[], false⟩, l) := by
  have hne : l.dropWhile (· ≠ '\n'.toUInt8) = [] := by
    rw [List.dropWhile_eq_nil_iff]
    intro c hc
    simpa using fun heq : c = '\n'.toUInt8 => hl (heq ▸ hc)
  rw [getline, if_pos rfl, hne]

theorem getline_of_not_good {stream : Istream} (h : stream.good = false) (line : Str) :
    getline stream line = (stream, line) := by simp [getline, h]

def Istream.left (stream : Istream) : ℕ := if stream.good then stream.buf.length + 1 else 0

theorem getline_left_lt {stream : Istream} (h : stream.good) (line : Str) :
    (getline stream line).1.left < stream.left := by
  rw [getline, if_pos h, Istream.left, Istream.left, if_pos h]
  split
  · simp
  · rename_i c rest hdrop
    have hle := (List.dropWhile_sublist (l := stream.buf) (· ≠ '\n'.toUInt8)).length_le
    rw [hdrop] at hle
    simpa using hle

theorem getline_left_le (stream : Istream) (line : Str) :
    (getline stream line).1.left ≤ stream.left := by
  cases h : stream.good with
  | false => rw [getline_of_not_good h]
  | true => exact (getline_left_lt h line).le

def Istream.ofLines (lines : List Str) : Istream :=
  ⟨['\n'.toUInt8].intercalate lines, !lines.isEmpty⟩

theorem getline_ofLines {l : Str} (hl : '\n'.toUInt8 ∉ l) (lines : List Str) (line : Str) :
    getline (.ofLines (l :: lines)) line = (.ofLines lines, l) := by
  cases lines with
  | nil => simpa [Istream.ofLines] using getline_last hl line
  | cons l' lines => simpa [Istream.ofLines] using getline_line hl _ line

theorem ofLines_splitOn (buf : Str) : Istream.ofLines (buf.splitOn '\n'.toUInt8) = ⟨buf, true⟩ := by
  simp [Istream.ofLines, List.intercalate_splitOn, List.splitOn_ne_nil]

theorem ofLines_append_splitOn (lines : List Str) (buf : Str) :
    Istream.ofLines (lines ++ buf.splitOn '\n'.toUInt8) =
      ⟨lines.flatMap (· ++ ['\n'.toUInt8]) ++ buf, true⟩ := by
  induction lines with
  | nil => exact ofLines_splitOn buf
  | cons line lines ih =>
    have hne : lines ++ buf.splitOn '\n'.toUInt8 ≠ [] := by simp [List.splitOn_ne_nil]
    have hbuf := congrArg Istream.buf ih
    simp only [Istream.ofLines] at hbuf
    simp [Istream.ofLines, List.intercalate_cons_of_ne_nil hne, hbuf]

namespace HttpHeader

def field (line : Str) (paramEnd : ℕ) : CaseInsensitiveMultimap :=
  let valueStart := paramEnd + 1
  if valueStart < line.length then
    let valueStart :=
      if line.getD valueStart 0 = ' '.toUInt8 then valueStart + 1 else valueStart
    if valueStart < line.length then
      [(substr line 0 paramEnd, substr line valueStart (line.length - valueStart - 1))]
    else []
  else []

def body : Istream × Str × CaseInsensitiveMultimap →
    (Istream × Str × CaseInsensitiveMultimap) ⊕ (Istream × CaseInsensitiveMultimap)
  | (stream, line, result) =>
    match line.idxOf? ':'.toUInt8 with
    | some paramEnd =>
      let (stream, line') := getline stream line
      .inl (stream, line', result ++ field line paramEnd)
    | none => .inr (stream, result)

def Parses (stream : Istream) (r : Istream × CaseInsensitiveMultimap) : Prop :=
  let (stream, line) := getline stream []
  Loop.Ends body (stream, line, []) r

def fields (line : Str) : CaseInsensitiveMultimap :=
  match line.idxOf? ':'.toUInt8 with
  | some paramEnd => field line paramEnd
  | none => []

theorem body_of_mem {line : Str} (h : ':'.toUInt8 ∈ line) (stream : Istream)
    (result : CaseInsensitiveMultimap) :
    body (stream, line, result) =
      .inl ((getline stream line).1, (getline stream line).2, result ++ fields line) := by
  cases hidx : line.idxOf? ':'.toUInt8 with
  | none => exact absurd h (List.idxOf?_eq_none_iff.mp hidx)
  | some paramEnd => simp [body, fields, hidx]

theorem body_of_not_mem {line : Str} (h : ':'.toUInt8 ∉ line) (stream : Istream)
    (result : CaseInsensitiveMultimap) : body (stream, line, result) = .inr (stream, result) := by
  rw [body, List.idxOf?_eq_none_iff.mpr h]

theorem not_ends_of_mem {stream : Istream} (hstream : stream.good = false) {line : Str}
    (h : ':'.toUInt8 ∈ line) (result : CaseInsensitiveMultimap)
    (r : Istream × CaseInsensitiveMultimap) : ¬Loop.Ends body (stream, line, result) r := by
  apply Loop.not_ends_of_invariant (I := fun s => s.1 = stream ∧ s.2.1 = line)
  · rintro ⟨_, _, result⟩ ⟨rfl, rfl⟩
    refine ⟨_, body_of_mem h _ result, ?_, ?_⟩ <;> rw [getline_of_not_good hstream]
  · exact ⟨rfl, rfl⟩

def parse (stream : Istream) : Option (Istream × CaseInsensitiveMultimap) :=
  let (stream', line) := getline stream []
  Loop.iter body (stream.buf.length + 2) (stream', line, [])

theorem parse_eq_some_iff {stream : Istream} {r : Istream × CaseInsensitiveMultimap} :
    parse stream = some r ↔ Parses stream r := by
  constructor
  · exact Loop.ends_of_iter
  · intro h
    apply Loop.Ends.iter_of_measure (f := fun s => s.1.left) _ h
    · have hle := getline_left_le stream []
      have hle' : stream.left ≤ stream.buf.length + 1 := by
        rw [Istream.left]
        split_ifs <;> simp
      exact Nat.lt_succ_of_le (hle.trans hle')
    · rintro ⟨stream, line, result⟩ t ht
      by_cases hline : ':'.toUInt8 ∈ line
      · rw [body_of_mem hline] at ht
        cases ht
        cases hgood : stream.good with
        | false =>
          right
          rw [getline_of_not_good hgood]
          exact not_ends_of_mem hgood hline _
        | true => exact .inl (getline_left_lt hgood line)
      · rw [body_of_not_mem hline] at ht
        cases ht

def Cut (lines : List Str) (result : CaseInsensitiveMultimap)
    (r : Istream × CaseInsensitiveMultimap) : Prop :=
  ∃ init last rest, lines = init ++ last :: rest ∧ (∀ line ∈ init, ':'.toUInt8 ∈ line) ∧
    ':'.toUInt8 ∉ last ∧ r = (.ofLines rest, result ++ init.flatMap fields)

section Cut

variable {line : Str} {lines : List Str} {result : CaseInsensitiveMultimap}
  {r : Istream × CaseInsensitiveMultimap}

theorem not_cut_nil : ¬Cut [] result r := by
  rintro ⟨init, last, rest, heq, -⟩
  simp at heq

theorem cut_cons_of_mem (h : ':'.toUInt8 ∈ line) :
    Cut (line :: lines) result r ↔ Cut lines (result ++ fields line) r := by
  constructor
  · rintro ⟨init, last, rest, heq, hinit, hlast, rfl⟩
    cases init with
    | nil =>
      obtain ⟨rfl, -⟩ := List.cons.inj heq
      exact absurd h hlast
    | cons line' init =>
      obtain ⟨rfl, rfl⟩ := List.cons.inj heq
      refine ⟨init, last, rest, rfl, fun x hx => hinit x (by simp [hx]), hlast, ?_⟩
      rw [List.flatMap_cons, List.append_assoc]
  · rintro ⟨init, last, rest, rfl, hinit, hlast, rfl⟩
    refine ⟨line :: init, last, rest, rfl, by simpa [h] using hinit, hlast, ?_⟩
    rw [List.flatMap_cons, List.append_assoc]

theorem cut_cons_of_not_mem (h : ':'.toUInt8 ∉ line) :
    Cut (line :: lines) result r ↔ r = (.ofLines lines, result) := by
  constructor
  · rintro ⟨init, last, rest, heq, hinit, -, rfl⟩
    cases init with
    | nil =>
      obtain ⟨-, rfl⟩ := List.cons.inj heq
      simp
    | cons line' init =>
      obtain ⟨rfl, -⟩ := List.cons.inj heq
      exact absurd (hinit line (by simp)) h
  · rintro rfl
    exact ⟨[], line, lines, rfl, by simp, h, by simp⟩

theorem exists_cut (h : ∃ line ∈ lines, ':'.toUInt8 ∉ line) : ∃ r, Cut lines result r := by
  induction lines generalizing result with
  | nil => simp at h
  | cons l lines ih =>
    by_cases hl : ':'.toUInt8 ∈ l
    · obtain ⟨line, hmem, hline⟩ := h
      obtain rfl | hmem := List.mem_cons.mp hmem
      · exact absurd hl hline
      · simp only [cut_cons_of_mem hl]
        exact ih ⟨line, hmem, hline⟩
    · exact ⟨_, (cut_cons_of_not_mem hl).mpr rfl⟩

end Cut

theorem ends_ofLines_iff {lines : List Str} {line : Str} (h : ∀ l ∈ lines, '\n'.toUInt8 ∉ l)
    {result : CaseInsensitiveMultimap} {r : Istream × CaseInsensitiveMultimap} :
    Loop.Ends body (.ofLines lines, line, result) r ↔ Cut (line :: lines) result r := by
  induction lines generalizing line result with
  | nil =>
    by_cases hline : ':'.toUInt8 ∈ line
    · rw [cut_cons_of_mem hline]
      exact iff_of_false (not_ends_of_mem rfl hline result r) not_cut_nil
    · rw [cut_cons_of_not_mem hline]
      exact Loop.ends_iff_of_inr (body_of_not_mem hline _ _)
  | cons l lines ih =>
    by_cases hline : ':'.toUInt8 ∈ line
    · rw [Loop.ends_iff_of_inl (body_of_mem hline _ _), getline_ofLines (h l (by simp)),
        cut_cons_of_mem hline]
      exact ih fun x hx => h x (by simp [hx])
    · rw [cut_cons_of_not_mem hline]
      exact Loop.ends_iff_of_inr (body_of_not_mem hline _ _)

theorem parses_ofLines_iff {lines : List Str} (hne : lines ≠ [])
    (h : ∀ line ∈ lines, '\n'.toUInt8 ∉ line) {r : Istream × CaseInsensitiveMultimap} :
    Parses (.ofLines lines) r ↔ Cut lines [] r := by
  cases lines with
  | nil => exact absurd rfl hne
  | cons line lines =>
    rw [Parses, getline_ofLines (h line (by simp))]
    exact ends_ofLines_iff fun l hl => h l (by simp [hl])

theorem parses_iff {buf : Str} {r : Istream × CaseInsensitiveMultimap} :
    Parses ⟨buf, true⟩ r ↔ Cut (buf.splitOn '\n'.toUInt8) [] r := by
  rw [← ofLines_splitOn]
  exact parses_ofLines_iff (List.splitOn_ne_nil _ _) fun _ => Scan.not_mem_of_mem_splitOn

theorem exists_parses_iff {buf : Str} :
    (∃ r, Parses ⟨buf, true⟩ r) ↔ ∃ line ∈ buf.splitOn '\n'.toUInt8, ':'.toUInt8 ∉ line := by
  simp only [parses_iff]
  constructor
  · rintro ⟨r, init, last, rest, heq, -, hlast, -⟩
    exact ⟨last, by simp [heq], hlast⟩
  · exact exists_cut

def text (header : CaseInsensitiveMultimap) : Str :=
  header.flatMap fun field => field.1 ++ literal ": " ++ field.2 ++ literal "\r\n"

def IsField (field : Str × Str) : Prop :=
  ':'.toUInt8 ∉ field.1 ∧ '\n'.toUInt8 ∉ field.1 ∧ '\n'.toUInt8 ∉ field.2

instance (field : Str × Str) : Decidable (IsField field) := inferInstanceAs (Decidable (_ ∧ _))

theorem fields_line {name : Str} (hname : ':'.toUInt8 ∉ name) (value : Str) :
    fields (name ++ literal ": " ++ value ++ ['\r'.toUInt8]) = [(name, value)] := by
  have hliteral : literal ": " = [':'.toUInt8, ' '.toUInt8] := by decide
  have hline : name ++ literal ": " ++ value ++ ['\r'.toUInt8] =
      name ++ ':'.toUInt8 :: ' '.toUInt8 :: (value ++ ['\r'.toUInt8]) := by simp [hliteral]
  have hspace : (name ++ ':'.toUInt8 :: ' '.toUInt8 :: (value ++ ['\r'.toUInt8])).getD
      (name.length + 1) 0 = ' '.toUInt8 := by
    rw [List.getD_eq_getElem?_getD, List.getElem?_append_right (by omega)]
    simp
  have hname' : substr (name ++ ':'.toUInt8 :: ' '.toUInt8 :: (value ++ ['\r'.toUInt8])) 0
      name.length = name := by simp [substr]
  have hvalue : substr (name ++ ':'.toUInt8 :: ' '.toUInt8 :: (value ++ ['\r'.toUInt8]))
      (name.length + 1 + 1)
      ((name ++ ':'.toUInt8 :: ' '.toUInt8 :: (value ++ ['\r'.toUInt8])).length -
        (name.length + 1 + 1) - 1) = value := by
    have hcut := substr_eq (name ++ [':'.toUInt8, ' '.toUInt8]) value ['\r'.toUInt8] rfl
    have hcount : (name ++ ':'.toUInt8 :: ' '.toUInt8 :: (value ++ ['\r'.toUInt8])).length -
        (name.length + 1 + 1) - 1 = value.length := by
      simp only [List.length_append, List.length_cons, List.length_nil]
      omega
    rw [hcount]
    simpa using hcut
  have hlen : name.length + 1 + 1 <
      (name ++ ':'.toUInt8 :: ' '.toUInt8 :: (value ++ ['\r'.toUInt8])).length := by
    simp only [List.length_append, List.length_cons, List.length_nil]
    omega
  rw [hline, fields, Scan.idxOf?_append_cons hname]
  simp only [field, hspace, if_true, hlen, Nat.lt_of_succ_lt hlen, hname', hvalue]

theorem parses_text {header : CaseInsensitiveMultimap} (h : ∀ field ∈ header, IsField field)
    (rest : Str) :
    Parses ⟨text header ++ literal "\r\n" ++ rest, true⟩ (⟨rest, true⟩, header) := by
  have hcrlf : literal "\r\n" = ['\r'.toUInt8, '\n'.toUInt8] := by decide
  have hcolon : literal ": " = [':'.toUInt8, ' '.toUInt8] := by decide
  have hcut (result : CaseInsensitiveMultimap) :
      Cut ((text header ++ literal "\r\n" ++ rest).splitOn '\n'.toUInt8) result
        (⟨rest, true⟩, result ++ header) := by
    induction header generalizing result with
    | nil =>
      have hlast : ':'.toUInt8 ∉ ['\r'.toUInt8] := by decide
      have hline : '\n'.toUInt8 ∉ ['\r'.toUInt8] := by decide
      have hsplit := List.splitOn_append_cons_self_of_not_mem hline rest
      rw [List.singleton_append] at hsplit
      rw [text, List.flatMap_nil, List.nil_append, hcrlf, List.cons_append, List.cons_append,
        List.nil_append, hsplit, cut_cons_of_not_mem hlast, ofLines_splitOn, List.append_nil]
    | cons field header ih =>
      obtain ⟨hname, hname', hvalue⟩ := h field (by simp)
      have hline : '\n'.toUInt8 ∉ field.1 ++ literal ": " ++ field.2 ++ ['\r'.toUInt8] := by
        have hne : '\n'.toUInt8 ≠ '\r'.toUInt8 ∧ '\n'.toUInt8 ≠ ':'.toUInt8 ∧
            '\n'.toUInt8 ≠ ' '.toUInt8 := by decide
        simp [hcolon, hname', hvalue, hne]
      have hmem : ':'.toUInt8 ∈ field.1 ++ literal ": " ++ field.2 ++ ['\r'.toUInt8] := by
        simp [hcolon]
      have htext : text (field :: header) ++ literal "\r\n" ++ rest =
          (field.1 ++ literal ": " ++ field.2 ++ ['\r'.toUInt8]) ++ '\n'.toUInt8 ::
            (text header ++ literal "\r\n" ++ rest) := by
        simp [text, hcrlf]
      rw [htext, List.splitOn_append_cons_self_of_not_mem hline, cut_cons_of_mem hmem,
        fields_line hname, List.append_cons result field header]
      exact ih (fun f hf => h f (by simp [hf])) (result ++ [field])
  simpa using parses_iff.mpr (hcut [])

end HttpHeader

end DanmakuChicken.SimpleWeb
