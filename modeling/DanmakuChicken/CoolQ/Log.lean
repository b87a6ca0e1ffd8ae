import DanmakuChicken.CoolQ.Frame
import DanmakuChicken.FromUrl.Main
import DanmakuChicken.Lib.Regex
import DanmakuChicken.Lib.Trace

namespace DanmakuChicken.CoolQ

def GROUP_ID : Str := "414754582".toList

variable (unicodeWord : Char → Bool)

def isWord (c : Char) : Bool :=
  if c.toNat < 128 then c.isAlphanum || c == '_' else unicodeWord c

def isDot (c : Char) : Bool := c != '\n'

def group : Regex Char := .opt (.seq (.literal [',']) (.plus false (.char isDot)))

/-- `\[CQ:\w+(,.+?)?\]` -/
def RE_CQ_SPECIAL : Regex Char :=
  .seq (.literal "[CQ:".toList) <|
    .seq (.plus true (.char (isWord unicodeWord))) (.seq group (.literal [']']))

inductive Effect
  | print (text : Str)
  | addDanmaku (content : Str)
  deriving DecidableEq

/-- The handler, where `response` is what the request of `add_danmaku` ends with. -/
def log (response : Option ℕ) (message : Frame) : Trace Effect Raised PUnit := do
  let group ← Trace.ofExcept (message.getAttr "group")
  if group = GROUP_ID then
    let text ← Trace.ofExcept (message.getAttr "text")
    let content := (RE_CQ_SPECIAL unicodeWord).removeAll text
    Trace.emit (.print content)
    Trace.emit (.addDanmaku content)
    if FromUrl.addDanmaku response then pure ⟨⟩
    else Trace.emit (.print "添加弹幕失败！".toList)
  else pure ⟨⟩

def passed (log : List Effect) : List Str :=
  log.filterMap fun
    | .addDanmaku content => some content
    | .print _ => none

def groupMessage (group qq text : Str) : Frame := ⟨.rcvdGroupMessage, [group, qq, text], rfl⟩

def Bare (text : Str) : Prop := ∀ c ∈ text, c ≠ '[' ∧ c ≠ ']'

instance (text : Str) : Decidable (Bare text) :=
  decidable_of_iff (text.all fun c => c ≠ '[' ∧ c ≠ ']') (by simp [Bare])

/-- A part of a message: plain text, or a code by its name and what follows the comma, if any. -/
inductive Segment
  | plain (text : Str) (bare : Bare text)
  | code (name : Str) (params : Option Str) (nonempty : name ≠ [])
      (word : ∀ c ∈ name, isWord unicodeWord c = true) (bare : ∀ p ∈ params, p ≠ [] ∧ Bare p)

variable {unicodeWord}

namespace Segment

def body : Option Str → Str
  | none => []
  | some params => ',' :: params

def text : Segment unicodeWord → Str
  | plain text _ => text
  | code name params _ _ _ => "[CQ:".toList ++ (name ++ (body params ++ [']']))

def plainText : Segment unicodeWord → Str
  | plain text _ => text
  | code .. => []

def Multiline : Segment unicodeWord → Prop
  | plain .. => False
  | code _ params _ _ _ => ∃ p ∈ params, '\n' ∈ p

end Segment

theorem passed_log (response : Option ℕ) (qq text : Str) :
    passed (log unicodeWord response (groupMessage GROUP_ID qq text)).log =
      [(RE_CQ_SPECIAL unicodeWord).removeAll text] := by
  have hgroup : (groupMessage GROUP_ID qq text).getAttr "group" = .ok GROUP_ID := rfl
  have htext : (groupMessage GROUP_ID qq text).getAttr "text" = .ok text := rfl
  rw [log, hgroup, Trace.ofExcept_ok_bind, if_pos rfl, htext, Trace.ofExcept_ok_bind,
    Trace.emit_bind, Trace.emit_bind]
  cases FromUrl.addDanmaku response <;> rfl

section pattern

open Regex

theorem ne_of_isWord {c : Char} (h : isWord unicodeWord c = true) :
    c ≠ ',' ∧ c ≠ ']' ∧ c ≠ '[' := by
  refine ⟨?_, ?_, ?_⟩
  all_goals
    rintro rfl
    cases h

theorem rests_afterName_of_word {c : Char} {s : Str} (h : isWord unicodeWord c = true) :
    rests (.seq group (.literal [']'])) (c :: s) = [] := by
  obtain ⟨hcomma, hclose, -⟩ := ne_of_isWord h
  simp [group, opt, rests_literal_singleton, hcomma, hclose]

theorem rests_afterName_of_closing (s : Str) :
    rests (.seq group (.literal [']'])) (']' :: s) = [s] := by
  simp [group, opt, rests_literal_singleton]

theorem rests_afterName_of_params (c : Char) (s : Str) :
    rests (.seq group (.literal [']'])) (',' :: c :: s) =
      if isDot c then
        (rests (.star false (.char isDot)) s).flatMap (rests (.literal [']']))
      else [] := by
  simp only [group, opt, plus, rests_seq, rests_alt, rests_literal_singleton, rests_eps,
    rests_char_cons, if_pos, List.flatMap_append, List.flatMap_singleton]
  by_cases h : isDot c = true
  · simp [h]
  · simp [h]

theorem isDot_of_ne {c : Char} (h : c ≠ '\n') : isDot c = true := by simpa [isDot] using h

theorem flatMap_line {u : Str} (hbare : Bare u) (hline : '\n' ∉ u) (s : Str) :
    (rests (.star false (.char isDot)) (u ++ s)).flatMap (rests (.literal [']'])) =
      (rests (.star false (.char isDot)) s).flatMap (rests (.literal [']'])) := by
  apply flatMap_star_lazy
  · intro d hd
    apply isDot_of_ne
    rintro rfl
    exact hline hd
  · intro d hd s
    rw [rests_literal_singleton, if_neg (hbare d hd).2]

theorem head_rests_afterName {params : Str} (hne : params ≠ []) (hbare : Bare params)
    (hline : '\n' ∉ params) (s : Str) :
    (rests (.seq group (.literal [']'])) (',' :: (params ++ ']' :: s))).head? = some s := by
  cases params with
  | nil => exact absurd rfl hne
  | cons c params =>
    rw [List.mem_cons, not_or] at hline
    rw [List.cons_append, rests_afterName_of_params, if_pos (isDot_of_ne (Ne.symm hline.1)),
      flatMap_line (fun d hd => hbare d (by simp [hd])) hline.2, rests_star_lazy_char (by decide),
      List.flatMap_cons, rests_literal_singleton, if_pos rfl]
    rfl

theorem rests_afterName_of_multiline {params : Str} (hbare : Bare params)
    (hline : '\n' ∈ params) (s : Str) :
    rests (.seq group (.literal [']'])) (',' :: (params ++ ']' :: s)) = [] := by
  cases params with
  | nil => cases hline
  | cons c params =>
    rw [List.cons_append, rests_afterName_of_params]
    split_ifs with hc
    · have hmem : '\n' ∈ params := by
        rcases List.mem_cons.mp hline with rfl | h
        · cases hc
        · exact h
      obtain ⟨u, v, rfl, hu⟩ := List.eq_append_cons_of_mem hmem
      rw [List.append_assoc, flatMap_line (fun d hd => hbare d (by simp [hd])) hu,
        List.cons_append, rests_star_char_of_not (by decide), List.flatMap_singleton,
        rests_literal_singleton, if_neg (by decide)]
    · rfl

theorem rests_code {name s : Str} (hne : name ≠ []) (hword : ∀ c ∈ name, isWord unicodeWord c = true)
    (hs : ∀ c ∈ s.head?, isWord unicodeWord c = false) :
    rests (RE_CQ_SPECIAL unicodeWord) ("[CQ:".toList ++ (name ++ s)) =
      rests (.seq group (.literal [']'])) s := by
  cases name with
  | nil => exact absurd rfl hne
  | cons c name =>
    rw [RE_CQ_SPECIAL, rests_seq, rests_literal_append, List.flatMap_singleton, rests_seq, plus,
      rests_seq, List.cons_append, rests_char_cons, if_pos (hword c (by simp)),
      List.flatMap_singleton]
    exact flatMap_star_greedy (fun d hd => hword d (by simp [hd])) hs
      fun d s hd => rests_afterName_of_word hd

theorem rests_of_ne_bracket {c : Char} (h : c ≠ '[') (s : Str) :
    rests (RE_CQ_SPECIAL unicodeWord) (c :: s) = [] := by
  have hliteral : "[CQ:".toList = ['[', 'C', 'Q', ':'] := by decide
  simp [RE_CQ_SPECIAL, hliteral, literal, h]

end pattern

namespace Segment

def kept : Segment unicodeWord → Str
  | plain text _ => text
  | code _ none _ _ _ => []
  | code name (some params) nonempty word bare =>
    if '\n' ∈ params then (code name (some params) nonempty word bare).text else []

theorem text_code_append {name s : Str} {params : Option Str} {nonempty : name ≠ []}
    {word : ∀ c ∈ name, isWord unicodeWord c = true} {bare : ∀ p ∈ params, p ≠ [] ∧ Bare p} :
    (code name params nonempty word bare).text ++ s =
      "[CQ:".toList ++ (name ++ (body params ++ ']' :: s)) := by
  simp [text]

theorem removeAll_of_head {name s : Str} {params : Option Str}
    (h : (Regex.rests (RE_CQ_SPECIAL unicodeWord)
      ("[CQ:".toList ++ (name ++ (body params ++ ']' :: s)))).head? = some s) :
    (RE_CQ_SPECIAL unicodeWord).removeAll ("[CQ:".toList ++ (name ++ (body params ++ ']' :: s))) =
      (RE_CQ_SPECIAL unicodeWord).removeAll s := by
  have hliteral : "[CQ:".toList = '[' :: "CQ:".toList := by decide
  rw [hliteral, List.cons_append] at h ⊢
  apply Regex.removeAll_of_match h
  simp only [List.length_append, List.length_cons]
  omega

theorem removeAll_of_stuck {name s : Str} {params : Str}
    (hword : ∀ c ∈ name, isWord unicodeWord c = true) (hbare : Bare params)
    (h : Regex.rests (RE_CQ_SPECIAL unicodeWord)
      ("[CQ:".toList ++ (name ++ (body (some params) ++ ']' :: s))) = []) :
    (RE_CQ_SPECIAL unicodeWord).removeAll
        ("[CQ:".toList ++ (name ++ (body (some params) ++ ']' :: s))) =
      "[CQ:".toList ++ (name ++ (body (some params) ++ ']' ::
        (RE_CQ_SPECIAL unicodeWord).removeAll s)) := by
  have hliteral : "[CQ:".toList = '[' :: "CQ:".toList := by decide
  have hinner (t : Str) : "CQ:".toList ++ (name ++ (body (some params) ++ ']' :: t)) =
      ("CQ:".toList ++ (name ++ (body (some params) ++ [']']))) ++ t := by simp
  have hopen : ∀ c ∈ "CQ:".toList ++ (name ++ (body (some params) ++ [']'])), c ≠ '[' := by
    intro c hc
    have hstart : "CQ:".toList.all (· ≠ '[') = true := by decide
    simp only [List.mem_append, body, List.mem_cons, List.not_mem_nil, or_false] at hc
    rcases hc with hc | hc | (rfl | hc) | rfl
    · simpa using List.all_eq_true.mp hstart c hc
    · exact (ne_of_isWord (hword c hc)).2.2
    · decide
    · exact (hbare c hc).1
    · decide
  rw [hliteral, List.cons_append] at h ⊢
  rw [Regex.removeAll_of_no_match h, hinner,
    Regex.removeAll_append fun c hc s => rests_of_ne_bracket (hopen c hc) s, ← hinner,
    List.cons_append]

theorem removeAll_text_append (segment : Segment unicodeWord) (s : Str) :
    (RE_CQ_SPECIAL unicodeWord).removeAll (segment.text ++ s) =
      segment.kept ++ (RE_CQ_SPECIAL unicodeWord).removeAll s := by
  cases segment with
  | plain text bare =>
    exact Regex.removeAll_append (fun c hc s => rests_of_ne_bracket (bare c hc).1 s) s
  | code name params nonempty word bare =>
    rw [text_code_append]
    cases params with
    | none =>
      apply removeAll_of_head
      have hnext : ∀ c ∈ (body none ++ ']' :: s).head?, isWord unicodeWord c = false := by
        rintro c ⟨⟩
        rfl
      rw [rests_code nonempty word hnext, body, List.nil_append, rests_afterName_of_closing]
      rfl
    | some params =>
      obtain ⟨hne, hbare⟩ := bare params rfl
      have hnext : ∀ c ∈ (body (some params) ++ ']' :: s).head?, isWord unicodeWord c = false := by
        rintro c ⟨⟩
        rfl
      have hcode := rests_code nonempty word hnext
      by_cases hline : '\n' ∈ params
      · rw [kept, if_pos hline, text_code_append]
        apply removeAll_of_stuck word hbare
        rw [hcode, body, List.cons_append]
        exact rests_afterName_of_multiline hbare hline s
      · rw [kept, if_neg hline]
        apply removeAll_of_head
        rw [hcode, body, List.cons_append]
        exact head_rests_afterName hne hbare hline s

theorem removeAll_texts (segments : List (Segment unicodeWord)) :
    (RE_CQ_SPECIAL unicodeWord).removeAll (segments.flatMap text) = segments.flatMap kept := by
  induction segments with
  | nil => rfl
  | cons segment segments ih =>
    rw [List.flatMap_cons, removeAll_text_append, ih, List.flatMap_cons]

theorem kept_of_not_multiline {segment : Segment unicodeWord} (h : ¬segment.Multiline) :
    segment.kept = segment.plainText := by
  cases segment with
  | plain text bare => rfl
  | code name params nonempty word bare =>
    cases params with
    | none => rfl
    | some params => exact if_neg fun hline => h ⟨params, rfl, hline⟩

theorem length_plainText_lt {segment : Segment unicodeWord} (h : segment.Multiline) :
    segment.plainText.length < segment.kept.length := by
  cases segment with
  | plain text bare => cases h
  | code name params nonempty word bare =>
    obtain ⟨params, rfl, hline⟩ := h
    rw [kept, if_pos hline]
    simp [plainText, text]

theorem length_plainText_le (segment : Segment unicodeWord) :
    segment.plainText.length ≤ segment.kept.length := by
  by_cases h : segment.Multiline
  · exact (length_plainText_lt h).le
  · rw [kept_of_not_multiline h]

theorem kept_eq_plainText_iff {segments : List (Segment unicodeWord)} :
    segments.flatMap kept = segments.flatMap plainText ↔
      ∀ segment ∈ segments, ¬segment.Multiline := by
  constructor
  · intro h segment hsegment hmultiline
    have hlt : (segments.map fun x => x.plainText.length).sum <
        (segments.map fun x => x.kept.length).sum :=
      List.sum_lt_sum _ _ (fun x _ => length_plainText_le x)
        ⟨segment, hsegment, length_plainText_lt hmultiline⟩
    rw [← List.length_flatMap, ← List.length_flatMap, h] at hlt
    exact lt_irrefl _ hlt
  · intro h
    exact List.flatMap_congr fun segment hsegment => kept_of_not_multiline (h segment hsegment)

end Segment

theorem passed_log_iff (response : Option ℕ) (qq : Str) (segments : List (Segment unicodeWord)) :
    passed (log unicodeWord response
        (groupMessage GROUP_ID qq (segments.flatMap Segment.text))).log =
      [segments.flatMap Segment.plainText] ↔ ∀ segment ∈ segments, ¬segment.Multiline := by
  rw [passed_log, Segment.removeAll_texts, List.cons.injEq, and_iff_left rfl,
    Segment.kept_eq_plainText_iff]

def twoLines : List (Segment fun _ => false) :=
  [.plain "hi".toList (by decide),
    .code "share".toList (some "title=a\nb".toList) (by decide) (List.all_eq_true.mp (by decide))
      (by decide)]

theorem not_passed_log_twoLines :
    passed (log (fun _ => false) (some 200)
        (groupMessage GROUP_ID "10001".toList (twoLines.flatMap Segment.text))).log =
      ["hi[CQ:share,title=a\nb]".toList] ∧
    passed (log (fun _ => false) (some 200)
        (groupMessage GROUP_ID "10001".toList (twoLines.flatMap Segment.text))).log ≠
      [twoLines.flatMap Segment.plainText] := by decide

end DanmakuChicken.CoolQ
