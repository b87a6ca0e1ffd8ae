import DanmakuChicken.FromUrl.Main
import DanmakuChicken.Http.HandleAddDanmaku
import DanmakuChicken.Lib.JsonString
import Mathlib.Data.List.TakeWhile

namespace DanmakuChicken.Http

open Overlay

def bodyOf (literal : List Char) : List UInt8 :=
  Utf8.encode (String.ofList ("\x7b\"content\": ".toList ++ literal ++ "\x7d".toList))

def requestBody (content : String) : List UInt8 := bodyOf (JsonString.quote content)

inductive Delivery
  | refused | unanswered | answered
  deriving DecidableEq

variable (readJson : List UInt8 → Except String (Json String)) (gdi : Gdi)

def addDanmaku (m : DanmakuManager) (content : String) (delivery : Delivery) :
    Bool × DanmakuManager :=
  let (response, handled) := handleAddDanmaku readJson gdi m (requestBody content)
  match delivery with
  | .refused => (FromUrl.addDanmaku none, m)
  | .unanswered => (FromUrl.addDanmaku none, handled)
  | .answered => (FromUrl.addDanmaku (some response.status), handled)

/-- `read_json` decodes every escape of a string. -/
def ReadsContent : Prop := ∀ literal s, JsonString.unquote literal = some s →
  readJson (bodyOf literal) = .ok (.obj [("content", .str s)])

/-- Whenever `add_danmaku` reports success, one danmaku more shows exactly this content. -/
def Faithful (content : String) : Prop :=
  ∀ m delivery, (addDanmaku readJson gdi m content delivery).1 = true →
    ∃ d, (addDanmaku readJson gdi m content delivery).2.danmakuSet = m.danmakuSet ++ [d] ∧
      d.content = Utf16.encode content

theorem zero_mem_encodeChar {c : Char} : 0 ∈ Utf16.encodeChar c ↔ c = '\x00' := by
  have hzero : c = '\x00' ↔ c.toNat = 0 := by
    rw [Char.ext_iff, ← UInt32.toNat_inj]
    rfl
  rw [hzero]
  obtain ⟨u, hc, hu⟩ | ⟨u, v, hc, hlarge, hu, hv⟩ := Utf16.encodeChar_cases c
  · rw [hc, List.mem_singleton, ← UInt16.toNat_inj, hu, eq_comm]
    rfl
  · have hne : c.toNat ≠ 0 := by omega
    rw [hc, List.mem_cons, List.mem_singleton, ← UInt16.toNat_inj, ← UInt16.toNat_inj, hu, hv]
    have hzero : (0 : UInt16).toNat = 0 := rfl
    omega

theorem toCString_eq_self_iff {contentW : List UInt16} :
    toCString contentW = contentW ↔ 0 ∉ contentW := by
  rw [toCString, List.takeWhile_eq_self_iff]
  constructor
  · intro h hzero
    simpa using h 0 hzero
  · intro h u hu
    have hne : u ≠ 0 := fun hzero => h (hzero ▸ hu)
    simpa using hne

theorem toCString_encode_iff {content : String} :
    toCString (Utf16.encode content) = Utf16.encode content ↔ '\x00' ∉ content.toList := by
  rw [toCString_eq_self_iff, Utf16.encode, List.mem_flatMap]
  simp [zero_mem_encodeChar]

section Chain

variable {readJson gdi}

theorem handle_requestBody (hread : ReadsContent readJson) (m : DanmakuManager) (content : String) :
    handleAddDanmaku readJson gdi m (requestBody content) =
      (.success, m.addDanmaku gdi (toCString (Utf16.encode content))) := by
  have hjson : readJson (requestBody content) = .ok (.obj [("content", .str content)]) :=
    hread (JsonString.quote content) content (JsonString.unquote_quote content)
  have hvalue : content? (.obj [("content", .str content)]) = some (.str content) := by
    rw [content?, List.lookup_cons_self]
  rw [handle_of_content hjson hvalue]
  rfl

theorem placed_content (m : DanmakuManager) (content : CString) (drawn : Drawing) :
    (m.placed content drawn).content = content := by
  rw [DanmakuManager.placed_eq]
  rfl

theorem faithful_iff_toCString (hread : ReadsContent readJson) (content : String) :
    Faithful readJson gdi content ↔ toCString (Utf16.encode content) = Utf16.encode content := by
  have hset (m : DanmakuManager) : (m.addDanmaku gdi (toCString (Utf16.encode content))).danmakuSet =
      m.danmakuSet ++ [m.placed (toCString (Utf16.encode content))
        (gdi (toCString (Utf16.encode content)) m.danmakuSize)] := rfl
  constructor
  · intro h
    have hanswered := h {} .answered
    simp only [addDanmaku, handle_requestBody hread, hset] at hanswered
    obtain ⟨d, hd, hcontent⟩ := hanswered rfl
    obtain rfl := List.singleton_inj.mp (List.append_cancel_left hd)
    rw [placed_content] at hcontent
    exact hcontent
  · intro h m delivery htrue
    cases delivery with
    | refused => cases htrue
    | unanswered => cases htrue
    | answered =>
      simp only [addDanmaku, handle_requestBody hread, hset]
      exact ⟨_, rfl, by rw [placed_content, h]⟩

theorem faithful_iff (hread : ReadsContent readJson) (content : String) :
    Faithful readJson gdi content ↔ '\x00' ∉ content.toList :=
  (faithful_iff_toCString hread content).trans toCString_encode_iff

end Chain

def readContent (body : List UInt8) : Except String (Json String) :=
  let content := (Utf8.decode body).bind fun text =>
    if text.toList.take 12 = "\x7b\"content\": ".toList then
      JsonString.unquote (text.toList.drop 12).dropLast
    else none
  match content with
  | some s => .ok (.obj [("content", .str s)])
  | none => .error "<unspecified file>(1): expected value"

theorem readsContent_readContent : ReadsContent readContent := by
  intro literal s hliteral
  have hopen : "\x7b\"content\": ".toList.length = 12 := by decide
  have hclose : "\x7d".toList = ['\x7d'] := by decide
  have htake : ("\x7b\"content\": ".toList ++ literal ++ "\x7d".toList).take 12 =
      "\x7b\"content\": ".toList := by
    rw [List.append_assoc]
    exact List.take_left' hopen
  have hdrop : (("\x7b\"content\": ".toList ++ literal ++ "\x7d".toList).drop 12).dropLast =
      literal := by
    rw [List.append_assoc, List.drop_left' hopen, hclose, List.dropLast_concat]
  simp only [readContent, bodyOf, Utf8.decode_encode, Option.bind_some, String.toList_ofList, htake,
    hdrop, if_true, hliteral]

def hello : String := "\"hi\" 🐔"

theorem faithful_hello : Faithful readContent fixedSize hello :=
  (faithful_iff readsContent_readContent hello).mpr (by decide)

theorem not_faithful_zero : ¬Faithful readContent fixedSize "a\x00b" := by
  rw [faithful_iff_toCString readsContent_readContent, toCString_encode_iff]
  decide

end DanmakuChicken.Http
