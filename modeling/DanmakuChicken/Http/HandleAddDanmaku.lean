import DanmakuChicken.Lib.Json
import DanmakuChicken.Lib.Utf8
import DanmakuChicken.Overlay.Manager

namespace DanmakuChicken.Http

open Overlay

inductive Ptree
  | node (data : String) (children : List (String × Ptree))

namespace Ptree

def data : Ptree → String
  | .node data _ => data

def children : Ptree → List (String × Ptree)
  | .node _ children => children

mutual

/-- What `read_json` stores: a scalar as its text, the members and items of the rest as children. -/
def ofJson : Json String → Ptree
  | .null => .node "null" []
  | .bool b => .node (if b then "true" else "false") []
  | .num text => .node text []
  | .str s => .node s []
  | .arr items => .node "" (ofItems items)
  | .obj members => .node "" (ofMembers members)

def ofItems : List (Json String) → List (String × Ptree)
  | [] => []
  | item :: items => ("", ofJson item) :: ofItems items

def ofMembers : List (String × Json String) → List (String × Ptree)
  | [] => []
  | (key, value) :: members => (key, ofJson value) :: ofMembers members

end

/-- `get<string>(key)` for a key without dots, or the `what` of the exception. -/
def get (pt : Ptree) (key : String) : Except String String :=
  match pt.children.lookup key with
  | some child => .ok child.data
  | none => .error ("No such node (" ++ key ++ ")")

theorem lookup_ofItems {key : String} (h : key ≠ "") (items : List (Json String)) :
    (ofItems items).lookup key = none := by
  induction items with
  | nil => rfl
  | cons item items ih =>
    have hne : (key == "") = false := by simpa using h
    rw [ofItems, List.lookup_cons, hne, ih]

theorem lookup_ofMembers (key : String) (members : List (String × Json String)) :
    (ofMembers members).lookup key = (members.lookup key).map ofJson := by
  induction members with
  | nil => rfl
  | cons member members ih =>
    obtain ⟨k, value⟩ := member
    rw [ofMembers, List.lookup_cons, List.lookup_cons, ih]
    cases key == k <;> rfl

end Ptree

/-- `wstring_convert::from_bytes` for UTF-16, or the `what` of its `range_error`. -/
def fromBytes (bytes : List UInt8) : Except String (List UInt16) :=
  match Utf8.decode bytes with
  | some s => .ok (Utf16.encode s)
  | none => .error "bad conversion"

def toCString (contentW : List UInt16) : CString := contentW.takeWhile (· ≠ 0)

structure Response where
  status : ℕ
  reason : String
  content : String
  deriving DecidableEq

def Response.text (r : Response) : String :=
  "HTTP/1.1 " ++ toString r.status ++ " " ++ r.reason ++ "\r\nContent-Length: " ++
    toString r.content.utf8ByteSize ++ "\r\n\r\n" ++ r.content

def Response.success : Response := ⟨200, "OK", ""⟩

example : Response.success.text = "HTTP/1.1 200 OK\r\nContent-Length: 0\r\n\r\n" := by decide

def Response.failure (what : String) : Response :=
  ⟨400, "Bad Request", "\x7b \"error\": \"" ++ what ++ "\" \x7d"⟩

variable (readJson : List UInt8 → Except String (Json String)) (gdi : Gdi)

/-- The `try` block up to the response. -/
def tryAddDanmaku (m : DanmakuManager) (body : List UInt8) : Except String DanmakuManager := do
  let pt := Ptree.ofJson (← readJson body)
  let contentA ← pt.get "content"
  let contentW ← fromBytes (Utf8.encode contentA)
  return m.addDanmaku gdi (toCString contentW)

def handleAddDanmaku (m : DanmakuManager) (body : List UInt8) : Response × DanmakuManager :=
  match tryAddDanmaku readJson gdi m body with
  | .ok m => (.success, m)
  | .error what => (.failure what, m)

def content? : Json String → Option (Json String)
  | .obj members => members.lookup "content"
  | _ => none

theorem get_ofJson (json : Json String) :
    (Ptree.ofJson json).get "content" =
      match content? json with
      | some value => .ok (Ptree.ofJson value).data
      | none => .error "No such node (content)" := by
  have hnone : "No such node (" ++ "content" ++ ")" = "No such node (content)" := by decide
  cases json with
  | obj members =>
    simp only [Ptree.get, Ptree.ofJson, Ptree.children, Ptree.lookup_ofMembers, content?, hnone]
    cases members.lookup "content" <;> rfl
  | arr items =>
    have hkey : "content" ≠ "" := by decide
    simp only [Ptree.get, Ptree.ofJson, Ptree.children, Ptree.lookup_ofItems hkey, content?, hnone]
  | null | bool | num | str =>
    simp only [Ptree.get, Ptree.ofJson, Ptree.children, content?, hnone, List.lookup_nil]

section Handler

variable {readJson gdi} {m : DanmakuManager} {body : List UInt8} {json value : Json String}

theorem handle_of_content (hjson : readJson body = .ok json) (hvalue : content? json = some value) :
    handleAddDanmaku readJson gdi m body =
      (.success, m.addDanmaku gdi (toCString (Utf16.encode (Ptree.ofJson value).data))) := by
  have hget : (Ptree.ofJson json).get "content" = .ok (Ptree.ofJson value).data := by
    rw [get_ofJson, hvalue]
  have hbytes : fromBytes (Utf8.encode (Ptree.ofJson value).data) =
      .ok (Utf16.encode (Ptree.ofJson value).data) := by rw [fromBytes, Utf8.decode_encode]
  simp only [handleAddDanmaku, tryAddDanmaku, hjson, hget, hbytes, bind, Except.bind, pure,
    Except.pure]

theorem handle_of_missing (hjson : readJson body = .ok json) (hvalue : content? json = none) :
    handleAddDanmaku readJson gdi m body = (.failure "No such node (content)", m) := by
  have hget : (Ptree.ofJson json).get "content" = .error "No such node (content)" := by
    rw [get_ofJson, hvalue]
  simp only [handleAddDanmaku, tryAddDanmaku, hjson, hget, bind, Except.bind]

theorem handle_of_invalid {what : String} (hjson : readJson body = .error what) :
    handleAddDanmaku readJson gdi m body = (.failure what, m) := by
  simp only [handleAddDanmaku, tryAddDanmaku, hjson, bind, Except.bind]

end Handler

def Documented (body : List UInt8) : Prop :=
  ∃ json s, readJson body = .ok json ∧ content? json = some (.str s)

def MistypedContent (body : List UInt8) : Prop :=
  ∃ json value, readJson body = .ok json ∧ content? json = some value ∧ ∀ s, value ≠ .str s

/-- The documented answer: 200 and one danmaku more, or 400 and the same danmakus. -/
structure AnsweredAsDocumented (m : DanmakuManager) (body : List UInt8) : Prop where
  accepts : Documented readJson body →
    (handleAddDanmaku readJson gdi m body).1.status = 200 ∧
      ∃ d, (handleAddDanmaku readJson gdi m body).2.danmakuSet = m.danmakuSet ++ [d]
  rejects : ¬Documented readJson body →
    (handleAddDanmaku readJson gdi m body).1.status = 400 ∧
      (handleAddDanmaku readJson gdi m body).2.danmakuSet = m.danmakuSet

section Answers

variable {readJson gdi} {m : DanmakuManager} {body : List UInt8}

theorem MistypedContent.not_documented (h : MistypedContent readJson body) :
    ¬Documented readJson body := by
  obtain ⟨json, value, hjson, hvalue, hstr⟩ := h
  rintro ⟨json', s, hjson', hs⟩
  rw [hjson] at hjson'
  cases hjson'
  rw [hvalue] at hs
  exact hstr s (Option.some.inj hs)

theorem MistypedContent.not_answered (h : MistypedContent readJson body) :
    ¬AnsweredAsDocumented readJson gdi m body := by
  intro hanswered
  have hstatus := (hanswered.rejects h.not_documented).1
  obtain ⟨json, value, hjson, hvalue, -⟩ := h
  rw [handle_of_content hjson hvalue] at hstatus
  cases hstatus

end Answers

theorem answeredAsDocumented_iff (m : DanmakuManager) (body : List UInt8) :
    AnsweredAsDocumented readJson gdi m body ↔ ¬MistypedContent readJson body := by
  constructor
  · intro hanswered hmistyped
    exact hmistyped.not_answered hanswered
  · intro hmistyped
    refine ⟨?_, ?_⟩
    · rintro ⟨json, s, hjson, hs⟩
      rw [handle_of_content hjson hs]
      exact ⟨rfl, _, rfl⟩
    · intro hnot
      cases hjson : readJson body with
      | error what =>
        rw [handle_of_invalid hjson]
        exact ⟨rfl, rfl⟩
      | ok json =>
        cases hvalue : content? json with
        | none =>
          rw [handle_of_missing hjson hvalue]
          exact ⟨rfl, rfl⟩
        | some value =>
          refine absurd ⟨json, value, hjson, hvalue, ?_⟩ hmistyped
          rintro s rfl
          exact hnot ⟨json, s, hjson, hvalue⟩

def reads (text : String) (json : Json String) (body : List UInt8) :
    Except String (Json String) :=
  if body = Utf8.encode text then .ok json else .error "<unspecified file>(1): expected value"

theorem reads_encode (text : String) (json : Json String) :
    reads text json (Utf8.encode text) = .ok json := if_pos rfl

def number : Json String := .obj [("content", .num "12450")]

def numberText : String := "\x7b\"content\": 12450\x7d"

def list : Json String := .obj [("content", .arr [.str "a"])]

def listText : String := "\x7b\"content\": [\"a\"]\x7d"

def fixedSize : Gdi := fun _ _ => ⟨40, 30, ⟨none⟩⟩

theorem not_answeredAsDocumented_number :
    ¬AnsweredAsDocumented (reads numberText number) fixedSize {} (Utf8.encode numberText) ∧
      ¬AnsweredAsDocumented (reads listText list) fixedSize {} (Utf8.encode listText) ∧
      handleAddDanmaku (reads listText list) fixedSize {} (Utf8.encode listText) =
        (.success, DanmakuManager.addDanmaku fixedSize {} []) := by
  refine ⟨?_, ?_, ?_⟩
  · apply MistypedContent.not_answered
    exact ⟨number, .num "12450", reads_encode _ _, rfl, nofun⟩
  · apply MistypedContent.not_answered
    exact ⟨list, .arr [.str "a"], reads_encode _ _, rfl, nofun⟩
  · have hvalue : content? list = some (.arr [.str "a"]) := rfl
    rw [handle_of_content (reads_encode listText list) hvalue]
    rfl

end DanmakuChicken.Http
