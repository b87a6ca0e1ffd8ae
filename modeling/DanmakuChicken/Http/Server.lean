import DanmakuChicken.Http.Content
import DanmakuChicken.Lib.Regex
import DanmakuChicken.Overlay.Critical
import DanmakuChicken.SimpleWeb.Session
import DanmakuChicken.SimpleWeb.Write

namespace DanmakuChicken.Http

open Overlay SimpleWeb

/-- `regex_match`: the pattern takes the whole text. -/
def regexMatch (r : Regex UInt8) (s : Str) : Bool := [] ∈ r.rests s

def findResource {H : Type} (resource : List (Regex UInt8 × List (Str × H)))
    (defaultResource : List (Str × H)) (request : RequestMessage) : Option H :=
  (resource.findSome? fun (regex, methods) =>
    (methods.lookup request.method).filter fun _ => regexMatch regex request.path).or
      (defaultResource.lookup request.method)

/-- `^/danmaku`, where a match of the whole text starts anyway. -/
def danmakuRegex : Regex UInt8 := .seq .eps (.literal (literal "/danmaku"))

variable (readJson : List UInt8 → Except String (Json String)) (gdi : Gdi)

abbrev Handler := DanmakuManager → Str → Response × DanmakuManager

def resources : List (Regex UInt8 × List (Str × Handler)) :=
  [(danmakuRegex, [(literal "POST", fun m content => handleAddDanmaku readJson gdi m content)])]

/-- The call of `AddDanmaku` is one step here: that the threads of the window come between its
critical sections is left to `Threads`. -/
def resource : SimpleWeb.Resource DanmakuManager := fun m request content =>
  (findResource (resources readJson gdi) [] request).map fun handler =>
    let (response, m) := handler m content
    (m, Utf8.encode response.text, false)

theorem mem_rests_literal {u s : Str} : [] ∈ (Regex.literal u).rests s ↔ s = u := by
  induction u generalizing s with
  | nil => simp [Regex.literal, eq_comm]
  | cons c u ih =>
    cases s with
    | nil => simp [Regex.literal]
    | cons d s =>
      rw [Regex.literal, Regex.rests_seq, Regex.rests_char_cons]
      by_cases h : d = c
      · simp [h, ih]
      · simp [h]

theorem regexMatch_danmakuRegex {path : Str} :
    regexMatch danmakuRegex path ↔ path = literal "/danmaku" := by
  simp [regexMatch, danmakuRegex, mem_rests_literal]

def IsPost (request : RequestMessage) : Prop :=
  request.method = literal "POST" ∧ request.path = literal "/danmaku"

instance (request : RequestMessage) : Decidable (IsPost request) :=
  inferInstanceAs (Decidable (_ ∧ _))

theorem findResource_danmaku {H : Type} (handler : H) (request : RequestMessage) :
    findResource [(danmakuRegex, [(literal "POST", handler)])] [] request =
      if IsPost request then some handler else none := by
  have hmatch : regexMatch danmakuRegex request.path =
      decide (request.path = literal "/danmaku") := by
    rw [Bool.eq_iff_iff, regexMatch_danmakuRegex, decide_eq_true_eq]
  by_cases hmethod : request.method = literal "POST"
  · by_cases hpath : request.path = literal "/danmaku"
    · have hmatch' : regexMatch danmakuRegex (literal "/danmaku") := by simpa [hpath] using hmatch
      simp [findResource, hmatch', IsPost, hmethod, hpath]
    · simp [findResource, hmatch, IsPost, hmethod, hpath]
  · have hbeq : (request.method == literal "POST") = false := by simpa using hmethod
    simp [findResource, IsPost, hmethod, List.lookup_cons, hbeq]

theorem resource_eq (m : DanmakuManager) (request : RequestMessage) (content : Str) :
    resource readJson gdi m request content =
      if IsPost request then
        some ((handleAddDanmaku readJson gdi m content).2,
          Utf8.encode (handleAddDanmaku readJson gdi m content).1.text, false)
      else none := by
  rw [resource, resources, findResource_danmaku]
  split_ifs <;> rfl

def posted (body : Str) : Except String CString := do
  let pt := Ptree.ofJson (← readJson body)
  let contentA ← pt.get "content"
  let contentW ← fromBytes (Utf8.encode contentA)
  return toCString contentW

theorem handleAddDanmaku_eq (m : DanmakuManager) (body : Str) :
    handleAddDanmaku readJson gdi m body =
      match posted readJson body with
      | .ok content => (.success, m.addDanmaku gdi content)
      | .error what => (.failure what, m) := by
  simp only [handleAddDanmaku, tryAddDanmaku, posted, bind, Except.bind, pure, Except.pure]
  cases readJson body with
  | error what => rfl
  | ok json =>
    dsimp only
    cases (Ptree.ofJson json).get "content" with
    | error what => rfl
    | ok contentA =>
      dsimp only
      cases fromBytes (Utf8.encode contentA) <;> rfl

def answer (body : Str) : Response :=
  match posted readJson body with
  | .ok _ => .success
  | .error what => .failure what

/-- The operations of the manager that a history comes to, with the connections that ask for
them; those of the window have none. -/
def ops (m : DanmakuManager) : List (SimpleWeb.Entry ⊕ Op) → List (Option ℕ × Op)
  | [] => []
  | .inl e :: history =>
    match posted readJson e.content with
    | .ok content =>
      let op := .addDanmaku content (gdi content m.danmakuSize)
      (some e.connection, op) :: ops (m.apply op) history
    | .error _ => ops m history
  | .inr op :: history => (none, op) :: ops (m.apply op) history

def addedBy (p : ℕ → Bool) (tagged : List (Option ℕ × Op)) : List CString :=
  (tagged.filter (·.1.any p)).filterMap fun
    | (_, .addDanmaku content _) => some content
    | _ => none

def added (i : ℕ) : List (Option ℕ × Op) → List CString := addedBy (· = i)

section Program

variable {readJson gdi} {m m' : DanmakuManager} {history : List (SimpleWeb.Entry ⊕ Op)}
  {e : SimpleWeb.Entry}

theorem eq_of_programStep (h : Server.programStep DanmakuManager.apply (resource readJson gdi) m
    (.inl e) = some m') : m' = (handleAddDanmaku readJson gdi m e.content).2 := by
  rw [Server.programStep, resource_eq] at h
  split_ifs at h
  · exact (Option.some.inj (Option.ite_none_right_eq_some.mp h).2).symm
  · cases h

theorem run_ops (h : Lts.run (Server.programStep DanmakuManager.apply (resource readJson gdi)) m
    history = some m') : m' = m.run ((ops readJson gdi m history).map Prod.snd) := by
  induction history generalizing m with
  | nil =>
    cases h
    rfl
  | cons event history ih =>
    obtain ⟨m₁, hstep, hrun⟩ := Lts.run_cons_eq_some.mp h
    cases event with
    | inr op =>
      cases hstep
      exact ih hrun
    | inl e =>
      have hm₁ := eq_of_programStep hstep
      rw [handleAddDanmaku_eq] at hm₁
      cases hposted : posted readJson e.content with
      | error what =>
        obtain rfl : m₁ = m := by simpa [hposted] using hm₁
        simpa [ops, hposted] using ih hrun
      | ok content =>
        obtain rfl : m₁ = m.addDanmaku gdi content := by simpa [hposted] using hm₁
        have hops : ops readJson gdi m (.inl e :: history) =
            (some e.connection, .addDanmaku content (gdi content m.danmakuSize)) ::
              ops readJson gdi (m.addDanmaku gdi content) history := by
          simp [ops, hposted, DanmakuManager.apply, DanmakuManager.addDanmaku]
        rw [hops]
        exact ih hrun

end Program

/-- A request of `add_danmaku`, however its head is written and its body transferred. -/
structure Post (bits : ℕ) extends Exchange bits where
  message : String
  isPost : IsPost request
  content_eq : content = requestBody message

def Post.shown {bits : ℕ} (post : Post bits) : CString := toCString (Utf16.encode post.message)

section Posts

variable {readJson gdi} {bits : ℕ} {posts : List (Post bits)}

section Run

variable {σ τ : Type} {apply : σ → τ → σ} {found : SimpleWeb.Resource σ} {program program' : σ}
  {i : ℕ} {e : SimpleWeb.Entry}

variable {actions : List ((ℕ × Connection.Action) ⊕ τ)} {u : Server σ τ}

end Run

section Added

variable {m : DanmakuManager} {i : ℕ} {actions : List ((ℕ × Connection.Action) ⊕ Op)}
  {u : Server DanmakuManager Op}

/-- The runs in which nothing comes between the critical sections of a call of `AddDanmaku` are
some of those of the threads. -/
theorem exists_run_world
    (hrun : Lts.run (Server.step bits DanmakuManager.apply (resource readJson gdi))
      { program := m } actions = some u) :
    ∃ schedule calls, Lts.run World.step ⟨m, []⟩ schedule = some ⟨u.program, calls⟩ ∧
      (∀ c ∈ calls, c = .returned) ∧
      schedule.filter (!·.isCritical) =
        (ops readJson gdi m u.history).map fun op => .ofOp op.2 := by
  obtain ⟨schedule, calls, hschedule, hcalls, hactions⟩ :=
    World.exists_run_ops ⟨m, []⟩ ((ops readJson gdi m u.history).map Prod.snd)
  rw [← run_ops (Server.logged_of_run hrun).program] at hschedule
  refine ⟨schedule, calls, by simpa using hschedule, hcalls, ?_⟩
  rw [hactions, List.map_map]
  rfl

end Added

end Posts

def postHeader : CaseInsensitiveMultimap :=
  [(literal "Connection", literal "keep-alive"), (literal "Content-Length", literal "16")]

def postHead : Str := headText (literal "POST /danmaku HTTP/1.1") postHeader

def postRequest : RequestMessage :=
  ⟨literal "POST", literal "/danmaku", [], literal "1.1", postHeader⟩

theorem isHead_postHead : IsHead (requestFormat 32) postHead postRequest := by
  have hline : (requestFormat 32).firstLine (literal "POST /danmaku HTTP/1.1" ++ ['\r'.toUInt8]) =
      some ⟨literal "POST", literal "/danmaku", [], literal "1.1", []⟩ := by decide
  exact isHead_headText hline (by decide) (by decide)

theorem length_requestBody : (requestBody "a").length = 16 := by decide

theorem body_requestBody :
    Body (requestFormat 32) postRequest (requestBody "a") (requestBody "a") := by
  have hvalue : (requestFormat 32).contentLength postRequest = some (literal "16") := by decide
  refine .length hvalue ?_
  rw [length_requestBody]
  decide

def post : Post 32 where
  head := postHead
  body := requestBody "a"
  request := postRequest
  content := requestBody "a"
  isHead := isHead_postHead
  isBody := body_requestBody
  message := "a"
  isPost := by decide
  content_eq := rfl

theorem encode_toString (n : ℕ) : Utf8.encode (toString n) = Strtoul.decimal n := by
  refine Utf8.encode_ofList fun c hc => ?_
  have hdigit : c.isDigit := Nat.isDigit_of_mem_toDigits (by decide) (by decide) hc
  have hle : 48 ≤ c.val ∧ c.val ≤ 57 := by simpa [Char.isDigit] using hdigit
  have hascii : (57 : UInt32) ≤ 127 := by decide
  exact Char.utf8Size_eq_one_iff.mpr (UInt32.le_trans hle.2 hascii)

def Response.statusCode (r : Response) : Str := Utf8.encode (toString r.status ++ " " ++ r.reason)

theorem encode_text (r : Response) : Utf8.encode r.text =
    SimpleWeb.Response.write false r.statusCode (Utf8.encode r.content) [] := by
  have hsize : (Utf8.encode r.content).length = r.content.utf8ByteSize := by simp [Utf8.encode]
  have hreason : "\r\nContent-Length: " = "\r\n" ++ "Content-Length: " := by decide
  simp only [Response.text, Response.statusCode, Utf8.encode_append, encode_toString,
    SimpleWeb.Response.write, SimpleWeb.Response.writeHeader, SimpleWeb.Response.writeFields, hsize,
    hreason]
  simp

theorem readsBack_answer (bits : ℕ) (m : DanmakuManager) (body : Str)
    (hsize : (Utf8.encode (handleAddDanmaku readJson gdi m body).1.content).length < 2 ^ 64) :
    ReadsBack (responseFormat bits) (Utf8.encode (handleAddDanmaku readJson gdi m body).1.text)
      ⟨literal "1.1", (handleAddDanmaku readJson gdi m body).1.statusCode,
        [(literal "Content-Length", Strtoul.decimal
          (Utf8.encode (handleAddDanmaku readJson gdi m body).1.content).length)]⟩
      (Utf8.encode (handleAddDanmaku readJson gdi m body).1.content) := by
  have hstatus : '\n'.toUInt8 ∉ (handleAddDanmaku readJson gdi m body).1.statusCode := by
    rw [handleAddDanmaku_eq]
    cases posted readJson body with
    | ok content =>
      have hline : '\n'.toUInt8 ∉ Utf8.encode (toString 200 ++ " " ++ "OK") := by decide
      exact hline
    | error what =>
      have hline : '\n'.toUInt8 ∉ Utf8.encode (toString 400 ++ " " ++ "Bad Request") := by decide
      exact hline
  rw [encode_text]
  exact SimpleWeb.Response.readsBack_write hstatus (by simp) rfl rfl hsize

theorem readsBack_answer_failure :
    ReadsBack (responseFormat 32)
      (Utf8.encode (handleAddDanmaku readContent fixedSize {} (literal "a\nb")).1.text)
      ⟨literal "1.1", (handleAddDanmaku readContent fixedSize {} (literal "a\nb")).1.statusCode,
        [(literal "Content-Length", Strtoul.decimal (Utf8.encode
          (handleAddDanmaku readContent fixedSize {} (literal "a\nb")).1.content).length)]⟩
      (Utf8.encode (handleAddDanmaku readContent fixedSize {} (literal "a\nb")).1.content) :=
  readsBack_answer readContent fixedSize 32 {} (literal "a\nb") (by decide +kernel)

end DanmakuChicken.Http
