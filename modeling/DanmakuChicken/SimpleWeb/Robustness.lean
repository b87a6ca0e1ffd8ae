import DanmakuChicken.SimpleWeb.Reading

namespace DanmakuChicken.SimpleWeb

namespace HttpHeader

theorem left_le_of_ends {s : Istream × Str × CaseInsensitiveMultimap}
    {r : Istream × CaseInsensitiveMultimap} (h : Loop.Ends body s r) : r.1.left ≤ s.1.left := by
  induction h with
  | @done s r hdone =>
    obtain ⟨stream, line, result⟩ := s
    by_cases hline : ':'.toUInt8 ∈ line
    · rw [body_of_mem hline] at hdone
      cases hdone
    · rw [body_of_not_mem hline] at hdone
      cases hdone
      exact le_rfl
  | @next s t r hnext _ ih =>
    obtain ⟨stream, line, result⟩ := s
    by_cases hline : ':'.toUInt8 ∈ line
    · rw [body_of_mem hline] at hnext
      cases hnext
      exact ih.trans (getline_left_le stream line)
    · rw [body_of_not_mem hline] at hnext
      cases hnext

end HttpHeader

theorem left_lt_of_parseMessage {μ : Type} {firstLine : Str → Option μ}
    {withHeader : μ → CaseInsensitiveMultimap → μ} {stream stream' : Istream} {message : Option μ}
    (hgood : stream.good)
    (h : parseMessage firstLine withHeader stream = some (stream', message)) :
    stream'.left < stream.left := by
  have hlt := getline_left_lt hgood []
  rw [parseMessage] at h
  dsimp only at h
  split at h
  · cases h
    exact hlt
  · obtain ⟨⟨rest, header⟩, hparse, heq⟩ := Option.map_eq_some_iff.mp h
    cases heq
    have hle := getline_left_le (getline stream []).1 []
    have hends := HttpHeader.left_le_of_ends (HttpHeader.parse_eq_some_iff.mp hparse)
    exact (hends.trans hle).trans_lt hlt

namespace Reading

variable {μ : Type} (fmt : Format μ)

def work (s : Reading μ) : ℕ :=
  match s.phase with
  | .head | .chunkSize _ _ | .toEnd _ => 3 * s.incoming.length + 2 * s.stream.left + 1
  | .content _ _ | .chunk _ _ _ _ => 3 * s.incoming.length + 2 * s.stream.left + 2
  | .done _ | .failed | .hung | .undefined => 0

variable {fmt}

theorem work_readChunk_le (incoming : Str) (message : μ) (chunks : Str) (length : ℕ)
    (stream : Istream) : (readChunk incoming message chunks length stream).work ≤
      3 * incoming.length + 2 * stream.left + 1 := by
  rw [readChunk]
  split_ifs with hle hpos
  · have hleft : Istream.left ⟨stream.buf.drop (length + 2),
        stream.good && decide (length + 2 ≤ stream.buf.length)⟩ ≤ stream.left := by
      cases hgood : stream.good with
      | false => simp [Istream.left]
      | true =>
        simp only [Istream.left, hgood, Bool.true_and, List.length_drop, if_true]
        split_ifs <;> omega
    simp only [work]
    omega
  · exact Nat.zero_le _
  · exact Nat.zero_le _

theorem work_onChunkSize_le (fmt : Format μ) (incoming : Str) (message : μ) (chunks : Str)
    (stream : Istream) (n : ℕ) : (onChunkSize fmt incoming message chunks stream n).work ≤
      3 * incoming.length + 2 * stream.left := by
  cases hgood : stream.good with
  | false => simp [onChunkSize, getline_of_not_good hgood, work]
  | true =>
    have hlt := getline_left_lt hgood []
    simp only [onChunkSize]
    split_ifs
    · exact Nat.zero_le _
    split
    · exact Nat.zero_le _
    split_ifs
    · simp only [work]
      omega
    · refine (work_readChunk_le _ _ _ _ _).trans ?_
      omega

theorem work_onHead_le (fmt : Format μ) (incoming : Str) {stream : Istream} (hgood : stream.good)
    (n : ℕ) : (onHead fmt incoming stream n).work ≤ 3 * incoming.length + 2 * stream.left := by
  simp only [onHead]
  split
  · exact Nat.zero_le _
  · exact Nat.zero_le _
  · rename_i stream' message hparse
    have hlt := left_lt_of_parseMessage hgood hparse
    split
    · split
      · exact Nat.zero_le _
      · split_ifs
        · simp only [work]
          omega
        · exact Nat.zero_le _
    · split_ifs
      · simp only [work]
        omega
      · simp only [work]
        omega
      · exact Nat.zero_le _

theorem exists_parse_of_through (fmt : Format μ) {buf x y : Str}
    (h : Search.through headEnd buf = some (x, y)) :
    ∃ rest message, fmt.parse ⟨buf, true⟩ = some (⟨rest, true⟩, message) := by
  obtain ⟨rfl, hsuffix⟩ := Search.eq_append_of_through h
  obtain ⟨rest, message, hparse⟩ := parse_append fmt.firstLine fmt.withHeader hsuffix
  exact ⟨rest ++ y, message, hparse y⟩

structure Sound (s : Reading μ) : Prop where
  good : s.phase = .head → s.stream.good
  not_hung : s.phase ≠ .hung

theorem sound_readChunk (incoming : Str) (message : μ) (chunks : Str) (length : ℕ)
    (stream : Istream) : Sound (readChunk incoming message chunks length stream) := by
  rw [readChunk]
  split_ifs <;> exact ⟨by simp, by simp⟩

theorem sound_onChunkSize (incoming : Str) (message : μ) (chunks : Str) (stream : Istream)
    (n : ℕ) : Sound (onChunkSize fmt incoming message chunks stream n) := by
  simp only [onChunkSize]
  split_ifs
  · exact ⟨by simp, by simp⟩
  split
  · exact ⟨by simp, by simp⟩
  split_ifs
  · exact ⟨by simp, by simp⟩
  · exact sound_readChunk _ _ _ _ _

theorem sound_onHead (incoming : Str) {buf x y : Str}
    (h : Search.through headEnd buf = some (x, y)) (n : ℕ) :
    Sound (onHead fmt incoming ⟨buf, true⟩ n) := by
  obtain ⟨rest, message, hparse⟩ := exists_parse_of_through fmt h
  simp only [onHead, hparse]
  cases message with
  | none => exact ⟨by simp, by simp⟩
  | some message =>
    dsimp only
    split
    · split
      · exact ⟨by simp, by simp⟩
      · split_ifs <;> exact ⟨by simp, by simp⟩
    · split_ifs <;> exact ⟨by simp, by simp⟩

inductive Completes (fmt : Format μ) : Reading μ → Reading μ → Prop
  | head {incoming x y : Str} {stream : Istream}
    (h : Search.through headEnd stream.buf = some (x, y)) :
    Completes fmt ⟨incoming, stream, .head⟩ (onHead fmt incoming stream x.length)
  | content {incoming : Str} {stream : Istream} {message : μ} :
    Completes fmt ⟨incoming, stream, .content message 0⟩ ⟨incoming, stream, .done message⟩
  | chunkSize {incoming chunks x y : Str} {stream : Istream} {message : μ}
    (h : Search.through crlf stream.buf = some (x, y)) :
    Completes fmt ⟨incoming, stream, .chunkSize message chunks⟩
      (onChunkSize fmt incoming message chunks stream x.length)
  | chunk {incoming chunks : Str} {stream : Istream} {message : μ} {length : ℕ} :
    Completes fmt ⟨incoming, stream, .chunk message chunks length 0⟩
      (readChunk incoming message chunks length stream)

theorem completes_of_complete {s t : Reading μ} (h : s.complete fmt = some t) :
    Completes fmt s t := by
  obtain ⟨incoming, stream, phase⟩ := s
  cases phase with
  | head =>
    obtain ⟨⟨x, y⟩, hthrough, rfl⟩ := Option.map_eq_some_iff.mp h
    exact .head hthrough
  | chunkSize message chunks =>
    obtain ⟨⟨x, y⟩, hthrough, rfl⟩ := Option.map_eq_some_iff.mp h
    exact .chunkSize hthrough
  | content message need =>
    cases need with
    | zero =>
      cases h
      exact .content
    | succ need => cases h
  | chunk message chunks length need =>
    cases need with
    | zero =>
      cases h
      exact .chunk
    | succ need => cases h
  | toEnd | done | failed | hung | undefined => cases h

theorem Sound.eq_of_head {incoming : Str} {stream : Istream}
    (h : Sound (μ := μ) ⟨incoming, stream, .head⟩) : stream = ⟨stream.buf, true⟩ := by
  rw [← h.good rfl]

theorem Sound.complete {s t : Reading μ} (h : Sound s) (ht : Completes fmt s t) :
    Sound t ∧ t.work < s.work := by
  cases ht with
  | @head incoming x y stream hthrough =>
    have hstream := h.eq_of_head
    have hwork := work_onHead_le fmt incoming (h.good rfl) x.length
    constructor
    · rw [hstream]
      exact sound_onHead incoming hthrough x.length
    · simp only [work] at hwork ⊢
      omega
  | content => exact ⟨⟨by simp, by simp⟩, by simp [work]⟩
  | @chunkSize incoming chunks x y stream message hthrough =>
    have hwork := work_onChunkSize_le fmt incoming message chunks stream x.length
    refine ⟨sound_onChunkSize _ _ _ _ _, ?_⟩
    simp only [work] at hwork ⊢
    omega
  | @chunk incoming chunks stream message length =>
    have hwork := work_readChunk_le incoming message chunks length stream
    refine ⟨sound_readChunk _ _ _ _ _, ?_⟩
    simp only [work] at hwork ⊢
    omega

theorem Sound.receive {s : Reading μ} (h : Sound s) {n : ℕ} (hpos : 0 < n)
    (hle : n ≤ s.incoming.length) (htakes : s.takes n) :
    Sound (s.receive n) ∧ (s.receive n).work < s.work := by
  obtain ⟨incoming, stream, phase⟩ := s
  have hleft : Istream.left { stream with buf := stream.buf ++ incoming.take n } ≤
      stream.left + n := by
    simp only [Istream.left, List.length_append, List.length_take_of_le hle]
    split_ifs <;> omega
  have hlen : (incoming.drop n).length = incoming.length - n := List.length_drop
  dsimp only at hle
  cases phase with
  | head =>
    refine ⟨⟨fun _ => h.good rfl, by simp [Reading.receive]⟩, ?_⟩
    simp only [work, Reading.receive, hlen]
    omega
  | chunkSize | content | chunk | toEnd =>
    refine ⟨⟨by simp [Reading.receive], by simp [Reading.receive]⟩, ?_⟩
    simp only [work, Reading.receive, hlen]
    omega
  | done | failed | hung | undefined => cases htakes

theorem Sound.close {s t : Reading μ} (h : Reading.step fmt s .close = some t) :
    Sound t ∧ t.work < s.work := by
  obtain ⟨⟨-, htakes⟩, ht⟩ := Option.ite_none_right_eq_some.mp h
  obtain ⟨incoming, stream, phase⟩ := s
  cases phase with
  | head | chunkSize | content | chunk | toEnd =>
    cases ht
    exact ⟨⟨by simp, by simp⟩, by simp [work]⟩
  | done | failed | hung | undefined => cases htakes

theorem Sound.step {s t : Reading μ} {a : Action} (h : Sound s)
    (ht : Reading.step fmt s a = some t) :
    Sound t ∧ (if a.isArrival then 0 else 1) + t.work ≤ s.work + 3 * (arrivedBy a).length := by
  cases a with
  | arrive bytes =>
    cases ht
    refine ⟨⟨h.good, h.not_hung⟩, ?_⟩
    obtain ⟨incoming, stream, phase⟩ := s
    cases phase <;> simp [work, Action.isArrival, arrivedBy] <;> omega
  | receive n =>
    obtain ⟨⟨hpos, hle, htakes⟩, rfl⟩ :=
      (Option.ite_none_right_eq_some.mp ht).imp_right Option.some.inj
    obtain ⟨hsound, hlt⟩ := h.receive hpos hle htakes
    refine ⟨hsound, ?_⟩
    simp only [Action.isArrival, arrivedBy, Bool.false_eq_true, if_false, List.length_nil]
    omega
  | complete =>
    obtain ⟨hsound, hlt⟩ := h.complete (completes_of_complete ht)
    refine ⟨hsound, ?_⟩
    simp only [Action.isArrival, arrivedBy, Bool.false_eq_true, if_false, List.length_nil]
    omega
  | close =>
    obtain ⟨hsound, hlt⟩ := Sound.close ht
    refine ⟨hsound, ?_⟩
    simp only [Action.isArrival, arrivedBy, Bool.false_eq_true, if_false, List.length_nil]
    omega

theorem Sound.run {s u : Reading μ} {actions : List Action} (h : Sound s)
    (hrun : Lts.run (Reading.step fmt) s actions = some u) :
    Sound u ∧ actions.countP (!·.isArrival) + u.work ≤ s.work + 3 * (arrived actions).length := by
  induction actions generalizing s with
  | nil =>
    cases hrun
    exact ⟨h, by simp⟩
  | cons a actions ih =>
    obtain ⟨t, ht, hrun⟩ := Lts.run_cons_eq_some.mp hrun
    obtain ⟨hsound, hle⟩ := h.step ht
    obtain ⟨hsound', hle'⟩ := ih hsound hrun
    refine ⟨hsound', ?_⟩
    rw [List.countP_cons, arrived, List.flatMap_cons, List.length_append]
    rw [arrived] at hle'
    cases harrival : a.isArrival <;> simp only [harrival, if_true, Bool.false_eq_true, if_false,
      Bool.not_true, Bool.not_false] at hle ⊢ <;> omega

theorem steps_le_of_run {incoming : Str} {actions : List Action} {u : Reading μ}
    (hrun : Lts.run (Reading.step fmt) { incoming := incoming } actions = some u) :
    u.phase ≠ .hung ∧ actions.countP (!·.isArrival) ≤
      3 * (incoming.length + (arrived actions).length) + 3 := by
  have hstart : Sound (μ := μ) { incoming := incoming } := ⟨fun _ => rfl, by simp⟩
  obtain ⟨hsound, hle⟩ := hstart.run hrun
  refine ⟨hsound.not_hung, ?_⟩
  simp only [work, Istream.left, if_true, List.length_nil] at hle
  omega

def emptyLine : List Action :=
  [.arrive (headText (literal "GET / HTTP/1.1")
    [(literal "Transfer-Encoding", literal "chunked")] ++ literal "\n\r\n"),
    .receive 49, .complete, .complete]

theorem isSome_emptyLine : (Lts.run (step (requestFormat 32)) {} emptyLine).isSome := by decide

theorem steps_le_of_run_emptyLine :
    ∃ u, Lts.run (step (requestFormat 32)) {} emptyLine = some u ∧ u.phase ≠ .hung ∧
      emptyLine.countP (!·.isArrival) ≤ 3 * (0 + (arrived emptyLine).length) + 3 :=
  ⟨_, (Option.some_get isSome_emptyLine).symm,
    steps_le_of_run (Option.some_get isSome_emptyLine).symm⟩

/-- A chunk size that is taken apart and read as the language defines it: its line is not empty,
and the size of the chunk with its end does not wrap around. -/
def SizeDefined (fmt : Format μ) (s : Reading μ) (a : Action) : Prop :=
  match a, s.phase with
  | .complete, .chunkSize _ _ =>
    (getline s.stream []).2 ≠ [] ∧
      ∀ n ∈ Strtoul.stoul fmt.bits 16 (getline s.stream []).2.dropLast, 2 + n < 2 ^ fmt.bits
  | _, _ => True

instance decidableSizeDefined (fmt : Format μ) (s : Reading μ) (a : Action) :
    Decidable (SizeDefined fmt s a) := by
  unfold SizeDefined
  split <;> infer_instance

structure Safe (s : Reading μ) : Prop where
  good : s.stream.good
  chunk : ∀ message chunks length need, s.phase = .chunk message chunks length need →
    length + 2 ≤ s.stream.buf.length + need
  defined : s.phase ≠ .undefined

theorem safe_readChunk (incoming : Str) (message : μ) (chunks : Str) {length : ℕ} {buf : Str}
    (h : length + 2 ≤ buf.length) :
    Safe (readChunk incoming message chunks length ⟨buf, true⟩) := by
  have hle : length ≤ buf.length := by omega
  rw [readChunk, if_pos hle]
  simp only [h, decide_true, Bool.and_self]
  split_ifs <;> exact ⟨rfl, by simp, by simp⟩

theorem good_getline_of_mem {buf : Str} (h : '\n'.toUInt8 ∈ buf) (line : Str) :
    (getline ⟨buf, true⟩ line).1.good := by
  rw [getline, if_pos rfl]
  split
  · rename_i hdrop
    have hall := List.dropWhile_eq_nil_iff.mp hdrop _ h
    simp at hall
  · rfl

theorem safe_onChunkSize (incoming : Str) (message : μ) (chunks : Str) {buf x y : Str}
    (hthrough : Search.through crlf buf = some (x, y))
    (hdefined : SizeDefined fmt ⟨incoming, ⟨buf, true⟩, .chunkSize message chunks⟩ .complete)
    (n : ℕ) : Safe (onChunkSize fmt incoming message chunks ⟨buf, true⟩ n) := by
  obtain ⟨hline, hsize⟩ := hdefined
  dsimp only at hline hsize
  have hmem : '\n'.toUInt8 ∈ buf := by
    obtain ⟨rfl, hsuffix⟩ := Search.eq_append_of_through hthrough
    exact List.mem_append_left _ (hsuffix.subset (by decide))
  have hgood := good_getline_of_mem hmem []
  generalize hresult : getline ⟨buf, true⟩ [] = result at hline hsize hgood
  obtain ⟨⟨buf', good⟩, line⟩ := result
  dsimp only at hline hsize hgood
  subst hgood
  simp only [onChunkSize, hresult, if_neg hline]
  split
  · exact ⟨rfl, by simp, by simp⟩
  · rename_i length hlength
    have hlt := hsize length hlength
    rw [Nat.mod_eq_of_lt hlt]
    split_ifs with hmore
    · refine ⟨rfl, ?_, by simp⟩
      rintro _ _ _ _ heq
      cases heq
      dsimp only
      omega
    · exact safe_readChunk _ _ _ (by omega)

theorem safe_onHead (incoming : Str) {buf x y : Str}
    (h : Search.through headEnd buf = some (x, y)) (n : ℕ) :
    Safe (onHead fmt incoming ⟨buf, true⟩ n) := by
  obtain ⟨rest, message, hparse⟩ := exists_parse_of_through fmt h
  simp only [onHead, hparse]
  cases message with
  | none => exact ⟨rfl, by simp, by simp⟩
  | some message =>
    dsimp only
    split
    · split
      · exact ⟨rfl, by simp, by simp⟩
      · split_ifs <;> exact ⟨rfl, by simp, by simp⟩
    · split_ifs <;> exact ⟨rfl, by simp, by simp⟩

theorem Safe.complete {s t : Reading μ} (h : Safe s) (hdefined : SizeDefined fmt s .complete)
    (ht : Completes fmt s t) : Safe t := by
  have hstream : s.stream = ⟨s.stream.buf, true⟩ := by rw [← h.good]
  cases ht with
  | head hthrough =>
    dsimp only at hstream
    rw [hstream]
    exact safe_onHead _ hthrough _
  | content => exact ⟨h.good, by simp, by simp⟩
  | chunkSize hthrough =>
    dsimp only at hstream
    rw [hstream] at hdefined ⊢
    exact safe_onChunkSize _ _ _ hthrough hdefined _
  | chunk =>
    have hlen := h.chunk _ _ _ _ rfl
    dsimp only at hstream
    rw [hstream]
    exact safe_readChunk _ _ _ hlen

theorem Safe.receive {s : Reading μ} (h : Safe s) {n : ℕ} (hle : n ≤ s.incoming.length)
    (htakes : s.takes n) : Safe (s.receive n) := by
  obtain ⟨incoming, stream, phase⟩ := s
  have hlen : (stream.buf ++ incoming.take n).length = stream.buf.length + n := by
    rw [List.length_append, List.length_take_of_le hle]
  cases phase with
  | chunk message chunks length need =>
    have hn : n ≤ need := of_decide_eq_true htakes
    have hbuf := h.chunk _ _ _ _ rfl
    refine ⟨h.good, ?_, by simp [Reading.receive]⟩
    rintro _ _ _ _ heq
    cases heq
    simp only [Reading.receive, hlen] at hbuf ⊢
    omega
  | head | chunkSize | content | toEnd =>
    exact ⟨h.good, by simp [Reading.receive], by simp [Reading.receive]⟩
  | done | failed | hung | undefined => cases htakes

theorem Safe.step {s t : Reading μ} {a : Action} (h : Safe s) (hdefined : SizeDefined fmt s a)
    (ht : Reading.step fmt s a = some t) : Safe t := by
  cases a with
  | arrive bytes =>
    cases ht
    exact ⟨h.good, h.chunk, h.defined⟩
  | receive n =>
    obtain ⟨⟨-, hle, htakes⟩, rfl⟩ :=
      (Option.ite_none_right_eq_some.mp ht).imp_right Option.some.inj
    exact h.receive hle htakes
  | complete => exact h.complete hdefined (completes_of_complete ht)
  | close =>
    obtain ⟨⟨-, htakes⟩, ht⟩ := Option.ite_none_right_eq_some.mp ht
    obtain ⟨incoming, stream, phase⟩ := s
    cases phase with
    | head | chunkSize | content | chunk | toEnd =>
      cases ht
      exact ⟨h.good, by simp, by simp⟩
    | done | failed | hung | undefined => cases htakes

theorem defined_of_run {incoming : Str} {actions : List Action} {u : Reading μ}
    (hsizes : Lts.Along (Reading.step fmt) (SizeDefined fmt) { incoming := incoming } actions)
    (hrun : Lts.run (Reading.step fmt) { incoming := incoming } actions = some u) :
    u.phase ≠ .undefined := by
  have hstart : Safe (μ := μ) { incoming := incoming } := ⟨rfl, by simp, by simp⟩
  have hsafe : Safe u := hsizes.invariant (fun _ _ _ h hdefined ht => h.step hdefined ht)
    hstart hrun
  exact hsafe.defined

theorem defined_of_run_emptyLine :
    ∃ u, Lts.run (step (requestFormat 32)) {} emptyLine.dropLast = some u ∧
      u.phase ≠ .undefined := by
  have hsome : (Lts.run (step (requestFormat 32)) {} emptyLine.dropLast).isSome := by decide
  refine ⟨_, (Option.some_get hsome).symm, defined_of_run ?_ (Option.some_get hsome).symm⟩
  decide

end Reading

end DanmakuChicken.SimpleWeb
