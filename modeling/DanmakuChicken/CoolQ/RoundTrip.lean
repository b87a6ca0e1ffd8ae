import DanmakuChicken.CoolQ.Grammar

namespace DanmakuChicken.CoolQ

structure Codec.Inverse (codec : Codec) : Prop where
  empty : codec.encode [] = some []
  decode_encode {text : Str} {bytes : List UInt8} :
    codec.encode text = some bytes → codec.decode bytes = some text

structure IsId (id : Str) : Prop where
  nonempty : id ≠ []
  noSpace : ∀ c ∈ id, isSpace c = false

instance (id : Str) : Decidable (IsId id) :=
  decidable_of_iff (id ≠ [] ∧ id.all (!isSpace ·))
    ⟨fun h => ⟨h.1, by simpa using h.2⟩, fun h => ⟨h.1, by simpa using h.2⟩⟩

variable (codec : Codec)

def datagram (framePrefix : Str) (ids : List Str) (text : Str) : Except Raised (List UInt8) := do
  let payload ← mapLast (encodeText codec) (ids ++ [text])
  return Utf8.encode (String.ofList (line framePrefix payload))

/-- What `load_frame` answers at the other end. -/
def transmit (framePrefix : Str) (ids : List Str) (text : Str) : Except Raised (Option Frame) := do
  let data ← datagram codec framePrefix ids text
  loadFrame codec (.list (← tokens data))

variable {codec}

theorem foldl_line {c : FrameClass} {row : FrameType} {payload : List Str} {rows : List FrameType}
    (hrow : ∀ row' ∈ rows, row'.send = some c → row' = row) {data : Option Str}
    (hdata : row ∈ rows ∧ row.send = some c ∨ data = some (line row.framePrefix payload)) :
    rows.foldl (fun data row =>
      if row.send = some c then some (line row.framePrefix payload) else data) data =
      some (line row.framePrefix payload) := by
  induction rows generalizing data with
  | nil => exact hdata.resolve_left fun h => absurd h.1 List.not_mem_nil
  | cons row' rows ih =>
    rw [List.foldl_cons]
    apply ih fun r hr => hrow r (by simp [hr])
    split_ifs with hsend
    · right
      rw [hrow row' (by simp) hsend]
    · rcases hdata with ⟨hmem, hrowSend⟩ | rfl
      · left
        rcases List.mem_cons.mp hmem with rfl | hmem
        · exact absurd hrowSend hsend
        · exact ⟨hmem, hrowSend⟩
      · exact .inr rfl

theorem send_injective : ∀ row ∈ frameTypes, ∀ row' ∈ frameTypes,
    row'.send = row.send → row.send ≠ none → row' = row := by decide

theorem datagram_eq_dumpFrame {row : FrameType} (hrow : row ∈ frameTypes) {frameClass : FrameClass}
    (hsend : row.send = some frameClass) (hmessage : frameClass.isSendMessage = true)
    {ids : List Str} {text : Str} (arity : (ids ++ [text]).length = frameClass.fields.length) :
    (dumpFrame codec ⟨frameClass, ids ++ [text], arity⟩).map
        (Option.map fun data => Utf8.encode (String.ofList data)) =
      (datagram codec row.framePrefix ids text).map some := by
  have hunique : ∀ row' ∈ frameTypes, row'.send = some frameClass → row' = row := by
    intro row' hrow' hsend'
    exact send_injective row hrow row' hrow' (hsend'.trans hsend.symm) (by simp [hsend])
  rw [dumpFrame, datagram, if_pos hmessage]
  cases hpayload : mapLast (encodeText codec) (ids ++ [text]) with
  | error e => rfl
  | ok payload =>
    have hline : frameTypes.foldl (fun data row =>
        if row.send = some frameClass then some (line row.framePrefix payload) else data) none =
          some (line row.framePrefix payload) := foldl_line hunique (.inl ⟨hrow, hsend⟩)
    simp only [bind, Except.bind, pure, Except.pure, Except.map, hline, Option.map_some]

theorem Codec.Inverse.encode_eq_nil_iff (h : codec.Inverse) {text : Str} {bytes : List UInt8}
    (htext : codec.encode text = some bytes) : bytes = [] ↔ text = [] := by
  constructor
  · rintro rfl
    have hdecode := h.decode_encode htext
    rw [h.decode_encode h.empty] at hdecode
    exact (Option.some.inj hdecode).symm
  · rintro rfl
    rw [h.empty] at htext
    exact (Option.some.inj htext).symm

theorem Codec.Inverse.decodeText_encode (h : codec.Inverse) {text : Str} {bytes : List UInt8}
    (htext : codec.encode text = some bytes) :
    decodeText codec (Base64.encode bytes) = .ok text := by
  rw [decodeText, Base64.decode_encode, Option.bind_some, h.decode_encode htext]

theorem isId_framePrefix : ∀ row ∈ frameTypes, IsId row.framePrefix := by decide

theorem isSpace_of_mem_encode {bytes : List UInt8} {c : Char} (h : c ∈ Base64.encode bytes) :
    isSpace c = false := by
  have hall : Base64.alphabet.all (!isSpace ·) = true := by decide
  simpa using List.all_eq_true.mp hall c (Base64.mem_alphabet_of_mem_encode h)

theorem transmit_eq {framePrefix : Str} {ids : List Str} {text : Str} {bytes : List UInt8}
    (hname : IsId framePrefix) (hids : ∀ id ∈ ids, IsId id)
    (htext : codec.encode text = some bytes) :
    transmit codec framePrefix ids text = loadFrame codec
      (.list (framePrefix :: (ids ++ [Base64.encode bytes].filter (· ≠ [])))) := by
  have hpayload : mapLast (encodeText codec) (ids ++ [text]) =
      .ok (ids ++ [Base64.encode bytes]) := by
    rw [mapLast_concat, encodeText, htext]
    rfl
  have hwords : ∀ t ∈ framePrefix :: (ids ++ [Base64.encode bytes]),
      ∀ c ∈ t, isSpace c = false := by
    intro t ht
    rw [List.mem_cons, List.mem_append, List.mem_singleton] at ht
    rcases ht with rfl | ht | rfl
    · exact hname.noSpace
    · exact (hids t ht).noSpace
    · exact fun c => isSpace_of_mem_encode
  have hspace : isSpace ' ' = true := by decide
  have hsplit := Words.split_intercalate hspace hwords
  have hfilter : ids.filter (· ≠ []) = ids := by
    apply List.filter_eq_self.mpr
    intro id hid
    simpa using (hids id hid).nonempty
  rw [List.filter_cons_of_pos (by simpa using hname.nonempty), List.filter_append,
    hfilter] at hsplit
  simp only [transmit, datagram, hpayload, bind, Except.bind, pure, Except.pure, tokens,
    Utf8.decode_encode, String.toList_ofList, split, line, hsplit]

theorem transmit_empty (hcodec : codec.Inverse) {row : FrameType} (hrow : row ∈ frameTypes)
    {frameClass : FrameClass} (hrcvd : row.rcvd = some frameClass) {ids : List Str}
    (hids : ∀ id ∈ ids, IsId id) (arity : ids.length + 1 = frameClass.fields.length) :
    transmit codec row.framePrefix ids [] = .error .typeError := by
  have hcall : call (some frameClass) ids = .error .typeError := by
    rw [call, dif_neg (by omega)]
  rw [transmit_eq (isId_framePrefix row hrow) hids hcodec.empty]
  have hnone : [Base64.encode []].filter (· ≠ []) = [] := by decide
  rw [hnone, List.append_nil, loadFrame_of_row hrow, hrcvd, hcall]
  rfl

theorem transmit_eq_frame_iff (hcodec : codec.Inverse) {row : FrameType} (hrow : row ∈ frameTypes)
    {frameClass : FrameClass} (hrcvd : row.rcvd = some frameClass)
    (hmessage : frameClass.isRcvdMessage = true) {ids : List Str} (hids : ∀ id ∈ ids, IsId id)
    {text : Str} {bytes : List UInt8} (htext : codec.encode text = some bytes)
    (arity : (ids ++ [text]).length = frameClass.fields.length) :
    transmit codec row.framePrefix ids text = .ok (some ⟨frameClass, ids ++ [text], arity⟩) ↔
      text ≠ [] := by
  constructor
  · rintro h rfl
    rw [transmit_empty hcodec hrow hrcvd hids (by simpa using arity)] at h
    cases h
  · intro hne
    have hpayload : Base64.encode bytes ≠ [] := by
      rw [Ne, Base64.encode_eq_nil_iff, hcodec.encode_eq_nil_iff htext]
      exact hne
    rw [transmit_eq (isId_framePrefix row hrow) hids htext,
      List.filter_cons_of_pos (by simpa using hpayload), List.filter_nil]
    apply loadFrame_of_accepts
    exact .message hrow hrcvd hmessage (hcodec.decodeText_encode htext) arity

def ascii : Codec where
  encode text :=
    if text.all (·.toNat < 128) then some (text.map fun c => UInt8.ofNat c.toNat) else none
  decode bytes :=
    if bytes.all (·.toNat < 128) then some (bytes.map fun b => Char.ofNat b.toNat) else none

theorem toNat_ofNat_of_ascii {c : Char} (h : c.toNat < 128) : (UInt8.ofNat c.toNat).toNat = c.toNat :=
  UInt8.toNat_ofNat_of_lt' (h.trans (by decide))

theorem inverse_ascii : ascii.Inverse where
  empty := rfl
  decode_encode := by
    intro text bytes h
    simp only [ascii, Option.ite_none_right_eq_some, Option.some.injEq, List.all_eq_true,
      decide_eq_true_eq] at h ⊢
    obtain ⟨htext, rfl⟩ := h
    refine ⟨?_, ?_⟩
    · intro b hb
      obtain ⟨c, hc, rfl⟩ := List.mem_map.mp hb
      rw [toNat_ofNat_of_ascii (htext c hc)]
      exact htext c hc
    · rw [List.map_map]
      apply (List.map_congr_left fun c hc => ?_).trans (List.map_id text)
      rw [Function.comp_apply, toNat_ofNat_of_ascii (htext c hc), Char.ofNat_toNat, id]

def groupIds : List Str := ["414754582".toList, "10001".toList]

theorem isId_groupIds : ∀ id ∈ groupIds, IsId id := by decide

theorem transmit_eq_frame_hello :
    transmit ascii "GroupMessage".toList groupIds "hello".toList =
      .ok (some ⟨.rcvdGroupMessage, groupIds ++ ["hello".toList], rfl⟩) := by
  have hrow : ⟨"GroupMessage".toList, some .rcvdGroupMessage, some .sendGroupMessage⟩ ∈
      frameTypes := by decide
  have htext : ascii.encode "hello".toList = some [104, 101, 108, 108, 111] := by decide
  exact (transmit_eq_frame_iff inverse_ascii hrow rfl rfl isId_groupIds htext rfl).mpr (by decide)

theorem not_transmit_empty :
    transmit ascii "GroupMessage".toList groupIds [] = .error .typeError ∧
      transmit ascii "GroupMessage".toList groupIds [] ≠
        .ok (some ⟨.rcvdGroupMessage, groupIds ++ [[]], rfl⟩) := by
  have hrow : ⟨"GroupMessage".toList, some .rcvdGroupMessage, some .sendGroupMessage⟩ ∈
      frameTypes := by decide
  have hempty := transmit_empty inverse_ascii hrow rfl isId_groupIds rfl
  refine ⟨hempty, ?_⟩
  rw [hempty]
  exact nofun

end DanmakuChicken.CoolQ
