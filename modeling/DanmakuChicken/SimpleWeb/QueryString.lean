import DanmakuChicken.Lib.Scan
import DanmakuChicken.SimpleWeb.Utility

namespace DanmakuChicken.SimpleWeb

namespace QueryString

def create (fields : CaseInsensitiveMultimap) : Str :=
  (fields.foldl (fun (result, first) (name, value) =>
    (result ++ ((if first then [] else ['&'.toUInt8]) ++ name ++ '='.toUInt8 ::
      Percent.encode value), false)) ([], true)).1

structure Positions where
  namePos : ℕ := 0
  nameEndPos : Option ℕ := none
  valuePos : Option ℕ := none
  result : CaseInsensitiveMultimap := []

def Positions.emplace (queryString : Str) (c : ℕ) (pos : Positions) : CaseInsensitiveMultimap :=
  let name := substr queryString pos.namePos (pos.nameEndPos.getD c - pos.namePos)
  if name = [] then pos.result
  else
    let value :=
      match pos.valuePos with
      | none => []
      | some valuePos => substr queryString valuePos (c - valuePos)
    pos.result ++ [(name, Percent.decode value)]

def visit (queryString : Str) (pos : Positions) (c : ℕ) (chr : UInt8) : Positions :=
  if chr = '&'.toUInt8 then
    { namePos := c + 1, nameEndPos := none, valuePos := none, result := pos.emplace queryString c }
  else if chr = '='.toUInt8 then { pos with nameEndPos := some c, valuePos := some (c + 1) }
  else pos

def parse (queryString : Str) : CaseInsensitiveMultimap :=
  let pos := Scan.scan (visit queryString) {} queryString
  if pos.namePos < queryString.length then pos.emplace queryString queryString.length
  else pos.result

def field (segment : Str) : Option (Str × Str) :=
  match Scan.last '='.toUInt8 segment with
  | none => if segment = [] then none else some (segment, [])
  | some (name, value) => if name = [] then none else some (name, Percent.decode value)

def Within (segment : Str) (pos : Positions) : Prop :=
  match Scan.last '='.toUInt8 segment with
  | none => pos.nameEndPos = none ∧ pos.valuePos = none
  | some (name, _) =>
    pos.nameEndPos = some (pos.namePos + name.length) ∧
      pos.valuePos = some (pos.namePos + name.length + 1)

theorem emplace_eq {init segment : Str} {pos : Positions} (hpos : pos.namePos = init.length)
    (h : Within segment pos) (rest : Str) :
    pos.emplace (init ++ segment ++ rest) (init.length + segment.length) =
      pos.result ++ (field segment).toList := by
  unfold Within at h
  cases hlast : Scan.last '='.toUInt8 segment with
  | none =>
    rw [hlast] at h
    by_cases hempty : segment = []
    · subst hempty
      simp [Positions.emplace, field, Scan.last, h.1, hpos, substr]
    · simp [Positions.emplace, field, hlast, h.1, h.2, hpos, substr, hempty, Percent.decode]
  | some r =>
    obtain ⟨name, value⟩ := r
    rw [hlast] at h
    obtain ⟨rfl, -⟩ := Scan.eq_of_last hlast
    have hname : substr (init ++ (name ++ '='.toUInt8 :: value) ++ rest) init.length
        (init.length + name.length - init.length) = name := by
      simp [substr]
    have hvalue : substr (init ++ (name ++ '='.toUInt8 :: value) ++ rest)
        (init.length + name.length + 1)
        (init.length + (name ++ '='.toUInt8 :: value).length - (init.length + name.length + 1)) =
          value := by
      have hcount : init.length + (name ++ '='.toUInt8 :: value).length -
          (init.length + name.length + 1) = value.length := by
        simp only [List.length_append, List.length_cons]
        omega
      have hdrop : init ++ (name ++ '='.toUInt8 :: value) ++ rest =
          (init ++ name ++ ['='.toUInt8]) ++ (value ++ rest) := by simp
      have hlen : init.length + name.length + 1 = (init ++ name ++ ['='.toUInt8]).length := by
        simp [add_assoc]
      rw [substr, hcount, hdrop, hlen, List.drop_left, List.take_left]
    rw [Positions.emplace, h.1, h.2, hpos, Option.getD_some, hname, field, hlast]
    dsimp only
    rw [hvalue]
    split_ifs <;> simp

structure Scanned (init segment : Str) (pos : Positions) : Prop where
  namePos : pos.namePos = init.length
  within : Within segment pos
  not_mem : '&'.toUInt8 ∉ segment
  result (rest : Str) : ((init ++ rest).splitOn '&'.toUInt8).filterMap field =
    pos.result ++ (rest.splitOn '&'.toUInt8).filterMap field

theorem Scanned.visit {init segment rest : Str} {chr : UInt8} {pos : Positions}
    (h : Scanned init segment pos) :
    ∃ init' segment', init ++ segment ++ [chr] = init' ++ segment' ∧
      Scanned init' segment'
        (visit (init ++ segment ++ rest) pos (init.length + segment.length) chr) := by
  rw [QueryString.visit]
  split_ifs with hamp heq
  · subst hamp
    refine ⟨init ++ segment ++ ['&'.toUInt8], [], by simp, ?_, ⟨rfl, rfl⟩, by simp, ?_⟩
    · simp [add_assoc]
    · intro tail
      have hsplit := h.result (segment ++ '&'.toUInt8 :: tail)
      rw [List.splitOn_append_cons_self_of_not_mem h.not_mem, List.filterMap_cons] at hsplit
      rw [emplace_eq h.namePos h.within, List.append_assoc, List.append_assoc,
        List.singleton_append, hsplit]
      cases field segment <;> simp
  · subst heq
    refine ⟨init, segment ++ ['='.toUInt8], by simp, h.namePos, ?_, ?_, h.result⟩
    · rw [Within, Scan.last_concat, if_pos rfl]
      exact ⟨by rw [h.namePos], by rw [h.namePos]⟩
    · simpa [Ne.symm hamp] using h.not_mem
  · refine ⟨init, segment ++ [chr], by simp, h.namePos, ?_, ?_, h.result⟩
    · have hwithin := h.within
      rw [Within] at hwithin
      rw [Within, Scan.last_concat, if_neg heq]
      cases hlast : Scan.last '='.toUInt8 segment with
      | none => simpa only [hlast, Option.map_none] using hwithin
      | some r => simpa only [hlast, Option.map_some] using hwithin
    · simpa [Ne.symm hamp] using h.not_mem

theorem parse_eq (queryString : Str) :
    parse queryString = (queryString.splitOn '&'.toUInt8).filterMap field := by
  obtain ⟨init, segment, heq, h⟩ : ∃ init segment, queryString = init ++ segment ∧
      Scanned init segment (Scan.scan (visit queryString) {} queryString) := by
    refine Scan.invariant (I := fun s pos => ∃ init segment, s = init ++ segment ∧
      Scanned init segment pos) ?_ ?_
    · exact ⟨[], [], rfl, rfl, ⟨rfl, rfl⟩, by simp, by simp⟩
    · rintro p chr pos ⟨rest, hrest⟩ ⟨init, segment, rfl, h⟩
      rw [List.append_assoc] at hrest
      rw [← hrest, List.length_append]
      exact h.visit
  have hresult := h.result segment
  rw [← heq, List.splitOn_eq_singleton h.not_mem] at hresult
  rw [hresult, parse]
  split_ifs with hpos
  · have hemplace := emplace_eq h.namePos h.within []
    rw [List.append_nil, ← List.length_append, ← heq] at hemplace
    rw [hemplace]
    cases hfield : field segment <;> simp [hfield]
  · have hempty : segment = [] := by
      have hlen := congrArg List.length heq
      rw [h.namePos] at hpos
      rw [List.length_append] at hlen
      exact List.length_eq_zero_iff.mp (by omega)
    simp [hempty, field, Scan.last]

theorem parse_join (s t : Str) : parse (s ++ '&'.toUInt8 :: t) = parse s ++ parse t := by
  rw [parse_eq, parse_eq, parse_eq, List.splitOn_append_cons_self, List.filterMap_append]

theorem create_eq (fields : CaseInsensitiveMultimap) :
    create fields = ['&'.toUInt8].intercalate
      (fields.map fun field => field.1 ++ '='.toUInt8 :: Percent.encode field.2) := by
  have hrest (fields : CaseInsensitiveMultimap) (result : Str) :
      (fields.foldl (fun (result, first) (name, value) =>
        (result ++ ((if first then [] else ['&'.toUInt8]) ++ name ++ '='.toUInt8 ::
          Percent.encode value), false)) (result, false)).1 =
        ['&'.toUInt8].intercalate (result ::
          fields.map fun field => field.1 ++ '='.toUInt8 :: Percent.encode field.2) := by
    induction fields generalizing result with
    | nil => simp
    | cons field fields ih =>
      rw [List.foldl_cons, ih, List.map_cons, List.intercalate_cons_cons]
      cases fields <;> simp [List.intercalate_cons_cons]
  cases fields with
  | nil => rfl
  | cons field fields =>
    rw [create, List.foldl_cons, hrest, List.map_cons]
    simp

theorem field_eq (name value : Str) :
    field (name ++ '='.toUInt8 :: Percent.encode value) =
      if name = [] then none else some (name, Percent.decode (Percent.encode value)) := by
  rw [field, Scan.last_append_cons name (Percent.not_mem_encode (by decide) (.inr (by decide)))]

theorem name_of_field {segment name value : Str} (h : field segment = some (name, value)) :
    name ≠ [] ∧ name ⊆ segment := by
  rw [field] at h
  split at h
  · simp only [Option.ite_none_left_eq_some, Option.some.injEq, Prod.mk.injEq] at h
    obtain ⟨hne, rfl, -⟩ := h
    exact ⟨hne, List.Subset.refl _⟩
  · rename_i name' value' hlast
    simp only [Option.ite_none_left_eq_some, Option.some.injEq, Prod.mk.injEq] at h
    obtain ⟨hne, rfl, -⟩ := h
    obtain ⟨rfl, -⟩ := Scan.eq_of_last hlast
    exact ⟨hne, List.subset_append_left _ _⟩

theorem name_of_mem_parse {queryString : Str} {field : Str × Str}
    (h : field ∈ parse queryString) : field.1 ≠ [] ∧ '&'.toUInt8 ∉ field.1 := by
  rw [parse_eq, List.mem_filterMap] at h
  obtain ⟨segment, hsegment, hfield⟩ := h
  obtain ⟨hne, hsub⟩ := name_of_field hfield
  exact ⟨hne, fun hmem => Scan.not_mem_of_mem_splitOn hsegment (hsub hmem)⟩

theorem parse_create {fields : CaseInsensitiveMultimap}
    (h : ∀ field ∈ fields, field.1 ≠ [] ∧ '&'.toUInt8 ∉ field.1) :
    parse (create fields) =
      fields.map fun field => (field.1, Percent.decode (Percent.encode field.2)) := by
  by_cases hempty : fields = []
  · subst hempty
    decide
  · rw [parse_eq, create_eq, List.splitOn_intercalate _ _ (by simpa using hempty),
      List.filterMap_map, ← List.filterMap_eq_map]
    · apply List.filterMap_congr
      intro field hfield
      rw [Function.comp_apply, field_eq, if_neg (h field hfield).1]
      rfl
    · intro segment hsegment
      obtain ⟨field, hfield, rfl⟩ := List.mem_map.mp hsegment
      have heq : '&'.toUInt8 ≠ '='.toUInt8 := by decide
      have hvalue : '&'.toUInt8 ∉ Percent.encode field.2 :=
        Percent.not_mem_encode (by decide) (.inr (by decide))
      simp [(h field hfield).2, hvalue, heq]

theorem parse_create_iff (fields : CaseInsensitiveMultimap) :
    parse (create fields) = fields ↔ ∀ field ∈ fields, field.1 ≠ [] ∧ '&'.toUInt8 ∉ field.1 ∧
      Percent.decode (Percent.encode field.2) = field.2 := by
  constructor
  · intro h field hfield
    have hname : ∀ field ∈ fields, field.1 ≠ [] ∧ '&'.toUInt8 ∉ field.1 :=
      fun field hfield => name_of_mem_parse (h ▸ hfield)
    have hmap := (parse_create hname).symm.trans (h.trans (List.map_id fields).symm)
    have heq := List.map_inj_left.mp hmap field hfield
    exact ⟨(hname field hfield).1, (hname field hfield).2, congrArg Prod.snd heq⟩
  · intro h
    rw [parse_create fun field hfield => ⟨(h field hfield).1, (h field hfield).2.1⟩]
    refine Eq.trans (List.map_inj_left.mpr ?_) (List.map_id fields)
    intro field hfield
    exact Prod.ext rfl (h field hfield).2.2

end QueryString

end DanmakuChicken.SimpleWeb
