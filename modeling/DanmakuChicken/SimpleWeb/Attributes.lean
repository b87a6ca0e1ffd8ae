import DanmakuChicken.SimpleWeb.QueryString

namespace DanmakuChicken.SimpleWeb.SemicolonSeparatedAttributes

structure Positions where
  nameStartPos : Option ℕ := none
  nameEndPos : Option ℕ := none
  valueStartPos : Option ℕ := none
  result : CaseInsensitiveMultimap := []

def visit (str : Str) (pos : Positions) (c : ℕ) (chr : UInt8) : Positions :=
  match pos.nameStartPos, pos.nameEndPos, pos.valueStartPos with
  | none, _, _ =>
    if chr ≠ ' '.toUInt8 ∧ chr ≠ ';'.toUInt8 then { pos with nameStartPos := some c } else pos
  | some nameStart, none, _ =>
    if chr = ';'.toUInt8 then
      { pos with
        nameStartPos := none
        result := pos.result ++ [(substr str nameStart (c - nameStart), [])] }
    else if chr = '='.toUInt8 then { pos with nameEndPos := some c }
    else pos
  | some _, some _, none =>
    if chr = '"'.toUInt8 ∧ c + 1 < str.length then { pos with valueStartPos := some (c + 1) }
    else { pos with valueStartPos := some c }
  | some nameStart, some nameEnd, some valueStart =>
    if chr = '"'.toUInt8 ∨ chr = ';'.toUInt8 then
      { nameStartPos := none
        nameEndPos := none
        valueStartPos := none
        result := pos.result ++ [(substr str nameStart (nameEnd - nameStart),
          Percent.decode (substr str valueStart (c - valueStart)))] }
    else pos

def finish (str : Str) (pos : Positions) : CaseInsensitiveMultimap :=
  match pos.nameStartPos, pos.nameEndPos, pos.valueStartPos with
  | none, _, _ => pos.result
  | some nameStart, none, _ => pos.result ++ [(str.drop nameStart, [])]
  | some _, some _, none => pos.result
  | some nameStart, some nameEnd, some valueStart =>
    let name := substr str nameStart (nameEnd - nameStart)
    if str.getLast? = some '"'.toUInt8 then
      pos.result ++ [(name, Percent.decode (substr str valueStart (str.length - 1)))]
    else pos.result ++ [(name, Percent.decode (str.drop valueStart))]

def parse (str : Str) : CaseInsensitiveMultimap := finish str (Scan.scan (visit str) {} str)

/-- What the characters since the last attribute are. -/
inductive Mode
  | between
  | name (name : Str)
  | equals (name : Str)
  | value (name value : Str)

def attributes : Mode → Str → CaseInsensitiveMultimap
  | .between, [] => []
  | .name name, [] => [(name, [])]
  | .equals _, [] => []
  | .value name value, [] => [(name, Percent.decode value)]
  | .between, chr :: str =>
    if chr ≠ ' '.toUInt8 ∧ chr ≠ ';'.toUInt8 then attributes (.name [chr]) str
    else attributes .between str
  | .name name, chr :: str =>
    if chr = ';'.toUInt8 then (name, []) :: attributes .between str
    else if chr = '='.toUInt8 then attributes (.equals name) str
    else attributes (.name (name ++ [chr])) str
  | .equals name, chr :: str =>
    if chr = '"'.toUInt8 ∧ str ≠ [] then attributes (.value name []) str
    else attributes (.value name [chr]) str
  | .value name value, chr :: str =>
    if chr = '"'.toUInt8 ∨ chr = ';'.toUInt8 then
      (name, Percent.decode value) :: attributes .between str
    else attributes (.value name (value ++ [chr])) str

inductive At : Str → Mode → Positions → Prop
  | between {init : Str} {result : CaseInsensitiveMultimap} :
    At init .between ⟨none, none, none, result⟩
  | name {init name : Str} {result : CaseInsensitiveMultimap} :
    At (init ++ name) (.name name) ⟨some init.length, none, none, result⟩
  | equals {init name : Str} {result : CaseInsensitiveMultimap} :
    At (init ++ name ++ ['='.toUInt8]) (.equals name)
      ⟨some init.length, some (init.length + name.length), none, result⟩
  | value {init name mid value : Str} {result : CaseInsensitiveMultimap} (hmid : mid ≠ []) :
    At (init ++ name ++ mid ++ value) (.value name value)
      ⟨some init.length, some (init.length + name.length),
        some (init.length + name.length + mid.length), result⟩

theorem At.visit {init : Str} {mode : Mode} {pos : Positions} (h : At init mode pos) (chr : UInt8)
    (rest : Str) :
    ∃ mode', At (init ++ [chr]) mode' (visit (init ++ chr :: rest) pos init.length chr) ∧
      (visit (init ++ chr :: rest) pos init.length chr).result ++ attributes mode' rest =
        pos.result ++ attributes mode (chr :: rest) := by
  cases h with
  | between =>
    simp only [SemicolonSeparatedAttributes.visit, attributes]
    split_ifs
    · exact ⟨_, .name, rfl⟩
    · exact ⟨_, .between, rfl⟩
  | @name init name result =>
    simp only [SemicolonSeparatedAttributes.visit, attributes]
    split_ifs with hend hequals
    · refine ⟨_, .between, ?_⟩
      rw [substr_eq _ _ _ (by simp), List.append_assoc, List.singleton_append]
    · subst hequals
      rw [List.length_append]
      exact ⟨_, .equals, rfl⟩
    · rw [List.append_assoc]
      exact ⟨_, .name, rfl⟩
  | @equals init name result =>
    have hmore : (init ++ name ++ ['='.toUInt8]).length + 1 <
        (init ++ name ++ ['='.toUInt8] ++ chr :: rest).length ↔ rest ≠ [] := by
      rw [← List.length_pos_iff]
      simp only [List.length_append, List.length_cons]
      omega
    simp only [SemicolonSeparatedAttributes.visit, attributes, hmore]
    split_ifs
    · refine ⟨.value name [], ?_, rfl⟩
      have hat := @At.value init name ['='.toUInt8, chr] [] result (by simp)
      simpa [add_assoc] using hat
    · refine ⟨.value name [chr], ?_, rfl⟩
      have hat := @At.value init name ['='.toUInt8] [chr] result (by simp)
      simpa [add_assoc] using hat
  | @value init name mid value result hmid =>
    simp only [SemicolonSeparatedAttributes.visit, attributes]
    split_ifs
    · refine ⟨_, .between, ?_⟩
      have hname : substr (init ++ name ++ mid ++ value ++ chr :: rest) init.length
          (init.length + name.length - init.length) = name := by
        rw [List.append_assoc, List.append_assoc]
        exact substr_eq _ _ _ (by simp)
      have hvalue : substr (init ++ name ++ mid ++ value ++ chr :: rest)
          (init.length + name.length + mid.length)
          ((init ++ name ++ mid ++ value).length - (init.length + name.length + mid.length)) =
            value := by
        rw [← List.length_append, ← List.length_append]
        apply substr_eq
        simp only [List.length_append]
        omega
      rw [hname, hvalue, List.append_assoc, List.singleton_append]
    · rw [List.append_assoc]
      exact ⟨_, .value hmid, rfl⟩

theorem At.finish {str : Str} {mode : Mode} {pos : Positions} (h : At str mode pos) :
    finish str pos = pos.result ++ attributes mode [] := by
  cases h with
  | between => simp [SemicolonSeparatedAttributes.finish, attributes]
  | name => simp [SemicolonSeparatedAttributes.finish, attributes]
  | equals => simp [SemicolonSeparatedAttributes.finish, attributes]
  | @value init name mid value result hmid =>
    have hname : substr (init ++ name ++ mid ++ value) init.length
        (init.length + name.length - init.length) = name := by
      rw [List.append_assoc _ mid]
      exact substr_eq _ _ _ (by simp)
    have hdrop : (init ++ name ++ mid ++ value).drop (init.length + name.length + mid.length) =
        value := by
      rw [← List.length_append, ← List.length_append, List.drop_left]
    -- the value is behind an equals sign, so a count short of the whole text by one takes it all
    have hvalue : substr (init ++ name ++ mid ++ value) (init.length + name.length + mid.length)
        ((init ++ name ++ mid ++ value).length - 1) = value := by
      have hpos := List.length_pos_iff.mpr hmid
      rw [substr, hdrop]
      apply List.take_of_length_le
      simp only [List.length_append]
      omega
    simp only [SemicolonSeparatedAttributes.finish, attributes, hname, hdrop, hvalue, ite_self]

theorem parse_eq_attributes (str : Str) : parse str = attributes .between str := by
  obtain ⟨mode, hat, hresult⟩ : ∃ mode, At str mode (Scan.scan (visit str) {} str) ∧
      (Scan.scan (visit str) {} str).result ++ attributes mode [] = attributes .between str := by
    have h := @Scan.invariant _ _ (visit str) (fun init pos =>
      ∀ rest, str = init ++ rest → ∃ mode, At init mode pos ∧
        pos.result ++ attributes mode rest = attributes .between str) {} str ?_ ?_
    · exact h [] (List.append_nil str).symm
    · rintro rest rfl
      exact ⟨.between, .between, rfl⟩
    · rintro init chr pos - ih rest hstr
      rw [List.append_assoc, List.singleton_append] at hstr
      obtain ⟨mode, hat, hresult⟩ := ih _ hstr
      obtain ⟨mode', hat', hresult'⟩ := hat.visit chr rest
      rw [← hstr] at hat' hresult'
      exact ⟨mode', hat', hresult'.trans hresult⟩
  rw [parse, hat.finish, hresult]

inductive Attribute
  | flag (name : Str)
  | plain (name value : Str)
  | quoted (name value : Str)

def IsName (name : Str) : Prop :=
  name ≠ [] ∧ ' '.toUInt8 ∉ name.head? ∧ ';'.toUInt8 ∉ name ∧ '='.toUInt8 ∉ name

instance (name : Str) : Decidable (IsName name) := inferInstanceAs (Decidable (_ ∧ _))

namespace Attribute

def text : Attribute → Str
  | flag name => name
  | plain name value => name ++ '='.toUInt8 :: Percent.encode value
  | quoted name value =>
    name ++ '='.toUInt8 :: '"'.toUInt8 :: (Percent.encode value ++ ['"'.toUInt8])

def WellFormed : Attribute → Prop
  | flag name => IsName name
  | plain name value => IsName name ∧ value ≠ [] ∧ '"'.toUInt8 ∉ value
  | quoted name value => IsName name ∧ '"'.toUInt8 ∉ value

def field : Attribute → Str × Str
  | flag name => (name, [])
  | plain name value | quoted name value => (name, Percent.decode (Percent.encode value))

end Attribute

theorem attributes_name_append {s : Str} (h : ';'.toUInt8 ∉ s) (h' : '='.toUInt8 ∉ s)
    (name rest : Str) :
    attributes (.name name) (s ++ rest) = attributes (.name (name ++ s)) rest := by
  induction s generalizing name with
  | nil => simp
  | cons chr s ih =>
    rw [List.mem_cons, not_or] at h h'
    rw [List.cons_append, attributes, if_neg (Ne.symm h.1), if_neg (Ne.symm h'.1), ih h.2 h'.2]
    simp

theorem attributes_value_append {s : Str} (h : '"'.toUInt8 ∉ s) (h' : ';'.toUInt8 ∉ s)
    (name value rest : Str) :
    attributes (.value name value) (s ++ rest) = attributes (.value name (value ++ s)) rest := by
  induction s generalizing value with
  | nil => simp
  | cons chr s ih =>
    rw [List.mem_cons, not_or] at h h'
    rw [List.cons_append, attributes, if_neg (by simp [Ne.symm h.1, Ne.symm h'.1]), ih h.2 h'.2]
    simp

theorem attributes_of_isName {name : Str} (h : IsName name) (rest : Str) :
    attributes .between (name ++ rest) = attributes (.name name) rest := by
  obtain ⟨hne, hspace, hend, hequals⟩ := h
  cases name with
  | nil => exact absurd rfl hne
  | cons chr name =>
    rw [List.mem_cons, not_or] at hend hequals
    have hchr : chr ≠ ' '.toUInt8 := by
      rintro rfl
      simp at hspace
    rw [List.cons_append, attributes, if_pos ⟨hchr, Ne.symm hend.1⟩,
      attributes_name_append hend.2 hequals.2, List.singleton_append]

theorem attributes_equals {name : Str} (h : IsName name) (rest : Str) :
    attributes .between (name ++ '='.toUInt8 :: rest) = attributes (.equals name) rest := by
  rw [attributes_of_isName h, attributes, if_neg (by decide), if_pos rfl]

theorem attributes_text {a : Attribute} (h : a.WellFormed) (rest : Str)
    (hrest : ∀ chr ∈ rest.head?, chr = ';'.toUInt8) :
    attributes .between (a.text ++ rest) = a.field :: attributes .between rest := by
  have hbetween : attributes .between rest = attributes .between rest.tail := by
    cases rest with
    | nil => rfl
    | cons chr rest =>
      obtain rfl := hrest chr rfl
      exact if_neg (by simp)
  have hend (name value : Str) : attributes (.value name value) rest =
      (name, Percent.decode value) :: attributes .between rest := by
    rw [hbetween]
    cases rest with
    | nil => rfl
    | cons chr rest =>
      obtain rfl := hrest chr rfl
      exact if_pos (.inr rfl)
  cases a with
  | flag name =>
    rw [Attribute.text, attributes_of_isName h, hbetween]
    cases rest with
    | nil => rfl
    | cons chr rest =>
      obtain rfl := hrest chr rfl
      exact if_pos rfl
  | plain name value =>
    obtain ⟨hname, hne, hquote⟩ := h
    have hquote : '"'.toUInt8 ∉ Percent.encode value :=
      Percent.not_mem_encode (by decide) (.inl hquote)
    have hend' : ';'.toUInt8 ∉ Percent.encode value :=
      Percent.not_mem_encode (by decide) (.inr (by decide))
    cases hvalue : Percent.encode value with
    | nil => exact absurd (Percent.encode_eq_nil.mp hvalue) hne
    | cons chr s =>
      rw [hvalue, List.mem_cons, not_or] at hquote hend'
      rw [Attribute.text, Attribute.field, hvalue, List.append_assoc, List.cons_append,
        attributes_equals hname, List.cons_append, attributes,
        if_neg fun hchr => hquote.1 hchr.1.symm,
        attributes_value_append hquote.2 hend'.2, hend, List.singleton_append]
  | quoted name value =>
    obtain ⟨hname, hquote⟩ := h
    have hquote : '"'.toUInt8 ∉ Percent.encode value :=
      Percent.not_mem_encode (by decide) (.inl hquote)
    have hend' : ';'.toUInt8 ∉ Percent.encode value :=
      Percent.not_mem_encode (by decide) (.inr (by decide))
    rw [Attribute.text, Attribute.field, List.append_assoc, List.cons_append,
      attributes_equals hname, List.cons_append, List.append_assoc, attributes,
      if_pos ⟨rfl, by simp⟩, attributes_value_append hquote hend', List.nil_append,
      List.singleton_append, attributes, if_pos (.inl rfl)]

theorem parse_text {as : List Attribute} (h : ∀ a ∈ as, a.WellFormed) :
    parse ((literal "; ").intercalate (as.map Attribute.text)) = as.map Attribute.field := by
  rw [parse_eq_attributes]
  induction as with
  | nil => rfl
  | cons a as ih =>
    have ha := h a (by simp)
    have has := ih fun b hb => h b (by simp [hb])
    cases as with
    | nil =>
      have htext := attributes_text ha [] (by simp)
      simpa [attributes] using htext
    | cons b as =>
      rw [List.map_cons, List.map_cons, List.intercalate_cons_cons, List.append_assoc,
        attributes_text ha]
      · rw [List.map_cons, ← has]
        rfl
      · have hliteral : literal "; " = [';'.toUInt8, ' '.toUInt8] := by decide
        simp [hliteral]

def formData : List Attribute :=
  [.flag (literal "form-data"), .quoted (literal "filename") (literal "a; b"),
    .plain (literal "size") (literal "3 kB")]

theorem parse_text_formData :
    parse ((literal "; ").intercalate (formData.map Attribute.text)) =
      formData.map Attribute.field := by
  apply parse_text
  intro a ha
  obtain rfl | rfl | rfl : a = .flag (literal "form-data") ∨
      a = .quoted (literal "filename") (literal "a; b") ∨
        a = .plain (literal "size") (literal "3 kB") := by simpa [formData] using ha
  · exact (by decide : IsName (literal "form-data"))
  · exact (by decide : IsName (literal "filename") ∧ '"'.toUInt8 ∉ literal "a; b")
  · exact (by decide : IsName (literal "size") ∧ literal "3 kB" ≠ [] ∧
      '"'.toUInt8 ∉ literal "3 kB")

end DanmakuChicken.SimpleWeb.SemicolonSeparatedAttributes
