import DanmakuChicken.SimpleWeb.Session

namespace DanmakuChicken.SimpleWeb

theorem Exchange.text_ne_nil {bits : ℕ} (exchange : Exchange bits) : exchange.text ≠ [] :=
  List.append_ne_nil_of_left_ne_nil exchange.isHead.ne_nil _

def Connection.isDone (c : Connection) : Bool :=
  match c.state with
  | .closed => true
  | _ => !c.sent.isEmpty

namespace Server

variable {σ τ : Type} {bits : ℕ} {apply : σ → τ → σ} {resource : Resource σ}

/-- Nothing is sent on a connection before the client is done with those in front of it. -/
def Waits (connections : List ℕ) (s : Server σ τ) : (ℕ × Connection.Action) ⊕ τ → Prop
  | .inl (j, .read (.arrive _)) => j ∈ connections →
    ∀ i ∈ connections.takeWhile (· ≠ j), (s.connection i).isDone
  | _ => True

instance decidableWaits (connections : List ℕ) (s : Server σ τ) :
    (a : (ℕ × Connection.Action) ⊕ τ) → Decidable (Waits connections s a)
  | .inl (_, .read (.arrive _)) => inferInstanceAs (Decidable (_ → _))
  | .inl (_, .read (.receive _)) | .inl (_, .read .complete) | .inl (_, .read .close)
  | .inl (_, .sent) | .inl (_, .fail) | .inr _ => isTrue trivial

def entriesOf (s : Server σ τ) (connections : List ℕ) : List Entry :=
  (s.history.filterMap Sum.getLeft?).filter (·.connection ∈ connections)

structure InOrder (connections : List ℕ) (s : Server σ τ) : Prop where
  waited : ∀ j ∈ connections, (s.connection j).received ≠ [] →
    ∀ i ∈ connections.takeWhile (· ≠ j), (s.connection i).isDone
  heard : ∀ j ∈ connections, s.entries j ≠ [] → (s.connection j).received ≠ []
  sublist : ((s.entriesOf connections).map Entry.connection).Sublist connections

variable {s t : Server σ τ} {i j : ℕ} {a : Connection.Action}

theorem handled_cases (s : Server σ τ) (i : ℕ) (reading : Reading RequestMessage) :
    (∃ state, s.handled resource i reading = s.set i { s.connection i with state := state }) ∨
      ∃ program request response closeConnection,
        s.handled resource i reading =
          { (s.set i
              { s.connection i with
                state := .writing reading.incoming request response closeConnection
                served := (s.connection i).served ++ [(request, reading.stream.buf)] }) with
            program := program
            history := s.history ++ [.inl ⟨i, request, reading.stream.buf, response⟩] } := by
  rw [Server.handled]
  split
  · split
    · exact .inr ⟨_, _, _, _, rfl⟩
    · exact .inl ⟨_, rfl⟩
  · exact .inl ⟨_, rfl⟩
  · exact .inl ⟨_, rfl⟩

theorem step_cases (ht : s.connectionStep bits resource i a = some t) :
    (t.connection i).received = (s.connection i).received ∧
        (∃ e incoming reading response closeConnection, e.connection = i ∧
          t.history = s.history ++ [.inl e] ∧ (s.connection i).state = .reading reading ∧
            (t.connection i).sent = (s.connection i).sent ∧
              (t.connection i).state = .writing incoming e.request response closeConnection) ∨
      t.history = s.history ∧ ((s.connection i).isDone → (t.connection i).isDone) ∧
        ((t.connection i).received = (s.connection i).received ∨
          ∃ bytes, a = .read (.arrive bytes) ∧
            (t.connection i).received = (s.connection i).received ++ bytes) := by
  have hclose (c : Connection) : Connection.isDone { c with state := .closed } := rfl
  cases steps_of_step ht with
  | arriveReading hstate =>
    rw [connection_set_self]
    exact .inr ⟨rfl, by simp [Connection.isDone, hstate], .inr ⟨_, rfl, rfl⟩⟩
  | arriveWriting hstate =>
    rw [connection_set_self]
    exact .inr ⟨rfl, by simp [Connection.isDone, hstate], .inr ⟨_, rfl, rfl⟩⟩
  | fail =>
    rw [connection_set_self]
    exact .inr ⟨rfl, fun _ => hclose _, .inl rfl⟩
  | sent hstate =>
    rw [connection_set_self]
    refine .inr ⟨rfl, fun _ => ?_, .inl rfl⟩
    split_ifs <;> simp [Connection.isDone]
  | @handled action reading reading' haction hstate hreading =>
    obtain ⟨state, hhandled⟩ | ⟨program, request, response, closeConnection, hhandled⟩ :=
      handled_cases s i reading'
    · rw [hhandled, connection_set_self]
      refine .inr ⟨rfl, fun hdone => ?_, .inl rfl⟩
      cases state with
      | closed => rfl
      | reading | writing => simpa [Connection.isDone, hstate] using hdone
    · rw [hhandled]
      refine .inl ⟨?_, ⟨i, request, reading'.stream.buf, response⟩, reading'.incoming, reading,
        response, closeConnection, rfl, rfl, hstate, ?_, ?_⟩
      all_goals simp [Server.set]

theorem isDone_of_step (ht : s.connectionStep bits resource i a = some t) (j : ℕ)
    (hdone : (s.connection j).isDone) : (t.connection j).isDone := by
  by_cases hij : j = i
  · subst hij
    obtain ⟨-, e, _, _, _, _, -, -, hreading, hsent, hwriting⟩ | ⟨-, hdone', -⟩ := step_cases ht
    · simpa [Connection.isDone, hreading, hwriting, hsent] using hdone
    · exact hdone' hdone
  · rw [connection_of_ne hij ht]
    exact hdone

theorem received_of_step (ht : s.connectionStep bits resource i a = some t) {j : ℕ}
    (h : (s.connection j).received ≠ []) : (t.connection j).received ≠ [] := by
  by_cases hij : j = i
  · subst hij
    obtain ⟨hreceived, -⟩ | ⟨-, -, hreceived | ⟨bytes, -, hreceived⟩⟩ := step_cases ht
    · rwa [hreceived]
    · rwa [hreceived]
    · rw [hreceived]
      exact List.append_ne_nil_of_left_ne_nil h bytes
  · rwa [connection_of_ne hij ht]

variable {connections : List ℕ} {script : ℕ → Exchange bits}

theorem InOrder.waited_of_step (h : InOrder connections s)
    (hwaits : Waits connections s (.inl (i, a)))
    (ht : s.connectionStep bits resource i a = some t) (hj : j ∈ connections)
    (hreceived : (t.connection j).received ≠ []) {k : ℕ}
    (hk : k ∈ connections.takeWhile (· ≠ j)) : (t.connection k).isDone := by
  refine isDone_of_step ht k ?_
  by_cases hold : (s.connection j).received = []
  · -- the first bytes on `j` came in just now
    by_cases hij : j = i
    · subst hij
      obtain ⟨heq, -⟩ | ⟨-, -, heq | ⟨bytes, rfl, -⟩⟩ := step_cases ht
      · exact absurd (heq.trans hold) hreceived
      · exact absurd (heq.trans hold) hreceived
      · exact hwaits hj k hk
    · rw [connection_of_ne hij ht] at hreceived
      exact absurd hold hreceived
  · exact h.waited j hj hold k hk

theorem received_of_writing {exchange : Exchange bits} {c : Connection}
    (h : OnScript [exchange] c) {incoming response : Str} {request : RequestMessage}
    {closeConnection : Bool}
    (hstate : c.state = .writing incoming request response closeConnection) :
    c.received = exchange.text ∧ c.served.length = 1 := by
  cases h with
  | reading | finished | closed => cases hstate
  | @writing before rest exchange' _ _ _ hscript _ =>
    obtain ⟨rfl, heq⟩ : before = [] ∧ [exchange] = exchange' :: rest := by
      cases before with
      | nil => exact ⟨rfl, hscript⟩
      | cons _ before => simp at hscript
    obtain rfl : exchange = exchange' := (List.cons.inj heq).1
    exact ⟨by simp, by simp⟩

theorem entries_concat {e : Entry} (h : t.history = s.history ++ [.inl e]) (j : ℕ) :
    t.entries j = s.entries j ++ if e.connection = j then [e] else [] := by
  rw [entries, h, List.filterMap_append, List.filter_append, entries]
  split_ifs with hj <;> simp [hj]

theorem entriesOf_concat {e : Entry} (h : t.history = s.history ++ [.inl e]) :
    t.entriesOf connections =
      s.entriesOf connections ++ if e.connection ∈ connections then [e] else [] := by
  rw [entriesOf, h, List.filterMap_append, List.filter_append, entriesOf]
  split_ifs with hj <;> simp [hj]

theorem mem_takeWhile_of_mem {before rest : List ℕ} (hnodup : (before ++ i :: rest).Nodup)
    (hj : j ∈ rest) : i ∈ (before ++ i :: rest).takeWhile (· ≠ j) := by
  obtain ⟨-, hrest, hdisjoint⟩ := List.nodup_append.mp hnodup
  have hbefore : ∀ k ∈ before, decide (k ≠ j) = true := fun k hk =>
    decide_eq_true (hdisjoint k hk j (List.mem_cons_of_mem i hj))
  have hij : i ≠ j := by
    rintro rfl
    exact (List.nodup_cons.mp hrest).1 hj
  rw [List.takeWhile_append_of_pos hbefore]
  simp [hij]

theorem InOrder.sublist_concat (h : InOrder connections s) (hnodup : connections.Nodup)
    (hi : i ∈ connections) (hdone : (s.connection i).isDone = false) (hnone : s.entries i = []) :
    ((s.entriesOf connections).map Entry.connection ++ [i]).Sublist connections := by
  obtain ⟨before, rest, hconnections⟩ := List.append_of_mem hi
  have hsublist := h.sublist
  rw [hconnections, List.sublist_append_iff] at hsublist
  obtain ⟨early, late, heq, hearly, hlate⟩ := hsublist
  have hnil : late = [] := by
    rw [List.eq_nil_iff_forall_not_mem]
    intro j hj
    have hmem : j ∈ (s.entriesOf connections).map Entry.connection := by
      rw [hconnections, heq]
      exact List.mem_append_right early hj
    obtain ⟨e, he, rfl⟩ := List.mem_map.mp hmem
    obtain ⟨hevent, hconnection⟩ := List.mem_filter.mp he
    have hentries : e ∈ s.entries e.connection := List.mem_filter.mpr ⟨hevent, by simp⟩
    obtain hji | hj := List.mem_cons.mp (hlate.subset hj)
    · rw [hji, hnone] at hentries
      cases hentries
    · have hmem := of_decide_eq_true hconnection
      have hreceived := h.heard e.connection hmem (List.ne_nil_of_mem hentries)
      have hwaited := h.waited e.connection hmem hreceived i
        (by rw [hconnections] at hnodup ⊢; exact mem_takeWhile_of_mem hnodup hj)
      rw [hdone] at hwaited
      cases hwaited
  rw [hnil, List.append_nil] at heq
  rw [hconnections, heq]
  exact hearly.append (List.singleton_sublist.mpr List.mem_cons_self)

theorem InOrder.step {program : σ} (h : InOrder connections s) (hnodup : connections.Nodup)
    (hs : Logged apply resource program s) (hlogged : Logged apply resource program t)
    (hscript : i ∈ connections → OnScript [script i] (t.connection i))
    (hwaits : Waits connections s (.inl (i, a)))
    (ht : s.connectionStep bits resource i a = some t) : InOrder connections t := by
  have hwaited (j : ℕ) (hj : j ∈ connections) (hreceived : (t.connection j).received ≠ [])
      (k : ℕ) (hk : k ∈ connections.takeWhile (· ≠ j)) : (t.connection k).isDone :=
    h.waited_of_step hwaits ht hj hreceived hk
  obtain ⟨-, e, _, _, _, _, rfl, hhistory, hreading, -, hwriting⟩ | ⟨hhistory, -, -⟩ :=
    step_cases ht
  · refine ⟨hwaited, fun j hj hentries => ?_, ?_⟩
    · rw [entries_concat hhistory] at hentries
      by_cases hij : e.connection = j
      · subst hij
        rw [(received_of_writing (hscript hj) hwriting).1]
        exact (script e.connection).text_ne_nil
      · rw [if_neg hij, List.append_nil] at hentries
        exact received_of_step ht (h.heard j hj hentries)
    · rw [entriesOf_concat hhistory]
      by_cases hi : e.connection ∈ connections
      · have hlength := (received_of_writing (hscript hi) hwriting).2
        rw [hlogged.served, List.length_map, entries_concat hhistory, if_pos rfl,
          List.length_append, List.length_singleton] at hlength
        have hnone : s.entries e.connection = [] :=
          List.length_eq_zero_iff.mp (Nat.succ.inj hlength)
        have hsent := hs.sent_of_history e.connection
        rw [hnone, List.map_nil, List.prefix_nil] at hsent
        have hdone : (s.connection e.connection).isDone = false := by
          simp [Connection.isDone, hreading, hsent]
        rw [if_pos hi, List.map_append]
        exact h.sublist_concat hnodup hi hdone hnone
      · rw [if_neg hi, List.append_nil]
        exact h.sublist
  · have hentries (j : ℕ) : t.entries j = s.entries j := by rw [entries, hhistory, entries]
    refine ⟨hwaited, fun j hj hne => ?_, ?_⟩
    · rw [hentries] at hne
      exact received_of_step ht (h.heard j hj hne)
    · rw [entriesOf, hhistory]
      exact h.sublist

end Server

end DanmakuChicken.SimpleWeb
