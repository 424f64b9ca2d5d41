import StreamSql.Engine.QueryIds
import StreamSql.Proofs.Engine.Registry
import StreamSql.Proofs.Text

/-!
# Where query ids come from

A statement asks for its id, gets the next number, or takes over the id of the only query that
writes its sink (`allocated`). What a statement can ask for never looks like a generated id
(`not_reserved_explicit`), and a generated id tells its number (`Numbered.unique`).
-/

namespace StreamSql.QueryId

variable {id : QueryId} {number other : Nat}

/-! ### Numbers -/

/-- The id ends with a number behind an underscore. -/
def Numbered (id : QueryId) (number : Nat) : Prop :=
  ∃ stem, id.text.toList = stem ++ '_' :: Nat.toDigits 10 number

theorem underscore_not_mem (number : Nat) : '_' ∉ Nat.toDigits 10 number := fun h => by
  simpa using Nat.isDigit_of_mem_toDigits (by omega) (by omega) h

theorem eq_of_append_cons {α : Type} {a : α} {xs ys as bs : List α} (has : a ∉ as) (hbs : a ∉ bs)
    (h : xs ++ a :: as = ys ++ a :: bs) : as = bs := by
  rcases List.append_eq_append_iff.1 h with ⟨middle, -, heq⟩ | ⟨middle, -, heq⟩
  · cases middle with
    | nil => exact (List.cons.inj heq).2
    | cons _ middle =>
      refine absurd ?_ has
      rw [(List.cons.inj heq).2]
      exact List.mem_append_right _ List.mem_cons_self
  · cases middle with
    | nil => exact (List.cons.inj heq).2.symm
    | cons _ middle =>
      refine absurd ?_ hbs
      rw [(List.cons.inj heq).2]
      exact List.mem_append_right _ List.mem_cons_self

theorem Numbered.unique (h : Numbered id number) (hother : Numbered id other) : number = other := by
  obtain ⟨stem, hstem⟩ := h
  obtain ⟨stem', hstem'⟩ := hother
  refine Text.toDigits_injective ?_
  exact eq_of_append_cons (underscore_not_mem _) (underscore_not_mem _) (hstem.symm.trans hstem')

/-- The id starts as only generated ids do. -/
def Reserved (id : QueryId) : Prop :=
  ∃ stem ∈ reservedStems, stem.toList.isPrefixOf id.text.toList = true

theorem numbered_ofInsert (number : UInt64) : Numbered (ofInsert number) number.toNat := by
  refine ⟨"INSERTQUERY".toList, ?_⟩
  simp [ofInsert, insertStem]

theorem reserved_ofInsert (number : UInt64) : Reserved (ofInsert number) := by
  refine ⟨insertStem, by simp [reservedStems], ?_⟩
  simp [ofInsert]

theorem toList_ofSink (kind : SourceKind) (sink : SourceName) (number : UInt64) :
    ∃ stem ∈ reservedStems, (ofSink kind sink number).text.toList =
      stem.toList ++ (Text.upper sink.text).toList ++ '_' :: Nat.toDigits 10 number.toNat := by
  have htext : ∀ stem : String,
      (stem ++ Text.upper sink.text ++ "_" ++ toString number.toNat).toList =
        stem.toList ++ (Text.upper sink.text).toList ++ '_' :: Nat.toDigits 10 number.toNat := by
    intro stem
    simp
  cases kind with
  | stream => exact ⟨streamStem, by simp [reservedStems], htext streamStem⟩
  | table => exact ⟨tableStem, by simp [reservedStems], htext tableStem⟩

theorem numbered_ofSink (kind : SourceKind) (sink : SourceName) (number : UInt64) :
    Numbered (ofSink kind sink number) number.toNat := by
  obtain ⟨stem, -, htext⟩ := toList_ofSink kind sink number
  exact ⟨_, htext⟩

theorem reserved_ofSink (kind : SourceKind) (sink : SourceName) (number : UInt64) :
    Reserved (ofSink kind sink number) := by
  obtain ⟨stem, hstem, htext⟩ := toList_ofSink kind sink number
  exact ⟨stem, hstem, by simp [htext]⟩

theorem not_reserved_explicit {text : String} (h : explicit text = .ok id) : ¬Reserved id := by
  simp only [explicit] at h
  split at h
  · cases h
  · split at h
    · cases h
    next hnone =>
      rintro ⟨stem, hstem, hprefix⟩
      rw [← Except.ok.inj h] at hprefix
      exact List.find?_eq_none.1 hnone stem hstem hprefix

/-! ### Allocation -/

/-- The statement asks for the id. -/
def AskedBy (statement : WriteStatement) (id : QueryId) : Prop :=
  ∃ text, statement.queryId? = some text ∧ explicit text = .ok id

/-- Where the id of the query of a statement comes from, with the number that is next afterwards. -/
inductive Allocated (statement : WriteStatement) (registry : Registry) (next : UInt64) :
    QueryId → UInt64 → Prop
  | asked {id : QueryId} (h : AskedBy statement id) : Allocated statement registry next id next
  | fresh {id : QueryId} (hquiet : statement.queryId? = none) (hreserved : Reserved id)
      (hnumber : Numbered id next.toNat)
      (hunwritten : ∀ s, statement = .createAsSelect s → registry.writers s.name = []) :
      Allocated statement registry next id (next + 1)
  | takenOver {s : CreateAsSelect} {writer : RunningQuery} (hquiet : statement.queryId? = none)
      (hstatement : statement = .createAsSelect s) (hreplaces : s.orReplace = true)
      (hwriters : registry.writers s.name = [writer]) :
      Allocated statement registry next writer.id next

/-- A `CREATE ... AS SELECT` gets an id that it does not ask for only where no other query writes
the sink. -/
theorem Allocated.asked_or_alone {s : CreateAsSelect} {registry : Registry} {next after : UInt64}
    (h : Allocated (.createAsSelect s) registry next id after) :
    AskedBy (.createAsSelect s) id ∨ ∀ writer ∈ registry.writers s.name, writer.id = id := by
  cases h with
  | asked h => exact .inl h
  | fresh _ _ _ hunwritten =>
    rw [hunwritten s rfl]
    exact .inr fun _ hwriter => absurd hwriter List.not_mem_nil
  | takenOver _ hsame _ hwriters =>
    cases hsame
    rw [hwriters]
    exact .inr fun writer hwriter => congrArg RunningQuery.id (List.mem_singleton.1 hwriter)

theorem ofCreate_ok {s : CreateAsSelect} {registry : Registry} {replaces : Bool} {next : UInt64}
    (hquiet : s.properties.queryId = none) (h : (ofCreate s registry replaces next).1 = .ok id) :
    Allocated (.createAsSelect s) registry next id (ofCreate s registry replaces next).2 := by
  unfold ofCreate at h ⊢
  split at h
  next hnone =>
    cases h
    refine .fresh hquiet (reserved_ofSink _ _ _) (numbered_ofSink _ _ _) ?_
    rintro _ ⟨⟩
    exact List.map_eq_nil_iff.1 hnone
  next writer hwriter =>
    obtain ⟨query, hwriters, rfl⟩ := List.map_eq_singleton_iff.1 hwriter
    split at h
    next hreplaces =>
      cases h
      rw [if_pos hreplaces]
      exact .takenOver hquiet rfl (Bool.and_eq_true_iff.1 hreplaces).1 hwriters
    next => cases h
  next => cases h

theorem allocate_asked {statement : WriteStatement} {text : String} (registry : Registry)
    (replaces : Bool) (next : UInt64) (h : statement.queryId? = some text) :
    allocate statement registry replaces next = (explicit text, next) := by
  unfold allocate
  rw [h]

theorem allocate_insertInto {s : InsertInto} (registry : Registry) (replaces : Bool)
    (next : UInt64) (h : s.queryId = none) :
    allocate (.insertInto s) registry replaces next = (.ok (ofInsert next), next + 1) := by
  obtain ⟨target, query, queryId⟩ := s
  cases h
  rfl

theorem allocate_createAsSelect {s : CreateAsSelect} (registry : Registry) (replaces : Bool)
    (next : UInt64) (h : s.properties.queryId = none) :
    allocate (.createAsSelect s) registry replaces next = ofCreate s registry replaces next := by
  unfold allocate
  split
  next htext => exact absurd (h.symm.trans htext) nofun
  next heq => cases heq
  next heq =>
    cases heq
    rfl

theorem allocate_next (statement : WriteStatement) (registry : Registry) (replaces : Bool)
    (next : UInt64) : (allocate statement registry replaces next).2 = next ∨
      (allocate statement registry replaces next).2 = next + 1 := by
  unfold allocate
  split
  · exact .inl rfl
  · exact .inr rfl
  · unfold ofCreate
    split
    · exact .inr rfl
    · split
      · exact .inl rfl
      · exact .inl rfl
    · exact .inl rfl

/-- **Every id that is given out** is asked for, has the next number, or is that of the query whose
place is taken. -/
theorem allocated {statement : WriteStatement} {registry : Registry} {replaces : Bool}
    {next : UInt64} (h : (allocate statement registry replaces next).1 = .ok id) :
    Allocated statement registry next id (allocate statement registry replaces next).2 := by
  cases hasked : statement.queryId? with
  | some text =>
    rw [allocate_asked _ _ _ hasked] at h ⊢
    dsimp only at h ⊢
    exact .asked ⟨text, hasked, h⟩
  | none =>
    cases statement with
    | insertInto s =>
      have hquiet : s.queryId = none := hasked
      rw [allocate_insertInto _ _ _ hquiet] at h ⊢
      dsimp only at h ⊢
      rw [← Except.ok.inj h]
      refine .fresh hasked (reserved_ofInsert _) (numbered_ofInsert _) fun _ hcreate => ?_
      cases hcreate
    | createAsSelect s =>
      have hquiet : s.properties.queryId = none := hasked
      rw [allocate_createAsSelect _ _ _ hquiet] at h ⊢
      exact ofCreate_ok hquiet h

end StreamSql.QueryId
