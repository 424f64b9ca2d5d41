import Mathlib.Data.Nat.Basic
import StreamSql.Sample
import StreamSql.Proofs.Engine.QueryIds

/-!
# Ids that are given out in turn

Requests for query ids are answered one after the other, each with the number that those before it
have left (`answers`). A request that asks for no id and finds no writer of its sink is answered
with a new id, and nothing else uses a number up (`numberAfter_toNat`). So the new ids of a run have
different numbers as long as these do not wrap around, and none of them can be asked for
(`new_ids_differ`).
-/

namespace StreamSql.QueryId

/-- A request for the id of the query of a statement. -/
structure Request where
  statement : WriteStatement
  /-- The queries that run at that moment. -/
  registry : Registry
  /-- Whether the session lets statements replace queries. -/
  replaces : Bool

namespace Request

variable {r : Request} {next : UInt64} {id : QueryId}

def answer (r : Request) (next : UInt64) : Except EngineError QueryId × UInt64 :=
  allocate r.statement r.registry r.replaces next

/-- The request asks for no id, and no query writes the sink that the statement creates. -/
def isNew (r : Request) : Bool :=
  r.statement.queryId?.isNone &&
    match r.statement with
    | .insertInto _ => true
    | .createAsSelect s => (r.registry.writers s.name).isEmpty

/-- The new id of a number: the kind of statement, the sink that it creates, and the number. -/
def newId (r : Request) (number : UInt64) : QueryId :=
  match r.statement with
  | .insertInto _ => ofInsert number
  | .createAsSelect s => ofSink s.kind s.name number

theorem numbered_newId (r : Request) (number : UInt64) :
    (r.newId number).Numbered number.toNat := by
  unfold newId
  split
  · exact numbered_ofInsert number
  · exact numbered_ofSink _ _ number

theorem reserved_newId (r : Request) (number : UInt64) : (r.newId number).Reserved := by
  unfold newId
  split
  · exact reserved_ofInsert number
  · exact reserved_ofSink _ _ number

theorem answer_of_isNew (h : r.isNew = true) (next : UInt64) :
    r.answer next = (.ok (r.newId next), next + 1) := by
  obtain ⟨statement, registry, replaces⟩ := r
  obtain ⟨hquiet, hunwritten⟩ := Bool.and_eq_true_iff.1 h
  rw [Option.isNone_iff_eq_none] at hquiet
  cases statement with
  | insertInto s => exact allocate_insertInto registry replaces next hquiet
  | createAsSelect s =>
    refine (allocate_createAsSelect registry replaces next hquiet).trans ?_
    have hnone : registry.writers s.name = [] := List.isEmpty_iff.1 hunwritten
    rw [ofCreate, hnone]
    rfl

theorem written_of_not_isNew (hquiet : r.statement.queryId? = none) (h : r.isNew = false) :
    ∃ s, r.statement = .createAsSelect s ∧ r.registry.writers s.name ≠ [] := by
  obtain ⟨statement, registry, replaces⟩ := r
  rw [isNew, hquiet, Option.isNone_none, Bool.true_and] at h
  cases statement with
  | insertInto s => cases h
  | createAsSelect s => exact ⟨s, rfl, fun hnone => by simp [hnone] at h⟩

theorem answer_next_of_not_isNew (h : r.isNew = false) (next : UInt64) :
    (r.answer next).2 = next := by
  cases hasked : r.statement.queryId? with
  | some text => exact congrArg Prod.snd (allocate_asked _ _ _ hasked)
  | none =>
    obtain ⟨s, hs, hwritten⟩ := written_of_not_isNew hasked h
    rw [hs] at hasked
    rw [answer, hs, allocate_createAsSelect _ _ _ hasked]
    unfold ofCreate
    split
    next hnone => exact absurd (List.map_eq_nil_iff.1 hnone) hwritten
    next => split <;> rfl
    next => rfl

theorem asked_or_new (hdisabled : r.replaces = false) (h : (r.answer next).1 = .ok id) :
    AskedBy r.statement id ∨ r.isNew = true ∧ id = r.newId next := by
  cases hasked : r.statement.queryId? with
  | some text =>
    rw [answer, allocate_asked _ _ _ hasked] at h
    dsimp only at h
    exact .inl ⟨text, hasked, h⟩
  | none =>
    cases hnew : r.isNew with
    | true =>
      rw [answer_of_isNew hnew] at h
      exact .inr ⟨rfl, (Except.ok.inj h).symm⟩
    | false =>
      obtain ⟨s, hs, hwritten⟩ := written_of_not_isNew hasked hnew
      rw [hs] at hasked
      rw [answer, hs, hdisabled, allocate_createAsSelect _ _ _ hasked] at h
      unfold ofCreate at h
      split at h
      next hnone => exact absurd (List.map_eq_nil_iff.1 hnone) hwritten
      next =>
        rw [Bool.and_false, if_neg Bool.false_ne_true] at h
        cases h
      next => cases h

end Request

/-! ### Answers in turn -/

/-- The answers to requests that are made one after the other. -/
def answers (start : UInt64) : List Request → List (Except EngineError QueryId)
  | [] => []
  | r :: rest => (r.answer start).1 :: answers (r.answer start).2 rest

/-- The next number after some requests. -/
def numberAfter (start : UInt64) (requests : List Request) : UInt64 :=
  requests.foldl (fun next r => (r.answer next).2) start

variable {start : UInt64} {requests : List Request} {i j : Nat} {r s : Request} {id other : QueryId}

theorem answers_getElem? (h : requests[i]? = some r) :
    (answers start requests)[i]? = some (r.answer (numberAfter start (requests.take i))).1 := by
  induction requests generalizing start i with
  | nil => cases h
  | cons first rest ih =>
    cases i with
    | zero =>
      cases h
      rfl
    | succ i => exact ih h

/-- The numbers count the new ids. -/
theorem numberAfter_toNat (start : UInt64) (requests : List Request) :
    (numberAfter start requests).toNat =
      (start.toNat + requests.countP Request.isNew) % UInt64.size := by
  induction requests generalizing start with
  | nil => exact (Nat.mod_eq_of_lt start.toNat_lt_size).symm
  | cons r rest ih =>
    refine (ih (r.answer start).2).trans ?_
    cases hnew : r.isNew with
    | true =>
      rw [r.answer_of_isNew hnew, List.countP_cons_of_pos hnew, UInt64.toNat_add, UInt64.toNat_one,
        Nat.mod_add_mod, Nat.add_assoc, Nat.add_comm 1]
    | false =>
      rw [Request.answer_next_of_not_isNew hnew,
        List.countP_cons_of_neg (by rw [hnew]; exact Bool.false_ne_true)]

theorem countP_take_lt (hlt : i < j) (h : requests[i]? = some r) (hnew : r.isNew = true) :
    (requests.take i).countP Request.isNew < (requests.take j).countP Request.isNew := by
  have hsucc : (requests.take (i + 1)).countP Request.isNew =
      (requests.take i).countP Request.isNew + 1 := by
    rw [List.take_add_one, h, List.countP_append]
    simp [hnew]
  have hle : (requests.take (i + 1)).countP Request.isNew ≤
      (requests.take j).countP Request.isNew :=
    (List.take_sublist_take_left hlt).countP_le
  omega

theorem newId_ne (hcount : requests.length < UInt64.size) (hlt : i < j)
    (hr : requests[i]? = some r) (hnew : r.isNew = true) (hs : requests[j]? = some s) :
    r.newId (numberAfter start (requests.take i)) ≠
      s.newId (numberAfter start (requests.take j)) := by
  intro heq
  have hnumbers := (r.numbered_newId _).unique (heq ▸ s.numbered_newId _)
  rw [numberAfter_toNat, numberAfter_toNat] at hnumbers
  have hless := countP_take_lt hlt hr hnew
  have hplace : j < requests.length := (List.getElem?_eq_some_iff.1 hs).1
  have hbound : (requests.take j).countP Request.isNew ≤ j :=
    Nat.le_trans List.countP_le_length (List.length_take_le j requests)
  rw [show UInt64.size = 18446744073709551616 from rfl] at *
  omega

/-! ### Ids that are asked for -/

/-- An id that a statement may ask for. -/
structure Askable (id : QueryId) : Prop where
  nonempty : id.text ≠ ""
  chars : ∀ c ∈ id.text.toList, c.isUpper = true ∨ c.isDigit = true ∨ c = '_'
  unreserved : ¬id.Reserved

theorem isIdChar_toUpper {c : Char} (h : isIdChar c.toUpper = true) :
    c.toUpper.isUpper = true ∨ c.toUpper.isDigit = true ∨ c.toUpper = '_' := by
  have hlower : c.toUpper.isLower = false := by
    delta Char.isLower Char.toUpper
    split <;> grind [UInt32.toNat_add, Char.toNat_val]
  have hchar : ((c.toUpper.isUpper || c.toUpper.isLower || c.toUpper.isDigit) ||
      c.toUpper == '_') = true := h
  simpa only [hlower, Bool.or_false, Bool.or_eq_true, beq_iff_eq, or_assoc] using hchar

theorem explicit_ok {text : String} (h : explicit text = .ok id) :
    id.text = Text.upper (Text.trim text) ∧ id.text ≠ "" ∧
      ∀ c ∈ id.text.toList, isIdChar c = true := by
  simp only [explicit] at h
  split at h
  · cases h
  next hvalid =>
    split at h
    · cases h
    · obtain rfl := Except.ok.inj h
      simpa using hvalid

theorem askable_of_explicit {text : String} (h : explicit text = .ok id) : id.Askable := by
  obtain ⟨htext, hnonempty, hchars⟩ := explicit_ok h
  refine ⟨hnonempty, fun c hc => ?_, not_reserved_explicit h⟩
  have hvalid := hchars c hc
  rw [htext, Text.upper, String.toList_ofList] at hc
  obtain ⟨original, -, rfl⟩ := List.mem_map.1 hc
  exact isIdChar_toUpper hvalid

theorem Request.askable {next : UInt64} (hasked : r.statement.queryId?.isSome = true)
    (h : (r.answer next).1 = .ok id) : id.Askable := by
  obtain ⟨text, htext⟩ := Option.isSome_iff_exists.1 hasked
  rw [Request.answer, allocate_asked _ _ _ htext] at h
  dsimp only at h
  exact askable_of_explicit h

/-! ### All together -/

/-- **New ids differ from each other and from all that are asked for.** Among fewer than 2 ^ 64
answers in turn, every new id is that of its statement with a number. It differs from all other new
ids and from the ids that are asked for, and these are not empty, have upper-case letters, digits
and underscores only, and do not start as new ids do. -/
theorem new_ids_differ (start : UInt64) {requests : List Request}
    (hcount : requests.length < UInt64.size) :
    (∀ (i : Nat) (r : Request), requests[i]? = some r → r.isNew = true →
      ∃ number, (answers start requests)[i]? = some (.ok (r.newId number)) ∧
        ∀ (j : Nat) (s : Request) (other : QueryId), i ≠ j → requests[j]? = some s →
          (answers start requests)[j]? = some (.ok other) →
          s.isNew = true ∨ s.statement.queryId?.isSome = true → r.newId number ≠ other) ∧
    ∀ (j : Nat) (s : Request) (id : QueryId), requests[j]? = some s →
      s.statement.queryId?.isSome = true →
      (answers start requests)[j]? = some (.ok id) → id.Askable := by
  have hasks : ∀ (j : Nat) (s : Request) (id : QueryId), requests[j]? = some s →
      s.statement.queryId?.isSome = true →
      (answers start requests)[j]? = some (.ok id) → id.Askable := by
    intro j s id hs hasked hid
    rw [answers_getElem? hs] at hid
    exact s.askable hasked (Option.some.inj hid)
  refine ⟨fun i r hr hnew => ?_, hasks⟩
  have hanswer : (answers start requests)[i]? =
      some (.ok (r.newId (numberAfter start (requests.take i)))) := by
    rw [answers_getElem? hr, r.answer_of_isNew hnew]
  refine ⟨_, hanswer, fun j s other hne hs hother hkind => ?_⟩
  rcases hkind with hnewer | hasked
  · rw [answers_getElem? hs, s.answer_of_isNew hnewer] at hother
    cases hother
    rcases Nat.lt_or_gt_of_ne hne with hlt | hgt
    · exact newId_ne hcount hlt hr hnew hs
    · exact (newId_ne hcount hgt hs hnewer hr).symm
  · rintro rfl
    exact (hasks j s _ hs hasked hother).unreserved (r.reserved_newId _)

/-- Two sinks whose names and numbers run into each other, and an id that is asked for. -/
theorem numbered_sinks_differ :
    let create (name : String) (id : Option String) : Request := ⟨.createAsSelect {
      CreateAsSelect.plain name .stream (.selectAll (.source ⟨"ORDERS"⟩ none)) with
      properties := { queryId := id } }, .empty, false⟩
    let requests := [create "v_1" none, create "V" none, create "V" (some " v_1_0 ")]
    requests.length < UInt64.size ∧
      answers 0 requests = [.ok ⟨"CSAS_V_1_0"⟩, .ok ⟨"CSAS_V_1"⟩, .ok ⟨"V_1_0"⟩] ∧
      (⟨"CSAS_V_1_0"⟩ : QueryId) ≠ ⟨"CSAS_V_1"⟩ ∧ (⟨"CSAS_V_1_0"⟩ : QueryId) ≠ ⟨"V_1_0"⟩ ∧
      Askable ⟨"V_1_0"⟩ := by
  intro create requests
  have hanswers : answers 0 requests = [.ok ⟨"CSAS_V_1_0"⟩, .ok ⟨"CSAS_V_1"⟩, .ok ⟨"V_1_0"⟩] := by
    decide +kernel
  have hcount : requests.length < UInt64.size := by decide
  obtain ⟨hnew, hasked⟩ := new_ids_differ 0 hcount
  obtain ⟨number, hfirst, hdiffers⟩ := hnew 0 (create "v_1" none) rfl rfl
  rw [hanswers] at hfirst hdiffers hasked
  obtain hid : ⟨"CSAS_V_1_0"⟩ = (create "v_1" none).newId number :=
    Except.ok.inj (Option.some.inj hfirst)
  rw [hid]
  refine ⟨hcount, hid ▸ hanswers, ?_, ?_, ?_⟩
  · exact hdiffers 1 (create "V" none) _ (by decide) rfl rfl (.inl rfl)
  · exact hdiffers 2 (create "V" (some " v_1_0 ")) _ (by decide) rfl rfl (.inr rfl)
  · exact hasked 2 (create "V" (some " v_1_0 ")) _ rfl rfl rfl

end StreamSql.QueryId
