import StreamSql.Json.Config
import StreamSql.Proofs.Results
import StreamSql.Proofs.Sorted

/-!
# Forms that are read back

A form is lawful if what is written is read back as the same value. The general forms are: numbers,
texts, optional values, lists, pairs and sets of lawful ones. A structure is read back field by
field (`fieldAt_then`), and a value of a sum by the name of its variant (`variant?_tagged`). Where a
field is optional, null and a missing member are the same (`fieldAt_null_then`).
-/

namespace StreamSql

/-- Types whose values are read back from their forms. -/
class LawfulForm (α : Type) [JsonForm α] : Prop where
  ofJson_toJson : ∀ a : α, ofJson (toJson a) = .ok a

/-- Types whose values are never written as null, so that they are told from missing ones. -/
class NeverNull (α : Type) [JsonForm α] : Prop where
  toJson_ne_null : ∀ a : α, toJson a ≠ .null

export LawfulForm (ofJson_toJson)

export NeverNull (toJson_ne_null)

namespace Json

variable {α β : Type}

/-! ### Structures -/

theorem map_val_lookup (name : String) (members : List (String × Json)) :
    (lookup name members).map Subtype.val = members.lookup name := by
  induction members with
  | nil => rfl
  | cons first rest ih =>
    obtain ⟨n, m⟩ := first
    by_cases h : n = name
    · simp [lookup, h]
    · have hne : (name == n) = false := beq_eq_false_iff_ne.2 (Ne.symm h)
      simp only [lookup, if_neg h, List.lookup_cons, hne, ← ih, Option.map_map]
      rfl

theorem lookup_of_member {members : List (String × Json)} {name : String} {m : Json}
    (h : (object members).member name = m) (hm : m ≠ null) : members.lookup name = some m := by
  rw [member] at h
  cases hfound : members.lookup name with
  | none => exact absurd (by rw [← h, hfound, Option.getD_none]) hm
  | some found => rw [← h, hfound, Option.getD_some]

theorem fieldWith_then {members : List (String × Json)} {name : String} {m : Json}
    {absent? : Option α}
    {read : (m : Json) → sizeOf m < sizeOf (object members) → Except DecodeError α} {a : α}
    {next : α → Except DecodeError β} {result : Except DecodeError β}
    (h : members.lookup name = some m) (hread : ∀ smaller, read m smaller = .ok a)
    (hnext : next a = result) :
    ((object members).fieldWith name absent? read) >>= next = result := by
  rw [← map_val_lookup, Option.map_eq_some_iff] at h
  obtain ⟨found, hfound, rfl⟩ := h
  simp only [fieldWith, hfound, hread]
  exact hnext

variable [JsonForm α]

/-- An optional field is left out where its member is null, and where there is none. -/
theorem fieldAt_null_then {members : List (String × Json)} {i : Nat} {name : String}
    {next : Option α → Except DecodeError β} {result : Except DecodeError β}
    (h : (object members).member name = null) (hnext : next none = result) :
    (object members).fieldAt i name >>= next = result := by
  rw [member, ← map_val_lookup] at h
  have hnone : ((object members).fieldAt i name : Except DecodeError (Option α)) = .ok none := by
    simp only [fieldAt, fieldAtWith, fieldWith]
    cases hfound : lookup name members with
    | none => rfl
    | some found =>
      rw [hfound] at h
      exact congrArg ofJson (show found.val = null from h)
  rw [hnone]
  exact hnext

variable [LawfulForm α]

theorem field_then {members : List (String × Json)} {name : String} {a : α}
    {next : α → Except DecodeError β} {result : Except DecodeError β}
    (h : members.lookup name = some (toJson a)) (hnext : next a = result) :
    (object members).field name >>= next = result :=
  fieldWith_then h (fun _ => ofJson_toJson a) hnext

theorem fieldAt_then {members : List (String × Json)} {i : Nat} {name : String} {a : α}
    {next : α → Except DecodeError β} {result : Except DecodeError β}
    (h : members.lookup name = some (toJson a)) (hnext : next a = result) :
    (object members).fieldAt i name >>= next = result :=
  field_then h hnext

omit [JsonForm α] [LawfulForm α]

/-! ### Sums -/

theorem sizeOf_lt_tagged (name : String) (content : Json) :
    sizeOf content < sizeOf (tagged name content) := by
  simp [tagged]
  omega

theorem variant?_tagged (name : String) {content : Json} (h : content ≠ null) :
    (tagged name content).variant? =
      some (.carrying name content (sizeOf_lt_tagged name content)) := by
  cases content with
  | null => exact absurd rfl h
  | _ => rfl

/-! ### Numbers and arrays -/

theorem readWord_integer {width n : Nat} (h : n < Nat.pow 2 width) :
    readWord width (integer n) = .ok n := by
  simp only [readWord, integer, asInt?, Bool.and_eq_true, decide_eq_true_eq]
  exact if_pos ⟨Int.natCast_nonneg n, Int.ofNat_lt.2 h⟩

theorem readSigned_integer {width : Nat} {n : Int} (hlow : -(Nat.pow 2 (width - 1) : Int) ≤ n)
    (hhigh : n < (Nat.pow 2 (width - 1) : Int)) : readSigned width (integer n) = .ok n := by
  simp only [readSigned, integer, asInt?, Bool.and_eq_true, decide_eq_true_eq]
  exact if_pos ⟨hlow, hhigh⟩

theorem itemsWith_array (items : List Json) (read : Json → Except DecodeError α) :
    (array items).itemsWith (fun m _ => read m) = items.mapM read := by
  change items.attach.mapM (read ∘ Subtype.val) = _
  rw [← List.mapM_map, List.attach_map_subtype_val]

theorem itemsWith_map {write : α → Json} {read : Json → Except DecodeError α} {as : List α}
    (h : ∀ a ∈ as, read (write a) = .ok a) :
    (array (as.map write)).itemsWith (fun m _ => read m) = .ok as := by
  have hread : as.mapM (read ∘ write) = .ok (as.map id) := mapM_eq_ok_map h
  rw [itemsWith_array, List.mapM_map, hread, List.map_id]

end Json

/-! ### General types -/

section

variable {α β : Type} [JsonForm α] [LawfulForm α] [JsonForm β] [LawfulForm β]

instance : LawfulForm Bool := ⟨fun _ => rfl⟩

instance : LawfulForm String := ⟨fun _ => rfl⟩

instance : NeverNull String := ⟨nofun⟩

instance : LawfulForm UInt64 where
  ofJson_toJson n := by
    refine (congrArg (· >>= _) (Json.readWord_integer n.toNat_lt)).trans ?_
    exact congrArg Except.ok UInt64.ofNat_toNat

omit [LawfulForm α] in
theorem ofJson_option {j : Json} (h : j ≠ .null) :
    (ofJson j : Except DecodeError (Option α)) = some <$> ofJson j := by
  cases j with
  | null => exact absurd rfl h
  | _ => rfl

instance [NeverNull α] : LawfulForm (Option α) where
  ofJson_toJson o := by
    cases o with
    | none => rfl
    | some a =>
      refine (ofJson_option (toJson_ne_null a)).trans ?_
      rw [ofJson_toJson]
      rfl

instance : LawfulForm (List α) where
  ofJson_toJson _ := Json.itemsWith_map fun a _ => ofJson_toJson a

instance : NeverNull (List α) := ⟨nofun⟩

instance : LawfulForm (α × β) where
  ofJson_toJson p := bind_eq_ok_iff.2
    ⟨p.1, ofJson_toJson p.1, bind_eq_ok_iff.2 ⟨p.2, ofJson_toJson p.2, rfl⟩⟩

instance [Ord α] [Std.TransOrd α] [Std.LawfulEqOrd α] : LawfulForm (SortedSet α) where
  ofJson_toJson s := by
    have hmembers : SortedSet.ofList s.toList = s := SortedSet.ext_contains fun a => by
      rw [SortedSet.contains_iff_mem, SortedSet.contains_iff_mem, SortedSet.mem_ofList]
    exact bind_eq_ok_iff.2 ⟨s.toList, ofJson_toJson s.toList, congrArg Except.ok hmembers⟩

end

end StreamSql
