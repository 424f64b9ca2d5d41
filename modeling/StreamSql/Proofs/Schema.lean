import Mathlib.Data.List.Forall2
import Mathlib.Data.List.Perm.Basic
import StreamSql.Proofs.Results
import StreamSql.Proofs.Value
import StreamSql.Schema

/-!
# Schemas put together column by column

A schema to which columns are added one after the other has the keys ahead of the values, each group
in the order of the additions and numbered from zero: it is `Schema.ofGroups` of what was added
(`Schema.foldl_add`), whatever the order in which keys and values took turns, and no other schema
has its columns laid out so (`Schema.laidOut_iff`). So it is known by the declarations of its
columns (`Schema.Built.eq_of_declared`). The schemas whose rows fit into each other's are partially
ordered (`Schema.fitsInto_self`, `Schema.fitsInto_trans`, `Schema.fitsInto_antisymm`).
-/

namespace StreamSql

/-- Columns of one role by name and type, numbered from zero. -/
def Column.numbered (role : ColumnRole) (columns : List (String × DataType)) : List Column :=
  columns.zipIdx.map fun (column, place) => ⟨column.1, column.2, role, place.toUInt64⟩

namespace Schema

variable {s : Schema} {keys values : List (String × DataType)}

/-- The keys and behind them the values. -/
def ofGroups (keys values : List (String × DataType)) : Schema :=
  ⟨Column.numbered .key keys ++ Column.numbered .value values⟩

theorem isKey_of_mem_numbered {role : ColumnRole} {columns : List (String × DataType)} {c : Column}
    (h : c ∈ Column.numbered role columns) : c.isKey = (role == .key) := by
  obtain ⟨_, -, rfl⟩ := List.mem_map.1 h
  rfl

@[simp]
theorem keyColumns_ofGroups : (ofGroups keys values).keyColumns = Column.numbered .key keys := by
  rw [keyColumns, ofGroups, List.filter_append,
    List.filter_eq_self.2 fun c hc => isKey_of_mem_numbered hc,
    List.filter_eq_nil_iff.2 fun c hc => by simp [isKey_of_mem_numbered hc], List.append_nil]

@[simp]
theorem valueColumns_ofGroups :
    (ofGroups keys values).valueColumns = Column.numbered .value values := by
  rw [valueColumns, ofGroups, List.filter_append,
    List.filter_eq_nil_iff.2 fun c hc => by simp [isKey_of_mem_numbered hc],
    List.filter_eq_self.2 fun c hc => by simp [isKey_of_mem_numbered hc], List.nil_append]

theorem numbered_append_singleton (role : ColumnRole) (columns : List (String × DataType))
    (name : String) (type : DataType) : Column.numbered role (columns ++ [(name, type)]) =
      Column.numbered role columns ++ [⟨name, type, role, columns.length.toUInt64⟩] := by
  simp [Column.numbered, List.zipIdx_append]

@[simp]
theorem names_numbered (role : ColumnRole) (columns : List (String × DataType)) :
    (Column.numbered role columns).map (·.name) = columns.map (·.1) := by
  conv => rhs; rw [← List.zipIdx_map_fst 0 columns]
  rw [Column.numbered, List.map_map, List.map_map]
  rfl

theorem length_numbered (role : ColumnRole) (columns : List (String × DataType)) :
    (Column.numbered role columns).length = columns.length :=
  (List.length_map _).trans List.length_zipIdx

theorem addKey_ofGroups (name : String) (type : DataType) :
    (ofGroups keys values).addKey name type = ofGroups (keys ++ [(name, type)]) values := by
  have hkeys : ∀ c ∈ Column.numbered .key keys, c.isKey = true :=
    fun c hc => isKey_of_mem_numbered hc
  have hvalues : ∀ c ∈ (Column.numbered .value values).head?, ¬c.isKey = true := fun c hc => by
    simp [isKey_of_mem_numbered (List.mem_of_mem_head? hc)]
  rw [addKey, keyColumns_ofGroups, length_numbered]
  simp only [ofGroups]
  rw [List.takeWhile_append_of_pos hkeys, List.dropWhile_append_of_pos hkeys]
  cases hrest : Column.numbered .value values with
  | nil => simp [numbered_append_singleton]
  | cons c rest =>
    rw [hrest] at hvalues
    have hc : ¬c.isKey = true := hvalues c rfl
    rw [List.takeWhile_cons_of_neg hc, List.dropWhile_cons_of_neg hc, numbered_append_singleton]
    simp

theorem addValue_ofGroups (name : String) (type : DataType) :
    (ofGroups keys values).addValue name type = ofGroups keys (values ++ [(name, type)]) := by
  rw [addValue, valueColumns_ofGroups, length_numbered]
  simp only [ofGroups, numbered_append_singleton, List.append_assoc]

/-- **Columns added one after the other** form the two groups. -/
theorem foldl_add {α : Type} (name : α → String) (type : α → DataType) (isKey : α → Bool)
    (list : List α) (keys values : List (String × DataType)) :
    list.foldl (fun schema a => schema.add (name a) (type a) (isKey a)) (ofGroups keys values) =
      ofGroups (keys ++ (list.filter isKey).map fun a => (name a, type a))
        (values ++ (list.filter (!isKey ·)).map fun a => (name a, type a)) := by
  induction list generalizing keys values with
  | nil => simp
  | cons a rest ih =>
    rw [List.foldl_cons, add]
    cases hkey : isKey a with
    | true => rw [if_pos rfl, addKey_ofGroups, ih]; simp [hkey]
    | false => rw [if_neg nofun, addValue_ofGroups, ih]; simp [hkey]

theorem addValues_ofGroups (extra : List (String × DataType)) :
    (ofGroups keys values).addValues extra = ofGroups keys (values ++ extra) := by
  rw [addValues]
  induction extra generalizing values with
  | nil => simp
  | cons column rest ih =>
    have hcolumn : (ofGroups keys values).addValue column.1 column.2 =
        ofGroups keys (values ++ [column]) := addValue_ofGroups column.1 column.2
    rw [List.foldl_cons, List.append_cons]
    exact (congrArg (List.foldl _ · rest) hcolumn).trans ih

/-! ### Additions -/

/-- Each column by its name, its type and whether it is a key. -/
def declared (s : Schema) : List (String × DataType × Bool) :=
  s.columns.map fun c => (c.name, c.type, c.isKey)

/-- The schema that comes of adding the columns in this order. -/
def ofAdditions (columns : List (String × DataType × Bool)) : Schema :=
  columns.foldl (fun schema c => schema.add c.1 c.2.1 c.2.2) .empty

theorem declared_ofGroups (keys values : List (String × DataType)) :
    (ofGroups keys values).declared =
      keys.map (fun c => (c.1, c.2, true)) ++ values.map fun c => (c.1, c.2, false) := by
  have hgroup : ∀ role (columns : List (String × DataType)),
      (Column.numbered role columns).map (fun c => (c.name, c.type, c.isKey)) =
        columns.map fun c => (c.1, c.2, role == .key) := by
    intro role columns
    conv => rhs; rw [← List.zipIdx_map_fst 0 columns]
    rw [Column.numbered, List.map_map, List.map_map]
    rfl
  rw [declared, ofGroups, List.map_append, hgroup, hgroup]
  rfl

theorem ofAdditions_eq (columns : List (String × DataType × Bool)) :
    ofAdditions columns = ofGroups ((columns.filter (·.2.2)).map fun c => (c.1, c.2.1))
      ((columns.filter (!·.2.2)).map fun c => (c.1, c.2.1)) :=
  foldl_add _ _ _ columns [] []

theorem ofAdditions_map {α : Type} (name : α → String) (type : α → DataType) (isKey : α → Bool)
    (list : List α) : ofAdditions (list.map fun a => (name a, type a, isKey a)) =
      list.foldl (fun schema a => schema.add (name a) (type a) (isKey a)) .empty :=
  List.foldl_map

theorem ofAdditions_declared (keys values : List (String × DataType)) :
    ofAdditions (ofGroups keys values).declared = ofGroups keys values := by
  rw [declared_ofGroups, ofAdditions_eq]
  simp [List.filter_append, List.filter_map, Function.comp_def]

theorem declared_ofAdditions (columns : List (String × DataType × Bool)) :
    (ofAdditions columns).declared = columns.filter (·.2.2) ++ columns.filter (!·.2.2) := by
  have hkept : ∀ isKey, (columns.filter (·.2.2 == isKey)).map (fun c => (c.1, c.2.1, isKey)) =
      columns.filter (·.2.2 == isKey) := by
    intro isKey
    refine (List.map_congr_left fun c hc => ?_).trans (List.map_id _)
    rw [← beq_iff_eq.1 (List.mem_filter.1 hc).2]
    rfl
  have hkeys := hkept true
  have hvalues := hkept false
  simp only [beq_true, beq_false] at hkeys hvalues
  rw [ofAdditions_eq, declared_ofGroups, List.map_map, List.map_map]
  exact congrArg₂ _ hkeys hvalues

theorem addValues_ofAdditions (columns : List (String × DataType × Bool))
    (extra : List (String × DataType)) : (ofAdditions columns).addValues extra =
      ofAdditions (columns ++ extra.map fun c => (c.1, c.2, false)) := by
  rw [ofAdditions_eq, ofAdditions_eq, addValues_ofGroups]
  simp [List.filter_append, List.filter_map, Function.comp_def]

theorem foldl_addValues_ofAdditions (columns : List (String × DataType × Bool))
    (extras : List (List (String × DataType))) : extras.foldl addValues (ofAdditions columns) =
      ofAdditions (columns ++ extras.flatten.map fun c => (c.1, c.2, false)) := by
  induction extras generalizing columns with
  | nil => simp
  | cons extra rest ih =>
    rw [List.foldl_cons, addValues_ofAdditions, ih, List.flatten_cons, List.map_append,
      List.append_assoc]

/-! ### Layout -/

/--
The columns of the schema are those added, all keys ahead of all values. The keys are in the order
in which they were added, each numbered by its place among them, and so are the values. -/
structure LaidOut (s : Schema) (added : List (String × DataType × Bool)) : Prop where
  all : s.declared.Perm added
  keys_first : s.columns = s.keyColumns ++ s.valueColumns
  in_order : ∀ isKey, s.declared.filter (·.2.2 == isKey) = added.filter (·.2.2 == isKey)
  numbered : ∀ (isKey : Bool) (place : Nat) (c : Column),
    (s.columns.filter (·.isKey == isKey))[place]? = some c → c.index = place.toUInt64

theorem index_of_numbered {role : ColumnRole} {columns : List (String × DataType)} {place : Nat}
    {c : Column} (h : (Column.numbered role columns)[place]? = some c) :
    c.index = place.toUInt64 := by
  rw [Column.numbered, List.getElem?_map, List.getElem?_zipIdx, Option.map_map] at h
  obtain ⟨column, -, rfl⟩ := Option.map_eq_some_iff.1 h
  simp

theorem filter_isKey_ofGroups (isKey : Bool) :
    (ofGroups keys values).columns.filter (·.isKey == isKey) =
      if isKey then Column.numbered .key keys else Column.numbered .value values := by
  cases isKey with
  | true =>
    simp only [beq_true]
    exact keyColumns_ofGroups
  | false =>
    simp only [beq_false]
    exact valueColumns_ofGroups

theorem laidOut_ofAdditions (columns : List (String × DataType × Bool)) :
    (ofAdditions columns).LaidOut columns where
  all := by
    rw [declared_ofAdditions]
    exact List.filter_append_perm _ columns
  keys_first := by
    rw [ofAdditions_eq, keyColumns_ofGroups, valueColumns_ofGroups]
    rfl
  in_order isKey := by
    rw [declared_ofAdditions, List.filter_append, List.filter_filter, List.filter_filter]
    cases isKey <;> simp
  numbered isKey place c h := by
    rw [ofAdditions_eq, filter_isKey_ofGroups] at h
    split at h <;> exact index_of_numbered h

theorem declared_filter (s : Schema) (isKey : Bool) :
    s.declared.filter (·.2.2 == isKey) =
      (s.columns.filter (·.isKey == isKey)).map fun c => (c.name, c.type, c.isKey) := by
  rw [declared, List.filter_map]
  rfl

theorem column_eq {c d : Column} (hdeclared : (c.name, c.type, c.isKey) = (d.name, d.type, d.isKey))
    (hindex : c.index = d.index) : c = d := by
  obtain ⟨name, type, role, index⟩ := c
  obtain ⟨name', type', role', index'⟩ := d
  cases role <;> cases role' <;> simp_all [Column.isKey]

theorem LaidOut.filter_eq {t : Schema} {added : List (String × DataType × Bool)}
    (hs : s.LaidOut added) (ht : t.LaidOut added) (isKey : Bool) :
    s.columns.filter (·.isKey == isKey) = t.columns.filter (·.isKey == isKey) := by
  have hdeclared := (hs.in_order isKey).trans (ht.in_order isKey).symm
  rw [declared_filter, declared_filter] at hdeclared
  refine List.ext_getElem? fun place => ?_
  have hplace := congrArg (·[place]?) hdeclared
  simp only [List.getElem?_map] at hplace
  cases hc : (s.columns.filter (·.isKey == isKey))[place]? with
  | none =>
    rw [hc] at hplace
    exact (Option.map_eq_none_iff.1 hplace.symm).symm
  | some c =>
    rw [hc] at hplace
    obtain ⟨d, hd, heq⟩ := Option.map_eq_some_iff.1 hplace.symm
    rw [hd, column_eq heq ((ht.numbered _ _ _ hd).trans (hs.numbered _ _ _ hc).symm)]

/-- There is one way only to lay out columns. -/
theorem laidOut_iff {added : List (String × DataType × Bool)} :
    s.LaidOut added ↔ s = ofAdditions added := by
  refine ⟨fun h => ?_, fun h => h ▸ laidOut_ofAdditions added⟩
  have hbuilt := laidOut_ofAdditions added
  have hkeys := h.filter_eq hbuilt true
  have hvalues := h.filter_eq hbuilt false
  simp only [beq_true, beq_false] at hkeys hvalues
  have hcolumns : s.columns = (ofAdditions added).columns := by
    rw [h.keys_first, hbuilt.keys_first]
    exact congrArg₂ _ hkeys hvalues
  obtain ⟨columns⟩ := s
  exact congrArg mk hcolumns

/--
**Keys and values in turns.** Columns are added in any order, and value columns behind them any
number of times. The outcome is the one schema that is laid out of all these additions. -/
theorem eq_additions_iff_laidOut (columns : List (String × DataType × Bool))
    (extras : List (List (String × DataType))) (s : Schema) :
    s = extras.foldl addValues (ofAdditions columns) ↔
      s.LaidOut (columns ++ extras.flatten.map fun c => (c.1, c.2, false)) := by
  rw [foldl_addValues_ofAdditions, laidOut_iff]

/-- Two keys amid values, and a further value behind. -/
example : (ofAdditions [("V", .utf8, false), ("K", .int4, true), ("W", .int4, false),
      ("L", .int8, true)]).addValues [("X", .float8)] =
    ⟨[⟨"K", .int4, .key, 0⟩, ⟨"L", .int8, .key, 1⟩, ⟨"V", .utf8, .value, 0⟩,
      ⟨"W", .int4, .value, 1⟩, ⟨"X", .float8, .value, 2⟩]⟩ := rfl

/-! ### Built schemas -/

/-- The schema is put together column by column. -/
def Built (s : Schema) : Prop :=
  ∃ columns : List (String × DataType × Bool),
    s = columns.foldl (fun schema c => schema.add c.1 c.2.1 c.2.2) .empty

theorem built_foldl_add {α : Type} (name : α → String) (type : α → DataType) (isKey : α → Bool)
    (list : List α) :
    Built (list.foldl (fun schema a => schema.add (name a) (type a) (isKey a)) .empty) :=
  ⟨_, (ofAdditions_map name type isKey list).symm⟩

theorem Built.exists_groups (h : s.Built) : ∃ keys values, s = ofGroups keys values := by
  obtain ⟨columns, rfl⟩ := h
  exact ⟨_, _, ofAdditions_eq columns⟩

theorem Built.addValues (h : s.Built) (extra : List (String × DataType)) :
    (s.addValues extra).Built := by
  obtain ⟨columns, rfl⟩ := h
  exact ⟨_, addValues_ofAdditions columns extra⟩

theorem Built.eq_of_declared {t : Schema} (hs : s.Built) (ht : t.Built)
    (h : s.declared = t.declared) : s = t := by
  obtain ⟨keys, values, rfl⟩ := hs.exists_groups
  obtain ⟨keys', values', rfl⟩ := ht.exists_groups
  rw [← ofAdditions_declared keys, h, ofAdditions_declared]

end Schema

/-! ### Rows that fit -/

theorem DataType.widensTo_trans {a b c : DataType} (hab : a.widensTo b = true)
    (hbc : b.widensTo c = true) : a.widensTo c = true := by
  cases a <;> cases b <;> cases c <;> simp_all [widensTo]

theorem DataType.widensTo_antisymm {a b : DataType} (hab : a.widensTo b = true)
    (hba : b.widensTo a = true) : a = b := by
  cases a <;> cases b <;> simp_all [widensTo]

theorem Column.fitsInto_iff {c d : Column} : c.fitsInto d = true ↔
    c.name = d.name ∧ c.role = d.role ∧ c.type.widensTo d.type = true := by
  simp [fitsInto, matchesIgnoringType, and_assoc]

namespace Schema

variable {a b c : Schema}

theorem fitsInto_iff : a.fitsInto b = true ↔
    List.Forall₂ (fun c d => c.fitsInto d = true) a.columns b.columns := by
  simp [fitsInto, List.forall₂_iff_zip]

theorem fitsInto_self (schema : Schema) : schema.fitsInto schema = true := by
  rw [fitsInto_iff, List.forall₂_same]
  exact fun c _ => Column.fitsInto_iff.2 ⟨rfl, rfl, c.type.widensTo_self⟩

theorem fitsInto_trans (hab : a.fitsInto b = true) (hbc : b.fitsInto c = true) :
    a.fitsInto c = true := by
  rw [fitsInto_iff] at hab hbc ⊢
  refine forall₂_trans (fun x y z hxy hyz => ?_) hab hbc
  obtain ⟨hname, hrole, htype⟩ := Column.fitsInto_iff.1 hxy
  obtain ⟨hname', hrole', htype'⟩ := Column.fitsInto_iff.1 hyz
  exact Column.fitsInto_iff.2
    ⟨hname.trans hname', hrole.trans hrole', DataType.widensTo_trans htype htype'⟩

theorem fitsInto_antisymm (ha : a.Built) (hb : b.Built) (hab : a.fitsInto b = true)
    (hba : b.fitsInto a = true) : a = b := by
  refine ha.eq_of_declared hb (map_eq_map_iff_forall₂.2 ?_)
  rw [fitsInto_iff] at hab hba
  refine hab.mp (fun x y hxy hyx => ?_) hba.flip
  obtain ⟨hname, hrole, htype⟩ := Column.fitsInto_iff.1 hxy
  obtain ⟨-, -, htype'⟩ := Column.fitsInto_iff.1 hyx
  rw [hname, DataType.widensTo_antisymm htype htype', Column.isKey, Column.isKey, hrole]

end Schema

end StreamSql
