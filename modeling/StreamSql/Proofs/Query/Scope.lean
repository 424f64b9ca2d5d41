import StreamSql.Query.Scope

/-!
# Names in scope

A reference that is resolved in the scope of a schema denotes the only column of its name there
(`Scope.resolve_ofSchema_ok`). A schema may have several columns of one name, and a row is read at
the position of the first of them: for a reference that is resolved, this is the column that it
denotes (`Scope.position_of_resolve`).
-/

namespace StreamSql

namespace Schema

variable {s : Schema} {name : String}

/-- There is only one column of the name. -/
def Sole (s : Schema) (name : String) : Prop := ∃ c, s.columns.filter (·.name == name) = [c]

theorem Sole.eq {s : Schema} {name : String} (h : s.Sole name) {a b : Column} (ha : a ∈ s.columns)
    (hb : b ∈ s.columns) (haname : a.name = name) (hbname : b.name = name) : a = b := by
  obtain ⟨c, hc⟩ := h
  have hmem : ∀ x ∈ s.columns, x.name = name → x = c := fun x hx hname => by
    have hfound : x ∈ s.columns.filter (·.name == name) :=
      List.mem_filter.2 ⟨hx, beq_iff_eq.2 hname⟩
    rw [hc] at hfound
    exact List.mem_singleton.1 hfound
  rw [hmem a ha haname, hmem b hb hbname]

theorem Sole.find?_eq {s : Schema} {c : Column} (h : s.Sole c.name) (hc : c ∈ s.columns) :
    s.find? c.name = some c := by
  cases hfound : s.find? c.name with
  | none =>
    have hnone := List.find?_eq_none.1 hfound c hc
    simp at hnone
  | some d =>
    have hname : d.name = c.name := by simpa using List.find?_some hfound
    rw [h.eq (List.mem_of_find?_eq_some hfound) hc hname rfl]

theorem Sole.exists_find? {s : Schema} {name : String} (h : s.Sole name) :
    ∃ c, s.find? name = some c := by
  obtain ⟨c, hc⟩ := id h
  obtain ⟨hmem, hname⟩ := List.mem_filter.1 (hc ▸ List.mem_singleton_self c)
  obtain rfl := beq_iff_eq.1 hname
  exact ⟨c, h.find?_eq hmem⟩

theorem exists_position_iff :
    (∃ i, s.position? name = some i) ↔ ∃ c ∈ s.columns, c.name = name := by
  rw [← Option.isSome_iff_exists, position?, List.findIdx?_isSome]
  simp

theorem name_at_position {i : Nat} (h : s.position? name = some i) :
    ∃ c, s.columns[i]? = some c ∧ c.name = name := by
  obtain ⟨hi, hname, -⟩ := List.findIdx?_eq_some_iff_getElem.1 h
  exact ⟨s.columns[i], List.getElem?_eq_getElem hi, by simpa using hname⟩

end Schema

namespace Scope

variable {qualifier : Option String} {schema : Schema} {reference : ColumnReference}
  {c : VisibleColumn}

theorem resolve_eq_ok_iff {scope : Scope} :
    scope.resolve reference = .ok c ↔ scope.columns.filter (·.isDenotedBy reference) = [c] := by
  unfold resolve
  split
  next hnone => simp [hnone]
  next only honly => simp [honly]
  next hmany => exact iff_of_false nofun fun h => hmany c h

theorem mem_of_resolve {scope : Scope} (h : scope.resolve reference = .ok c) :
    c ∈ scope.columns ∧ c.name = reference.name := by
  have honly := resolve_eq_ok_iff.1 h
  obtain ⟨hmem, hdenoted⟩ := List.mem_filter.1 (honly ▸ List.mem_singleton_self c)
  exact ⟨hmem, beq_iff_eq.1 (Bool.and_eq_true_iff.1 hdenoted).1⟩

theorem eq_of_resolve {scope : Scope} {d : VisibleColumn} (h : scope.resolve reference = .ok c)
    (hd : d ∈ scope.columns) (hdenoted : d.isDenotedBy reference = true) : d = c := by
  have hmem : d ∈ scope.columns.filter (·.isDenotedBy reference) :=
    List.mem_filter.2 ⟨hd, hdenoted⟩
  rw [resolve_eq_ok_iff.1 h] at hmem
  exact List.mem_singleton.1 hmem

theorem filter_ofSchema (qualifier : Option String) (schema : Schema)
    (reference : ColumnReference) :
    (ofSchema qualifier schema).columns.filter (·.isDenotedBy reference) =
      if reference.qualifier.isNone || qualifier == reference.qualifier then
        (schema.columns.filter (·.name == reference.name)).map fun c =>
          ⟨qualifier, c.name, c.name, c.type, c.isKey⟩
      else [] := by
  rw [ofSchema, List.filter_map]
  split
  next hsource =>
    refine congrArg _ (List.filter_congr fun c _ => ?_)
    simp only [Function.comp, VisibleColumn.isDenotedBy, hsource, Bool.and_true]
  next hsource =>
    rw [List.map_eq_nil_iff, List.filter_eq_nil_iff]
    intro c _
    simp only [Function.comp, VisibleColumn.isDenotedBy, Bool.and_eq_true]
    exact fun h => hsource h.2

theorem resolve_ofSchema_ok (h : (ofSchema qualifier schema).resolve reference = .ok c) :
    ∃ column, schema.columns.filter (·.name == reference.name) = [column] ∧
      c = ⟨qualifier, column.name, column.name, column.type, column.isKey⟩ := by
  rw [resolve_eq_ok_iff, filter_ofSchema] at h
  split at h
  · obtain ⟨column, hcolumn, rfl⟩ := List.map_eq_singleton_iff.1 h
    exact ⟨column, hcolumn, rfl⟩
  · cases h

theorem sole_of_resolve (h : (ofSchema qualifier schema).resolve reference = .ok c) :
    schema.Sole reference.name := by
  obtain ⟨column, hcolumn, -⟩ := resolve_ofSchema_ok h
  exact ⟨column, hcolumn⟩

theorem resolve_of_sole {name : String} (h : schema.Sole name) :
    ∃ c, (ofSchema qualifier schema).resolve ⟨none, name⟩ = .ok c := by
  obtain ⟨column, hcolumn⟩ := h
  refine ⟨⟨qualifier, column.name, column.name, column.type, column.isKey⟩, ?_⟩
  rw [resolve_eq_ok_iff, filter_ofSchema, if_pos (by rfl), hcolumn]
  rfl

/-- **The column that a reference denotes is the one that is read for its name.** -/
theorem position_of_resolve (h : (ofSchema qualifier schema).resolve reference = .ok c) :
    ∃ i column, schema.position? reference.name = some i ∧ schema.columns[i]? = some column ∧
      column.type = c.type := by
  obtain ⟨column, hcolumn, rfl⟩ := resolve_ofSchema_ok h
  obtain ⟨hmem, hname⟩ := List.mem_filter.1 (hcolumn ▸ List.mem_singleton_self column)
  rw [beq_iff_eq] at hname
  obtain ⟨i, hi⟩ := Schema.exists_position_iff.2 ⟨column, hmem, hname⟩
  obtain ⟨other, hother, hsame⟩ := Schema.name_at_position hi
  have hsole : schema.Sole reference.name := ⟨column, hcolumn⟩
  refine ⟨i, other, hi, hother, ?_⟩
  rw [hsole.eq (List.mem_of_getElem? hother) hmem hsame hname]

end Scope

end StreamSql
