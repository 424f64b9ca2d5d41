import StreamSql.Proofs.Key.Injective
import StreamSql.Proofs.Materialization
import StreamSql.Proofs.Query.KeyLookup
import StreamSql.Proofs.Value.Zeros

/-!
# Equal values and equal keys

A row that passes a filter is stored under one of the keys that the lookup of the filter asks for,
but for the signs of zeros (`KeyLookup.exists_asked`). The predicate takes the two zeros for equal
and the bytes of a key do not, so a row with one zero in its key is not found under the other
(`KeyLookup.equal_keys_iff`).
-/

namespace StreamSql.KeyLookup

open Value (unsigned)

variable {columns : List Column} {terms : List Expression} {schema : Schema} {row : Row}

theorem exists_mem_distinct {values : List Value} :
    ∀ v ∈ values, ∃ w ∈ distinct values, v.unsigned = w.unsigned := by
  -- By induction on the values still to come, whichever have been seen.
  have hfold : ∀ seen : List Value,
      let result := values.foldl (fun seen v => if seen.any (·.equals v) then seen else seen ++ [v])
        seen
      seen ⊆ result ∧ ∀ v ∈ values, ∃ w ∈ result, v.unsigned = w.unsigned := by
    induction values with
    | nil => exact fun seen => ⟨List.Subset.refl _, nofun⟩
    | cons v rest ih =>
      intro seen
      rw [List.foldl_cons]
      split
      next hseen =>
        obtain ⟨hkept, hrest⟩ := ih seen
        obtain ⟨w, hw, heq⟩ := List.any_eq_true.1 hseen
        have hv : v.unsigned = w.unsigned := (Value.unsigned_eq_of_equals heq).symm
        exact ⟨hkept, List.forall_mem_cons.2 ⟨⟨w, hkept hw, hv⟩, hrest⟩⟩
      next =>
        obtain ⟨hkept, hrest⟩ := ih (seen ++ [v])
        obtain ⟨hseen, hv⟩ := List.append_subset.1 hkept
        exact ⟨hseen, List.forall_mem_cons.2 ⟨⟨v, hv (List.mem_singleton_self v), rfl⟩, hrest⟩⟩
  exact (hfold []).2

theorem Binds.exists_unsigned {column : Column} {values : List Value} {v c : Value}
    (h : Binds terms column values)
    (hpasses : ∀ term ∈ terms, term.passes schema row = .ok true)
    (hv : ∀ qualifier, Expression.evaluate schema row (.column ⟨qualifier, column.name⟩) = .ok v)
    (hc : v.coerce? column.type = some c) : ∃ d ∈ values, c.unsigned = d.unsigned := by
  obtain ⟨literals, coerced, hfound, hcoerced, rfl⟩ := h
  obtain ⟨term, hterm, hbound⟩ := List.exists_of_findSome?_eq_some hfound
  obtain ⟨l, hl, hcompare⟩ := exists_literal hbound (hpasses term hterm) hv
  obtain ⟨d, hd, hkey⟩ := exists_of_mem_left hcoerced hl
  have hd' := (keyValue_ok hkey).1
  have hsame : c.unsigned = d.unsigned := by
    -- The literal may stand on either side of the comparison.
    rcases hcompare with hcompare | hcompare
    · exact Value.unsigned_eq_of_compare hc hd' hcompare
    · exact (Value.unsigned_eq_of_compare hd' hc hcompare).symm
  obtain ⟨w, hw, heq⟩ := exists_mem_distinct d hd
  exact ⟨w, hw, hsame.trans heq⟩

theorem exists_mem_combinations {lists : List (List Value)} {values stored : List Value}
    (h : List.Forall₂ (Binds terms) columns lists)
    (hpasses : ∀ term ∈ terms, term.passes schema row = .ok true)
    (hvalues : List.Forall₂ (fun c v => ∀ qualifier,
      Expression.evaluate schema row (.column ⟨qualifier, c.name⟩) = .ok v) columns values)
    (hstored : Materialization.coerceKey columns values = .ok stored) :
    ∃ asked ∈ combinations lists, stored.map unsigned = asked.map unsigned := by
  simp only [mem_combinations_iff]
  induction h generalizing values stored with
  | nil =>
    cases hvalues
    cases hstored
    exact ⟨[], .nil, rfl⟩
  | cons hbinds _ ih =>
    obtain ⟨v, others, hv, hothers, rfl⟩ := List.forall₂_cons_left_iff.1 hvalues
    unfold Materialization.coerceKey at hstored
    split at hstored
    next c hc =>
      obtain ⟨rest, hrest, heq⟩ := bind_eq_ok_iff.1 hstored
      obtain rfl := Except.ok.inj heq
      obtain ⟨d, hd, hsame⟩ := hbinds.exists_unsigned hpasses hv hc
      obtain ⟨asked, hasked, hall⟩ := ih hothers hrest
      exact ⟨d :: asked, .cons hd hasked, by rw [List.map_cons, List.map_cons, hsame, hall]⟩
    next => cases hstored

/-- **A lookup asks for the key of every row that passes, but for the signs of zeros.** -/
theorem exists_asked {filter : Expression} {keys : List (List Value)} {values stored : List Value}
    (hdistinct : (schema.columns.map (·.name)).Nodup)
    (h : ofFilter (some filter) schema = .ok (.keys keys))
    (hpasses : filter.passes schema row = .ok true)
    (hvalues : List.Forall₂ (fun c v => (c, v) ∈ schema.columns.zip row.values) schema.keyColumns
      values)
    (hstored : Materialization.coerceKey schema.keyColumns values = .ok stored) :
    ∃ asked ∈ keys, stored.map unsigned = asked.map unsigned := by
  obtain ⟨_, lists, heq, hbinds, rfl⟩ := exists_bindings h
  obtain rfl := Option.some.inj heq
  refine exists_mem_combinations hbinds (Expression.passes_iff.1 hpasses) ?_ hstored
  exact hvalues.imp fun c v hmem qualifier => Expression.evaluate_column hdistinct hmem

theorem ofFilter_equation {column : Column} {qualifier : Option String} {l d : Value}
    (hkey : schema.keyColumns = [column]) (hl : l.coerce? column.type = some d)
    (hnull : l ≠ .null) :
    ofFilter (some (.equal (.column ⟨qualifier, column.name⟩) (.literal l))) schema =
      .ok (.keys [[d]]) := by
  have hvalue : keyValue column l = .ok d := by
    obtain ⟨rfl, -⟩ | ⟨-, htype⟩ := Value.type?_coerced hl
    · exact absurd rfl hnull
    · rw [keyValue, hl]
      cases d with
      | null => cases htype
      | _ => rfl
  have hbound : boundValues? column.name
      (.equal (.column ⟨qualifier, column.name⟩) (.literal l)) = some [l] := if_pos rfl
  have hbindings : bindings [.equal (.column ⟨qualifier, column.name⟩) (.literal l)] [column] =
      .ok (some [[d]]) := by
    rw [bindings, List.findSome?_cons, hbound]
    simp only [List.mapM_cons, List.mapM_nil, hvalue]
    rfl
  have hkeys : schema.keyColumns.isEmpty = false := by rw [hkey]; rfl
  rw [ofFilter, hkeys, hkey]
  exact congrArg (· >>= _) hbindings

/-! ### Keys of the same values -/

theorem encode_eq_iff {stored asked : List Value} (h : stored.map unsigned = asked.map unsigned) :
    EncodedKey.encode stored = .encode asked ↔
      List.Forall₂ (fun c d => ¬c.OppositeZeros d) stored asked := by
  have hsame := map_eq_map_iff_forall₂.1 h
  have hkeys : EncodedKey.encode stored = .encode asked ↔ stored = asked :=
    ⟨EncodedKey.encode_injective, congrArg _⟩
  rw [hkeys, ← List.forall₂_eq_eq_eq]
  exact ⟨hsame.mp fun c d hcd => (Value.eq_iff_of_unsigned hcd).1,
    hsame.mp fun c d hcd => (Value.eq_iff_of_unsigned hcd).2⟩

theorem encode_coerced_iff {t : DataType} {v l c d : Value} (hc : v.coerce? t = some c)
    (hd : l.coerce? t = some d) (h : v.compare? l = some .eq) :
    EncodedKey.encode [c] = .encode [d] ↔ ¬c.OppositeZeros d := by
  have hsame : [c].map unsigned = [d].map unsigned :=
    congrArg ([·]) (Value.unsigned_eq_of_compare hc hd h)
  rw [encode_eq_iff hsame, List.forall₂_cons, and_iff_left List.Forall₂.nil]

theorem get_eq_iff {m : Materialization} {id : PartitionId} {key : EncodedKey} {asked : List Value}
    (hm : m.Placed) (h : m.getIn id key = some row)
    (hasked : List.Forall₂ (fun c v => v.type? = some c.type) m.schema.keyColumns asked) :
    m.get asked = .ok (some row) ↔ key = .encode asked := by
  have hget : m.get asked = .ok (m.getIn (m.home (.encode asked)) (.encode asked)) := by
    rw [Materialization.get, Materialization.encode_of_type hasked]
    rfl
  rw [hget]
  constructor
  · exact fun hfound => (hm.unique h (Except.ok.inj hfound)).1
  · rintro rfl
    rw [(hm.belongs _ _ _ h).atHome, h]

/-- A stored row that passes the filter is found under one of the keys of the lookup, unless a zero
of its key has the other sign there. -/
theorem exists_get_iff {m : Materialization} {id : PartitionId} {key : EncodedKey}
    {filter : Expression} {keys : List (List Value)} (hm : m.Placed)
    (hdistinct : (m.schema.columns.map (·.name)).Nodup) (h : m.getIn id key = some row)
    (hpasses : filter.passes m.schema row = .ok true)
    (hlookup : ofFilter (some filter) m.schema = .ok (.keys keys)) :
    ∃ stored, key = .encode stored ∧ ∃ asked ∈ keys, stored.map unsigned = asked.map unsigned ∧
      (m.get asked = .ok (some row) ↔
        List.Forall₂ (fun c d => ¬c.OppositeZeros d) stored asked) := by
  have hplace := hm.belongs _ _ _ h
  obtain ⟨-, stored, hstored, rfl⟩ := Materialization.encode_eq_ok_iff.1 hplace.encoded
  obtain ⟨asked, hasked, hsame⟩ := exists_asked hdistinct hlookup hpasses
    (Materialization.forall₂_keyValues hplace.width) hstored
  have htyped := typed_of_ofFilter hlookup asked hasked
  exact ⟨stored, rfl, asked, hasked, hsame, (get_eq_iff hm h htyped).trans (encode_eq_iff hsame)⟩

/-- **Equal values have equal keys, but for the two zeros.** Values that compare equal have the same
key unless they are, as values of the key's type, zeros of different signs. So whatever was changed,
a stored row that passes a filter is found under a key that the lookup asks for exactly when that
key has no zero of the other sign, and the lookup of `K = l` asks for the key of `l` alone. -/
theorem equal_keys_iff (t : DataType) (v l c d : Value) (schema : Schema) (count : Nat)
    (changes : List Materialization.Change) :
    (v.coerce? t = some c → l.coerce? t = some d → v.compare? l = some .eq →
      (EncodedKey.encode [c] = .encode [d] ↔ ¬c.OppositeZeros d) ∧
        (c.OppositeZeros d → t = .float8)) ∧
    (∀ (id : PartitionId) (key : EncodedKey) (row : Row) (filter : Expression)
      (keys : List (List Value)),
      let m := (Materialization.empty schema count).after changes
      (schema.columns.map (·.name)).Nodup → m.getIn id key = some row →
      filter.passes schema row = .ok true → ofFilter (some filter) schema = .ok (.keys keys) →
      ∃ stored, key = .encode stored ∧ ∃ asked ∈ keys, stored.map unsigned = asked.map unsigned ∧
        (m.get asked = .ok (some row) ↔
          List.Forall₂ (fun c d => ¬c.OppositeZeros d) stored asked)) ∧
    ∀ (column : Column) (qualifier : Option String), schema.keyColumns = [column] →
      l.coerce? column.type = some d → l ≠ .null →
      ofFilter (some (.equal (.column ⟨qualifier, column.name⟩) (.literal l))) schema =
        .ok (.keys [[d]]) := by
  refine ⟨fun hc hd h => ⟨encode_coerced_iff hc hd h, ?_⟩, ?_, ?_⟩
  · rintro ⟨x, y, rfl, rfl, -, -, -⟩
    obtain ⟨-, hnull⟩ | ⟨-, htype⟩ := Value.type?_coerced hc
    · cases hnull
    · exact (Option.some.inj htype).symm
  · intro id key row filter keys m hdistinct h hpasses hlookup
    have hschema : m.schema = schema := Materialization.after_schema _ _
    have hm : m.Placed := Materialization.placed_after schema count changes
    rw [← hschema] at hdistinct hpasses hlookup
    exact exists_get_iff hm hdistinct h hpasses hlookup
  · exact fun column qualifier => ofFilter_equation

/-- A row stored under the negative zero passes `READING = 0`, and the lookup of this filter asks
for the positive zero only, under which there is no row. -/
theorem negative_zero_not_found :
    let zero := Value.float8 ⟨0⟩
    let negative := Value.float8 ⟨0x8000000000000000⟩
    let schema : Schema := ⟨[⟨"READING", .float8, .key, 0⟩]⟩
    let filter := Expression.equal (.named "READING") (.literal (.int4 0))
    let m := (Materialization.empty schema 1).after [.put ⟨[negative]⟩]
    negative.coerce? .float8 = some negative ∧ (Value.int4 0).coerce? .float8 = some zero ∧
      negative.compare? (.int4 0) = some .eq ∧ EncodedKey.encode [negative] ≠ .encode [zero] ∧
      m.get [negative] = .ok (some ⟨[negative]⟩) ∧
      filter.passes schema ⟨[negative]⟩ = .ok true ∧
      ofFilter (some filter) schema = .ok (.keys [[zero]]) ∧ m.get [zero] = .ok none := by
  decide +kernel

end StreamSql.KeyLookup
