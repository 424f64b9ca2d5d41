import Mathlib.Data.List.Nodup
import StreamSql.Materialization
import StreamSql.Proofs.Evaluation
import StreamSql.Query.KeyLookup

/-!
# What a key lookup looks up

The keys of a lookup are all different, each of the types of the key columns, and the key of every
row that passes the filter is one of them (`KeyLookup.ofFilter_keys`): a row that passes agrees, in
every key column, with a literal that the first binding term of the filter names. It passes this
term because a filter decides about a row term by term (`KeyLookup.filter_decided_by_terms`).
-/

namespace StreamSql.KeyLookup

variable {t : DataType} {columns : List Column} {terms : List Expression}

/-! ### Distinct values -/

theorem any_equals_iff (ht : t ≠ .float8) {seen : List Value} {v : Value}
    (hseen : ∀ w ∈ seen, w.type? = some t) : seen.any (·.equals v) = true ↔ v ∈ seen := by
  rw [List.any_eq_true]
  constructor
  · rintro ⟨w, hw, heq⟩
    rwa [← (Value.equals_iff_eq ht (hseen w hw)).1 heq]
  · exact fun hv => ⟨v, hv, (Value.equals_iff_eq ht (hseen v hv)).2 rfl⟩

theorem distinct_spec (ht : t ≠ .float8) {values : List Value}
    (hvalues : ∀ v ∈ values, v.type? = some t) :
    (distinct values).Nodup ∧ ∀ v, v ∈ distinct values ↔ v ∈ values := by
  -- By induction on the values still to come, whichever have been seen.
  have hfold : ∀ seen : List Value, seen.Nodup → (∀ v ∈ seen, v.type? = some t) →
      let result := values.foldl (fun seen v => if seen.any (·.equals v) then seen else seen ++ [v])
        seen
      result.Nodup ∧ ∀ v, v ∈ result ↔ v ∈ seen ∨ v ∈ values := by
    induction values with
    | nil => exact fun seen hnodup _ => ⟨hnodup, by simp⟩
    | cons v rest ih =>
      intro seen hnodup hseen
      have hany : seen.any (·.equals v) = true ↔ v ∈ seen := any_equals_iff ht hseen
      have hrest : ∀ w ∈ rest, w.type? = some t := fun w hw =>
        hvalues w (List.mem_cons_of_mem _ hw)
      rw [List.foldl_cons]
      by_cases hv : v ∈ seen
      · rw [if_pos (hany.2 hv)]
        obtain ⟨hnodup, hmem⟩ := ih hrest seen hnodup hseen
        refine ⟨hnodup, fun w => (hmem w).trans ?_⟩
        grind
      · rw [if_neg (mt hany.1 hv)]
        obtain ⟨hnodup, hmem⟩ := ih hrest (seen ++ [v]) (by grind) (by grind)
        refine ⟨hnodup, fun w => (hmem w).trans ?_⟩
        grind
  simpa [distinct] using hfold [] List.nodup_nil (by simp)

theorem distinct_subset (values : List Value) : distinct values ⊆ values := by
  refine List.foldlRecOn (motive := (· ⊆ values)) values _ (List.nil_subset _) ?_
  intro seen hseen v hv
  split
  · exact hseen
  · exact List.append_subset.2 ⟨hseen, List.cons_subset.2 ⟨hv, List.nil_subset _⟩⟩

/-! ### Combinations -/

theorem mem_combinations_iff {lists : List (List Value)} {key : List Value} :
    key ∈ combinations lists ↔ List.Forall₂ (· ∈ ·) key lists := by
  induction lists generalizing key with
  | nil => simp [combinations]
  | cons values rest ih =>
    rw [combinations, List.mem_flatMap, List.forall₂_cons_right_iff]
    simp only [List.mem_map, ih]
    constructor
    · rintro ⟨v, hv, others, hothers, rfl⟩
      exact ⟨v, others, hv, hothers, rfl⟩
    · rintro ⟨v, others, hv, hothers, rfl⟩
      exact ⟨v, hv, others, hothers, rfl⟩

theorem nodup_combinations {lists : List (List Value)} (h : ∀ values ∈ lists, values.Nodup) :
    (combinations lists).Nodup := by
  induction lists with
  | nil => simp [combinations]
  | cons values rest ih =>
    obtain ⟨hvalues, hrest⟩ := List.forall_mem_cons.1 h
    refine List.nodup_flatMap.2 ⟨fun v _ => ?_, ?_⟩
    · exact (ih hrest).map fun _ _ heq => (List.cons.inj heq).2
    · refine hvalues.imp fun hne key hfirst hsecond => hne ?_
      obtain ⟨_, -, rfl⟩ := List.mem_map.1 hfirst
      obtain ⟨_, -, heq⟩ := List.mem_map.1 hsecond
      exact (List.cons.inj heq).1.symm

/-! ### Bindings -/

/-- The values that a lookup takes a column to be bound to, by the first term that binds it. -/
def Binds (terms : List Expression) (column : Column) (values : List Value) : Prop :=
  ∃ literals coerced, terms.findSome? (boundValues? column.name) = some literals ∧
    List.Forall₂ (fun l d => keyValue column l = .ok d) literals coerced ∧
    values = distinct coerced

theorem bindings_ok {lists : List (List Value)} (h : bindings terms columns = .ok (some lists)) :
    List.Forall₂ (Binds terms) columns lists := by
  induction columns generalizing lists with
  | nil =>
    cases h
    exact .nil
  | cons column rest ih =>
    unfold bindings at h
    split at h
    · cases h
    next literals hliterals =>
      obtain ⟨coerced, hcoerced, h⟩ := bind_eq_ok_iff.1 h
      obtain ⟨others, hothers, h⟩ := bind_eq_ok_iff.1 h
      obtain ⟨lists, rfl, rfl⟩ := Option.map_eq_some_iff.1 (Except.ok.inj h)
      exact .cons ⟨literals, coerced, hliterals, mapM_eq_ok_iff.1 hcoerced, rfl⟩ (ih hothers)

theorem keyValue_ok {column : Column} {v c : Value} (h : keyValue column v = .ok c) :
    v.coerce? column.type = some c ∧ c.type? = some column.type := by
  unfold keyValue at h
  split at h
  next coerced hcoerced =>
    split at h
    · cases h
    next hnull =>
      obtain rfl := Except.ok.inj h
      obtain ⟨-, rfl⟩ | ⟨-, htype⟩ := Value.type?_coerced hcoerced
      · exact absurd rfl hnull
      · exact ⟨hcoerced, htype⟩
  · cases h

theorem Binds.typed {column : Column} {values : List Value} (h : Binds terms column values) :
    ∀ v ∈ values, v.type? = some column.type := by
  obtain ⟨literals, coerced, -, hcoerced, rfl⟩ := h
  intro v hv
  obtain ⟨l, -, hl⟩ := exists_of_mem_right hcoerced (distinct_subset _ hv)
  exact (keyValue_ok hl).2

theorem Binds.spec {column : Column} {values : List Value} (h : Binds terms column values)
    (ht : column.type ≠ .float8) :
    values.Nodup ∧ ∃ literals, terms.findSome? (boundValues? column.name) = some literals ∧
      ∀ l ∈ literals, ∃ d ∈ values, l.coerce? column.type = some d := by
  obtain ⟨literals, coerced, hfound, hcoerced, rfl⟩ := h
  have htyped : ∀ v ∈ coerced, v.type? = some column.type := by
    intro v hv
    obtain ⟨l, -, hl⟩ := exists_of_mem_right hcoerced hv
    exact (keyValue_ok hl).2
  obtain ⟨hnodup, hmem⟩ := distinct_spec ht htyped
  refine ⟨hnodup, literals, hfound, fun l hl => ?_⟩
  obtain ⟨d, hd, hkey⟩ := exists_of_mem_left hcoerced hl
  exact ⟨d, (hmem d).2 hd, (keyValue_ok hkey).1⟩

/-! ### Rows that pass -/

variable {schema : Schema} {row : Row}

theorem mem_of_mapM_literal? {list : List Expression} {literals : List Value}
    (h : list.mapM literal? = some literals) {e : Expression} (he : e ∈ list) :
    ∃ l ∈ literals, e = .literal l := by
  induction list generalizing literals with
  | nil => cases he
  | cons first rest ih =>
    rw [List.mapM_cons] at h
    obtain ⟨l, hl, h⟩ := Option.bind_eq_some_iff.1 h
    obtain ⟨others, hothers, h⟩ := Option.bind_eq_some_iff.1 h
    obtain rfl := Option.some.inj h
    rcases List.mem_cons.1 he with rfl | he
    · refine ⟨l, List.mem_cons_self, ?_⟩
      unfold literal? at hl
      split at hl
      · rw [Option.some.inj hl]
      · cases hl
    · obtain ⟨l, hl, heq⟩ := ih hothers he
      exact ⟨l, List.mem_cons_of_mem _ hl, heq⟩

theorem exists_literal {name : String} {term : Expression} {literals : List Value} {v : Value}
    (hbound : boundValues? name term = some literals)
    (hpasses : term.passes schema row = .ok true)
    (hv : ∀ qualifier, Expression.evaluate schema row (.column ⟨qualifier, name⟩) = .ok v) :
    ∃ l ∈ literals, v.compare? l = some .eq ∨ l.compare? v = some .eq := by
  have hcolumn : ∀ {c : ColumnReference} {w : Value}, c.name = name →
      Expression.evaluate schema row (.column c) = .ok w → w = v := by
    rintro ⟨qualifier, name⟩ w rfl hw
    exact Except.ok.inj (hw.symm.trans (hv qualifier))
  have hliteral : ∀ {l w : Value}, Expression.evaluate schema row (.literal l) = .ok w → w = l :=
    fun hw => (Except.ok.inj hw).symm
  unfold boundValues? at hbound
  split at hbound
  next c l =>
    obtain ⟨hname, heq⟩ := Option.ite_none_right_eq_some.1 hbound
    obtain rfl := Option.some.inj heq
    obtain ⟨x, y, hx, hy, hcompare⟩ := Expression.compare_of_passes_equal hpasses
    rw [hcolumn hname hx, hliteral hy] at hcompare
    exact ⟨l, List.mem_cons_self, .inl hcompare⟩
  next l c =>
    obtain ⟨hname, heq⟩ := Option.ite_none_right_eq_some.1 hbound
    obtain rfl := Option.some.inj heq
    obtain ⟨x, y, hx, hy, hcompare⟩ := Expression.compare_of_passes_equal hpasses
    rw [hliteral hx, hcolumn hname hy] at hcompare
    exact ⟨l, List.mem_cons_self, .inr hcompare⟩
  next c list =>
    obtain ⟨hname, hlist⟩ := Option.ite_none_right_eq_some.1 hbound
    obtain ⟨x, hx, member, hmember, w, hw, hcompare⟩ := Expression.compare_of_passes_inList hpasses
    obtain ⟨l, hl, rfl⟩ := mem_of_mapM_literal? hlist hmember
    rw [hcolumn hname hx, hliteral hw] at hcompare
    exact ⟨l, hl, .inl hcompare⟩
  next => cases hbound

theorem Binds.mem_of_passes {column : Column} {values : List Value} {v c : Value}
    (h : Binds terms column values) (ht : column.type ≠ .float8)
    (hpasses : ∀ term ∈ terms, term.passes schema row = .ok true)
    (hv : ∀ qualifier, Expression.evaluate schema row (.column ⟨qualifier, column.name⟩) = .ok v)
    (hc : v.coerce? column.type = some c) : c ∈ values := by
  obtain ⟨-, literals, hfound, hliterals⟩ := h.spec ht
  obtain ⟨term, hterm, hbound⟩ := List.exists_of_findSome?_eq_some hfound
  obtain ⟨l, hl, hcompare⟩ := exists_literal hbound (hpasses term hterm) hv
  obtain ⟨d, hd, hl⟩ := hliterals l hl
  -- The literal may stand on either side of the comparison.
  rcases hcompare with hcompare | hcompare
  · exact Value.coerced_eq_of_compare ht hc hl hcompare ▸ hd
  · exact Value.coerced_eq_of_compare ht hl hc hcompare ▸ hd

theorem typed_of_mem_combinations {lists : List (List Value)} {key : List Value}
    (h : List.Forall₂ (Binds terms) columns lists) (hkey : key ∈ combinations lists) :
    List.Forall₂ (fun c v => v.type? = some c.type) columns key := by
  rw [mem_combinations_iff] at hkey
  induction h generalizing key with
  | nil =>
    cases hkey
    exact .nil
  | cons hbinds _ ih =>
    obtain ⟨v, others, hv, hothers, rfl⟩ := List.forall₂_cons_right_iff.1 hkey
    exact .cons (hbinds.typed v hv) (ih hothers)

theorem mem_combinations_of_passes {lists : List (List Value)} {values coerced : List Value}
    (h : List.Forall₂ (Binds terms) columns lists) (ht : ∀ c ∈ columns, c.type ≠ .float8)
    (hpasses : ∀ term ∈ terms, term.passes schema row = .ok true)
    (hvalues : List.Forall₂ (fun c v => ∀ qualifier,
      Expression.evaluate schema row (.column ⟨qualifier, c.name⟩) = .ok v) columns values)
    (hcoerced : Materialization.coerceKey columns values = .ok coerced) :
    coerced ∈ combinations lists := by
  rw [mem_combinations_iff]
  induction h generalizing values coerced with
  | nil =>
    cases hvalues
    cases hcoerced
    exact .nil
  | cons hbinds _ ih =>
    obtain ⟨v, others, hv, hothers, rfl⟩ := List.forall₂_cons_left_iff.1 hvalues
    obtain ⟨hhead, hrest⟩ := List.forall_mem_cons.1 ht
    unfold Materialization.coerceKey at hcoerced
    split at hcoerced
    next c hc =>
      obtain ⟨rest, hrestCoerced, heq⟩ := bind_eq_ok_iff.1 hcoerced
      obtain rfl := Except.ok.inj heq
      exact .cons (hbinds.mem_of_passes hhead hpasses hv hc) (ih hrest hothers hrestCoerced)
    next => cases hcoerced

/-- What a lookup by keys says of a filter: no key comes twice, the values of every key have the
types of the key columns, and the key of every row that passes is among them. -/
structure Covers (keys : List (List Value)) (schema : Schema) (filter : Option Expression) : Prop
    where
  nodup : keys.Nodup
  typed : ∀ key ∈ keys, List.Forall₂ (fun c v => v.type? = some c.type) schema.keyColumns key
  complete : ∀ row values coerced, (∀ predicate ∈ filter, predicate.passes schema row = .ok true) →
    List.Forall₂ (fun c v => (c, v) ∈ schema.columns.zip row.values) schema.keyColumns values →
    Materialization.coerceKey schema.keyColumns values = .ok coerced → coerced ∈ keys

theorem exists_bindings {filter : Option Expression} {keys : List (List Value)}
    (h : ofFilter filter schema = .ok (.keys keys)) :
    ∃ predicate lists, filter = some predicate ∧
      List.Forall₂ (Binds predicate.conjuncts) schema.keyColumns lists ∧
        keys = combinations lists := by
  unfold ofFilter at h
  split at h
  · cases h
  next predicate =>
    split at h
    · cases h
    · obtain ⟨lists, hlists, h⟩ := bind_eq_ok_iff.1 h
      cases lists with
      | none => cases h
      | some lists =>
        obtain rfl := KeyLookup.keys.inj (Except.ok.inj h)
        exact ⟨predicate, lists, rfl, bindings_ok hlists, rfl⟩

theorem typed_of_ofFilter {filter : Option Expression} {keys : List (List Value)}
    (h : ofFilter filter schema = .ok (.keys keys)) :
    ∀ key ∈ keys, List.Forall₂ (fun c v => v.type? = some c.type) schema.keyColumns key := by
  obtain ⟨predicate, lists, -, hbinds, rfl⟩ := exists_bindings h
  exact fun key hkey => typed_of_mem_combinations hbinds hkey

/-- **A lookup by keys covers its filter**, over rows of a schema with distinct names and without
floats in the key. -/
theorem ofFilter_keys {filter : Option Expression} {keys : List (List Value)}
    (hdistinct : (schema.columns.map (·.name)).Nodup)
    (ht : ∀ c ∈ schema.keyColumns, c.type ≠ .float8)
    (h : ofFilter filter schema = .ok (.keys keys)) : Covers keys schema filter := by
  have htyped := typed_of_ofFilter h
  obtain ⟨predicate, lists, rfl, hbinds, rfl⟩ := exists_bindings h
  refine ⟨nodup_combinations fun values hvalues => ?_, htyped, ?_⟩
  · obtain ⟨column, hcolumn, hbind⟩ := exists_of_mem_right hbinds hvalues
    exact (hbind.spec (ht column hcolumn)).1
  · intro row values coerced hpasses hvalues hcoerced
    refine mem_combinations_of_passes hbinds ht
      (Expression.passes_iff.1 (hpasses predicate rfl)) ?_ hcoerced
    exact hvalues.imp fun c v hmem qualifier => Expression.evaluate_column hdistinct hmem

/-! ### Terms that bind -/

section Terms

variable {filter term : Expression} {column : Column}

/-- The first term of a filter that binds a column. -/
def bindingTerm? (filter : Expression) (column : Column) : Option Expression :=
  filter.conjuncts.find? fun term => (boundValues? column.name term).isSome

theorem mem_of_bindingTerm? (h : bindingTerm? filter column = some term) :
    term ∈ filter.conjuncts :=
  List.mem_of_find?_eq_some h

theorem exists_bindingTerm? {literals : List Value}
    (h : filter.conjuncts.findSome? (boundValues? column.name) = some literals) :
    ∃ term, bindingTerm? filter column = some term ∧
      boundValues? column.name term = some literals := by
  obtain ⟨before, term, after, hterms, hbound, hbefore⟩ := List.findSome?_eq_some_iff.1 h
  refine ⟨term, ?_, hbound⟩
  rw [bindingTerm?, List.find?_eq_some_iff_append]
  refine ⟨by rw [hbound]; rfl, before, after, hterms, fun earlier hearlier => ?_⟩
  rw [hbefore earlier hearlier]
  rfl

/--
**A filter decides about a row term by term.** It cannot be evaluated exactly if one of its terms
cannot, and the first such term says why. Otherwise a row passes exactly if it passes every term. So
it passes each term that binds a column. A lookup by keys takes the literals of such a term for
every key column. -/
theorem filter_decided_by_terms (filter : Expression) (schema : Schema) (row : Row) :
    ((∃ error, filter.evaluate schema row = .error error) ↔
      ∃ term ∈ filter.conjuncts, ∃ error, term.evaluate schema row = .error error) ∧
    (∀ error, filter.evaluate schema row = .error error ↔
      ∃ before term after, filter.conjuncts = before ++ term :: after ∧
        (∀ earlier ∈ before, ∃ v, earlier.evaluate schema row = .ok v) ∧
        term.evaluate schema row = .error error) ∧
    (∀ v, filter.evaluate schema row = .ok v → ∃ passed, filter.passes schema row = .ok passed ∧
      (passed = true ↔ ∀ term ∈ filter.conjuncts, term.passes schema row = .ok true)) ∧
    (∀ column term, bindingTerm? filter column = some term →
      filter.passes schema row = .ok true → term.passes schema row = .ok true) ∧
    ∀ stored keys, ofFilter (some filter) stored = .ok (.keys keys) →
      ∀ column ∈ stored.keyColumns, ∃ literals term,
        filter.conjuncts.findSome? (boundValues? column.name) = some literals ∧
        bindingTerm? filter column = some term ∧ boundValues? column.name term = some literals := by
  refine ⟨?_, fun error => Expression.evaluate_eq_error_iff, fun v hv => ?_, ?_, ?_⟩
  · rw [exists_eq_error_iff, Expression.evaluates_iff]
    simp only [exists_eq_error_iff, not_forall, exists_prop]
  · obtain ⟨passed, hpassed⟩ := Expression.exists_passes_iff.2 ⟨v, hv⟩
    refine ⟨passed, hpassed, ?_⟩
    rw [← Expression.passes_iff, hpassed, Except.ok.injEq]
  · intro column term hterm hpasses
    exact Expression.passes_iff.1 hpasses term (mem_of_bindingTerm? hterm)
  · intro stored keys hkeys column hcolumn
    obtain ⟨predicate, lists, heq, hbinds, -⟩ := exists_bindings hkeys
    obtain rfl := Option.some.inj heq
    obtain ⟨values, -, literals, -, hfound, -⟩ := exists_of_mem_left hbinds hcolumn
    obtain ⟨term, hterm, hbound⟩ := exists_bindingTerm? hfound
    exact ⟨literals, term, hfound, hterm, hbound⟩

/-- `REGION = 'us' AND ID = 7` looks up the user 7 and stops on a row that misses the regions. -/
theorem region_and_id_by_terms :
    let users := (Schema.empty.addKey "ID" .int8).addValue "REGION" .utf8
    let ids := Schema.empty.addKey "ID" .int8
    let region := Expression.equal (.named "REGION") (.literal (.utf8 "us"))
    let user := Expression.equal (.named "ID") (.literal (.int8 7))
    let filter := Expression.and region user
    ofFilter (some filter) users = .ok (.keys [[.int8 7]]) ∧
      user.passes users ⟨[.int8 7, .utf8 "us"]⟩ = .ok true ∧
      filter.evaluate ids ⟨[.int8 7]⟩ = .error (.missingColumn "REGION") := by
  intro users ids region user filter
  have hkeys : ofFilter (some filter) users = .ok (.keys [[.int8 7]]) := by decide +kernel
  obtain ⟨-, -, hpasses, hbinding, hlookup⟩ :=
    filter_decided_by_terms filter users ⟨[.int8 7, .utf8 "us"]⟩
  obtain ⟨-, hstops, -⟩ := filter_decided_by_terms filter ids ⟨[.int8 7]⟩
  obtain ⟨literals, term, -, hterm, -⟩ := hlookup users _ hkeys _ List.mem_cons_self
  obtain rfl : user = term := Option.some.inj hterm
  refine ⟨hkeys, hbinding _ _ hterm (by decide +kernel), (hstops _).2 ?_⟩
  exact ⟨[], region, [user], rfl, nofun, by decide +kernel⟩

end Terms

end StreamSql.KeyLookup
