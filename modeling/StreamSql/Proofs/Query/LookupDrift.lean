import StreamSql.Proofs.Query.KeyLookup
import StreamSql.Proofs.Query.Scope

/-!
# Lookups under two schemas

The lookup of a pull query is found twice: from the schema of the entry when the query is planned,
and from that of the stored rows when it is bound. The key columns are gone through in their order,
and the first one that no term binds ends the matter with a scan, the first one whose literals are
no values of its type with an error (`serves_true_iff`, `serves_false_iff`). So the two may differ
if the key columns do. `Schema.Agrees` says exactly which key columns are safe: there, whatever is
planned can be bound (`serves_of_planned`), and elsewhere some filter can be planned and not be
bound (`exists_unserved`).
-/

namespace StreamSql

namespace KeyLookup

variable {terms : List Expression} {column : Column} {columns rest : List Column} {name : String}

/-! ### Going through the key columns -/

/-- A term binds the name. -/
def Bound (terms : List Expression) (name : String) : Prop :=
  (terms.findSome? (boundValues? name)).isSome = true

/-- The literals of the term that binds the column are values of its type. -/
def Fits (terms : List Expression) (column : Column) : Prop :=
  ∃ literals, terms.findSome? (boundValues? column.name) = some literals ∧
    ∀ l ∈ literals, ∃ v, keyValue column l = .ok v

/-- Behind columns whose literals fit, there is one whose literals do not. -/
def Refuses (terms : List Expression) (columns : List Column) : Prop :=
  ∃ before column after, columns = before ++ column :: after ∧ (∀ b ∈ before, Fits terms b) ∧
    Bound terms column.name ∧ ¬Fits terms column

theorem Fits.bound (h : Fits terms column) : Bound terms column.name := by
  obtain ⟨literals, hliterals, -⟩ := h
  rw [Bound, hliterals]
  rfl

theorem bindings_cons_of_fits (h : Fits terms column) :
    ∃ first, ∀ rest, bindings terms (column :: rest) =
      (bindings terms rest).map (Option.map (first :: ·)) := by
  obtain ⟨literals, hliterals, hvalues⟩ := h
  obtain ⟨values, hmap⟩ := exists_mapM_eq_ok_iff.2 hvalues
  refine ⟨distinct values, fun rest => ?_⟩
  rw [bindings, hliterals]
  simp only [hmap, bind, Except.bind]
  cases bindings terms rest <;> rfl

theorem bindings_cons_of_unbound (h : ¬Bound terms column.name) :
    bindings terms (column :: rest) = .ok none := by
  rw [Bound, Bool.not_eq_true, Option.isSome_eq_false_iff, Option.isNone_iff_eq_none] at h
  rw [bindings, h]
  rfl

theorem bindings_cons_of_unfit (hbound : Bound terms column.name) (h : ¬Fits terms column) :
    ∃ e, bindings terms (column :: rest) = .error e := by
  obtain ⟨literals, hliterals⟩ := Option.isSome_iff_exists.1 hbound
  cases hmap : literals.mapM (keyValue column) with
  | error e =>
    refine ⟨e, ?_⟩
    rw [bindings, hliterals]
    simp only [hmap, bind, Except.bind]
  | ok values => exact absurd ⟨literals, hliterals, exists_mapM_eq_ok_iff.1 ⟨values, hmap⟩⟩ h

theorem refuses_cons_iff : Refuses terms (column :: rest) ↔
    (Bound terms column.name ∧ ¬Fits terms column) ∨ (Fits terms column ∧ Refuses terms rest) := by
  constructor
  · rintro ⟨before, c, after, heq, hbefore, hbound, hunfit⟩
    cases before with
    | nil =>
      obtain ⟨rfl, -⟩ := List.cons.inj heq
      exact .inl ⟨hbound, hunfit⟩
    | cons b before =>
      obtain ⟨rfl, rfl⟩ := List.cons.inj heq
      obtain ⟨hb, hbefore⟩ := List.forall_mem_cons.1 hbefore
      exact .inr ⟨hb, before, c, after, rfl, hbefore, hbound, hunfit⟩
  · rintro (⟨hbound, hunfit⟩ | ⟨hfits, before, c, after, rfl, hbefore, hbound, hunfit⟩)
    · exact ⟨[], column, rest, rfl, nofun, hbound, hunfit⟩
    · exact ⟨column :: before, c, after, rfl, List.forall_mem_cons.2 ⟨hfits, hbefore⟩, hbound,
        hunfit⟩

theorem refuses_of_bound {before after : List Column} (hbefore : ∀ b ∈ before, Bound terms b.name)
    (hbound : Bound terms column.name) (hunfit : ¬Fits terms column) :
    Refuses terms (before ++ column :: after) := by
  induction before with
  | nil => exact ⟨[], column, after, rfl, nofun, hbound, hunfit⟩
  | cons b before ih =>
    obtain ⟨hb, hbefore⟩ := List.forall_mem_cons.1 hbefore
    rw [List.cons_append, refuses_cons_iff]
    by_cases hfits : Fits terms b
    · exact .inr ⟨hfits, ih hbefore⟩
    · exact .inl ⟨hb, hfits⟩

theorem bindings_error_iff : (∃ e, bindings terms columns = .error e) ↔ Refuses terms columns := by
  induction columns with
  | nil =>
    refine iff_of_false (fun ⟨e, h⟩ => nomatch h) ?_
    rintro ⟨before, c, after, heq, -⟩
    exact absurd heq (by simp)
  | cons column rest ih =>
    rw [refuses_cons_iff]
    by_cases hfits : Fits terms column
    · obtain ⟨first, hcons⟩ := bindings_cons_of_fits hfits
      rw [hcons, or_iff_right fun h => h.2 hfits, and_iff_right hfits, ← ih]
      cases bindings terms rest <;> simp [Except.map]
    · rw [or_iff_left fun h => hfits h.1]
      by_cases hbound : Bound terms column.name
      · exact iff_of_true (bindings_cons_of_unfit hbound hfits) ⟨hbound, hfits⟩
      · rw [bindings_cons_of_unbound hbound]
        exact iff_of_false (fun ⟨e, h⟩ => nomatch h) fun h => hbound h.1

theorem bindings_some_iff :
    (∃ lists, bindings terms columns = .ok (some lists)) ↔ ∀ c ∈ columns, Fits terms c := by
  induction columns with
  | nil => exact iff_of_true ⟨[], rfl⟩ nofun
  | cons column rest ih =>
    rw [List.forall_mem_cons, ← ih]
    by_cases hfits : Fits terms column
    · obtain ⟨first, hcons⟩ := bindings_cons_of_fits hfits
      rw [hcons, and_iff_right hfits]
      rcases bindings terms rest with e | (_ | lists) <;> simp [Except.map]
    · refine iff_of_false ?_ fun h => hfits h.1
      rintro ⟨lists, hlists⟩
      by_cases hbound : Bound terms column.name
      · obtain ⟨e, herror⟩ : ∃ e, bindings terms (column :: rest) = .error e :=
          bindings_cons_of_unfit hbound hfits
        cases herror.symm.trans hlists
      · cases (bindings_cons_of_unbound hbound).symm.trans hlists

/-! ### Whole filters -/

variable {schema : Schema} {scans : Bool} {filter : Option Expression}

/-- There is a lookup for the filter over rows of the schema, and one by keys unless scans are
allowed. -/
def Serves (schema : Schema) (scans : Bool) (filter : Option Expression) : Prop :=
  ∃ lookup, ofFilter filter schema = .ok lookup ∧ (lookup.isScan = true → scans = true)

theorem ofFilter_some {f : Expression} (hkeys : schema.keyColumns ≠ []) :
    ofFilter (some f) schema = (bindings f.conjuncts schema.keyColumns).map fun lists =>
      lists.elim .scan fun lists => .keys (combinations lists) := by
  unfold ofFilter
  simp only
  rw [if_neg (by simpa using hkeys)]
  rcases bindings f.conjuncts schema.keyColumns with e | (_ | lists) <;> rfl

theorem ofFilter_of_unkeyed {f : Expression} (hkeys : schema.keyColumns = []) :
    ofFilter (some f) schema = .ok .scan := by
  unfold ofFilter
  simp only
  rw [if_pos (by simpa using hkeys)]
  rfl

theorem serves_true_iff :
    Serves schema true filter ↔ ∀ f ∈ filter, ¬Refuses f.conjuncts schema.keyColumns := by
  cases filter with
  | none => exact iff_of_true ⟨.scan, rfl, fun _ => rfl⟩ nofun
  | some f =>
    simp only [Option.mem_some_iff, forall_eq', Serves, implies_true, and_true]
    rw [← bindings_error_iff]
    by_cases hkeys : schema.keyColumns = []
    · rw [ofFilter_of_unkeyed hkeys, hkeys]
      exact iff_of_true ⟨.scan, rfl⟩ fun ⟨e, h⟩ => nomatch h
    · rw [ofFilter_some hkeys]
      cases bindings f.conjuncts schema.keyColumns <;> simp [Except.map]

theorem serves_false_iff :
    Serves schema false filter ↔
      schema.keyColumns ≠ [] ∧ ∃ f ∈ filter, ∀ c ∈ schema.keyColumns, Fits f.conjuncts c := by
  simp only [Serves, Bool.false_eq_true, imp_false, Bool.not_eq_true]
  cases filter with
  | none =>
    refine iff_of_false ?_ fun ⟨_, f, hf, _⟩ => nomatch hf
    rintro ⟨lookup, hlookup, hscan⟩
    cases hlookup
    cases hscan
  | some f =>
    by_cases hkeys : schema.keyColumns = []
    · rw [ofFilter_of_unkeyed hkeys]
      refine iff_of_false ?_ fun h => h.1 hkeys
      rintro ⟨lookup, hlookup, hscan⟩
      cases hlookup
      cases hscan
    · rw [ofFilter_some hkeys, and_iff_right hkeys]
      simp only [Option.mem_some_iff, exists_eq_left', ← bindings_some_iff]
      rcases bindings f.conjuncts schema.keyColumns with e | (_ | lists) <;>
        simp [Except.map, isScan]

/-! ### Literals for key columns -/

/-- A literal of a type. -/
def sampleOf : DataType → Value
  | .boolean => .boolean false
  | .int4 => .int4 0
  | .int8 => .int8 0
  | .float8 => .float8 (.ofInt 0)
  | .utf8 => .utf8 ""

theorem exists_keyValue_sampleOf_iff {type : DataType} :
    (∃ v, keyValue column (sampleOf type) = .ok v) ↔ type.widensTo column.type = true := by
  obtain ⟨name, target, role, index⟩ := column
  cases type <;> cases target <;>
    simp [keyValue, sampleOf, Value.coerce?, DataType.widensTo, Value.isNull, Value.type?]

theorem keyValue_null (v : Value) : keyValue column .null ≠ .ok v := by
  simp [keyValue, Value.coerce?, Value.isNull]

theorem exists_keyValue_of_widensTo {narrow wide : Column} {l : Value}
    (h : narrow.type.widensTo wide.type = true) (hl : ∃ v, keyValue narrow l = .ok v) :
    ∃ v, keyValue wide l = .ok v := by
  obtain ⟨narrowName, narrow, narrowRole, narrowIndex⟩ := narrow
  obtain ⟨wideName, wide, wideRole, wideIndex⟩ := wide
  cases l <;> cases narrow <;> cases wide <;>
    simp [keyValue, Value.coerce?, DataType.widensTo, Value.isNull, Value.type?] at h hl ⊢

theorem Fits.of_widensTo {narrow wide : Column} (h : Fits terms narrow)
    (hname : narrow.name = wide.name) (hwidens : narrow.type.widensTo wide.type = true) :
    Fits terms wide := by
  obtain ⟨literals, hliterals, hvalues⟩ := h
  exact ⟨literals, hname ▸ hliterals, fun l hl =>
    exists_keyValue_of_widensTo hwidens (hvalues l hl)⟩

/-- The filter `first = v AND ...` over some names, with a literal for each of them. -/
def asking (literal : String → Value) (first : String) (rest : List String) : Expression :=
  rest.foldl (fun e name => .and e (.equal (.named name) (.literal (literal name))))
    (.equal (.named first) (.literal (literal first)))

section Asking

variable {literal : String → Value} {first : String} {others : List String}

theorem conjuncts_asking : (asking literal first others).conjuncts =
    (first :: others).map fun name => .equal (.named name) (.literal (literal name)) := by
  have hfold : ∀ e : Expression, (others.foldl (fun e name =>
      .and e (.equal (.named name) (.literal (literal name)))) e).conjuncts = e.conjuncts ++
        others.map fun name => .equal (.named name) (.literal (literal name)) := by
    induction others with
    | nil => exact fun e => (List.append_nil _).symm
    | cons name rest ih =>
      intro e
      rw [List.foldl_cons, ih, Expression.conjuncts, List.append_assoc]
      rfl
  exact hfold _

theorem findSome?_asking (names : List String) (name : String) :
    (names.map fun n => Expression.equal (.named n) (.literal (literal n))).findSome?
      (boundValues? name) = if name ∈ names then some [literal name] else none := by
  have hbinds : ∀ n v, boundValues? name (.equal (.named n) (.literal v)) =
      if n = name then some [v] else none := fun _ _ => rfl
  induction names with
  | nil => rfl
  | cons n rest ih =>
    rw [List.map_cons, List.findSome?_cons, hbinds]
    by_cases hn : n = name
    · rw [if_pos hn, if_pos (hn ▸ List.mem_cons_self), hn]
    · rw [if_neg hn, ih]
      simp only [List.mem_cons, Ne.symm hn, false_or]

theorem bound_asking_iff :
    Bound (asking literal first others).conjuncts name ↔ name ∈ first :: others := by
  rw [Bound, conjuncts_asking, findSome?_asking]
  split <;> simp_all

theorem fits_asking_iff : Fits (asking literal first others).conjuncts column ↔
    column.name ∈ first :: others ∧ ∃ v, keyValue column (literal column.name) = .ok v := by
  rw [Fits, conjuncts_asking, findSome?_asking]
  split
  next hmem => simp [hmem]
  next hnot => simp [hnot]

end Asking

end KeyLookup

/-! ### Filters that can be planned -/

namespace Schema

/-- The type of the column of a name. -/
def typeNamed (s : Schema) (name : String) : DataType :=
  ((s.find? name).map (·.type)).getD .boolean

theorem Sole.typeNamed {s : Schema} {c : Column} (h : s.Sole c.name) (hc : c ∈ s.columns) :
    s.typeNamed c.name = c.type := by
  rw [Schema.typeNamed, h.find?_eq hc]
  rfl

theorem mem_columns {s : Schema} {c : Column} (h : c ∈ s.keyColumns) : c ∈ s.columns :=
  (List.mem_filter.1 h).1

/-- Where filters have to bind all key columns of the entry: if filters can do so, then they bind
those of the stored rows as well. -/
def KeysCover (entry state : Schema) : Prop :=
  entry.keyColumns ≠ [] → (∀ c ∈ entry.keyColumns, entry.Sole c.name) →
    state.keyColumns ≠ [] ∧ ∀ key ∈ state.keyColumns, ∃ c ∈ entry.keyColumns,
      c.name = key.name ∧ c.type.widensTo key.type = true

/-- Where filters need not bind all key columns: a key column of the stored rows that a filter can
get to is one of the entry that a filter gets to there with the same columns. -/
def KeysFollow (entry state : Schema) : Prop :=
  ∀ before key after, state.keyColumns = before ++ key :: after →
    (∀ c ∈ before ++ [key], entry.Sole c.name) →
    ∃ first c rest, entry.keyColumns = first ++ c :: rest ∧ c.name = key.name ∧
      c.type.widensTo key.type = true ∧ ∀ b ∈ first, b.name ∈ before.map (·.name)

/-- Filters that can be planned on the entry can be bound to rows of the schema `state`. -/
def Agrees (entry state : Schema) (scans : Bool) : Prop :=
  if scans then KeysFollow entry state else KeysCover entry state

end Schema

namespace KeyLookup

variable {entry state : Schema} {scans : Bool} {filter : Option Expression}

/-- The planner finds a lookup for the filter, whose columns are those of the entry. -/
structure Planned (entry : Schema) (scans : Bool) (filter : Option Expression) : Prop where
  sole : ∀ f ∈ filter, ∀ name, Bound f.conjuncts name → entry.Sole name
  serves : Serves entry scans filter

theorem serves_of_keysCover (h : entry.KeysCover state) (hplanned : Planned entry false filter) :
    Serves state false filter := by
  obtain ⟨hkeyed, f, hf, hfits⟩ := serves_false_iff.1 hplanned.serves
  obtain ⟨hstate, hcovers⟩ := h hkeyed fun c hc => hplanned.sole f hf _ (hfits c hc).bound
  refine serves_false_iff.2 ⟨hstate, f, hf, fun key hkey => ?_⟩
  obtain ⟨c, hc, hname, hwidens⟩ := hcovers key hkey
  exact (hfits c hc).of_widensTo hname hwidens

theorem serves_of_keysFollow (h : entry.KeysFollow state) (hplanned : Planned entry true filter) :
    Serves state true filter := by
  refine serves_true_iff.2 fun f hf => ?_
  rintro ⟨before, key, after, hsplit, hbefore, hbound, hunfit⟩
  have hsole : ∀ c ∈ before ++ [key], entry.Sole c.name := by
    intro c hc
    refine hplanned.sole f hf _ ?_
    rcases List.mem_append.1 hc with hc | hc
    · exact (hbefore c hc).bound
    · exact List.mem_singleton.1 hc ▸ hbound
  obtain ⟨first, c, rest, hentry, hname, hwidens, hfirst⟩ := h before key after hsplit hsole
  have hreached : ∀ b ∈ first, Bound f.conjuncts b.name := by
    intro b hb
    obtain ⟨c, hc, heq⟩ := List.mem_map.1 (hfirst b hb)
    exact heq ▸ (hbefore c hc).bound
  -- The planner gets to the column, and the literals do not fit there either.
  have hunfit : ¬Fits f.conjuncts c := fun hfits => hunfit (hfits.of_widensTo hname hwidens)
  refine serves_true_iff.1 hplanned.serves f hf ?_
  rw [hentry]
  exact refuses_of_bound hreached (hname ▸ hbound) hunfit

theorem serves_of_planned (h : entry.Agrees state scans) (hplanned : Planned entry scans filter) :
    Serves state scans filter := by
  cases scans with
  | false => exact serves_of_keysCover h hplanned
  | true => exact serves_of_keysFollow h hplanned

/-! ### Filters that cannot be bound -/

/-- A filter over names of the entry that can be planned, and not be bound to rows of the schema
`state`. -/
structure Unserved (entry state : Schema) (scans : Bool) (literal : String → Value)
    (first : String) (others : List String) : Prop where
  sole : ∀ name ∈ first :: others, entry.Sole name
  planned : Serves entry scans (some (asking literal first others))
  unserved : ¬Serves state scans (some (asking literal first others))

/-- A literal for each name, of the type that its column has in the entry. -/
def samples (entry : Schema) (name : String) : Value := sampleOf (entry.typeNamed name)

theorem exists_keyValue_samples {c key : Column} (hsole : entry.Sole c.name)
    (hc : c ∈ entry.columns) (hname : c.name = key.name) :
    (∃ v, keyValue key (samples entry key.name) = .ok v) ↔ c.type.widensTo key.type = true := by
  rw [samples, ← hname, hsole.typeNamed hc]
  exact exists_keyValue_sampleOf_iff

theorem exists_unserved_of_not_keysCover (h : ¬entry.KeysCover state) :
    ∃ literal first others, Unserved entry state false literal first others := by
  simp only [Schema.KeysCover, not_forall] at h
  obtain ⟨hkeyed, hsole, hcovers⟩ := h
  obtain ⟨column, rest, hkeys⟩ := List.exists_cons_of_ne_nil hkeyed
  have hnames : column.name :: rest.map (·.name) = entry.keyColumns.map (·.name) := by
    rw [hkeys, List.map_cons]
  refine ⟨samples entry, column.name, rest.map (·.name), fun name hname => ?_, ?_, ?_⟩
  · rw [hnames] at hname
    obtain ⟨c, hc, rfl⟩ := List.mem_map.1 hname
    exact hsole c hc
  · refine serves_false_iff.2 ⟨hkeyed, _, rfl, fun c hc => fits_asking_iff.2 ⟨?_, ?_⟩⟩
    · rw [hnames]
      exact List.mem_map_of_mem hc
    · exact (exists_keyValue_samples (hsole c hc) (Schema.mem_columns hc) rfl).2
        (DataType.widensTo_self _)
  · intro hserves
    obtain ⟨hstate, f, hf, hfits⟩ := serves_false_iff.1 hserves
    obtain rfl := Option.mem_some_iff.1 hf
    refine hcovers ⟨hstate, fun key hkey => ?_⟩
    obtain ⟨hmem, hvalue⟩ := fits_asking_iff.1 (hfits key hkey)
    rw [hnames] at hmem
    obtain ⟨c, hc, hname⟩ := List.mem_map.1 hmem
    exact ⟨c, hc, hname,
      (exists_keyValue_samples (hsole c hc) (Schema.mem_columns hc) hname).1 hvalue⟩

/-- A filter that binds a key column of the rows with all those before it, where the planner either
does not get to that column or takes the literal that the rows do not have. -/
theorem exists_unserved_of_not_keysFollow (h : ¬entry.KeysFollow state) :
    ∃ literal first others, Unserved entry state true literal first others := by
  simp only [Schema.KeysFollow, not_forall] at h
  obtain ⟨before, key, after, hstate, hsole, hfollows⟩ := h
  have hnames : ∀ name ∈ key.name :: before.map (·.name), entry.Sole name := by
    intro name hname
    rcases List.mem_cons.1 hname with rfl | hname
    · exact hsole key (by simp)
    · obtain ⟨c, hc, rfl⟩ := List.mem_map.1 hname
      exact hsole c (by simp [hc])
  -- Binding all these columns gets the rows to the key column, so a literal that does not fit there
  -- is refused.
  have hrefused : ∀ literal : String → Value, (¬∃ v, keyValue key (literal key.name) = .ok v) →
      ¬Serves state true (some (asking literal key.name (before.map (·.name)))) := by
    intro literal hunfit hserves
    refine serves_true_iff.1 hserves _ rfl ?_
    rw [hstate]
    refine refuses_of_bound (fun b hb => bound_asking_iff.2 ?_) (bound_asking_iff.2 ?_)
      fun hfits => hunfit (fits_asking_iff.1 hfits).2
    · exact List.mem_cons_of_mem _ (List.mem_map_of_mem hb)
    · exact List.mem_cons_self
  by_cases hreached : ∃ first c rest, entry.keyColumns = first ++ c :: rest ∧ c.name = key.name ∧
      ∀ b ∈ first, b.name ∈ before.map (·.name)
  · -- The planner gets there too, so the column is of a type that does not widen.
    obtain ⟨first, c, rest, hentry, hname, hfirst⟩ := hreached
    refine ⟨samples entry, key.name, before.map (·.name), hnames, ?_, hrefused _ ?_⟩
    · refine serves_true_iff.2 fun f hf => ?_
      obtain rfl := Option.mem_some_iff.1 hf
      rintro ⟨earlier, d, later, hkeys, -, hbound, hunfit⟩
      have hmem := bound_asking_iff.1 hbound
      have hd : d ∈ entry.columns := Schema.mem_columns (by simp [hkeys])
      exact hunfit (fits_asking_iff.2 ⟨hmem,
        (exists_keyValue_samples (hnames _ hmem) hd rfl).2 (DataType.widensTo_self _)⟩)
    · have hc : c ∈ entry.columns := Schema.mem_columns (by simp [hentry])
      rw [exists_keyValue_samples (hname ▸ hnames _ List.mem_cons_self) hc hname]
      exact fun hwidens => hfollows ⟨first, c, rest, hentry, hname, hwidens, hfirst⟩
  · -- The planner does not get there, so the literal may be null.
    refine ⟨fun name => if name = key.name then .null else samples entry name, key.name,
      before.map (·.name), hnames, ?_, hrefused _ ?_⟩
    · refine serves_true_iff.2 fun f hf => ?_
      obtain rfl := Option.mem_some_iff.1 hf
      rintro ⟨earlier, d, later, hkeys, hearlier, hbound, hunfit⟩
      have hmem := bound_asking_iff.1 hbound
      have hd : d ∈ entry.columns := Schema.mem_columns (by simp [hkeys])
      by_cases hname : d.name = key.name
      · refine hreached ⟨earlier, d, later, hkeys, hname, fun b hb => ?_⟩
        obtain ⟨hb, v, hv⟩ := fits_asking_iff.1 (hearlier b hb)
        rcases List.mem_cons.1 hb with heq | hb
        · rw [if_pos heq] at hv
          exact absurd hv (keyValue_null v)
        · exact hb
      · refine hunfit (fits_asking_iff.2 ⟨hmem, ?_⟩)
        rw [if_neg hname]
        exact (exists_keyValue_samples (hnames _ hmem) hd rfl).2 (DataType.widensTo_self _)
    · rw [if_pos rfl]
      exact fun ⟨v, hv⟩ => keyValue_null v hv

/-- **What can be planned and not be bound**, if the key columns do not agree. -/
theorem exists_unserved (h : ¬entry.Agrees state scans) :
    ∃ literal first others, Unserved entry state scans literal first others := by
  cases scans with
  | false => exact exists_unserved_of_not_keysCover h
  | true => exact exists_unserved_of_not_keysFollow h

end KeyLookup

end StreamSql
