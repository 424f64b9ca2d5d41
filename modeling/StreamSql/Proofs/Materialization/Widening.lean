import Mathlib.Data.List.Chain
import StreamSql.Proofs.Materialization.LatestRows
import StreamSql.Proofs.Schema

/-!
# Widening on the way through sinks

Values are widened to the types of the columns that they are written into. A type widens to another
exactly if all its values can be coerced to it (`Value.widensTo_iff`), and a value that has been
coerced comes to what the value itself would have come to (`Value.coerce?_trans`). So a row has the
same key in a sink whether it is written there directly or through other sinks
(`Schema.rowKey?_of_widenThrough?`), and rows that are written along a chain of compatible sinks get
through (`Schema.Holds.widenThrough?`). `Schema.fitting_order` puts these together with the order of
the schemas.
-/

namespace StreamSql

/-! ### Values -/

namespace Value

variable {v w x : Value} {s t : DataType}

theorem coerce?_trans (h : v.coerce? s = some w) (hx : w.coerce? t = some x) :
    v.coerce? t = some x := by
  cases v <;> cases s <;> simp [coerce?, type?] at h <;> subst h <;> cases t <;>
    simp_all [coerce?, type?]

theorem exists_type? (t : DataType) : ∃ v : Value, v.type? = some t := by
  cases t
  · exact ⟨.boolean false, rfl⟩
  · exact ⟨.int4 0, rfl⟩
  · exact ⟨.int8 0, rfl⟩
  · exact ⟨.float8 (.ofInt 0), rfl⟩
  · exact ⟨.utf8 "", rfl⟩

theorem exists_coerce?_iff (hs : v.type? = some s) :
    (∃ w, v.coerce? t = some w) ↔ s.widensTo t = true := by
  cases v <;> cases hs <;> cases t <;> simp [coerce?, type?, DataType.widensTo]

theorem widensTo_iff : s.widensTo t = true ↔
    ∀ v : Value, v.type? = some s → ∃ w, v.coerce? t = some w ∧ w.type? = some t := by
  constructor
  · intro h v hv
    obtain ⟨w, hw⟩ := (exists_coerce?_iff hv).2 h
    obtain ⟨rfl, -⟩ | ⟨-, htype⟩ := type?_coerced hw
    · cases hv
    · exact ⟨w, hw, htype⟩
  · intro h
    obtain ⟨v, hv⟩ := exists_type? s
    obtain ⟨w, hw, -⟩ := h v hv
    exact (exists_coerce?_iff hv).1 ⟨w, hw⟩

/-- Null is a value of every type. -/
def IsOf (v : Value) (t : DataType) : Prop := v = .null ∨ v.type? = some t

theorem IsOf.coerce? (h : v.IsOf s) (hwidens : s.widensTo t = true) :
    ∃ w, v.coerce? t = some w ∧ w.IsOf t := by
  rcases h with rfl | hs
  · exact ⟨.null, rfl, .inl rfl⟩
  · obtain ⟨w, hw, ht⟩ := widensTo_iff.1 hwidens v hs
    exact ⟨w, hw, .inr ht⟩

/-- Whatever `w` is coerced to, `v` comes to the same. -/
def WidensTo (v w : Value) : Prop := ∀ t x, w.coerce? t = some x → v.coerce? t = some x

theorem WidensTo.trans (h : v.WidensTo w) (hx : w.WidensTo x) : v.WidensTo x :=
  fun t y hy => h t y (hx t y hy)

end Value

/-! ### Rows -/

namespace Schema

variable {schema origin : Schema} {sinks : List Schema} {row written : Row} {key : List Value}

/-- The row as a sink of the schema takes it: every value widened to the type of its column. -/
def widen? (schema : Schema) (row : Row) : Option Row :=
  if row.width = schema.size then
    ((schema.columns.zip row.values).mapM fun place : Column × Value =>
      place.2.coerce? place.1.type).map Row.mk
  else none

/-- The row after it went through sinks, one after the other. -/
def widenThrough? (sinks : List Schema) (row : Row) : Option Row :=
  sinks.foldlM (fun row schema => schema.widen? row) row

/-- The row has a value for every column, null or of the type of the column. -/
def Holds (schema : Schema) (row : Row) : Prop :=
  List.Forall₂ (fun c v => v.IsOf c.type) schema.columns row.values

theorem widen?_eq_some_iff : schema.widen? row = some written ↔ row.width = schema.size ∧
    List.Forall₂ (fun (place : Column × Value) w => place.2.coerce? place.1.type = some w)
      (schema.columns.zip row.values) written.values := by
  rw [widen?, Option.ite_none_right_eq_some, Option.map_eq_some_iff]
  simp only [optionMapM_eq_some_iff]
  obtain ⟨values⟩ := written
  exact and_congr_right fun _ => ⟨fun ⟨_, h, heq⟩ => Row.mk.inj heq ▸ h, fun h => ⟨_, h, rfl⟩⟩

theorem values_of_widen? (h : schema.widen? row = some written) :
    List.Forall₂ Value.WidensTo row.values written.values := by
  obtain ⟨hwidth, hvalues⟩ := widen?_eq_some_iff.1 h
  have hsnd : (schema.columns.zip row.values).map (·.2) = row.values :=
    List.map_snd_zip (Nat.le_of_eq hwidth)
  rw [← hsnd, List.forall₂_map_left_iff]
  exact hvalues.imp fun _ _ hw t x hx => Value.coerce?_trans hw hx

theorem values_of_widenThrough? (h : widenThrough? sinks row = some written) :
    List.Forall₂ Value.WidensTo row.values written.values := by
  induction sinks generalizing row with
  | nil =>
    obtain rfl : row = written := Option.some.inj h
    exact List.forall₂_same.2 fun v _ t x hx => hx
  | cons schema rest ih =>
    obtain ⟨next, hnext, hrest⟩ := Option.bind_eq_some_iff.1 (List.foldlM_cons.symm.trans h)
    exact forall₂_trans (fun _ _ _ h h' => h.trans h') (values_of_widen? hnext) (ih hrest)

theorem forall₂_keyValues {R : Value → Value → Prop} {vs ws : List Value}
    (h : List.Forall₂ R vs ws) (columns : List Column) :
    List.Forall₂ R (((columns.zip vs).filter (·.1.isKey)).map (·.2))
      (((columns.zip ws).filter (·.1.isKey)).map (·.2)) := by
  induction h generalizing columns with
  | nil => simp
  | @cons v w _ _ hvw _ ih =>
    cases columns with
    | nil => exact .nil
    | cons column rest => cases hkey : column.isKey <;> simp [hkey, hvw, ih rest]

theorem key?_of_widensTo {vs ws : List Value} (h : List.Forall₂ Value.WidensTo vs ws)
    (hkey : schema.key? ws = some key) : schema.key? vs = some key := by
  obtain ⟨hlength, hmap⟩ := Option.ite_none_right_eq_some.1 hkey
  refine Option.ite_none_right_eq_some.2 ⟨h.length_eq.trans hlength, ?_⟩
  rw [optionMapM_eq_some_iff] at hmap ⊢
  clear hkey hlength
  generalize schema.keyColumns = columns at hmap ⊢
  induction h generalizing columns key with
  | nil => simpa using hmap
  | cons hvw _ ih =>
    cases columns with
    | nil => exact hmap
    | cons column rest =>
      cases hmap with
      | cons hfirst hothers => exact .cons (hvw _ _ hfirst) (ih _ hothers)

/-- **A row has the same key** in a sink whether it went through other sinks or not. -/
theorem rowKey?_of_widenThrough? (h : widenThrough? sinks row = some written)
    (hkey : schema.rowKey? written = some key) : schema.rowKey? row = some key := by
  have hvalues := values_of_widenThrough? h
  obtain ⟨hwidth, hkey⟩ := Option.ite_none_right_eq_some.1 hkey
  exact Option.ite_none_right_eq_some.2
    ⟨hvalues.length_eq.trans hwidth, key?_of_widensTo (forall₂_keyValues hvalues _) hkey⟩

/-! ### Rows that get through -/

theorem Holds.widen? (h : origin.Holds row) (hfits : origin.fitsInto schema = true) :
    ∃ written, schema.widen? row = some written ∧ schema.Holds written := by
  have hwidth : row.width = schema.size := h.length_eq.symm.trans (fitsInto_iff.1 hfits).length_eq
  have hvalues : ∀ {from' into : List Column} {values : List Value},
      List.Forall₂ (fun c d => c.fitsInto d = true) from' into →
      List.Forall₂ (fun c v => v.IsOf c.type) from' values →
      ∃ ws, List.Forall₂ (fun (place : Column × Value) w => place.2.coerce? place.1.type = some w)
          (into.zip values) ws ∧ List.Forall₂ (fun c w => w.IsOf c.type) into ws := by
    intro from' into values hcolumns
    induction hcolumns generalizing values with
    | nil =>
      intro hnil
      cases hnil
      exact ⟨[], .nil, .nil⟩
    | cons hcd _ ih =>
      rintro (_ | ⟨hv, hothers⟩)
      obtain ⟨w, hw, hof⟩ := hv.coerce? (Column.fitsInto_iff.1 hcd).2.2
      obtain ⟨ws, hws, hofs⟩ := ih hothers
      exact ⟨w :: ws, .cons hw hws, .cons hof hofs⟩
  obtain ⟨ws, hws, hofs⟩ := hvalues (fitsInto_iff.1 hfits) h
  exact ⟨⟨ws⟩, widen?_eq_some_iff.2 ⟨hwidth, hws⟩, hofs⟩

theorem Holds.rowKey? (h : schema.Holds row) : ∃ key, schema.rowKey? row = some key := by
  have hwidth : row.width = schema.size := h.length_eq.symm
  have hvalues := Materialization.forall₂_keyValues (m := ⟨schema, []⟩) hwidth
  have hcoerced : ∀ {columns : List Column} {values : List Value},
      List.Forall₂ (fun c v => (c, v) ∈ schema.columns.zip row.values) columns values →
      ∃ key, List.Forall₂ (fun (place : Column × Value) w => place.2.coerce? place.1.type = some w)
        (columns.zip values) key := by
    intro columns values hplaces
    induction hplaces with
    | nil => exact ⟨[], .nil⟩
    | cons hplace _ ih =>
      obtain ⟨w, hw, -⟩ := (List.forall₂_zip h hplace).coerce? (DataType.widensTo_self _)
      obtain ⟨key, hkey⟩ := ih
      exact ⟨w :: key, .cons hw hkey⟩
  obtain ⟨key, hkey⟩ := hcoerced hvalues
  refine ⟨key, Option.ite_none_right_eq_some.2 ⟨hwidth, Option.ite_none_right_eq_some.2
    ⟨hvalues.length_eq.symm, optionMapM_eq_some_iff.2 hkey⟩⟩⟩

theorem Holds.widenThrough? (h : origin.Holds row)
    (hchain : List.IsChain (fun a b => a.fitsInto b = true) (origin :: sinks)) :
    ∃ written, Schema.widenThrough? sinks row = some written ∧
      ((origin :: sinks).getLast nofun).Holds written := by
  induction sinks generalizing origin row with
  | nil => exact ⟨row, rfl, h⟩
  | cons schema rest ih =>
    obtain ⟨hfits, hrest⟩ := List.isChain_cons_cons.1 hchain
    obtain ⟨next, hnext, hholds⟩ := h.widen? hfits
    obtain ⟨written, hwritten, hlast⟩ := ih hholds hrest
    refine ⟨written, ?_, ?_⟩
    · exact Option.bind_eq_some_iff.2 ⟨next, hnext, hwritten⟩
    · simpa using hlast

/-! ### The order of schemas and the coercion of values -/

/-- **Compatibility is a partial order that the coercion of values follows**, and the key of a row
does not depend on the sinks that the row went through. -/
theorem fitting_order :
    (∀ s : Schema, s.fitsInto s = true) ∧
    (∀ a b c : Schema, a.fitsInto b = true → b.fitsInto c = true → a.fitsInto c = true) ∧
    (∀ a b : Schema, a.Built → b.Built → a.fitsInto b = true → b.fitsInto a = true → a = b) ∧
    (∀ s t : DataType, s.widensTo t = true ↔
      ∀ v : Value, v.type? = some s → ∃ w, v.coerce? t = some w ∧ w.type? = some t) ∧
    (∀ (v w x : Value) (s t : DataType), v.coerce? s = some w → w.coerce? t = some x →
      v.coerce? t = some x) ∧
    (∀ (sinks : List Schema) (last : Schema) (row written : Row) (key : List Value),
      Schema.widenThrough? sinks row = some written → last.rowKey? written = some key →
        last.rowKey? row = some key) ∧
    ∀ (origin : Schema) (sinks : List Schema) (last : Materialization) (row : Row),
      List.IsChain (fun a b => a.fitsInto b = true) (origin :: sinks ++ [last.schema]) →
        origin.Holds row → ∃ written key, Schema.widenThrough? sinks row = some written ∧
          last.put written = .ok (last.home key, last.setUnder key (some written)) ∧
          last.put row = .ok (last.home key, last.setUnder key (some row)) := by
  refine ⟨fitsInto_self, fun _ _ _ => fitsInto_trans, fun _ _ => fitsInto_antisymm,
    fun _ _ => Value.widensTo_iff, fun _ _ _ _ _ => Value.coerce?_trans,
    fun _ _ _ _ _ => rowKey?_of_widenThrough?, ?_⟩
  intro origin sinks last row hchain hholds
  obtain ⟨hsinks, -, hlast⟩ := List.isChain_append.1 hchain
  obtain ⟨written, hwritten, hheld⟩ := hholds.widenThrough? hsinks
  obtain ⟨kept, hkept, hkeptHolds⟩ := hheld.widen? (hlast _ (List.getLast_mem_getLast? _) _ rfl)
  obtain ⟨key, hkey⟩ := hkeptHolds.rowKey?
  have hlastKept : Schema.widenThrough? [last.schema] written = some kept := by
    simp [Schema.widenThrough?, hkept]
  have hwrittenKey := rowKey?_of_widenThrough? hlastKept hkey
  exact ⟨written, .encode key, hwritten, Materialization.put_of_rowKey? hwrittenKey,
    Materialization.put_of_rowKey? (rowKey?_of_widenThrough? hwritten hwrittenKey)⟩

end Schema

end StreamSql
