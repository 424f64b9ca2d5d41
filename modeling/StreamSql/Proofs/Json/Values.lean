import StreamSql.Json.Catalog
import StreamSql.Proofs.Json.Forms

/-!
# Values and catalog commands are read back

A float is written as the hexadecimal digits of its bits. Since the digits give the number back
(`Hex.read?_text`), so does the text of a float, bit for bit. Everything else is put together from
the general forms.
-/

namespace StreamSql

/-! ### Hexadecimal numbers -/

namespace Hex

theorem digit?_digit {n : Nat} (h : n < 16) : digit? (digit n) = some n := by
  revert n
  decide

theorem length_digits (width n : Nat) : (digits width n).length = width := by
  induction width generalizing n with
  | zero => rfl
  | succ width ih => rw [digits, List.length_append, ih, List.length_singleton]

theorem ofDigits?_append_singleton (digits : List Char) (last : Char) :
    ofDigits? (digits ++ [last]) =
      (ofDigits? digits).bind fun n => (digit? last).map (16 * n + ·) := by
  simp [ofDigits?, List.foldlM_append]

theorem ofDigits?_digits (width n : Nat) :
    ofDigits? (digits width n) = some (n % Nat.pow 16 width) := by
  induction width generalizing n with
  | zero => simp [digits, ofDigits?, Nat.mod_one]
  | succ width ih =>
    have hpow : Nat.pow 16 (width + 1) = 16 * Nat.pow 16 width := Nat.pow_succ'
    rw [digits, ofDigits?_append_singleton, ih, digit?_digit (Nat.mod_lt n (by decide)),
      Option.bind_some, Option.map_some, hpow, Nat.mod_mul, Nat.add_comm]

theorem read?_text {width n : Nat} (h : n < Nat.pow 16 width) :
    read? width (text width n) = some n := by
  rw [read?, text, String.toList_ofList, if_pos (length_digits width n), ofDigits?_digits,
    Nat.mod_eq_of_lt h]

end Hex

/-! ### Values and schemas -/

/-- A float is read back bit for bit. -/
instance : LawfulForm Binary64 where
  ofJson_toJson x := by
    have hbits : x.bits.toNat < Nat.pow 16 16 := Nat.lt_of_lt_of_eq x.bits.toNat_lt (by decide)
    have hread : Hex.read? 16 (Hex.text 16 x.bits.toNat) = some x.bits.toNat :=
      Hex.read?_text hbits
    simp only [ofJson, toJson, Json.readText, bind, Except.bind, hread, UInt64.ofNat_toNat, pure,
      Except.pure]

instance : LawfulForm Value where
  ofJson_toJson v := by
    cases v with
    | null | boolean _ | utf8 _ => rfl
    | int4 n =>
      have hread : Json.readSigned 32 (.integer n.toInt) = .ok n.toInt :=
        Json.readSigned_integer n.le_toInt n.toInt_lt
      exact bind_eq_ok_iff.2 ⟨_, hread, congrArg (Except.ok ∘ Value.int4) (Int32.ofInt_toInt n)⟩
    | int8 n =>
      have hread : Json.readSigned 64 (.integer n.toInt) = .ok n.toInt :=
        Json.readSigned_integer n.le_toInt n.toInt_lt
      exact bind_eq_ok_iff.2 ⟨_, hread, congrArg (Except.ok ∘ Value.int8) (Int64.ofInt_toInt n)⟩
    | float8 x => exact bind_eq_ok_iff.2 ⟨x, ofJson_toJson x, rfl⟩

instance : NeverNull Value := ⟨fun v => by cases v <;> nofun⟩

instance : LawfulForm DataType := ⟨fun t => by cases t <;> rfl⟩

instance : LawfulForm ColumnRole := ⟨fun role => by cases role <;> rfl⟩

open Json (fieldAt_then)

instance : LawfulForm Column where
  ofJson_toJson _ :=
    fieldAt_then rfl <| fieldAt_then rfl <| fieldAt_then rfl <| fieldAt_then rfl rfl

instance : LawfulForm Schema where
  ofJson_toJson _ := fieldAt_then rfl rfl

/-! ### Catalog commands -/

instance : LawfulForm SourceName := ⟨fun _ => rfl⟩

instance : NeverNull SourceName := ⟨nofun⟩

instance : LawfulForm QueryId := ⟨fun _ => rfl⟩

instance : LawfulForm SourceKind := ⟨fun kind => by cases kind <;> rfl⟩

instance : LawfulForm Format := ⟨fun format => by cases format <;> rfl⟩

instance : LawfulForm CreateSource where
  ofJson_toJson _ :=
    fieldAt_then rfl <| fieldAt_then rfl <| fieldAt_then rfl <| fieldAt_then rfl <|
    fieldAt_then rfl <| fieldAt_then rfl <| fieldAt_then rfl <| fieldAt_then rfl <|
    fieldAt_then rfl rfl

instance : LawfulForm DropSource where
  ofJson_toJson _ := fieldAt_then rfl <| fieldAt_then rfl <| fieldAt_then rfl rfl

instance : LawfulForm AlterSource where
  ofJson_toJson _ := fieldAt_then rfl <| fieldAt_then rfl <| fieldAt_then rfl rfl

instance : LawfulForm CatalogCommand where
  ofJson_toJson command := by
    cases command with
    | create c => exact bind_eq_ok_iff.2 ⟨c, ofJson_toJson c, rfl⟩
    | drop c => exact bind_eq_ok_iff.2 ⟨c, ofJson_toJson c, rfl⟩
    | alter c => exact bind_eq_ok_iff.2 ⟨c, ofJson_toJson c, rfl⟩

instance : NeverNull CatalogCommand := ⟨fun command => by cases command <;> nofun⟩

end StreamSql
