import StreamSql.Key

/-!
# Keys tell values apart

No varint is a proper beginning of another one, and no encoded value of another one
(`Varint.encode_append_inj`, `EncodedKey.encodeValue_append_inj`). So the bytes of a key can be cut
into values in one way only, whatever follows them (`EncodedKey.encode_append_inj`), and different
values have different keys (`EncodedKey.encode_injective`).
-/

namespace StreamSql

theorem mod_eq_of_toUInt8_eq {m n : Nat} (h : m.toUInt8 = n.toUInt8) : m % 256 = n % 256 := by
  simpa using congrArg UInt8.toNat h

/-! ### Varints -/

namespace Varint

theorem encode_append_inj {m n : Nat} {xs ys : List UInt8}
    (h : encode m ++ xs = encode n ++ ys) : m = n ∧ xs = ys := by
  fun_induction encode m generalizing n with
  | case1 m hm =>
    rw [encode] at h
    split at h
    next hn =>
      obtain ⟨hbyte, hrest⟩ := List.cons.inj h
      have hmod := mod_eq_of_toUInt8_eq hbyte
      exact ⟨by omega, hrest⟩
    next hn =>
      have hmod := mod_eq_of_toUInt8_eq (List.cons.inj h).1
      omega
  | case2 m hm ih =>
    rw [encode.eq_def n] at h
    split at h
    next hn =>
      have hmod := mod_eq_of_toUInt8_eq (List.cons.inj h).1
      omega
    next hn =>
      obtain ⟨hbyte, hrest⟩ := List.cons.inj h
      have hmod := mod_eq_of_toUInt8_eq hbyte
      obtain ⟨hhigh, hrest⟩ := ih hrest
      exact ⟨by omega, hrest⟩

theorem zigzag_injective {m n : Int} (h : zigzag m = zigzag n) : m = n := by
  unfold zigzag at h
  split at h <;> split at h <;> omega

end Varint

namespace EncodedKey

/-! ### Values -/

theorem length_littleEndian (count n : Nat) : (littleEndian count n).length = count := by
  induction count generalizing n with
  | zero => rfl
  | succ count ih => rw [littleEndian, List.length_cons, ih]

theorem mod_eq_of_littleEndian_eq {count m n : Nat}
    (h : littleEndian count m = littleEndian count n) :
    m % Nat.pow 256 count = n % Nat.pow 256 count := by
  induction count generalizing m n with
  | zero => simp [Nat.mod_one]
  | succ count ih =>
    obtain ⟨hbyte, hrest⟩ := List.cons.inj h
    have hpow : Nat.pow 256 (count + 1) = 256 * Nat.pow 256 count := Nat.pow_succ'
    rw [hpow, Nat.mod_mul, Nat.mod_mul, mod_eq_of_toUInt8_eq hbyte, ih hrest]

theorem float_append_inj {x y : Binary64} {xs ys : List UInt8}
    (h : littleEndian 8 x.bits.toNat ++ xs = littleEndian 8 y.bits.toNat ++ ys) :
    x = y ∧ xs = ys := by
  obtain ⟨hbytes, hrest⟩ := List.append_inj h (by simp only [length_littleEndian])
  have hbits : ∀ z : Binary64, z.bits.toNat < Nat.pow 256 8 := fun z => z.bits.toNat_lt
  have hmod := mod_eq_of_littleEndian_eq hbytes
  rw [Nat.mod_eq_of_lt (hbits x), Nat.mod_eq_of_lt (hbits y)] at hmod
  obtain ⟨xbits⟩ := x
  obtain ⟨ybits⟩ := y
  exact ⟨congrArg Binary64.mk (UInt64.toNat_inj.1 hmod), hrest⟩

theorem text_append_inj {s t : String} {xs ys : List UInt8}
    (h : Varint.encode s.utf8ByteSize ++ (s.toUTF8.data.toList ++ xs) =
      Varint.encode t.utf8ByteSize ++ (t.toUTF8.data.toList ++ ys)) : s = t ∧ xs = ys := by
  obtain ⟨hsize, h⟩ := Varint.encode_append_inj h
  obtain ⟨hbytes, hrest⟩ := List.append_inj h hsize
  exact ⟨String.toByteArray_inj.1 (ByteArray.ext (Array.toList_inj.1 hbytes)), hrest⟩

/-- The number of a value's variant. -/
def variant : Value → Nat
  | .null => 0
  | .boolean _ => 1
  | .int4 _ => 2
  | .int8 _ => 3
  | .float8 _ => 4
  | .utf8 _ => 5

/-- The bytes behind the number of the variant. -/
def content : Value → List UInt8
  | .null => []
  | .boolean b => [if b then 1 else 0]
  | .int4 n => Varint.encode (Varint.zigzag n.toInt)
  | .int8 n => Varint.encode (Varint.zigzag n.toInt)
  | .float8 x => littleEndian 8 x.bits.toNat
  | .utf8 s => Varint.encode s.utf8ByteSize ++ s.toUTF8.data.toList

theorem encodeValue_eq (v : Value) : encodeValue v = Varint.encode (variant v) ++ content v := by
  cases v with
  | null => rw [encodeValue, content, List.append_nil, variant]
  | utf8 s => rw [encodeValue, content, List.append_assoc, variant]
  | _ => rfl

theorem encodeValue_append_inj {v w : Value} {xs ys : List UInt8}
    (h : encodeValue v ++ xs = encodeValue w ++ ys) : v = w ∧ xs = ys := by
  rw [encodeValue_eq, encodeValue_eq, List.append_assoc, List.append_assoc] at h
  obtain ⟨hvariant, h⟩ := Varint.encode_append_inj h
  cases v with
  | null =>
    cases w with
    | null => exact ⟨rfl, h⟩
    | _ => cases hvariant
  | boolean b =>
    cases w with
    | boolean c =>
      obtain ⟨hbyte, hrest⟩ := List.cons.inj h
      exact ⟨by cases b <;> cases c <;> simp_all, hrest⟩
    | _ => cases hvariant
  | int4 m =>
    cases w with
    | int4 n =>
      obtain ⟨hnumber, hrest⟩ := Varint.encode_append_inj h
      exact ⟨congrArg Value.int4 (Int32.toInt_inj.1 (Varint.zigzag_injective hnumber)), hrest⟩
    | _ => cases hvariant
  | int8 m =>
    cases w with
    | int8 n =>
      obtain ⟨hnumber, hrest⟩ := Varint.encode_append_inj h
      exact ⟨congrArg Value.int8 (Int64.toInt_inj.1 (Varint.zigzag_injective hnumber)), hrest⟩
    | _ => cases hvariant
  | float8 x =>
    cases w with
    | float8 y =>
      obtain ⟨rfl, hrest⟩ := float_append_inj h
      exact ⟨rfl, hrest⟩
    | _ => cases hvariant
  | utf8 s =>
    cases w with
    | utf8 t =>
      simp only [content, List.append_assoc] at h
      obtain ⟨rfl, hrest⟩ := text_append_inj h
      exact ⟨rfl, hrest⟩
    | _ => cases hvariant

/-! ### Keys -/

theorem encodeValues_append_inj {values others : List Value} {xs ys : List UInt8}
    (hlength : values.length = others.length)
    (h : values.flatMap encodeValue ++ xs = others.flatMap encodeValue ++ ys) :
    values = others ∧ xs = ys := by
  induction values generalizing others with
  | nil =>
    obtain rfl := List.length_eq_zero_iff.1 hlength.symm
    exact ⟨rfl, h⟩
  | cons v values ih =>
    cases others with
    | nil => cases hlength
    | cons w others =>
      rw [List.flatMap_cons, List.flatMap_cons, List.append_assoc, List.append_assoc] at h
      obtain ⟨rfl, hvalues⟩ := encodeValue_append_inj h
      obtain ⟨rfl, hrest⟩ := ih (Nat.succ.inj hlength) hvalues
      exact ⟨rfl, hrest⟩

theorem encode_append_inj {values others : List Value} {xs ys : List UInt8}
    (h : (encode values).bytes ++ xs = (encode others).bytes ++ ys) :
    values = others ∧ xs = ys := by
  rw [encode, encode, List.append_assoc, List.append_assoc] at h
  obtain ⟨hlength, hvalues⟩ := Varint.encode_append_inj h
  exact encodeValues_append_inj hlength hvalues

/-- **Keys tell values apart.** -/
theorem encode_injective {values others : List Value} (h : encode values = encode others) :
    values = others :=
  (encode_append_inj (congrArg (·.bytes ++ []) h)).1

end EncodedKey

end StreamSql
