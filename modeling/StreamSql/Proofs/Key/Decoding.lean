import StreamSql.Proofs.Key.Injective

/-!
# Keys are read back

A reader takes from the front of the bytes exactly what was written there and leaves the rest alone:
a varint (`Varint.decode_encode_append`), a value (`EncodedKey.decodeValue_append`), the values of a
key one after the other (`EncodedKey.decodeValues_append`). So a key gives its values back whatever
follows it, and no key is the beginning of another one (`EncodedKey.read_back`).

The lengths in a key are read as numbers of 64 bits. No list and no text in memory is longer, which
is what `EncodedKey.Addressable` says of values.
-/

namespace StreamSql

/-! ### Varints -/

namespace Varint

theorem decode_encode_append {width n : Nat} (h : n < Nat.pow 2 width) (rest : List UInt8) :
    decode width (encode n ++ rest) = .ok (n, rest) := by
  fun_induction encode n generalizing width with
  | case1 n hn =>
    have hbyte : n.toUInt8.toNat = n := by
      rw [Nat.toUInt8_eq, UInt8.toNat_ofNat']
      omega
    have hlow : n.toUInt8 < 128 := UInt8.lt_iff_toNat_lt.2 (by rwa [hbyte])
    rw [List.singleton_append, decode, if_pos hlow, hbyte, if_pos h]
  | case2 n hn ih =>
    have hbyte : (n % 128 + 128).toUInt8.toNat = n % 128 + 128 := by
      rw [Nat.toUInt8_eq, UInt8.toNat_ofNat']
      omega
    have hhigh : ¬(n % 128 + 128).toUInt8 < 128 := by
      rw [UInt8.lt_iff_toNat_lt, hbyte]
      exact Nat.not_lt.2 (Nat.le_add_left 128 _)
    -- a number of more than seven bits is not read with a width of seven or less
    have hwidth : ¬width ≤ 7 := fun hle =>
      hn (Nat.lt_of_lt_of_le h (Nat.pow_le_pow_right (by decide) hle))
    have hrest : n / 128 < Nat.pow 2 (width - 7) := by
      have hsum : width - 7 + 7 = width := Nat.sub_add_cancel (Nat.le_of_not_le hwidth)
      have hpow : Nat.pow 2 (width - 7 + 7) = Nat.pow 2 (width - 7) * 128 :=
        Nat.pow_add 2 (width - 7) 7
      rwa [Nat.div_lt_iff_lt_mul (by decide), ← hpow, hsum]
    rw [List.cons_append, decode, if_neg hhigh, if_neg hwidth, ih hrest, hbyte]
    simp only [Except.ok.injEq, Prod.mk.injEq, and_true]
    omega

theorem unzigzag_zigzag (n : Int) : unzigzag (zigzag n) = n := by
  unfold zigzag unzigzag
  split <;> split <;> omega

theorem zigzag_lt {bound : Nat} {n : Int} (hlow : -bound ≤ n) (hhigh : n < bound) :
    zigzag n < 2 * bound := by
  unfold zigzag
  split <;> omega

end Varint

namespace EncodedKey

variable {rest : List UInt8}

/-! ### Parts of a value -/

theorem takeNumber_encode {width n : Nat} (h : n < Nat.pow 2 width) :
    takeNumber width (Varint.encode n ++ rest) = .ok (n, rest) := by
  rw [takeNumber, Varint.decode_encode_append h]

theorem takeBytes_append (bytes rest : List UInt8) :
    takeBytes bytes.length (bytes ++ rest) = .ok (bytes, rest) := by
  rw [takeBytes, if_neg (by simp), List.take_left, List.drop_left]

theorem ofLittleEndian_littleEndian (count n : Nat) :
    ofLittleEndian (littleEndian count n) = n % Nat.pow 256 count := by
  induction count generalizing n with
  | zero => simp [littleEndian, ofLittleEndian, Nat.mod_one]
  | succ count ih =>
    have hstep : ofLittleEndian (littleEndian (count + 1) n) =
        n.toUInt8.toNat + 256 * ofLittleEndian (littleEndian count (n / 256)) := rfl
    have hbyte : n.toUInt8.toNat = n % 256 := UInt8.toNat_ofNat'
    have hpow : Nat.pow 256 (count + 1) = 256 * Nat.pow 256 count := Nat.pow_succ'
    rw [hstep, ih, hbyte, hpow, Nat.mod_mul]

theorem takeBytes_float (x : Binary64) :
    takeBytes 8 (littleEndian 8 x.bits.toNat ++ rest) =
      .ok (littleEndian 8 x.bits.toNat, rest) := by
  have htake := takeBytes_append (littleEndian 8 x.bits.toNat) rest
  rwa [length_littleEndian] at htake

theorem ofLittleEndian_float (x : Binary64) :
    (⟨.ofNat (ofLittleEndian (littleEndian 8 x.bits.toNat))⟩ : Binary64) = x := by
  have hbits : x.bits.toNat < Nat.pow 256 8 := x.bits.toNat_lt
  rw [ofLittleEndian_littleEndian, Nat.mod_eq_of_lt hbits, UInt64.ofNat_toNat]

theorem fromUTF8?_toUTF8 (s : String) :
    String.fromUTF8? ⟨s.toUTF8.data.toList.toArray⟩ = some s := by
  unfold String.fromUTF8?
  rw [String.toUTF8_eq_toByteArray, dif_pos s.isValidUTF8]
  rfl

/-! ### Values -/

/-- Values as memory with addresses of 64 bits can hold them. -/
structure Addressable (values : List Value) : Prop where
  length_lt : values.length < UInt64.size
  text_lt : ∀ s, .utf8 s ∈ values → s.utf8ByteSize < UInt64.size

theorem decodeValue_append {v : Value} (h : ∀ s, v = .utf8 s → s.utf8ByteSize < UInt64.size)
    (rest : List UInt8) : decodeValue (encodeValue v ++ rest) = .ok (v, rest) := by
  have hvariant : variant v < Nat.pow 2 32 := by cases v <;> simp [variant]
  rw [encodeValue_eq, List.append_assoc, decodeValue, takeNumber_encode hvariant]
  cases v with
  | null => rfl
  | boolean b => cases b <;> rfl
  | int4 n =>
    have hn : Varint.zigzag n.toInt < Nat.pow 2 32 := Varint.zigzag_lt n.le_toInt n.toInt_lt
    simp only [variant, content, bind, Except.bind, takeNumber_encode hn,
      Varint.unzigzag_zigzag, Int32.ofInt_toInt, pure, Except.pure]
  | int8 n =>
    have hn : Varint.zigzag n.toInt < Nat.pow 2 64 := Varint.zigzag_lt n.le_toInt n.toInt_lt
    simp only [variant, content, bind, Except.bind, takeNumber_encode hn,
      Varint.unzigzag_zigzag, Int64.ofInt_toInt, pure, Except.pure]
  | float8 x =>
    simp only [variant, content, bind, Except.bind, takeBytes_float, ofLittleEndian_float, pure,
      Except.pure]
  | utf8 s =>
    have htake : takeBytes s.utf8ByteSize (s.toUTF8.data.toList ++ rest) =
        .ok (s.toUTF8.data.toList, rest) := takeBytes_append s.toUTF8.data.toList rest
    have hs : s.utf8ByteSize < Nat.pow 2 64 := h s rfl
    simp only [variant, content, List.append_assoc, bind, Except.bind, takeNumber_encode hs, htake,
      fromUTF8?_toUTF8, pure, Except.pure]

theorem decodeValues_append {values : List Value}
    (h : ∀ s, .utf8 s ∈ values → s.utf8ByteSize < UInt64.size) (rest : List UInt8) :
    decodeValues values.length (values.flatMap encodeValue ++ rest) = .ok (values, rest) := by
  induction values with
  | nil => rfl
  | cons v values ih =>
    have hv := decodeValue_append (v := v) fun s hs => h s (hs ▸ List.mem_cons_self)
    have hvalues := ih fun s hs => h s (List.mem_cons_of_mem v hs)
    simp only [List.length_cons, List.flatMap_cons, List.append_assoc, decodeValues, hv, hvalues,
      bind, Except.bind, pure, Except.pure]

/-! ### Keys -/

theorem decode_encode_append {values : List Value} (h : Addressable values)
    (rest : List UInt8) : decode ⟨(encode values).bytes ++ rest⟩ = .ok values := by
  have hlength : values.length < Nat.pow 2 64 := h.length_lt
  simp only [decode, encode, List.append_assoc, takeNumber_encode hlength,
    decodeValues_append h.text_lt, bind, Except.bind, pure, Except.pure]

/-- **Keys are read back.** Whatever bytes follow a key, it gives its values back, a float bit for
bit. So different values have different keys, and no key is a proper beginning of another one. -/
theorem read_back :
    (∀ values rest, Addressable values → decode ⟨(encode values).bytes ++ rest⟩ = .ok values) ∧
      (∀ values others, encode values = encode others → values = others) ∧
      ∀ values others, (encode values).bytes <+: (encode others).bytes → values = others := by
  refine ⟨fun _ rest h => decode_encode_append h rest, fun _ _ => encode_injective, ?_⟩
  rintro values others ⟨rest, hrest⟩
  exact (encode_append_inj (hrest.trans (List.append_nil _).symm)).1

namespace Sample

/-- The least integers, a NaN that carries a payload, and a text of two-byte characters. -/
def extremes : List Value :=
  [.int4 (-2147483648), .int8 (-9223372036854775808), .float8 ⟨0xfff8000000000007⟩, .utf8 "åß",
    .boolean true, .null]

theorem extremes_read_back :
    Addressable extremes ∧ decode ⟨(encode extremes).bytes ++ [0, 255]⟩ = .ok extremes := by
  have haddressable : Addressable extremes := ⟨by decide, by simp [extremes]; decide⟩
  exact ⟨haddressable, read_back.1 extremes [0, 255] haddressable⟩

end Sample

end EncodedKey

end StreamSql
