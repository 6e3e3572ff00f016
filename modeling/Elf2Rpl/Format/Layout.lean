import Elf2Rpl.Format.Bytes

/-! # Fixed-width records

The tool reads symbol tables and relocation tables by casting a section's byte
buffer to an array of big-endian records, and it reads and writes section
headers the same way. A `Layout` says how one record sits in bytes, with both
round trips as fields; `records` is the cast, and `mapRecords` rewrites every
whole record in place and leaves a trailing partial record alone.
-/

namespace Elf2Rpl

/-- The byte layout of a fixed-width record in which every byte belongs to a field. -/
structure Layout (α : Type) where
  width : Nat
  encode : α → List UInt8
  decode : List UInt8 → α
  width_pos : 0 < width
  length_encode : ∀ a, (encode a).length = width
  decode_take : ∀ bs, decode (bs.take width) = decode bs
  decode_encode : ∀ a rest, decode (encode a ++ rest) = a
  encode_decode : ∀ bs, bs.length = width → encode (decode bs) = bs

namespace Layout

variable {α β : Type}

/-- A big-endian word of `w` bytes, for a type that is `Nat` modulo `256 ^ w`. -/
def word (w : Nat) (hw : 0 < w) (ofNat : Nat → α) (toNat : α → Nat)
    (ofNat_toNat : ∀ a, ofNat (toNat a) = a)
    (toNat_ofNat : ∀ n, toNat (ofNat n) = n % 256 ^ w) : Layout α where
  width := w
  encode a := beBytes w (toNat a)
  decode bs := ofNat (beValue (bs.take w))
  width_pos := hw
  length_encode _ := length_beBytes _ _
  decode_take bs := by dsimp only; rw [List.take_take, Nat.min_self]
  decode_encode a rest := by
    have hlt : toNat a % 256 ^ w = toNat a := by rw [← toNat_ofNat, ofNat_toNat]
    dsimp only
    rw [List.take_left' (length_beBytes w _), beValue_beBytes, hlt, ofNat_toNat]
  encode_decode bs h := by
    have hv : beValue bs % 256 ^ w = beValue bs := Nat.mod_eq_of_lt (h ▸ beValue_lt bs)
    dsimp only
    rw [List.take_of_length_le (Nat.le_of_eq h), toNat_ofNat, hv, ← h, beBytes_beValue]

/-- `uint8_t`. -/
def u8 : Layout UInt8 :=
  word 1 Nat.one_pos UInt8.ofNat UInt8.toNat byte_ofNat_toNat (by simpa using byte_toNat_ofNat)

/-- A big-endian `uint16_t`. -/
def u16 : Layout UInt16 :=
  word 2 Nat.two_pos UInt16.ofNat UInt16.toNat u16_ofNat_toNat (by simp)

/-- A big-endian `uint32_t`. -/
def u32 : Layout UInt32 :=
  word 4 (by decide) UInt32.ofNat UInt32.toNat u32_ofNat_toNat (by simp)

/-- A count cast to `uint32_t` and stored big-endian is its four low bytes. -/
theorem u32_encode_ofNat (n : Nat) : u32.encode (UInt32.ofNat n) = beBytes 4 n :=
  beBytes_eq_of_mod (by rw [u32_toNat_ofNat]; exact Nat.mod_mod _ _)

/-- Two records side by side. -/
def prod (A : Layout α) (B : Layout β) : Layout (α × β) where
  width := A.width + B.width
  encode p := A.encode p.1 ++ B.encode p.2
  decode bs := (A.decode bs, B.decode (bs.drop A.width))
  width_pos := Nat.add_pos_left A.width_pos _
  length_encode p := by simp [A.length_encode, B.length_encode]
  decode_take bs := by
    have hA : (bs.take (A.width + B.width)).take A.width = bs.take A.width := by
      rw [List.take_take, Nat.min_eq_left (Nat.le_add_right _ _)]
    dsimp only
    rw [← A.decode_take, hA, A.decode_take, List.drop_take, Nat.add_sub_cancel_left, B.decode_take]
  decode_encode p rest := by
    dsimp only
    rw [List.append_assoc, A.decode_encode,
      List.drop_left' (A.length_encode _), B.decode_encode]
  encode_decode bs h := by
    have h1 : A.encode (A.decode bs) = bs.take A.width := by
      rw [← A.decode_take, A.encode_decode _ (by simp [h])]
    dsimp only
    rw [h1, B.encode_decode _ (by simp [h]), List.take_append_drop]

/-- A record carried by an equivalent type. -/
def map (A : Layout α) (f : α → β) (g : β → α) (gf : ∀ a, g (f a) = a)
    (fg : ∀ b, f (g b) = b) : Layout β where
  width := A.width
  encode b := A.encode (g b)
  decode bs := f (A.decode bs)
  width_pos := A.width_pos
  length_encode b := A.length_encode _
  decode_take bs := by dsimp only; rw [A.decode_take]
  decode_encode b rest := by dsimp only; rw [A.decode_encode, fg]
  encode_decode bs h := by dsimp only; rw [gf, A.encode_decode _ h]

variable (L : Layout α)

/-- The number of whole records a buffer holds, `data.size() / sizeof(T)`. -/
def count (d : List UInt8) : Nat := d.length / L.width

/-- The buffer cast to an array of records: record `i` starts at byte `i * width`. -/
def records (d : List UInt8) : List α :=
  (List.range (L.count d)).map fun i => L.decode (d.drop (i * L.width))

/-- The bytes after the last whole record. -/
def trailing (d : List UInt8) : List UInt8 := d.drop (L.count d * L.width)

/-- The bytes of consecutive records. -/
def encodeAll (rs : List α) : List UInt8 := rs.flatMap L.encode

/-- Rewrite every whole record of the buffer in place. -/
def mapRecords (g : α → α) (d : List UInt8) : List UInt8 :=
  L.encodeAll ((L.records d).map g) ++ L.trailing d

@[simp] theorem length_records (d : List UInt8) : (L.records d).length = L.count d := by
  simp [records]

@[simp] theorem length_encodeAll (rs : List α) : (L.encodeAll rs).length = rs.length * L.width := by
  induction rs with
  | nil => simp [encodeAll]
  | cons a rs ih =>
    simp only [encodeAll, List.flatMap_cons, List.length_append, L.length_encode] at ih ⊢
    rw [ih, List.length_cons, Nat.succ_mul, Nat.add_comm]

@[simp] theorem encodeAll_nil : L.encodeAll [] = [] := rfl

@[simp] theorem encodeAll_cons (a : α) (rs : List α) :
    L.encodeAll (a :: rs) = L.encode a ++ L.encodeAll rs := rfl

@[simp] theorem encodeAll_append (rs ts : List α) :
    L.encodeAll (rs ++ ts) = L.encodeAll rs ++ L.encodeAll ts := by
  simp [encodeAll]

theorem getElem_records (d : List UInt8) (i : Nat) (h : i < (L.records d).length) :
    (L.records d)[i] = L.decode (d.drop (i * L.width)) := by
  simp [records]

theorem records_of_lt {d : List UInt8} (h : d.length < L.width) : L.records d = [] := by
  simp [records, count, Nat.div_eq_of_lt h]

theorem trailing_of_lt {d : List UInt8} (h : d.length < L.width) : L.trailing d = d := by
  simp [trailing, count, Nat.div_eq_of_lt h]

theorem count_cons {d : List UInt8} (h : L.width ≤ d.length) :
    L.count d = L.count (d.drop L.width) + 1 := by
  rw [count, count, List.length_drop, Nat.div_eq_sub_div L.width_pos h]

/-- A buffer holding a whole record casts to that record followed by the rest. -/
theorem records_cons {d : List UInt8} (h : L.width ≤ d.length) :
    L.records d = L.decode d :: L.records (d.drop L.width) := by
  rw [records, L.count_cons h, List.range_succ_eq_map]
  simp only [List.map_cons, List.map_map, Nat.zero_mul, List.drop_zero, records]
  congr 1
  refine List.map_congr_left fun i _ => ?_
  simp [List.drop_drop, Nat.succ_mul, Nat.add_comm]

theorem trailing_cons {d : List UInt8} (h : L.width ≤ d.length) :
    L.trailing d = L.trailing (d.drop L.width) := by
  rw [trailing, trailing, L.count_cons h, List.drop_drop, Nat.succ_mul, Nat.add_comm]

theorem records_encode_append (a : α) (d : List UInt8) :
    L.records (L.encode a ++ d) = a :: L.records d := by
  rw [L.records_cons (by simp [L.length_encode]), L.decode_encode,
    List.drop_left' (L.length_encode a)]

theorem trailing_encode_append (a : α) (d : List UInt8) :
    L.trailing (L.encode a ++ d) = L.trailing d := by
  rw [L.trailing_cons (by simp [L.length_encode]), List.drop_left' (L.length_encode a)]

theorem records_encodeAll_append (rs : List α) {t : List UInt8} (ht : t.length < L.width) :
    L.records (L.encodeAll rs ++ t) = rs := by
  induction rs with
  | nil => exact L.records_of_lt ht
  | cons a rs ih => rw [encodeAll_cons, List.append_assoc, records_encode_append, ih]

theorem trailing_encodeAll_append (rs : List α) {t : List UInt8} (ht : t.length < L.width) :
    L.trailing (L.encodeAll rs ++ t) = t := by
  induction rs with
  | nil => exact L.trailing_of_lt ht
  | cons a rs ih => rw [encodeAll_cons, List.append_assoc, trailing_encode_append, ih]

theorem length_trailing_lt (d : List UInt8) : (L.trailing d).length < L.width := by
  have h1 := Nat.div_add_mod d.length L.width
  have h2 := Nat.mod_lt d.length L.width_pos
  simp only [trailing, count, List.length_drop]
  rw [Nat.mul_comm] at h1
  omega

/-- Every buffer is its whole records followed by its trailing bytes. -/
theorem encodeAll_records_append_trailing (d : List UInt8) :
    L.encodeAll (L.records d) ++ L.trailing d = d := by
  by_cases hw : L.width ≤ d.length
  · rw [L.records_cons hw, L.trailing_cons hw, encodeAll_cons, List.append_assoc,
      encodeAll_records_append_trailing (d.drop L.width), ← L.decode_take,
      L.encode_decode _ (by simp [hw]), List.take_append_drop]
  · rw [L.records_of_lt (by omega), L.trailing_of_lt (by omega)]
    rfl
termination_by d.length
decreasing_by simp only [List.length_drop]; have := L.width_pos; omega

@[simp] theorem records_mapRecords (g : α → α) (d : List UInt8) :
    L.records (L.mapRecords g d) = (L.records d).map g :=
  L.records_encodeAll_append _ (L.length_trailing_lt d)

@[simp] theorem trailing_mapRecords (g : α → α) (d : List UInt8) :
    L.trailing (L.mapRecords g d) = L.trailing d :=
  L.trailing_encodeAll_append _ (L.length_trailing_lt d)

@[simp] theorem length_mapRecords (g : α → α) (d : List UInt8) :
    (L.mapRecords g d).length = d.length := by
  conv_rhs => rw [← L.encodeAll_records_append_trailing d]
  simp [mapRecords]

theorem mapRecords_mapRecords (g h : α → α) (d : List UInt8) :
    L.mapRecords g (L.mapRecords h d) = L.mapRecords (g ∘ h) d := by
  rw [mapRecords, records_mapRecords, trailing_mapRecords, List.map_map, mapRecords]

theorem mapRecords_id (d : List UInt8) : L.mapRecords id d = d := by
  rw [mapRecords, List.map_id, encodeAll_records_append_trailing]

/-- Records appended after a whole number of records extend the cast array. -/
theorem records_append_encodeAll {d : List UInt8} (hd : L.trailing d = []) (rs : List α) :
    L.records (d ++ L.encodeAll rs) = L.records d ++ rs := by
  conv_lhs => rw [← L.encodeAll_records_append_trailing d, hd, List.append_nil,
    ← encodeAll_append, ← List.append_nil (L.encodeAll _)]
  exact L.records_encodeAll_append _ (by simp [L.width_pos])

end Layout

end Elf2Rpl
