/-
**AMF0 values.**

`src/rtmp/amf0.cpp` encodes and decodes the values that commands are made of.  A value is a null, a
number, a boolean, a string or an object, and an object is a `std::map` from strings to values.
The model of a map is the list of its entries in increasing order of their keys; a `Value` carries
the proof that all its objects are such lists, so that equal values are equal.

Strings are byte strings, and a number is given by the 64 bits of the `double`.

Main definitions:

* `Amf0.Raw`, `Amf0.Value`, `Amf0.ObjectType` — values, and the maps of objects;
* `Amf0.encode`, `Amf0.encodeArray` — `encode`, `encode_array`;
* `Amf0.decodeValue`, `Amf0.decodeProperty` — what `decode_impl` does with a value, and its loop with a
  property of an object;
* `Amf0.decodeImpl`, `Amf0.decodeProperties`, `Amf0.decode`, `Amf0.decodeArray` — `decode_impl`, its
  loop, `decode` and `decode_array`;
* `Amf0.Raw.Bounded` — all strings and keys are short enough for their length fields.

Main results:

* `Amf0.decodeImpl_encode` — **what is encoded is decoded**, whatever follows it;
* `Amf0.decodeImpl_bounded` — whatever is decoded is bounded.
-/

import RtmpTranscoder.Bytes
import RtmpTranscoder.OrderedMap

set_option relaxedAutoImplicit false
set_option autoImplicit false

open Rtmp (Failure byteAt bytesAt)

namespace Amf0

/-! ### Values -/

/-- `Type`. -/
inductive ValueType where
  | number
  | boolean
  | string
  | object
  | null
  | ecmaArray
  deriving DecidableEq, Repr

/-- The `uint8_t` behind an enumerator. -/
def ValueType.code : ValueType → UInt8
  | .number => 0
  | .boolean => 1
  | .string => 2
  | .object => 3
  | .null => 5
  | .ecmaArray => 8

/-- The alternatives of a value, with the entries of an object in any order. -/
inductive Raw where
  | null
  | number (bits : UInt64)
  | boolean (b : Bool)
  | string (s : List UInt8)
  | object (fields : List (List UInt8 × Raw))

theorem Raw.ind {motive : Raw → Prop} (null : motive .null)
    (number : ∀ bits, motive (.number bits)) (boolean : ∀ b, motive (.boolean b))
    (string : ∀ s, motive (.string s))
    (object : ∀ fields : List (List UInt8 × Raw), (∀ p ∈ fields, motive p.2) →
      motive (.object fields)) (v : Raw) : motive v := by
  refine @Raw.rec motive (fun fields => ∀ p ∈ fields, motive p.2) (fun p => motive p.2)
    null number boolean string (fun fields ih => object fields ih) ?_ ?_ ?_ v
  · intro p hp
    exact absurd hp List.not_mem_nil
  · intro q fields hq hfields p hp
    rcases List.mem_cons.1 hp with rfl | hp
    · exact hq
    · exact hfields p hp
  · intro key x hx
    exact hx

/-- All objects are maps: their keys increase. -/
inductive Raw.Ordered : Raw → Prop
  | null : Ordered .null
  | number (bits : UInt64) : Ordered (.number bits)
  | boolean (b : Bool) : Ordered (.boolean b)
  | string (s : List UInt8) : Ordered (.string s)
  | object {fields : List (List UInt8 × Raw)} : OrderedMap.Sorted fields →
      (∀ p ∈ fields, Ordered p.2) → Ordered (.object fields)

/-- `Value`. -/
def Value := { v : Raw // v.Ordered }

/-- `Value::ObjectType`. -/
def ObjectType := { m : List (List UInt8 × Raw) // OrderedMap.Sorted m ∧ ∀ p ∈ m, p.2.Ordered }

/-- `Value::Null`. -/
def Value.null : Value := ⟨.null, .null⟩

/-- `Value::Number`. -/
def Value.number (bits : UInt64) : Value := ⟨.number bits, .number bits⟩

/-- `Value::Boolean`. -/
def Value.boolean (b : Bool) : Value := ⟨.boolean b, .boolean b⟩

/-- `Value::String`. -/
def Value.string (s : List UInt8) : Value := ⟨.string s, .string s⟩

/-- `Value::Object`. -/
def Value.object (obj : ObjectType) : Value := ⟨.object obj.1, .object obj.2.1 obj.2.2⟩

def ObjectType.empty : ObjectType := ⟨[], List.Pairwise.nil, fun _ h => absurd h List.not_mem_nil⟩

/-- `obj[key] = val`. -/
def ObjectType.set (obj : ObjectType) (key : List UInt8) (val : Value) : ObjectType :=
  ⟨OrderedMap.insert key val.1 obj.1, obj.2.1.insert key val.1, fun p hp => by
    rcases OrderedMap.mem_insert hp with rfl | hp
    · exact val.2
    · exact obj.2.2 p hp⟩

/-! ### Encoding -/

/-- `encode_string`, with its type or without.  The length is cast to 16 bits. -/
def encodeString (str : List UInt8) (withType : Bool) : List UInt8 :=
  (if withType then [ValueType.string.code] else []) ++
    (Bytes.writeU16Be str.length.toUInt16 ++ str)

mutual

/-- `encode_value_impl`. -/
def encodeValueImpl : Raw → List UInt8
  | .number bits => ValueType.number.code :: Bytes.writeF64Be bits
  | .boolean b => [ValueType.boolean.code, if b then 1 else 0]
  | .string s => encodeString s true
  | .null => [ValueType.null.code]
  | .object fields => ValueType.object.code :: (encodeProperties fields ++ [0, 0, 9])

/-- The loop of `encode_value_impl` over the entries of an object. -/
def encodeProperties : List (List UInt8 × Raw) → List UInt8
  | [] => []
  | (key, val) :: fields =>
      Bytes.writeU16Be key.length.toUInt16 ++ key ++ encodeValueImpl val ++ encodeProperties fields

end

/-- `encode`, which returns no error. -/
def encode (v : Value) : List UInt8 := encodeValueImpl v.1

/-- `encode_array`, which returns no error. -/
def encodeArray (values : List Value) : List UInt8 := values.flatMap encode

/-! ### Decoding -/

/-- `read_u16_be(data.data() + i)`. -/
def u16At (data : List UInt8) (i : ℕ) : Except Failure UInt16 := do
  let a ← byteAt data i
  let b ← byteAt data (i + 1)
  return Bytes.readU16Be a b

/-- `read_f64_be(data.data() + i)`. -/
def f64At (data : List UInt8) (i : ℕ) : Except Failure UInt64 := do
  let a ← byteAt data i
  let b ← byteAt data (i + 1)
  let c ← byteAt data (i + 2)
  let d ← byteAt data (i + 3)
  let e ← byteAt data (i + 4)
  let f ← byteAt data (i + 5)
  let g ← byteAt data (i + 6)
  let h ← byteAt data (i + 7)
  return Bytes.readF64Be a b c d e f g h

/-- `decode_string`: the string and the offset behind it. -/
def decodeString (data : List UInt8) (hasType : Bool) : Except Failure (List UInt8 × ℕ) := do
  if hasType then
    if data.length < 1 then
      throw (.err "Not enough data for string type")
    let marker ← byteAt data 0
    if marker ≠ ValueType.string.code then
      throw (.err "Not a string type")
  let offset := if hasType then 1 else 0
  if data.length < offset + 2 then
    throw (.err "Not enough data for string length")
  let len ← u16At data offset
  let offset := offset + 2
  if data.length < offset + len.toNat then
    throw (.err "Not enough data for string content")
  let str ← bytesAt data offset len.toNat
  return (str, offset + len.toNat)

/-- The body of `decode_impl`: the value and the number of bytes it takes.  Of an object, `properties` reads
the properties from an offset on. -/
def decodeValue (properties : ℕ → Except Failure (ObjectType × ℕ)) (data : List UInt8) :
    Except Failure (Value × ℕ) := do
  if data.isEmpty then
    throw (.err "Empty data")
  let type ← byteAt data 0
  if type = ValueType.number.code then
    if data.length < 9 then
      throw (.err "Not enough data for number")
    let num ← f64At data 1
    return (.number num, 9)
  else if type = ValueType.boolean.code then
    if data.length < 2 then
      throw (.err "Not enough data for boolean")
    let val ← byteAt data 1
    return (.boolean (val != 0), 2)
  else if type = ValueType.string.code then
    let (str, consumed) ← decodeString (data.drop 1) false
    return (.string str, consumed + 1)
  else if type = ValueType.null.code then
    return (.null, 1)
  else if type = ValueType.object.code then
    let (obj, offset) ← properties 1
    return (.object obj, offset)
  else if type = ValueType.ecmaArray.code then
    if data.length < 5 then
      throw (.err "Not enough data for ECMA array")
    let (obj, offset) ← properties 5
    return (.object obj, offset)
  else
    throw (.err "Unknown AMF0 type")

/-- The loop of `decode_impl` over the properties of an object or an ECMA array: the map and the offset
behind it.  Of a property, `value` reads the value, and `properties` goes on behind it. -/
def decodeProperty (value : List UInt8 → Except Failure (Value × ℕ))
    (properties : ℕ → ObjectType → Except Failure (ObjectType × ℕ)) (data : List UInt8) (offset : ℕ)
    (obj : ObjectType) : Except Failure (ObjectType × ℕ) := do
  if offset + 3 ≤ data.length then
    let keyLen ← u16At data offset
    let offset := offset + 2
    -- an empty key and an end marker
    if keyLen = 0 ∧ data[offset]? = some 9 then
      return (obj, offset + 1)
    if data.length < offset + keyLen.toNat then
      throw (.err "Not enough data for object key")
    let key ← bytesAt data offset keyLen.toNat
    let offset := offset + keyLen.toNat
    let (val, valConsumed) ← value (data.drop offset)
    properties (offset + valConsumed) (obj.set key val)
  else
    return (obj, offset)

mutual

/-- `decode_impl`, with at most `fuel` calls and iterations below each other. -/
def decodeImpl : ℕ → List UInt8 → Except Failure (Value × ℕ)
  | 0, _ => .error .outOfFuel
  | fuel + 1, data => decodeValue (fun offset => decodeProperties fuel data offset .empty) data

/-- The loop of `decode_impl`. -/
def decodeProperties : ℕ → List UInt8 → (offset : ℕ) → ObjectType →
    Except Failure (ObjectType × ℕ)
  | 0, data, offset, obj => if offset + 3 ≤ data.length then .error .outOfFuel else .ok (obj, offset)
  | fuel + 1, data, offset, obj =>
      decodeProperty (fun rest => decodeImpl fuel rest)
        (fun offset obj => decodeProperties fuel data offset obj) data offset obj

end

/-- `decode`. -/
def decode (data : List UInt8) : Except Failure (Value × ℕ) := decodeImpl (data.length + 1) data

/-- The loop of `decode_array`, for at most `fuel` iterations; `value` reads a value. -/
def decodeArrayLoop (value : List UInt8 → Except Failure (Value × ℕ)) (data : List UInt8) :
    ℕ → (offset : ℕ) → (values : List Value) → Except Failure (List Value)
  | 0, offset, values => if offset < data.length then .error .outOfFuel else .ok values
  | fuel + 1, offset, values =>
      if offset < data.length then
        match value (data.drop offset) with
        | .ok (val, consumed) =>
            decodeArrayLoop value data fuel (offset + consumed) (values ++ [val])
        | .error (.err text) => if values.isEmpty then .error (.err text) else .ok values
        | .error f => .error f
      else .ok values

/-- `decode_array`: an error ends the list, unless it comes first. -/
def decodeArray (data : List UInt8) : Except Failure (List Value) :=
  decodeArrayLoop decode data data.length 0 []

/-! ### Reading what was written -/

theorem u16At_append (pre body : List UInt8) (i : ℕ) :
    u16At (pre ++ body) (pre.length + i) = u16At body i := by
  simp only [u16At, Nat.add_assoc, Rtmp.byteAt_append]

theorem u16At_write (v : UInt16) (rest : List UInt8) :
    u16At (Bytes.writeU16Be v ++ rest) 0 = .ok v := by
  obtain ⟨a, b, hw, hr⟩ := Bytes.exists_writeU16Be v
  rw [hw, ← hr]
  rfl

theorem f64At_write (first : UInt8) (bits : UInt64) (rest : List UInt8) :
    f64At (first :: (Bytes.writeF64Be bits ++ rest)) 1 = .ok bits := by
  obtain ⟨a, b, c, d, e, f, g, h, hw, hr⟩ := Bytes.exists_writeF64Be bits
  rw [hw, ← hr]
  rfl

theorem toNat_length {s : List UInt8} (h : s.length ≤ 65535) :
    s.length.toUInt16.toNat = s.length := by
  rw [Nat.toUInt16, UInt16.toNat_ofNat']
  exact Nat.mod_eq_of_lt (by omega)

theorem decodeString_encode {s : List UInt8} (h : s.length ≤ 65535) (rest : List UInt8) :
    decodeString (encodeString s false ++ rest) false = .ok (s, (encodeString s false).length) := by
  have hlen := u16At_write s.length.toUInt16 (s ++ rest)
  have hbytes : bytesAt (Bytes.writeU16Be s.length.toUInt16 ++ (s ++ rest)) 2 s.length = .ok s := by
    rw [Rtmp.bytesAt_of_le (by simp), List.drop_left' (Bytes.length_writeU16Be _), List.take_left]
  have hle : 1 < 2 + (s.length + rest.length) := by omega
  simp [decodeString, encodeString, hlen, toNat_length h, hbytes, hle, bind, Except.bind, pure,
    Except.pure]

/-! ### What is encoded is decoded -/

/-- All strings and keys are short enough for their length fields. -/
inductive Raw.Bounded : Raw → Prop
  | null : Bounded .null
  | number (bits : UInt64) : Bounded (.number bits)
  | boolean (b : Bool) : Bounded (.boolean b)
  | string {s : List UInt8} : s.length ≤ 65535 → Bounded (.string s)
  | object {fields : List (List UInt8 × Raw)} : (∀ p ∈ fields, p.1.length ≤ 65535) →
      (∀ p ∈ fields, Bounded p.2) → Bounded (.object fields)

/-- An encoded value starts with its type, which is not the end marker of an object. -/
theorem encodeValueImpl_cons (v : Raw) : ∃ type rest, encodeValueImpl v = type :: rest ∧ type ≠ 9 := by
  cases v with
  | null => exact ⟨_, _, by rw [encodeValueImpl], by decide⟩
  | number bits => exact ⟨_, _, by rw [encodeValueImpl], by decide⟩
  | boolean b => exact ⟨_, _, by rw [encodeValueImpl], by decide⟩
  | string s => exact ⟨ValueType.string.code, _, by rw [encodeValueImpl]; rfl, by decide⟩
  | object fields => exact ⟨_, _, by rw [encodeValueImpl], by decide⟩

theorem decodeProperties_end {data : List UInt8} {offset : ℕ} (hlen : u16At data offset = .ok 0)
    (hmarker : data[offset + 2]? = some 9) (fuel : ℕ) (obj : ObjectType) :
    decodeProperties (fuel + 1) data offset obj = .ok (obj, offset + 3) := by
  have hlt : offset + 3 ≤ data.length := (List.getElem?_eq_some_iff.1 hmarker).1
  simp only [decodeProperties, decodeProperty, if_pos hlt, hlen, hmarker, bind, Except.bind]
  rfl

theorem decodeProperties_property {fuel n : ℕ} {data key : List UInt8} {offset : ℕ}
    {keyLen : UInt16} {val : Value} (hlt : offset + 3 ≤ data.length)
    (hlen : u16At data offset = .ok keyLen)
    (hmarker : ¬ (keyLen = 0 ∧ data[offset + 2]? = some 9))
    (hle : ¬ data.length < offset + 2 + keyLen.toNat)
    (hkey : bytesAt data (offset + 2) keyLen.toNat = .ok key)
    (hval : decodeImpl fuel (data.drop (offset + 2 + keyLen.toNat)) = .ok (val, n))
    (obj : ObjectType) :
    decodeProperties (fuel + 1) data offset obj
      = decodeProperties fuel data (offset + 2 + keyLen.toNat + n) (obj.set key val) := by
  simp only [decodeProperties, decodeProperty, if_pos hlt, hlen, if_neg hmarker, if_neg hle, hkey, hval, bind,
    Except.bind]

/-- An entry is read, if its value can be decoded.  Its key is not taken for the end of the object: the
marker of the value that follows it is not the one that ends an object. -/
theorem decodeProperties_read {key val after : List UInt8} (hbound : key.length ≤ 65535)
    (hfirst : ∃ type tail, val = type :: tail ∧ type ≠ 9) {fuel n : ℕ} {v : Value} (pre : List UInt8)
    (hvalue : decodeImpl fuel (val ++ after) = .ok (v, n)) (obj : ObjectType) :
    let data := pre ++ (Bytes.writeU16Be key.length.toUInt16 ++ (key ++ (val ++ after)))
    decodeProperties (fuel + 1) data pre.length obj
      = decodeProperties fuel data (pre.length + 2 + key.length + n) (obj.set key v) := by
  intro data
  have hkeyLen := toNat_length hbound
  obtain ⟨type, tail, hhead, hne⟩ := hfirst
  have hpos : 0 < val.length := by rw [hhead]; exact Nat.succ_pos _
  have hsize : data.length = pre.length + 2 + key.length + val.length + after.length := by
    simp [data]
    omega
  have hlen : u16At data pre.length = .ok key.length.toUInt16 :=
    (u16At_append pre _ 0).trans (u16At_write _ _)
  have hkey : data.drop (pre.length + 2) = key ++ (val ++ after) := by
    simp only [data]
    rw [← List.append_assoc, List.drop_left' (by simp)]
  have hdrop : data.drop (pre.length + 2 + key.length) = val ++ after := by
    rw [← List.drop_drop, hkey, List.drop_left]
  have hmarker : ¬ (key.length.toUInt16 = 0 ∧ data[pre.length + 2]? = some 9) := by
    rintro ⟨hzero, hnine⟩
    have hnil : key = [] := by
      rw [hzero] at hkeyLen
      exact List.eq_nil_of_length_eq_zero hkeyLen.symm
    have hfirst := congrArg (fun l => l[0]?) hdrop
    simp only [List.getElem?_drop, hnil, List.length_nil, Nat.add_zero, hnine, hhead] at hfirst
    exact hne (Option.some.inj hfirst).symm
  have hbytes : bytesAt data (pre.length + 2) key.length = .ok key := by
    rw [Rtmp.bytesAt_of_le (by omega), hkey, List.take_left]
  rw [decodeProperties_property (by omega) hlen hmarker (by omega) (by rw [hkeyLen]; exact hbytes)
    (by rw [hkeyLen, hdrop]; exact hvalue), hkeyLen]

theorem decodeProperties_entry {key : List UInt8} {val : Raw} (hbound : key.length ≤ 65535)
    (hval : val.Ordered) {fuel : ℕ} (pre after : List UInt8)
    (hvalue : decodeImpl fuel (encodeValueImpl val ++ after)
      = .ok (⟨val, hval⟩, (encodeValueImpl val).length)) (obj : ObjectType) :
    let data := pre ++ (Bytes.writeU16Be key.length.toUInt16 ++
      (key ++ (encodeValueImpl val ++ after)))
    decodeProperties (fuel + 1) data pre.length obj
      = decodeProperties fuel data (pre.length + 2 + key.length + (encodeValueImpl val).length)
          (obj.set key ⟨val, hval⟩) :=
  decodeProperties_read hbound (encodeValueImpl_cons val) pre hvalue obj

/-- The loop over the properties of an object that was encoded: by induction on the entries, each of
which is decoded, and appended to those before it since the keys increase. -/
theorem decodeProperties_encode (fields : List (List UInt8 × Raw))
    (hdecode : ∀ p ∈ fields, ∀ (hv : p.2.Ordered) (fuel : ℕ) (rest : List UInt8),
      (encodeValueImpl p.2).length ≤ fuel →
      decodeImpl (fuel + 1) (encodeValueImpl p.2 ++ rest)
        = .ok (⟨p.2, hv⟩, (encodeValueImpl p.2).length))
    (hkeys : ∀ p ∈ fields, p.1.length ≤ 65535) :
    ∀ (fuel : ℕ) (pre rest : List UInt8) (obj : ObjectType),
      (encodeProperties fields).length ≤ fuel →
      ∀ h : OrderedMap.Sorted (obj.1 ++ fields) ∧ ∀ p ∈ obj.1 ++ fields, p.2.Ordered,
      decodeProperties (fuel + 1) (pre ++ (encodeProperties fields ++ ([0, 0, 9] ++ rest)))
          pre.length obj
        = .ok (⟨obj.1 ++ fields, h⟩, pre.length + (encodeProperties fields).length + 3) := by
  induction fields with
  | nil =>
      intro fuel pre rest obj hfuel h
      have hlen : u16At (pre ++ ([0, 0, 9] ++ rest)) pre.length = .ok 0 :=
        (u16At_append pre ([0, 0, 9] ++ rest) 0).trans rfl
      have hmarker : (pre ++ ([0, 0, 9] ++ rest))[pre.length + 2]? = some 9 := by simp
      have hobj : (⟨obj.1 ++ [], h⟩ : ObjectType) = obj := Subtype.ext (List.append_nil _)
      rw [hobj]
      exact decodeProperties_end hlen hmarker fuel obj
  | cons p fields ih =>
      obtain ⟨key, val⟩ := p
      intro fuel pre rest obj hfuel h
      have hval : val.Ordered := h.2 (key, val) (by simp)
      have hcost : (encodeProperties ((key, val) :: fields)).length
          = 2 + key.length + (encodeValueImpl val).length + (encodeProperties fields).length := by
        simp [encodeProperties]
        omega
      obtain ⟨fuel, rfl⟩ := Nat.exists_eq_add_of_le' (by omega : 1 ≤ fuel)
      -- the first entry is read
      have hvalue := hdecode (key, val) List.mem_cons_self hval fuel
        (encodeProperties fields ++ ([0, 0, 9] ++ rest)) (by simp only; omega)
      have hentry := decodeProperties_entry (hkeys (key, val) List.mem_cons_self) hval pre
        (encodeProperties fields ++ ([0, 0, 9] ++ rest)) hvalue obj
      -- and appended to the map
      have hset : (obj.set key ⟨val, hval⟩).1 = obj.1 ++ [(key, val)] := by
        refine OrderedMap.insert_last (fun q hq => ?_) val
        exact (List.pairwise_append.1 h.1).2.2 q hq (key, val) List.mem_cons_self
      have hnext : OrderedMap.Sorted ((obj.set key ⟨val, hval⟩).1 ++ fields) ∧
          ∀ p ∈ (obj.set key ⟨val, hval⟩).1 ++ fields, p.2.Ordered := by
        rw [hset, List.append_assoc]
        exact h
      have hrest := ih (fun p hp => hdecode p (List.mem_cons_of_mem _ hp))
        (fun p hp => hkeys p (List.mem_cons_of_mem _ hp)) fuel
        (pre ++ (Bytes.writeU16Be key.length.toUInt16 ++ (key ++ encodeValueImpl val))) rest
        (obj.set key ⟨val, hval⟩) (by omega) hnext
      have hoffset : (pre ++ (Bytes.writeU16Be key.length.toUInt16 ++
          (key ++ encodeValueImpl val))).length
            = pre.length + 2 + key.length + (encodeValueImpl val).length := by
        simp
        omega
      rw [hoffset] at hrest
      simp only [encodeProperties, List.append_assoc] at hentry hrest ⊢
      refine hentry.trans (hrest.trans ?_)
      congr 2
      · exact Subtype.ext (by simp [hset])
      · simp only [encodeProperties, List.append_assoc] at hcost
        omega

/-- **What is encoded is decoded**, whatever follows it. -/
theorem decodeImpl_encode (v : Raw) (hb : v.Bounded) :
    ∀ (hv : v.Ordered) (fuel : ℕ) (rest : List UInt8), (encodeValueImpl v).length ≤ fuel →
      decodeImpl (fuel + 1) (encodeValueImpl v ++ rest)
        = .ok (⟨v, hv⟩, (encodeValueImpl v).length) := by
  induction v using Raw.ind with
  | null =>
      intro hv fuel rest hfuel
      rfl
  | number bits =>
      intro hv fuel rest hfuel
      have hread := f64At_write ValueType.number.code bits rest
      have hlen : ¬ (encodeValueImpl (.number bits) ++ rest).length < 9 := by
        simp [encodeValueImpl]
      simp only [encodeValueImpl, List.cons_append, decodeImpl, decodeValue] at hlen ⊢
      simp only [hread, if_neg hlen, List.isEmpty_cons, Rtmp.byteAt_cons_zero, bind, Except.bind]
      rfl
  | boolean b =>
      intro hv fuel rest hfuel
      cases b <;> rfl
  | string s =>
      intro hv fuel rest hfuel
      cases hb with
      | string hs =>
          have hread := decodeString_encode hs rest
          have hbytes : encodeValueImpl (.string s)
              = ValueType.string.code :: encodeString s false := by
            simp [encodeValueImpl, encodeString]
          rw [hbytes]
          simp only [List.cons_append, decodeImpl, decodeValue, List.isEmpty_cons, Rtmp.byteAt_cons_zero,
            List.drop_succ_cons, List.drop_zero, hread, bind, Except.bind]
          rfl
  | object fields ih =>
      intro hv fuel rest hfuel
      cases hb with
      | object hkeys hvals =>
          cases hv with
          | object hsorted hordered =>
              have hcost : (encodeValueImpl (.object fields)).length
                  = 1 + (encodeProperties fields).length + 3 := by
                simp [encodeValueImpl]
                omega
              obtain ⟨fuel, rfl⟩ := Nat.exists_eq_add_of_le' (by omega : 1 ≤ fuel)
              have hloop := decodeProperties_encode fields
                (fun p hp hv fuel rest => ih p hp (hvals p hp) hv fuel rest) hkeys fuel
                [ValueType.object.code] rest .empty (by omega) ⟨hsorted, hordered⟩
              have hdata : encodeValueImpl (.object fields) ++ rest
                  = [ValueType.object.code] ++ (encodeProperties fields ++ ([0, 0, 9] ++ rest)) := by
                simp [encodeValueImpl]
              rw [hdata, hcost]
              generalize hall : [ValueType.object.code] ++
                (encodeProperties fields ++ ([0, 0, 9] ++ rest)) = data at hloop
              have hne : data.isEmpty = false := by rw [← hall]; rfl
              have hfirst : byteAt data 0 = .ok ValueType.object.code := by rw [← hall]; rfl
              simp only [decodeImpl, decodeValue, hne, hfirst, bind, Except.bind]
              have hone : [ValueType.object.code].length = 1 := rfl
              rw [hone] at hloop
              simp [ValueType.code, hloop, pure, Except.pure]
              rfl

/-! ### What is decoded is bounded -/

theorem decodeString_ok {data str : List UInt8} {n : ℕ}
    (h : decodeString data false = .ok (str, n)) :
    ∃ len, u16At data 0 = .ok len ∧ bytesAt data 2 len.toNat = .ok str ∧ n = 2 + len.toNat := by
  simp only [decodeString, Bool.false_eq_true, if_false, bind, Except.bind, pure, Except.pure, throw,
    throwThe, MonadExceptOf.throw] at h
  split at h
  · cases h
  · split at h
    · cases h
    · rename_i len hlen
      split at h
      · cases h
      · split at h
        · cases h
        · rename_i bytes hbytes
          cases h
          exact ⟨len, hlen, hbytes, by omega⟩

theorem decodeString_length {data str : List UInt8} {n : ℕ}
    (h : decodeString data false = .ok (str, n)) : str.length ≤ 65535 := by
  obtain ⟨len, -, hbytes, -⟩ := decodeString_ok h
  have hlen := len.toNat_lt
  rw [Rtmp.length_of_bytesAt hbytes]
  omega

/-- What an iteration of the loop over the properties of an object can do. -/
theorem decodeProperties_ok {fuel offset : ℕ} {data : List UInt8} {obj : ObjectType}
    {r : ObjectType × ℕ} (h : decodeProperties (fuel + 1) data offset obj = .ok r) :
    (data.length < offset + 3 ∧ r = (obj, offset)) ∨
    (u16At data offset = .ok 0 ∧ data[offset + 2]? = some 9 ∧ r = (obj, offset + 3)) ∨
    ∃ keyLen key val n, u16At data offset = .ok keyLen ∧
      bytesAt data (offset + 2) keyLen.toNat = .ok key ∧
      decodeImpl fuel (data.drop (offset + 2 + keyLen.toNat)) = .ok (val, n) ∧
      decodeProperties fuel data (offset + 2 + keyLen.toNat + n) (obj.set key val) = .ok r := by
  simp only [decodeProperties, decodeProperty, bind, Except.bind, pure, Except.pure, throw, throwThe,
    MonadExceptOf.throw] at h
  split at h
  · split at h
    · cases h
    · rename_i keyLen hkeyLen
      split at h
      · rename_i hmarker
        cases h
        exact .inr (.inl ⟨hmarker.1 ▸ hkeyLen, hmarker.2, rfl⟩)
      · split at h
        · cases h
        · split at h
          · cases h
          · rename_i key hkey
            split at h
            · cases h
            · rename_i r' hval
              exact .inr (.inr ⟨keyLen, key, r'.1, r'.2, hkeyLen, hkey, hval, h⟩)
  · rename_i hlt
    cases h
    exact .inl ⟨by omega, rfl⟩

/-- What `decode_impl` can do, by the type it reads. -/
theorem decodeImpl_ok {fuel : ℕ} {data : List UInt8} {r : Value × ℕ}
    (h : decodeImpl (fuel + 1) data = .ok r) :
    ∃ type, byteAt data 0 = .ok type ∧
      ((∃ bits, type = ValueType.number.code ∧ 9 ≤ data.length ∧ f64At data 1 = .ok bits ∧
          r = (.number bits, 9)) ∨
        (∃ b, type = ValueType.boolean.code ∧ byteAt data 1 = .ok b ∧ r = (.boolean (b != 0), 2)) ∨
        (∃ str n, type = ValueType.string.code ∧ decodeString (data.drop 1) false = .ok (str, n) ∧
          r = (.string str, n + 1)) ∨
        (type = ValueType.null.code ∧ r = (.null, 1)) ∨
        ∃ offset obj n, (type = ValueType.object.code ∧ offset = 1 ∨
            type = ValueType.ecmaArray.code ∧ offset = 5 ∧ 5 ≤ data.length) ∧
          decodeProperties fuel data offset .empty = .ok (obj, n) ∧ r = (.object obj, n)) := by
  simp only [decodeImpl, decodeValue, bind, Except.bind, pure, Except.pure, throw, throwThe,
    MonadExceptOf.throw] at h
  split at h
  · cases h
  · split at h
    · cases h
    · rename_i type htype
      refine ⟨type, htype, ?_⟩
      split at h
      · -- a number
        rename_i hnumber
        split at h
        · cases h
        · rename_i hlen
          split at h
          · cases h
          · rename_i bits hbits
            cases h
            exact .inl ⟨bits, hnumber, by omega, hbits, rfl⟩
      · split at h
        · -- a boolean
          rename_i hboolean
          split at h
          · cases h
          · split at h
            · cases h
            · rename_i b hb
              cases h
              exact .inr (.inl ⟨b, hboolean, hb, rfl⟩)
        · split at h
          · -- a string
            rename_i hstring
            split at h
            · cases h
            · rename_i r' hstr
              cases h
              exact .inr (.inr (.inl ⟨r'.1, r'.2, hstring, hstr, rfl⟩))
          · split at h
            · -- a null
              rename_i hnull
              cases h
              exact .inr (.inr (.inr (.inl ⟨hnull, rfl⟩)))
            · split at h
              · -- an object
                rename_i hobject
                split at h
                · cases h
                · rename_i r' hobj
                  cases h
                  exact .inr (.inr (.inr (.inr ⟨1, r'.1, r'.2, .inl ⟨hobject, rfl⟩, hobj, rfl⟩)))
              · split at h
                · -- an ECMA array
                  rename_i harray
                  split at h
                  · cases h
                  · rename_i hlen
                    split at h
                    · cases h
                    · rename_i r' hobj
                      cases h
                      exact .inr (.inr (.inr (.inr
                        ⟨5, r'.1, r'.2, .inr ⟨harray, rfl, by omega⟩, hobj, rfl⟩)))
                · cases h

def ObjectType.Bounded (obj : ObjectType) : Prop :=
  ∀ p ∈ obj.1, p.1.length ≤ 65535 ∧ p.2.Bounded

theorem ObjectType.Bounded.set {obj : ObjectType} (h : obj.Bounded) {key : List UInt8} {val : Value}
    (hkey : key.length ≤ 65535) (hval : val.1.Bounded) : (obj.set key val).Bounded := by
  intro p hp
  rcases OrderedMap.mem_insert hp with rfl | hp
  · exact ⟨hkey, hval⟩
  · exact h p hp

/-- **Whatever is decoded is bounded**: by induction on the fuel, for values and for properties at
once. -/
theorem decodeImpl_bounded (fuel : ℕ) :
    (∀ data r, decodeImpl fuel data = .ok r → r.1.1.Bounded) ∧
    (∀ data offset obj r, decodeProperties fuel data offset obj = .ok r → obj.Bounded →
      r.1.Bounded) := by
  induction fuel with
  | zero =>
      refine ⟨fun data r h => ?_, fun data offset obj r h hobj => ?_⟩
      · cases h
      · rw [decodeProperties] at h
        split at h
        · cases h
        · cases h
          exact hobj
  | succ fuel ih =>
      obtain ⟨ihv, ihp⟩ := ih
      refine ⟨fun data r h => ?_, fun data offset obj r h hobj => ?_⟩
      · obtain ⟨type, -, hcases⟩ := decodeImpl_ok h
        rcases hcases with ⟨bits, -, -, -, rfl⟩ | ⟨b, -, -, rfl⟩ | ⟨str, n, -, hstr, rfl⟩ | ⟨-, rfl⟩ |
          ⟨offset, obj, n, -, hobj, rfl⟩
        · exact .number bits
        · exact .boolean (b != 0)
        · exact .string (decodeString_length hstr)
        · exact .null
        · have hb : obj.Bounded := ihp data offset .empty (obj, n) hobj
            fun p hp => absurd hp List.not_mem_nil
          exact .object (fun p hp => (hb p hp).1) fun p hp => (hb p hp).2
      · rcases decodeProperties_ok h with ⟨-, rfl⟩ | ⟨-, -, rfl⟩ | ⟨keyLen, key, val, n, -, hkey,
          hval, hrest⟩
        · exact hobj
        · exact hobj
        · have hlen := keyLen.toNat_lt
          have hbound : key.length ≤ 65535 := by
            rw [Rtmp.length_of_bytesAt hkey]
            omega
          exact ihp _ _ _ _ hrest (hobj.set hbound (ihv _ _ hval))

/-- **A value survives exactly if it is bounded**, whatever follows it. -/
theorem decode_encode_iff (v : Value) (rest : List UInt8) :
    decode (encode v ++ rest) = .ok (v, (encode v).length) ↔ v.1.Bounded := by
  constructor
  · intro h
    exact (decodeImpl_bounded _).1 _ _ h
  · intro hb
    exact decodeImpl_encode v.1 hb v.2 _ rest (by simp [encode])

/-! ### Lists of values -/

/-- The loop of `decode_array` on the rest of a list that was encoded. -/
theorem decodeArrayLoop_encode (values : List Value) (hb : ∀ v ∈ values, v.1.Bounded) :
    ∀ (fuel : ℕ) (pre : List UInt8) (before : List Value), (encodeArray values).length ≤ fuel →
      decodeArrayLoop decode (pre ++ encodeArray values) fuel pre.length before = .ok (before ++ values) := by
  induction values with
  | nil =>
      intro fuel pre before hfuel
      cases fuel <;> simp [decodeArrayLoop, encodeArray]
  | cons v values ih =>
      intro fuel pre before hfuel
      obtain ⟨type, tail, hhead, -⟩ := encodeValueImpl_cons v.1
      have hpos : 0 < (encode v).length := by
        rw [encode, hhead]
        exact Nat.succ_pos _
      have hcons : encodeArray (v :: values) = encode v ++ encodeArray values := List.flatMap_cons
      rw [hcons, List.length_append] at hfuel
      obtain ⟨fuel, rfl⟩ := Nat.exists_eq_add_of_le' (by omega : 1 ≤ fuel)
      have hlt : pre.length < (pre ++ (encode v ++ encodeArray values)).length := by
        simp only [List.length_append]
        omega
      have hvalue := (decode_encode_iff v (encodeArray values)).2 (hb v List.mem_cons_self)
      have hrest := ih (fun u hu => hb u (List.mem_cons_of_mem _ hu)) fuel (pre ++ encode v)
        (before ++ [v]) (by omega)
      rw [List.length_append, List.append_assoc, List.append_assoc] at hrest
      rw [hcons]
      simp only [decodeArrayLoop, if_pos hlt, List.drop_left, hvalue]
      exact hrest

theorem decodeArray_encode {values : List Value} (hb : ∀ v ∈ values, v.1.Bounded) :
    decodeArray (encodeArray values) = .ok values :=
  decodeArrayLoop_encode values hb _ [] [] (Nat.le_refl _)

end Amf0
