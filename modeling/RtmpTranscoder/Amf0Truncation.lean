/-
**AMF0 that has been cut off.**

The loop over the properties of an object ends at the end marker, and it also ends, without an error,
when fewer than three bytes are left.  So what is cut off right behind a property of an object, or in
the first two bytes of the next one or of the end marker, is taken for a whole value; and as all the
loops around it see the same bytes, they all end there too.  Anywhere else a cut is found out.

The grammar of the format says which bytes are a whole value.  `Complete` is that grammar, and
`LeavesOpen` describes the bytes that end where an object, or one inside it, goes unfinished.

Main definitions:

* `Amf0.Complete` — a whole value;
* `Amf0.LeavesOpen` — an object that is not ended, with fewer than three bytes of what comes next.

Main results:

* `Amf0.Complete.decodable` — whole values are decoded, whatever follows them;
* `Amf0.LeavesOpen.decoded` — what leaves an object open is decoded too, and is no whole value;
* `Amf0.complete_or_leavesOpen` — nothing else is decoded;
* `Amf0.decode_truncated_iff` — **a value that is cut off is rejected exactly if it leaves no object
  open**.
-/

import RtmpTranscoder.Amf0Safety

set_option relaxedAutoImplicit false
set_option autoImplicit false

open Rtmp (Failure byteAt bytesAt)

namespace Amf0

/-! ### The grammar -/

/-- A property of an object: its key, and the bytes of its value. -/
def entryBytes (e : List UInt8 × List UInt8) : List UInt8 :=
  Bytes.writeU16Be e.1.length.toUInt16 ++ (e.1 ++ e.2)

/-- The beginning of an object or of an ECMA array, whose number of elements says nothing. -/
inductive Start : List UInt8 → Prop
  | object : Start [ValueType.object.code]
  | ecmaArray {count : List UInt8} : count.length = 4 → Start (ValueType.ecmaArray.code :: count)

/-- The bytes are a whole value: an object or an ECMA array has its own end marker. -/
inductive Complete : List UInt8 → Prop
  | number {bytes : List UInt8} : bytes.length = 8 → Complete (ValueType.number.code :: bytes)
  | boolean (b : UInt8) : Complete [ValueType.boolean.code, b]
  | string {str : List UInt8} : str.length ≤ 65535 → Complete (encodeString str true)
  | null : Complete [ValueType.null.code]
  | object {start : List UInt8} {entries : List (List UInt8 × List UInt8)} : Start start →
      (∀ e ∈ entries, e.1.length ≤ 65535) → (∀ e ∈ entries, Complete e.2) →
      Complete (start ++ (entries.flatMap entryBytes ++ [0, 0, 9]))

/-- The bytes end inside an object or an ECMA array, with fewer than three bytes behind its last whole
property, or with a value that ends like this. -/
inductive LeavesOpen : List UInt8 → Prop
  | short {start tail : List UInt8} {entries : List (List UInt8 × List UInt8)} : Start start →
      (∀ e ∈ entries, e.1.length ≤ 65535 ∧ Complete e.2) → tail.length < 3 →
      LeavesOpen (start ++ (entries.flatMap entryBytes ++ tail))
  | value {start key val : List UInt8} {entries : List (List UInt8 × List UInt8)} : Start start →
      (∀ e ∈ entries, e.1.length ≤ 65535 ∧ Complete e.2) → key.length ≤ 65535 → LeavesOpen val →
      LeavesOpen (start ++ (entries.flatMap entryBytes ++ entryBytes (key, val)))

variable {bytes data : List UInt8} {entries : List (List UInt8 × List UInt8)}

theorem length_entryBytes (e : List UInt8 × List UInt8) :
    (entryBytes e).length = 2 + e.1.length + e.2.length := by
  rw [entryBytes, List.length_append, List.length_append, Bytes.length_writeU16Be]
  omega

/-! ### Objects -/

/-- What starts with a marker other than the end marker of an object. -/
def HasType (bytes : List UInt8) : Prop := ∃ type tail, bytes = type :: tail ∧ type ≠ 9

theorem Start.hasType {start : List UInt8} (h : Start start) (body : List UInt8) :
    HasType (start ++ body) := by
  cases h with
  | object => exact ⟨_, _, rfl, by decide⟩
  | ecmaArray hcount => exact ⟨_, _, rfl, by decide⟩

theorem Start.length_pos {start : List UInt8} (h : Start start) : 0 < start.length := by
  cases h <;> exact Nat.succ_pos _

theorem decodeImpl_start {start : List UInt8} (h : Start start) (fuel : ℕ) (body : List UInt8) :
    decodeImpl (fuel + 1) (start ++ body) =
      (decodeProperties fuel (start ++ body) start.length .empty).bind
        fun r => .ok (Value.object r.1, r.2) := by
  cases h with
  | object => rfl
  | @ecmaArray count hcount =>
      have hlong : ¬ (ValueType.ecmaArray.code :: count ++ body).length < 5 := by
        simp [hcount]
      have hlen : (ValueType.ecmaArray.code :: count).length = 5 := by
        simp [hcount]
      rw [hlen]
      simp only [decodeImpl, decodeValue, List.cons_append, List.isEmpty_cons, Rtmp.byteAt_cons_zero, bind,
        Except.bind, pure, Except.pure] at hlong ⊢
      rw [if_neg hlong]
      rfl

/-- Bytes that are decoded, whatever follows them. -/
def Decodable (bytes : List UInt8) : Prop :=
  ∀ fuel rest, (bytes ++ rest).length < fuel →
    ∃ v, decodeImpl fuel (bytes ++ rest) = .ok (v, bytes.length)

/-- **The loop passes whole properties**: by induction on them, each of which takes one call. -/
theorem decodeProperties_entries
    (h : ∀ e ∈ entries, e.1.length ≤ 65535 ∧ HasType e.2 ∧ Decodable e.2) :
    ∀ (fuel : ℕ) (pre tail : List UInt8) (obj : ObjectType),
      (entries.flatMap entryBytes ++ tail).length < fuel →
      ∃ fuel' obj', tail.length < fuel' ∧
        decodeProperties fuel (pre ++ (entries.flatMap entryBytes ++ tail)) pre.length obj =
          decodeProperties fuel' (pre ++ (entries.flatMap entryBytes ++ tail))
            (pre.length + (entries.flatMap entryBytes).length) obj' := by
  induction entries with
  | nil =>
      intro fuel pre tail obj hfuel
      exact ⟨fuel, obj, hfuel, rfl⟩
  | cons e entries ih =>
      intro fuel pre tail obj hfuel
      obtain ⟨hkey, htype, hvalue⟩ := h e List.mem_cons_self
      rw [List.flatMap_cons, List.append_assoc, List.length_append, length_entryBytes] at hfuel
      obtain ⟨fuel, rfl⟩ := Nat.exists_eq_add_of_le' (by omega : 1 ≤ fuel)
      obtain ⟨v, hv⟩ := hvalue fuel (entries.flatMap entryBytes ++ tail) (by
        rw [List.length_append]
        omega)
      have hread := decodeProperties_read hkey htype pre hv obj
      obtain ⟨fuel', obj', hfuel', hrest⟩ := ih (fun e' he' => h e' (List.mem_cons_of_mem _ he')) fuel
        (pre ++ entryBytes e) tail (obj.set e.1 v) (by omega)
      refine ⟨fuel', obj', hfuel', ?_⟩
      simp only [List.length_append, length_entryBytes, List.append_assoc] at hrest
      simp only [List.flatMap_cons, List.length_append, length_entryBytes, List.append_assoc]
      simp only [entryBytes, List.append_assoc] at hrest ⊢
      rw [hread, Nat.add_assoc pre.length, Nat.add_assoc pre.length, hrest]
      congr 1
      omega

/-! ### Whole values -/

theorem Complete.hasType (h : Complete bytes) : HasType bytes := by
  cases h with
  | number hlen => exact ⟨_, _, rfl, by decide⟩
  | boolean b => exact ⟨_, _, rfl, by decide⟩
  | string hlen => exact ⟨ValueType.string.code, _, rfl, by decide⟩
  | null => exact ⟨_, _, rfl, by decide⟩
  | object hstart hkeys hvals => exact hstart.hasType _

/-- **Whole values are decoded**, whatever follows them. -/
theorem Complete.decodable (h : Complete bytes) : Decodable bytes := by
  induction h with
  | @number num hlen =>
      intro fuel rest hfuel
      obtain ⟨fuel, rfl⟩ := Nat.exists_eq_add_of_le' (Nat.one_le_of_lt hfuel)
      obtain ⟨bits, hbits⟩ := @f64At_of_le (ValueType.number.code :: num ++ rest) 1 (by
        simp [hlen])
      have hlong : ¬ (ValueType.number.code :: num ++ rest).length < 9 := by
        simp [hlen]
      have hsize : (ValueType.number.code :: num).length = 9 := by
        simp [hlen]
      refine ⟨.number bits, ?_⟩
      rw [hsize]
      simp only [List.cons_append, decodeImpl, decodeValue, List.isEmpty_cons, Rtmp.byteAt_cons_zero, bind,
        Except.bind] at hbits hlong ⊢
      rw [if_neg hlong, hbits]
      rfl
  | boolean b =>
      intro fuel rest hfuel
      obtain ⟨fuel, rfl⟩ := Nat.exists_eq_add_of_le' (Nat.one_le_of_lt hfuel)
      exact ⟨.boolean (b != 0), rfl⟩
  | @string str hlen =>
      intro fuel rest hfuel
      obtain ⟨fuel, rfl⟩ := Nat.exists_eq_add_of_le' (Nat.one_le_of_lt hfuel)
      refine ⟨.string str, ?_⟩
      have hread := decodeString_encode hlen rest
      have hbytes : encodeString str true = ValueType.string.code :: encodeString str false := rfl
      rw [hbytes]
      simp only [List.cons_append, decodeImpl, decodeValue, List.isEmpty_cons, Rtmp.byteAt_cons_zero,
        List.drop_succ_cons, List.drop_zero, hread, bind, Except.bind]
      rfl
  | null =>
      intro fuel rest hfuel
      obtain ⟨fuel, rfl⟩ := Nat.exists_eq_add_of_le' (Nat.one_le_of_lt hfuel)
      exact ⟨.null, rfl⟩
  | @object start entries hstart hkeys hvals ih =>
      intro fuel rest hfuel
      obtain ⟨fuel, rfl⟩ := Nat.exists_eq_add_of_le' (Nat.one_le_of_lt hfuel)
      have hpos := hstart.length_pos
      simp only [List.append_assoc] at hfuel ⊢
      rw [List.length_append] at hfuel
      obtain ⟨fuel', obj, hfuel', hloop⟩ := decodeProperties_entries
        (fun e he => ⟨hkeys e he, (hvals e he).hasType, ih e he⟩) fuel start ([0, 0, 9] ++ rest) .empty
        (by omega)
      obtain ⟨fuel', rfl⟩ := Nat.exists_eq_add_of_le' (Nat.one_le_of_lt hfuel')
      -- the loop has come to the end marker
      have hlen : u16At (start ++ (entries.flatMap entryBytes ++ ([0, 0, 9] ++ rest)))
          (start.length + (entries.flatMap entryBytes).length) = .ok 0 := by
        rw [← List.append_assoc, ← List.length_append]
        exact (u16At_append _ _ 0).trans rfl
      have hmarker : (start ++ (entries.flatMap entryBytes ++ ([0, 0, 9] ++ rest)))[start.length +
          (entries.flatMap entryBytes).length + 2]? = some 9 := by
        rw [← List.append_assoc, ← List.length_append, List.getElem?_append_right (by omega)]
        simp
      rw [decodeProperties_end hlen hmarker] at hloop
      refine ⟨.object obj, ?_⟩
      rw [decodeImpl_start hstart, hloop]
      simp [Except.bind, Nat.add_assoc]

/-! ### What leaves an object open -/

theorem LeavesOpen.hasType (h : LeavesOpen bytes) : HasType bytes := by
  cases h with
  | short hstart _ _ => exact hstart.hasType _
  | value hstart _ _ _ => exact hstart.hasType _

theorem decodeProperties_short {offset : ℕ} (h : data.length < offset + 3) (fuel : ℕ)
    (obj : ObjectType) : decodeProperties fuel data offset obj = .ok (obj, offset) := by
  cases fuel with
  | zero => rw [decodeProperties, if_neg (Nat.not_le.2 h)]
  | succ fuel =>
      rw [decodeProperties, decodeProperty, if_neg (Nat.not_le.2 h)]
      rfl

/-- Properties that are cut off in the value of the last one. -/
theorem take_entryBytes (start key val : List UInt8) (n : ℕ) :
    (start ++ (entries.flatMap entryBytes ++ entryBytes (key, val))).take
        (start.length + (entries.flatMap entryBytes).length + 2 + key.length + n) =
      start ++ (entries.flatMap entryBytes ++ entryBytes (key, val.take n)) := by
  have hpre : (start ++ (entries.flatMap entryBytes ++
      (Bytes.writeU16Be key.length.toUInt16 ++ key))).length =
        start.length + (entries.flatMap entryBytes).length + 2 + key.length := by
    simp only [List.length_append, Bytes.length_writeU16Be]
    omega
  have hsplit (rest : List UInt8) :
      start ++ (entries.flatMap entryBytes ++ entryBytes (key, rest)) =
        (start ++ (entries.flatMap entryBytes ++ (Bytes.writeU16Be key.length.toUInt16 ++ key))) ++
          rest := by
    simp only [entryBytes, List.append_assoc]
  rw [hsplit, hsplit, ← hpre, List.take_length_add_append]

/-- **What leaves an object open is decoded**, up to fewer than three bytes; with an end marker for each
object that is open it would be a whole value. -/
theorem LeavesOpen.decoded (h : LeavesOpen bytes) :
    ∀ fuel, bytes.length < fuel → ∃ v n ends, decodeImpl fuel bytes = .ok (v, n) ∧ n ≤ bytes.length ∧
      bytes.length < n + 3 ∧ ends ≠ [] ∧ Complete (bytes.take n ++ ends) := by
  induction h with
  | @short start tail entries hstart hentries htail =>
      intro fuel hfuel
      obtain ⟨fuel, rfl⟩ := Nat.exists_eq_add_of_le' (Nat.one_le_of_lt hfuel)
      have hpos := hstart.length_pos
      rw [List.length_append] at hfuel
      obtain ⟨fuel', obj, hfuel', hloop⟩ := decodeProperties_entries
        (fun e he => ⟨(hentries e he).1, (hentries e he).2.hasType, (hentries e he).2.decodable⟩) fuel
        start tail .empty (by omega)
      have hshort : (start ++ (entries.flatMap entryBytes ++ tail)).length <
          start.length + (entries.flatMap entryBytes).length + 3 := by
        simp only [List.length_append]
        omega
      rw [decodeProperties_short hshort] at hloop
      refine ⟨.object obj, start.length + (entries.flatMap entryBytes).length, [0, 0, 9], ?_, ?_, ?_,
        by simp, ?_⟩
      · rw [decodeImpl_start hstart, hloop]
        rfl
      · simp only [List.length_append]
        omega
      · omega
      · rw [← List.append_assoc, ← List.length_append, List.take_left, List.append_assoc]
        exact .object hstart (fun e he => (hentries e he).1) fun e he => (hentries e he).2
  | @value start key val entries hstart hentries hkey hval ih =>
      intro fuel hfuel
      obtain ⟨fuel, rfl⟩ := Nat.exists_eq_add_of_le' (Nat.one_le_of_lt hfuel)
      have hpos := hstart.length_pos
      rw [List.length_append] at hfuel
      obtain ⟨fuel', obj, hfuel', hloop⟩ := decodeProperties_entries
        (fun e he => ⟨(hentries e he).1, (hentries e he).2.hasType, (hentries e he).2.decodable⟩) fuel
        start (entryBytes (key, val)) .empty (by omega)
      obtain ⟨fuel', rfl⟩ := Nat.exists_eq_add_of_le' (Nat.one_le_of_lt hfuel')
      rw [length_entryBytes] at hfuel'
      obtain ⟨v, n, ends, hv, hn, hleft, hends, hcomplete⟩ := ih fuel' (by
        simp only at hfuel'
        omega)
      -- the value of the last property ends the loop
      have hread := @decodeProperties_read key val [] hkey hval.hasType fuel' n v
        (start ++ entries.flatMap entryBytes) (by rw [List.append_nil]; exact hv) obj
      have hshort : (start ++ entries.flatMap entryBytes ++ (Bytes.writeU16Be key.length.toUInt16 ++
          (key ++ (val ++ [])))).length <
            (start ++ entries.flatMap entryBytes).length + 2 + key.length + n + 3 := by
        simp only [List.length_append, Bytes.length_writeU16Be, List.length_nil]
        omega
      dsimp only at hread
      rw [decodeProperties_short hshort] at hread
      simp only [List.append_nil, List.length_append, List.append_assoc] at hread
      simp only [entryBytes] at hloop
      rw [hread] at hloop
      refine ⟨.object (obj.set key v),
        start.length + (entries.flatMap entryBytes).length + 2 + key.length + n,
        ends ++ [0, 0, 9], ?_, ?_, ?_, by simp, ?_⟩
      · rw [decodeImpl_start hstart, entryBytes, hloop]
        rfl
      · simp only [List.length_append, length_entryBytes]
        omega
      · simp only [List.length_append, length_entryBytes]
        omega
      · -- the last property becomes a whole one
        have hwhole : ∀ e ∈ entries ++ [(key, val.take n ++ ends)],
            e.1.length ≤ 65535 ∧ Complete e.2 := by
          intro e he
          rcases List.mem_append.1 he with he | he
          · exact hentries e he
          · rw [List.mem_singleton.1 he]
            exact ⟨hkey, hcomplete⟩
        have hobject := Complete.object hstart (fun e he => (hwhole e he).1) fun e he =>
          (hwhole e he).2
        rw [take_entryBytes]
        simpa only [List.flatMap_append, List.flatMap_singleton, entryBytes, List.append_assoc]
          using hobject

/-! ### Nothing else is decoded -/

theorem drop_of_byteAt {i : ℕ} {b : UInt8} (h : byteAt data i = .ok b) :
    data.drop i = b :: data.drop (i + 1) := by
  rw [byteAt] at h
  cases hget : data[i]? with
  | none =>
      rw [hget] at h
      cases h
  | some b' =>
      rw [hget] at h
      cases h
      obtain ⟨hlt, rfl⟩ := List.getElem?_eq_some_iff.1 hget
      exact List.drop_eq_getElem_cons hlt

theorem drop_of_u16At {i : ℕ} {k : UInt16} (h : u16At data i = .ok k) :
    data.drop i = Bytes.writeU16Be k ++ data.drop (i + 2) := by
  unfold u16At at h
  cases ha : byteAt data i with
  | error f =>
      rw [ha] at h
      cases h
  | ok a =>
      cases hb : byteAt data (i + 1) with
      | error f =>
          rw [ha, hb] at h
          cases h
      | ok b =>
          rw [ha, hb] at h
          have hk : Bytes.readU16Be a b = k := Except.ok.inj h
          rw [(Bytes.writeU16Be_eq_iff k a b).2 hk.symm, drop_of_byteAt ha, drop_of_byteAt hb]
          rfl

theorem drop_of_bytesAt {i n : ℕ} {key : List UInt8} (h : bytesAt data i n = .ok key) :
    data.drop i = key ++ data.drop (i + n) := by
  unfold bytesAt at h
  split at h
  · cases h
    rw [← List.drop_drop, List.take_append_drop]
  · cases h

/-- A key that has been read makes up a property with what is behind it. -/
theorem drop_entry {i : ℕ} {k : UInt16} {key : List UInt8} (hlen : u16At data i = .ok k)
    (hkey : bytesAt data (i + 2) k.toNat = .ok key) :
    key.length ≤ 65535 ∧ ∀ val rest, data.drop (i + 2 + k.toNat) = val ++ rest →
      data.drop i = entryBytes (key, val) ++ rest := by
  have hlength := Rtmp.length_of_bytesAt hkey
  have hk : key.length.toUInt16 = k := by
    rw [hlength, Nat.toUInt16, UInt16.ofNat_toNat]
  refine ⟨by have := k.toNat_lt; omega, fun val rest hrest => ?_⟩
  rw [drop_of_u16At hlen, drop_of_bytesAt hkey, hrest, entryBytes, hk]
  simp only [List.append_assoc]

/-- What is behind the whole properties of an object when it is left open: fewer than three bytes, or a
property whose value leaves an object open. -/
def OpenTail (tail : List UInt8) : Prop :=
  tail.length < 3 ∨ ∃ key val, key.length ≤ 65535 ∧ LeavesOpen val ∧ tail = entryBytes (key, val)

theorem LeavesOpen.of_tail {start tail : List UInt8} (hstart : Start start)
    (hentries : ∀ e ∈ entries, e.1.length ≤ 65535 ∧ Complete e.2) (h : OpenTail tail) :
    LeavesOpen (start ++ (entries.flatMap entryBytes ++ tail)) := by
  rcases h with hshort | ⟨key, val, hkey, hval, rfl⟩
  · exact .short hstart hentries hshort
  · exact .value hstart hentries hkey hval

/-- What a value that was decoded with `n` bytes was read from: a whole value of `n` bytes, or bytes that
leave an object open. -/
def ReadFrom (data : List UInt8) (n : ℕ) : Prop :=
  (∃ whole rest, data = whole ++ rest ∧ whole.length = n ∧ Complete whole) ∨
    (LeavesOpen data ∧ data.length < n + 3)

/-- What the loop over the properties has passed from `offset` to `n`: whole properties and the end
marker, or whole properties and what leaves the object open. -/
def Passed (data : List UInt8) (offset n : ℕ) : Prop :=
  ∃ entries : List (List UInt8 × List UInt8), (∀ e ∈ entries, e.1.length ≤ 65535 ∧ Complete e.2) ∧
    ((∃ rest, data.drop offset = entries.flatMap entryBytes ++ ([0, 0, 9] ++ rest) ∧
        n = offset + (entries.flatMap entryBytes).length + 3) ∨
      (data.length < n + 3 ∧
        ∃ tail, OpenTail tail ∧ data.drop offset = entries.flatMap entryBytes ++ tail))

theorem Passed.short {offset : ℕ} (h : data.length < offset + 3) : Passed data offset offset := by
  refine ⟨[], by simp, .inr ⟨h, data.drop offset, .inl ?_, rfl⟩⟩
  rw [List.length_drop]
  omega

/-- A property whose value is whole, and what is passed behind it. -/
theorem Passed.cons {offset n : ℕ} {k : UInt16} {key whole rest : List UInt8}
    (hlen : u16At data offset = .ok k) (hkey : bytesAt data (offset + 2) k.toNat = .ok key)
    (hsplit : data.drop (offset + 2 + k.toNat) = whole ++ rest) (hwhole : Complete whole)
    (h : Passed data (offset + 2 + k.toNat + whole.length) n) : Passed data offset n := by
  obtain ⟨hbound, hentry⟩ := drop_entry hlen hkey
  obtain ⟨entries, hentries, hend⟩ := h
  have hnext : data.drop (offset + 2 + k.toNat + whole.length) = rest := by
    rw [← List.drop_drop, hsplit, List.drop_left]
  rw [hnext] at hend
  refine ⟨(key, whole) :: entries, ?_, ?_⟩
  · intro e he
    rcases List.mem_cons.1 he with rfl | he
    · exact ⟨hbound, hwhole⟩
    · exact hentries e he
  · have hlength := Rtmp.length_of_bytesAt hkey
    rcases hend with ⟨rest', hdrop, hn⟩ | ⟨hleft, tail, htail, hdrop⟩
    · refine .inl ⟨rest', ?_, ?_⟩
      · rw [hentry whole rest hsplit, hdrop, List.flatMap_cons, List.append_assoc]
      · rw [hn, List.flatMap_cons, List.length_append, length_entryBytes]
        simp only [hlength]
        omega
    · refine .inr ⟨hleft, tail, htail, ?_⟩
      rw [hentry whole rest hsplit, hdrop, List.flatMap_cons, List.append_assoc]

/-- An object is read from its beginning and what the loop has passed. -/
theorem Passed.readFrom {start : List UInt8} {n : ℕ} (hstart : Start start)
    (hsplit : data = start ++ data.drop start.length) (h : Passed data start.length n) :
    ReadFrom data n := by
  obtain ⟨entries, hentries, ⟨rest, hdrop, rfl⟩ | ⟨hleft, tail, htail, hdrop⟩⟩ := h
  · refine .inl ⟨start ++ (entries.flatMap entryBytes ++ [0, 0, 9]), rest, ?_, ?_,
      .object hstart (fun e he => (hentries e he).1) fun e he => (hentries e he).2⟩
    · rw [hdrop] at hsplit
      simpa only [List.append_assoc] using hsplit
    · simp only [List.length_append, List.length_cons, List.length_nil]
      omega
  · rw [hdrop] at hsplit
    refine .inr ⟨?_, hleft⟩
    rw [hsplit]
    exact .of_tail hstart hentries htail

theorem readFrom_string {str : List UInt8} {n : ℕ}
    (hdata : data = ValueType.string.code :: data.drop 1)
    (h : decodeString (data.drop 1) false = .ok (str, n)) : ReadFrom data (n + 1) := by
  obtain ⟨len, hlen, hbytes, rfl⟩ := decodeString_ok h
  have hlength := Rtmp.length_of_bytesAt hbytes
  have hlen' : str.length.toUInt16 = len := by
    rw [hlength, Nat.toUInt16, UInt16.ofNat_toNat]
  refine .inl ⟨encodeString str true, (data.drop 1).drop (2 + len.toNat), ?_, ?_,
    .string (decodeString_length h)⟩
  · have hsplit := drop_of_u16At hlen
    rw [List.drop_zero, Nat.zero_add, drop_of_bytesAt hbytes] at hsplit
    rw [encodeString, hlen', if_pos rfl, List.append_assoc, List.append_assoc, ← hsplit]
    exact hdata
  · rw [encodeString, if_pos rfl, List.length_append, List.length_append, Bytes.length_writeU16Be,
      hlength]
    exact Nat.add_comm _ _

/-- A value is read from its bytes, if the loop over the properties passes only what it should. -/
theorem readFrom_decodeImpl {fuel : ℕ}
    (hloop : ∀ data offset obj obj' n, offset ≤ data.length →
      decodeProperties fuel data offset obj = .ok (obj', n) → Passed data offset n)
    {v : Value} {n : ℕ} (h : decodeImpl (fuel + 1) data = .ok (v, n)) : ReadFrom data n := by
  have hwithin := (within_decode (fuel + 1)).1 data
  rw [h] at hwithin
  have hn : n ≤ data.length := hwithin.2
  obtain ⟨type, htype, hcases⟩ := decodeImpl_ok h
  have hdata : data = type :: data.drop 1 := by
    have := drop_of_byteAt htype
    rwa [List.drop_zero] at this
  rcases hcases with ⟨bits, rfl, hlong, -, heq⟩ | ⟨b, rfl, hb, heq⟩ | ⟨str, k, rfl, hstr, heq⟩ |
    ⟨rfl, heq⟩ | ⟨offset, obj, k, hstart, hproperties, heq⟩
  · -- a number
    obtain ⟨rfl, rfl⟩ := Prod.mk.inj heq
    refine .inl ⟨ValueType.number.code :: (data.drop 1).take 8, data.drop 9, ?_, ?_, .number ?_⟩
    · rw [List.cons_append, ← List.drop_drop (i := 8) (j := 1), List.take_append_drop]
      exact hdata
    · rw [List.length_cons, List.length_take, List.length_drop]
      omega
    · rw [List.length_take, List.length_drop]
      omega
  · -- a boolean
    obtain ⟨rfl, rfl⟩ := Prod.mk.inj heq
    refine .inl ⟨[ValueType.boolean.code, b], data.drop 2, ?_, rfl, .boolean b⟩
    rw [List.cons_append, List.singleton_append, ← drop_of_byteAt hb]
    exact hdata
  · -- a string
    obtain ⟨rfl, rfl⟩ := Prod.mk.inj heq
    exact readFrom_string hdata hstr
  · -- a null
    obtain ⟨rfl, rfl⟩ := Prod.mk.inj heq
    exact .inl ⟨[ValueType.null.code], data.drop 1, hdata, rfl, .null⟩
  · -- an object or an ECMA array
    obtain ⟨rfl, rfl⟩ := Prod.mk.inj heq
    obtain ⟨start, hbegin, rfl, hsplit⟩ : ∃ start, Start start ∧ start.length = offset ∧
        data = start ++ data.drop offset := by
      rcases hstart with ⟨rfl, rfl⟩ | ⟨rfl, rfl, hlong⟩
      · exact ⟨_, .object, rfl, hdata⟩
      · refine ⟨ValueType.ecmaArray.code :: (data.drop 1).take 4, .ecmaArray ?_, ?_, ?_⟩
        · rw [List.length_take, List.length_drop]
          omega
        · rw [List.length_cons, List.length_take, List.length_drop]
          omega
        · rw [List.cons_append, ← List.drop_drop (i := 4) (j := 1), List.take_append_drop]
          exact hdata
    have hoffset : start.length ≤ data.length := by
      rw [hsplit, List.length_append]
      exact Nat.le_add_right _ _
    exact (hloop data _ .empty obj n hoffset hproperties).readFrom hbegin hsplit

/-- The loop passes only what it should, if values are read from their bytes in it. -/
theorem passed_decodeProperties {fuel : ℕ}
    (hvalue : ∀ data v n, decodeImpl fuel data = .ok (v, n) → ReadFrom data n)
    (hloop : ∀ data offset obj obj' n, offset ≤ data.length →
      decodeProperties fuel data offset obj = .ok (obj', n) → Passed data offset n)
    {offset n : ℕ} {obj obj' : ObjectType} (hoffset : offset ≤ data.length)
    (h : decodeProperties (fuel + 1) data offset obj = .ok (obj', n)) : Passed data offset n := by
  rcases decodeProperties_ok h with ⟨hshort, heq⟩ | ⟨hzero, hnine, heq⟩ |
    ⟨keyLen, key, val, k, hkeyLen, hkey, hval, hrest⟩
  · obtain ⟨rfl, rfl⟩ := Prod.mk.inj heq
    exact .short hshort
  · -- the end marker
    obtain ⟨rfl, rfl⟩ := Prod.mk.inj heq
    refine ⟨[], by simp, .inl ⟨data.drop (offset + 3), ?_, rfl⟩⟩
    have hmarker : byteAt data (offset + 2) = .ok 9 := by
      rw [byteAt, hnine]
    rw [drop_of_u16At hzero, drop_of_byteAt hmarker]
    rfl
  · have hwithin := (within_decode fuel).1 (data.drop (offset + 2 + keyLen.toNat))
    rw [hval, List.length_drop] at hwithin
    have hk : 1 ≤ k ∧ k ≤ data.length - (offset + 2 + keyLen.toNat) := hwithin
    rcases hvalue _ _ _ hval with ⟨whole, rest, hsplit, rfl, hwhole⟩ | ⟨hopen, hleft⟩
    · -- the value is whole, and the loop goes on behind it
      exact .cons hkeyLen hkey hsplit hwhole (hloop data _ _ _ _ (by omega) hrest)
    · -- the value leaves an object open, and the loop ends with it
      obtain ⟨hbound, hentry⟩ := drop_entry hkeyLen hkey
      rw [List.length_drop] at hleft
      rw [decodeProperties_short (by omega)] at hrest
      obtain ⟨rfl, rfl⟩ := Prod.mk.inj (Except.ok.inj hrest)
      refine ⟨[], by simp, .inr ⟨by omega, _, .inr ⟨key, _, hbound, hopen, rfl⟩, ?_⟩⟩
      rw [hentry _ [] (List.append_nil _).symm, List.append_nil]
      rfl

/-- **What is decoded begins with a whole value, or leaves an object open**: by induction on the calls,
for values and for the loop over the properties of an object at once. -/
theorem complete_or_leavesOpen (fuel : ℕ) :
    (∀ data v n, decodeImpl fuel data = .ok (v, n) → ReadFrom data n) ∧
    (∀ data offset obj obj' n, offset ≤ data.length →
      decodeProperties fuel data offset obj = .ok (obj', n) → Passed data offset n) := by
  induction fuel with
  | zero =>
      constructor
      · intro data v n h
        cases h
      · intro data offset obj obj' n hoffset h
        rw [decodeProperties] at h
        split at h
        · cases h
        · cases h
          exact .short (by omega)
  | succ fuel ih =>
      obtain ⟨ihv, ihp⟩ := ih
      constructor
      · intro data v n h
        exact readFrom_decodeImpl ihp h
      · intro data offset obj obj' n hoffset h
        exact passed_decodeProperties ihv ihp hoffset h

/-! ### Cutting off -/

theorem complete_encode (v : Raw) (hb : v.Bounded) : Complete (encodeValueImpl v) := by
  induction v using Raw.ind with
  | null =>
      rw [encodeValueImpl]
      exact .null
  | number bits =>
      rw [encodeValueImpl]
      exact .number (Bytes.length_writeF64Be bits)
  | boolean b =>
      rw [encodeValueImpl]
      exact .boolean _
  | string s =>
      cases hb with
      | string hs =>
          rw [encodeValueImpl]
          exact .string hs
  | object fields ih =>
      cases hb with
      | object hkeys hvals =>
          have hentries : encodeProperties fields =
              (fields.map fun p => (p.1, encodeValueImpl p.2)).flatMap entryBytes := by
            clear ih hkeys hvals
            induction fields with
            | nil => rfl
            | cons p fields ih =>
                rw [encodeProperties, ih, List.map_cons, List.flatMap_cons, entryBytes]
                simp only [List.append_assoc]
          rw [encodeValueImpl, hentries]
          refine @Complete.object [ValueType.object.code] _ .object ?_ ?_
          · intro e he
            obtain ⟨p, hp, rfl⟩ := List.mem_map.1 he
            exact hkeys p hp
          · intro e he
            obtain ⟨p, hp, rfl⟩ := List.mem_map.1 he
            exact ih p hp (hvals p hp)

/-- What leaves an object open is accepted, and what is taken is no whole value: with the end markers
that are missing it would be one, and a whole value is not the beginning of a longer one. -/
theorem LeavesOpen.accepted (h : LeavesOpen data) :
    ∃ v n, decode data = .ok (v, n) ∧ ¬ Complete (data.take n) := by
  obtain ⟨v, n, ends, hv, hn, -, hends, hcomplete⟩ := h.decoded _ (Nat.lt_succ_self _)
  refine ⟨v, n, hv, fun htake => hends ?_⟩
  obtain ⟨v₁, h₁⟩ := htake.decodable _ ends (Nat.lt_succ_self _)
  obtain ⟨v₂, h₂⟩ := hcomplete.decodable _ [] (Nat.lt_succ_self _)
  rw [List.append_nil, h₁] at h₂
  have hlength : (data.take n).length = (data.take n ++ ends).length :=
    congrArg Prod.snd (Except.ok.inj h₂)
  rw [List.length_append] at hlength
  exact List.eq_nil_of_length_eq_zero (by omega)

/-- **A value that is cut off is rejected exactly if it leaves no object open**, and so are bytes of any
kind: what is accepted is a whole value exactly if no object is left open. -/
theorem decode_truncated_iff (p : List UInt8) :
    (∀ v : Value, v.1.Bounded → p <+: encode v → p ≠ encode v →
      ((∃ text, decode p = .error (.err text)) ↔ ¬ LeavesOpen p)) ∧
    ((∀ v n, decode p = .ok (v, n) → Complete (p.take n)) ↔ ¬ LeavesOpen p) := by
  constructor
  · intro v hb hpre hne
    constructor
    · rintro ⟨text, herr⟩ hopen
      obtain ⟨v', n, hok, -⟩ := hopen.accepted
      rw [hok] at herr
      cases herr
    · intro hopen
      have hwithin := decode_within p
      cases hanswer : decode p with
      | error f =>
          rw [hanswer] at hwithin
          cases f with
          | err text => exact ⟨text, rfl⟩
          | outOfFuel => exact absurd trivial hwithin
          | _ => exact absurd hwithin id
      | ok r =>
          exfalso
          obtain ⟨v', n⟩ := r
          rcases (complete_or_leavesOpen _).1 _ _ _ hanswer with
            ⟨whole, rest, rfl, -, hwhole⟩ | ⟨hopen', -⟩
          · -- the whole value would be all of the bytes
            obtain ⟨more, hmore⟩ := hpre
            rw [List.append_assoc] at hmore
            obtain ⟨v₁, h₁⟩ := hwhole.decodable _ (rest ++ more) (Nat.lt_succ_self _)
            obtain ⟨v₂, h₂⟩ := (complete_encode v.1 hb).decodable _ [] (Nat.lt_succ_self _)
            have hsame : encodeValueImpl v.1 = whole ++ (rest ++ more) := hmore.symm
            rw [List.append_nil, hsame, h₁] at h₂
            have hlength : whole.length = (whole ++ (rest ++ more)).length :=
              congrArg Prod.snd (Except.ok.inj h₂)
            have hnil : rest ++ more = [] := by
              rw [List.length_append] at hlength
              exact List.eq_nil_of_length_eq_zero (by omega)
            obtain ⟨rfl, rfl⟩ := List.append_eq_nil_iff.1 hnil
            exact hne hmore
          · exact hopen hopen'
  · constructor
    · intro hall hopen
      obtain ⟨v, n, hok, hnot⟩ := hopen.accepted
      exact hnot (hall v n hok)
    · intro hopen v n hok
      rcases (complete_or_leavesOpen _).1 _ _ _ hok with ⟨whole, rest, rfl, rfl, hwhole⟩ | ⟨hopen', -⟩
      · rwa [List.take_left]
      · exact absurd hopen' hopen

/-- An object with a property, cut off behind its type. -/
theorem decode_truncated_iff_start :
    ¬ ∃ text, decode [3] = .error (.err text) := by
  let v : Value := .object (ObjectType.empty.set [97] .null)
  have hb : v.1.Bounded := by
    have hobj : (ObjectType.empty.set [97] .null).Bounded :=
      ObjectType.Bounded.set (fun p hp => absurd hp List.not_mem_nil) (by decide) .null
    exact .object (fun p hp => (hobj p hp).1) fun p hp => (hobj p hp).2
  have hencode : encode v = [3, 0, 1, 97, 5, 0, 0, 9] := by
    simp [v, encode, Value.object, ObjectType.set, ObjectType.empty, OrderedMap.insert, Value.null,
      encodeValueImpl, encodeProperties, ValueType.code]
    rfl
  have hopen : LeavesOpen [3] := @LeavesOpen.short [3] [] [] .object (by simp) (by decide)
  rw [(decode_truncated_iff [3]).1 v hb (by rw [hencode]; exact ⟨_, rfl⟩) (by rw [hencode]; decide)]
  exact not_not_intro hopen

/-- An object that is cut off behind its type is accepted. -/
theorem truncated_object : ¬ ∀ v : Value, v.1.Bounded → ∀ p, p <+: encode v → p ≠ encode v →
    ∃ text, decode p = .error (.err text) := by
  intro hall
  let v : Value := .object .empty
  have hencode : encode v = [3, 0, 0, 9] := by
    simp [v, encode, Value.object, ObjectType.empty, encodeValueImpl, encodeProperties, ValueType.code]
  have hb : v.1.Bounded :=
    .object (fun p hp => absurd hp List.not_mem_nil) fun p hp => absurd hp List.not_mem_nil
  obtain ⟨text, herr⟩ := hall v hb [3] (by rw [hencode]; exact ⟨_, rfl⟩) (by rw [hencode]; decide)
  cases herr

end Amf0
