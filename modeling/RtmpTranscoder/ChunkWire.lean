/-
**Chunk headers on the wire.**

`Rtmp.parseHeader` reads a header field by field and mixes what the bytes say with what the parser
remembers of the chunk stream.  This module separates the two.  A `WireHeader` is what the bytes
say; `WireHeader.bytes` writes it down; `WireHeader.header` and `WireHeader.remember` are the
header the parser makes of it and the header it remembers, given the one it remembered before.

Only one thing on the wire depends on the past: whether a format 3 header carries an extended
field.  `WireHeader.Fits` says that it does when the parser expects it to.

Main definitions:

* `Rtmp.BasicHeader`, `Rtmp.Stamp`, `Rtmp.MessageHeader`, `Rtmp.WireHeader` — headers, which by
  their types are in range;
* `Rtmp.WireHeader.Fits` — the extended field of a format 3 header is there when expected.

Main results:

* `Rtmp.parseHeader_bytes` — **a header that is written is read**, whatever follows it;
* `Rtmp.parseHeader_cases` — **what is read is a header that could be written**, and everything
  else is reported as incomplete: `parseHeader` has no other error, and it never reads past the
  end of its span.
-/

import RtmpTranscoder.Chunks

set_option relaxedAutoImplicit false
set_option autoImplicit false

namespace Rtmp

/-! ### Headers as data -/

abbrev U24 := { v : UInt32 // v.toNat < 2 ^ 24 }

/-- The chunk stream id in one of its three spellings; small ids have only one, the ids from 64 to
319 have two. -/
inductive BasicHeader where
  | one (b : UInt8) (h : 2 ≤ b.toNat ∧ b.toNat < 64)
  | two (b : UInt8)
  | three (b c : UInt8)

def BasicHeader.csid : BasicHeader → UInt32
  | .one b _ => b.toUInt32
  | .two b => 64 + b.toUInt32
  | .three b c => 64 + b.toUInt32 + c.toUInt32 * 256

/-- The basic header of a chunk of format `fmt`. -/
def BasicHeader.bytes (fmt : UInt8) : BasicHeader → List UInt8
  | .one b _ => [(fmt <<< 6) ||| b]
  | .two b => [fmt <<< 6, b]
  | .three b c => [(fmt <<< 6) ||| 1, b, c]

/-- A timestamp or a timestamp difference: in the 24-bit field, or in the 32-bit field that a
24-bit field of all ones announces. -/
inductive Stamp where
  | short (v : UInt32) (h : v.toNat < 0xFFFFFF)
  | extended (v : UInt32)

def Stamp.value : Stamp → UInt32
  | .short v _ => v
  | .extended v => v

def Stamp.isExtended : Stamp → Bool
  | .short _ _ => false
  | .extended _ => true

def Stamp.field : Stamp → UInt32
  | .short v _ => v
  | .extended _ => 0xFFFFFF

/-- The bytes of the extended field, if there is one. -/
def Stamp.extension : Stamp → List UInt8
  | .short _ _ => []
  | .extended v => Bytes.writeU32Be v

theorem Stamp.toNat_field_lt (s : Stamp) : s.field.toNat < 2 ^ 24 := by
  cases s with
  | short v h => simp only [Stamp.field]; omega
  | extended v => simp [Stamp.field]

theorem Stamp.length_extension_le (s : Stamp) : s.extension.length ≤ 4 := by
  cases s <;> simp [Stamp.extension]

/-- The part of a header behind the chunk stream id, by format. -/
inductive MessageHeader where
  | fmt0 (stamp : Stamp) (length : U24) (typeId : UInt8) (streamId : UInt32)
  | fmt1 (stamp : Stamp) (length : U24) (typeId : UInt8)
  | fmt2 (stamp : Stamp)
  | fmt3 (extended : Option UInt32)

def MessageHeader.fmt : MessageHeader → UInt8
  | .fmt0 .. => 0
  | .fmt1 .. => 1
  | .fmt2 .. => 2
  | .fmt3 .. => 3

def MessageHeader.bytes : MessageHeader → List UInt8
  | .fmt0 stamp length typeId streamId =>
      Bytes.writeU24Be stamp.field ++ (Bytes.writeU24Be length ++
        (typeId :: (Bytes.writeU32Le streamId ++ stamp.extension)))
  | .fmt1 stamp length typeId =>
      Bytes.writeU24Be stamp.field ++ (Bytes.writeU24Be length ++ (typeId :: stamp.extension))
  | .fmt2 stamp => Bytes.writeU24Be stamp.field ++ stamp.extension
  | .fmt3 none => []
  | .fmt3 (some v) => Bytes.writeU32Be v

/-- A chunk header as it is written. -/
structure WireHeader where
  basic : BasicHeader
  message : MessageHeader

namespace WireHeader

variable (w : WireHeader)

def csid : UInt32 := w.basic.csid

def bytes : List UInt8 := w.basic.bytes w.message.fmt ++ w.message.bytes

/-- The header the parser makes of `w`, given the previous header of the chunk stream. -/
def header (prev : ChunkHeader) : ChunkHeader :=
  match w.message with
  | .fmt0 stamp length typeId streamId =>
      { fmt := 0, chunkStreamId := w.csid, timestamp := stamp.value, messageLength := length,
        messageTypeId := typeId, messageStreamId := streamId,
        hasExtendedTimestamp := stamp.isExtended }
  | .fmt1 stamp length typeId =>
      { fmt := 1, chunkStreamId := w.csid, timestamp := prev.timestamp + stamp.value,
        messageLength := length, messageTypeId := typeId, messageStreamId := prev.messageStreamId,
        hasExtendedTimestamp := stamp.isExtended }
  | .fmt2 stamp =>
      { fmt := 2, chunkStreamId := w.csid, timestamp := prev.timestamp + stamp.value,
        messageLength := prev.messageLength, messageTypeId := prev.messageTypeId,
        messageStreamId := prev.messageStreamId, hasExtendedTimestamp := stamp.isExtended }
  | .fmt3 none => prev
  | .fmt3 (some v) => { prev with timestamp := v }

/-- The header the parser remembers for the next one. -/
def remember (prev : ChunkHeader) : ChunkHeader :=
  match w.message with
  | .fmt0 .. => w.header prev
  | .fmt1 .. => w.header prev
  | .fmt2 stamp => { prev with timestamp := prev.timestamp + stamp.value }
  | .fmt3 _ => prev

/-- A format 3 header carries an extended field when the parser expects one. -/
def Fits (streams : Streams) : Prop :=
  match w.message with
  | .fmt3 ext => ext.isSome = (streams w.csid).prevHeader.hasExtendedTimestamp
  | _ => True

/-- `streams_` after the header has been read. -/
def update (streams : Streams) : Streams :=
  Function.update streams w.csid
    { streams w.csid with prevHeader := w.remember (streams w.csid).prevHeader }

end WireHeader

/-! ### Sizes -/

theorem BasicHeader.length_bytes_pos (b : BasicHeader) (fmt : UInt8) :
    0 < (b.bytes fmt).length := by
  cases b <;> simp [BasicHeader.bytes]

theorem BasicHeader.length_bytes_le (b : BasicHeader) (fmt : UInt8) :
    (b.bytes fmt).length ≤ 3 := by
  cases b <;> simp [BasicHeader.bytes]

theorem MessageHeader.length_bytes_le (m : MessageHeader) : m.bytes.length ≤ 15 := by
  cases m with
  | fmt0 stamp length typeId streamId =>
      have := stamp.length_extension_le
      simp [MessageHeader.bytes]
      omega
  | fmt1 stamp length typeId =>
      have := stamp.length_extension_le
      simp [MessageHeader.bytes]
      omega
  | fmt2 stamp =>
      have := stamp.length_extension_le
      simp [MessageHeader.bytes]
      omega
  | fmt3 ext => cases ext <;> simp [MessageHeader.bytes]

theorem WireHeader.length_bytes_pos (w : WireHeader) : 0 < w.bytes.length := by
  have := w.basic.length_bytes_pos w.message.fmt
  simp only [WireHeader.bytes, List.length_append]
  omega

theorem WireHeader.length_bytes_le (w : WireHeader) : w.bytes.length ≤ 18 := by
  have h₁ := w.basic.length_bytes_le w.message.fmt
  have h₂ := w.message.length_bytes_le
  simp only [WireHeader.bytes, List.length_append]
  omega

theorem BasicHeader.two_le_csid (b : BasicHeader) : 2 ≤ b.csid.toNat := by
  cases b with
  | one b h => simpa [BasicHeader.csid] using h.1
  | two b =>
      have := b.toNat_lt
      simp only [BasicHeader.csid, UInt32.toNat_add, UInt8.toNat_toUInt32, UInt32.reduceToNat]
      omega
  | three b c =>
      have := b.toNat_lt
      have := c.toNat_lt
      simp only [BasicHeader.csid, UInt32.toNat_add, UInt32.toNat_mul, UInt8.toNat_toUInt32,
        UInt32.reduceToNat]
      omega

theorem WireHeader.csid_ne_zero (w : WireHeader) : w.csid ≠ 0 := by
  intro h
  have := w.basic.two_le_csid
  rw [← WireHeader.csid, h] at this
  simp at this

/-! ### Reading at an offset -/

theorem u24At_append (pre body : List UInt8) (i : ℕ) :
    u24At (pre ++ body) (pre.length + i) = u24At body i := by
  simp only [u24At, Nat.add_assoc, byteAt_append]

theorem u32At_append (pre body : List UInt8) (i : ℕ) :
    u32At (pre ++ body) (pre.length + i) = u32At body i := by
  simp only [u32At, Nat.add_assoc, byteAt_append]

theorem u32LeAt_append (pre body : List UInt8) (i : ℕ) :
    u32LeAt (pre ++ body) (pre.length + i) = u32LeAt body i := by
  simp only [u32LeAt, Nat.add_assoc, byteAt_append]

theorem u32At_write (v : UInt32) (rest : List UInt8) :
    u32At (Bytes.writeU32Be v ++ rest) 0 = .ok v := by
  obtain ⟨a, b, c, d, hw, hr⟩ := Bytes.exists_writeU32Be v
  rw [hw, ← hr]
  rfl

/-! ### A header that is written is read -/

theorem parseExtendedTimestamp_bytes (data pre rest : List UInt8) (offset : ℕ) (s : Stamp)
    (hd : data = pre ++ (s.extension ++ rest)) (ho : offset = pre.length) :
    parseExtendedTimestamp data offset s.field
      = .ok (s.value, s.isExtended, offset + s.extension.length) := by
  subst hd ho
  cases s with
  | short v h =>
      have hne : v ≠ 0xFFFFFF := by
        rintro rfl
        simp at h
      simp [parseExtendedTimestamp, Stamp.field, Stamp.value, Stamp.isExtended, Stamp.extension,
        hne, pure, Except.pure]
  | extended v =>
      have hread : u32At (pre ++ (Bytes.writeU32Be v ++ rest)) pre.length = .ok v := by
        simpa using (u32At_append pre (Bytes.writeU32Be v ++ rest) 0).trans (u32At_write v rest)
      simp [parseExtendedTimestamp, Stamp.field, Stamp.value, Stamp.isExtended, Stamp.extension,
        hread, pure, Except.pure, bind, Except.bind]

theorem read_common {data pre t : List UInt8} {a₁ a₂ a₃ l₁ l₂ l₃ typeId : UInt8}
    (hd : data = pre ++ a₁ :: a₂ :: a₃ :: l₁ :: l₂ :: l₃ :: typeId :: t) :
    u24At data pre.length = .ok (Bytes.readU24Be a₁ a₂ a₃) ∧
      u24At data (pre.length + 3) = .ok (Bytes.readU24Be l₁ l₂ l₃) ∧
        byteAt data (pre.length + 6) = .ok typeId := by
  subst hd
  refine ⟨(u24At_append pre _ 0).trans rfl, ?_, ?_⟩
  · rw [u24At_append]
    rfl
  · rw [byteAt_append]
    rfl

/-- Format 0 once the bytes are at hand: all that can still be missing is the extended field. -/
theorem parseFmt0_cons (pre t : List UInt8) (a₁ a₂ a₃ l₁ l₂ l₃ typeId s₁ s₂ s₃ s₄ : UInt8)
    (header : ChunkHeader) (state : StreamState) {data : List UInt8}
    (hd : data = pre ++ a₁ :: a₂ :: a₃ :: l₁ :: l₂ :: l₃ :: typeId :: s₁ :: s₂ :: s₃ :: s₄ :: t) :
    parseFmt0 data pre.length header state = do
      let (timestamp, ext, offset) ←
        parseExtendedTimestamp data (pre.length + 11) (Bytes.readU24Be a₁ a₂ a₃)
      let header := { header with
        timestamp := timestamp, messageLength := Bytes.readU24Be l₁ l₂ l₃,
        messageTypeId := typeId, messageStreamId := Bytes.readU32Le s₁ s₂ s₃ s₄,
        hasExtendedTimestamp := ext }
      return (header, offset, { state with prevHeader := header }) := by
  have hlen : ¬ data.length < pre.length + 11 := by
    simp [hd]
  obtain ⟨h₀, h₃, h₆⟩ := read_common hd
  have h₇ : u32LeAt data (pre.length + 7) = .ok (Bytes.readU32Le s₁ s₂ s₃ s₄) := by
    rw [hd, u32LeAt_append]
    rfl
  simp only [parseFmt0, if_neg hlen, h₀, h₃, h₆, h₇, bind, Except.bind, pure, Except.pure]

theorem parseFmt1_cons (pre t : List UInt8) (a₁ a₂ a₃ l₁ l₂ l₃ typeId : UInt8)
    (header : ChunkHeader) (state : StreamState) {data : List UInt8}
    (hd : data = pre ++ a₁ :: a₂ :: a₃ :: l₁ :: l₂ :: l₃ :: typeId :: t) :
    parseFmt1 data pre.length header state = do
      let (timestampDelta, ext, offset) ←
        parseExtendedTimestamp data (pre.length + 7) (Bytes.readU24Be a₁ a₂ a₃)
      let header := { header with
        timestamp := state.prevHeader.timestamp + timestampDelta,
        messageLength := Bytes.readU24Be l₁ l₂ l₃, messageTypeId := typeId,
        messageStreamId := state.prevHeader.messageStreamId, hasExtendedTimestamp := ext }
      return (header, offset, { state with prevHeader := header }) := by
  have hlen : ¬ data.length < pre.length + 7 := by
    simp [hd]
  obtain ⟨h₀, h₃, h₆⟩ := read_common hd
  simp only [parseFmt1, if_neg hlen, h₀, h₃, h₆, bind, Except.bind, pure, Except.pure]

theorem parseFmt2_cons (pre t : List UInt8) (a₁ a₂ a₃ : UInt8)
    (header : ChunkHeader) (state : StreamState) {data : List UInt8}
    (hd : data = pre ++ a₁ :: a₂ :: a₃ :: t) :
    parseFmt2 data pre.length header state = do
      let (timestampDelta, ext, offset) ←
        parseExtendedTimestamp data (pre.length + 3) (Bytes.readU24Be a₁ a₂ a₃)
      let header := { header with
        timestamp := state.prevHeader.timestamp + timestampDelta,
        messageLength := state.prevHeader.messageLength,
        messageTypeId := state.prevHeader.messageTypeId,
        messageStreamId := state.prevHeader.messageStreamId, hasExtendedTimestamp := ext }
      return (header, offset,
        { state with prevHeader := { state.prevHeader with timestamp := header.timestamp } }) := by
  have hlen : ¬ data.length < pre.length + 3 := by
    simp [hd]
  have h₀ : u24At data pre.length = .ok (Bytes.readU24Be a₁ a₂ a₃) := by
    rw [hd]
    exact (u24At_append pre _ 0).trans rfl
  simp only [parseFmt2, if_neg hlen, h₀, bind, Except.bind, pure, Except.pure]

theorem parseFmt0_bytes (pre rest : List UInt8) (state : StreamState) (b : BasicHeader)
    (stamp : Stamp) (length : U24) (typeId : UInt8) (streamId : UInt32) :
    let w : WireHeader := ⟨b, .fmt0 stamp length typeId streamId⟩
    parseFmt0 (pre ++ (w.message.bytes ++ rest)) pre.length
        { fmt := 0, chunkStreamId := w.csid } state
      = .ok (w.header state.prevHeader, pre.length + w.message.bytes.length,
          { state with prevHeader := w.remember state.prevHeader }) := by
  intro w
  obtain ⟨a₁, a₂, a₃, ha, hra⟩ := Bytes.exists_writeU24Be stamp.toNat_field_lt
  obtain ⟨l₁, l₂, l₃, hl, hrl⟩ := Bytes.exists_writeU24Be length.2
  obtain ⟨s₁, s₂, s₃, s₄, hs, hrs⟩ := Bytes.exists_writeU32Le streamId
  have hbytes : w.message.bytes ++ rest = a₁ :: a₂ :: a₃ :: l₁ :: l₂ :: l₃ :: typeId ::
      s₁ :: s₂ :: s₃ :: s₄ :: (stamp.extension ++ rest) := by
    simp [w, MessageHeader.bytes, ha, hl, hs]
  have hext := parseExtendedTimestamp_bytes (pre ++ (w.message.bytes ++ rest))
    (pre ++ [a₁, a₂, a₃, l₁, l₂, l₃, typeId, s₁, s₂, s₃, s₄]) rest (pre.length + 11) stamp
    (by simp [hbytes]) (by simp)
  rw [parseFmt0_cons _ _ a₁ a₂ a₃ l₁ l₂ l₃ typeId s₁ s₂ s₃ s₄ _ _ (by rw [hbytes]), hra, hrl, hrs,
    hext]
  simp [w, WireHeader.header, WireHeader.remember, MessageHeader.bytes, bind, Except.bind, pure,
    Except.pure]
  omega

theorem parseFmt1_bytes (pre rest : List UInt8) (state : StreamState) (b : BasicHeader)
    (stamp : Stamp) (length : U24) (typeId : UInt8) :
    let w : WireHeader := ⟨b, .fmt1 stamp length typeId⟩
    parseFmt1 (pre ++ (w.message.bytes ++ rest)) pre.length
        { fmt := 1, chunkStreamId := w.csid } state
      = .ok (w.header state.prevHeader, pre.length + w.message.bytes.length,
          { state with prevHeader := w.remember state.prevHeader }) := by
  intro w
  obtain ⟨a₁, a₂, a₃, ha, hra⟩ := Bytes.exists_writeU24Be stamp.toNat_field_lt
  obtain ⟨l₁, l₂, l₃, hl, hrl⟩ := Bytes.exists_writeU24Be length.2
  have hbytes : w.message.bytes ++ rest
      = a₁ :: a₂ :: a₃ :: l₁ :: l₂ :: l₃ :: typeId :: (stamp.extension ++ rest) := by
    simp [w, MessageHeader.bytes, ha, hl]
  have hext := parseExtendedTimestamp_bytes (pre ++ (w.message.bytes ++ rest))
    (pre ++ [a₁, a₂, a₃, l₁, l₂, l₃, typeId]) rest (pre.length + 7) stamp (by simp [hbytes])
    (by simp)
  rw [parseFmt1_cons _ _ a₁ a₂ a₃ l₁ l₂ l₃ typeId _ _ (by rw [hbytes]), hra, hrl, hext]
  simp [w, WireHeader.header, WireHeader.remember, MessageHeader.bytes, bind, Except.bind, pure,
    Except.pure]
  omega

theorem parseFmt2_bytes (pre rest : List UInt8) (state : StreamState) (b : BasicHeader)
    (stamp : Stamp) :
    let w : WireHeader := ⟨b, .fmt2 stamp⟩
    parseFmt2 (pre ++ (w.message.bytes ++ rest)) pre.length
        { fmt := 2, chunkStreamId := w.csid } state
      = .ok (w.header state.prevHeader, pre.length + w.message.bytes.length,
          { state with prevHeader := w.remember state.prevHeader }) := by
  intro w
  obtain ⟨a₁, a₂, a₃, ha, hra⟩ := Bytes.exists_writeU24Be stamp.toNat_field_lt
  have hbytes : w.message.bytes ++ rest = a₁ :: a₂ :: a₃ :: (stamp.extension ++ rest) := by
    simp [w, MessageHeader.bytes, ha]
  have hext := parseExtendedTimestamp_bytes (pre ++ (w.message.bytes ++ rest))
    (pre ++ [a₁, a₂, a₃]) rest (pre.length + 3) stamp (by simp [hbytes]) (by simp)
  rw [parseFmt2_cons _ _ a₁ a₂ a₃ _ _ (by rw [hbytes]), hra, hext]
  simp [w, WireHeader.header, WireHeader.remember, MessageHeader.bytes, bind, Except.bind, pure,
    Except.pure]
  omega

theorem parseFmt3_bytes (pre rest : List UInt8) (state : StreamState) (b : BasicHeader)
    (ext : Option UInt32) (hfit : ext.isSome = state.prevHeader.hasExtendedTimestamp) :
    let w : WireHeader := ⟨b, .fmt3 ext⟩
    parseFmt3 (pre ++ (w.message.bytes ++ rest)) pre.length state
      = .ok (w.header state.prevHeader, pre.length + w.message.bytes.length,
          { state with prevHeader := w.remember state.prevHeader }) := by
  intro w
  cases ext with
  | none =>
      have hno : state.prevHeader.hasExtendedTimestamp = false := by simpa using hfit.symm
      simp [parseFmt3, hno, w, WireHeader.header, WireHeader.remember, MessageHeader.bytes, pure,
        Except.pure]
  | some v =>
      have hyes : state.prevHeader.hasExtendedTimestamp = true := by simpa using hfit.symm
      have hread : u32At (pre ++ (Bytes.writeU32Be v ++ rest)) pre.length = .ok v := by
        simpa using (u32At_append pre (Bytes.writeU32Be v ++ rest) 0).trans (u32At_write v rest)
      simp [parseFmt3, hyes, w, WireHeader.header, WireHeader.remember, MessageHeader.bytes, hread,
        pure, Except.pure, bind, Except.bind]

theorem parseMessageHeader_bytes {w : WireHeader} {streams : Streams} (hfit : w.Fits streams)
    (pre rest : List UInt8) :
    parseMessageHeader w.message.fmt (pre ++ (w.message.bytes ++ rest)) pre.length w.csid
        (streams w.csid)
      = .ok (w.header (streams w.csid).prevHeader, pre.length + w.message.bytes.length,
          { streams w.csid with prevHeader := w.remember (streams w.csid).prevHeader }) := by
  obtain ⟨b, m⟩ := w
  cases m with
  | fmt0 stamp length typeId streamId =>
      exact parseFmt0_bytes pre rest (streams b.csid) b stamp length typeId streamId
  | fmt1 stamp length typeId => exact parseFmt1_bytes pre rest (streams b.csid) b stamp length typeId
  | fmt2 stamp => exact parseFmt2_bytes pre rest (streams b.csid) b stamp
  | fmt3 ext => exact parseFmt3_bytes pre rest (streams b.csid) b ext hfit

/-! ### The first byte -/

theorem toNat_firstByte {fmt low : UInt8} (hf : fmt.toNat < 4) (hl : low.toNat < 64) :
    ((fmt <<< 6) ||| low).toNat = fmt.toNat * 64 + low.toNat := by
  have hshl : (fmt <<< 6).toNat = fmt.toNat * 2 ^ 6 := by
    rw [UInt8.toNat_shiftLeft, Nat.shiftLeft_eq]
    exact Nat.mod_eq_of_lt (by simp; omega)
  rw [UInt8.toNat_or, hshl, Nat.mul_comm,
    ← Nat.two_pow_add_eq_or_of_lt (by omega : low.toNat < 2 ^ 6)]
  omega

theorem toNat_shr_six (b : UInt8) : ((b >>> 6) &&& 0x03).toNat = b.toNat / 64 := by
  have hb := b.toNat_lt
  rw [UInt8.toNat_and, UInt8.toNat_shiftRight, show (0x03 : UInt8).toNat = 2 ^ 2 - 1 from rfl,
    Nat.and_two_pow_sub_one_eq_mod, Nat.shiftRight_eq_div_pow]
  simp only [UInt8.reduceToNat, Nat.reduceMod, Nat.reducePow]
  omega

theorem toNat_and_six (b : UInt8) : (b &&& 0x3F).toNat = b.toNat % 64 := by
  rw [UInt8.toNat_and, show (0x3F : UInt8).toNat = 2 ^ 6 - 1 from rfl,
    Nat.and_two_pow_sub_one_eq_mod]

theorem firstByte_fmt {fmt low : UInt8} (hf : fmt.toNat < 4) (hl : low.toNat < 64) :
    (((fmt <<< 6) ||| low) >>> 6) &&& 0x03 = fmt := by
  rw [← UInt8.toNat_inj, toNat_shr_six, toNat_firstByte hf hl]
  omega

theorem firstByte_low {fmt low : UInt8} (hf : fmt.toNat < 4) (hl : low.toNat < 64) :
    ((fmt <<< 6) ||| low) &&& 0x3F = low := by
  rw [← UInt8.toNat_inj, toNat_and_six, toNat_firstByte hf hl]
  omega

theorem firstByte_eq (b : UInt8) : (((b >>> 6) &&& 0x03) <<< 6) ||| (b &&& 0x3F) = b := by
  have hb := b.toNat_lt
  rw [← UInt8.toNat_inj, toNat_firstByte, toNat_shr_six, toNat_and_six]
  · omega
  · rw [toNat_shr_six]; omega
  · rw [toNat_and_six]; omega

theorem MessageHeader.toNat_fmt_lt (m : MessageHeader) : m.fmt.toNat < 4 := by
  cases m <;> simp [MessageHeader.fmt]

theorem BasicHeader.parse_bytes (b : BasicHeader) {fmt : UInt8} (hf : fmt.toNat < 4)
    (rest : List UInt8) :
    ∃ first, byteAt (b.bytes fmt ++ rest) 0 = .ok first ∧ (first >>> 6) &&& 0x03 = fmt ∧
      parseChunkStreamId (b.bytes fmt ++ rest) (first &&& 0x3F).toUInt32
        = .ok (b.csid, (b.bytes fmt).length) := by
  cases b with
  | one low h =>
      refine ⟨_, rfl, firstByte_fmt hf h.2, ?_⟩
      have h₀ : low.toUInt32 ≠ 0 := by
        intro h'
        have := congrArg UInt32.toNat h'
        simp at this
        simp [this] at h
      have h₁ : low.toUInt32 ≠ 1 := by
        intro h'
        have := congrArg UInt32.toNat h'
        simp at this
        simp [this] at h
      rw [firstByte_low hf h.2]
      simp [parseChunkStreamId, h₀, h₁, BasicHeader.csid, BasicHeader.bytes, pure, Except.pure]
  | two x =>
      have hor : fmt <<< 6 = (fmt <<< 6) ||| 0 := by simp
      refine ⟨fmt <<< 6, rfl, ?_, ?_⟩
      · rw [hor]
        exact firstByte_fmt hf (by simp)
      · have hlow : (fmt <<< 6) &&& 0x3F = 0 := by
          rw [hor]
          exact firstByte_low hf (by simp)
        rw [hlow]
        simp [parseChunkStreamId, BasicHeader.csid, BasicHeader.bytes, pure, Except.pure, bind,
          Except.bind]
  | three x y =>
      refine ⟨_, rfl, firstByte_fmt hf (by simp), ?_⟩
      rw [firstByte_low hf (by simp)]
      simp [parseChunkStreamId, BasicHeader.csid, BasicHeader.bytes, pure, Except.pure, bind,
        Except.bind]

/-- **A header that is written is read**, whatever follows it: the parser makes `w.header` of it
and remembers `w.remember`. -/
theorem parseHeader_bytes {w : WireHeader} {streams : Streams} (hfit : w.Fits streams)
    (rest : List UInt8) :
    parseHeader streams (w.bytes ++ rest)
      = .ok (w.header (streams w.csid).prevHeader, w.bytes.length, w.update streams) := by
  obtain ⟨first, hfirst, hfmt, hcsid⟩ :=
    w.basic.parse_bytes w.message.toNat_fmt_lt (w.message.bytes ++ rest)
  rw [← List.append_assoc, ← WireHeader.bytes] at hfirst hcsid
  have hne : (w.bytes ++ rest).isEmpty = false := by
    have := w.length_bytes_pos
    cases hb : w.bytes with
    | nil => simp [hb] at this
    | cons _ _ => rfl
  have hmessage := parseMessageHeader_bytes hfit (w.basic.bytes w.message.fmt) rest
  rw [← List.append_assoc, ← WireHeader.bytes] at hmessage
  simp only [WireHeader.csid] at hmessage
  simp only [parseHeader, hne, hfirst, hcsid, hfmt, hmessage, bind, Except.bind, pure, Except.pure]
  simp [WireHeader.update, WireHeader.csid, WireHeader.bytes]

/-! ### What is read is a header that could be written -/

theorem exists_cons₃ {xs : List UInt8} (h : 3 ≤ xs.length) :
    ∃ a b c t, xs = a :: b :: c :: t := by
  match xs, h with
  | a :: b :: c :: t, _ => exact ⟨a, b, c, t, rfl⟩

theorem exists_cons₄ {xs : List UInt8} (h : 4 ≤ xs.length) :
    ∃ a b c d t, xs = a :: b :: c :: d :: t := by
  match xs, h with
  | a :: b :: c :: d :: t, _ => exact ⟨a, b, c, d, t, rfl⟩

theorem parseExtendedTimestamp_cases {field : UInt32} (hf : field.toNat < 2 ^ 24)
    (data pre body : List UInt8) (offset : ℕ) (hd : data = pre ++ body)
    (ho : offset = pre.length) :
    (∃ s rest, Stamp.field s = field ∧ body = s.extension ++ rest) ∨
      (body.length < 4 ∧ parseExtendedTimestamp data offset field
        = .error (.err "Not enough data for extended timestamp")) := by
  subst hd ho
  by_cases hmax : field = 0xFFFFFF
  · by_cases hlen : body.length < 4
    · refine .inr ⟨hlen, ?_⟩
      simp [parseExtendedTimestamp, hmax, hlen, throw, throwThe, MonadExceptOf.throw, bind,
        Except.bind]
    · obtain ⟨a, b, c, d, t, rfl⟩ := exists_cons₄ (not_lt.1 hlen)
      refine .inl ⟨.extended (Bytes.readU32Be a b c d), t, hmax.symm, ?_⟩
      rw [Stamp.extension, (Bytes.writeU32Be_eq_iff _ a b c d).2 rfl]
      rfl
  · have hlt : field.toNat < 0xFFFFFF := by
      have : field.toNat ≠ 0xFFFFFF := fun h => hmax (by rw [← UInt32.toNat_inj]; simpa using h)
      omega
    exact .inl ⟨.short field hlt, body, rfl, rfl⟩

theorem parseFmt0_cases (pre body : List UInt8) (header : ChunkHeader)
    (state : StreamState) :
    (∃ stamp length typeId streamId rest,
        body = (MessageHeader.fmt0 stamp length typeId streamId).bytes ++ rest) ∨
      (∃ text, isIncomplete text = true ∧ body.length < 15 ∧
        parseFmt0 (pre ++ body) pre.length header state = .error (.err text)) := by
  by_cases hlen : body.length < 11
  · refine .inr ⟨"Not enough data for fmt 0", by decide, by omega, ?_⟩
    simp [parseFmt0, hlen, throw, throwThe, MonadExceptOf.throw, bind, Except.bind]
  · obtain ⟨a₁, a₂, a₃, t, rfl⟩ := exists_cons₃ (by omega : 3 ≤ body.length)
    simp only [List.length_cons] at hlen
    obtain ⟨l₁, l₂, l₃, t, rfl⟩ := exists_cons₃ (by omega : 3 ≤ t.length)
    simp only [List.length_cons] at hlen
    obtain ⟨typeId, t, rfl⟩ := List.exists_cons_of_length_pos (by omega : 0 < t.length)
    simp only [List.length_cons] at hlen
    obtain ⟨s₁, s₂, s₃, s₄, t, rfl⟩ := exists_cons₄ (by omega : 4 ≤ t.length)
    rcases parseExtendedTimestamp_cases (Bytes.toNat_readU24Be_lt a₁ a₂ a₃)
        (pre ++ a₁ :: a₂ :: a₃ :: l₁ :: l₂ :: l₃ :: typeId :: s₁ :: s₂ :: s₃ :: s₄ :: t)
        (pre ++ [a₁, a₂, a₃, l₁, l₂, l₃, typeId, s₁, s₂, s₃, s₄]) t (pre.length + 11) (by simp)
        (by simp) with ⟨stamp, rest, hs, rfl⟩ | ⟨ht, herr⟩
    · refine .inl ⟨stamp, ⟨_, Bytes.toNat_readU24Be_lt l₁ l₂ l₃⟩, typeId,
        Bytes.readU32Le s₁ s₂ s₃ s₄, rest, ?_⟩
      simp only [MessageHeader.bytes, hs,
        (Bytes.writeU24Be_eq_iff (Bytes.toNat_readU24Be_lt a₁ a₂ a₃) _ _ _).2 rfl,
        (Bytes.writeU24Be_eq_iff (Bytes.toNat_readU24Be_lt l₁ l₂ l₃) _ _ _).2 rfl,
        (Bytes.writeU32Le_eq_iff _ s₁ s₂ s₃ s₄).2 rfl]
      simp
    · refine .inr ⟨"Not enough data for extended timestamp", by decide, by simp; omega, ?_⟩
      rw [parseFmt0_cons _ _ a₁ a₂ a₃ l₁ l₂ l₃ typeId s₁ s₂ s₃ s₄ _ _ rfl, herr]
      rfl

theorem parseFmt1_cases (pre body : List UInt8) (header : ChunkHeader) (state : StreamState) :
    (∃ stamp length typeId rest,
        body = (MessageHeader.fmt1 stamp length typeId).bytes ++ rest) ∨
      (∃ text, isIncomplete text = true ∧ body.length < 15 ∧
        parseFmt1 (pre ++ body) pre.length header state = .error (.err text)) := by
  by_cases hlen : body.length < 7
  · refine .inr ⟨"Not enough data for fmt 1", by decide, by omega, ?_⟩
    simp [parseFmt1, hlen, throw, throwThe, MonadExceptOf.throw, bind, Except.bind]
  · obtain ⟨a₁, a₂, a₃, t, rfl⟩ := exists_cons₃ (by omega : 3 ≤ body.length)
    simp only [List.length_cons] at hlen
    obtain ⟨l₁, l₂, l₃, t, rfl⟩ := exists_cons₃ (by omega : 3 ≤ t.length)
    simp only [List.length_cons] at hlen
    obtain ⟨typeId, t, rfl⟩ := List.exists_cons_of_length_pos (by omega : 0 < t.length)
    rcases parseExtendedTimestamp_cases (Bytes.toNat_readU24Be_lt a₁ a₂ a₃)
        (pre ++ a₁ :: a₂ :: a₃ :: l₁ :: l₂ :: l₃ :: typeId :: t)
        (pre ++ [a₁, a₂, a₃, l₁, l₂, l₃, typeId]) t (pre.length + 7) (by simp)
        (by simp) with ⟨stamp, rest, hs, rfl⟩ | ⟨ht, herr⟩
    · refine .inl ⟨stamp, ⟨_, Bytes.toNat_readU24Be_lt l₁ l₂ l₃⟩, typeId, rest, ?_⟩
      simp only [MessageHeader.bytes, hs,
        (Bytes.writeU24Be_eq_iff (Bytes.toNat_readU24Be_lt a₁ a₂ a₃) _ _ _).2 rfl,
        (Bytes.writeU24Be_eq_iff (Bytes.toNat_readU24Be_lt l₁ l₂ l₃) _ _ _).2 rfl]
      simp
    · refine .inr ⟨"Not enough data for extended timestamp", by decide, by simp; omega, ?_⟩
      rw [parseFmt1_cons _ _ a₁ a₂ a₃ l₁ l₂ l₃ typeId _ _ rfl, herr]
      rfl

theorem parseFmt2_cases (pre body : List UInt8) (header : ChunkHeader) (state : StreamState) :
    (∃ stamp rest, body = (MessageHeader.fmt2 stamp).bytes ++ rest) ∨
      (∃ text, isIncomplete text = true ∧ body.length < 15 ∧
        parseFmt2 (pre ++ body) pre.length header state = .error (.err text)) := by
  by_cases hlen : body.length < 3
  · refine .inr ⟨"Not enough data for fmt 2", by decide, by omega, ?_⟩
    simp [parseFmt2, hlen, throw, throwThe, MonadExceptOf.throw, bind, Except.bind]
  · obtain ⟨a₁, a₂, a₃, t, rfl⟩ := exists_cons₃ (by omega : 3 ≤ body.length)
    rcases parseExtendedTimestamp_cases (Bytes.toNat_readU24Be_lt a₁ a₂ a₃)
        (pre ++ a₁ :: a₂ :: a₃ :: t) (pre ++ [a₁, a₂, a₃]) t
        (pre.length + 3) (by simp) (by simp) with ⟨stamp, rest, hs, rfl⟩ | ⟨ht, herr⟩
    · refine .inl ⟨stamp, rest, ?_⟩
      simp only [MessageHeader.bytes, hs,
        (Bytes.writeU24Be_eq_iff (Bytes.toNat_readU24Be_lt a₁ a₂ a₃) _ _ _).2 rfl]
      simp
    · refine .inr ⟨"Not enough data for extended timestamp", by decide, by simp; omega, ?_⟩
      rw [parseFmt2_cons _ _ a₁ a₂ a₃ _ _ rfl, herr]
      rfl

theorem parseFmt3_cases (pre body : List UInt8) (state : StreamState) :
    (∃ ext rest, Option.isSome ext = state.prevHeader.hasExtendedTimestamp ∧
        body = (MessageHeader.fmt3 ext).bytes ++ rest) ∨
      (∃ text, isIncomplete text = true ∧ body.length < 15 ∧
        parseFmt3 (pre ++ body) pre.length state = .error (.err text)) := by
  cases hext : state.prevHeader.hasExtendedTimestamp with
  | false => exact .inl ⟨none, body, rfl, rfl⟩
  | true =>
      by_cases hlen : body.length < 4
      · refine .inr ⟨"Not enough data for extended timestamp", by decide, by omega, ?_⟩
        simp [parseFmt3, hext, hlen, throw, throwThe, MonadExceptOf.throw, bind, Except.bind]
      · obtain ⟨a, b, c, d, t, rfl⟩ := exists_cons₄ (not_lt.1 hlen)
        refine .inl ⟨some (Bytes.readU32Be a b c d), t, rfl, ?_⟩
        simp only [MessageHeader.bytes, (Bytes.writeU32Be_eq_iff _ a b c d).2 rfl]
        rfl

/-- Behind the chunk stream id there is a message header, or what there is is incomplete. -/
theorem parseMessageHeader_cases (streams : Streams) (b : BasicHeader) {fmt : UInt8}
    (hf : fmt.toNat < 4) (pre body : List UInt8) :
    (∃ m rest, MessageHeader.fmt m = fmt ∧ WireHeader.Fits ⟨b, m⟩ streams ∧ body = m.bytes ++ rest) ∨
      (∃ text, isIncomplete text = true ∧ body.length < 15 ∧
        parseMessageHeader fmt (pre ++ body) pre.length b.csid (streams b.csid)
          = .error (.err text)) := by
  have hcases : fmt = 0 ∨ fmt = 1 ∨ fmt = 2 ∨ fmt = 3 := by
    simp only [← UInt8.toNat_inj, UInt8.reduceToNat]
    omega
  rcases hcases with rfl | rfl | rfl | rfl
  · rcases parseFmt0_cases pre body { fmt := 0, chunkStreamId := b.csid } (streams b.csid) with
      ⟨stamp, length, typeId, streamId, rest, h⟩ | h
    · exact .inl ⟨.fmt0 stamp length typeId streamId, rest, rfl, trivial, h⟩
    · exact .inr h
  · rcases parseFmt1_cases pre body { fmt := 1, chunkStreamId := b.csid } (streams b.csid) with
      ⟨stamp, length, typeId, rest, h⟩ | h
    · exact .inl ⟨.fmt1 stamp length typeId, rest, rfl, trivial, h⟩
    · exact .inr h
  · rcases parseFmt2_cases pre body { fmt := 2, chunkStreamId := b.csid } (streams b.csid) with
      ⟨stamp, rest, h⟩ | h
    · exact .inl ⟨.fmt2 stamp, rest, rfl, trivial, h⟩
    · exact .inr h
  · rcases parseFmt3_cases pre body (streams b.csid) with ⟨ext, rest, hfit, h⟩ | h
    · exact .inl ⟨.fmt3 ext, rest, rfl, hfit, h⟩
    · exact .inr h

theorem parseChunkStreamId_cases (first : UInt8) (t : List UInt8) :
    (∃ b rest, first :: t = BasicHeader.bytes ((first >>> 6) &&& 0x03) b ++ rest) ∨
      (isIncomplete "Not enough data for csid" = true ∧ (first :: t).length < 3 ∧
        parseChunkStreamId (first :: t) (first &&& 0x3F).toUInt32
          = .error (.err "Not enough data for csid")) := by
  have hfirst := firstByte_eq first
  have hlow := toNat_and_six first
  by_cases h₀ : first &&& 0x3F = 0
  · cases t with
    | nil =>
        refine .inr ⟨by decide, by simp, ?_⟩
        simp [parseChunkStreamId, h₀, throw, throwThe, MonadExceptOf.throw, bind, Except.bind]
    | cons x t =>
        refine .inl ⟨.two x, t, ?_⟩
        rw [h₀] at hfirst
        simpa [BasicHeader.bytes] using hfirst.symm
  · by_cases h₁ : first &&& 0x3F = 1
    · match t with
      | [] =>
          refine .inr ⟨by decide, by simp, ?_⟩
          simp [parseChunkStreamId, h₁, throw, throwThe, MonadExceptOf.throw, bind, Except.bind]
      | [x] =>
          refine .inr ⟨by decide, by simp, ?_⟩
          simp [parseChunkStreamId, h₁, throw, throwThe, MonadExceptOf.throw, bind, Except.bind]
      | x :: y :: t =>
          refine .inl ⟨.three x y, t, ?_⟩
          rw [h₁] at hfirst
          simpa [BasicHeader.bytes] using hfirst.symm
    · have hne₀ : (first &&& 0x3F).toNat ≠ 0 := fun h => h₀ (by rw [← UInt8.toNat_inj]; simpa using h)
      have hne₁ : (first &&& 0x3F).toNat ≠ 1 := fun h => h₁ (by rw [← UInt8.toNat_inj]; simpa using h)
      refine .inl ⟨.one (first &&& 0x3F) ⟨by omega, by omega⟩, t, ?_⟩
      simpa [BasicHeader.bytes] using hfirst.symm

/-- **What is read is a header that could be written.**  All other input is shorter than a header
and is reported as incomplete. -/
theorem parseHeader_cases (streams : Streams) (data : List UInt8) :
    (∃ w rest, WireHeader.Fits w streams ∧ data = w.bytes ++ rest) ∨
      (∃ text, isIncomplete text = true ∧ data.length < 18 ∧
        parseHeader streams data = .error (.err text)) := by
  cases data with
  | nil => exact .inr ⟨"Empty data", by decide, by simp, rfl⟩
  | cons first t =>
      have hf : ((first >>> 6) &&& 0x03).toNat < 4 := by
        have := first.toNat_lt
        rw [toNat_shr_six]
        omega
      rcases parseChunkStreamId_cases first t with ⟨b, body, hb⟩ | ⟨hinc, hlen, herr⟩
      · obtain ⟨first', hfirst, -, hcsid⟩ := b.parse_bytes hf body
        rw [← hb] at hfirst hcsid
        obtain rfl : first = first' := by simpa using hfirst
        rcases parseMessageHeader_cases streams b hf (b.bytes ((first >>> 6) &&& 0x03)) body with
          ⟨m, rest, hm, hfit, rfl⟩ | ⟨text, hinc, hlen, herr⟩
        · refine .inl ⟨⟨b, m⟩, rest, hfit, ?_⟩
          rw [hb, WireHeader.bytes, hm, List.append_assoc]
        · have hle := b.length_bytes_le ((first >>> 6) &&& 0x03)
          refine .inr ⟨text, hinc, by rw [hb, List.length_append]; omega, ?_⟩
          rw [← hb] at herr
          simp only [parseHeader, List.isEmpty_cons, byteAt_cons_zero, hcsid, herr, bind,
            Except.bind]
          rfl
      · refine .inr ⟨_, hinc, by omega, ?_⟩
        simp only [parseHeader, List.isEmpty_cons, byteAt_cons_zero, herr, bind, Except.bind]
        rfl

end Rtmp
