/-
**From an encoder to a decoder.**

OpenH264 marks the beginning of a NAL unit by a start code of three or four bytes, FLV puts the length
of each unit before it.  `H264Encoder::encode` replaces start codes by lengths, and
`Transcoder::on_video_data` lengths by start codes, with five bytes of FLV header in between.  A body
may hold anything, also what looks like a start code: units are found by the lengths which the library
reports, and by those in the payload.

Main definitions:

* `Transcode.NalUnit` — a start code and a body;
* `Transcode.SLayerBSInfo` — a layer of a coded frame, as the library reports it;
* `Transcode.SLayerBSInfo.Carries` — the layer is made up of given units.

Main results:

* `Transcode.SLayerBSInfo.Carries.nals_eq` — the units of a layer are found by their lengths;
* `Transcode.NalUnit.avccUnit_bytes` — a start code of either length gives way to the length;
* `Transcode.toAnnexB_avcc` — **the loop over the lengths undoes the loop over the start codes**;
* `Transcode.decoder_receives` — **what an encoder makes, wrapped and read again, reaches the decoder
  unit by unit, each behind a start code of four bytes**.
-/

import RtmpTranscoder.TranscoderSteps

set_option relaxedAutoImplicit false
set_option autoImplicit false

namespace Transcode

open Rtmp (Failure byteAt bytesAt)

/-! ### NAL units -/

/-- A NAL unit behind a start code of three or four bytes. -/
structure NalUnit where
  longCode : Bool
  body : List UInt8
  body_ne : body ≠ []

/-- The bytes of a unit, start code included. -/
def NalUnit.bytes (unit : NalUnit) : List UInt8 :=
  (if unit.longCode then [0, 0, 0, 1] else [0, 0, 1]) ++ unit.body

/-- A body behind its length. -/
def avcc (body : List UInt8) : List UInt8 := Bytes.writeU32Be (UInt32.ofNat body.length) ++ body

theorem length_avcc (body : List UInt8) : (avcc body).length = 4 + body.length := by
  rw [avcc, List.length_append, Bytes.length_writeU32Be]

namespace NalUnit

variable (unit : NalUnit)

theorem length_body_le : unit.body.length ≤ unit.bytes.length := by
  rw [bytes, List.length_append]
  exact Nat.le_add_left _ _

/-- A start code is recognised whatever follows: one of three bytes is not taken for one of four. -/
theorem drop_bytes : getStartcodeLength unit.bytes ≠ 0 ∧
    unit.bytes.drop (getStartcodeLength unit.bytes) = unit.body := by
  cases hcode : unit.longCode with
  | true => simp [bytes, hcode, getStartcodeLength]
  | false => simp [bytes, hcode, getStartcodeLength]

/-- **A start code gives way to the length of what follows.** -/
theorem avccUnit_bytes : H264Encoder.avccUnit unit.bytes = avcc unit.body := by
  obtain ⟨hcode, hbody⟩ := unit.drop_bytes
  have hne : unit.body.isEmpty = false := by
    rw [List.isEmpty_eq_false_iff]
    exact unit.body_ne
  rw [H264Encoder.avccUnit, if_neg hcode]
  simp only [hbody, hne]
  rfl

end NalUnit

/-! ### Layers -/

/-- `SLayerBSInfo`: the memory from `pBsBuf` on, and the lengths of the units that begin there. -/
structure SLayerBSInfo where
  bsBuf : List UInt8
  nalLengthInByte : List ℕ

/-- The units which a pointer meets that moves from unit to unit by their lengths. -/
def nalsAt : List UInt8 → List ℕ → List (List UInt8)
  | _, [] => []
  | nalPtr, length :: lengths => nalPtr.take length :: nalsAt (nalPtr.drop length) lengths

namespace SLayerBSInfo

/-- The NAL units of a layer. -/
def nals (layer : SLayerBSInfo) : List (List UInt8) := nalsAt layer.bsBuf layer.nalLengthInByte

/-- The layer is made up of these units, one behind the other. -/
structure Carries (layer : SLayerBSInfo) (units : List NalUnit) : Prop where
  lengths : layer.nalLengthInByte = units.map fun unit => unit.bytes.length
  bytes : units.flatMap NalUnit.bytes <+: layer.bsBuf

/-- **The units of a layer are found by their lengths**, whatever lies behind them in memory. -/
theorem Carries.nals_eq {layer : SLayerBSInfo} {units : List NalUnit} (h : layer.Carries units) :
    layer.nals = units.map NalUnit.bytes := by
  obtain ⟨hlengths, rest, hbytes⟩ := h
  rw [nals, hlengths, ← hbytes]
  clear hlengths hbytes
  induction units with
  | nil => rfl
  | cons unit units ih =>
      rw [List.map_cons, List.map_cons, List.flatMap_cons, List.append_assoc, nalsAt, List.take_left,
        List.drop_left, ih]

theorem nals_of_carries {layers : List SLayerBSInfo} {units : List (List NalUnit)}
    (h : List.Forall₂ Carries layers units) :
    (layers.map nals).flatten = units.flatten.map NalUnit.bytes := by
  induction h with
  | nil => rfl
  | cons hlayer _ ih =>
      rw [List.map_cons, List.flatten_cons, List.flatten_cons, List.map_append, hlayer.nals_eq, ih]

end SLayerBSInfo

/-! ### Reading the lengths -/

theorem toNat_shl8_or (len : UInt32) (h : len.toNat < 2 ^ 24) (byte : UInt8) :
    ((len <<< 8) ||| byte.toUInt32).toNat = len.toNat * 256 + byte.toNat := by
  have hshift : (len <<< 8).toNat = len.toNat * 2 ^ 8 := by
    have hlt : len.toNat * 2 ^ 8 < 2 ^ 32 := by omega
    rw [UInt32.toNat_shiftLeft, Nat.shiftLeft_eq]
    exact Nat.mod_eq_of_lt hlt
  rw [UInt32.toNat_or, hshift, UInt8.toNat_toUInt32, Bytes.horner_or_last byte.toNat_lt]

/-- Four bytes are read one after the other as `read_u32_be` reads them at once. -/
theorem shift_readU32Be (a b c d : UInt8) :
    ((((((((0 : UInt32) <<< 8) ||| a.toUInt32) <<< 8) ||| b.toUInt32) <<< 8) ||| c.toUInt32) <<< 8)
      ||| d.toUInt32 = Bytes.readU32Be a b c d := by
  have ha := a.toNat_lt
  have hb := b.toNat_lt
  have hc := c.toNat_lt
  have hone := toNat_shl8_or 0 (by decide) a
  generalize ((0 : UInt32) <<< 8) ||| a.toUInt32 = one at hone ⊢
  rw [UInt32.toNat_zero] at hone
  have htwo := toNat_shl8_or one (by omega) b
  generalize (one <<< 8) ||| b.toUInt32 = two at htwo ⊢
  have hthree := toNat_shl8_or two (by omega) c
  generalize (two <<< 8) ||| c.toUInt32 = three at hthree ⊢
  have hfour := toNat_shl8_or three (by omega) d
  rw [← UInt32.toNat_inj, hfour, Bytes.toNat_readU32Be]
  omega

theorem naluLength_avcc (before body rest : List UInt8) :
    naluLength (before ++ (avcc body ++ rest)) before.length 4 = .ok (UInt32.ofNat body.length) := by
  obtain ⟨a, b, c, d, hwrite, hread⟩ := Bytes.exists_writeU32Be (UInt32.ofNat body.length)
  have hrange : List.range 4 = [0, 1, 2, 3] := rfl
  rw [naluLength, hrange, avcc, hwrite]
  simp only [List.foldlM_cons, List.foldlM_nil, Rtmp.byteAt_append, List.cons_append,
    Rtmp.byteAt_cons_zero, Rtmp.byteAt_cons_succ, bind, Except.bind, pure, Except.pure]
  rw [← hread, ← shift_readU32Be]

/-- **The loop over the lengths undoes the loop over the start codes.** -/
theorem toAnnexB_avcc {bodies : List (List UInt8)} (hsmall : ∀ body ∈ bodies, body.length < 2 ^ 32)
    (before : List UInt8) {fuel : ℕ} (hfuel : bodies.length < fuel) :
    toAnnexB 4 (before ++ bodies.flatMap avcc) fuel before.length =
      .ok (bodies.flatMap fun body => startCode ++ body) := by
  induction bodies generalizing before fuel with
  | nil =>
      obtain ⟨fuel, rfl⟩ := Nat.exists_eq_add_of_lt hfuel
      rw [List.flatMap_nil, List.append_nil, toAnnexB, if_neg (by omega)]
      rfl
  | cons body bodies ih =>
      obtain ⟨fuel, rfl⟩ : ∃ more, fuel = more + 1 := ⟨fuel - 1, by omega⟩
      have hbody := hsmall body List.mem_cons_self
      have hlength := length_avcc body
      have htoNat : (UInt32.ofNat body.length).toNat = body.length := by
        rw [UInt32.toNat_ofNat', Nat.mod_eq_of_lt hbody]
      have hnalu : bytesAt (before ++ (avcc body ++ bodies.flatMap avcc)) (before.length + 4)
          body.length = .ok body := by
        have hbehind : before ++ (avcc body ++ bodies.flatMap avcc) =
            (before ++ Bytes.writeU32Be (UInt32.ofNat body.length)) ++
              (body ++ bodies.flatMap avcc) := by
          simp only [avcc, List.append_assoc]
        have hoffset : (before ++ Bytes.writeU32Be (UInt32.ofNat body.length)).length =
            before.length + 4 := by
          rw [List.length_append, Bytes.length_writeU32Be]
        rw [hbehind, ← hoffset, Rtmp.bytesAt_of_le (by simp only [List.length_append]; omega),
          List.drop_left, List.take_left]
      have hrest := ih (fun b hb => hsmall b (List.mem_cons_of_mem _ hb)) (before ++ avcc body)
        (Nat.lt_of_succ_lt_succ hfuel)
      rw [List.append_assoc, List.length_append, hlength, ← Nat.add_assoc] at hrest
      rw [List.flatMap_cons, List.flatMap_cons, toAnnexB,
        if_pos (by simp only [List.length_append]; omega), naluLength_avcc before body]
      simp only [bind, Except.bind, htoNat]
      rw [if_neg (by simp only [List.length_append]; omega), hnalu]
      simp only [hrest]
      rfl

/-! ### The chain -/

theorem avccUnit_flatMap (units : List NalUnit) :
    (units.map NalUnit.bytes).flatMap H264Encoder.avccUnit =
      (units.map NalUnit.body).flatMap avcc := by
  induction units with
  | nil => rfl
  | cons unit units ih =>
      rw [List.map_cons, List.map_cons, List.flatMap_cons, List.flatMap_cons, ih, unit.avccUnit_bytes]

/-- The payload of a packet of units is read as these units. -/
theorem demuxVideo_avcc {bodies : List (List UInt8)} (hsmall : ∀ body ∈ bodies, body.length < 2 ^ 32)
    {packet : EncodedPacket} (hdata : packet.data = bodies.flatMap avcc) :
    demuxVideo 4 (buildFlvVideoPacket packet) =
      .ok (.nalus (bodies.flatMap fun body => startCode ++ body)) := by
  have hfuel : bodies.length < packet.data.length + 1 := by
    rw [hdata, List.length_flatMap]
    have hone : ∀ n ∈ bodies.map (fun body => (avcc body).length), 1 ≤ n := by
      intro n hn
      obtain ⟨body, -, rfl⟩ := List.mem_map.1 hn
      rw [length_avcc]
      omega
    have hsum := List.length_le_sum_of_one_le _ hone
    rw [List.length_map] at hsum
    omega
  have hcodec : ∀ keyframe : Bool,
      ((if keyframe then (0x10 : UInt8) else 0x20) ||| 0x07) &&& 0x0F = 7 := by
    decide
  have hloop := toAnnexB_avcc hsmall [] hfuel
  rw [List.nil_append, List.length_nil, ← hdata] at hloop
  simp only [demuxVideo, buildFlvVideoPacket, List.cons_append, List.nil_append, List.length_cons,
    Rtmp.byteAt_cons_zero, Rtmp.byteAt_cons_succ, bind, Except.bind, List.drop_succ_cons,
    List.drop_zero]
  rw [if_neg (by omega), if_neg (not_not_intro (hcodec packet.keyframe)), if_neg (by decide),
    if_pos trivial, hloop]
  rfl

namespace Transcoder

variable {t : Transcoder}

theorem eachOutput_not_decoder (f : ℕ → Output → Output × List OutputEvent) :
    ∀ event ∈ (t.eachOutput f).2, ¬ event.IsDecoder := by
  intro event hmem
  simp only [eachOutput, List.mem_flatten, List.mem_mapIdx] at hmem
  obtain ⟨events, ⟨i, hi, rfl⟩, hmem⟩ := hmem
  obtain ⟨e, -, rfl⟩ := List.mem_map.1 hmem
  intro hdecoder
  exact hdecoder.not_output

theorem processVideoFrame_not_decoder (codecs : ℕ → VideoCodecs) (frame : VideoFrame) :
    ∀ event ∈ (t.processVideoFrame codecs frame).2, ¬ event.IsDecoder := by
  intro event hmem
  unfold processVideoFrame at hmem
  simp only at hmem
  split at hmem
  · cases hmem
  · exact eachOutput_not_decoder _ event hmem

theorem processAudioFrame_not_decoder (codecs : ℕ → AudioCodecs) (frame : AudioFrame) :
    ∀ event ∈ (t.processAudioFrame codecs frame).2, ¬ event.IsDecoder := by
  intro event hmem
  unfold processAudioFrame at hmem
  simp only at hmem
  split at hmem
  · cases hmem
  · exact eachOutput_not_decoder _ event hmem

/-- The decoder is given the units of a payload, and nothing else, when it arrives. -/
theorem onVideoData_nalus {data annexB : List UInt8}
    (hdemux : demuxVideo t.naluLengthSize data = .ok (.nalus annexB)) (timestamp : UInt32)
    (keyframe : Bool) (o : VideoOutcome) :
    ∃ t' rest, t.onVideoData data timestamp keyframe o =
        .ok (t', (if t.videoDecoder.initialized then [.videoDecoder annexB] else []) ++ rest) ∧
      ∀ event ∈ rest, ¬ event.IsDecoder := by
  simp only [onVideoData, hdemux, bind, Except.bind]
  cases hdecode : t.videoDecoder.decode o.decodeFrame annexB timestamp with
  | none => exact ⟨t, [], by rw [List.append_nil]; rfl, fun _ hmem => absurd hmem List.not_mem_nil⟩
  | some frames =>
      rcases H264Decoder.decode_cases hdecode with rfl | ⟨frame, rfl, -⟩
      · exact ⟨t, [], rfl, fun _ hmem => absurd hmem List.not_mem_nil⟩
      · refine ⟨_, _, rfl, ?_⟩
        rw [processFrames_singleton]
        exact processVideoFrame_not_decoder o.codecs frame

end Transcoder

/-- **What an encoder makes, wrapped and read again, reaches the decoder unit by unit**, each behind a
start code of four bytes, in order, and nothing else does. -/
theorem decoder_receives {e : H264Encoder} {encodeFrame : VideoFrame → Except ℤ FrameInfo}
    {frame : VideoFrame} {frameType : FrameType} {layers : List SLayerBSInfo}
    {units : List (List NalUnit)} {t : Transcoder} (hencoder : e.initialized = true)
    (hskip : frameType ≠ .skip) (hlayers : List.Forall₂ SLayerBSInfo.Carries layers units)
    (hsmall : (units.flatten.map fun unit => unit.bytes.length).sum < 2 ^ 31)
    (hencode : encodeFrame frame = .ok ⟨frameType, layers.map SLayerBSInfo.nals⟩)
    (hlength : t.naluLengthSize = 4) :
    ∃ packet, (e.encode encodeFrame frame).2 = some [packet] ∧
      ∀ timestamp keyframe o, ∃ t' rest,
        t.onVideoData (buildFlvVideoPacket packet) timestamp keyframe o =
          .ok (t', (if t.videoDecoder.initialized then
            [.videoDecoder (units.flatten.flatMap fun unit => [0, 0, 0, 1] ++ unit.body)]
            else []) ++ rest) ∧
        ∀ event ∈ rest, ¬ event.IsDecoder := by
  have hbodies : ∀ body ∈ units.flatten.map NalUnit.body, body.length < 2 ^ 32 := by
    intro body hmem
    obtain ⟨unit, hunit, rfl⟩ := List.mem_map.1 hmem
    have hle : unit.bytes.length ≤ (units.flatten.map fun unit => unit.bytes.length).sum :=
      List.single_le_sum (fun _ _ => Nat.zero_le _) _ (List.mem_map_of_mem hunit)
    have hbody := unit.length_body_le
    omega
  let packet : EncodedPacket :=
    { data := (units.flatten.map NalUnit.body).flatMap avcc
      timestamp := frame.timestamp
      dts := frame.timestamp
      keyframe := frameType == .idr }
  have hpacket : (e.encode encodeFrame frame).2 = some [packet] := by
    simp only [H264Encoder.encode, hencoder, hencode, if_neg hskip,
      SLayerBSInfo.nals_of_carries hlayers, avccUnit_flatMap]
    rfl
  refine ⟨packet, hpacket, ?_⟩
  intro timestamp keyframe o
  have hdemux : demuxVideo t.naluLengthSize (buildFlvVideoPacket packet) =
      .ok (.nalus (units.flatten.flatMap fun unit => [0, 0, 0, 1] ++ unit.body)) := by
    rw [hlength, demuxVideo_avcc hbodies rfl, List.flatMap_map]
    rfl
  exact Transcoder.onVideoData_nalus hdemux timestamp keyframe o

/-- A parameter set in a layer of its own, and a picture whose body holds what looks like a start
code, behind one of three bytes. -/
theorem decoder_receives_picture :
    let layers : List SLayerBSInfo :=
      [⟨[0, 0, 0, 1, 0x67, 1], [6]⟩, ⟨[0, 0, 1, 0x65, 0, 0, 1, 9, 7], [8]⟩]
    let e : H264Encoder := { initialized := true }
    let frame : VideoFrame := ⟨[], [], [], 0, 0, 0, 0, 40, true⟩
    ∃ packet,
      (e.encode (fun _ => .ok ⟨.idr, layers.map SLayerBSInfo.nals⟩) frame).2 = some [packet] ∧
      ∀ timestamp keyframe o, ∃ t' rest,
        ({ videoDecoder := ⟨true⟩ } : Transcoder).onVideoData (buildFlvVideoPacket packet) timestamp
            keyframe o =
          .ok (t', [.videoDecoder [0, 0, 0, 1, 0x67, 1, 0, 0, 0, 1, 0x65, 0, 0, 1, 9]] ++ rest) ∧
        ∀ event ∈ rest, ¬ event.IsDecoder := by
  intro layers e frame
  let sps : NalUnit := ⟨true, [0x67, 1], by decide⟩
  let picture : NalUnit := ⟨false, [0x65, 0, 0, 1, 9], by decide⟩
  have hlayers : List.Forall₂ SLayerBSInfo.Carries layers [[sps], [picture]] :=
    .cons ⟨rfl, [], rfl⟩ (.cons ⟨rfl, [7], rfl⟩ .nil)
  exact decoder_receives (t := { videoDecoder := ⟨true⟩ }) rfl (by decide) hlayers (by decide) rfl rfl

end Transcode
