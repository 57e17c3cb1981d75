/-
**The codecs.**

`src/transcode/` wraps OpenH264, FDK-AAC and libyuv in five classes, which remember whether their
library has been set up, and turn what it says into frames and packets.  The libraries are not part of
the source.  What a library answers is an argument of the wrapper that asks it, as a function of what
it is given; nothing is assumed of it.

A picture and its planes are what the library reports; a layer of a coded frame is the list of its NAL
units, start codes included.  The pointers to the libraries are not null exactly if `initialized` is
set, and are left out, as are counters and sizes that nothing looks at.

Main definitions:

* `Transcode.VideoFrame`, `Transcode.AudioFrame`, `Transcode.EncodedPacket` — what is passed around;
* `Transcode.H264Decoder`, `Transcode.AACDecoder`, `Transcode.Scaler`, `Transcode.H264Encoder`,
  `Transcode.AACEncoder` — the wrappers.

Main results:

* `Transcode.H264Decoder.decode_cases`, `Transcode.AACDecoder.decode_cases` — **what is decoded carries
  the timestamp that it came with**.
-/

import RtmpTranscoder.Bytes

set_option relaxedAutoImplicit false
set_option autoImplicit false

namespace Transcode

/-- `VideoFrame`. -/
structure VideoFrame where
  yPlane : List UInt8
  uPlane : List UInt8
  vPlane : List UInt8
  width : ℤ
  height : ℤ
  yStride : ℤ
  uvStride : ℤ
  timestamp : UInt32
  keyframe : Bool
  deriving DecidableEq, Repr

/-- `AudioFrame`. -/
structure AudioFrame where
  samples : List UInt16
  sampleRate : ℤ
  channels : ℤ
  timestamp : UInt32
  deriving DecidableEq, Repr

/-- `EncodedPacket`. -/
structure EncodedPacket where
  data : List UInt8
  timestamp : UInt32
  dts : UInt32
  keyframe : Bool
  deriving DecidableEq, Repr

/-- `EncoderConfig`, without the preset, which is not looked at. -/
structure EncoderConfig where
  width : ℤ
  height : ℤ
  bitrateKbps : ℤ
  fps : ℤ
  gopSize : ℤ
  deriving DecidableEq, Repr

/-! ### The video decoder -/

/-- `videoFormatI420`. -/
def videoFormatI420 : ℤ := 23

/-- A picture that OpenH264 has decoded. -/
structure Picture where
  width : ℤ
  height : ℤ
  yStride : ℤ
  uvStride : ℤ
  format : ℤ
  yPlane : List UInt8
  uPlane : List UInt8
  vPlane : List UInt8

/-- `H264Decoder::Impl`. -/
structure H264Decoder where
  initialized : Bool := false

namespace H264Decoder

/-- `H264Decoder::initialize`; `created` says that the library could be set up. -/
def initializeWith (d : H264Decoder) (created : Bool) : H264Decoder × Bool :=
  if d.initialized then (d, true)
  else if created then ({ d with initialized := true }, true)
  else (d, false)

/-- `H264Decoder::decode`; `none` if it fails. -/
def decode (d : H264Decoder) (decodeFrame : List UInt8 → Except ℤ (Option Picture))
    (naluData : List UInt8) (timestamp : UInt32) : Option (List VideoFrame) :=
  if !d.initialized then none
  else
    match decodeFrame naluData with
    | .error _ => none
    | .ok none => some []
    | .ok (some picture) => some
        [{ yPlane := picture.yPlane
           uPlane := picture.uPlane
           vPlane := picture.vPlane
           width := picture.width
           height := picture.height
           yStride := picture.yStride
           uvStride := picture.uvStride
           timestamp := timestamp
           keyframe := picture.format == videoFormatI420 }]

/-- **A video frame that is decoded carries the timestamp that it came with**, and there is at most
one. -/
theorem decode_cases {d : H264Decoder} {decodeFrame : List UInt8 → Except ℤ (Option Picture)}
    {data : List UInt8} {timestamp : UInt32} {frames : List VideoFrame}
    (h : d.decode decodeFrame data timestamp = some frames) :
    frames = [] ∨ ∃ frame, frames = [frame] ∧ frame.timestamp = timestamp := by
  unfold decode at h
  split at h
  · cases h
  · split at h
    · cases h
    · exact .inl (Option.some.inj h).symm
    · exact .inr ⟨_, (Option.some.inj h).symm, rfl⟩

end H264Decoder

/-! ### The audio decoder -/

/-- What FDK-AAC says of a decoded frame. -/
structure PcmInfo where
  samples : List UInt16
  sampleRate : ℤ
  numChannels : ℤ

/-- `AACDecoder::Impl`.  `asc` is what the library has been configured with. -/
structure AACDecoder where
  initialized : Bool := false
  asc : List UInt8 := []

namespace AACDecoder

/-- `AACDecoder::initialize`; `opened` says that the library could be set up, and `configRaw` whether
it takes a configuration. -/
def initializeWith (d : AACDecoder) (opened : Bool) (configRaw : List UInt8 → Bool)
    (ascData : List UInt8) : AACDecoder × Bool :=
  if d.initialized then (d, true)
  else if !opened then (d, false)
  else if !ascData.isEmpty && !configRaw ascData then (d, false)
  else ({ initialized := true, asc := ascData }, true)

/-- `AACDecoder::decode`; `none` if it fails. -/
def decode (d : AACDecoder) (decodeFrame : List UInt8 → List UInt8 → Option PcmInfo)
    (aacData : List UInt8) (timestamp : UInt32) : Option (List AudioFrame) :=
  if !d.initialized then none
  else
    match decodeFrame d.asc aacData with
    | none => none
    | some info =>
        if info.sampleRate ≤ 0 then none
        else some
          [{ samples := info.samples
             sampleRate := info.sampleRate
             channels := info.numChannels
             timestamp := timestamp }]

/-- **An audio frame that is decoded carries the timestamp that it came with**, and there is at most
one. -/
theorem decode_cases {d : AACDecoder} {decodeFrame : List UInt8 → List UInt8 → Option PcmInfo}
    {data : List UInt8} {timestamp : UInt32} {frames : List AudioFrame}
    (h : d.decode decodeFrame data timestamp = some frames) :
    ∃ frame, frames = [frame] ∧ frame.timestamp = timestamp := by
  unfold decode at h
  split at h
  · cases h
  · split at h
    · cases h
    · split at h
      · cases h
      · exact ⟨_, (Option.some.inj h).symm, rfl⟩

end AACDecoder

/-! ### The scaler -/

/-- `Scaler::Impl`. -/
structure Scaler where
  srcWidth : ℤ := 0
  srcHeight : ℤ := 0
  dstWidth : ℤ := 0
  dstHeight : ℤ := 0
  initialized : Bool := false

namespace Scaler

/-- `Scaler::initialize`. -/
def initializeWith (srcWidth srcHeight dstWidth dstHeight : ℤ) : Scaler × Bool :=
  (⟨srcWidth, srcHeight, dstWidth, dstHeight, true⟩, true)

/-- The frame that `scale` hands to libyuv to be written.  `resize` throws where a size is negative or
overflows; the encoder, which is set up first, refuses such pictures. -/
def prepare (s : Scaler) (src : VideoFrame) : VideoFrame :=
  let uvStride := s.dstWidth.tdiv 2
  { yPlane := List.replicate (s.dstWidth * s.dstHeight).toNat 0
    uPlane := List.replicate ((uvStride * s.dstHeight).tdiv 2).toNat 0
    vPlane := List.replicate ((uvStride * s.dstHeight).tdiv 2).toNat 0
    width := s.dstWidth
    height := s.dstHeight
    yStride := s.dstWidth
    uvStride := uvStride
    timestamp := src.timestamp
    keyframe := src.keyframe }

/-- `Scaler::scale`; `none` if it fails.  `i420Scale` is what libyuv writes into the planes. -/
def scale (s : Scaler) (i420Scale : VideoFrame → VideoFrame → Except ℤ VideoFrame)
    (src : VideoFrame) : Option VideoFrame :=
  if !s.initialized then none
  else
    match i420Scale src (s.prepare src) with
    | .error _ => none
    | .ok written => some
        { s.prepare src with
          yPlane := written.yPlane
          uPlane := written.uPlane
          vPlane := written.vPlane }

end Scaler

/-! ### The video encoder -/

/-- `EVideoFrameType`. -/
inductive FrameType where
  | invalid
  | idr
  | i
  | p
  | skip
  | ipMixed
  deriving DecidableEq, Repr

/-- `SFrameBSInfo`. -/
structure FrameInfo where
  frameType : FrameType
  layers : List (List (List UInt8))
  deriving DecidableEq, Repr

/-- `get_startcode_length`. -/
def getStartcodeLength : List UInt8 → ℕ
  | 0 :: 0 :: 0 :: 1 :: _ => 4
  | 0 :: 0 :: 1 :: _ => 3
  | _ => 0

/-- `H264Encoder::Impl`. -/
structure H264Encoder where
  initialized : Bool := false
  sps : List UInt8 := []
  pps : List UInt8 := []

namespace H264Encoder

/-- `H264Encoder::initialize`; `created` says whether the library can be set up. -/
def initializeWith (e : H264Encoder) (created : EncoderConfig → Bool) (config : EncoderConfig) :
    H264Encoder × Bool :=
  if e.initialized then (e, true)
  else if created config then ({ e with initialized := true }, true)
  else (e, false)

/-- What the first loop of `encode` does with a NAL unit: parameter sets are remembered. -/
def takeParameterSet (e : H264Encoder) (nal : List UInt8) : H264Encoder :=
  if getStartcodeLength nal = 0 then e
  else
    match nal.drop (getStartcodeLength nal) with
    | [] => e
    | first :: rest =>
        if first &&& 0x1F = 7 then { e with sps := first :: rest }
        else if first &&& 0x1F = 8 then { e with pps := first :: rest }
        else e

/-- What the second loop of `encode` does with a NAL unit: its start code gives way to its length. -/
def avccUnit (nal : List UInt8) : List UInt8 :=
  if getStartcodeLength nal = 0 then []
  else
    let nalData := nal.drop (getStartcodeLength nal)
    if nalData.isEmpty then []
    else Bytes.writeU32Be (UInt32.ofNat nalData.length) ++ nalData

/-- `H264Encoder::encode`; `none` if it fails. -/
def encode (e : H264Encoder) (encodeFrame : VideoFrame → Except ℤ FrameInfo) (frame : VideoFrame) :
    H264Encoder × Option (List EncodedPacket) :=
  if !e.initialized then (e, none)
  else
    match encodeFrame frame with
    | .error _ => (e, none)
    | .ok info =>
        if info.frameType = .skip then (e, some [])
        else
          let nals := info.layers.flatten
          let e := if info.frameType = .idr ∧ e.sps = [] then nals.foldl takeParameterSet e else e
          (e, some
            [{ data := nals.flatMap avccUnit
               timestamp := frame.timestamp
               dts := frame.timestamp
               keyframe := info.frameType == .idr }])

end H264Encoder

/-! ### The audio encoder -/

/-- What becomes of setting up FDK-AAC: it cannot be opened, or not be configured, or it says what its
`AudioSpecificConfig` is. -/
inductive AacSetup where
  | notOpened
  | notConfigured
  | done (confBuf : List UInt8)

/-- `AACEncoder::Impl`. -/
structure AACEncoder where
  initialized : Bool := false
  asc : List UInt8 := []
  sampleRate : ℤ := 0
  channels : ℤ := 0

namespace AACEncoder

/-- `AACEncoder::initialize`. -/
def initializeWith (e : AACEncoder) (setup : ℤ → ℤ → ℤ → AacSetup)
    (sampleRate channels bitrateKbps : ℤ) : AACEncoder × Bool :=
  if e.initialized then (e, true)
  else
    match setup sampleRate channels bitrateKbps with
    | .notOpened => (e, false)
    | .notConfigured => ({ e with sampleRate := sampleRate, channels := channels }, false)
    | .done confBuf => (⟨true, confBuf, sampleRate, channels⟩, true)

/-- `AACEncoder::encode`; `none` if it fails. -/
def encode (e : AACEncoder) (encodeFrame : List UInt16 → Except ℤ (List UInt8))
    (frame : AudioFrame) : Option (List EncodedPacket) :=
  if !e.initialized then none
  else
    match encodeFrame frame.samples with
    | .error _ => none
    | .ok [] => some []
    | .ok data => some
        [{ data := data
           timestamp := frame.timestamp
           dts := frame.timestamp
           keyframe := false }]

end AACEncoder

end Transcode
