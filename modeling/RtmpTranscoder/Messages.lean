/-
RTMP messages and the three protocol control messages.

`include/rtmp/rtmp_messages.hpp` names the message types and gives each control message a payload
format; `src/rtmp/rtmp_messages.cpp` parses and encodes them.  Command messages, whose payload is
AMF0, are in `RtmpTranscoder/Commands.lean`.

Main definitions:

* `Rtmp.MessageType`, `Rtmp.Message` — message types and messages;
* `Rtmp.SetChunkSizeMessage`, `Rtmp.WindowAckSizeMessage`, `Rtmp.SetPeerBandwidthMessage` — the
  control messages, each with `parse` and `encode`.

Main results:

* `Rtmp.SetChunkSizeMessage.parse_encode` — a chunk size below `2 ^ 31` survives the wire;
* `Rtmp.SetChunkSizeMessage.toNat_lt` — whatever is parsed is below `2 ^ 31`.
-/

import RtmpTranscoder.Bytes

set_option relaxedAutoImplicit false
set_option autoImplicit false

namespace Rtmp

/-- `MessageType`. -/
inductive MessageType where
  | setChunkSize
  | acknowledgement
  | windowAckSize
  | setPeerBandwidth
  | audio
  | video
  | dataAMF0
  | commandAMF0
  deriving DecidableEq, Repr

/-- The `uint8_t` behind an enumerator. -/
def MessageType.code : MessageType → UInt8
  | .setChunkSize => 1
  | .acknowledgement => 3
  | .windowAckSize => 5
  | .setPeerBandwidth => 6
  | .audio => 8
  | .video => 9
  | .dataAMF0 => 18
  | .commandAMF0 => 20

/-- `Message`. -/
structure Message where
  typeId : UInt8
  timestamp : UInt32
  streamId : UInt32
  payload : List UInt8
  deriving DecidableEq, Repr

/-! ### Control messages -/

/-- `SetChunkSizeMessage`. -/
structure SetChunkSizeMessage where
  chunkSize : UInt32
  deriving DecidableEq, Repr

/-- `SetChunkSizeMessage::parse`: the top bit of the field is masked off. -/
def SetChunkSizeMessage.parse : List UInt8 → Option SetChunkSizeMessage
  | a :: b :: c :: d :: _ => some ⟨Bytes.readU32Be a b c d &&& 0x7FFFFFFF⟩
  | _ => none

/-- `SetChunkSizeMessage::encode`. -/
def SetChunkSizeMessage.encode (msg : SetChunkSizeMessage) : List UInt8 :=
  Bytes.writeU32Be (msg.chunkSize &&& 0x7FFFFFFF)

/-- `WindowAckSizeMessage`. -/
structure WindowAckSizeMessage where
  windowSize : UInt32
  deriving DecidableEq, Repr

/-- `WindowAckSizeMessage::encode`. -/
def WindowAckSizeMessage.encode (msg : WindowAckSizeMessage) : List UInt8 :=
  Bytes.writeU32Be msg.windowSize

/-- `SetPeerBandwidthMessage`. -/
structure SetPeerBandwidthMessage where
  windowSize : UInt32
  limitType : UInt8
  deriving DecidableEq, Repr

/-- `SetPeerBandwidthMessage::encode`. -/
def SetPeerBandwidthMessage.encode (msg : SetPeerBandwidthMessage) : List UInt8 :=
  Bytes.writeU32Be msg.windowSize ++ [msg.limitType]

@[simp] theorem SetChunkSizeMessage.length_encode (msg : SetChunkSizeMessage) :
    msg.encode.length = 4 := rfl

@[simp] theorem WindowAckSizeMessage.length_encode (msg : WindowAckSizeMessage) :
    msg.encode.length = 4 := rfl

@[simp] theorem SetPeerBandwidthMessage.length_encode (msg : SetPeerBandwidthMessage) :
    msg.encode.length = 5 := rfl

theorem toNat_and_mask31 (v : UInt32) : (v &&& 0x7FFFFFFF).toNat = v.toNat % 2 ^ 31 := by
  rw [UInt32.toNat_and, show (0x7FFFFFFF : UInt32).toNat = 2 ^ 31 - 1 from rfl,
    Nat.and_two_pow_sub_one_eq_mod]

theorem and_mask31_of_lt {v : UInt32} (h : v.toNat < 2 ^ 31) : v &&& 0x7FFFFFFF = v := by
  rw [← UInt32.toNat_inj, toNat_and_mask31, Nat.mod_eq_of_lt h]

theorem SetChunkSizeMessage.toNat_lt {payload : List UInt8} {msg : SetChunkSizeMessage}
    (h : SetChunkSizeMessage.parse payload = some msg) : msg.chunkSize.toNat < 2 ^ 31 := by
  unfold SetChunkSizeMessage.parse at h
  split at h
  · simp only [Option.some.injEq] at h
    rw [← h, toNat_and_mask31]
    omega
  · cases h

/-- **A chunk size of at most 31 bits survives the wire.** -/
theorem SetChunkSizeMessage.parse_encode {msg : SetChunkSizeMessage}
    (h : msg.chunkSize.toNat < 2 ^ 31) :
    SetChunkSizeMessage.parse msg.encode = some msg := by
  obtain ⟨a, b, c, d, hw, hr⟩ := Bytes.exists_writeU32Be (msg.chunkSize &&& 0x7FFFFFFF)
  rw [SetChunkSizeMessage.encode, hw, SetChunkSizeMessage.parse, hr, and_mask31_of_lt h,
    and_mask31_of_lt h]

end Rtmp
