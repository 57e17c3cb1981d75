/-
**Command messages.**

A command is a name, a transaction id and arguments, and its payload is these values in AMF0, one
after the other.  `CommandMessage::parse` leaves the transaction id as it finds it when the second
value is missing or not a number, and it finds whatever the memory held; the model has that value as
a parameter.

Main definitions:

* `Amf0.toUInt32` — numbers as 32-bit integers;
* `Rtmp.CommandMessage` — commands, with `parse` and `encode`.

Main results:

* `Rtmp.CommandMessage.parse_encode` — a command survives the wire;
* `Rtmp.amf0_roundtrip` — **values, lists of values and commands survive**, a value exactly if it is
  bounded.
-/

import RtmpTranscoder.Amf0

set_option relaxedAutoImplicit false
set_option autoImplicit false

namespace Amf0

/-- `as_string`, if `is_string`. -/
def Value.asString? (v : Value) : Option (List UInt8) :=
  match v.1 with
  | .string s => some s
  | _ => none

/-- `as_number`, if `is_number`. -/
def Value.asNumber? (v : Value) : Option UInt64 :=
  match v.1 with
  | .number bits => some bits
  | _ => none

/-- `static_cast<uint32_t>` of a `double`: what is behind the point is cut off.  A value that does not fit
is undefined behaviour; the model takes the low bits of the 64-bit integer that x86-64 converts to, which
are zero where that does not fit either. -/
def toUInt32 (bits : UInt64) : UInt32 :=
  let exponent := ((bits >>> 52) &&& 0x7FF).toNat
  let mantissa := (bits &&& 0xFFFFFFFFFFFFF).toNat + 2 ^ 52
  let magnitude :=
    if exponent = 0 ∨ 1086 ≤ exponent then 0
    else if 1075 ≤ exponent then mantissa * 2 ^ (exponent - 1075)
    else mantissa / 2 ^ (1075 - exponent)
  if bits >>> 63 = 0 then UInt32.ofNat magnitude else 0 - UInt32.ofNat magnitude

@[simp] theorem Value.asString?_string (s : List UInt8) : (Value.string s).asString? = some s := rfl

@[simp] theorem Value.asNumber?_number (bits : UInt64) :
    (Value.number bits).asNumber? = some bits := rfl

example : toUInt32 0x3FF0000000000000 = 1 := by decide +kernel

example : toUInt32 0x41EFFFFFFFE00000 = 0xFFFFFFFF := by decide +kernel

end Amf0

namespace Rtmp

open Amf0 (Value)

/-- `CommandMessage`. -/
structure CommandMessage where
  name : List UInt8
  transactionId : UInt64
  arguments : List Value

/-- `CommandMessage::parse`; `stale` is what the memory of the transaction id held before. -/
def CommandMessage.parse (stale : UInt64) (payload : List UInt8) : Option CommandMessage :=
  match Amf0.decodeArray payload with
  | .error _ => none
  | .ok [] => none
  | .ok (value :: values) =>
      match value.asString? with
      | none => none
      | some name => some
          { name := name
            transactionId := (values.head?.bind Value.asNumber?).getD stale
            arguments := values.drop 1 }

/-- `CommandMessage::encode`. -/
def CommandMessage.encode (cmd : CommandMessage) : List UInt8 :=
  Amf0.encodeArray (Value.string cmd.name :: Value.number cmd.transactionId :: cmd.arguments)

/-- The payload of a command starts with a name, so it is not empty. -/
theorem CommandMessage.length_encode_pos (cmd : CommandMessage) : 1 ≤ cmd.encode.length := by
  simp only [CommandMessage.encode, Amf0.encodeArray, List.flatMap_cons, List.length_append]
  have hname : 1 ≤ (Amf0.encode (Value.string cmd.name)).length := by
    simp [Amf0.encode, Value.string, Amf0.encodeValueImpl, Amf0.encodeString]
  omega

def CommandMessage.Bounded (cmd : CommandMessage) : Prop :=
  cmd.name.length ≤ 65535 ∧ ∀ v ∈ cmd.arguments, v.1.Bounded

theorem CommandMessage.parse_encode {cmd : CommandMessage} (h : cmd.Bounded) (stale : UInt64) :
    CommandMessage.parse stale cmd.encode = some cmd := by
  have hvalues : ∀ v ∈ Value.string cmd.name :: Value.number cmd.transactionId :: cmd.arguments,
      v.1.Bounded := by
    intro v hv
    rcases List.mem_cons.1 hv with rfl | hv
    · exact .string h.1
    · rcases List.mem_cons.1 hv with rfl | hv
      · exact .number _
      · exact h.2 v hv
  rw [CommandMessage.parse, CommandMessage.encode, Amf0.decodeArray_encode hvalues]
  simp

/-- **Values, lists of values and commands survive the wire**: a value is decoded as it was encoded,
whatever follows it, exactly if its strings and keys have at most 65535 bytes; so is a list of such
values, and a command made of them. -/
theorem amf0_roundtrip :
    (∀ (v : Value) (rest : List UInt8),
      Amf0.decode (Amf0.encode v ++ rest) = .ok (v, (Amf0.encode v).length) ↔ v.1.Bounded) ∧
    (∀ values : List Value, (∀ v ∈ values, v.1.Bounded) →
      Amf0.decodeArray (Amf0.encodeArray values) = .ok values) ∧
    (∀ (stale : UInt64) (cmd : CommandMessage), cmd.Bounded →
      CommandMessage.parse stale cmd.encode = some cmd) :=
  ⟨Amf0.decode_encode_iff, fun _ h => Amf0.decodeArray_encode h,
    fun stale _ h => CommandMessage.parse_encode h stale⟩

/-- The command `connect` with an object that has an empty key and an object inside. -/
theorem amf0_roundtrip_connect :
    let info : Amf0.ObjectType :=
      (Amf0.ObjectType.empty.set [] (.number 0)).set [97, 112, 112] (.object .empty)
    let cmd : CommandMessage :=
      ⟨[99, 111, 110, 110, 101, 99, 116], 0x3FF0000000000000, [.object info, .null]⟩
    CommandMessage.parse 7 cmd.encode = some cmd := by
  intro info cmd
  refine amf0_roundtrip.2.2 7 cmd ⟨by decide, fun v hv => ?_⟩
  have hinfo : info.Bounded := by
    refine Amf0.ObjectType.Bounded.set (Amf0.ObjectType.Bounded.set ?_ (by decide) (.number 0))
      (by decide) (.object ?_ ?_)
    · exact fun p hp => absurd hp List.not_mem_nil
    · exact fun p hp => absurd hp List.not_mem_nil
    · exact fun p hp => absurd hp List.not_mem_nil
  rcases List.mem_cons.1 hv with rfl | hv
  · exact .object (fun p hp => (hinfo p hp).1) fun p hp => (hinfo p hp).2
  · rw [List.mem_singleton.1 hv]
    exact .null

end Rtmp
