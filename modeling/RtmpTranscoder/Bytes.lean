/-
**Byte spans and the big- and little-endian integers on them.**

`include/core/bytes.hpp` reads and writes fixed-width integers through raw pointers, and
`include/core/result.hpp` is the `Result` every fallible function returns.  This module models
both.  A span is a list of bytes; an access through it is checked, and an access past its end is
the failure `Failure.outOfRange`, which no source function returns: it stands for undefined
behaviour, so a proof that a function never fails that way is a proof of memory safety.

Main definitions:

* `Rtmp.Failure` — the ways a modelled function fails to return a value;
* `Rtmp.byteAt`, `Rtmp.bytesAt` — checked access to one byte and to a range of bytes;
* `Bytes.readU16Be` … `Bytes.writeU64Be` — the readers and writers of `bytes.hpp`.

Main results:

* `Bytes.toNat_readU24Be` and its companions — the value of a reader as a number;
* `Bytes.writeU24Be_eq_iff` and its companions — writing gives exactly the bytes that read back
  as the value, so that **reading undoes writing** (`Bytes.exists_writeU24Be`) and writing undoes
  reading.
-/

import Mathlib

set_option relaxedAutoImplicit false
set_option autoImplicit false

namespace Rtmp

/-! ### Results and checked access -/

/-- The ways a modelled function fails.  `err` is the source's `Result::Err` with its text.  Behind the
others there is no state: `outOfRange` is an access past the end of a span, `useAfterFree` one to an
object that has been destroyed, `stackOverflow` a call that finds no room on the stack, `lengthError`
the exception of a `std::vector` that is to be too long; `outOfFuel` is a loop of the source that has not
ended within the iterations the model grants it. -/
inductive Failure where
  | err (text : String)
  | outOfRange
  | useAfterFree
  | stackOverflow
  | lengthError
  | outOfFuel
  deriving DecidableEq, Repr

/-- The byte at index `i` of a span. -/
def byteAt (data : List UInt8) (i : ℕ) : Except Failure UInt8 :=
  match data[i]? with
  | some b => .ok b
  | none => .error .outOfRange

/-- The `n` bytes of a span from index `i` on. -/
def bytesAt (data : List UInt8) (i n : ℕ) : Except Failure (List UInt8) :=
  if i + n ≤ data.length then .ok ((data.drop i).take n) else .error .outOfRange

theorem bytesAt_of_le {data : List UInt8} {i n : ℕ} (h : i + n ≤ data.length) :
    bytesAt data i n = .ok ((data.drop i).take n) := by
  simp only [bytesAt, if_pos h]

theorem length_of_bytesAt {data bytes : List UInt8} {i n : ℕ} (h : bytesAt data i n = .ok bytes) :
    bytes.length = n := by
  unfold bytesAt at h
  split at h
  · cases h
    rw [List.length_take, List.length_drop]
    omega
  · cases h

theorem byteAt_append (pre body : List UInt8) (i : ℕ) :
    byteAt (pre ++ body) (pre.length + i) = byteAt body i := by
  simp [byteAt, List.getElem?_append_right]

@[simp] theorem byteAt_cons_zero (b : UInt8) (t : List UInt8) : byteAt (b :: t) 0 = .ok b := rfl

@[simp] theorem byteAt_cons_succ (b : UInt8) (t : List UInt8) (i : ℕ) :
    byteAt (b :: t) (i + 1) = byteAt t i := by
  simp [byteAt]

end Rtmp

namespace Bytes

/-! ### Readers and writers -/

/-- `read_u16_be`. -/
def readU16Be (a b : UInt8) : UInt16 := (a.toUInt16 <<< 8) ||| b.toUInt16

/-- `read_u24_be`. -/
def readU24Be (a b c : UInt8) : UInt32 :=
  (a.toUInt32 <<< 16) ||| (b.toUInt32 <<< 8) ||| c.toUInt32

/-- `read_u32_be`. -/
def readU32Be (a b c d : UInt8) : UInt32 :=
  (a.toUInt32 <<< 24) ||| (b.toUInt32 <<< 16) ||| (c.toUInt32 <<< 8) ||| d.toUInt32

/-- `read_u32_le`. -/
def readU32Le (a b c d : UInt8) : UInt32 :=
  a.toUInt32 ||| (b.toUInt32 <<< 8) ||| (c.toUInt32 <<< 16) ||| (d.toUInt32 <<< 24)

/-- `read_f64_be`, up to the reinterpretation of the 64 bits as a `double`. -/
def readF64Be (a b c d e f g h : UInt8) : UInt64 :=
  (a.toUInt64 <<< 56) ||| (b.toUInt64 <<< 48) ||| (c.toUInt64 <<< 40) ||| (d.toUInt64 <<< 32) |||
    (e.toUInt64 <<< 24) ||| (f.toUInt64 <<< 16) ||| (g.toUInt64 <<< 8) ||| h.toUInt64

/-- `write_u16_be`. -/
def writeU16Be (val : UInt16) : List UInt8 :=
  [((val >>> 8) &&& 0xFF).toUInt8, (val &&& 0xFF).toUInt8]

/-- `write_u24_be`. -/
def writeU24Be (val : UInt32) : List UInt8 :=
  [((val >>> 16) &&& 0xFF).toUInt8, ((val >>> 8) &&& 0xFF).toUInt8, (val &&& 0xFF).toUInt8]

/-- `write_u32_be`. -/
def writeU32Be (val : UInt32) : List UInt8 :=
  [((val >>> 24) &&& 0xFF).toUInt8, ((val >>> 16) &&& 0xFF).toUInt8,
    ((val >>> 8) &&& 0xFF).toUInt8, (val &&& 0xFF).toUInt8]

/-- `write_u32_le`. -/
def writeU32Le (val : UInt32) : List UInt8 :=
  [(val &&& 0xFF).toUInt8, ((val >>> 8) &&& 0xFF).toUInt8,
    ((val >>> 16) &&& 0xFF).toUInt8, ((val >>> 24) &&& 0xFF).toUInt8]

/-- `write_f64_be`, from the 64 bits of the `double`. -/
def writeF64Be (bits : UInt64) : List UInt8 :=
  [((bits >>> 56) &&& 0xFF).toUInt8, ((bits >>> 48) &&& 0xFF).toUInt8,
    ((bits >>> 40) &&& 0xFF).toUInt8, ((bits >>> 32) &&& 0xFF).toUInt8,
    ((bits >>> 24) &&& 0xFF).toUInt8, ((bits >>> 16) &&& 0xFF).toUInt8,
    ((bits >>> 8) &&& 0xFF).toUInt8, (bits &&& 0xFF).toUInt8]

@[simp] theorem length_writeU16Be (v : UInt16) : (writeU16Be v).length = 2 := rfl
@[simp] theorem length_writeU24Be (v : UInt32) : (writeU24Be v).length = 3 := rfl
@[simp] theorem length_writeU32Be (v : UInt32) : (writeU32Be v).length = 4 := rfl
@[simp] theorem length_writeU32Le (v : UInt32) : (writeU32Le v).length = 4 := rfl
@[simp] theorem length_writeF64Be (v : UInt64) : (writeF64Be v).length = 8 := rfl

/-! ### Values -/

/-- Setting a byte just below a multiple of a power of two: one step of Horner's rule. -/
theorem horner_or {x b : ℕ} (j k : ℕ) (hj : j = k + 8) (hb : b < 2 ^ 8) :
    x * 2 ^ j ||| b * 2 ^ k = (x * 256 + b) * 2 ^ k := by
  have hlt : b * 2 ^ k < 2 ^ j := by
    rw [hj, Nat.pow_add, Nat.mul_comm (2 ^ k)]
    exact Nat.mul_lt_mul_of_pos_right hb (by positivity)
  rw [Nat.mul_comm x, ← Nat.two_pow_add_eq_or_of_lt hlt, hj]
  ring

theorem horner_or_last {x b : ℕ} (hb : b < 2 ^ 8) : x * 2 ^ 8 ||| b = x * 256 + b := by
  simpa using horner_or (x := x) 8 0 rfl hb

theorem toNat_shl32 (a : UInt8) (k : UInt32) (hk : k.toNat ≤ 24) :
    (a.toUInt32 <<< k).toNat = a.toNat * 2 ^ k.toNat := by
  have hpow : 2 ^ k.toNat ≤ 2 ^ 24 := Nat.pow_le_pow_right (by omega) hk
  have hlt : a.toNat * 2 ^ k.toNat < 2 ^ 32 := by
    calc a.toNat * 2 ^ k.toNat < 2 ^ 8 * 2 ^ k.toNat :=
          Nat.mul_lt_mul_of_pos_right a.toNat_lt (by positivity)
      _ ≤ 2 ^ 8 * 2 ^ 24 := Nat.mul_le_mul_left _ hpow
      _ = 2 ^ 32 := by norm_num
  rw [UInt32.toNat_shiftLeft, UInt8.toNat_toUInt32, Nat.mod_eq_of_lt (by omega : k.toNat < 32),
    Nat.shiftLeft_eq, Nat.mod_eq_of_lt hlt]

theorem toNat_shl64 (a : UInt8) (k : UInt64) (hk : k.toNat ≤ 56) :
    (a.toUInt64 <<< k).toNat = a.toNat * 2 ^ k.toNat := by
  have hpow : 2 ^ k.toNat ≤ 2 ^ 56 := Nat.pow_le_pow_right (by omega) hk
  have hlt : a.toNat * 2 ^ k.toNat < 2 ^ 64 := by
    calc a.toNat * 2 ^ k.toNat < 2 ^ 8 * 2 ^ k.toNat :=
          Nat.mul_lt_mul_of_pos_right a.toNat_lt (by positivity)
      _ ≤ 2 ^ 8 * 2 ^ 56 := Nat.mul_le_mul_left _ hpow
      _ = 2 ^ 64 := by norm_num
  rw [UInt64.toNat_shiftLeft, UInt8.toNat_toUInt64, Nat.mod_eq_of_lt (by omega : k.toNat < 64),
    Nat.shiftLeft_eq, Nat.mod_eq_of_lt hlt]

theorem toNat_readU16Be (a b : UInt8) :
    (readU16Be a b).toNat = a.toNat * 256 + b.toNat := by
  have hshl : (a.toUInt16 <<< 8).toNat = a.toNat * 2 ^ 8 := by
    have ha := a.toNat_lt
    rw [UInt16.toNat_shiftLeft, UInt8.toNat_toUInt16, Nat.shiftLeft_eq]
    exact Nat.mod_eq_of_lt (by simp; omega)
  rw [readU16Be, UInt16.toNat_or, hshl, UInt8.toNat_toUInt16, horner_or_last b.toNat_lt]

theorem toNat_readU24Be (a b c : UInt8) :
    (readU24Be a b c).toNat = (a.toNat * 256 + b.toNat) * 256 + c.toNat := by
  simp only [readU24Be, UInt32.toNat_or, UInt8.toNat_toUInt32]
  rw [toNat_shl32 a 16 (by decide), toNat_shl32 b 8 (by decide)]
  simp only [UInt32.reduceToNat]
  rw [horner_or 16 8 rfl b.toNat_lt, horner_or_last c.toNat_lt]

theorem toNat_readU32Be (a b c d : UInt8) :
    (readU32Be a b c d).toNat
      = ((a.toNat * 256 + b.toNat) * 256 + c.toNat) * 256 + d.toNat := by
  simp only [readU32Be, UInt32.toNat_or, UInt8.toNat_toUInt32]
  rw [toNat_shl32 a 24 (by decide), toNat_shl32 b 16 (by decide), toNat_shl32 c 8 (by decide)]
  simp only [UInt32.reduceToNat]
  rw [horner_or 24 16 rfl b.toNat_lt, horner_or 16 8 rfl c.toNat_lt, horner_or_last d.toNat_lt]

/-- The little-endian reader is the big-endian one on the bytes in reverse. -/
theorem readU32Le_eq (a b c d : UInt8) : readU32Le a b c d = readU32Be d c b a := by
  have h : ∀ w x y z : UInt32, w ||| x ||| y ||| z = z ||| y ||| x ||| w := by
    intro w x y z
    rw [UInt32.or_comm (w ||| x ||| y), UInt32.or_comm (w ||| x) y, UInt32.or_comm w x,
      ← UInt32.or_assoc, ← UInt32.or_assoc]
  exact h _ _ _ _

theorem toNat_readF64Be (a b c d e f g h : UInt8) :
    (readF64Be a b c d e f g h).toNat
      = ((((((a.toNat * 256 + b.toNat) * 256 + c.toNat) * 256 + d.toNat) * 256 + e.toNat) * 256
        + f.toNat) * 256 + g.toNat) * 256 + h.toNat := by
  simp only [readF64Be, UInt64.toNat_or, UInt8.toNat_toUInt64]
  rw [toNat_shl64 a 56 (by decide), toNat_shl64 b 48 (by decide), toNat_shl64 c 40 (by decide),
    toNat_shl64 d 32 (by decide), toNat_shl64 e 24 (by decide), toNat_shl64 f 16 (by decide),
    toNat_shl64 g 8 (by decide)]
  simp only [UInt64.reduceToNat]
  rw [horner_or 56 48 rfl b.toNat_lt, horner_or 48 40 rfl c.toNat_lt,
    horner_or 40 32 rfl d.toNat_lt, horner_or 32 24 rfl e.toNat_lt,
    horner_or 24 16 rfl f.toNat_lt, horner_or 16 8 rfl g.toNat_lt, horner_or_last h.toNat_lt]

theorem toNat_byte16 (v k : UInt16) (hk : k.toNat < 16) :
    (((v >>> k) &&& 0xFF).toUInt8).toNat = v.toNat / 2 ^ k.toNat % 256 := by
  rw [UInt16.toNat_toUInt8, UInt16.toNat_and, UInt16.toNat_shiftRight,
    Nat.mod_eq_of_lt hk, Nat.shiftRight_eq_div_pow, show (0xFF : UInt16).toNat = 2 ^ 8 - 1 from rfl,
    Nat.and_two_pow_sub_one_eq_mod]
  omega

theorem toNat_byte32 (v k : UInt32) (hk : k.toNat < 32) :
    (((v >>> k) &&& 0xFF).toUInt8).toNat = v.toNat / 2 ^ k.toNat % 256 := by
  rw [UInt32.toNat_toUInt8, UInt32.toNat_and, UInt32.toNat_shiftRight,
    Nat.mod_eq_of_lt hk, Nat.shiftRight_eq_div_pow, show (0xFF : UInt32).toNat = 2 ^ 8 - 1 from rfl,
    Nat.and_two_pow_sub_one_eq_mod]
  omega

theorem toNat_byte64 (v k : UInt64) (hk : k.toNat < 64) :
    (((v >>> k) &&& 0xFF).toUInt8).toNat = v.toNat / 2 ^ k.toNat % 256 := by
  rw [UInt64.toNat_toUInt8, UInt64.toNat_and, UInt64.toNat_shiftRight,
    Nat.mod_eq_of_lt hk, Nat.shiftRight_eq_div_pow, show (0xFF : UInt64).toNat = 2 ^ 8 - 1 from rfl,
    Nat.and_two_pow_sub_one_eq_mod]
  omega

theorem toNat_byte32_zero (v : UInt32) : ((v &&& 0xFF).toUInt8).toNat = v.toNat % 256 := by
  simpa using toNat_byte32 v 0 (by decide)

/-! ### Reading undoes writing, and conversely -/

theorem writeU16Be_eq_iff (v : UInt16) (a b : UInt8) :
    writeU16Be v = [a, b] ↔ v = readU16Be a b := by
  have ha := a.toNat_lt
  have hb := b.toNat_lt
  have hv := v.toNat_lt
  have hlow := toNat_byte16 v 0 (by decide)
  simp only [UInt16.shiftRight_zero, UInt16.reduceToNat, pow_zero, Nat.div_one] at hlow
  simp only [writeU16Be, List.cons.injEq, and_true, ← UInt8.toNat_inj, ← UInt16.toNat_inj,
    toNat_readU16Be, hlow, toNat_byte16 v 8 (by decide), UInt16.reduceToNat]
  omega

/-- The 24-bit writer keeps the low 24 bits only, hence the bound. -/
theorem writeU24Be_eq_iff {v : UInt32} (hv : v.toNat < 2 ^ 24) (a b c : UInt8) :
    writeU24Be v = [a, b, c] ↔ v = readU24Be a b c := by
  have ha := a.toNat_lt
  have hb := b.toNat_lt
  have hc := c.toNat_lt
  simp only [writeU24Be, List.cons.injEq, and_true, ← UInt8.toNat_inj, ← UInt32.toNat_inj,
    toNat_readU24Be, toNat_byte32_zero, toNat_byte32 v 16 (by decide),
    toNat_byte32 v 8 (by decide), UInt32.reduceToNat]
  omega

theorem writeU32Be_eq_iff (v : UInt32) (a b c d : UInt8) :
    writeU32Be v = [a, b, c, d] ↔ v = readU32Be a b c d := by
  have ha := a.toNat_lt
  have hb := b.toNat_lt
  have hc := c.toNat_lt
  have hd := d.toNat_lt
  have hv := v.toNat_lt
  simp only [writeU32Be, List.cons.injEq, and_true, ← UInt8.toNat_inj, ← UInt32.toNat_inj,
    toNat_readU32Be, toNat_byte32_zero, toNat_byte32 v 24 (by decide),
    toNat_byte32 v 16 (by decide), toNat_byte32 v 8 (by decide), UInt32.reduceToNat]
  omega

theorem writeU32Le_eq_iff (v : UInt32) (a b c d : UInt8) :
    writeU32Le v = [a, b, c, d] ↔ v = readU32Le a b c d := by
  rw [readU32Le_eq, ← writeU32Be_eq_iff]
  simp only [writeU32Le, writeU32Be, List.cons.injEq, and_true]
  tauto

theorem writeF64Be_eq_iff (v : UInt64) (a b c d e f g h : UInt8) :
    writeF64Be v = [a, b, c, d, e, f, g, h] ↔ v = readF64Be a b c d e f g h := by
  have ha := a.toNat_lt
  have hb := b.toNat_lt
  have hc := c.toNat_lt
  have hd := d.toNat_lt
  have he := e.toNat_lt
  have hf := f.toNat_lt
  have hg := g.toNat_lt
  have hh := h.toNat_lt
  have hv := v.toNat_lt
  have hlow := toNat_byte64 v 0 (by decide)
  simp only [UInt64.shiftRight_zero, UInt64.reduceToNat, pow_zero, Nat.div_one] at hlow
  simp only [writeF64Be, List.cons.injEq, and_true, ← UInt8.toNat_inj, ← UInt64.toNat_inj,
    toNat_readF64Be, hlow, toNat_byte64 v 56 (by decide), toNat_byte64 v 48 (by decide),
    toNat_byte64 v 40 (by decide), toNat_byte64 v 32 (by decide), toNat_byte64 v 24 (by decide),
    toNat_byte64 v 16 (by decide), toNat_byte64 v 8 (by decide), UInt64.reduceToNat]
  omega

/-- **Reading undoes writing**, on 16 bits. -/
theorem exists_writeU16Be (v : UInt16) :
    ∃ a b, writeU16Be v = [a, b] ∧ readU16Be a b = v :=
  ⟨_, _, rfl, ((writeU16Be_eq_iff v _ _).1 rfl).symm⟩

/-- **Reading undoes writing**, on 24 bits. -/
theorem exists_writeU24Be {v : UInt32} (hv : v.toNat < 2 ^ 24) :
    ∃ a b c, writeU24Be v = [a, b, c] ∧ readU24Be a b c = v :=
  ⟨_, _, _, rfl, ((writeU24Be_eq_iff hv _ _ _).1 rfl).symm⟩

/-- **Reading undoes writing**, on 32 bits. -/
theorem exists_writeU32Be (v : UInt32) :
    ∃ a b c d, writeU32Be v = [a, b, c, d] ∧ readU32Be a b c d = v :=
  ⟨_, _, _, _, rfl, ((writeU32Be_eq_iff v _ _ _ _).1 rfl).symm⟩

/-- **Reading undoes writing**, on 32 bits, least significant byte first. -/
theorem exists_writeU32Le (v : UInt32) :
    ∃ a b c d, writeU32Le v = [a, b, c, d] ∧ readU32Le a b c d = v :=
  ⟨_, _, _, _, rfl, ((writeU32Le_eq_iff v _ _ _ _).1 rfl).symm⟩

/-- **Reading undoes writing**, on the 64 bits of a `double`. -/
theorem exists_writeF64Be (v : UInt64) :
    ∃ a b c d e f g h, writeF64Be v = [a, b, c, d, e, f, g, h] ∧ readF64Be a b c d e f g h = v :=
  ⟨_, _, _, _, _, _, _, _, rfl, ((writeF64Be_eq_iff v _ _ _ _ _ _ _ _).1 rfl).symm⟩

theorem toNat_readU24Be_lt (a b c : UInt8) : (readU24Be a b c).toNat < 2 ^ 24 := by
  have ha := a.toNat_lt
  have hb := b.toNat_lt
  have hc := c.toNat_lt
  rw [toNat_readU24Be]
  omega

end Bytes
