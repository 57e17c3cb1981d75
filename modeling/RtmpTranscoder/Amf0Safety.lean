/-
**Values are decoded within the bytes that there are.**

Whatever the bytes are, decoding a value comes to an end, and reads none that is not there.  The two facts
hold each other up: what a nested call reports bounds where the loop over the properties of an object
goes on, and that this is behind where it was bounds the calls.  So they are one statement, about an
answer, the bytes it was asked for, and the calls that are left; it holds of every nested call.

Main definitions:

* `Amf0.Within` — an answer is an error of the source, or takes a number of bytes within bounds.

Main results:

* `Amf0.decodeString_within` — a string is read within the bytes that there are;
* `Amf0.within_decode` — **a value takes at least one byte, and no more than there are**, at every level
  of nesting.
-/

import RtmpTranscoder.Amf0

set_option relaxedAutoImplicit false
set_option autoImplicit false

open Rtmp (Failure byteAt bytesAt)

namespace Amf0

variable {α : Type} {data : List UInt8}

/-- An answer is safe: it is an error of the source, or a number of bytes from `lo` to `hi` is taken;
and there is one, if there are enough calls. -/
def Within (enough : Prop) (lo hi : ℕ) : Except Failure (α × ℕ) → Prop
  | .ok (_, n) => lo ≤ n ∧ n ≤ hi
  | .error (.err _) => True
  | .error .outOfFuel => ¬ enough
  | .error _ => False

/-! ### Reading -/

theorem byteAt_of_lt {i : ℕ} (h : i < data.length) : ∃ b, byteAt data i = .ok b := by
  refine ⟨data[i], ?_⟩
  rw [byteAt, List.getElem?_eq_getElem h]

theorem u16At_of_le {i : ℕ} (h : i + 2 ≤ data.length) : ∃ v, u16At data i = .ok v := by
  obtain ⟨a, ha⟩ := byteAt_of_lt (show i < data.length by omega)
  obtain ⟨b, hb⟩ := byteAt_of_lt (show i + 1 < data.length by omega)
  refine ⟨Bytes.readU16Be a b, ?_⟩
  simp only [u16At, ha, hb, bind, Except.bind]
  rfl

theorem f64At_of_le {i : ℕ} (h : i + 8 ≤ data.length) : ∃ v, f64At data i = .ok v := by
  obtain ⟨a, ha⟩ := byteAt_of_lt (show i < data.length by omega)
  obtain ⟨b, hb⟩ := byteAt_of_lt (show i + 1 < data.length by omega)
  obtain ⟨c, hc⟩ := byteAt_of_lt (show i + 2 < data.length by omega)
  obtain ⟨d, hd⟩ := byteAt_of_lt (show i + 3 < data.length by omega)
  obtain ⟨e, he⟩ := byteAt_of_lt (show i + 4 < data.length by omega)
  obtain ⟨f, hf⟩ := byteAt_of_lt (show i + 5 < data.length by omega)
  obtain ⟨g, hg⟩ := byteAt_of_lt (show i + 6 < data.length by omega)
  obtain ⟨k, hk⟩ := byteAt_of_lt (show i + 7 < data.length by omega)
  refine ⟨Bytes.readF64Be a b c d e f g k, ?_⟩
  simp only [f64At, ha, hb, hc, hd, he, hf, hg, hk, bind, Except.bind]
  rfl

theorem decodeString_within (data : List UInt8) (hasType : Bool) :
    Within True 2 data.length (decodeString data hasType) := by
  have hrest (offset : ℕ) (hoffset : offset + 2 ≤ data.length) :
      ∃ len, u16At data offset = .ok len ∧ (¬ data.length < offset + 2 + len.toNat →
        ∃ str, bytesAt data (offset + 2) len.toNat = .ok str) := by
    obtain ⟨len, hlen⟩ := u16At_of_le hoffset
    refine ⟨len, hlen, fun hfits => ⟨_, Rtmp.bytesAt_of_le (by omega)⟩⟩
  cases hasType with
  | true =>
      simp only [decodeString, if_true, bind, Except.bind, pure, Except.pure, throw, throwThe,
        MonadExceptOf.throw]
      split
      · trivial
      · rename_i hsome
        obtain ⟨marker, hmarker⟩ := byteAt_of_lt (show 0 < data.length by omega)
        simp only [hmarker]
        split
        · trivial
        · split
          · trivial
          · rename_i hlong
            obtain ⟨len, hlen, hstr⟩ := hrest 1 (by omega)
            simp only [hlen]
            split
            · trivial
            · rename_i hfits
              obtain ⟨str, hbytes⟩ := hstr hfits
              simp only [hbytes]
              exact ⟨by omega, by omega⟩
  | false =>
      simp only [decodeString, Bool.false_eq_true, if_false, bind, Except.bind, pure, Except.pure, throw,
        throwThe, MonadExceptOf.throw]
      split
      · trivial
      · rename_i hlong
        obtain ⟨len, hlen, hstr⟩ := hrest 0 (by omega)
        simp only [hlen]
        split
        · trivial
        · rename_i hfits
          obtain ⟨str, hbytes⟩ := hstr hfits
          simp only [hbytes]
          exact ⟨by omega, by omega⟩

/-! ### Values -/

/-- An error of a call that is made becomes one of the call that makes it. -/
theorem Within.error {β : Type} {enough enough' : Prop} {lo hi : ℕ} {f : Failure}
    (h : Within enough lo hi (.error f : Except Failure (α × ℕ))) (hmore : enough' → enough)
    (lo' hi' : ℕ) : Within enough' lo' hi' (.error f : Except Failure (β × ℕ)) := by
  cases f with
  | err text => trivial
  | outOfFuel => exact fun henough => h (hmore henough)
  | _ => exact h

theorem Within.mono {enough enough' : Prop} {lo lo' hi : ℕ} {answer : Except Failure (α × ℕ)}
    (h : Within enough lo hi answer) (hmore : enough' → enough) (hlo : lo' ≤ lo) :
    Within enough' lo' hi answer := by
  cases answer with
  | ok r => exact ⟨hlo.trans h.1, h.2⟩
  | error f => exact Within.error h hmore lo' hi

/-- A value stays within the bytes when the properties of an object do. -/
theorem within_decodeImpl {fuel : ℕ} (data : List UInt8)
    (hloop : ∀ offset obj, offset ≤ data.length →
      Within (data.length < offset + fuel) offset data.length
        (decodeProperties fuel data offset obj)) :
    Within (data.length < fuel + 1) 1 data.length (decodeImpl (fuel + 1) data) := by
  have hproperties (offset : ℕ) (hone : 1 ≤ offset) (hoffset : offset ≤ data.length) :
      Within (data.length < fuel + 1) 1 data.length
        ((decodeProperties fuel data offset .empty).bind fun r =>
          .ok (Value.object r.1, r.2)) := by
    have hbounds := hloop offset .empty hoffset
    cases hanswer : decodeProperties fuel data offset .empty with
    | ok r =>
        rw [hanswer] at hbounds
        exact ⟨hone.trans hbounds.1, hbounds.2⟩
    | error f =>
        rw [hanswer] at hbounds
        exact hbounds.error (by omega) 1 data.length
  simp only [decodeImpl, decodeValue, bind, Except.bind, pure, Except.pure, throw, throwThe,
    MonadExceptOf.throw] at hproperties ⊢
  split
  · trivial
  · rename_i hempty
    have hpos : 0 < data.length := List.length_pos_of_ne_nil (by simpa using hempty)
    obtain ⟨type, htype⟩ := byteAt_of_lt hpos
    simp only [htype]
    split
    · -- a number
      split
      · trivial
      · obtain ⟨bits, hbits⟩ := @f64At_of_le data 1 (by omega)
        simp only [hbits]
        exact ⟨by omega, by omega⟩
    · split
      · -- a boolean
        split
        · trivial
        · obtain ⟨b, hb⟩ := byteAt_of_lt (show 1 < data.length by omega)
          simp only [hb]
          exact ⟨by omega, by omega⟩
      · split
        · -- a string
          have hstr := decodeString_within (data.drop 1) false
          rw [List.length_drop] at hstr
          cases hanswer : decodeString (data.drop 1) false with
          | ok r =>
              rw [hanswer] at hstr
              have hbounds : 2 ≤ r.2 ∧ r.2 ≤ data.length - 1 := hstr
              exact ⟨by omega, by omega⟩
          | error f =>
              rw [hanswer] at hstr
              exact hstr.error (fun _ => trivial) 1 data.length
        · split
          · -- a null
            exact ⟨Nat.le_refl _, hpos⟩
          · split
            · exact hproperties 1 (Nat.le_refl _) hpos
            · split
              · split
                · trivial
                · exact hproperties 5 (by omega) (by omega)
              · trivial

/-- The properties of an object stay within the bytes when each value does, and the properties
behind the first one. -/
theorem within_decodeProperties {fuel offset : ℕ} (data : List UInt8) (obj : ObjectType)
    (hoffset : offset ≤ data.length)
    (hvalue : ∀ rest, Within (rest.length < fuel) 1 rest.length (decodeImpl fuel rest))
    (hloop : ∀ offset obj, offset ≤ data.length →
      Within (data.length < offset + fuel) offset data.length
        (decodeProperties fuel data offset obj)) :
    Within (data.length < offset + (fuel + 1)) offset data.length
      (decodeProperties (fuel + 1) data offset obj) := by
  simp only [decodeProperties, decodeProperty, bind, Except.bind, pure, Except.pure, throw, throwThe,
    MonadExceptOf.throw]
  split
  · rename_i hmore
    obtain ⟨keyLen, hkeyLen⟩ := @u16At_of_le data offset (by omega)
    simp only [hkeyLen]
    split
    · exact ⟨by omega, by omega⟩
    · split
      · trivial
      · rename_i hfits
        rw [Rtmp.bytesAt_of_le (by omega)]
        have hval := hvalue (data.drop (offset + 2 + keyLen.toNat))
        rw [List.length_drop] at hval
        simp only
        cases hanswer : decodeImpl fuel (data.drop (offset + 2 + keyLen.toNat)) with
        | error f =>
            rw [hanswer] at hval
            exact hval.error (by omega) offset data.length
        | ok r =>
            rw [hanswer] at hval
            have hbounds : 1 ≤ r.2 ∧ r.2 ≤ data.length - (offset + 2 + keyLen.toNat) := hval
            -- the loop goes on behind the value, with one call less
            exact (hloop (offset + 2 + keyLen.toNat + r.2) (obj.set _ r.1) (by omega)).mono
              (by omega) (by omega)
  · exact ⟨Nat.le_refl _, hoffset⟩

/-- **A value takes at least one byte, and no more than there are**, and the loop over the properties
of an object goes on within them: by induction on the calls that are left, for both at once. -/
theorem within_decode (fuel : ℕ) :
    (∀ data, Within (data.length < fuel) 1 data.length (decodeImpl fuel data)) ∧
    (∀ data offset obj, offset ≤ data.length →
      Within (data.length < offset + fuel) offset data.length
        (decodeProperties fuel data offset obj)) := by
  induction fuel with
  | zero =>
      constructor
      · intro data henough
        omega
      · intro data offset obj hoffset
        rw [decodeProperties]
        split
        · intro henough
          omega
        · exact ⟨Nat.le_refl _, hoffset⟩
  | succ fuel ih =>
      obtain ⟨ihv, ihp⟩ := ih
      exact ⟨fun data => within_decodeImpl data (ihp data),
        fun data offset obj hoffset => within_decodeProperties data obj hoffset ihv (ihp data)⟩

/-- The calls that `decode` grants are enough. -/
theorem decode_within (data : List UInt8) : Within True 1 data.length (decode data) :=
  ((within_decode (data.length + 1)).1 data).mono (fun _ => Nat.lt_succ_self _) (Nat.le_refl _)

end Amf0
