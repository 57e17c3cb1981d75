/-
**How deep AMF0 values are nested.**

`decode_impl` calls itself for the value of every property, and nothing counts these calls.  So what is
safe on a stack without an end (`Amf0Safety.lean`) overflows one that is not, as soon as the bytes open
enough objects inside each other: three bytes for each.  The model of this module gives `decode_impl` a
stack with room for a number of its calls, any number, and the depth is read off the bytes by a scanner
that only counts the objects that are open; it needs no stack at all.

Main definitions:

* `Amf0.decodeImplOn`, `Amf0.decodePropertiesOn`, `Amf0.decodeOn`, `Amf0.decodeArrayOn` — decoding on a
  stack;
* `Amf0.Front`, `Amf0.Next` — what stands where a value is expected, and where a property is;
* `Amf0.nesting` — the most objects that are open around a value;
* `Amf0.SafeOn` — `decode` and `decode_array` come to an end, within the bytes that there are;
* `Amf0.nested` — objects inside each other.

Main results:

* `Amf0.decodeImplOn_eq` — a stack changes nothing but that it may overflow;
* `Amf0.reads_decode` — **the stack overflows exactly if too many objects are open**;
* `Amf0.decode_safe_iff` — **decoding is safe exactly as far as the stack reaches**;
* `Amf0.stack_overflows` — the objects that no stack of this size holds.
-/

import RtmpTranscoder.Amf0Safety

set_option relaxedAutoImplicit false
set_option autoImplicit false

open Rtmp (Failure byteAt bytesAt)

namespace Amf0

variable {data : List UInt8} {stack fuel around limit : ℕ}

/-! ### Decoding on a stack -/

mutual

/-- `decode_impl`, where the stack has room for `stack` calls of it. -/
def decodeImplOn : (stack fuel : ℕ) → List UInt8 → Except Failure (Value × ℕ)
  | 0, _, _ => .error .stackOverflow
  | _ + 1, 0, _ => .error .outOfFuel
  | stack + 1, fuel + 1, data =>
      decodeValue (fun offset => decodePropertiesOn stack fuel data offset .empty) data

/-- The loop of `decode_impl`; `stack` is what its call has left. -/
def decodePropertiesOn : (stack fuel : ℕ) → List UInt8 → (offset : ℕ) → ObjectType →
    Except Failure (ObjectType × ℕ)
  | _, 0, data, offset, obj =>
      if offset + 3 ≤ data.length then .error .outOfFuel else .ok (obj, offset)
  | stack, fuel + 1, data, offset, obj =>
      decodeProperty (fun rest => decodeImplOn stack fuel rest)
        (fun offset obj => decodePropertiesOn stack fuel data offset obj) data offset obj

end

/-- `decode`. -/
def decodeOn (stack : ℕ) (data : List UInt8) : Except Failure (Value × ℕ) :=
  decodeImplOn stack (data.length + 1) data

/-- `decode_array`. -/
def decodeArrayOn (stack : ℕ) (data : List UInt8) : Except Failure (List Value) :=
  decodeArrayLoop (decodeOn stack) data data.length 0 []

/-! ### The objects that are open -/

/-- What stands where a value is expected: a value that is no object, with its number of bytes; an object,
with what is in front of its properties; or nothing that can be read. -/
inductive Front where
  | scalar (n : ℕ)
  | object (n : ℕ)
  | invalid
  deriving DecidableEq, Repr

/-- What a string is, behind its type. -/
def frontString : List UInt8 → Front
  | a :: b :: body =>
      if body.length < (Bytes.readU16Be a b).toNat then .invalid
      else .scalar (3 + (Bytes.readU16Be a b).toNat)
  | _ => .invalid

/-- What stands at the front of the bytes, where a value is expected. -/
def front : List UInt8 → Front
  | [] => .invalid
  | type :: rest =>
      if type = ValueType.number.code then if rest.length < 8 then .invalid else .scalar 9
      else if type = ValueType.boolean.code then if rest.length < 1 then .invalid else .scalar 2
      else if type = ValueType.string.code then frontString rest
      else if type = ValueType.null.code then .scalar 1
      else if type = ValueType.object.code then .object 1
      else if type = ValueType.ecmaArray.code then if rest.length < 4 then .invalid else .object 5
      else .invalid

/-- What stands where a property is expected: too little for one, the end marker, a key with its number of
bytes, or nothing that can be read. -/
inductive Next where
  | short
  | marker
  | key (n : ℕ)
  | invalid
  deriving DecidableEq, Repr

/-- What stands at the front of the bytes, where a property is expected. -/
def next : List UInt8 → Next
  | a :: b :: c :: rest =>
      if Bytes.readU16Be a b = 0 ∧ c = 9 then .marker
      else if rest.length + 1 < (Bytes.readU16Be a b).toNat then .invalid
      else .key (2 + (Bytes.readU16Be a b).toNat)
  | _ => .short

theorem front_bounds {n : ℕ} (h : front data = .scalar n ∨ front data = .object n) :
    1 ≤ n ∧ n ≤ data.length := by
  cases data with
  | nil => simp [front] at h
  | cons type rest =>
      simp only [front, frontString] at h
      rw [List.length_cons]
      grind

theorem next_bounds {n : ℕ} (h : next data = .key n) : 2 ≤ n ∧ n ≤ data.length ∧ 3 ≤ data.length := by
  unfold next at h
  split at h
  · split at h
    · cases h
    · split at h
      · cases h
      · obtain rfl := Next.key.inj h
        simp only [List.length_cons]
        omega
  · cases h

mutual

/-- The most objects that are open around a value, from one on that stands in `around` objects. -/
def nestingValue (around : ℕ) (data : List UInt8) : ℕ :=
  match h : front data with
  | .scalar n => max around (nestingProperty around (data.drop n))
  | .object n => max around (nestingProperty (around + 1) (data.drop n))
  | .invalid => around
termination_by 4 * data.length + 2 * around
decreasing_by
  · have := front_bounds (.inl h)
    simp only [List.length_drop]
    omega
  · have := front_bounds (.inr h)
    simp only [List.length_drop]
    omega

/-- The same behind a value that stands in `around` objects.  Behind the outermost one the next begins. -/
def nestingProperty (around : ℕ) (data : List UInt8) : ℕ :=
  match around with
  | 0 => if data.isEmpty then 0 else nestingValue 0 data
  | around + 1 =>
      match h : next data with
      | .short => nestingProperty around data
      | .marker => nestingProperty around (data.drop 3)
      | .key n => nestingValue (around + 1) (data.drop n)
      | .invalid => 0
termination_by 4 * data.length + 2 * around + 1
decreasing_by
  · omega
  · omega
  · simp only [List.length_drop]
    omega
  · have := next_bounds h
    simp only [List.length_drop]
    omega

end

/-- **The most objects that are open around a value**, in bytes that are a list of values. -/
def nesting (data : List UInt8) : ℕ := nestingValue 0 data

theorem nesting_nil : nesting [] = 0 := by
  rw [nesting, nestingValue]
  rfl

/-- Behind a value that stands in no object the next one begins, if there is one. -/
theorem nestingProperty_zero (data : List UInt8) : nestingProperty 0 data = nesting data := by
  rw [nestingProperty]
  split
  · rename_i hempty
    rw [List.isEmpty_iff.1 hempty, nesting_nil]
  · rfl

theorem le_nestingValue (around : ℕ) (data : List UInt8) : around ≤ nestingValue around data := by
  rw [nestingValue]
  split
  · exact Nat.le_max_left _ _
  · exact Nat.le_max_left _ _
  · exact Nat.le_refl _

/-! ### What the decoder reads -/

/-- What `decode_impl` does where the scanner has found something, whatever it does with properties. -/
def Front.Answers (data : List UInt8) : Front → Prop
  | .scalar n => ∃ v, ∀ properties, decodeValue properties data = .ok (v, n)
  | .object n => ∀ properties, decodeValue properties data =
      (properties n).bind fun r => .ok (Value.object r.1, r.2)
  | .invalid => ∃ text, ∀ properties, decodeValue properties data = .error (.err text)

/-- What the loop of `decode_impl` does where the scanner has found something. -/
def Next.Answers (data : List UInt8) (offset : ℕ) : Next → Prop
  | .short => ∀ value properties obj, decodeProperty value properties data offset obj = .ok (obj, offset)
  | .marker => ∀ value properties obj,
      decodeProperty value properties data offset obj = .ok (obj, offset + 3)
  | .key n => ∃ key, ∀ value properties obj, decodeProperty value properties data offset obj =
      (value (data.drop (offset + n))).bind fun r => properties (offset + n + r.2) (obj.set key r.1)
  | .invalid => ∃ text, ∀ value properties obj,
      decodeProperty value properties data offset obj = .error (.err text)

/-- A string is as long as its length says, or is not there. -/
theorem frontString_cases (rest : List UInt8) :
    (∃ str n, frontString rest = .scalar (n + 1) ∧ decodeString rest false = .ok (str, n)) ∨
      ∃ text, frontString rest = .invalid ∧ decodeString rest false = .error (.err text) := by
  match rest with
  | [] => exact .inr ⟨_, rfl, rfl⟩
  | [_] => exact .inr ⟨_, rfl, rfl⟩
  | a :: b :: body =>
      have hlen : u16At (a :: b :: body) 0 = .ok (Bytes.readU16Be a b) := rfl
      have hlong : ¬ body.length + 1 + 1 < 0 + 2 := by omega
      by_cases hshort : body.length < (Bytes.readU16Be a b).toNat
      · have hmore : body.length + 1 + 1 < 0 + 2 + (Bytes.readU16Be a b).toNat := by omega
        refine .inr ⟨"Not enough data for string content", if_pos hshort, ?_⟩
        simp only [decodeString, Bool.false_eq_true, if_false, bind, Except.bind, pure, Except.pure,
          throw, throwThe, MonadExceptOf.throw, hlen, List.length_cons, if_neg hlong, if_pos hmore]
      · have hmore : ¬ body.length + 1 + 1 < 0 + 2 + (Bytes.readU16Be a b).toNat := by omega
        have hbytes : bytesAt (a :: b :: body) (0 + 2) (Bytes.readU16Be a b).toNat =
            .ok (body.take (Bytes.readU16Be a b).toNat) :=
          Rtmp.bytesAt_of_le (by simp only [List.length_cons]; omega)
        refine .inl ⟨body.take (Bytes.readU16Be a b).toNat, 0 + 2 + (Bytes.readU16Be a b).toNat, ?_, ?_⟩
        · rw [frontString, if_neg hshort]
          exact congrArg Front.scalar (by omega)
        · simp only [decodeString, Bool.false_eq_true, if_false, bind, Except.bind, pure, Except.pure,
            throw, throwThe, MonadExceptOf.throw, hlen, List.length_cons, if_neg hlong, if_neg hmore,
            hbytes]

/-- Where a value is expected, the decoder finds what the scanner does. -/
theorem front_answers (data : List UInt8) : (front data).Answers data := by
  cases data with
  | nil => exact ⟨_, fun _ => rfl⟩
  | cons type rest =>
      have hlength : (type :: rest).length = rest.length + 1 := List.length_cons
      simp only [front, Front.Answers, decodeValue, List.isEmpty_cons, Rtmp.byteAt_cons_zero, bind,
        Except.bind, pure, Except.pure, throw, throwThe, MonadExceptOf.throw, Bool.false_eq_true,
        if_false, hlength, List.drop_succ_cons, List.drop_zero]
      by_cases hnumber : type = ValueType.number.code
      · simp only [if_pos hnumber]
        by_cases hshort : rest.length < 8
        · rw [if_pos hshort, if_pos (by omega)]
          exact ⟨_, fun _ => rfl⟩
        · obtain ⟨bits, hbits⟩ := @f64At_of_le (type :: rest) 1 (by rw [hlength]; omega)
          rw [if_neg hshort, if_neg (by omega), hbits]
          exact ⟨_, fun _ => rfl⟩
      simp only [if_neg hnumber]
      by_cases hboolean : type = ValueType.boolean.code
      · simp only [if_pos hboolean]
        by_cases hshort : rest.length < 1
        · rw [if_pos hshort, if_pos (by omega)]
          exact ⟨_, fun _ => rfl⟩
        · obtain ⟨b, hb⟩ := @byteAt_of_lt (type :: rest) 1 (by rw [hlength]; omega)
          rw [if_neg hshort, if_neg (by omega), hb]
          exact ⟨_, fun _ => rfl⟩
      simp only [if_neg hboolean]
      by_cases hstring : type = ValueType.string.code
      · simp only [if_pos hstring]
        rcases frontString_cases rest with ⟨str, n, hfront, hstr⟩ | ⟨text, hfront, hstr⟩
        · rw [hfront, hstr]
          exact ⟨_, fun _ => rfl⟩
        · rw [hfront, hstr]
          exact ⟨_, fun _ => rfl⟩
      simp only [if_neg hstring]
      by_cases hnull : type = ValueType.null.code
      · simp only [if_pos hnull]
        exact ⟨_, fun _ => rfl⟩
      simp only [if_neg hnull]
      by_cases hobject : type = ValueType.object.code
      · simp only [if_pos hobject, implies_true]
      simp only [if_neg hobject]
      by_cases harray : type = ValueType.ecmaArray.code
      · simp only [if_pos harray]
        by_cases hshort : rest.length < 4
        · have hfew : rest.length + 1 < 5 := by omega
          simp only [if_pos hshort, if_pos hfew]
          exact ⟨_, fun _ => rfl⟩
        · have hmany : ¬ rest.length + 1 < 5 := by omega
          simp only [if_neg hshort, if_neg hmany, implies_true]
      simp only [if_neg harray]
      exact ⟨_, fun _ => rfl⟩

/-- Where a property is expected, the loop finds what the scanner does. -/
theorem next_answers (data : List UInt8) (offset : ℕ) :
    (next (data.drop offset)).Answers data offset := by
  have hlength := @List.length_drop _ offset data
  have hbyte (i : ℕ) : data[offset + i]? = (data.drop offset)[i]? := (List.getElem?_drop ..).symm
  have hshort (h : (data.drop offset).length < 3) : Next.short.Answers data offset := by
    intro value properties obj
    rw [decodeProperty, if_neg (by omega)]
    rfl
  rcases hdata : data.drop offset with _ | ⟨a, _ | ⟨b, _ | ⟨c, rest⟩⟩⟩
  · exact hshort (by rw [hdata]; simp)
  · exact hshort (by rw [hdata]; simp)
  · exact hshort (by rw [hdata]; simp)
  · rw [hdata] at hbyte
    rw [hdata, List.length_cons, List.length_cons, List.length_cons] at hlength
    have hkeyLen : u16At data offset = .ok (Bytes.readU16Be a b) := by
      have ha : data[offset]? = some a := hbyte 0
      simp only [u16At, byteAt, ha, hbyte 1]
      rfl
    have hfits : offset + 3 ≤ data.length := by omega
    simp only [next, Next.Answers, decodeProperty, bind, Except.bind, pure, Except.pure, throw,
      throwThe, MonadExceptOf.throw, if_pos hfits, hkeyLen, hbyte 2, List.getElem?_cons_succ,
      List.getElem?_cons_zero, Option.some.injEq]
    by_cases hmarker : Bytes.readU16Be a b = 0 ∧ c = 9
    · simp only [if_pos hmarker, implies_true]
    simp only [if_neg hmarker]
    by_cases hlong : rest.length + 1 < (Bytes.readU16Be a b).toNat
    · have hmore : data.length < offset + 2 + (Bytes.readU16Be a b).toNat := by omega
      simp only [if_pos hlong, if_pos hmore]
      exact ⟨_, fun _ _ _ => rfl⟩
    · have hmore : ¬ data.length < offset + 2 + (Bytes.readU16Be a b).toNat := by omega
      have hkey := @Rtmp.bytesAt_of_le data (offset + 2) (Bytes.readU16Be a b).toNat (by omega)
      simp only [if_neg hlong, if_neg hmore, hkey, ← Nat.add_assoc]
      exact ⟨_, fun _ _ _ => rfl⟩

/-! ### A stack changes nothing but that it may overflow -/

theorem decodeImplOn_eq (fuel : ℕ) :
    (∀ stack data, decodeImplOn stack fuel data = decodeImpl fuel data ∨
      decodeImplOn stack fuel data = .error .stackOverflow) ∧
    (∀ stack data offset obj,
      decodePropertiesOn stack fuel data offset obj = decodeProperties fuel data offset obj ∨
        decodePropertiesOn stack fuel data offset obj = .error .stackOverflow) := by
  induction fuel with
  | zero =>
      constructor
      · intro stack data
        cases stack with
        | zero => exact .inr rfl
        | succ stack => exact .inl rfl
      · intro stack data offset obj
        exact .inl (by rw [decodePropertiesOn, decodeProperties])
  | succ fuel ih =>
      obtain ⟨ihv, ihp⟩ := ih
      constructor
      · intro stack data
        cases stack with
        | zero => exact .inr rfl
        | succ stack =>
            have hfront := front_answers data
            rw [decodeImplOn, decodeImpl]
            cases h : front data with
            | scalar n =>
                rw [h] at hfront
                obtain ⟨v, hv⟩ := hfront
                exact .inl (by rw [hv, hv])
            | object n =>
                rw [h] at hfront
                rw [hfront, hfront]
                rcases ihp stack data n .empty with hsame | hover
                · exact .inl (by rw [hsame])
                · exact .inr (by rw [hover]; rfl)
            | invalid =>
                rw [h] at hfront
                obtain ⟨text, htext⟩ := hfront
                exact .inl (by rw [htext, htext])
      · intro stack data offset obj
        have hnext := next_answers data offset
        rw [decodePropertiesOn, decodeProperties]
        cases h : next (data.drop offset) with
        | short =>
            rw [h] at hnext
            exact .inl (by rw [hnext, hnext])
        | marker =>
            rw [h] at hnext
            exact .inl (by rw [hnext, hnext])
        | invalid =>
            rw [h] at hnext
            obtain ⟨text, htext⟩ := hnext
            exact .inl (by rw [htext, htext])
        | key n =>
            rw [h] at hnext
            obtain ⟨key, hkey⟩ := hnext
            rw [hkey, hkey]
            rcases ihv stack (data.drop (offset + n)) with hsame | hover
            · rw [hsame]
              cases decodeImpl fuel (data.drop (offset + n)) with
              | error f => exact .inl rfl
              | ok r => exact ihp stack data _ _
            · exact .inr (by rw [hover]; rfl)

/-- What is taken on a stack is within the bytes that there are. -/
theorem le_of_decodeImplOn {v : Value} {n : ℕ} (h : decodeImplOn stack fuel data = .ok (v, n)) :
    1 ≤ n ∧ n ≤ data.length := by
  have hwithin := (within_decode fuel).1 data
  rcases (decodeImplOn_eq fuel).1 stack data with hsame | hover
  · rw [← hsame, h] at hwithin
    exact hwithin
  · rw [h] at hover
    cases hover

/-! ### The stack overflows exactly if too many objects are open -/

/-- An answer says whether something fits: the stack overflows if it does not, and behind what has been
read it is the rest that fits or not. -/
def Reads {α : Type} (fits : Prop) (behind : ℕ → Prop) : Except Failure (α × ℕ) → Prop
  | .ok (_, n) => fits ↔ behind n
  | .error .stackOverflow => ¬ fits
  | .error _ => fits

theorem Reads.bind {α β : Type} {fits fits' : Prop} {behind behind' : ℕ → Prop}
    {answer : Except Failure (α × ℕ)} {f : α × ℕ → Except Failure (β × ℕ)}
    (h : Reads fits behind answer) (hfits : fits' ↔ fits)
    (hmore : ∀ r, answer = .ok r → Reads (behind r.2) behind' (f r)) :
    Reads fits' behind' (answer.bind f) := by
  cases answer with
  | error failure =>
      cases failure with
      | stackOverflow => exact fun hf => h (hfits.1 hf)
      | _ => exact hfits.2 h
  | ok r =>
      have hrest := hmore r rfl
      rw [← (show fits ↔ behind r.2 from h), ← hfits] at hrest
      exact hrest

/-- **The stack overflows exactly if too many objects are open**, for values and for properties: by
induction on the calls that are left, for both at once. -/
theorem reads_decode (fuel : ℕ) :
    (∀ stack around data, data.length < fuel →
      Reads (nestingValue around data < around + stack)
        (fun n => nestingProperty around (data.drop n) < around + stack)
        (decodeImplOn stack fuel data)) ∧
    (∀ stack around data offset obj, data.length < offset + fuel → offset ≤ data.length →
      Reads (nestingProperty (around + 1) (data.drop offset) < around + 1 + stack)
        (fun n => nestingProperty around (data.drop n) < around + 1 + stack)
        (decodePropertiesOn stack fuel data offset obj)) := by
  induction fuel with
  | zero =>
      constructor
      · intro stack around data henough
        omega
      · intro stack around data offset obj henough hoffset
        omega
  | succ fuel ih =>
      obtain ⟨ihv, ihp⟩ := ih
      constructor
      · intro stack around data henough
        cases stack with
        | zero =>
            have hle := le_nestingValue around data
            rw [decodeImplOn]
            exact Nat.not_lt.2 hle
        | succ stack =>
            have hfront := front_answers data
            rw [decodeImplOn, nestingValue]
            cases h : front data with
            | scalar n =>
                rw [h] at hfront
                obtain ⟨v, hv⟩ := hfront
                rw [hv]
                exact ⟨fun hlt => (Nat.max_lt.1 hlt).2, fun hlt => Nat.max_lt.2 ⟨by omega, hlt⟩⟩
            | object n =>
                rw [h] at hfront
                have hbounds := front_bounds (.inr h)
                rw [hfront]
                have hrest := ihp stack around data n .empty (by omega) hbounds.2
                rw [show around + 1 + stack = around + (stack + 1) from by omega] at hrest
                refine hrest.bind ?_ fun r _ => Iff.rfl
                exact ⟨fun hlt => (Nat.max_lt.1 hlt).2, fun hlt => Nat.max_lt.2 ⟨by omega, hlt⟩⟩
            | invalid =>
                rw [h] at hfront
                obtain ⟨text, htext⟩ := hfront
                rw [htext]
                exact Nat.lt_add_of_pos_right (Nat.succ_pos stack)
      · intro stack around data offset obj henough hoffset
        have hnext := next_answers data offset
        rw [decodePropertiesOn, nestingProperty]
        cases h : next (data.drop offset) with
        | short =>
            rw [h] at hnext
            rw [hnext]
            exact Iff.rfl
        | marker =>
            rw [h] at hnext
            rw [hnext]
            simp only [Reads, List.drop_drop]
        | invalid =>
            rw [h] at hnext
            obtain ⟨text, htext⟩ := hnext
            rw [htext]
            exact Nat.lt_of_lt_of_le (Nat.succ_pos around) (Nat.le_add_right _ _)
        | key n =>
            rw [h] at hnext
            obtain ⟨key, hkey⟩ := hnext
            have hbounds := next_bounds h
            rw [List.length_drop] at hbounds
            rw [hkey]
            have hvalue := ihv stack (around + 1) (data.drop (offset + n)) (by
              rw [List.length_drop]
              omega)
            refine hvalue.bind (by simp only [List.drop_drop]) fun r hr => ?_
            -- the loop goes on behind the value
            have hle := le_of_decodeImplOn hr
            rw [List.length_drop] at hle
            rw [List.drop_drop]
            exact ihp stack around data _ _ (by omega) (by omega)

/-- What `decode` answers, and what is behind it in a list of values. -/
theorem reads_decodeOn (stack : ℕ) (data : List UInt8) :
    Reads (nesting data < stack) (fun n => nesting (data.drop n) < stack) (decodeOn stack data) := by
  have hreads := (reads_decode (data.length + 1)).1 stack 0 data (Nat.lt_succ_self _)
  simp only [Nat.zero_add, nestingProperty_zero] at hreads
  exact hreads

/-- What `decode` answers is an error of the source, or takes a number of bytes within bounds, or the stack
overflows. -/
theorem decodeOn_within (stack : ℕ) (data : List UInt8) :
    Within True 1 data.length (decodeOn stack data) ∨ decodeOn stack data = .error .stackOverflow := by
  rcases (decodeImplOn_eq (data.length + 1)).1 stack data with hsame | hover
  · exact .inl (by rw [decodeOn, hsame]; exact decode_within data)
  · exact .inr hover

/-! ### Lists of values -/

/-- Values that stand one behind the other, from a position to another one. -/
inductive Consumes (stack : ℕ) (data : List UInt8) : ℕ → List Value → ℕ → Prop
  | nil (m : ℕ) : Consumes stack data m [] m
  | snoc {m n k : ℕ} {values : List Value} {value : Value} : Consumes stack data m values n →
      n < data.length → decodeOn stack (data.drop n) = .ok (value, k) →
      Consumes stack data m (values ++ [value]) (n + k)

/-- A list of values is taken within the bytes that there are, or there is an error of the source. -/
def TakesList (stack : ℕ) (data : List UInt8) (answer : Except Failure (List Value)) : Prop :=
  (∃ values n, answer = .ok values ∧ n ≤ data.length ∧ Consumes stack data 0 values n) ∨
    ∃ text, answer = .error (.err text)

/-- The loop of `decode_array` goes on behind what it has consumed, and makes progress, unless the stack
overflows. -/
theorem decodeArrayLoop_takes {offset : ℕ} {values : List Value} (hstack : 0 < stack)
    (hconsumed : Consumes stack data 0 values offset) (hoffset : offset ≤ data.length)
    (hfuel : data.length ≤ offset + fuel) :
    (nesting (data.drop offset) < stack ∧
        TakesList stack data (decodeArrayLoop (decodeOn stack) data fuel offset values)) ∨
      (¬ nesting (data.drop offset) < stack ∧
        decodeArrayLoop (decodeOn stack) data fuel offset values = .error .stackOverflow) := by
  have hend {offset : ℕ} (hlength : data.length ≤ offset) : nesting (data.drop offset) < stack := by
    rw [List.drop_eq_nil_of_le hlength, nesting_nil]
    exact hstack
  induction fuel generalizing offset values with
  | zero =>
      rw [decodeArrayLoop, if_neg (by omega)]
      exact .inl ⟨hend (by omega), .inl ⟨values, offset, rfl, hoffset, hconsumed⟩⟩
  | succ fuel ih =>
      rw [decodeArrayLoop]
      split
      · rename_i hlt
        have hreads := reads_decodeOn stack (data.drop offset)
        have hwithin := decodeOn_within stack (data.drop offset)
        rw [List.length_drop] at hwithin
        cases hanswer : decodeOn stack (data.drop offset) with
        | ok r =>
            obtain ⟨value, consumed⟩ := r
            rw [hanswer] at hreads hwithin
            have hbounds : 1 ≤ consumed ∧ consumed ≤ data.length - offset :=
              hwithin.resolve_right (by simp)
            have hbehind : nesting (data.drop offset) < stack ↔
                nesting (data.drop (offset + consumed)) < stack := by
              rw [← List.drop_drop]
              exact hreads
            rw [hbehind]
            exact ih (hconsumed.snoc hlt hanswer) (by omega) (by omega)
        | error f =>
            rw [hanswer] at hreads hwithin
            cases f with
            | err text =>
                refine .inl ⟨hreads, ?_⟩
                simp only
                split
                · exact .inr ⟨text, rfl⟩
                · exact .inl ⟨values, offset, rfl, hoffset, hconsumed⟩
            | stackOverflow => exact .inr ⟨hreads, rfl⟩
            | outOfFuel => exact absurd trivial (hwithin.resolve_right (by simp))
            | _ => exact absurd (hwithin.resolve_right (by simp)) id
      · exact .inl ⟨hend (by omega), .inl ⟨values, offset, rfl, hoffset, hconsumed⟩⟩

/-! ### How far decoding is safe -/

/-- `decode_string`, `decode` and `decode_array` come to an end, and stay within the bytes that there
are. -/
structure SafeOn (stack : ℕ) (data : List UInt8) : Prop where
  decodeString : ∀ hasType, Within True 2 data.length (decodeString data hasType)
  decode : Within True 1 data.length (decodeOn stack data)
  decodeArray : TakesList stack data (decodeArrayOn stack data)

/-- Decoding is safe exactly if fewer objects are open around a value than calls fit on the stack. -/
theorem safeOn_iff (stack : ℕ) (data : List UInt8) : SafeOn stack data ↔ nesting data < stack := by
  rcases Nat.eq_zero_or_pos stack with rfl | hstack
  · refine iff_of_false (fun hsafe => ?_) (Nat.not_lt_zero _)
    have hdecode := hsafe.decode
    rw [decodeOn, decodeImplOn] at hdecode
    exact hdecode
  have harray := @decodeArrayLoop_takes data stack data.length 0 [] hstack (.nil 0) (Nat.zero_le _)
    (Nat.le_of_eq (Nat.zero_add _).symm)
  rw [List.drop_zero] at harray
  constructor
  · intro hsafe
    rcases harray with ⟨hshallow, -⟩ | ⟨-, hover⟩
    · exact hshallow
    · have htakes := hsafe.decodeArray
      rw [decodeArrayOn, hover] at htakes
      rcases htakes with ⟨values, n, heq, -⟩ | ⟨text, heq⟩ <;> cases heq
  · intro hshallow
    refine ⟨decodeString_within data, (decodeOn_within stack data).resolve_right fun hover => ?_, ?_⟩
    · have hreads := reads_decodeOn stack data
      rw [hover] at hreads
      exact hreads hshallow
    · exact (harray.resolve_right fun hdeep => hdeep.1 hshallow).2

/-- **Decoding is safe exactly as far as the stack reaches.**  Strings, values and lists of values are read
within the bytes that there are, and to an end, unless more objects are open around a value than calls fit
on the stack; and a call at any level of nesting takes at least one byte and stays within those that it is
given, or the stack overflows. -/
theorem decode_safe_iff (stack : ℕ) (data : List UInt8) :
    (SafeOn stack data ↔ nesting data < stack) ∧
    ∀ fuel, Within (data.length < fuel) 1 data.length (decodeImplOn stack fuel data) ∨
      decodeImplOn stack fuel data = .error .stackOverflow := by
  refine ⟨safeOn_iff stack data, fun fuel => ?_⟩
  rcases (decodeImplOn_eq fuel).1 stack data with hsame | hover
  · exact .inl (by rw [hsame]; exact (within_decode fuel).1 data)
  · exact .inr hover

/-! ### Objects inside each other -/

/-- Objects inside each other, each the value of the empty key, around a null. -/
def nested : ℕ → List UInt8
  | 0 => [ValueType.null.code]
  | n + 1 => ValueType.object.code :: 0 :: 0 :: nested n

theorem next_nested (n : ℕ) : next (0 :: 0 :: nested n) = .key 2 := by
  cases n with
  | zero => rfl
  | succ n => rfl

/-- **No stack is large enough**: objects inside each other, as many as it holds calls, overflow it.  By
induction on the stack: each object takes a call. -/
theorem decodeImplOn_nested {n : ℕ} (hstack : stack ≤ n) (hfuel : 2 * stack < fuel) :
    decodeImplOn stack fuel (nested n) = .error .stackOverflow := by
  induction stack generalizing n fuel with
  | zero => rw [decodeImplOn]
  | succ stack ih =>
      obtain ⟨n, rfl⟩ := Nat.exists_eq_add_of_le' (show 1 ≤ n by omega)
      obtain ⟨fuel, rfl⟩ := Nat.exists_eq_add_of_le' (show 2 ≤ fuel by omega)
      have hvalue := front_answers (nested (n + 1))
      have hproperty := next_answers (nested (n + 1)) 1
      rw [nested, List.drop_succ_cons, List.drop_zero, next_nested] at hproperty
      obtain ⟨key, hkey⟩ := hproperty
      rw [decodeImplOn, (show ∀ properties, _ = _ from hvalue) _, decodePropertiesOn, nested, hkey]
      have hdrop : (ValueType.object.code :: 0 :: 0 :: nested n).drop (1 + 2) = nested n := rfl
      rw [hdrop, ih (by omega) (by omega)]
      rfl

theorem length_nested (n : ℕ) : (nested n).length = 3 * n + 1 := by
  induction n with
  | zero => rfl
  | succ n ih =>
      simp only [nested, List.length_cons, ih]
      omega

theorem decodeOn_nested (stack : ℕ) : decodeOn stack (nested stack) = .error .stackOverflow :=
  decodeImplOn_nested (Nat.le_refl _) (by rw [length_nested]; omega)

/-- Fifty thousand objects inside each other overflow a stack for fifty thousand calls. -/
theorem stack_overflows : decodeOn 50000 (nested 50000) = .error .stackOverflow ∧
    ¬ ∀ stack data, SafeOn stack data := by
  refine ⟨decodeOn_nested 50000, fun hsafe => ?_⟩
  have hwithin := fun stack => (hsafe stack (nested stack)).decode
  simp only [decodeOn_nested] at hwithin
  exact hwithin 50000

end Amf0
