/-
**Numbers in texts.**

`std::stoi` reads as far as there are digits, behind blanks and a sign, and does not say what it has
left unread.  It takes every text that begins with a number, and a text may begin with a number
without being one.

`Socket::parse_address` narrows what it has read to 16 bits.

Main definitions:

* `Text.IsNumeral`, `Text.numeral` — plain decimal numerals, and their values;
* `Text.Begins` — the number that a text begins with.

Main results:

* `Text.stoi_ok_iff` — `stoi` returns the number that a text begins with, and nothing else;
* `Text.begins_numeral_iff` — a numeral begins with its value, as far as an `int` goes;
* `Rtmp.parseAddress_port_iff` — when the port of an address is the one that is written.
-/

import RtmpTranscoder.Text

set_option relaxedAutoImplicit false
set_option autoImplicit false

namespace Text

open Rtmp (Failure)

/-! ### Numerals -/

def IsNumeral (s : List UInt8) : Prop := s ≠ [] ∧ ∀ c ∈ s, isDigit c = true

instance (s : List UInt8) : Decidable (IsNumeral s) := inferInstanceAs (Decidable (_ ∧ _))

def numeral (s : List UInt8) : ℕ := Nat.ofDigits 10 (s.reverse.map fun c => c.toNat - 48)

theorem numeral_snoc (s : List UInt8) (c : UInt8) :
    numeral (s ++ [c]) = 10 * numeral s + (c.toNat - 48) := by
  simp [numeral, Nat.ofDigits_cons, Nat.add_comm]

theorem isDigit_iff {c : UInt8} : isDigit c = true ↔ 48 ≤ c.toNat ∧ c.toNat ≤ 57 := by
  simp [isDigit, UInt8.le_iff_toNat_le]

theorem foldl_digits {s : List UInt8} (h : ∀ c ∈ s, isDigit c = true) :
    s.foldl (fun (n : ℤ) c => 10 * n + (c.toNat - 48)) 0 = numeral s := by
  induction s using List.reverseRecOn with
  | nil => rfl
  | append_singleton s c ih =>
      have hdigit : 48 ≤ c.toNat := (isDigit_iff.1 (h c (by simp))).1
      have hbefore := ih fun d hd => h d (List.mem_append_left [c] hd)
      rw [List.foldl_append, hbefore, numeral_snoc]
      push_cast [hdigit]
      rfl

theorem IsNumeral.notMem {s : List UInt8} (h : IsNumeral s) {c : UInt8} (hc : isDigit c = false) :
    c ∉ s := by
  intro hmem
  rw [h.2 c hmem] at hc
  cases hc

/-! ### Signs -/

/-- A sign as it is written, and what it makes of a value. -/
inductive Signed : List UInt8 → ℕ → ℤ → Prop
  | unsigned (n : ℕ) : Signed [] n n
  | plus (n : ℕ) : Signed [43] n n
  | minus (n : ℕ) : Signed [45] n (-n)

/-- The sign in front of a number, whether it is a minus, and what is behind it. -/
def readSign : List UInt8 → Bool × List UInt8
  | 45 :: s => (true, s)
  | 43 :: s => (false, s)
  | s => (false, s)

/-- The value under a sign. -/
def applySign (negative : Bool) (n : ℕ) : ℤ := if negative then -n else n

theorem readSign_spec (s : List UInt8) :
    ∃ sign, s = sign ++ (readSign s).2 ∧ ∀ n, Signed sign n (applySign (readSign s).1 n) := by
  unfold readSign
  split
  · exact ⟨[45], rfl, Signed.minus⟩
  · exact ⟨[43], rfl, Signed.plus⟩
  · exact ⟨[], rfl, Signed.unsigned⟩

theorem readSign_append {sign : List UInt8} {n : ℕ} {z : ℤ} (h : Signed sign n z) {c : UInt8}
    (hc : isDigit c = true) (s : List UInt8) :
    (readSign (sign ++ c :: s)).2 = c :: s ∧ applySign (readSign (sign ++ c :: s)).1 n = z := by
  cases h with
  | unsigned =>
      unfold readSign
      split
      · rename_i heq
        obtain ⟨rfl, -⟩ := List.cons.inj heq
        exact absurd hc (by decide)
      · rename_i heq
        obtain ⟨rfl, -⟩ := List.cons.inj heq
        exact absurd hc (by decide)
      · exact ⟨rfl, rfl⟩
  | plus => exact ⟨rfl, rfl⟩
  | minus => exact ⟨rfl, rfl⟩

/-- The parts of `stoi`. -/
theorem stoi_eq (s : List UInt8) :
    stoi s =
      let (negative, behind) := readSign (s.dropWhile isSpace)
      let digits := behind.takeWhile isDigit
      if digits.isEmpty then .error (.err "invalid_argument")
      else
        let n := applySign negative (numeral digits)
        if n < -2 ^ 31 ∨ 2 ^ 31 ≤ n then .error (.err "out_of_range") else .ok n := by
  have hread : stoi s =
      let (negative, behind) := readSign (s.dropWhile isSpace)
      let digits := behind.takeWhile isDigit
      if digits.isEmpty then .error (.err "invalid_argument")
      else
        let n : ℤ := digits.foldl (fun n c => 10 * n + (c.toNat - 48)) 0
        let n := if negative then -n else n
        if n < -2 ^ 31 ∨ 2 ^ 31 ≤ n then .error (.err "out_of_range") else .ok n := rfl
  rw [hread]
  simp only [foldl_digits fun c hc => List.mem_takeWhile_imp hc, applySign]
  rfl

/-! ### Numbers that texts begin with -/

/-- The number that a text begins with: behind blanks and a sign, if there is one, stand digits, as
far as they go.  The number is an `int`. -/
def Begins (s : List UInt8) (n : ℤ) : Prop :=
  ∃ blanks sign digits rest, s = blanks ++ (sign ++ (digits ++ rest)) ∧
    (∀ c ∈ blanks, isSpace c = true) ∧ IsNumeral digits ∧ (∀ c ∈ rest.head?, isDigit c = false) ∧
      Signed sign (numeral digits) n ∧ -2 ^ 31 ≤ n ∧ n < 2 ^ 31

theorem takeWhile_digits {digits rest : List UInt8} (hdigits : ∀ c ∈ digits, isDigit c = true)
    (hrest : ∀ c ∈ rest.head?, isDigit c = false) : (digits ++ rest).takeWhile isDigit = digits := by
  rw [List.takeWhile_append_of_pos hdigits]
  cases rest with
  | nil => rw [List.takeWhile_nil, List.append_nil]
  | cons c rest => rw [List.takeWhile_cons_of_neg (by simpa using hrest c rfl), List.append_nil]

/-- What is left where blanks or digits are skipped does not start with one. -/
theorem head_dropWhile (p : UInt8 → Bool) (s : List UInt8) :
    ∀ c ∈ (s.dropWhile p).head?, p c = false := by
  induction s with
  | nil => simp
  | cons c s ih =>
      intro d hd
      cases hp : p c with
      | true => exact ih d (by rwa [List.dropWhile_cons_of_pos hp] at hd)
      | false =>
          rw [List.dropWhile_cons_of_neg (by simp [hp]), List.head?_cons, Option.mem_some_iff] at hd
          rwa [← hd]

theorem Signed.dropWhile_isSpace {sign : List UInt8} {n : ℕ} {z : ℤ} (h : Signed sign n z)
    {c : UInt8} (hc : isDigit c = true) (s : List UInt8) :
    (sign ++ c :: s).dropWhile isSpace = sign ++ c :: s := by
  cases h with
  | unsigned =>
      refine List.dropWhile_cons_of_neg ?_
      have hdigit := isDigit_iff.1 hc
      simp only [isSpace, Bool.or_eq_true, beq_iff_eq, Bool.and_eq_true, decide_eq_true_eq,
        UInt8.le_iff_toNat_le, ← UInt8.toNat_inj, UInt8.reduceToNat]
      omega
  | plus => rfl
  | minus => rfl

/-- **`stoi` returns the number that a text begins with**, and fails where there is none. -/
theorem stoi_ok_iff {s : List UInt8} {n : ℤ} : stoi s = .ok n ↔ Begins s n := by
  constructor
  · intro h
    obtain ⟨sign, hsign, hsigned⟩ := readSign_spec (s.dropWhile isSpace)
    have htext : s = s.takeWhile isSpace ++ (sign ++
        ((readSign (s.dropWhile isSpace)).2.takeWhile isDigit ++
          (readSign (s.dropWhile isSpace)).2.dropWhile isDigit)) := by
      rw [List.takeWhile_append_dropWhile, ← hsign, List.takeWhile_append_dropWhile]
    rw [stoi_eq] at h
    by_cases hnone : ((readSign (s.dropWhile isSpace)).2.takeWhile isDigit).isEmpty = true
    · simp [hnone] at h
    · simp only [hnone, Bool.false_eq_true, ↓reduceIte] at h
      split at h
      · cases h
      · rename_i hfits
        rw [not_or, not_lt, not_le] at hfits
        obtain rfl := Except.ok.inj h
        exact ⟨_, sign, _, _, htext, fun c hc => List.mem_takeWhile_imp hc,
          ⟨fun hnil => hnone (by rw [hnil]; rfl), fun c hc => List.mem_takeWhile_imp hc⟩,
          head_dropWhile isDigit _, hsigned _, hfits⟩
  · rintro ⟨blanks, sign, digits, rest, rfl, hblanks, ⟨hnonempty, hdigits⟩, hrest, hsigned, hfits⟩
    obtain ⟨c, more, rfl⟩ := List.exists_cons_of_ne_nil hnonempty
    have hc : isDigit c = true := hdigits c List.mem_cons_self
    obtain ⟨hbehind, hvalue⟩ := readSign_append hsigned hc (more ++ rest)
    have hdrop : (blanks ++ (sign ++ c :: (more ++ rest))).dropWhile isSpace =
        sign ++ c :: (more ++ rest) := by
      rw [List.dropWhile_append_of_pos hblanks, hsigned.dropWhile_isSpace hc]
    have hread : (c :: (more ++ rest)).takeWhile isDigit = c :: more :=
      takeWhile_digits hdigits hrest
    rw [stoi_eq, List.cons_append, hdrop]
    simp only [hbehind, hread, List.isEmpty_cons, Bool.false_eq_true, ↓reduceIte, hvalue]
    rw [if_neg (by omega)]

/-- What a text begins with is an `int`. -/
theorem Begins.lt {s : List UInt8} {n : ℤ} (h : Begins s n) : n < 2 ^ 31 := by
  obtain ⟨_, _, _, _, -, -, -, -, -, -, hlt⟩ := h
  exact hlt

theorem isDigit_of_isSpace {c : UInt8} (h : isSpace c = true) : isDigit c = false := by
  rw [Bool.eq_false_iff, Ne, isDigit_iff]
  simp only [isSpace, Bool.or_eq_true, beq_iff_eq, Bool.and_eq_true, decide_eq_true_eq,
    UInt8.le_iff_toNat_le, ← UInt8.toNat_inj, UInt8.reduceToNat] at h
  omega

/-- **A numeral begins with its value**, as far as an `int` goes. -/
theorem begins_numeral_iff {s : List UInt8} (h : IsNumeral s) {n : ℤ} :
    Begins s n ↔ n = numeral s ∧ n < 2 ^ 31 := by
  constructor
  · rintro ⟨blanks, sign, digits, rest, rfl, hblanks, -, hrest, hsigned, -, hfits⟩
    have hnoblanks : blanks = [] := by
      refine List.eq_nil_iff_forall_not_mem.2 fun c hc => ?_
      exact h.notMem (isDigit_of_isSpace (hblanks c hc)) (List.mem_append_left _ hc)
    have hnorest : rest = [] := by
      cases rest with
      | nil => rfl
      | cons c rest => exact absurd (by simp) (h.notMem (hrest c rfl))
    subst hnoblanks hnorest
    cases hsigned with
    | unsigned => exact ⟨by simp, hfits⟩
    | plus => exact absurd (by simp) (h.notMem (c := 43) rfl)
    | minus => exact absurd (by simp) (h.notMem (c := 45) rfl)
  · rintro ⟨rfl, hfits⟩
    exact ⟨[], [], s, [], by simp, by simp, h, by simp, Signed.unsigned _, by omega, hfits⟩

end Text

namespace Rtmp

open Text

/-! ### Ports -/

theorem parseAddress_append (resolve : List UInt8 → Except Failure (List UInt8))
    {host text : List UInt8} (htext : 58 ∉ text) (hsize : (host ++ 58 :: text).length < npos)
    {n : ℤ} (hn : stoi text = .ok n) :
    parseAddress resolve (host ++ 58 :: text) =
      (resolve host).map fun addr => (addr, UInt16.ofInt n) := by
  have hcolon := rfind_append htext host
  have hport : substr (host ++ 58 :: text) (host.length + 1) = text :=
    substr_behind rfl hsize
  have hhost : substr (host ++ 58 :: text) 0 host.length = host :=
    substr_eq (List.nil_append _).symm rfl rfl
  rw [List.length_append] at hsize
  simp only [parseAddress, hcolon, hport, hhost, hn]
  rw [if_neg (by omega)]

theorem parseAddress_append_error (resolve : List UInt8 → Except Failure (List UInt8))
    {host text : List UInt8} (htext : 58 ∉ text) (hsize : (host ++ 58 :: text).length < npos)
    {failure : Failure} (hfailure : stoi text = .error failure) :
    parseAddress resolve (host ++ 58 :: text) = .error (.err "Invalid port number") := by
  have hcolon := rfind_append htext host
  have hport : substr (host ++ 58 :: text) (host.length + 1) = text :=
    substr_behind rfl hsize
  rw [List.length_append] at hsize
  simp only [parseAddress, hcolon, hport, hfailure]
  rw [if_neg (by omega)]

/-- An address is taken only if its port is a plain numeral, and with the port that it says. -/
def PortIsWritten (resolve : List UInt8 → Except Failure (List UInt8)) (host text : List UInt8) :
    Prop :=
  ∀ addr port, parseAddress resolve (host ++ 58 :: text) = .ok (addr, port) →
    IsNumeral text ∧ numeral text = port.toNat

/-- **Ports are those that are written**, exactly where the text behind the last colon does not begin
with a number, or is a numeral of 16 bits. -/
theorem parseAddress_port_iff (resolve : List UInt8 → Except Failure (List UInt8))
    {host text resolved : List UInt8} (htext : 58 ∉ text)
    (hsize : (host ++ 58 :: text).length < npos) (hresolve : resolve host = .ok resolved) :
    PortIsWritten resolve host text ↔ ∀ n, Begins text n → IsNumeral text ∧ n ≤ 65535 := by
  constructor
  · intro h n hn
    have hread := parseAddress_append resolve htext hsize (stoi_ok_iff.2 hn)
    rw [hresolve] at hread
    obtain ⟨hnumeral, hvalue⟩ := h resolved (UInt16.ofInt n) hread
    obtain ⟨rfl, -⟩ := (begins_numeral_iff hnumeral).1 hn
    have hport : (UInt16.ofInt (numeral text)).toNat < 65536 := UInt16.toNat_lt _
    exact ⟨hnumeral, by omega⟩
  · intro h addr port hok
    cases hread : stoi text with
    | error failure =>
        rw [parseAddress_append_error resolve htext hsize hread] at hok
        cases hok
    | ok n =>
        rw [parseAddress_append resolve htext hsize hread, hresolve] at hok
        obtain ⟨rfl, rfl⟩ := Prod.mk.inj (Except.ok.inj hok)
        obtain ⟨hnumeral, hbound⟩ := h n (stoi_ok_iff.1 hread)
        obtain ⟨rfl, -⟩ := (begins_numeral_iff hnumeral).1 (stoi_ok_iff.1 hread)
        have hport : ((numeral text : ℤ) % 2 ^ 16).toNat = numeral text := by omega
        rw [UInt16.ofInt, hport, UInt16.toNat_ofNat_of_lt' (by rw [UInt16.size]; omega)]
        exact ⟨hnumeral, rfl⟩

theorem portIsWritten_1935 : PortIsWritten Except.ok (ascii "127.0.0.1") (ascii "1935") := by
  have htext : 58 ∉ ascii "1935" := by decide
  have hsize : (ascii "127.0.0.1" ++ 58 :: ascii "1935").length < npos := by decide +kernel
  have hnumeral : IsNumeral (ascii "1935") := by decide +kernel
  refine (parseAddress_port_iff Except.ok htext hsize rfl).2 fun n hn => ?_
  obtain ⟨rfl, -⟩ := (begins_numeral_iff hnumeral).1 hn
  exact ⟨hnumeral, by decide⟩

/-- Port 70000 is port 4464. -/
theorem port_wraps : ¬ PortIsWritten Except.ok (ascii "127.0.0.1") (ascii "70000") := by
  intro h
  have hwrong := (h (ascii "127.0.0.1") 4464 (by decide +kernel)).2
  revert hwrong
  decide

end Rtmp
