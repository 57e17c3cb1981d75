/-
**Strings and addresses.**

The relay puts URLs together and takes them apart again with the functions of `std::string`.  A
string is the list of its bytes; a position is a `size_t`, and `npos`, the largest of them, stands
for no position.  The arithmetic on positions wraps around, which the source relies on where it
computes with `npos`.

`Socket::parse_address` asks the system for the address of a host.  The answer is a parameter.

Main definitions:

* `Text.ascii`, `Text.find`, `Text.rfind`, `Text.replace`, `Text.substr`, `Text.stoi` — the functions
  of `std::string` that are used;
* `Text.sizeAdd`, `Text.sizeSub` — arithmetic on `size_t`;
* `Rtmp.parseAddress` — `Socket::parse_address`.

Main results:

* `Text.sizeSub_of_le` — a subtraction that does not wrap;
* `Text.find_append`, `Text.rfind_append` — an occurrence behind, and in front of, what has none;
* `Text.find_cut` — a text is cut where a character is found.
-/

import RtmpTranscoder.Bytes

set_option relaxedAutoImplicit false
set_option autoImplicit false

namespace Text

open Rtmp (Failure)

def ascii (s : String) : List UInt8 := s.toList.map fun c => UInt8.ofNat c.toNat

/-! ### Positions -/

/-- `std::string::npos`. -/
def npos : ℕ := 2 ^ 64 - 1

/-- Addition on `size_t`. -/
def sizeAdd (a b : ℕ) : ℕ := (a + b) % 2 ^ 64

/-- Subtraction on `size_t`. -/
def sizeSub (a b : ℕ) : ℕ := if b ≤ a then a - b else a + 2 ^ 64 - b

theorem sizeSub_of_le {a b : ℕ} (h : b ≤ a) : sizeSub a b = a - b := if_pos h

/-! ### Strings -/

/-- `find`: the first occurrence at `pos` or behind it. -/
def find (s needle : List UInt8) (pos : ℕ) : ℕ :=
  ((List.range s.length).find? fun i => decide (pos ≤ i) && needle.isPrefixOf (s.drop i)).getD npos

/-- `rfind`, of a character. -/
def rfind (s : List UInt8) (c : UInt8) : ℕ :=
  ((List.range s.length).reverse.find? fun i => s[i]? == some c).getD npos

/-- `replace`. -/
def replace (s : List UInt8) (pos n : ℕ) (by' : List UInt8) : List UInt8 :=
  s.take pos ++ by' ++ s.drop (pos + n)

/-- `substr`, from a position within the string. -/
def substr (s : List UInt8) (pos : ℕ) (n : ℕ := npos) : List UInt8 := (s.drop pos).take n

/-- What occurs at a position, and not before it, is found there. -/
theorem find_eq {s needle : List UInt8} {pos i : ℕ} (hneedle : needle ≠ []) (hpos : pos ≤ i)
    (hat : needle <+: s.drop i) (hnone : ∀ j, pos ≤ j → j < i → ¬ needle <+: s.drop j) :
    find s needle pos = i := by
  have hlt : i < s.length := by
    by_contra hle
    rw [List.drop_eq_nil_of_le (not_lt.1 hle), List.prefix_nil] at hat
    exact hneedle hat
  have hfound : (List.range s.length).find?
      (fun i => decide (pos ≤ i) && needle.isPrefixOf (s.drop i)) = some i := by
    refine List.find?_range_eq_some.2 ⟨by simpa using ⟨hpos, hat⟩, List.mem_range.2 hlt, ?_⟩
    intro j hj
    by_cases hle : pos ≤ j
    · have hnot := hnone j hle hj
      rw [← List.isPrefixOf_iff_prefix, Bool.not_eq_true] at hnot
      simp [hnot]
    · simp [hle]
  rw [find, hfound, Option.getD_some]

theorem find_append {c : UInt8} {mid : List UInt8} (h : c ∉ mid) (pre post : List UInt8) :
    find (pre ++ (mid ++ c :: post)) [c] pre.length = pre.length + mid.length := by
  refine find_eq (List.cons_ne_nil c []) (Nat.le_add_right _ _) ?_ fun j hle hj hoccurs => h ?_
  · rw [← List.append_assoc, ← List.length_append, List.drop_left]
    exact ⟨post, rfl⟩
  · obtain ⟨k, rfl⟩ := Nat.exists_eq_add_of_le hle
    rw [← List.drop_drop, List.drop_left, List.drop_append_of_le_length (by omega)] at hoccurs
    have hk : k < mid.length := by omega
    rw [List.drop_eq_getElem_cons hk, List.cons_append, List.cons_prefix_cons] at hoccurs
    rw [hoccurs.1]
    exact List.getElem_mem hk

/-- **A text is cut where a character is found**: there is the character, and none before it. -/
theorem find_cut {pre rest : List UInt8} {c : UInt8}
    (h : find (pre ++ rest) [c] pre.length ≠ npos) :
    ∃ mid post, rest = mid ++ c :: post ∧ c ∉ mid ∧
      find (pre ++ rest) [c] pre.length = pre.length + mid.length := by
  have hmem : c ∈ rest := by
    cases hfound : (List.range (pre ++ rest).length).find? fun i =>
        decide (pre.length ≤ i) && [c].isPrefixOf ((pre ++ rest).drop i) with
    | none =>
        rw [find, hfound] at h
        exact absurd rfl h
    | some i =>
        have hat := List.find?_some hfound
        rw [Bool.and_eq_true, decide_eq_true_eq, List.isPrefixOf_iff_prefix] at hat
        obtain ⟨hle, hat⟩ := hat
        rw [List.drop_append, List.drop_eq_nil_of_le hle, List.nil_append] at hat
        exact List.mem_of_mem_drop (hat.subset List.mem_cons_self)
  obtain ⟨mid, post, rfl, hmid⟩ := List.eq_append_cons_of_mem hmem
  exact ⟨mid, post, rfl, hmid, find_append hmid pre post⟩

/-- A part of a text is taken out by its position and its length. -/
theorem substr_eq {s pre mid post : List UInt8} (h : s = pre ++ (mid ++ post)) {pos n : ℕ}
    (hpos : pos = pre.length) (hn : n = mid.length) : substr s pos n = mid := by
  subst h hpos hn
  rw [substr, List.drop_left, List.take_left]

theorem substr_behind {s pre post : List UInt8} {c : UInt8} (h : s = pre ++ c :: post)
    (hsize : s.length < npos) : substr s (pre.length + 1) = post := by
  subst h
  rw [List.length_append, List.length_cons] at hsize
  rw [substr, ← List.drop_drop, List.drop_left, List.drop_succ_cons, List.drop_zero,
    List.take_of_length_le (by omega)]

theorem find_protocol {scheme : List UInt8} (h : 47 ∉ scheme) (rest : List UInt8) :
    find (scheme ++ (ascii "://" ++ rest)) (ascii "://") 0 = scheme.length := by
  refine find_eq (by decide) (Nat.zero_le _) ?_ fun j _ hj hoccurs => h ?_
  · rw [List.drop_left]
    exact List.prefix_append _ _
  · -- the byte behind a colon is a slash, which the scheme does not have
    rw [List.drop_append_of_le_length hj.le, List.drop_eq_getElem_cons hj] at hoccurs
    have htwo : [47, 47] <+: scheme.drop (j + 1) ++ (ascii "://" ++ rest) :=
      (List.cons_prefix_cons.1 hoccurs).2
    cases hbehind : scheme.drop (j + 1) with
    | nil =>
        rw [hbehind] at htwo
        exact absurd (List.cons_prefix_cons.1 htwo).1 (by decide)
    | cons slash behind =>
        rw [hbehind] at htwo
        have hslash : slash ∈ scheme.drop (j + 1) := by
          rw [hbehind]
          exact List.mem_cons_self
        rw [(List.cons_prefix_cons.1 htwo).1]
        exact List.mem_of_mem_drop hslash

theorem rfind_snoc (s : List UInt8) (c last : UInt8) :
    rfind (s ++ [last]) c = if last = c then s.length else rfind s c := by
  have hsame : (List.range s.length).reverse.find? (fun i => (s ++ [last])[i]? == some c) =
      (List.range s.length).reverse.find? fun i => s[i]? == some c := by
    refine List.find?_congr fun i hi => ?_
    rw [List.mem_reverse, List.mem_range] at hi
    rw [List.getElem?_append_left hi]
  rw [rfind, List.length_append, List.length_singleton, List.range_succ, List.reverse_append,
    List.reverse_singleton, List.singleton_append, List.find?_cons, hsame]
  by_cases hlast : last = c
  · simp [hlast]
  · have hbeq : (last == c) = false := beq_eq_false_iff_ne.2 hlast
    simp [hlast, hbeq, rfind]

theorem rfind_append {c : UInt8} {post : List UInt8} (h : c ∉ post) (pre : List UInt8) :
    rfind (pre ++ c :: post) c = pre.length := by
  induction post using List.reverseRecOn with
  | nil => rw [rfind_snoc, if_pos rfl]
  | append_singleton post last ih =>
      rw [List.mem_append, List.mem_singleton, not_or] at h
      rw [← List.cons_append, ← List.append_assoc, rfind_snoc, if_neg (Ne.symm h.2)]
      exact ih h.1

/-- `isspace`. -/
def isSpace (c : UInt8) : Bool := c == 32 || (9 ≤ c && c ≤ 13)

/-- `isdigit`. -/
def isDigit (c : UInt8) : Bool := 48 ≤ c && c ≤ 57

/-- `std::stoi`, whose exceptions are failures. -/
def stoi (s : List UInt8) : Except Failure ℤ :=
  let (negative, s) :=
    match s.dropWhile isSpace with
    | 45 :: s => (true, s)
    | 43 :: s => (false, s)
    | s => (false, s)
  let digits := s.takeWhile isDigit
  if digits.isEmpty then .error (.err "invalid_argument")
  else
    let n : ℤ := digits.foldl (fun n c => 10 * n + (c.toNat - 48)) 0
    let n := if negative then -n else n
    if n < -2 ^ 31 ∨ 2 ^ 31 ≤ n then .error (.err "out_of_range") else .ok n

end Text

namespace Rtmp

open Text

/-- `Socket::parse_address`; `resolve` is what `getaddrinfo` answers. -/
def parseAddress (resolve : List UInt8 → Except Failure (List UInt8)) (addrPort : List UInt8) :
    Except Failure (List UInt8 × UInt16) :=
  let colonPos := rfind addrPort 58
  if colonPos = npos then (resolve addrPort).map fun addr => (addr, 1935)
  else
    match stoi (substr addrPort (colonPos + 1)) with
    | .error _ => .error (.err "Invalid port number")
    | .ok port =>
        (resolve (substr addrPort 0 colonPos)).map fun addr => (addr, UInt16.ofInt port)

end Rtmp
