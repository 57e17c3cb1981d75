/-
**The command line.**

`parse_args` goes through the arguments once.  An option takes the argument behind it, whatever that
is; what is given twice counts as it is given last, and outputs add up.  The first argument that asks
for help, is no option, has nothing behind it or gives an output that cannot be read ends the loop.
A number is read by `std::stoull`, whose exceptions nothing catches.

What the arguments mean can be said without the loop: they are a list of settings, and each field of
the configuration is given by the settings of its option.

Main definitions:

* `Text.stoull` — `std::stoull`;
* `CommandLine.Config`, `CommandLine.parseArgs` — the configuration, and `parse_args`;
* `CommandLine.Describes` — what a list of settings says, field by field;
* `CommandLine.Stops` — how a list of arguments goes wrong.

Main results:

* `Text.stoull_ok_iff` — `stoull` returns the number that a text begins with, modulo `2 ^ 64`;
* `CommandLine.parseArgs_append` — settings are read one by one;
* `CommandLine.describes_iff_applied` — what is read is what the settings say;
* `CommandLine.parseArgs_iff` — **what `parse_args` returns, for all arguments**.
-/

import RtmpTranscoder.OutputSpec

set_option relaxedAutoImplicit false
set_option autoImplicit false

namespace Text

open Rtmp (Failure)

/-- `std::stoull`, whose exceptions are failures.  A minus negates what has been read, as an
`unsigned long long`. -/
def stoull (s : List UInt8) : Except Failure ℕ :=
  let (negative, s) :=
    match s.dropWhile isSpace with
    | 45 :: s => (true, s)
    | 43 :: s => (false, s)
    | s => (false, s)
  let digits := s.takeWhile isDigit
  if digits.isEmpty then .error (.err "invalid_argument")
  else
    let n : ℤ := digits.foldl (fun n c => 10 * n + (c.toNat - 48)) 0
    if 2 ^ 64 ≤ n then .error (.err "out_of_range")
    else .ok ((if negative then -n else n) % 2 ^ 64).toNat

/-- The number that a text begins with is read as `n`: its digits fit into 64 bits, and a minus wraps
around. -/
def BeginsUnsigned (s : List UInt8) (n : ℕ) : Prop :=
  ∃ blanks sign digits rest z, s = blanks ++ (sign ++ (digits ++ rest)) ∧
    (∀ c ∈ blanks, isSpace c = true) ∧ IsNumeral digits ∧ (∀ c ∈ rest.head?, isDigit c = false) ∧
      Signed sign (numeral digits) z ∧ numeral digits < 2 ^ 64 ∧ n = (z % 2 ^ 64).toNat

/-- The parts of `stoull`. -/
theorem stoull_eq (s : List UInt8) :
    stoull s =
      let (negative, behind) := readSign (s.dropWhile isSpace)
      let digits := behind.takeWhile isDigit
      if digits.isEmpty then .error (.err "invalid_argument")
      else if 2 ^ 64 ≤ numeral digits then .error (.err "out_of_range")
      else .ok (applySign negative (numeral digits) % 2 ^ 64).toNat := by
  have hread : stoull s =
      let (negative, behind) := readSign (s.dropWhile isSpace)
      let digits := behind.takeWhile isDigit
      if digits.isEmpty then .error (.err "invalid_argument")
      else
        let n : ℤ := digits.foldl (fun n c => 10 * n + (c.toNat - 48)) 0
        if 2 ^ 64 ≤ n then .error (.err "out_of_range")
        else .ok ((if negative then -n else n) % 2 ^ 64).toNat := rfl
  rw [hread]
  have hle (n : ℕ) : (2 ^ 64 : ℤ) ≤ n ↔ 2 ^ 64 ≤ n := by
    constructor <;> intro h <;> omega
  simp only [foldl_digits fun c hc => List.mem_takeWhile_imp hc, applySign, hle]

/-- **`stoull` returns the number that a text begins with**, modulo `2 ^ 64`, and fails where there is
none, or one that does not fit. -/
theorem stoull_ok_iff {s : List UInt8} {n : ℕ} : stoull s = .ok n ↔ BeginsUnsigned s n := by
  constructor
  · intro h
    obtain ⟨sign, hsign, hsigned⟩ := readSign_spec (s.dropWhile isSpace)
    have htext : s = s.takeWhile isSpace ++ (sign ++
        ((readSign (s.dropWhile isSpace)).2.takeWhile isDigit ++
          (readSign (s.dropWhile isSpace)).2.dropWhile isDigit)) := by
      rw [List.takeWhile_append_dropWhile, ← hsign, List.takeWhile_append_dropWhile]
    rw [stoull_eq] at h
    by_cases hnone : ((readSign (s.dropWhile isSpace)).2.takeWhile isDigit).isEmpty = true
    · simp [hnone] at h
    · simp only [hnone, Bool.false_eq_true, ↓reduceIte] at h
      split at h
      · cases h
      · rename_i hfits
        obtain rfl := Except.ok.inj h
        exact ⟨_, sign, _, _, _, htext, fun c hc => List.mem_takeWhile_imp hc,
          ⟨fun hnil => hnone (by rw [hnil]; rfl), fun c hc => List.mem_takeWhile_imp hc⟩,
          head_dropWhile isDigit _, hsigned _, not_le.1 hfits, rfl⟩
  · rintro ⟨blanks, sign, digits, rest, z, rfl, hblanks, ⟨hnonempty, hdigits⟩, hrest, hsigned, hfits,
      rfl⟩
    obtain ⟨c, more, rfl⟩ := List.exists_cons_of_ne_nil hnonempty
    have hc : isDigit c = true := hdigits c List.mem_cons_self
    obtain ⟨hbehind, hvalue⟩ := readSign_append hsigned hc (more ++ rest)
    have hdrop : (blanks ++ (sign ++ c :: (more ++ rest))).dropWhile isSpace =
        sign ++ c :: (more ++ rest) := by
      rw [List.dropWhile_append_of_pos hblanks, hsigned.dropWhile_isSpace hc]
    have hread : (c :: (more ++ rest)).takeWhile isDigit = c :: more :=
      takeWhile_digits hdigits hrest
    rw [stoull_eq, List.cons_append, hdrop]
    simp only [hbehind, hread, List.isEmpty_cons, Bool.false_eq_true, ↓reduceIte, hvalue]
    rw [if_neg (not_le.2 hfits)]

end Text

namespace CommandLine

open Rtmp (Failure)
open Text

/-- `Config`. -/
structure Config where
  listenAddr : List UInt8 := ascii "0.0.0.0:1935"
  pushUrl : List UInt8 := []
  pushTemplate : List UInt8 := ascii "\x7bapp\x7d/\x7bstream\x7d"
  maxPendingBytes : ℕ := 2 * 1024 * 1024
  pusherDownDisconnectMs : ℕ := 2000
  logLevel : List UInt8 := ascii "info"
  mode : List UInt8 := ascii "relay"
  outputs : List OutputSpec := []
  deriving DecidableEq, Repr

/-- What `parse_args` has come to: a configuration, or one of the three places where it returns
nothing. -/
inductive Parsed where
  | config (c : Config)
  | help
  | invalidOutput (spec : List UInt8)
  | unknown (arg : List UInt8)
  deriving DecidableEq, Repr

def Parsed.result : Parsed → Option Config
  | .config c => some c
  | _ => none

/-- The loop of `parse_args`, behind the name of the program. -/
def parseArgs (config : Config) : List (List UInt8) → Except Failure Parsed
  | [] => .ok (.config config)
  | [arg] => if arg = ascii "--help" ∨ arg = ascii "-h" then .ok .help else .ok (.unknown arg)
  | arg :: value :: rest =>
      if arg = ascii "--help" ∨ arg = ascii "-h" then .ok .help
      else if arg = ascii "--listen" then parseArgs { config with listenAddr := value } rest
      else if arg = ascii "--push-url" then parseArgs { config with pushUrl := value } rest
      else if arg = ascii "--push-template" then parseArgs { config with pushTemplate := value } rest
      else if arg = ascii "--max-pending-bytes" then
        match stoull value with
        | .error f => .error f
        | .ok n => parseArgs { config with maxPendingBytes := n } rest
      else if arg = ascii "--pusher-down-disconnect-ms" then
        match stoull value with
        | .error f => .error f
        | .ok n => parseArgs { config with pusherDownDisconnectMs := n } rest
      else if arg = ascii "--log-level" then parseArgs { config with logLevel := value } rest
      else if arg = ascii "--mode" then parseArgs { config with mode := value } rest
      else if arg = ascii "--output" then
        match parseOutputSpec value with
        | none => .ok (.invalidOutput value)
        | some spec => parseArgs { config with outputs := config.outputs ++ [spec] } rest
      else .ok (.unknown arg)

/-! ### Settings -/

/-- The options that take a value. -/
inductive Key where
  | listen
  | pushUrl
  | pushTemplate
  | maxPendingBytes
  | pusherDownDisconnectMs
  | logLevel
  | mode
  | output
  deriving DecidableEq, Repr

def Key.word : Key → List UInt8
  | .listen => ascii "--listen"
  | .pushUrl => ascii "--push-url"
  | .pushTemplate => ascii "--push-template"
  | .maxPendingBytes => ascii "--max-pending-bytes"
  | .pusherDownDisconnectMs => ascii "--pusher-down-disconnect-ms"
  | .logLevel => ascii "--log-level"
  | .mode => ascii "--mode"
  | .output => ascii "--output"

abbrev Setting := Key × List UInt8

/-- How settings are written. -/
def words (settings : List Setting) : List (List UInt8) := settings.flatMap fun s => [s.1.word, s.2]

/-- The values of an option, in order. -/
def values (key : Key) (settings : List Setting) : List (List UInt8) :=
  (settings.filter fun s => s.1 = key).map Prod.snd

/-- What the values of an option say about its field: what is given last counts, numbers are read, and
outputs add up. -/
def Says (c : Config) (texts : List (List UInt8)) : Key → Prop
  | .listen => c.listenAddr = texts.getLastD (ascii "0.0.0.0:1935")
  | .pushUrl => c.pushUrl = texts.getLastD []
  | .pushTemplate => c.pushTemplate = texts.getLastD (ascii "\x7bapp\x7d/\x7bstream\x7d")
  | .maxPendingBytes =>
      ∃ ns, List.Forall₂ BeginsUnsigned texts ns ∧ c.maxPendingBytes = ns.getLastD (2 * 1024 * 1024)
  | .pusherDownDisconnectMs =>
      ∃ ns, List.Forall₂ BeginsUnsigned texts ns ∧ c.pusherDownDisconnectMs = ns.getLastD 2000
  | .logLevel => c.logLevel = texts.getLastD (ascii "info")
  | .mode => c.mode = texts.getLastD (ascii "relay")
  | .output => List.Forall₂ (fun text spec => parseOutputSpec text = some spec) texts c.outputs

/-- **What settings say**, field by field. -/
def Describes (settings : List Setting) (c : Config) : Prop :=
  ∀ key, Says c (values key settings) key

/-- A setting that can be read changes a configuration. -/
inductive Applies (c : Config) : Setting → Config → Prop
  | listen (value : List UInt8) : Applies c (.listen, value) { c with listenAddr := value }
  | pushUrl (value : List UInt8) : Applies c (.pushUrl, value) { c with pushUrl := value }
  | pushTemplate (value : List UInt8) : Applies c (.pushTemplate, value) { c with pushTemplate := value }
  | maxPendingBytes {value : List UInt8} {n : ℕ} : stoull value = .ok n →
      Applies c (.maxPendingBytes, value) { c with maxPendingBytes := n }
  | pusherDownDisconnectMs {value : List UInt8} {n : ℕ} : stoull value = .ok n →
      Applies c (.pusherDownDisconnectMs, value) { c with pusherDownDisconnectMs := n }
  | logLevel (value : List UInt8) : Applies c (.logLevel, value) { c with logLevel := value }
  | mode (value : List UInt8) : Applies c (.mode, value) { c with mode := value }
  | output {value : List UInt8} {spec : OutputSpec} : parseOutputSpec value = some spec →
      Applies c (.output, value) { c with outputs := c.outputs ++ [spec] }

/-- Settings are applied one after the other. -/
inductive Applied (c₀ : Config) : List Setting → Config → Prop
  | nil : Applied c₀ [] c₀
  | snoc {settings : List Setting} {s : Setting} {c c' : Config} :
      Applied c₀ settings c → Applies c s c' → Applied c₀ (settings ++ [s]) c'

/-- Arguments that cannot be read as a setting, and what comes of it. -/
inductive Stops : List (List UInt8) → Except Failure Parsed → Prop
  | help {arg : List UInt8} (rest : List (List UInt8)) : arg = ascii "--help" ∨ arg = ascii "-h" →
      Stops (arg :: rest) (.ok .help)
  | unknown {arg : List UInt8} {rest : List (List UInt8)} : arg ≠ ascii "--help" → arg ≠ ascii "-h" →
      (rest = [] ∨ ∀ key : Key, arg ≠ key.word) → Stops (arg :: rest) (.ok (.unknown arg))
  | invalidOutput {spec : List UInt8} (rest : List (List UInt8)) : parseOutputSpec spec = none →
      Stops (Key.output.word :: spec :: rest) (.ok (.invalidOutput spec))
  | number {key : Key} {value : List UInt8} {f : Failure} (rest : List (List UInt8)) :
      key = .maxPendingBytes ∨ key = .pusherDownDisconnectMs → stoull value = .error f →
      Stops (key.word :: value :: rest) (.error f)

variable {settings : List Setting} {s : Setting} {c c' c₀ : Config} {rest : List (List UInt8)}
  {result : Except Failure Parsed}

/-! ### The loop -/

theorem Applies.parse (h : Applies c s c') (rest : List (List UInt8)) :
    parseArgs c (s.1.word :: s.2 :: rest) = parseArgs c' rest := by
  cases h with
  | listen value =>
      change parseArgs c (ascii "--listen" :: value :: rest) = _
      rw [parseArgs, if_neg (by decide), if_pos rfl]
  | pushUrl value =>
      change parseArgs c (ascii "--push-url" :: value :: rest) = _
      rw [parseArgs, if_neg (by decide), if_neg (by decide), if_pos rfl]
  | pushTemplate value =>
      change parseArgs c (ascii "--push-template" :: value :: rest) = _
      rw [parseArgs, if_neg (by decide), if_neg (by decide), if_neg (by decide), if_pos rfl]
  | @maxPendingBytes value n hread =>
      change parseArgs c (ascii "--max-pending-bytes" :: value :: rest) = _
      rw [parseArgs, if_neg (by decide), if_neg (by decide), if_neg (by decide), if_neg (by decide),
        if_pos rfl, hread]
  | @pusherDownDisconnectMs value n hread =>
      change parseArgs c (ascii "--pusher-down-disconnect-ms" :: value :: rest) = _
      rw [parseArgs, if_neg (by decide), if_neg (by decide), if_neg (by decide), if_neg (by decide),
        if_neg (by decide), if_pos rfl, hread]
  | logLevel value =>
      change parseArgs c (ascii "--log-level" :: value :: rest) = _
      rw [parseArgs, if_neg (by decide), if_neg (by decide), if_neg (by decide), if_neg (by decide),
        if_neg (by decide), if_neg (by decide), if_pos rfl]
  | mode value =>
      change parseArgs c (ascii "--mode" :: value :: rest) = _
      rw [parseArgs, if_neg (by decide), if_neg (by decide), if_neg (by decide), if_neg (by decide),
        if_neg (by decide), if_neg (by decide), if_neg (by decide), if_pos rfl]
  | @output value spec hread =>
      change parseArgs c (ascii "--output" :: value :: rest) = _
      rw [parseArgs, if_neg (by decide), if_neg (by decide), if_neg (by decide), if_neg (by decide),
        if_neg (by decide), if_neg (by decide), if_neg (by decide), if_neg (by decide), if_pos rfl,
        hread]

/-- **Settings are read one by one.** -/
theorem parseArgs_append (h : Applied c₀ settings c) (rest : List (List UInt8)) :
    parseArgs c₀ (words settings ++ rest) = parseArgs c rest := by
  induction h generalizing rest with
  | nil => rfl
  | @snoc settings s c c' _ happlies ih =>
      rw [words, List.flatMap_append, List.append_assoc, ← words, ih]
      exact happlies.parse rest

theorem Stops.parse (h : Stops rest result) (c : Config) : parseArgs c rest = result := by
  cases h with
  | @help arg rest hhelp =>
      cases rest with
      | nil => rw [parseArgs, if_pos hhelp]
      | cons value rest => rw [parseArgs, if_pos hhelp]
  | @unknown arg rest hhelp hh hunknown =>
      have hno : ¬ (arg = ascii "--help" ∨ arg = ascii "-h") := not_or.2 ⟨hhelp, hh⟩
      cases rest with
      | nil => rw [parseArgs, if_neg hno]
      | cons value rest =>
          have hkey := hunknown.resolve_left (List.cons_ne_nil value rest)
          rw [parseArgs, if_neg hno, if_neg (by exact hkey .listen), if_neg (by exact hkey .pushUrl),
            if_neg (by exact hkey .pushTemplate), if_neg (by exact hkey .maxPendingBytes),
            if_neg (by exact hkey .pusherDownDisconnectMs), if_neg (by exact hkey .logLevel),
            if_neg (by exact hkey .mode), if_neg (by exact hkey .output)]
  | @invalidOutput spec rest hread =>
      change parseArgs c (ascii "--output" :: spec :: rest) = _
      rw [parseArgs, if_neg (by decide), if_neg (by decide), if_neg (by decide), if_neg (by decide),
        if_neg (by decide), if_neg (by decide), if_neg (by decide), if_neg (by decide), if_pos rfl,
        hread]
  | @number key value f rest hkey hread =>
      rcases hkey with rfl | rfl
      · change parseArgs c (ascii "--max-pending-bytes" :: value :: rest) = _
        rw [parseArgs, if_neg (by decide), if_neg (by decide), if_neg (by decide), if_neg (by decide),
          if_pos rfl, hread]
      · change parseArgs c (ascii "--pusher-down-disconnect-ms" :: value :: rest) = _
        rw [parseArgs, if_neg (by decide), if_neg (by decide), if_neg (by decide), if_neg (by decide),
          if_neg (by decide), if_pos rfl, hread]

/-- A value behind an option can be read, or the loop ends there. -/
theorem applies_or_stops (c : Config) (key : Key) (value : List UInt8) (rest : List (List UInt8)) :
    (∃ c', Applies c (key, value) c') ∨ ∃ result, Stops (key.word :: value :: rest) result := by
  cases key with
  | maxPendingBytes =>
      cases hread : stoull value with
      | error f => exact .inr ⟨_, .number rest (.inl rfl) hread⟩
      | ok n => exact .inl ⟨_, .maxPendingBytes hread⟩
  | pusherDownDisconnectMs =>
      cases hread : stoull value with
      | error f => exact .inr ⟨_, .number rest (.inr rfl) hread⟩
      | ok n => exact .inl ⟨_, .pusherDownDisconnectMs hread⟩
  | output =>
      cases hread : parseOutputSpec value with
      | none => exact .inr ⟨_, .invalidOutput rest hread⟩
      | some spec => exact .inl ⟨_, .output hread⟩
  | listen => exact .inl ⟨_, .listen value⟩
  | pushUrl => exact .inl ⟨_, .pushUrl value⟩
  | pushTemplate => exact .inl ⟨_, .pushTemplate value⟩
  | logLevel => exact .inl ⟨_, .logLevel value⟩
  | mode => exact .inl ⟨_, .mode value⟩

/-- Arguments begin with a setting that can be read, or the loop ends there. -/
theorem setting_or_stops (c : Config) (args : List (List UInt8)) :
    args = [] ∨ (∃ s c' rest, args = s.1.word :: s.2 :: rest ∧ Applies c s c') ∨
      ∃ result, Stops args result := by
  cases args with
  | nil => exact .inl rfl
  | cons arg rest =>
      refine .inr ?_
      by_cases hhelp : arg = ascii "--help" ∨ arg = ascii "-h"
      · exact .inr ⟨_, .help rest hhelp⟩
      · rw [not_or] at hhelp
        cases rest with
        | nil => exact .inr ⟨_, .unknown hhelp.1 hhelp.2 (.inl rfl)⟩
        | cons value rest =>
            by_cases hkey : ∃ key : Key, arg = key.word
            · obtain ⟨key, rfl⟩ := hkey
              rcases applies_or_stops c key value rest with ⟨c', happlies⟩ | hstops
              · exact .inl ⟨(key, value), c', rest, rfl, happlies⟩
              · exact .inr hstops
            · rw [not_exists] at hkey
              exact .inr ⟨_, .unknown hhelp.1 hhelp.2 (.inr hkey)⟩

theorem exists_settings (args : List (List UInt8)) (h : Applied c₀ settings c) :
    ∃ more rest c', args = words more ++ rest ∧ Applied c₀ (settings ++ more) c' ∧
      (rest = [] ∨ ∃ result, Stops rest result) := by
  induction hn : args.length using Nat.strongRecOn generalizing args settings c with
  | ind n ih =>
      subst hn
      rcases setting_or_stops c args with rfl | ⟨s, c', rest, rfl, happlies⟩ | hstops
      · exact ⟨[], [], c, rfl, (List.append_nil settings).symm ▸ h, .inl rfl⟩
      · have hlt : rest.length < (s.1.word :: s.2 :: rest).length := by
          simp only [List.length_cons]
          omega
        obtain ⟨more, rest', c'', rfl, happlied, hrest⟩ := ih rest.length hlt rest (h.snoc happlies) rfl
        refine ⟨s :: more, rest', c'', rfl, ?_, hrest⟩
        rwa [List.append_assoc, List.singleton_append] at happlied
      · exact ⟨[], args, c, rfl, (List.append_nil settings).symm ▸ h, .inr hstops⟩

/-! ### What settings say -/

theorem values_snoc (key : Key) (settings : List Setting) (s : Setting) :
    values key (settings ++ [s]) = values key settings ++ if s.1 = key then [s.2] else [] := by
  rw [values, List.filter_append, List.map_append, ← values]
  by_cases hkey : s.1 = key
  · simp [hkey]
  · simp [hkey]

theorem values_other {key : Key} (settings : List Setting) {s : Setting} (h : s.1 ≠ key) :
    values key (settings ++ [s]) = values key settings := by
  rw [values_snoc, if_neg h, List.append_nil]

theorem values_own (settings : List Setting) (s : Setting) :
    values s.1 (settings ++ [s]) = values s.1 settings ++ [s.2] := by
  rw [values_snoc, if_pos rfl]

theorem forall₂_snoc {α β : Type} {R : α → β → Prop} {as : List α} {bs : List β} {a : α} {b : β}
    (h : List.Forall₂ R as bs) (hab : R a b) : List.Forall₂ R (as ++ [a]) (bs ++ [b]) :=
  List.rel_append h (.cons hab .nil)

theorem forall₂_snoc_inv {α β : Type} {R : α → β → Prop} {as : List α} {bs : List β} {a : α}
    (h : List.Forall₂ R (as ++ [a]) bs) : ∃ bs' b, bs = bs' ++ [b] ∧ List.Forall₂ R as bs' ∧ R a b := by
  have hinit := List.forall₂_take as.length h
  have hlast := List.forall₂_drop as.length h
  rw [List.take_left] at hinit
  rw [List.drop_left] at hlast
  obtain ⟨b, bs₁, hab, hnil, hdrop⟩ := List.forall₂_cons_left_iff.1 hlast
  rw [List.forall₂_nil_left_iff.1 hnil] at hdrop
  refine ⟨bs.take as.length, b, ?_, hinit, hab⟩
  rw [← hdrop, List.take_append_drop]

theorem getLastD_snoc {α : Type} (as : List α) (a d : α) : (as ++ [a]).getLastD d = a := by
  simp

/-- A setting is about the field of its option, and no other. -/
theorem Applies.other (h : Applies c s c') {key : Key} (hne : s.1 ≠ key) (texts : List (List UInt8)) :
    Says c' texts key ↔ Says c texts key := by
  cases h <;> cases key <;> first | exact absurd rfl hne | exact Iff.rfl

theorem Applies.own (h : Applies c s c') {texts : List (List UInt8)} (hfield : Says c texts s.1) :
    Says c' (texts ++ [s.2]) s.1 := by
  cases h with
  | listen value => exact (getLastD_snoc texts value _).symm
  | pushUrl value => exact (getLastD_snoc texts value _).symm
  | pushTemplate value => exact (getLastD_snoc texts value _).symm
  | logLevel value => exact (getLastD_snoc texts value _).symm
  | mode value => exact (getLastD_snoc texts value _).symm
  | @maxPendingBytes value n hread =>
      obtain ⟨ns, hns, -⟩ := hfield
      exact ⟨ns ++ [n], forall₂_snoc hns (stoull_ok_iff.1 hread), (getLastD_snoc ns n _).symm⟩
  | @pusherDownDisconnectMs value n hread =>
      obtain ⟨ns, hns, -⟩ := hfield
      exact ⟨ns ++ [n], forall₂_snoc hns (stoull_ok_iff.1 hread), (getLastD_snoc ns n _).symm⟩
  | output hread => exact forall₂_snoc hfield hread

/-- What the values of an option say has been said by the others before the last one was read. -/
theorem Says.unapply {key : Key} {texts : List (List UInt8)} {value : List UInt8}
    (h : Says c (texts ++ [value]) key) : ∃ c', Applies c' (key, value) c ∧ Says c' texts key := by
  cases key with
  | listen =>
      obtain rfl : c.listenAddr = value := h.trans (getLastD_snoc ..)
      exact ⟨{ c with listenAddr := texts.getLastD (ascii "0.0.0.0:1935") }, .listen _, rfl⟩
  | pushUrl =>
      obtain rfl : c.pushUrl = value := h.trans (getLastD_snoc ..)
      exact ⟨{ c with pushUrl := texts.getLastD [] }, .pushUrl _, rfl⟩
  | pushTemplate =>
      obtain rfl : c.pushTemplate = value := h.trans (getLastD_snoc ..)
      exact ⟨{ c with pushTemplate := texts.getLastD (ascii "\x7bapp\x7d/\x7bstream\x7d") }, .pushTemplate _, rfl⟩
  | logLevel =>
      obtain rfl : c.logLevel = value := h.trans (getLastD_snoc ..)
      exact ⟨{ c with logLevel := texts.getLastD (ascii "info") }, .logLevel _, rfl⟩
  | mode =>
      obtain rfl : c.mode = value := h.trans (getLastD_snoc ..)
      exact ⟨{ c with mode := texts.getLastD (ascii "relay") }, .mode _, rfl⟩
  | maxPendingBytes =>
      obtain ⟨ns, hns, hlast⟩ := h
      obtain ⟨ns, n, rfl, hbefore, hread⟩ := forall₂_snoc_inv hns
      obtain rfl : c.maxPendingBytes = n := hlast.trans (getLastD_snoc ..)
      exact ⟨{ c with maxPendingBytes := ns.getLastD (2 * 1024 * 1024) },
        .maxPendingBytes (stoull_ok_iff.2 hread), ns, hbefore, rfl⟩
  | pusherDownDisconnectMs =>
      obtain ⟨ns, hns, hlast⟩ := h
      obtain ⟨ns, n, rfl, hbefore, hread⟩ := forall₂_snoc_inv hns
      obtain rfl : c.pusherDownDisconnectMs = n := hlast.trans (getLastD_snoc ..)
      exact ⟨{ c with pusherDownDisconnectMs := ns.getLastD 2000 },
        .pusherDownDisconnectMs (stoull_ok_iff.2 hread), ns, hbefore, rfl⟩
  | output =>
      obtain ⟨specs, spec, hspecs, hbefore, hread⟩ := forall₂_snoc_inv h
      have happlies := @Applies.output { c with outputs := specs } value spec hread
      refine ⟨{ c with outputs := specs }, ?_, hbefore⟩
      rwa [show specs ++ [spec] = c.outputs from hspecs.symm] at happlies

/-- **What is read is what the settings say.** -/
theorem describes_iff_applied : Describes settings c ↔ Applied {} settings c := by
  constructor
  · intro h
    induction settings using List.reverseRecOn generalizing c with
    | nil =>
        have hnumbers {ns : List ℕ} (hns : List.Forall₂ BeginsUnsigned [] ns) : ns = [] :=
          List.forall₂_nil_left_iff.1 hns
        obtain ⟨listenAddr, pushUrl, pushTemplate, maxBytes, downMs, logLevel, mode, outputs⟩ := c
        obtain rfl : listenAddr = _ := h .listen
        obtain rfl : pushUrl = _ := h .pushUrl
        obtain rfl : pushTemplate = _ := h .pushTemplate
        obtain rfl : logLevel = _ := h .logLevel
        obtain rfl : mode = _ := h .mode
        obtain ⟨ns, hns, hmax⟩ := h .maxPendingBytes
        obtain rfl : maxBytes = _ := hmax
        obtain ⟨ms, hms, hdown⟩ := h .pusherDownDisconnectMs
        obtain rfl : downMs = _ := hdown
        obtain rfl : outputs = [] := List.forall₂_nil_left_iff.1 (h .output)
        rw [hnumbers hns, hnumbers hms]
        exact .nil
    | append_singleton settings s ih =>
        have hown := h s.1
        rw [values_own] at hown
        obtain ⟨c', happlies, hfield⟩ := hown.unapply
        refine .snoc (ih fun key => ?_) happlies
        by_cases hkey : s.1 = key
        · rwa [← hkey]
        · have hother := h key
          rw [values_other settings hkey] at hother
          exact (happlies.other hkey _).1 hother
  · intro h
    induction h with
    | nil =>
        intro key
        cases key with
        | maxPendingBytes => exact ⟨[], .nil, rfl⟩
        | pusherDownDisconnectMs => exact ⟨[], .nil, rfl⟩
        | output => exact .nil
        | listen => rfl
        | pushUrl => rfl
        | pushTemplate => rfl
        | logLevel => rfl
        | mode => rfl
    | @snoc settings s c c' _ happlies ih =>
        intro key
        by_cases hkey : s.1 = key
        · subst hkey
          rw [values_own]
          exact happlies.own (ih s.1)
        · rw [values_other settings hkey]
          exact (happlies.other hkey _).2 (ih key)

/-- **What `parse_args` returns, for all arguments**: they are settings, and the configuration is what
the settings say; or there are settings first, and then something that ends the loop. -/
theorem parseArgs_iff {args : List (List UInt8)} {result : Except Failure Parsed} :
    parseArgs {} args = result ↔
      ∃ settings c, Describes settings c ∧
        ((args = words settings ∧ result = .ok (.config c)) ∨
          ∃ rest, args = words settings ++ rest ∧ Stops rest result) := by
  constructor
  · rintro rfl
    obtain ⟨settings, rest, c, rfl, happlied, hrest⟩ := exists_settings args (@Applied.nil {})
    rw [List.nil_append] at happlied
    refine ⟨settings, c, describes_iff_applied.2 happlied, ?_⟩
    rw [parseArgs_append happlied]
    rcases hrest with rfl | ⟨result, hstops⟩
    · exact .inl ⟨List.append_nil _, rfl⟩
    · exact .inr ⟨rest, rfl, (hstops.parse c).symm ▸ hstops⟩
  · rintro ⟨settings, c, hdescribes, ⟨rfl, rfl⟩ | ⟨rest, rfl, hstops⟩⟩
    · rw [← List.append_nil (words settings), parseArgs_append (describes_iff_applied.1 hdescribes)]
      rfl
    · rw [parseArgs_append (describes_iff_applied.1 hdescribes)]
      exact hstops.parse c

/-- A limit of `-1` is no limit. -/
example : parseArgs {} [ascii "--mode", ascii "sink", ascii "--max-pending-bytes", ascii "-1"] =
    .ok (.config { mode := ascii "sink", maxPendingBytes := 2 ^ 64 - 1 }) := by
  decide +kernel

end CommandLine
