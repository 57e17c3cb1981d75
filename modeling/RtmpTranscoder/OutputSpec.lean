/-
**Output specifications.**

An output of the transcoder is given on the command line as `name:WxH@kbps,url`.
`parse_output_spec` cuts the text at the first colon, at the first `x` behind it, and so on, and
lets `std::stoi` read what is between.  A cut does not go wrong, since no number has a delimiter in
it; but `stoi` takes blanks, signs and what follows a number, and numbers that are not positive.

Main definitions:

* `OutputSpec`, `parseOutputSpec` — the specification, and `parse_output_spec`;
* `Described`, `Exact` — the grammar, and acceptance by it;
* `Cut` — a text that has all the delimiters, and its parts.

Main results:

* `Cut.unique` — the parts are determined;
* `parseOutputSpec_eq_some_iff` — what is accepted, exactly;
* `parseOutputSpec_iff_described` — when a text is accepted by the grammar.
-/

import RtmpTranscoder.Numerals

set_option relaxedAutoImplicit false
set_option autoImplicit false

open Text
open Rtmp (Failure)

/-- `OutputSpec`. -/
structure OutputSpec where
  name : List UInt8
  width : ℤ
  height : ℤ
  videoBitrateKbps : ℤ
  audioBitrateKbps : ℤ
  url : List UInt8
  deriving DecidableEq, Repr

/-- `parse_output_spec`; `none` if it returns `false`. -/
def parseOutputSpec (spec : List UInt8) : Option OutputSpec :=
  let colonPos := find spec [58] 0
  if colonPos = npos then none
  else
    let xPos := find spec [120] colonPos
    if xPos = npos then none
    else
      let atPos := find spec [64] xPos
      if atPos = npos then none
      else
        let commaPos := find spec [44] atPos
        if commaPos = npos then none
        else
          Except.toOption do
            let width ← stoi (substr spec (colonPos + 1) (sizeSub (sizeSub xPos colonPos) 1))
            let height ← stoi (substr spec (xPos + 1) (sizeSub (sizeSub atPos xPos) 1))
            let kbps ← stoi (substr spec (atPos + 1) (sizeSub (sizeSub commaPos atPos) 1))
            return {
              name := substr spec 0 colonPos
              width := width
              height := height
              videoBitrateKbps := kbps
              audioBitrateKbps := if kbps ≥ 2000 then 128 else 64
              url := substr spec (commaPos + 1) }

namespace OutputSpec

/-! ### The grammar -/

/-- A plain numeral of a positive `int`. -/
def Positive (text : List UInt8) (n : ℤ) : Prop :=
  IsNumeral text ∧ n = numeral text ∧ 0 < n ∧ n < 2 ^ 31

/-- A text whose delimiters come in their order, and the parts between them. -/
structure Cut (spec name width height kbps url : List UInt8) : Prop where
  text : spec = name ++ 58 :: (width ++ 120 :: (height ++ 64 :: (kbps ++ 44 :: url)))
  name : 58 ∉ name
  width : 120 ∉ width
  height : 64 ∉ height
  kbps : 44 ∉ kbps

/-- What the format describes: `name:WxH@kbps,url`. -/
structure Described (spec name : List UInt8) (width height kbps : ℤ) (url : List UInt8) : Prop where
  parts : ∃ w h k, spec = name ++ 58 :: (w ++ 120 :: (h ++ 64 :: (k ++ 44 :: url))) ∧
    Positive w width ∧ Positive h height ∧ Positive k kbps
  name : 58 ∉ name

theorem first_unique {c : UInt8} {pre pre' post post' : List UInt8} (h : c ∉ pre) (h' : c ∉ pre')
    (htext : pre ++ c :: post = pre' ++ c :: post') : pre = pre' ∧ post = post' := by
  have hfind := find_append h [] post
  have hfind' := find_append h' [] post'
  rw [List.nil_append, htext, ← List.nil_append (pre' ++ _), hfind'] at hfind
  have hlen : pre.length = pre'.length := by simpa using hfind.symm
  obtain ⟨hpre, hpost⟩ := List.append_inj htext hlen
  exact ⟨hpre, (List.cons.inj hpost).2⟩

/-- The texts that are accepted are those that the format describes, with the parts that it gives
them. -/
def Exact (spec : List UInt8) : Prop :=
  ∀ name width height kbps url,
    (∃ audio, parseOutputSpec spec = some ⟨name, width, height, kbps, audio, url⟩) ↔
      Described spec name width height kbps url

/-- **The parts of a text are determined.** -/
theorem Cut.unique {spec name width height kbps url name' width' height' kbps' url' : List UInt8}
    (h : Cut spec name width height kbps url) (h' : Cut spec name' width' height' kbps' url') :
    name = name' ∧ width = width' ∧ height = height' ∧ kbps = kbps' ∧ url = url' := by
  have htext := h.text.symm.trans h'.text
  obtain ⟨hname, htext⟩ := first_unique h.name h'.name htext
  obtain ⟨hwidth, htext⟩ := first_unique h.width h'.width htext
  obtain ⟨hheight, htext⟩ := first_unique h.height h'.height htext
  obtain ⟨hkbps, hurl⟩ := first_unique h.kbps h'.kbps htext
  exact ⟨hname, hwidth, hheight, hkbps, hurl⟩

theorem Described.cut {spec name : List UInt8} {width height kbps : ℤ} {url : List UInt8}
    (h : Described spec name width height kbps url) :
    ∃ w h k, Cut spec name w h k url ∧ Positive w width ∧ Positive h height ∧ Positive k kbps := by
  obtain ⟨w, h', k, htext, hw, hh, hk⟩ := h.parts
  exact ⟨w, h', k, ⟨htext, h.name, hw.1.notMem rfl, hh.1.notMem rfl, hk.1.notMem rfl⟩, hw, hh, hk⟩

theorem Positive.begins {text : List UInt8} {n : ℤ} (h : Positive text n) : Begins text n :=
  (begins_numeral_iff h.1).2 ⟨h.2.1, h.2.2.2⟩

/-! ### What is accepted -/

section Parts

variable {spec pre mid post : List UInt8} {c d : UInt8}

/-- The delimiter behind a part is found from the one in front of it. -/
theorem find_delimiter (h : spec = pre ++ c :: (mid ++ d :: post)) (hne : d ≠ c) (hmid : d ∉ mid) :
    find spec [d] pre.length = (pre ++ c :: mid).length := by
  have hnot : d ∉ c :: mid := by
    rw [List.mem_cons, not_or]
    exact ⟨hne, hmid⟩
  rw [h, List.length_append, ← find_append hnot pre post, List.cons_append]

/-- Where a delimiter is found behind another one, there is a part between them. -/
theorem exists_part {rest : List UInt8} (h : spec = pre ++ c :: rest) (hne : d ≠ c)
    (hfound : find spec [d] pre.length ≠ npos) : ∃ mid post, rest = mid ++ d :: post ∧ d ∉ mid := by
  rw [h] at hfound
  obtain ⟨mid, post, hrest, hmid, -⟩ := find_cut hfound
  cases mid with
  | nil => exact absurd (List.cons.inj hrest).1.symm hne
  | cons first mid =>
      rw [List.mem_cons, not_or] at hmid
      exact ⟨mid, post, (List.cons.inj hrest).2, hmid.2⟩

theorem substr_part (h : spec = pre ++ c :: (mid ++ d :: post)) :
    substr spec (pre.length + 1) (sizeSub (sizeSub (pre ++ c :: mid).length pre.length) 1) = mid := by
  have htext : spec = (pre ++ [c]) ++ (mid ++ d :: post) := by simp [h]
  refine substr_eq htext (by simp) ?_
  have hlen : (pre ++ c :: mid).length = pre.length + (mid.length + 1) := by simp
  rw [hlen, sizeSub_of_le (Nat.le_add_right _ _), Nat.add_sub_cancel_left,
    sizeSub_of_le (Nat.le_add_left _ _), Nat.add_sub_cancel]

end Parts

/-- What `parse_output_spec` makes of a text that has all the delimiters. -/
theorem Cut.parse {spec name w h k url : List UInt8} (hcut : Cut spec name w h k url)
    (hsize : spec.length < npos) :
    parseOutputSpec spec =
      Except.toOption do
        let width ← stoi w
        let height ← stoi h
        let kbps ← stoi k
        return ⟨name, width, height, kbps, if kbps ≥ 2000 then 128 else 64, url⟩ := by
  -- each delimiter, with what stands in front of it and behind it
  have hx : spec = name ++ 58 :: (w ++ 120 :: (h ++ 64 :: (k ++ 44 :: url))) := hcut.text
  have hat : spec = (name ++ 58 :: w) ++ 120 :: (h ++ 64 :: (k ++ 44 :: url)) := by simp [hx]
  have hcomma : spec = (name ++ 58 :: w ++ 120 :: h) ++ 64 :: (k ++ 44 :: url) := by simp [hx]
  have hurl : spec = (name ++ 58 :: w ++ 120 :: h ++ 64 :: k) ++ 44 :: url := by simp [hx]
  have hcolon : find spec [58] 0 = name.length := by
    rw [hx]
    simpa using find_append hcut.name [] (w ++ 120 :: (h ++ 64 :: (k ++ 44 :: url)))
  have hname : substr spec 0 name.length = name :=
    substr_eq (hx.trans (List.nil_append _).symm) rfl rfl
  have hrest : substr spec ((name ++ 58 :: w ++ 120 :: h ++ 64 :: k).length + 1) = url :=
    substr_behind hurl hsize
  have hlen : (name ++ 58 :: w ++ 120 :: h ++ 64 :: k).length < spec.length := by
    conv_rhs => rw [hurl]
    simp
  unfold parseOutputSpec
  simp only [hcolon, find_delimiter hx (by decide) hcut.width,
    find_delimiter hat (by decide) hcut.height, find_delimiter hcomma (by decide) hcut.kbps,
    substr_part hx, substr_part hat, substr_part hcomma, hname, hrest]
  simp only [List.length_append] at hlen ⊢
  rw [if_neg (by omega), if_neg (by omega), if_neg (by omega), if_neg (by omega)]

theorem Cut.accepts {spec name w h k url : List UInt8} (hcut : Cut spec name w h k url)
    (hsize : spec.length < npos) {width height kbps : ℤ} (hw : Begins w width)
    (hh : Begins h height) (hk : Begins k kbps) :
    parseOutputSpec spec =
      some ⟨name, width, height, kbps, if kbps ≥ 2000 then 128 else 64, url⟩ := by
  rw [hcut.parse hsize, stoi_ok_iff.2 hw, stoi_ok_iff.2 hh, stoi_ok_iff.2 hk]
  rfl

theorem exists_cut {spec : List UInt8} (h : parseOutputSpec spec ≠ none) :
    ∃ name width height kbps url, Cut spec name width height kbps url := by
  by_cases hcolon : find spec [58] 0 = npos
  · exact absurd (by simp [parseOutputSpec, hcolon]) h
  obtain ⟨name, rest, hspec, hname, hpos⟩ := @find_cut [] spec 58 hcolon
  have hpos₁ : find spec [58] 0 = name.length := by simpa using hpos
  by_cases hx : find spec [120] name.length = npos
  · exact absurd (by simp [parseOutputSpec, hpos₁, hx]) h
  obtain ⟨w, rest, rfl, hw⟩ := exists_part hspec (by decide) hx
  have hpos₂ := find_delimiter hspec (by decide) hw
  have hspec₂ : spec = (name ++ 58 :: w) ++ 120 :: rest := by simp [hspec]
  by_cases hat : find spec [64] (name ++ 58 :: w).length = npos
  · exact absurd (by simp only [parseOutputSpec, hpos₁, hpos₂, hat, if_true, ite_self]) h
  obtain ⟨h', rest, rfl, hh⟩ := exists_part hspec₂ (by decide) hat
  have hpos₃ := find_delimiter hspec₂ (by decide) hh
  have hspec₃ : spec = (name ++ 58 :: w ++ 120 :: h') ++ 64 :: rest := by simp [hspec]
  by_cases hcomma : find spec [44] (name ++ 58 :: w ++ 120 :: h').length = npos
  · exact absurd (by simp only [parseOutputSpec, hpos₁, hpos₂, hpos₃, hcomma, if_true, ite_self]) h
  obtain ⟨k, url, rfl, hk⟩ := exists_part hspec₃ (by decide) hcomma
  exact ⟨name, w, h', k, url, hspec, hname, hw, hh, hk⟩

/-- **What is accepted**: a text with all the delimiters, whose parts begin with numbers. -/
theorem parseOutputSpec_eq_some_iff {spec : List UInt8} (hsize : spec.length < npos)
    {out : OutputSpec} :
    parseOutputSpec spec = some out ↔
      ∃ w h k, Cut spec out.name w h k out.url ∧
        Begins w out.width ∧ Begins h out.height ∧ Begins k out.videoBitrateKbps ∧
          out.audioBitrateKbps = if out.videoBitrateKbps ≥ 2000 then 128 else 64 := by
  constructor
  · intro hsome
    obtain ⟨name, w, h, k, url, hcut⟩ := exists_cut (by rw [hsome]; exact Option.some_ne_none out)
    rw [hcut.parse hsize] at hsome
    cases hw : stoi w with
    | error => simp [hw, bind, Except.bind, Except.toOption] at hsome
    | ok width =>
        cases hh : stoi h with
        | error => simp [hw, hh, bind, Except.bind, Except.toOption] at hsome
        | ok height =>
            cases hk : stoi k with
            | error => simp [hw, hh, hk, bind, Except.bind, Except.toOption] at hsome
            | ok kbps =>
                rw [hw, hh, hk] at hsome
                obtain rfl := Option.some.inj hsome
                exact ⟨w, h, k, hcut, stoi_ok_iff.1 hw, stoi_ok_iff.1 hh, stoi_ok_iff.1 hk, rfl⟩
  · rintro ⟨w, h, k, hcut, hw, hh, hk, haudio⟩
    rw [hcut.accepts hsize hw hh hk, ← haudio]

/-- **Acceptance by the grammar**: it goes wrong exactly where all three parts begin with numbers and
one of them is not a numeral, or not a positive one. -/
theorem parseOutputSpec_iff_described {spec : List UInt8} (hsize : spec.length < npos) :
    Exact spec ↔
      ∀ name w h k url, Cut spec name w h k url →
        ∀ width height kbps, Begins w width → Begins h height → Begins k kbps →
          Positive w width ∧ Positive h height ∧ Positive k kbps := by
  constructor
  · intro hexact name w h k url hcut width height kbps hw hh hk
    have hdescribed := (hexact name width height kbps url).1 ⟨_, hcut.accepts hsize hw hh hk⟩
    obtain ⟨w', h', k', hcut', hw', hh', hk'⟩ := hdescribed.cut
    obtain ⟨-, rfl, rfl, rfl, -⟩ := hcut.unique hcut'
    exact ⟨hw', hh', hk'⟩
  · intro hplain name width height kbps url
    constructor
    · rintro ⟨audio, hsome⟩
      obtain ⟨w, h, k, hcut, hw, hh, hk, -⟩ := (parseOutputSpec_eq_some_iff hsize).1 hsome
      exact ⟨⟨w, h, k, hcut.text, hplain _ w h k _ hcut width height kbps hw hh hk⟩, hcut.name⟩
    · intro hdescribed
      obtain ⟨w, h, k, hcut, hw, hh, hk⟩ := hdescribed.cut
      exact ⟨_, hcut.accepts hsize hw.begins hh.begins hk.begins⟩

theorem cut_720p : Cut (ascii "720p:1280x720@2500,rtmp://server/live/stream_720p") (ascii "720p")
    (ascii "1280") (ascii "720") (ascii "2500") (ascii "rtmp://server/live/stream_720p") := by
  constructor <;> decide +kernel

theorem exact_720p : Exact (ascii "720p:1280x720@2500,rtmp://server/live/stream_720p") := by
  refine (parseOutputSpec_iff_described (by decide +kernel)).2 ?_
  intro name w h k url hcut width height kbps hw hh hk
  obtain ⟨-, rfl, rfl, rfl, -⟩ := cut_720p.unique hcut
  have hplain (text : List UInt8) (hnumeral : IsNumeral text) (hpos : 0 < numeral text) (n : ℤ)
      (hn : Begins text n) : Positive text n := by
    obtain ⟨rfl, hfits⟩ := (begins_numeral_iff hnumeral).1 hn
    exact ⟨hnumeral, rfl, by omega, hfits⟩
  exact ⟨hplain _ (by decide +kernel) (by decide +kernel) width hw,
    hplain _ (by decide +kernel) (by decide +kernel) height hh,
    hplain _ (by decide +kernel) (by decide +kernel) kbps hk⟩

/-- An output may be upside down, and have a unit behind its rate. -/
theorem accepts_negative_height : ¬ Exact (ascii "720p:1280x-720@2500k,rtmp://server/live/s") := by
  intro hexact
  have hsome : parseOutputSpec (ascii "720p:1280x-720@2500k,rtmp://server/live/s") =
      some ⟨ascii "720p", 1280, -720, 2500, 128, ascii "rtmp://server/live/s"⟩ := by decide +kernel
  obtain ⟨w, h, k, -, -, hheight, -⟩ := ((hexact _ _ _ _ _).1 ⟨128, hsome⟩).parts
  exact absurd hheight.2.2.1 (by decide)

end OutputSpec
