/-
**The template of push URLs.**

`RelayManager::build_push_url` puts the names that a publisher has sent in place of the two
placeholders of a template, one after the other.  The second search goes through what the first one
has put in: an application may be called `{stream}`.

A placeholder begins with a brace and has no other one like it, so that two of them never overlap,
and none begins in what stands in front of another one.

Main definitions:

* `Relay.Template` — a template with both placeholders, in either order;
* `Relay.Literal` — what is replaced are the placeholders of the template, by the names.

Main results:

* `Text.infix_append_mark`, `Text.infix_of_append` — occurrences in a concatenation;
* `Text.find_mark_iff` — when the occurrence that is found is the one behind a text;
* `Relay.literal_iff` — when substitution is literal.
-/

import RtmpTranscoder.Relay

set_option relaxedAutoImplicit false
set_option autoImplicit false

namespace Text

/-! ### Marks

A mark is a text `c :: t` with `c ∉ t`. -/

section Marks

variable {α : Type*} {c : α} {t x y : List α}

/-- No occurrence of a mark reaches into what begins as it does. -/
theorem infix_append_mark (hmark : c ∉ t) :
    (c :: t) <:+: x ++ c :: y ↔ (c :: t) <:+: x ∨ (c :: t) <:+: c :: y := by
  constructor
  · intro h
    obtain hx | hy | ⟨front, back, hfront, hback, hsplit, -, hprefix⟩ :=
      List.infix_append_iff_ne_nil.1 h
    · exact Or.inl hx
    · exact Or.inr hy
    · obtain ⟨d, front, rfl⟩ := List.exists_cons_of_ne_nil hfront
      obtain ⟨e, back, rfl⟩ := List.exists_cons_of_ne_nil hback
      obtain ⟨rfl, -⟩ := List.cons_prefix_cons.1 hprefix
      refine absurd ?_ hmark
      rw [(List.cons.inj hsplit).2]
      exact List.mem_append_right front List.mem_cons_self
  · intro h
    exact List.infix_append_iff.2 (h.imp_right Or.inl)

theorem prefix_of_append_mark (hmark : c ∉ t) (hx : x ≠ []) (h : (c :: t) <+: x ++ c :: y) :
    (c :: t) <+: x := by
  obtain hshort | ⟨rest, hrest⟩ := List.prefix_or_prefix_of_prefix h (List.prefix_append x _)
  · exact hshort
  · cases rest with
    | nil => rw [← hrest, List.append_nil]
    | cons d rest =>
        rw [← hrest, List.prefix_append_right_inj] at h
        obtain ⟨rfl, -⟩ := List.cons_prefix_cons.1 h
        obtain ⟨e, x, rfl⟩ := List.exists_cons_of_ne_nil hx
        refine absurd ?_ hmark
        rw [← (List.cons.inj hrest).2]
        exact List.mem_append_right x List.mem_cons_self

/-- A mark does not occur in what does not have its first character, nor does it begin there. -/
theorem infix_of_append (hx : c ∉ x) (h : (c :: t) <:+: x ++ y) : (c :: t) <:+: y := by
  obtain hin | hy | ⟨front, back, hfront, -, hsplit, hsuffix, -⟩ := List.infix_append_iff_ne_nil.1 h
  · exact absurd (hin.subset List.mem_cons_self) hx
  · exact hy
  · obtain ⟨d, front, rfl⟩ := List.exists_cons_of_ne_nil hfront
    obtain ⟨rfl, -⟩ := List.cons.inj hsplit
    exact absurd (hsuffix.subset List.mem_cons_self) hx

end Marks

theorem find_le {s needle : List UInt8} (hneedle : needle ≠ []) {i : ℕ} (hat : needle <+: s.drop i) :
    find s needle 0 ≤ i := by
  have hlt : i < s.length := by
    by_contra hle
    rw [List.drop_eq_nil_of_le (not_lt.1 hle), List.prefix_nil] at hat
    exact hneedle hat
  have hoccurs : (decide (0 ≤ i) && needle.isPrefixOf (s.drop i)) = true := by simpa using hat
  cases hfound : (List.range s.length).find? fun i => decide (0 ≤ i) && needle.isPrefixOf (s.drop i) with
  | none => exact absurd hoccurs (by simpa using List.find?_eq_none.1 hfound i (List.mem_range.2 hlt))
  | some k =>
      obtain ⟨-, -, hnone⟩ := List.find?_range_eq_some.1 hfound
      have hle : k ≤ i := by
        by_contra hgt
        have hnot := hnone i (not_le.1 hgt)
        rw [hoccurs] at hnot
        cases hnot
      rw [find, hfound]
      exact hle

/-- **A mark is found behind a text exactly if it does not occur in the text.** -/
theorem find_mark_iff {c : UInt8} {t : List UInt8} (hmark : c ∉ t) (pre post : List UInt8) :
    find (pre ++ (c :: t ++ post)) (c :: t) 0 = pre.length ↔ ¬ (c :: t) <:+: pre := by
  constructor
  · rintro hfind ⟨before, behind, rfl⟩
    have hle : find (before ++ c :: t ++ behind ++ (c :: t ++ post)) (c :: t) 0 ≤ before.length := by
      refine find_le (List.cons_ne_nil c t) ?_
      simp only [List.append_assoc, List.drop_left]
      exact List.prefix_append _ _
    rw [hfind] at hle
    simp only [List.length_append, List.length_cons] at hle
    omega
  · intro hnot
    refine find_eq (List.cons_ne_nil c t) (Nat.zero_le _) ?_ ?_
    · rw [List.drop_left]
      exact List.prefix_append _ _
    · intro j _ hj hoccurs
      refine hnot (List.IsInfix.trans ?_ (List.drop_suffix j pre).isInfix)
      rw [List.drop_append_of_le_length hj.le] at hoccurs
      refine (prefix_of_append_mark hmark ?_ hoccurs).isInfix
      rw [Ne, List.drop_eq_nil_iff, not_le]
      exact hj

end Text

namespace Relay

open Text

/-! ### Templates -/

/-- The placeholders. -/
def appMark : List UInt8 := ascii "\x7bapp\x7d"

def streamMark : List UInt8 := ascii "\x7bstream\x7d"

/-- A text without placeholders. -/
def Free (s : List UInt8) : Prop := ¬ appMark <:+: s ∧ ¬ streamMark <:+: s

instance (s : List UInt8) : Decidable (Free s) := inferInstanceAs (Decidable (_ ∧ _))

/-- A template with both placeholders, in either order, and what stands around them. -/
structure Template where
  pre : List UInt8
  mid : List UInt8
  post : List UInt8
  streamFirst : Bool
  pre_free : Free pre
  mid_free : Free mid
  post_free : Free post

namespace Template

variable (t : Template) (app stream : List UInt8)

/-- The template with names in the places of its placeholders. -/
def fill : List UInt8 :=
  if t.streamFirst then t.pre ++ (stream ++ (t.mid ++ (app ++ t.post)))
  else t.pre ++ (app ++ (t.mid ++ (stream ++ t.post)))

def text : List UInt8 := t.fill appMark streamMark

/-- What stands in front of the application. -/
def beforeApp : List UInt8 :=
  if t.streamFirst then t.pre ++ (streamMark ++ t.mid) else t.pre

/-- What stands in front of the stream, once the application is named. -/
def beforeStream : List UInt8 :=
  if t.streamFirst then t.pre else t.pre ++ (app ++ t.mid)

end Template

/-- A pass of `build_push_url`: the first occurrence of a placeholder gives way to a name. -/
def substitute (s mark name : List UInt8) : List UInt8 :=
  if find s mark 0 ≠ npos then replace s (find s mark 0) mark.length name else s

/-- The URL that templates are put behind. -/
def slashed (pushUrl : List UInt8) : List UInt8 :=
  if pushUrl.getLast? = some 47 then pushUrl else pushUrl ++ ascii "/"

/-- The passes of `build_push_url`. -/
theorem buildPushUrl_eq (r : RelaySettings) (streamId : StreamId) :
    buildPushUrl r streamId =
      (if r.pushUrl = [] then [] else slashed r.pushUrl) ++
        substitute (substitute r.pushTemplate appMark streamId.app) streamMark streamId.stream := by
  have hpasses : buildPushUrl r streamId =
      let result := substitute (substitute r.pushTemplate appMark streamId.app) streamMark
        streamId.stream
      if r.pushUrl.isEmpty then result
      else if r.pushUrl.getLast? = some 47 then r.pushUrl ++ result
      else r.pushUrl ++ ascii "/" ++ result := rfl
  rw [hpasses, slashed]
  cases r.pushUrl with
  | nil => rfl
  | cons first rest =>
      simp only [List.isEmpty_cons, Bool.false_eq_true, reduceCtorEq, ↓reduceIte]
      split
      · rfl
      · rfl

theorem substitute_append {s pre mark post : List UInt8} (h : s = pre ++ (mark ++ post))
    (hfind : find s mark 0 = pre.length) (hsize : s.length < npos) (name : List UInt8) :
    substitute s mark name = pre ++ (name ++ post) := by
  have hlen : s.length = pre.length + (mark.length + post.length) := by simp [h]
  rw [substitute, hfind, if_pos (by omega), replace, h, List.take_left, ← List.drop_drop,
    List.drop_left, List.drop_left, List.append_assoc]

namespace Template

variable (t : Template) (app : List UInt8)

theorem text_eq : ∃ post, t.text = t.beforeApp ++ (appMark ++ post) ∧
    ∀ name, t.fill name streamMark = t.beforeApp ++ (name ++ post) := by
  unfold text fill beforeApp
  cases t.streamFirst with
  | false => exact ⟨_, rfl, fun name => rfl⟩
  | true => exact ⟨t.post, by simp, by simp⟩

theorem fill_eq : ∃ post, ∀ name, t.fill app name = t.beforeStream app ++ (name ++ post) := by
  unfold fill beforeStream
  cases t.streamFirst with
  | false => exact ⟨t.post, by simp⟩
  | true => exact ⟨_, fun name => rfl⟩

theorem not_infix_beforeApp : ¬ appMark <:+: t.beforeApp := by
  unfold beforeApp
  cases t.streamFirst with
  | false => exact t.pre_free.1
  | true =>
      intro h
      obtain hpre | hmid := (infix_append_mark (by decide)).1 h
      · exact t.pre_free.1 hpre
      · -- nor does it begin where the stream does
        obtain hprefix | hinfix := List.infix_cons_iff.1 hmid
        · exact absurd (List.cons_prefix_cons.1 (List.cons_prefix_cons.1 hprefix).2).1 (by decide)
        · exact t.mid_free.1 (infix_of_append (by decide) hinfix)

/-- A stream that comes first is where it is first asked for; otherwise this is up to what stands in
front of it. -/
theorem not_infix_beforeStream_iff :
    ¬ streamMark <:+: t.beforeStream app ↔
      t.streamFirst = true ∨ ¬ streamMark <:+: t.pre ++ (app ++ t.mid) := by
  unfold beforeStream
  cases t.streamFirst with
  | false => simp
  | true => simpa using t.pre_free.2

end Template

/-- Substitution is literal: the URL is the template with the names in it, and what gave way to them
are the placeholders of the template. -/
structure Literal (r : RelaySettings) (streamId : StreamId) (t : Template) : Prop where
  url : buildPushUrl r streamId = slashed r.pushUrl ++ t.fill streamId.app streamId.stream
  app : find r.pushTemplate appMark 0 = t.beforeApp.length
  stream : find (substitute r.pushTemplate appMark streamId.app) streamMark 0 =
    (t.beforeStream streamId.app).length

section Substitution

variable {r : RelaySettings} {t : Template} (streamId : StreamId)

theorem find_app (htemplate : r.pushTemplate = t.text) :
    find r.pushTemplate appMark 0 = t.beforeApp.length := by
  obtain ⟨post, htext, -⟩ := t.text_eq
  rw [htemplate, htext]
  exact (find_mark_iff (by decide) t.beforeApp post).2 t.not_infix_beforeApp

theorem substitute_app (htemplate : r.pushTemplate = t.text) (hsize : r.pushTemplate.length < npos)
    (app : List UInt8) : substitute r.pushTemplate appMark app = t.fill app streamMark := by
  obtain ⟨post, htext, hfill⟩ := t.text_eq
  rw [substitute_append (htemplate.trans htext) (find_app htemplate) hsize, hfill]

theorem find_stream_iff (app : List UInt8) :
    find (t.fill app streamMark) streamMark 0 = (t.beforeStream app).length ↔
      t.streamFirst = true ∨ ¬ streamMark <:+: t.pre ++ (app ++ t.mid) := by
  obtain ⟨post, hfill⟩ := t.fill_eq app
  rw [hfill, ← t.not_infix_beforeStream_iff]
  exact find_mark_iff (by decide) _ post

/-- **Substitution is literal** exactly if there is a URL to push to and, where the application comes
first, its name does not make a placeholder in front of the one for the stream. -/
theorem literal_iff (htemplate : r.pushTemplate = t.text) (hsize : r.pushTemplate.length < npos)
    (hnamed : (t.fill streamId.app streamMark).length < npos) :
    Literal r streamId t ↔ r.pushUrl ≠ [] ∧
      (t.streamFirst = true ∨ ¬ streamMark <:+: t.pre ++ (streamId.app ++ t.mid)) := by
  obtain ⟨post, hfill⟩ := t.fill_eq streamId.app
  have hfirst := substitute_app htemplate hsize streamId.app
  have hsecond (hfind : find (t.fill streamId.app streamMark) streamMark 0 =
      (t.beforeStream streamId.app).length) :
      substitute (t.fill streamId.app streamMark) streamMark streamId.stream =
        t.fill streamId.app streamId.stream := by
    rw [substitute_append (hfill streamMark) hfind hnamed, hfill]
  constructor
  · intro h
    have hfind := h.stream
    rw [hfirst] at hfind
    refine ⟨?_, (find_stream_iff streamId.app).1 hfind⟩
    intro hempty
    have hurl := h.url
    rw [buildPushUrl_eq, hfirst, hsecond hfind, if_pos hempty, hempty] at hurl
    exact absurd (congrArg List.length hurl) (by simp [slashed, ascii])
  · rintro ⟨hurl, hcondition⟩
    have hfind := (find_stream_iff streamId.app).2 hcondition
    constructor
    · rw [buildPushUrl_eq, hfirst, hsecond hfind, if_neg hurl]
    · exact find_app htemplate
    · rw [hfirst]
      exact hfind

end Substitution

/-- The template that is used when none is given. -/
def defaultTemplate : Template where
  pre := []
  mid := ascii "/"
  post := []
  streamFirst := false
  pre_free := by decide
  mid_free := by decide
  post_free := by decide

def defaultSettings : RelaySettings where
  pushUrl := ascii "rtmp://127.0.0.1:1936/live"

theorem literal_default : Literal defaultSettings ⟨ascii "app", ascii "stream"⟩ defaultTemplate :=
  (literal_iff _ rfl (by decide +kernel) (by decide +kernel)).2 ⟨by decide, Or.inr (by decide)⟩

/-- A stream `s` of an application `{stream}` is pushed to the stream `{stream}` of `s`. -/
theorem not_literal_default :
    ¬ Literal defaultSettings ⟨ascii "\x7bstream\x7d", ascii "s"⟩ defaultTemplate := by
  intro h
  have hurl : buildPushUrl defaultSettings ⟨ascii "\x7bstream\x7d", ascii "s"⟩ =
      ascii "rtmp://127.0.0.1:1936/live/s/\x7bstream\x7d" := by decide +kernel
  have hwrong := hurl.symm.trans h.url
  revert hwrong
  decide +kernel

end Relay
