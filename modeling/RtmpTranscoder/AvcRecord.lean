/-
**The AVC decoder configuration record.**

A record is a header of six bytes, the last of which says how many sequence parameter sets follow, a
count, and as many picture parameter sets; each set comes behind its length, of two bytes.
`build_avc_decoder_config` writes a record with one of either kind, and `parse_avc_decoder_config`
reads records that anybody may have written.

It reads a well-formed record as it is.  But where a length leads past the end, only that one set is
passed over: the next two bytes are taken for the next length, and behind the last sequence parameter
set the next byte for the count.  The loop over the units of a packet, in the same file, stops there.

What a record is read as is listed by `Transcode.avcReads`: which bytes are taken for a count, for a
length or for a set, in the order of the loops.

Main definitions:

* `Transcode.AvcRead`, `Transcode.parameterSetReads`, `Transcode.avcReads` — the reading of a record;
* `Transcode.RecordPrefix` — the beginning of a well-formed record, and its parameter sets;
* `Transcode.ReadsPrefix` — the parameter sets of the longest such beginning are fed, and nothing is
  read behind a length that leads past the end;
* `Transcode.EndsWithOverrun` — nothing is left to be read behind such a length.

Main results:

* `Transcode.avc_config_round_trip` — **what is built is read again**;
* `Transcode.parameterSets_of_reads` — the list of what is read, and what is fed;
* `Transcode.readsPrefix_iff` — **a record is read as far as it is well formed exactly if nothing is
  left behind the first length that leads past its end**.
-/

import RtmpTranscoder.VideoDemux

set_option relaxedAutoImplicit false
set_option autoImplicit false

namespace Transcode

open Framing (Frames IsLongestPrefix bigEndian)
open Rtmp (Failure byteAt bytesAt)

/-! ### What is read -/

/-- Bytes of a record are taken for a count, for a length, which is `len`, or for a set. -/
inductive AvcRead where
  | count (offset : ℕ)
  | length (offset len : ℕ)
  | set (offset len : ℕ)
  deriving DecidableEq, Repr

/-- A length leads past the end of the record. -/
def AvcRead.Overruns (data : List UInt8) : AvcRead → Prop
  | .length offset len => data.length < offset + 2 + len
  | _ => False

/-- The parameter sets that are read. -/
def setsOf (data : List UInt8) (reads : List AvcRead) : List (List UInt8) :=
  reads.filterMap fun
    | .set offset len => some ((data.drop offset).take len)
    | _ => none

/-- What a loop of `parse_avc_decoder_config` reads, and the offset behind it. -/
def parameterSetReads (data : List UInt8) : ℕ → ℕ → Except Failure (List AvcRead × ℕ)
  | 0, offset => .ok ([], offset)
  | count + 1, offset =>
      if offset + 2 ≤ data.length then do
        let hi ← byteAt data offset
        let lo ← byteAt data (offset + 1)
        let len := (Bytes.readU16Be hi lo).toNat
        if offset + 2 + len ≤ data.length then do
          let (reads, behind) ← parameterSetReads data count (offset + 2 + len)
          return (.length offset len :: .set (offset + 2) len :: reads, behind)
        else do
          let (reads, behind) ← parameterSetReads data count (offset + 2)
          return (.length offset len :: reads, behind)
      else .ok ([], offset)

/-- What `parse_avc_decoder_config` reads behind the header. -/
def avcReads (data : List UInt8) : Except Failure (List AvcRead) :=
  if data.length < 7 then .ok []
  else do
    let numSps ← byteAt data 5
    let (sps, offset) ← parameterSetReads data (numSps &&& 0x1F).toNat 6
    let pps ←
      if offset < data.length then do
        let numPps ← byteAt data offset
        let (pps, _) ← parameterSetReads data numPps.toNat (offset + 1)
        pure (.count offset :: pps)
      else pure []
    return .count 5 :: sps ++ pps

/-- **What is fed is what is read as a set.** -/
theorem parameterSets_of_reads {data : List UInt8} {count offset behind : ℕ} {reads : List AvcRead}
    (h : parameterSetReads data count offset = .ok (reads, behind)) :
    parameterSets data count offset = .ok (setsOf data reads, behind) := by
  induction count generalizing offset reads with
  | zero =>
      obtain ⟨rfl, rfl⟩ := Prod.mk.inj (Except.ok.inj h)
      rfl
  | succ count ih =>
      rw [parameterSetReads] at h
      rw [parameterSets]
      split at h
      · rename_i hlength
        rw [if_pos hlength]
        rw [byteAt_of_lt (show offset < data.length by omega),
          byteAt_of_lt (show offset + 1 < data.length by omega)] at h ⊢
        simp only [bind, Except.bind] at h ⊢
        split at h
        · rename_i hfits
          rw [if_pos hfits, Rtmp.bytesAt_of_le hfits]
          cases hrest : parameterSetReads data count
              (offset + 2 + (Bytes.readU16Be data[offset] data[offset + 1]).toNat) with
          | error f =>
              rw [hrest] at h
              cases h
          | ok rest =>
              rw [hrest] at h
              obtain ⟨rfl, rfl⟩ := Prod.mk.inj (Except.ok.inj h)
              simp only [ih hrest]
              rfl
        · rename_i hover
          rw [if_neg hover]
          cases hrest : parameterSetReads data count (offset + 2) with
          | error f =>
              rw [hrest] at h
              cases h
          | ok rest =>
              rw [hrest] at h
              obtain ⟨rfl, rfl⟩ := Prod.mk.inj (Except.ok.inj h)
              rw [ih hrest]
              rfl
      · rename_i hend
        obtain ⟨rfl, rfl⟩ := Prod.mk.inj (Except.ok.inj h)
        rw [if_neg hend]
        rfl

/-! ### Frames -/

/-- Frames as they are read from `offset` on. -/
def frameReads : ℕ → List (List UInt8) → List AvcRead
  | _, [] => []
  | offset, set :: sets =>
      .length offset set.length :: .set (offset + 2) set.length ::
        frameReads (offset + 2 + set.length) sets

theorem readU16Be_eq {data : List UInt8} {offset : ℕ} (h : offset + 2 ≤ data.length) :
    (Bytes.readU16Be (data[offset]) (data[offset + 1])).toNat =
      bigEndian ((data.drop offset).take 2) := by
  have htake : (data.drop offset).take 2 =
      [data[offset], data[offset + 1]] := by
    rw [List.drop_eq_getElem_cons (by omega), List.drop_eq_getElem_cons (by omega)]
    rfl
  rw [htake, Bytes.toNat_readU16Be]
  simp [bigEndian]

/-- **Frames are read as they are.** -/
theorem parameterSetReads_frames {data bytes rest : List UInt8} {sets : List (List UInt8)}
    (h : Frames bigEndian 2 bytes sets) {offset : ℕ} (hdata : data.drop offset = bytes ++ rest)
    (hoffset : offset ≤ data.length) (count : ℕ) :
    parameterSetReads data (sets.length + count) offset =
      (parameterSetReads data count (offset + bytes.length)).map fun r =>
        (frameReads offset sets ++ r.1, r.2) := by
  induction h generalizing offset with
  | nil =>
      simp only [List.length_nil, Nat.zero_add, Nat.add_zero, frameReads, List.nil_append]
      cases parameterSetReads data count offset <;> rfl
  | @cons len body bytes bodies hlen hvalue _ ih =>
      have hlength := congrArg List.length hdata
      simp only [List.length_drop, List.length_append, hlen] at hlength
      have htwo : offset + 2 ≤ data.length := by omega
      have hnum : (Bytes.readU16Be (data[offset]) (data[offset + 1])).toNat =
          body.length := by
        rw [readU16Be_eq htwo, hdata, List.append_assoc, ← hlen, List.take_left, hvalue]
      have hbehind : data.drop (offset + 2 + body.length) = bytes ++ rest := by
        rw [← List.drop_drop, ← List.drop_drop, hdata, List.append_assoc, ← hlen, List.drop_left,
          List.append_assoc, List.drop_left]
      have hcount : (body :: bodies).length + count = bodies.length + count + 1 := by
        rw [List.length_cons]
        omega
      have hsum : offset + (len ++ (body ++ bytes)).length =
          offset + 2 + body.length + bytes.length := by
        simp only [List.length_append, hlen]
        omega
      rw [hcount, parameterSetReads, if_pos htwo, byteAt_of_lt (by omega), byteAt_of_lt (by omega)]
      simp only [bind, Except.bind, hnum]
      rw [if_pos (by omega), ih hbehind (by omega), hsum]
      cases parameterSetReads data count (offset + 2 + body.length + bytes.length) <;> rfl

/-- Where there is no other frame, the loop is over, or a length leads past the end. -/
theorem parameterSetReads_stop {data : List UInt8} {offset : ℕ}
    (hsplit : Framing.split bigEndian 2 (data.drop offset) = none) (count : ℕ) :
    (data.length < offset + 2 ∧ parameterSetReads data count offset = .ok ([], offset)) ∨
      (offset + 2 ≤ data.length ∧ ∃ len, data.length < offset + 2 + len ∧
        parameterSetReads data (count + 1) offset =
          (parameterSetReads data count (offset + 2)).map fun r =>
            (.length offset len :: r.1, r.2)) := by
  by_cases htwo : offset + 2 ≤ data.length
  · refine .inr ⟨htwo, bigEndian ((data.drop offset).take 2), ?_, ?_⟩
    · rw [Framing.split] at hsplit
      split at hsplit
      · cases hsplit
      · rename_i hover
        by_contra hle
        refine hover ⟨?_, ?_⟩
        · rw [List.length_drop]
          omega
        · rw [List.drop_drop, List.length_drop]
          omega
    · have hover : ¬ offset + 2 + bigEndian ((data.drop offset).take 2) ≤ data.length := by
        intro hle
        rw [Framing.split, if_pos] at hsplit
        · cases hsplit
        · refine ⟨?_, ?_⟩
          · rw [List.length_drop]
            omega
          · rw [List.drop_drop, List.length_drop]
            omega
      rw [parameterSetReads, if_pos htwo, byteAt_of_lt (by omega), byteAt_of_lt (by omega)]
      simp only [bind, Except.bind, readU16Be_eq htwo]
      rw [if_neg hover]
      cases parameterSetReads data count (offset + 2) <;> rfl
  · refine .inl ⟨by omega, ?_⟩
    cases count with
    | zero => rfl
    | succ count => rw [parameterSetReads, if_neg htwo]

theorem setsOf_frameReads {data bytes rest : List UInt8} {sets : List (List UInt8)}
    (h : Frames bigEndian 2 bytes sets) {offset : ℕ} (hdata : data.drop offset = bytes ++ rest) :
    setsOf data (frameReads offset sets) = sets := by
  induction h generalizing offset with
  | nil => rfl
  | @cons len body bytes bodies hlen _ _ ih =>
      have hbody : data.drop (offset + 2) = body ++ (bytes ++ rest) := by
        rw [← List.drop_drop, hdata, List.append_assoc, ← hlen, List.drop_left, List.append_assoc]
      have hbehind : data.drop (offset + 2 + body.length) = bytes ++ rest := by
        rw [← List.drop_drop, hbody, List.drop_left]
      have hrest := ih hbehind
      rw [setsOf] at hrest ⊢
      simp only [frameReads, List.filterMap_cons, hbody, List.take_left, hrest]

theorem not_overruns_frameReads {data bytes rest : List UInt8} {sets : List (List UInt8)}
    (h : Frames bigEndian 2 bytes sets) {offset : ℕ} (hdata : data.drop offset = bytes ++ rest)
    (hoffset : offset ≤ data.length) :
    ∀ read ∈ frameReads offset sets, ¬ read.Overruns data := by
  induction h generalizing offset with
  | nil => exact fun read hread => absurd hread List.not_mem_nil
  | @cons len body bytes bodies hlen _ _ ih =>
      have hlength := congrArg List.length hdata
      simp only [List.length_drop, List.length_append, hlen] at hlength
      have hbehind : data.drop (offset + 2 + body.length) = bytes ++ rest := by
        rw [← List.drop_drop, ← List.drop_drop, hdata, List.append_assoc, ← hlen, List.drop_left,
          List.append_assoc, List.drop_left]
      intro read hread
      rcases List.mem_cons.1 hread with rfl | hread
      · simp only [AvcRead.Overruns]
        omega
      · rcases List.mem_cons.1 hread with rfl | hread
        · exact id
        · exact ih hbehind (by omega) read hread

/-- What a record is parsed to are the sets that are read. -/
theorem parse_of_reads {data : List UInt8} {reads : List AvcRead} (hlong : 7 ≤ data.length)
    (h : avcReads data = .ok reads) :
    parseAvcDecoderConfig data =
      .ok (some ((data[4] &&& 0x03).toNat + 1, (setsOf data reads).map (startCode ++ ·))) := by
  have hnot : ¬ data.length < 7 := not_lt.2 hlong
  rw [avcReads, if_neg hnot, byteAt_of_lt (show 5 < data.length by omega)] at h
  rw [parseAvcDecoderConfig, if_neg hnot, byteAt_of_lt (show 4 < data.length by omega),
    byteAt_of_lt (show 5 < data.length by omega)]
  simp only [bind, Except.bind] at h ⊢
  cases hsps : parameterSetReads data (data[5] &&& 0x1F).toNat 6 with
  | error f =>
      rw [hsps] at h
      cases h
  | ok sps =>
      obtain ⟨sps, offset⟩ := sps
      rw [hsps] at h
      rw [parameterSets_of_reads hsps]
      simp only at h ⊢
      split at h
      · rename_i hcount
        rw [if_pos hcount]
        rw [byteAt_of_lt hcount] at h ⊢
        simp only at h ⊢
        cases hpps : parameterSetReads data data[offset].toNat (offset + 1) with
        | error f =>
            rw [hpps] at h
            cases h
        | ok pps =>
            rw [hpps] at h
            obtain rfl := Except.ok.inj h
            rw [parameterSets_of_reads hpps]
            simp only [pure, Except.pure, setsOf, List.cons_append, List.filterMap_cons,
              List.filterMap_append]
      · rename_i hend
        obtain rfl := Except.ok.inj h
        rw [if_neg hend]
        simp only [pure, Except.pure, setsOf, List.cons_append, List.filterMap_cons,
          List.filterMap_append, List.filterMap_nil]

/-- What a loop reads from `offset` on, where it finds these frames and `rest` behind them: either they
are all, or the next length leads past the end, and what is behind it is read on. -/
inductive LoopReads (data : List UInt8) (count offset : ℕ) (sets : List (List UInt8))
    (rest : List UInt8) : List AvcRead → ℕ → Prop
  | complete : sets.length = count ∨ rest.length < 2 →
      LoopReads data count offset sets rest (frameReads offset sets) (data.length - rest.length)
  | overrun {len behind : ℕ} {more : List AvcRead} : sets.length < count → 2 ≤ rest.length →
      data.length < data.length - rest.length + 2 + len →
      (more = [] ↔ sets.length + 1 = count ∨ rest.length < 4) → behind ≤ data.length →
      (more = [] → behind = data.length - rest.length + 2) →
      LoopReads data count offset sets rest
        (frameReads offset sets ++ .length (data.length - rest.length) len :: more) behind

theorem exists_parameterSetReads {data : List UInt8} (count : ℕ) {offset : ℕ}
    (hoffset : offset ≤ data.length) :
    ∃ reads behind, parameterSetReads data count offset = .ok (reads, behind) ∧
      behind ≤ data.length ∧ (reads = [] ↔ count = 0 ∨ data.length < offset + 2) ∧
      (reads = [] → behind = offset) := by
  induction count generalizing offset with
  | zero => exact ⟨[], offset, rfl, hoffset, by simp, fun _ => rfl⟩
  | succ count ih =>
      rw [parameterSetReads]
      split
      · rename_i htwo
        rw [byteAt_of_lt (show offset < data.length by omega),
          byteAt_of_lt (show offset + 1 < data.length by omega)]
        simp only [bind, Except.bind]
        split
        · rename_i hfits
          obtain ⟨reads, behind, hrest, hle, -, -⟩ := ih hfits
          rw [hrest]
          refine ⟨_, behind, rfl, hle, ?_, ?_⟩
          · simp
            omega
          · simp
        · obtain ⟨reads, behind, hrest, hle, -, -⟩ := ih htwo
          rw [hrest]
          refine ⟨_, behind, rfl, hle, ?_, ?_⟩
          · simp
            omega
          · simp
      · rename_i hend
        exact ⟨[], offset, rfl, hoffset, by simp; omega, fun _ => rfl⟩

/-- **What a loop reads**: the frames that there are, and more if the next length leads past the
end. -/
theorem loopReads {data : List UInt8} (count : ℕ) {offset : ℕ} (hoffset : offset ≤ data.length) :
    ∃ reads behind, parameterSetReads data count offset = .ok (reads, behind) ∧
      behind ≤ data.length ∧
      LoopReads data count offset (Framing.read bigEndian 2 count (data.drop offset)).1
        (Framing.read bigEndian 2 count (data.drop offset)).2 reads behind := by
  obtain ⟨⟨bytes, hbytes, hframes⟩, hle, hstop⟩ :=
    @Framing.read_spec _ bigEndian 2 count (data.drop offset)
  generalize (Framing.read bigEndian 2 count (data.drop offset)).1 = sets at *
  generalize (Framing.read bigEndian 2 count (data.drop offset)).2 = rest at *
  have hlength := congrArg List.length hbytes
  rw [List.length_drop, List.length_append] at hlength
  have hend : offset + bytes.length = data.length - rest.length := by omega
  obtain ⟨left, rfl⟩ := Nat.exists_eq_add_of_le hle
  rw [parameterSetReads_frames hframes hbytes hoffset, hend]
  cases left with
  | zero =>
      refine ⟨frameReads offset sets ++ [], _, rfl, Nat.sub_le _ _, ?_⟩
      rw [List.append_nil]
      exact .complete (.inl rfl)
  | succ left =>
      have hsplit := hstop (by omega)
      have hrest : data.drop (data.length - rest.length) = rest := by
        rw [← hend, ← List.drop_drop, hbytes, List.drop_left]
      rw [← hrest] at hsplit
      rcases parameterSetReads_stop hsplit (left + 1) with ⟨hshort, hloop⟩ | ⟨htwo, -⟩
      · rw [hloop]
        refine ⟨frameReads offset sets ++ [], _, rfl, Nat.sub_le _ _, ?_⟩
        rw [List.append_nil]
        exact .complete (.inr (by omega))
      · rcases parameterSetReads_stop hsplit left with ⟨hshort, -⟩ | ⟨-, len, hover, hloop⟩
        · omega
        · obtain ⟨more, behind, hmore, hbehind, hnil, hsame⟩ :=
            exists_parameterSetReads left (show data.length - rest.length + 2 ≤ data.length by omega)
          rw [hloop, hmore]
          refine ⟨_, behind, rfl, hbehind, .overrun (by omega) (by omega) hover ?_ hbehind hsame⟩
          rw [hnil]
          omega

/-! ### Whole records -/

/-- The number of sequence parameter sets that a record declares. -/
def numSps (data : List UInt8) : ℕ := (data.getD 5 0 &&& 0x1F).toNat

/-- What is read behind the sequence parameter sets, which end at `offset`. -/
def ReadBehind (data : List UInt8) (sps : List AvcRead) (offset : ℕ) : Prop :=
  (offset = data.length ∧ avcReads data = .ok (.count 5 :: sps)) ∨
    ∃ count rest pps behind, data.drop offset = count :: rest ∧
      LoopReads data count.toNat (offset + 1) (Framing.read bigEndian 2 count.toNat rest).1
        (Framing.read bigEndian 2 count.toNat rest).2 pps behind ∧
      avcReads data = .ok (.count 5 :: sps ++ .count offset :: pps)

/-- **What a record is read as**: a loop for the sequence parameter sets, and behind it, if anything is
left, a count and a loop for the picture parameter sets. -/
theorem exists_avcReads {data : List UInt8} (hlong : 7 ≤ data.length) :
    ∃ sps offset, LoopReads data (numSps data) 6
        (Framing.read bigEndian 2 (numSps data) (data.drop 6)).1
        (Framing.read bigEndian 2 (numSps data) (data.drop 6)).2 sps offset ∧
      ReadBehind data sps offset := by
  have hfive : 5 < data.length := by omega
  have hnum : numSps data = (data[5] &&& 0x1F).toNat := by
    rw [numSps, List.getD_eq_getElem _ _ hfive]
  obtain ⟨sps, offset, hsps, hoffset, hloop⟩ :=
    loopReads (numSps data) (show 6 ≤ data.length by omega)
  refine ⟨sps, offset, hloop, ?_⟩
  rw [ReadBehind, avcReads, if_neg (not_lt.2 hlong), byteAt_of_lt hfive]
  simp only [bind, Except.bind, ← hnum, hsps]
  by_cases hcount : offset < data.length
  · refine .inr ?_
    obtain ⟨pps, behind, hpps, -, hloop'⟩ :=
      loopReads data[offset].toNat (show offset + 1 ≤ data.length by omega)
    refine ⟨data[offset], data.drop (offset + 1), pps, behind,
      List.drop_eq_getElem_cons hcount, hloop', ?_⟩
    rw [if_pos hcount, byteAt_of_lt hcount]
    simp only [hpps]
    rfl
  · refine .inl ⟨by omega, ?_⟩
    rw [if_neg hcount]
    simp only [pure, Except.pure, List.append_nil]

/-- The beginning of a well-formed record, up to a parameter set, and the sets in it. -/
inductive RecordPrefix : List UInt8 → List (List UInt8) → Prop
  | sps {header bytes : List UInt8} {sets : List (List UInt8)} : header.length = 6 →
      Frames bigEndian 2 bytes sets → sets.length ≤ numSps header →
      RecordPrefix (header ++ bytes) sets
  | pps {header bytes bytes' : List UInt8} {count : UInt8} {sps pps : List (List UInt8)} :
      header.length = 6 → Frames bigEndian 2 bytes sps → sps.length = numSps header →
      Frames bigEndian 2 bytes' pps → pps.length ≤ count.toNat →
      RecordPrefix (header ++ (bytes ++ count :: bytes')) (sps ++ pps)

theorem numSps_append {header : List UInt8} (h : header.length = 6) (rest : List UInt8) :
    numSps (header ++ rest) = numSps header := by
  have hfive : 5 < header.length := by omega
  have hfive' : 5 < (header ++ rest).length := by
    rw [List.length_append]
    omega
  rw [numSps, numSps, List.getD_eq_getElem _ _ hfive, List.getD_eq_getElem _ _ hfive',
    List.getElem_append_left hfive]

theorem of_header {header body rest data : List UInt8} (h : header.length = 6)
    (hpre : header ++ body <+: data) (hdata : data.drop 6 = rest) :
    body <+: rest ∧ numSps data = numSps header := by
  obtain ⟨more, rfl⟩ := hpre
  rw [List.append_assoc, ← h, List.drop_left] at hdata
  exact ⟨⟨more, hdata⟩, by rw [List.append_assoc, numSps_append h]⟩

/-- The sequence parameter sets that a prefix begins with are among those that are read. -/
theorem sps_among_read {header body other data : List UInt8} {sets : List (List UInt8)}
    (hsix : header.length = 6) (hpre : header ++ body <+: data) (hbody : other <+: body)
    (hother : Frames bigEndian 2 other sets) (hcount : sets.length ≤ numSps header) :
    let found := Framing.read bigEndian 2 (numSps data) (data.drop 6)
    sets <+: found.1 ∧ header.length + other.length + found.2.length ≤ data.length := by
  obtain ⟨hrest, hnum⟩ := of_header hsix hpre rfl
  obtain ⟨hsets, hlonger⟩ := hother.of_read (hbody.trans hrest) (hnum ▸ hcount)
  have hle := hpre.length_le
  rw [List.length_append] at hle
  rw [List.length_drop] at hlonger
  exact ⟨hsets, by omega⟩

/-- The parameter sets of the longest prefix. -/
def recordSets (data : List UInt8) : List (List UInt8) :=
  let sps := Framing.read bigEndian 2 (numSps data) (data.drop 6)
  if sps.1.length < numSps data then sps.1
  else
    match sps.2 with
    | [] => sps.1
    | count :: rest => sps.1 ++ (Framing.read bigEndian 2 count.toNat rest).1

/-- A record is a header, the sequence parameter sets that are read, and the rest. -/
theorem exists_header {data : List UInt8} (h : 6 ≤ data.length) :
    let found := Framing.read bigEndian 2 (numSps data) (data.drop 6)
    ∃ header bytes, header.length = 6 ∧ data = header ++ (bytes ++ found.2) ∧
      Frames bigEndian 2 bytes found.1 ∧ found.1.length ≤ numSps header ∧
        numSps data = numSps header := by
  have hsix : (data.take 6).length = 6 := List.length_take_of_le h
  have hdata : data = data.take 6 ++ data.drop 6 := (List.take_append_drop 6 data).symm
  have hnum : numSps data = numSps (data.take 6) := by
    conv_lhs => rw [hdata]
    exact numSps_append hsix _
  obtain ⟨⟨bytes, hbytes, hframes⟩, hle, -⟩ :=
    @Framing.read_spec _ bigEndian 2 (numSps data) (data.drop 6)
  exact ⟨data.take 6, bytes, hsix, by rw [← hbytes, List.take_append_drop], hframes, hnum ▸ hle, hnum⟩

/-- Where picture parameter sets are read, a prefix that has some goes no further. -/
theorem pps_among_read {header bytes rest header' other other' : List UInt8} {count count' : UInt8}
    {sps sets pps : List (List UInt8)} (hsix : header.length = 6)
    (hframes : Frames bigEndian 2 bytes sps) (hsps : sps.length = numSps header)
    (hread : (Framing.read bigEndian 2 (numSps header) (bytes ++ count :: rest)).1 = sps)
    (hsix' : header'.length = 6) (hother : Frames bigEndian 2 other sets)
    (hcount : sets.length = numSps header') (hother' : Frames bigEndian 2 other' pps)
    (hmany : pps.length ≤ count'.toNat)
    (hpre : header' ++ (other ++ count' :: other') <+: header ++ (bytes ++ count :: rest)) :
    bytes = other ∧ other'.length + (Framing.read bigEndian 2 count.toNat rest).2.length ≤
      rest.length := by
  obtain ⟨hbody, hnum⟩ := of_header hsix' hpre (List.drop_left' hsix)
  rw [numSps_append hsix] at hnum
  have hbody' : other <+: bytes ++ count :: rest := (List.prefix_append _ _).trans hbody
  obtain ⟨hsets, -⟩ := hother.of_read hbody' (Nat.le_of_eq (hcount.trans hnum.symm))
  rw [hread] at hsets
  have hsame := hsets.eq_of_length (by omega)
  subst hsame
  have heq := hframes.eq_of_initial hother (List.prefix_append _ _) hbody'
  subst heq
  rw [List.prefix_append_right_inj, List.cons_prefix_cons] at hbody
  obtain ⟨rfl, hbehind⟩ := hbody
  exact ⟨rfl, (hother'.of_read hbehind hmany).2⟩

/-- **They are.** -/
theorem recordSets_spec {data : List UInt8} (h : 6 ≤ data.length) :
    ∃ pre, IsLongestPrefix (fun pre => ∃ sets, RecordPrefix pre sets) data pre ∧
      RecordPrefix pre (recordSets data) := by
  obtain ⟨header, bytes, hsix, hdata, hframes, hle, hnum⟩ := exists_header h
  have hlen := congrArg List.length hdata
  rw [List.length_append, List.length_append] at hlen
  have hsps {header' body other : List UInt8} {sets : List (List UInt8)} :=
    @sps_among_read header' body other data sets
  rw [recordSets]
  generalize hread : Framing.read bigEndian 2 (numSps data) (data.drop 6) = found at *
  obtain ⟨sps, rest⟩ := found
  simp only at *
  split
  · rename_i hfew
    have hpre : RecordPrefix (header ++ bytes) sps := .sps hsix hframes hle
    refine ⟨header ++ bytes, ⟨⟨_, hpre⟩, ⟨rest, by rw [hdata, List.append_assoc]⟩, ?_⟩, hpre⟩
    rintro other ⟨sets, hother⟩ hinit
    cases hother with
    | sps hsix' hother hcount =>
        have hlonger := (hsps hsix' hinit List.prefix_rfl hother hcount).2
        rw [List.length_append, List.length_append]
        omega
    | @pps header' other other' count sets pps hsix' hother hcount _ _ =>
        -- there are not as many
        have hsets := (hsps hsix' hinit (List.prefix_append _ _) hother (Nat.le_of_eq hcount)).1
        have hnum' := (of_header hsix' hinit rfl).2
        have hshort := hsets.length_le
        omega
  · rename_i hall
    have hcount : sps.length = numSps header := by omega
    split
    · rw [List.append_nil] at hdata
      have hpre : RecordPrefix (header ++ bytes) sps := .sps hsix hframes hle
      rw [← hdata] at hpre
      exact ⟨data, ⟨⟨_, hpre⟩, List.prefix_rfl, fun other _ hinit => hinit.length_le⟩, hpre⟩
    · rename_i count rest'
      obtain ⟨⟨bytes', hbytes', hframes'⟩, hle', -⟩ :=
        @Framing.read_spec _ bigEndian 2 count.toNat rest'
      have hpre : RecordPrefix (header ++ (bytes ++ count :: bytes'))
          (sps ++ (Framing.read bigEndian 2 count.toNat rest').1) :=
        .pps hsix hframes hcount hframes' hle'
      have hlen' := congrArg List.length hbytes'
      rw [List.length_append] at hlen'
      refine ⟨_, ⟨⟨_, hpre⟩, ?_, ?_⟩, hpre⟩
      · rw [hdata]
        conv_rhs => rw [hbytes']
        exact ⟨(Framing.read bigEndian 2 count.toNat rest').2, by simp⟩
      · rintro other ⟨sets, hother⟩ hinit
        cases hother with
        | sps hsix' hother hcount' =>
            have hlonger := (hsps hsix' hinit List.prefix_rfl hother hcount').2
            simp only [List.length_append, List.length_cons] at hlonger hlen ⊢
            omega
        | @pps header' other other' count' sets pps hsix' hother hcount' hother' hmany =>
            rw [hdata, numSps_append hsix, List.drop_left' hsix] at hread
            rw [hdata] at hinit
            obtain ⟨rfl, hlonger⟩ := pps_among_read hsix hframes hcount
              (congrArg Prod.fst hread) hsix' hother hcount' hother' hmany hinit
            simp only [List.length_append, List.length_cons, hsix, hsix']
            omega

/-! ### Malformed records -/

/-- What the decoder is fed. -/
def fedSets (data : List UInt8) : List (List UInt8) :=
  match parseAvcDecoderConfig data with
  | .ok (some (_, sets)) => sets
  | _ => []

/-- Nothing is read behind a length that leads past the end. -/
def StopsAtOverrun (data : List UInt8) (reads : List AvcRead) : Prop :=
  ∀ before read after, reads = before ++ read :: after → read.Overruns data → after = []

/-- A record is read as far as it is well formed: the parameter sets of its longest well-formed prefix
are fed, each behind a start code, and nothing is read behind a length that leads past the end. -/
structure ReadsPrefix (data : List UInt8) : Prop where
  fed : (∃ pre sets, IsLongestPrefix (fun pre => ∃ sets, RecordPrefix pre sets) data pre ∧
      RecordPrefix pre sets ∧ fedSets data = sets.map ([0, 0, 0, 1] ++ ·)) ∨
    (∀ pre sets, pre <+: data → ¬ RecordPrefix pre sets) ∧ fedSets data = []
  stops : ∀ reads, avcReads data = .ok reads → StopsAtOverrun data reads

/-- Nothing is left to be read behind the first length that leads past the end, if there is one: that of
a sequence parameter set is at the end of the record, and behind that of a picture parameter set there
is at most one byte, or no other set is declared. -/
def EndsWithOverrun (data : List UInt8) : Prop :=
  7 ≤ data.length →
    let sps := Framing.read bigEndian 2 (numSps data) (data.drop 6)
    if sps.1.length < numSps data then sps.2.length ≤ 2
    else ∀ count rest, sps.2 = count :: rest →
      let pps := Framing.read bigEndian 2 count.toNat rest
      pps.1.length + 1 < count.toNat → pps.2.length ≤ 3

variable {data : List UInt8} {reads more : List AvcRead} {read : AvcRead}

theorem stopsAtOverrun_nil : StopsAtOverrun data [] := by
  intro before read after h
  simp at h

theorem stopsAtOverrun_append (h : ∀ read ∈ reads, ¬ read.Overruns data) :
    StopsAtOverrun data (reads ++ more) ↔ StopsAtOverrun data more := by
  constructor
  · intro hstops before read after hmore
    refine hstops (reads ++ before) read after ?_
    rw [hmore, List.append_assoc]
  · intro hstops before read after heq hover
    rcases List.append_eq_append_iff.1 heq with ⟨middle, rfl, hmore⟩ | ⟨middle, hreads, hmore⟩
    · exact hstops middle read after hmore hover
    · cases middle with
      | nil => exact hstops [] read after hmore.symm hover
      | cons first middle =>
          obtain ⟨rfl, -⟩ := List.cons.inj hmore
          exact absurd hover (h read (hreads ▸ List.mem_append_right _ List.mem_cons_self))

theorem stopsAtOverrun_count {offset : ℕ} :
    StopsAtOverrun data (.count offset :: reads) ↔ StopsAtOverrun data reads :=
  @stopsAtOverrun_append data [.count offset] reads
    fun read hread => by
      obtain rfl := List.mem_singleton.1 hread
      exact id

theorem stopsAtOverrun_cons (h : read.Overruns data) :
    StopsAtOverrun data (read :: more) ↔ more = [] := by
  constructor
  · exact fun hstops => hstops [] read more rfl h
  · rintro rfl before other after heq -
    cases before with
    | nil => exact (List.cons.inj heq).2.symm
    | cons _ before => simp at heq

theorem countedReads (count : ℕ) {offset : ℕ} (hoffset : offset + 1 ≤ data.length)
    (more : List AvcRead) :
    let sets := (Framing.read bigEndian 2 count (data.drop (offset + 1))).1
    setsOf data (.count offset :: (frameReads (offset + 1) sets ++ more)) =
        sets ++ setsOf data more ∧
      (StopsAtOverrun data (.count offset :: (frameReads (offset + 1) sets ++ more)) ↔
        StopsAtOverrun data more) := by
  obtain ⟨⟨bytes, hbytes, hframes⟩, -, -⟩ :=
    @Framing.read_spec _ bigEndian 2 count (data.drop (offset + 1))
  refine ⟨?_, ?_⟩
  · have hsets := setsOf_frameReads hframes hbytes
    rw [setsOf] at hsets ⊢
    rw [List.filterMap_cons, List.filterMap_append, hsets]
    rfl
  · rw [stopsAtOverrun_count]
    exact stopsAtOverrun_append (not_overruns_frameReads hframes hbytes hoffset)

theorem read_eq_drop (count offset : ℕ) :
    let rest := (Framing.read bigEndian 2 count (data.drop offset)).2
    rest = data.drop (data.length - rest.length) := by
  obtain ⟨⟨bytes, hbytes, -⟩, -, -⟩ := @Framing.read_spec _ bigEndian 2 count (data.drop offset)
  have hsuffix : (Framing.read bigEndian 2 count (data.drop offset)).2 <:+ data :=
    List.IsSuffix.trans ⟨bytes, hbytes.symm⟩ (List.drop_suffix offset data)
  exact List.suffix_iff_eq_drop.1 hsuffix

/-- **Where a loop stops**: with its frames, or at a length that leads past the end and behind which
nothing can be read, or is to be. -/
theorem LoopReads.stops {count offset behind : ℕ} (hoffset : offset + 1 ≤ data.length)
    (h : LoopReads data count (offset + 1)
      (Framing.read bigEndian 2 count (data.drop (offset + 1))).1
      (Framing.read bigEndian 2 count (data.drop (offset + 1))).2 reads behind) :
    let found := Framing.read bigEndian 2 count (data.drop (offset + 1))
    (StopsAtOverrun data (.count offset :: reads) ↔
        (found.1.length + 1 < count → found.2.length ≤ 3)) ∧
      (StopsAtOverrun data (.count offset :: reads) →
        setsOf data (.count offset :: reads) = found.1) := by
  have hcounted := countedReads count hoffset
  generalize Framing.read bigEndian 2 count (data.drop (offset + 1)) = found at *
  obtain ⟨sets, rest⟩ := found
  simp only at *
  cases h with
  | complete hdone =>
      obtain ⟨hsets, hstops⟩ := hcounted []
      rw [List.append_nil] at hsets hstops
      refine ⟨?_, fun _ => ?_⟩
      · rw [hstops]
        refine iff_of_true stopsAtOverrun_nil fun hmissing => ?_
        omega
      · rw [hsets]
        exact List.append_nil sets
  | @overrun len _ more hfew htwo hover hnil _ _ =>
      have hoverruns : (AvcRead.length (data.length - rest.length) len).Overruns data := hover
      obtain ⟨hsets, hstops⟩ := hcounted (.length (data.length - rest.length) len :: more)
      rw [stopsAtOverrun_cons hoverruns] at hstops
      refine ⟨hstops.trans (hnil.trans ?_), fun hquiet => ?_⟩
      · constructor
        · rintro hend hmissing
          omega
        · intro hend
          by_cases hlast : sets.length + 1 = count
          · exact .inl hlast
          · exact .inr (by have := hend (by omega); omega)
      · rw [hsets, hstops.1 hquiet]
        simp [setsOf]

/-- A record is read, up to where it may stop, as the parameter sets of its longest prefix. -/
def ReadToEnd (data : List UInt8) : Prop :=
  ∃ reads, avcReads data = .ok reads ∧ (StopsAtOverrun data reads ↔ EndsWithOverrun data) ∧
    (StopsAtOverrun data reads → setsOf data reads = recordSets data)

theorem readToEnd_of_complete (hlong : 7 ≤ data.length) {sets : List (List UInt8)}
    {rest : List UInt8}
    (hfound : Framing.read bigEndian 2 (numSps data) (data.drop 6) = (sets, rest))
    (hdone : sets.length = numSps data ∨ rest.length < 2)
    (htail : ReadBehind data (frameReads 6 sets) (data.length - rest.length)) : ReadToEnd data := by
  have hle := (@Framing.read_spec _ bigEndian 2 (numSps data) (data.drop 6)).2.1
  have hfirst := countedReads (numSps data) (show 5 + 1 ≤ data.length by omega)
  have hrest := @read_eq_drop data (numSps data) 6
  rw [ReadToEnd, EndsWithOverrun, recordSets]
  simp only [forall_prop_of_true hlong, Nat.reduceAdd, hfound] at *
  have hshorter := congrArg List.length hrest
  rw [List.length_drop] at hshorter
  rcases htail with ⟨hend, hreads⟩ | ⟨count, rest', pps, behind, hdrop, hloop', hreads⟩
  · -- nothing is left for a count
    obtain rfl : rest = [] := List.length_eq_zero_iff.1 (by omega)
    obtain ⟨hsets, hstops⟩ := hfirst []
    rw [List.append_nil] at hsets hstops
    refine ⟨_, hreads, ?_, fun _ => ?_⟩
    · simp [hstops, stopsAtOverrun_nil]
    · rw [hsets]
      split <;> exact List.append_nil sets
  · rw [← hrest] at hdrop
    subst hdrop
    rw [List.length_cons] at *
    have hsecond := @LoopReads.stops data pps count.toNat (data.length - (rest'.length + 1)) behind
      (by omega)
    rw [← List.drop_drop, ← hrest, List.drop_one, List.tail_cons] at hsecond
    obtain ⟨hstops, hsets⟩ := hsecond hloop'
    obtain ⟨hsets', hstops'⟩ := hfirst (.count (data.length - (rest'.length + 1)) :: pps)
    refine ⟨_, hreads, hstops'.trans (hstops.trans ?_), fun hquiet => ?_⟩
    · split
      · -- where sequence parameter sets are missing, nothing is behind the count
        obtain rfl : rest' = [] := List.length_eq_zero_iff.1 (by omega)
        have hnone : Framing.read bigEndian 2 count.toNat [] = ([], []) :=
          Framing.read_none (if_neg (by simp))
        simp [hnone]
      · constructor
        · rintro hend _ _ heq
          obtain ⟨rfl, rfl⟩ := List.cons.inj heq
          exact hend
        · exact fun hend => hend count rest' rfl
    · refine hsets'.trans ?_
      rw [hsets (hstops'.1 hquiet)]
      split
      · obtain rfl : rest' = [] := List.length_eq_zero_iff.1 (by omega)
        simp [Framing.read_none, Framing.split]
      · rfl

theorem readToEnd_of_overrun (hlong : 7 ≤ data.length) {sets : List (List UInt8)}
    {rest : List UInt8} {len offset : ℕ} {more : List AvcRead}
    (hfound : Framing.read bigEndian 2 (numSps data) (data.drop 6) = (sets, rest))
    (hfew : sets.length < numSps data) (htwo : 2 ≤ rest.length)
    (hover : data.length < data.length - rest.length + 2 + len)
    (hnil : more = [] ↔ sets.length + 1 = numSps data ∨ rest.length < 4)
    (hsame : more = [] → offset = data.length - rest.length + 2)
    (htail : ReadBehind data
      (frameReads 6 sets ++ .length (data.length - rest.length) len :: more) offset) :
    ReadToEnd data := by
  have hfirst := countedReads (numSps data) (show 5 + 1 ≤ data.length by omega)
  have hrest := @read_eq_drop data (numSps data) 6
  rw [ReadToEnd, EndsWithOverrun, recordSets]
  simp only [forall_prop_of_true hlong, Nat.reduceAdd, hfound] at *
  have hshorter := congrArg List.length hrest
  rw [List.length_drop] at hshorter
  have hoverruns : (AvcRead.length (data.length - rest.length) len).Overruns data := hover
  rw [if_pos hfew, if_pos hfew]
  rcases htail with ⟨hend, hreads⟩ | ⟨count, rest', pps, behind, hdrop, -, hreads⟩
  · obtain ⟨hsets, hstops⟩ := hfirst (.length (data.length - rest.length) len :: more)
    rw [stopsAtOverrun_cons hoverruns] at hstops
    refine ⟨_, hreads, hstops.trans ⟨fun hmore => ?_, fun hshort => hnil.2 (by omega)⟩,
      fun hquiet => ?_⟩
    · have := hsame hmore
      omega
    · rw [hsets, hstops.1 hquiet]
      simp [setsOf]
  · -- the next byte is taken for the count
    obtain ⟨-, hstops⟩ := hfirst (.length (data.length - rest.length) len ::
      (more ++ .count offset :: pps))
    rw [stopsAtOverrun_cons hoverruns] at hstops
    have hnot : ¬ more ++ .count offset :: pps = [] := by simp
    have hassoc : (.count 5 :: (frameReads 6 sets ++
        .length (data.length - rest.length) len :: more)) ++ .count offset :: pps =
        AvcRead.count 5 :: (frameReads 6 sets ++ .length (data.length - rest.length) len ::
          (more ++ .count offset :: pps)) := by simp
    rw [hassoc] at hreads
    refine ⟨_, hreads, hstops.trans ⟨fun hmore => absurd hmore hnot, fun hshort => ?_⟩,
      fun hquiet => absurd (hstops.1 hquiet) hnot⟩
    have hbehind' := hsame (hnil.2 (by omega))
    have hlen := congrArg List.length hdrop
    rw [List.length_drop, List.length_cons] at hlen
    omega

/-- **What is read of a record, and where it stops.** -/
theorem exists_reads (hlong : 7 ≤ data.length) : ReadToEnd data := by
  obtain ⟨sps, offset, hloop, htail⟩ := exists_avcReads hlong
  generalize hfound : Framing.read bigEndian 2 (numSps data) (data.drop 6) = found at hloop
  obtain ⟨sets, rest⟩ := found
  cases hloop with
  | complete hdone => exact readToEnd_of_complete hlong hfound hdone htail
  | overrun hfew htwo hover hnil _ hsame =>
      exact readToEnd_of_overrun hlong hfound hfew htwo hover hnil hsame htail

/-- **A record is read as far as it is well formed exactly if nothing is left behind the first length
that leads past its end.** -/
theorem readsPrefix_iff (data : List UInt8) : ReadsPrefix data ↔ EndsWithOverrun data := by
  by_cases hlong : 7 ≤ data.length
  · obtain ⟨reads, hreads, hstops, hsets⟩ := exists_reads hlong
    constructor
    · exact fun h => hstops.1 (h.stops reads hreads)
    · intro hend
      have hquiet := hstops.2 hend
      obtain ⟨pre, hlongest, hpre⟩ := recordSets_spec (show 6 ≤ data.length by omega)
      refine ⟨.inl ⟨pre, _, hlongest, hpre, ?_⟩, ?_⟩
      · rw [fedSets, parse_of_reads hlong hreads, hsets hquiet]
        rfl
      · intro reads' hreads'
        obtain rfl := Except.ok.inj (hreads.symm.trans hreads')
        exact hquiet
  · have hshort : data.length < 7 := not_le.1 hlong
    have hfed : fedSets data = [] := by
      rw [fedSets, parseAvcDecoderConfig, if_pos hshort]
    refine ⟨fun _ hlong' => absurd hlong' hlong, fun _ => ⟨?_, ?_⟩⟩
    · rcases Nat.lt_or_ge data.length 6 with hnone | hheader
      · refine .inr ⟨fun pre sets hpre hrecord => ?_, hfed⟩
        have hle := hpre.length_le
        cases hrecord with
        | sps hsix _ _ =>
            rw [List.length_append] at hle
            omega
        | pps hsix _ _ _ _ =>
            rw [List.length_append] at hle
            omega
      · -- the header is all that there is
        obtain ⟨pre, hlongest, hpre⟩ := recordSets_spec hheader
        refine .inl ⟨pre, _, hlongest, hpre, ?_⟩
        rw [hfed]
        have hsplit (count : ℕ) (bytes : List UInt8) (hbytes : bytes.length ≤ 1) :
            Framing.read bigEndian 2 count bytes = ([], bytes) :=
          Framing.read_none (if_neg fun h => by omega)
        have hbehind : (data.drop 6).length ≤ 1 := by
          rw [List.length_drop]
          omega
        rw [recordSets, hsplit _ _ hbehind]
        simp only
        split
        · rfl
        · split
          · rfl
          · rename_i count rest hcons
            rw [hcons, List.length_cons] at hbehind
            rw [hsplit _ _ (by omega)]
            rfl
    · intro reads hreads
      rw [avcReads, if_pos hshort] at hreads
      obtain rfl := Except.ok.inj hreads
      exact stopsAtOverrun_nil

/-- Two sequence parameter sets are declared, and the length of the first leads past the end: the next
two bytes are taken for the length of another, which is fed. -/
theorem not_readsPrefix :
    fedSets [1, 66, 0, 30, 255, 226, 0, 255, 0, 1, 103] = [[0, 0, 0, 1, 103]] ∧
      ¬ ReadsPrefix [1, 66, 0, 30, 255, 226, 0, 255, 0, 1, 103] := by
  refine ⟨by decide, fun h => ?_⟩
  have hstops := h.stops [.count 5, .length 6 255, .length 8 1, .set 10 1] (by rfl)
  have hnil := hstops [.count 5] (.length 6 255) [.length 8 1, .set 10 1] rfl
    (show 11 < 6 + 2 + 255 by decide)
  simp at hnil

/-! ### A record that has been built -/

def lengthPrefixed (set : List UInt8) : List UInt8 :=
  Bytes.writeU16Be (UInt16.ofNat set.length) ++ set

/-- A set that is not too long comes behind its own length. -/
theorem frames_lengthPrefixed {set : List UInt8} (h : set.length ≤ 65535) :
    Frames bigEndian 2 (lengthPrefixed set) [set] := by
  obtain ⟨a, b, hwrite, hread⟩ := Bytes.exists_writeU16Be (UInt16.ofNat set.length)
  have hvalue : bigEndian [a, b] = set.length := by
    have htoNat := congrArg UInt16.toNat hread
    rw [Bytes.toNat_readU16Be, UInt16.toNat_ofNat', Nat.mod_eq_of_lt (by omega)] at htoNat
    simpa [bigEndian] using htoNat
  have hframe : Frames bigEndian 2 ([a, b] ++ (set ++ [])) [set] := .cons rfl hvalue .nil
  rwa [List.append_nil, ← hwrite] at hframe

def builtRecord (sps pps : List UInt8) : List UInt8 :=
  ([0x01] ++ avcProfile sps ++ [0xFF, 0xE1]) ++ (lengthPrefixed sps ++ 0x01 :: lengthPrefixed pps)

theorem drop_buildAvcDecoderConfig (sps pps : List UInt8) :
    (buildAvcDecoderConfig sps pps).drop 5 = builtRecord sps pps := by
  simp only [buildAvcDecoderConfig, builtRecord, lengthPrefixed, List.cons_append, List.nil_append,
    List.append_assoc, List.drop_succ_cons, List.drop_zero]

theorem exists_avcProfile (sps : List UInt8) : ∃ profile compat level,
    avcProfile sps = [profile, compat, level] := by
  unfold avcProfile
  split <;> exact ⟨_, _, _, rfl⟩

/-- One set of either kind is found in the record that is built. -/
theorem parse_builtRecord {sps pps : List UInt8} (hsps : sps.length ≤ 65535)
    (hpps : pps.length ≤ 65535) :
    parseAvcDecoderConfig (builtRecord sps pps) =
      .ok (some (4, [startCode ++ sps, startCode ++ pps])) := by
  obtain ⟨profile, compat, level, hprofile⟩ := exists_avcProfile sps
  obtain ⟨data, hdata⟩ : ∃ data, data = builtRecord sps pps := ⟨_, rfl⟩
  have hshape : data = 0x01 :: profile :: compat :: level :: 0xFF :: 0xE1 ::
      (lengthPrefixed sps ++ 0x01 :: lengthPrefixed pps) := by
    rw [hdata, builtRecord, hprofile]
    rfl
  have hlong : 7 ≤ data.length := by
    rw [hshape]
    simp
    omega
  have hnum : numSps data = 1 := by
    rw [numSps, hshape, List.getD_cons_succ, List.getD_cons_succ, List.getD_cons_succ,
      List.getD_cons_succ, List.getD_cons_succ, List.getD_cons_zero]
    decide
  have hfirst : Framing.read bigEndian 2 1 (data.drop 6) = ([sps], 0x01 :: lengthPrefixed pps) := by
    rw [hshape]
    exact (frames_lengthPrefixed hsps).read_append 0 (0x01 :: lengthPrefixed pps)
  have hsecond : Framing.read bigEndian 2 1 (lengthPrefixed pps) = ([pps], []) := by
    have hread := (frames_lengthPrefixed hpps).read_append 0 []
    rwa [List.append_nil] at hread
  obtain ⟨reads, hreads, hstops, hsets⟩ := exists_reads hlong
  have hend : EndsWithOverrun data := by
    intro _
    rw [hnum, hfirst]
    change ∀ count rest, (0x01 :: lengthPrefixed pps : List UInt8) = count :: rest → _
    intro count rest heq _ hmissing
    obtain ⟨rfl, rfl⟩ := List.cons.inj heq
    exact absurd hmissing (Nat.not_lt.2 (Nat.le_add_left 1 _))
  have hfound : recordSets data = [sps, pps] := by
    rw [recordSets, hnum, hfirst]
    change [sps] ++ (Framing.read bigEndian 2 1 (lengthPrefixed pps)).1 = [sps, pps]
    rw [hsecond]
    rfl
  rw [← hdata, parse_of_reads hlong hreads, hsets (hstops.2 hend), hfound]
  have hsize : data[4] = 0xFF := by
    subst hshape
    rfl
  rw [hsize]
  rfl

/-- **What is built is read again**: a configuration made of two parameter sets gives the decoder these
two, and the length size is four, whatever it was. -/
theorem avc_config_round_trip {sps pps : List UInt8} (hsps : sps.length ≤ 65535)
    (hpps : pps.length ≤ 65535) (t : Transcoder) (timestamp : UInt32) (keyframe : Bool)
    (o : VideoOutcome) :
    demuxVideo t.naluLengthSize (buildAvcDecoderConfig sps pps) =
        .ok (.config 4 [[0, 0, 0, 1] ++ sps, [0, 0, 0, 1] ++ pps]) ∧
      t.onVideoData (buildAvcDecoderConfig sps pps) timestamp keyframe o =
        .ok ({ t with naluLengthSize := 4 },
          if t.videoDecoder.initialized then
            [.videoDecoder ([0, 0, 0, 1] ++ sps), .videoDecoder ([0, 0, 0, 1] ++ pps)]
          else []) := by
  have hdemux : demuxVideo t.naluLengthSize (buildAvcDecoderConfig sps pps) =
      .ok (.config 4 [[0, 0, 0, 1] ++ sps, [0, 0, 0, 1] ++ pps]) := by
    have hparse := parse_builtRecord hsps hpps
    rw [← drop_buildAvcDecoderConfig] at hparse
    have hlong : ¬ (buildAvcDecoderConfig sps pps).length < 5 := by
      simp [buildAvcDecoderConfig]
    have hformat : byteAt (buildAvcDecoderConfig sps pps) 0 = .ok 0x17 := rfl
    have htype : byteAt (buildAvcDecoderConfig sps pps) 1 = .ok 0x00 := rfl
    rw [demuxVideo, if_neg hlong, hformat, htype, hparse]
    rfl
  refine ⟨hdemux, ?_⟩
  rw [Transcoder.onVideoData, hdemux]
  rfl

/-- A parameter set that says what the profile is, and one that is empty, where lengths had one byte. -/
theorem avc_config_round_trip_short :
    let o : VideoOutcome := ⟨fun _ => .ok none, fun _ =>
      { created := fun _ => true, i420Scale := fun _ dst => .ok dst, encodeFrame := fun _ => .error 0 }⟩
    demuxVideo 1 (buildAvcDecoderConfig [0x67, 0x42, 0xC0, 0x1E] []) =
        .ok (.config 4 [[0, 0, 0, 1, 0x67, 0x42, 0xC0, 0x1E], [0, 0, 0, 1]]) ∧
      ({ videoDecoder := ⟨true⟩, naluLengthSize := 1 } : Transcoder).onVideoData
          (buildAvcDecoderConfig [0x67, 0x42, 0xC0, 0x1E] []) 0 true o =
        .ok ({ videoDecoder := ⟨true⟩, naluLengthSize := 4 },
          [.videoDecoder [0, 0, 0, 1, 0x67, 0x42, 0xC0, 0x1E], .videoDecoder [0, 0, 0, 1]]) :=
  avc_config_round_trip (by decide) (by decide) { videoDecoder := ⟨true⟩, naluLengthSize := 1 } 0 true _

end Transcode
