/-
**The handshake.**

`src/rtmp/rtmp_handshake.cpp` exchanges 1536 random bytes in each direction before the first chunk.
The random bytes are a parameter of the model: `random i` is what the generator draws for the byte
at index `i`.

Main definitions:

* `Rtmp.Handshake.State`, `Rtmp.Handshake` — how far the handshake has come, and the bytes that
  either side has chosen;
* `Rtmp.Handshake.generateC0C1`, `Rtmp.Handshake.processServerHandshake`,
  `Rtmp.Handshake.generateC2` — what a client does;
* `Rtmp.Handshake.processClientHandshake`, `Rtmp.Handshake.generateS0S1S2` — what a server does.

Main results:

* `Rtmp.Handshake.processServerHandshake_cases` — **a handshake is completed by 3073 bytes that
  start with the version 3**, and is left alone otherwise;
* `Rtmp.Handshake.processClientHandshake_uninitialized`,
  `Rtmp.Handshake.processClientHandshake_sent` — **a server takes C0 and C1, and then C2, out of one
  piece each**.
-/

import RtmpTranscoder.Bytes

set_option relaxedAutoImplicit false
set_option autoImplicit false

namespace Rtmp

/-- `Handshake::State`. -/
inductive Handshake.State where
  | uninitialized
  | c0c1Sent
  | s0s1s2Sent
  | c2Sent
  | done
  deriving DecidableEq, Repr

/-- `Handshake`. -/
structure Handshake where
  state : Handshake.State := .uninitialized
  c1Data : List UInt8 := []
  s1Data : List UInt8 := []
  deriving DecidableEq, Repr

namespace Handshake

/-- `Handshake::is_done`. -/
def isDone (h : Handshake) : Bool := h.state == .done

/-- `Handshake::generate_c0_c1`. -/
def generateC0C1 (h : Handshake) (random : ℕ → UInt8) : Handshake × List UInt8 :=
  let data := [3] ++ List.replicate 4 0 ++ List.replicate 4 0 ++
    (List.range 1528).map fun i => random (9 + i)
  ({ h with c1Data := data.drop 1, state := .c0c1Sent }, data)

/-- `S0_S1_S2_SIZE`. -/
def s0s1s2Size : ℕ := 1 + 1536 + 1536

/-- `Handshake::process_server_handshake`. -/
def processServerHandshake (h : Handshake) (data : List UInt8) :
    Handshake × Except Failure ℕ :=
  if h.state = .c0c1Sent then
    if data.length < s0s1s2Size then (h, .error (.err "NEED_MORE_DATA"))
    else
      match byteAt data 0, bytesAt data 1 1536 with
      | .ok version, .ok s1 =>
          if version ≠ 3 then (h, .error (.err "Invalid RTMP version in S0"))
          else ({ h with s1Data := s1, state := .done }, .ok s0s1s2Size)
      | .error f, _ => (h, .error f)
      | _, .error f => (h, .error f)
  else (h, .error (.err "Invalid handshake state"))

/-- `Handshake::generate_c2`. -/
def generateC2 (h : Handshake) (s1 : List UInt8) : Handshake × Except Failure (List UInt8) :=
  match bytesAt s1 0 1536 with
  | .ok data => ({ h with state := .done }, .ok data)
  | .error f => (h, .error f)

/-- The server's half of the handshake is there. -/
def ServerComplete (h : Handshake) (data : List UInt8) : Prop :=
  h.state = .c0c1Sent ∧ s0s1s2Size ≤ data.length ∧ data.head? = some 3

/-- **A handshake is completed by 3073 bytes that start with the version 3**; otherwise it stays as it
is, and nothing is consumed. -/
theorem processServerHandshake_cases (h : Handshake) (data : List UInt8) :
    (h.ServerComplete data ∧
      h.processServerHandshake data =
        ({ h with s1Data := (data.drop 1).take 1536, state := .done }, .ok s0s1s2Size)) ∨
      (¬ h.ServerComplete data ∧ ∃ text, h.processServerHandshake data = (h, .error (.err text))) := by
  unfold processServerHandshake
  split
  · rename_i hstate
    split
    · rename_i hlen
      exact .inr ⟨fun hc => absurd hc.2.1 (not_le.2 hlen), _, rfl⟩
    · rename_i hlen
      have hlen' := not_lt.1 hlen
      obtain ⟨version, rest, rfl⟩ : ∃ version rest, data = version :: rest :=
        List.exists_cons_of_length_pos (by rw [s0s1s2Size] at hlen'; omega)
      have hbytes : bytesAt (version :: rest) 1 1536 = .ok (((version :: rest).drop 1).take 1536) :=
        bytesAt_of_le (by rw [s0s1s2Size] at hlen'; omega)
      rw [byteAt_cons_zero, hbytes]
      by_cases hversion : version = 3
      · subst hversion
        exact .inl ⟨⟨hstate, hlen', rfl⟩, by simp⟩
      · refine .inr ⟨fun hc => hversion (Option.some.inj hc.2.2), "Invalid RTMP version in S0", ?_⟩
        simp only [ne_eq, hversion, not_false_eq_true, if_true]
  · rename_i hstate
    exact .inr ⟨fun hc => hstate hc.1, _, rfl⟩

/-! ### The server's side -/

/-- `Handshake::generate_s0_s1_s2`. -/
def generateS0S1S2 (h : Handshake) (random : ℕ → UInt8) (c1 : List UInt8) :
    Handshake × Except Failure (List UInt8) :=
  let data := [3] ++ List.replicate 4 0 ++ List.replicate 4 0 ++
    (List.range 1528).map fun i => random (9 + i)
  let h := { h with s1Data := data.drop 1 }
  match bytesAt c1 0 1536 with
  | .ok s2 => ({ h with state := .s0s1s2Sent }, .ok (data ++ s2))
  | .error f => (h, .error f)

/-- `Handshake::process_client_handshake`. -/
def processClientHandshake (h : Handshake) (data : List UInt8) : Handshake × Except Failure ℕ :=
  if h.state = .uninitialized then
    if data.length < 1537 then (h, .error (.err "Not enough data for C0+C1"))
    else
      match byteAt data 0, bytesAt data 1 1536 with
      | .ok version, .ok c1 =>
          if version ≠ 3 then (h, .error (.err "Invalid RTMP version"))
          else if 1537 + 1536 ≤ data.length then
            ({ h with c1Data := c1, state := .done }, .ok (1537 + 1536))
          else ({ h with c1Data := c1, state := .s0s1s2Sent }, .ok 1537)
      | .error f, _ => (h, .error f)
      | _, .error f => (h, .error f)
  else if h.state = .s0s1s2Sent then
    if data.length < 1536 then (h, .error (.err "Not enough data for C2"))
    else ({ h with state := .done }, .ok 1536)
  else (h, .error (.err "Invalid state"))

/-- The client's C0 and C1 are there. -/
def ClientHello (data : List UInt8) : Prop := 1537 ≤ data.length ∧ data.head? = some 3

/-- C1, in what a client sends. -/
def clientChallenge (data : List UInt8) : List UInt8 := (data.drop 1).take 1536

theorem length_clientChallenge {data : List UInt8} (h : ClientHello data) :
    (clientChallenge data).length = 1536 := by
  have hlen := h.1
  rw [clientChallenge, List.length_take, List.length_drop]
  omega

/-- **A server takes C0 and C1 out of the first piece**, and C2 with them if it is there too. -/
theorem processClientHandshake_uninitialized {h : Handshake} (hstate : h.state = .uninitialized)
    (data : List UInt8) :
    (¬ ClientHello data ∧ ∃ text, h.processClientHandshake data = (h, .error (.err text))) ∨
      (ClientHello data ∧ 3073 ≤ data.length ∧ h.processClientHandshake data =
        ({ h with c1Data := clientChallenge data, state := .done }, .ok 3073)) ∨
      (ClientHello data ∧ data.length < 3073 ∧ h.processClientHandshake data =
        ({ h with c1Data := clientChallenge data, state := .s0s1s2Sent }, .ok 1537)) := by
  rw [processClientHandshake, if_pos hstate]
  by_cases hlen : data.length < 1537
  · rw [if_pos hlen]
    exact .inl ⟨fun hc => absurd hc.1 (not_le.2 hlen), _, rfl⟩
  · rw [if_neg hlen]
    have hlen' := not_lt.1 hlen
    obtain ⟨version, rest, rfl⟩ : ∃ version rest, data = version :: rest :=
      List.exists_cons_of_length_pos (by omega)
    have hbytes : bytesAt (version :: rest) 1 1536 = .ok (((version :: rest).drop 1).take 1536) :=
      bytesAt_of_le (by omega)
    rw [byteAt_cons_zero, hbytes]
    by_cases hversion : version = 3
    · subst hversion
      simp only [ne_eq, not_true_eq_false, if_false]
      by_cases hfull : 1537 + 1536 ≤ (3 :: rest).length
      · rw [if_pos hfull]
        exact .inr (.inl ⟨⟨hlen', rfl⟩, hfull, rfl⟩)
      · rw [if_neg hfull]
        exact .inr (.inr ⟨⟨hlen', rfl⟩, not_le.1 hfull, rfl⟩)
    · refine .inl ⟨fun hc => hversion (Option.some.inj hc.2), "Invalid RTMP version", ?_⟩
      simp only [ne_eq, hversion, not_false_eq_true, if_true]

/-- A server that has answered takes C2 out of the next piece. -/
theorem processClientHandshake_sent {h : Handshake} (hstate : h.state = .s0s1s2Sent)
    (data : List UInt8) :
    (data.length < 1536 ∧ ∃ text, h.processClientHandshake data = (h, .error (.err text))) ∨
      (1536 ≤ data.length ∧
        h.processClientHandshake data = ({ h with state := .done }, .ok 1536)) := by
  have hnot : h.state ≠ .uninitialized := by
    rw [hstate]
    decide
  rw [processClientHandshake, if_neg hnot, if_pos hstate]
  by_cases hlen : data.length < 1536
  · rw [if_pos hlen]
    exact .inl ⟨hlen, _, rfl⟩
  · rw [if_neg hlen]
    exact .inr ⟨not_lt.1 hlen, rfl⟩

/-- S0, S1 and S2: the version, bytes of the server's own choice, and C1. -/
theorem generateS0S1S2_spec (h : Handshake) (random : ℕ → UInt8) {c1 : List UInt8}
    (hlen : c1.length = 1536) :
    ∃ s1 : List UInt8, s1.length = 1536 ∧ h.generateS0S1S2 random c1 =
      ({ h with s1Data := s1, state := .s0s1s2Sent }, .ok (3 :: s1 ++ c1)) := by
  have hs2 : bytesAt c1 0 1536 = .ok c1 := by
    rw [bytesAt_of_le (by omega), List.drop_zero, List.take_of_length_le (by omega)]
  refine ⟨List.replicate 4 0 ++ List.replicate 4 0 ++
    (List.range 1528).map fun i => random (9 + i), ?_, ?_⟩
  · simp only [List.length_append, List.length_replicate, List.length_map, List.length_range]
  · rw [generateS0S1S2, hs2]
    rfl

end Handshake

end Rtmp
