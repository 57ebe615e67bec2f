import GsSDR.Afsk.Phase
import GsSDR.Lib.Tones

/-!
# Receiving AFSK

A receiver that knows the frequencies and where a burst starts tells for each bit
of the burst which of the two tones it is (`demodulate`).  It gets back which
bytes of the message are 1, from all samples that are off by so little that the
tones can still be told apart (`demodulate_near`).  Behind the preamble these are
the bytes of the message itself, when these are bits (`receive_bits`).

Numbers are exact here.  What floats make of a burst is part of the errors.
-/

namespace GsSDR.Afsk

open Tones

variable {M : Type}

/-- Reals for floats. -/
noncomputable def realFloats : Floats ℝ ℝ where
  pi := Real.pi
  sin := Real.sin
  int x := some (if x < 0 then ⌈x⌉ else ⌊x⌋)
  float32 x := x

/-- The tones of the modem can be told apart in samples that are off by at most
`ε`.  The space tone is below half the sample rate. -/
structure Modem.Resolved (ε : ℝ) (m : Modem ℝ) : Prop where
  four_le : 4 ≤ m.sps
  space_pos : 0 < m.spaceFreq
  space_lt : 2 * m.spaceFreq < m.sampRate
  apart : 8 * ε < |Real.cos (m.markPinc realFloats) - Real.cos (m.spacePinc realFloats)| *
    Real.sin (m.spacePinc realFloats)

/-- What a receiver makes of the samples of a burst. -/
noncomputable def demodulate (ε : ℝ) (m : Modem ℝ) (xs : List ℝ) : List UInt8 :=
  (symbols ε (m.markPinc realFloats) m.sps.toNat xs).map fun mark => if mark then 1 else 0

/-- The same behind the preamble. -/
noncomputable def receive (ε : ℝ) (m : Modem ℝ) (xs : List ℝ) : List UInt8 :=
  (demodulate ε m xs).drop (2 * m.preambleLenBits.toNat)

/-- What can be heard of a byte that is modulated. -/
def heard (b : UInt8) : UInt8 := if b = 1 then 1 else 0

variable {ε : ℝ} {m : Modem ℝ} {msg bits : List UInt8} {opb xs : List ℝ}

/-! ## The tones of a modem -/

theorem markPinc_eq (m : Modem ℝ) :
    m.markPinc realFloats = turns (m.markFreq / m.sampRate) := by
  rw [Modem.markPinc, Nat.cast_ofNat, turns]
  exact mul_div_assoc _ _ _

theorem spacePinc_eq (m : Modem ℝ) :
    m.spacePinc realFloats = turns (m.spaceFreq / m.sampRate) := by
  rw [Modem.spacePinc, Nat.cast_ofNat, turns]
  exact mul_div_assoc _ _ _

theorem Modem.Resolved.sampRate_pos (h : m.Resolved ε) : 0 < m.sampRate := by
  have hpos := h.space_pos
  have hlt := h.space_lt
  linarith only [hpos, hlt]

theorem Modem.Resolved.resolves (h : m.Resolved ε) :
    Resolves ε m.sps.toNat (m.markPinc realFloats) (m.spacePinc realFloats) where
  four_le := by
    have hfour := h.four_le
    omega
  space_pos := by
    rw [spacePinc_eq]
    exact mul_pos Real.two_pi_pos (div_pos h.space_pos h.sampRate_pos)
  space_lt_pi := by
    rw [spacePinc_eq, turns_lt_pi, div_lt_div_iff₀ h.sampRate_pos two_pos, one_mul, mul_comm]
    exact h.space_lt
  apart := h.apart

theorem Modem.Resolved.one_le_sps (h : m.Resolved ε) : 1 ≤ m.sps :=
  Int.le_trans (by decide) h.four_le

/-- Frequencies up to a quarter of the sample rate are told apart in samples that are
off by less than four times the product of the space frequency and the difference
of the squares, in units of the sample rate. -/
theorem resolved_of_freqs (hfour : 4 ≤ m.sps) (hmark : 0 < m.markFreq)
    (hlt : m.markFreq < m.spaceFreq) (hquarter : 4 * m.spaceFreq ≤ m.sampRate)
    (hε : ε * m.sampRate ^ 3 < 4 * (m.spaceFreq ^ 2 - m.markFreq ^ 2) * m.spaceFreq) :
    m.Resolved ε := by
  have hspace : 0 < m.spaceFreq := hmark.trans hlt
  have hrate : 0 < m.sampRate := by linarith only [hspace, hquarter]
  have hfg : m.markFreq / m.sampRate < m.spaceFreq / m.sampRate :=
    div_lt_div_of_pos_right hlt hrate
  have hg : m.spaceFreq / m.sampRate ≤ 1 / 4 := by
    rw [div_le_iff₀ hrate]
    linarith only [hquarter]
  have hapart : ε < 4 * ((m.spaceFreq / m.sampRate) ^ 2 - (m.markFreq / m.sampRate) ^ 2) *
      (m.spaceFreq / m.sampRate) := by
    have hcube : 4 * ((m.spaceFreq / m.sampRate) ^ 2 - (m.markFreq / m.sampRate) ^ 2) *
        (m.spaceFreq / m.sampRate) =
        4 * (m.spaceFreq ^ 2 - m.markFreq ^ 2) * m.spaceFreq / m.sampRate ^ 3 := by
      field_simp
    rw [hcube, lt_div_iff₀ (pow_pos hrate 3)]
    exact hε
  have hsps : 4 ≤ m.sps.toNat := by omega
  have hturns := (resolves_of_turns hsps (div_pos hmark hrate) hfg hg hapart).apart
  rw [← markPinc_eq, ← spacePinc_eq] at hturns
  exact ⟨hfour, hspace, by linarith only [hspace, hquarter], hturns⟩

theorem Modem.Resolved.mono {δ : ℝ} (h : m.Resolved ε) (hle : δ ≤ ε) : m.Resolved δ where
  four_le := h.four_le
  space_pos := h.space_pos
  space_lt := h.space_lt
  apart := lt_of_le_of_lt (by linarith only [hle]) h.apart

/-- The modem of the flowgraphs that stream. -/
noncomputable def streamModem : Modem ℝ := ⟨48000, 1200, 1800, 1200, 0, 40⟩

/-- The modem of the flowgraphs with bursts. -/
noncomputable def burstModem : Modem ℝ := ⟨12000, 1200, 1800, 1200, 0, 10⟩

theorem streamModem_resolved : streamModem.Resolved (1 / 10000) :=
  resolved_of_freqs (by decide) (by norm_num [streamModem]) (by norm_num [streamModem])
    (by norm_num [streamModem]) (by norm_num [streamModem])

theorem burstModem_resolved : burstModem.Resolved (7 / 1000) :=
  resolved_of_freqs (by decide) (by norm_num [burstModem]) (by norm_num [burstModem])
    (by norm_num [burstModem]) (by norm_num [burstModem])

/-! ## Bursts -/

theorem map_pinc (m : Modem ℝ) (bits : List UInt8) :
    bits.map (m.pinc realFloats) = (bits.map fun bit => decide (bit = 1)).map
      fun mark => if mark then m.markPinc realFloats else m.spacePinc realFloats := by
  rw [List.map_map]
  refine List.map_congr_left fun bit _ => ?_
  rw [Modem.pinc, Function.comp_apply]
  split <;> simp [*]

/-- A receiver hears all bits of a burst. -/
theorem demodulate_near (res : m.Resolved ε) (hopb : m.modulate realFloats msg = some opb)
    (hnear : Near ε xs opb) : demodulate ε m xs = (m.msgBits msg).map heard := by
  rw [Modem.modulate_eq res.one_le_sps, map_pinc] at hopb
  cases hopb
  rw [demodulate, symbols_of_near res.resolves _ hnear, List.map_map]
  refine List.map_congr_left fun bit _ => ?_
  simp only [Function.comp_apply, heard, decide_eq_true_eq]

theorem length_preamble (n : Int) : (preamble n).length = 2 * n.toNat := by
  simp [preamble, Nat.mul_comm]

/-- The bits of a message lie behind the preamble. -/
theorem drop_msgBits (m : Modem ℝ) (msg : List UInt8) :
    ((m.msgBits msg).map heard).drop (2 * m.preambleLenBits.toNat) = msg.map heard := by
  rw [Modem.msgBits]
  split
  next =>
    rw [List.map_append, List.drop_left']
    rw [List.length_map, length_preamble]
  next hzero =>
    rw [not_not.mp hzero]
    rfl

/-- Behind the preamble a receiver hears the message. -/
theorem receive_near (res : m.Resolved ε) (hopb : m.modulate realFloats msg = some opb)
    (hnear : Near ε xs opb) : receive ε m xs = msg.map heard := by
  rw [receive, demodulate_near res hopb hnear, drop_msgBits]

/-- Bits are heard as they are. -/
theorem map_heard (hbits : ∀ b ∈ bits, b = 0 ∨ b = 1) : bits.map heard = bits := by
  induction bits with
  | nil => rfl
  | cons b bits ih =>
      rw [List.map_cons, ih fun b hb => hbits b (List.mem_cons_of_mem _ hb)]
      rcases hbits b List.mem_cons_self with rfl | rfl <;> rfl

theorem near_refl (hε : 0 ≤ ε) (xs : List ℝ) : Near ε xs xs := by
  refine List.forall₂_same.mpr fun x _ => ?_
  rw [sub_self, abs_zero]
  exact hε

/-- Only what can be heard of the bytes is in the burst. -/
theorem modulate_heard (hsps : 1 ≤ m.sps) (msg : List UInt8) :
    m.modulate realFloats (msg.map heard) = m.modulate realFloats msg := by
  have hbyte : ∀ b, m.pinc realFloats (heard b) = m.pinc realFloats b := by
    intro b
    rw [Modem.pinc, Modem.pinc, heard]
    by_cases hb : b = 1 <;> simp [hb]
  have hbits : (m.msgBits (msg.map heard)).map (m.pinc realFloats) =
      (m.msgBits msg).map (m.pinc realFloats) := by
    rw [Modem.msgBits, Modem.msgBits]
    split <;> simp [Function.comp_def, hbyte]
  rw [Modem.modulate_eq hsps, Modem.modulate_eq hsps, hbits]

/-! ## Results -/

/-- Samples near the bursts of messages are received as the messages. -/
theorem map_receive {b : Basic ℝ} (res : b.modem.Resolved ε) {msgs : List (List UInt8)}
    {bursts received : List (List ℝ)}
    (hbursts : List.Forall₂ (Basic.Samples realFloats b) msgs bursts)
    (hnear : List.Forall₂ (Near ε) received bursts) :
    received.map (receive ε b.modem) = msgs.map fun msg => msg.map heard := by
  induction hbursts generalizing received with
  | nil =>
      cases hnear
      rfl
  | @cons msg burst msgs bursts hburst _ ih =>
      obtain ⟨opb, hopb, rfl⟩ := hburst
      cases hnear with
      | @cons xs _ received _ hxs hnear =>
          have hxs : Near ε xs opb := by
            rw [← List.map_id' opb]
            exact hxs
          rw [List.map_cons, List.map_cons, ih hnear, receive_near res hopb hxs]

/-- `afsk_basic_pdu` publishes one burst for each message, and of samples that are off
by at most `ε` a receiver gets back which bytes of which message are 1. -/
theorem bursts_received (res : m.Resolved ε) (msgs : List (Msg M)) :
    ∃ r, Transition.exec (Pdu.handleMsg realFloats m) Pdu.initial msgs = some r ∧
      r.2.published.map Prod.fst = msgs.map Msg.dict ∧
      ∀ received, List.Forall₂ (Near ε) received (r.2.published.map Prod.snd) →
        received.map (receive ε m) = msgs.map fun msg => msg.data.map heard := by
  obtain ⟨bursts, hbursts⟩ := Basic.samples_total realFloats (b := ⟨m, ""⟩) res.one_le_sps
    (msgs.map Msg.data)
  have hlength : msgs.length = bursts.length := by
    rw [← hbursts.length_eq, List.length_map]
  obtain ⟨r, hr, hpublished⟩ :=
    Pdu.exec_published (List.forall₂_map_left_iff.mp hbursts) (s := Pdu.initial) rfl
  have hpublished : r.2.published = (msgs.zip bursts).map fun p => (p.1.dict, p.2) := hpublished
  refine ⟨r, hr, ?_, ?_⟩
  · have hmsgs : (msgs.zip bursts).map Prod.fst = msgs := List.map_fst_zip (Nat.le_of_eq hlength)
    rw [hpublished, List.map_map]
    nth_rewrite 2 [← hmsgs]
    rw [List.map_map]
    rfl
  · intro received hnear
    have hbodies : r.2.published.map Prod.snd = bursts := by
      rw [hpublished, List.map_map]
      exact List.map_snd_zip (Nat.le_of_eq hlength.symm)
    rw [hbodies] at hnear
    rw [map_receive (b := ⟨m, ""⟩) res hbursts hnear, List.map_map]
    rfl

/-- Bits, and bytes that are not, in the flowgraphs with bursts. -/
theorem bursts_received_burstModem :
    ∃ r, Transition.exec (Pdu.handleMsg realFloats burstModem) Pdu.initial
        [⟨(), [1, 0, 1]⟩, ⟨(), [0x55, 1]⟩] = some r ∧
      r.2.published.map Prod.fst = [(), ()] ∧
      ∀ received, List.Forall₂ (Near (7 / 1000)) received (r.2.published.map Prod.snd) →
        received.map (receive (7 / 1000) burstModem) = [[1, 0, 1], [0, 1]] :=
  bursts_received burstModem_resolved [⟨(), [1, 0, 1]⟩, ⟨(), [0x55, 1]⟩]

/-- Two messages have the same burst exactly if the same bytes of them are 1. -/
theorem modulate_eq_iff (res : m.Resolved 0) (msg msg' : List UInt8) :
    m.modulate realFloats msg = m.modulate realFloats msg' ↔
      msg.map heard = msg'.map heard := by
  have hsps := res.one_le_sps
  constructor
  · intro hsame
    obtain ⟨opb, hopb⟩ := Modem.modulate_isSome realFloats hsps msg
    have hnear := near_refl (le_refl 0) opb
    rw [← receive_near res hopb hnear, receive_near res (hsame ▸ hopb) hnear]
  · intro hheard
    rw [← modulate_heard hsps msg, hheard, modulate_heard hsps msg']

/-- Of the bytes of a packet nothing is left but which of them are 1. -/
theorem modulate_eq_iff_packed :
    burstModem.modulate realFloats [0x55, 0xC3] = burstModem.modulate realFloats [0xAA, 0x66] ↔
      [0x55, 0xC3].map heard = [0xAA, 0x66].map heard :=
  modulate_eq_iff (burstModem_resolved.mono (by norm_num)) [0x55, 0xC3] [0xAA, 0x66]

end GsSDR.Afsk
