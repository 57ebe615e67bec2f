import GsSDR.HttpSource.Decode

/-!
# What the decode block does with any payload

The vector is made for one byte less than the loop writes, and for two bytes
less than nothing when the payload is shorter than 4 characters.  So the block
stays in range exactly when the prefix check ends the loop at once and the
payload is long enough (`inRange_iff`).

The check looks at the first two characters only.  Behind them every payload
passes, and whatever is not a digit is read as something
(`onlyWellFormed_iff`).
-/

namespace GsSDR

namespace HttpSource

open Cxx

/-- The size of the vector does not wrap, the vector can be made, the loop
writes inside it, and nothing is thrown. -/
def InRange (v : RecordVars) : Prop :=
  2 ≤ v.packetPayload.length / 2 ∧
    (∃ f, decode v.packetPayload = some f ∧ f.outOfRange = []) ∧ publish v ≠ none

/-- The prefix and an even number of hexadecimal digits. -/
def WellFormed (packetPayload : Str) : Prop :=
  ∃ digits, packetPayload = '0' :: 'x' :: digits ∧ digits.length % 2 = 0 ∧
    ∀ c ∈ digits, (hexVal c).isSome = true

/-- Only a well-formed payload is published.  One that has anything else behind
its prefix clears `ok`. -/
def OnlyWellFormed (v : RecordVars) : Prop :=
  (∀ pdus v', publish v = some (pdus, v') → pdus ≠ [] → WellFormed v.packetPayload) ∧
    (substr v.packetPayload 0 2 = ['0', 'x'] → ¬ WellFormed v.packetPayload →
      ∃ f, decode v.packetPayload = some f ∧ f.ok = false ∧ publish v = some ([], .reset))

variable {v : RecordVars} {s : Str}

/-- From 4 characters on the size does not wrap. -/
theorem vectorSize_of_le (hsize : s.length < 0x10000000000000000) (h4 : 4 ≤ s.length) :
    vectorSize s.length = s.length / 2 - 2 ∧ vectorSize s.length ≤ vectorMax := by
  rw [vectorSize, vectorMax]
  omega

/-! ## Results -/

/-- The block stays in range exactly if the payload has at least 4 characters
and no prefix. -/
theorem inRange_iff (hv : v.complete = true)
    (hsize : v.packetPayload.length < 0x10000000000000000) :
    InRange v ↔ 4 ≤ v.packetPayload.length ∧ substr v.packetPayload 0 2 ≠ ['0', 'x'] := by
  constructor
  · rintro ⟨hhalf, ⟨f, hf, hin⟩, _⟩
    have h4 : 4 ≤ v.packetPayload.length := by omega
    obtain ⟨heq, hle⟩ := vectorSize_of_le hsize h4
    refine ⟨h4, fun hprefixed => ?_⟩
    have hfill := fill_of_decode hf
    rw [fill, if_pos hle, heq] at hfill
    cases hfill
    exact decodeLoop_prefixed hprefixed (by omega) hin
  · rintro ⟨h4, hother⟩
    obtain ⟨_, hle⟩ := vectorSize_of_le hsize h4
    obtain ⟨f, hf, _, hnone⟩ := decode_unprefixed hother hle
    refine ⟨by omega, ⟨f, hf, hnone⟩, ?_⟩
    rw [publish, if_pos hv, hf]
    exact Option.some_ne_none _

theorem inRange_iff_unprefixed :
    InRange ⟨['T', 'C'], ['0', '1', 'A', 'B'], 1, 1, 0⟩ ↔
      4 ≤ ['0', '1', 'A', 'B'].length ∧ substr ['0', '1', 'A', 'B'] 0 2 ≠ ['0', 'x'] :=
  inRange_iff (v := ⟨['T', 'C'], ['0', '1', 'A', 'B'], 1, 1, 0⟩) (by decide) (by decide)

/-- The single byte of `0xAB` is written into an empty vector, which ends the process. -/
theorem inRange_fails_oneByte :
    (fill ['0', 'x', 'A', 'B']).map Filling.outOfRange = some [0] ∧
      decode ['0', 'x', 'A', 'B'] = none ∧
      ¬ ∀ v : RecordVars, v.complete = true →
        v.packetPayload.length < 0x10000000000000000 → InRange v := by
  have hended : decode ['0', 'x', 'A', 'B'] = none := rfl
  refine ⟨rfl, hended, fun hall => ?_⟩
  obtain ⟨_, ⟨f, hf, _⟩, _⟩ :=
    hall ⟨['T', 'C'], ['0', 'x', 'A', 'B'], 1, 1, 0⟩ (by decide) (by decide)
  rw [hended] at hf
  cases hf

/-- What is published is well formed exactly if the payload has no prefix or is
well formed. -/
theorem onlyWellFormed_iff (hv : v.complete = true) :
    OnlyWellFormed v ↔
      (substr v.packetPayload 0 2 = ['0', 'x'] → WellFormed v.packetPayload) := by
  constructor
  · rintro ⟨_, hclears⟩ hprefixed
    by_contra hbad
    obtain ⟨f, hf, hok, _⟩ := hclears hprefixed hbad
    have hfill := fill_of_decode hf
    have hsize : vectorSize v.packetPayload.length ≤ vectorMax := by
      by_contra hlarge
      rw [fill, if_neg hlarge] at hfill
      cases hfill
    obtain ⟨f', hf', _, hok'⟩ := fill_of_size hsize
    rw [hfill] at hf'
    cases hf'
    rw [hok'.mpr hprefixed] at hok
    cases hok
  · intro hwell
    refine ⟨fun pdus v' hpublish hsent => ?_, fun hprefixed hbad => absurd (hwell hprefixed) hbad⟩
    rcases publish_cases v with ⟨hno, _⟩ | ⟨_, _, hnone | hempty⟩ | ⟨_, hsendable, _⟩
    · rw [hv] at hno
      cases hno
    · rw [hnone] at hpublish
      cases hpublish
    · rw [hempty] at hpublish
      cases hpublish
      exact absurd rfl hsent
    · exact hwell hsendable.1

theorem onlyWellFormed_iff_twoBytes :
    OnlyWellFormed ⟨['T', 'C'], ['0', 'x', '0', '1', 'A', 'B'], 1, 1, 0⟩ ↔
      (substr ['0', 'x', '0', '1', 'A', 'B'] 0 2 = ['0', 'x'] →
        WellFormed ['0', 'x', '0', '1', 'A', 'B']) :=
  onlyWellFormed_iff (v := ⟨['T', 'C'], ['0', 'x', '0', '1', 'A', 'B'], 1, 1, 0⟩) (by decide)

/-- The payload `0x01-1` is sent. -/
theorem onlyWellFormed_fails_sign :
    (publish ⟨['T', 'C'], ['0', 'x', '0', '1', '-', '1'], 1, 1, 0⟩).map Prod.fst =
        some [⟨1, 1, 0, [0x01]⟩] ∧
      ¬ ∀ v : RecordVars, v.complete = true → OnlyWellFormed v := by
  have hsent : (publish ⟨['T', 'C'], ['0', 'x', '0', '1', '-', '1'], 1, 1, 0⟩).map Prod.fst =
      some [⟨1, 1, 0, [0x01]⟩] := rfl
  refine ⟨hsent, fun hall => ?_⟩
  obtain ⟨r, hr, hpdus⟩ := Option.map_eq_some_iff.mp hsent
  obtain ⟨digits, hdigits, _, hhex⟩ :=
    (hall _ rfl).1 r.1 r.2 hr (by rw [hpdus]; exact List.cons_ne_nil _ _)
  injection hdigits with _ hdigits
  injection hdigits with _ hdigits
  have hminus := hhex '-' (by rw [← hdigits]; simp)
  exact absurd hminus (by decide)

end HttpSource

end GsSDR
