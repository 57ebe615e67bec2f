import GsSDR.HttpSink.Telemetry
import GsSDR.HttpSource.Response
import GsSDR.WebSocketSink.Telemetry

/-!
# The records that the blocks emit

Three blocks emit records with integer fields: the telemetry of the two sinks and the
acknowledgement of a telecommand.  Each has a copy of the code that takes the quotes
off the numbers.  So in all of them a field keeps its quotes exactly if its value is
negative (`bare_iff_nonneg`).
-/

namespace GsSDR

open Cxx Json

/-- A record, by what its block makes it of. -/
inductive Emitted where
  | httpTelemetry (timestamp spacecraftId : Int) (dataUint8 : List UInt8)
  | webSocketTelemetry (stationId dateTime packetCounter spacecraftId : Int)
      (dataUint8 : List UInt8)
  | acknowledgement (a : HttpSource.Ack)

namespace Emitted

/-- The text that is sent. -/
def text (boost : Boost) : Emitted → Str
  | .httpTelemetry timestamp spacecraftId dataUint8 =>
      (HttpSink.telemetry boost timestamp spacecraftId dataUint8).str
  | .webSocketTelemetry stationId dateTime packetCounter spacecraftId dataUint8 =>
      (WebSocketSink.telemetry boost stationId dateTime packetCounter spacecraftId dataUint8).str
  | .acknowledgement a => HttpSource.createJsonResponse boost a

/-- The integer fields with their values. -/
def integers : Emitted → List (Str × Int)
  | .httpTelemetry timestamp spacecraftId dataUint8 =>
      HttpSink.integers timestamp spacecraftId dataUint8
  | .webSocketTelemetry stationId dateTime packetCounter spacecraftId dataUint8 =>
      WebSocketSink.integers stationId dateTime packetCounter spacecraftId dataUint8
  | .acknowledgement a => a.integers

/-- The members that a reader finds in the text. -/
def values : Emitted → List (Str × Value)
  | .httpTelemetry timestamp spacecraftId dataUint8 =>
      HttpSink.values timestamp spacecraftId dataUint8
  | .webSocketTelemetry stationId dateTime packetCounter spacecraftId dataUint8 =>
      WebSocketSink.values stationId dateTime packetCounter spacecraftId dataUint8
  | .acknowledgement a => a.values

/-- Every text is a JSON object, whatever the numbers are. -/
theorem readTyped_text {boost : Boost} (hboost : boost.Documented) (e : Emitted) :
    readTyped (e.text boost) = some e.values := by
  cases e with
  | httpTelemetry => exact HttpSink.readTyped_telemetry hboost
  | webSocketTelemetry => exact WebSocketSink.readTyped_telemetry _ _ _ _ _ hboost
  | acknowledgement a => exact HttpSource.readTyped_createJsonResponse hboost a

/-- A reader finds the integer fields under their keys. -/
theorem lookup_integer (e : Emitted) :
    ∀ p ∈ e.integers, e.values.lookup p.1 = some (numeral p.2) := by
  cases e with
  | httpTelemetry =>
      simp only [integers, HttpSink.integers, List.forall_mem_cons, List.not_mem_nil,
        false_imp_iff, implies_true, and_true]
      exact ⟨rfl, rfl, rfl, rfl, rfl⟩
  | webSocketTelemetry =>
      simp only [integers, WebSocketSink.integers, List.forall_mem_cons, List.not_mem_nil,
        false_imp_iff, implies_true, and_true]
      exact ⟨rfl, rfl, rfl, rfl, rfl⟩
  | acknowledgement a =>
      simp only [integers, HttpSource.Ack.integers, List.forall_mem_cons, List.not_mem_nil,
        false_imp_iff, implies_true, and_true]
      exact ⟨rfl, rfl⟩

/-- An integer field is a bare number in the text exactly if its value is not
negative. -/
theorem bare_iff_nonneg (boost : Boost) (hboost : boost.Documented) (e : Emitted) :
    ∀ p ∈ e.integers, BareNumber (e.text boost) p.1 p.2 ↔ 0 ≤ p.2 := by
  intro p hp
  exact bareNumber_iff (readTyped_text hboost e) (e.lookup_integer p hp)

/-- An acknowledgement for spacecraft -5, whose timestamp is bare. -/
theorem bare_iff_nonneg_acknowledged :
    (BareNumber ((acknowledgement ⟨1700000000000, -5⟩).text documentedBoost)
        HttpSource.timestampKey 1700000000000 ↔ (0 : Int) ≤ 1700000000000) ∧
      (BareNumber ((acknowledgement ⟨1700000000000, -5⟩).text documentedBoost)
        HttpSource.spacecraftIdKey (-5) ↔ (0 : Int) ≤ -5) :=
  ⟨bare_iff_nonneg documentedBoost documentedBoost_documented
      (acknowledgement ⟨1700000000000, -5⟩) (HttpSource.timestampKey, 1700000000000)
      List.mem_cons_self,
    bare_iff_nonneg documentedBoost documentedBoost_documented
      (acknowledgement ⟨1700000000000, -5⟩) (HttpSource.spacecraftIdKey, -5)
      (List.mem_cons_of_mem _ List.mem_cons_self)⟩

/-- The telemetry of spacecraft -5 has its id as a string. -/
theorem bare_fails_negative :
    documentedBoost.Documented ∧
      (httpTelemetry 1700000000000 (-5) [0x12, 0x34]).values.lookup HttpSink.spacecraftIdKey =
        some (.str ['-', '5']) ∧
      ¬ ∀ p ∈ (httpTelemetry 1700000000000 (-5) [0x12, 0x34]).integers,
        BareNumber ((httpTelemetry 1700000000000 (-5) [0x12, 0x34]).text documentedBoost)
          p.1 p.2 := by
  refine ⟨documentedBoost_documented, rfl, fun hall => ?_⟩
  have hmem : (HttpSink.spacecraftIdKey, (-5 : Int)) ∈
      (httpTelemetry 1700000000000 (-5) [0x12, 0x34]).integers := by
    simp [integers, HttpSink.integers]
  have hread := readTyped_text documentedBoost_documented
    (httpTelemetry 1700000000000 (-5) [0x12, 0x34])
  have hpos : (0 : Int) ≤ -5 :=
    (bareNumber_iff hread (lookup_integer _ _ hmem)).mp (hall _ hmem)
  exact absurd hpos (by decide)

end Emitted

end GsSDR
