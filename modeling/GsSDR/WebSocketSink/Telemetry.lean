import GsSDR.HttpSink.Telemetry
import GsSDR.JsonText.Reading

/-!
# The telemetry record of the WebSocket sink

`packet_handler` of `websocket_transfer_sink` has a copy of the steps of
`create_json_string`, without the last one.  So the payload, which has quotes of its
own, keeps them inside the string (`readTyped_telemetry`).
-/

namespace GsSDR

namespace WebSocketSink

open Cxx Rewrite Json
open HttpSink (toInt groundStation crcOK packetNumber packetLength spacecraftIdKey)

/-! ## The source -/

def dateTimeKey : Str := ['d', 'a', 't', 'e', 'T', 'i', 'm', 'e']
def packetData : Str := ['p', 'a', 'c', 'k', 'e', 't', 'D', 'a', 't', 'a']

/-- The tree `oroot` of `packet_handler`, for the value that `m_packetCounter` has
before its increment. -/
def oroot (stationId dateTime packetCounter spacecraftId : Int) (dataUint8 : List UInt8) :
    List (Str × Str) :=
  [(groundStation, toStr stationId),
    (dateTimeKey, toStr dateTime),
    (crcOK, ['t', 'r', 'u', 'e']),
    (packetNumber, toStr packetCounter),
    (packetLength, toStr (toInt dataUint8.length)),
    (packetData, ['"'] ++ ['0', 'x'] ++ renderBytes dataUint8 ++ ['"']),
    (spacecraftIdKey, toStr spacecraftId)]

/-- The record that `packet_handler` puts into `m_fifo`. -/
def telemetry (boost : Boost) (stationId dateTime packetCounter spacecraftId : Int)
    (dataUint8 : List UInt8) : GrStorageWeb :=
  let json := boost.writeJson (oroot stationId dateTime packetCounter spacecraftId dataUint8)
  let jsonCorection1 := replaceAll reg json
  let jsonCorection2 := replaceAll reg2 jsonCorection1
  { flag := 0, str := jsonCorection2 }

/-- The integer fields. -/
def integers (stationId dateTime packetCounter spacecraftId : Int) (dataUint8 : List UInt8) :
    List (Str × Int) :=
  [(groundStation, stationId), (dateTimeKey, dateTime), (packetNumber, packetCounter),
    (packetLength, toInt dataUint8.length), (spacecraftIdKey, spacecraftId)]

/-! ## The leaves -/

section

variable (stationId dateTime packetCounter spacecraftId : Int) (dataUint8 : List UInt8)

/-- The leaves of the tree. -/
def leaves : List (Str × Piece) :=
  [(groundStation, .str (toStr stationId)),
    (dateTimeKey, .str (toStr dateTime)),
    (crcOK, .str ['t', 'r', 'u', 'e']),
    (packetNumber, .str (toStr packetCounter)),
    (packetLength, .str (toStr (toInt dataUint8.length))),
    (packetData, .inQuotes (['0', 'x'] ++ renderBytes dataUint8)),
    (spacecraftIdKey, .str (toStr spacecraftId))]

/-- The members that a reader finds. -/
def values : List (Str × Value) :=
  [(groundStation, numeral stationId),
    (dateTimeKey, numeral dateTime),
    (crcOK, .bare ['t', 'r', 'u', 'e']),
    (packetNumber, numeral packetCounter),
    (packetLength, numeral (toInt dataUint8.length)),
    (packetData, .str (quoted (['0', 'x'] ++ renderBytes dataUint8))),
    (spacecraftIdKey, numeral spacecraftId)]

theorem oroot_eq :
    oroot stationId dateTime packetCounter spacecraftId dataUint8 =
      (leaves stationId dateTime packetCounter spacecraftId dataUint8).map
        fun m => (m.1, m.2.data) := rfl

theorem packetData_plain : (['0', 'x'] ++ renderBytes dataUint8).all isPlain = true := by
  rw [List.all_append, HttpSink.renderBytes_plain]
  rfl

theorem leaves_ok :
    ∀ m ∈ leaves stationId dateTime packetCounter spacecraftId dataUint8, LeafOk m := by
  simp only [leaves, List.forall_mem_cons, List.not_mem_nil, false_imp_iff, implies_true,
    and_true]
  exact ⟨leafOk_number ⟨rfl, rfl, rfl⟩ stationId, leafOk_number ⟨rfl, rfl, rfl⟩ dateTime,
    leafOk_true ⟨rfl, rfl, rfl⟩, leafOk_number ⟨rfl, rfl, rfl⟩ packetCounter,
    leafOk_number ⟨rfl, rfl, rfl⟩ (toInt dataUint8.length),
    leafOk_inQuotes ⟨rfl, rfl, rfl⟩ (packetData_plain dataUint8),
    leafOk_number ⟨rfl, rfl, rfl⟩ spacecraftId⟩

theorem unquoted_found :
    (leaves stationId dateTime packetCounter spacecraftId dataUint8).map
        (fun m => (m.1, m.2.unquoted.found)) =
      values stationId dateTime packetCounter spacecraftId dataUint8 := by
  simp only [leaves, List.map_cons, List.map_nil, (unquoted_number _).2]
  rfl

/-- The text is a JSON object with these members. -/
theorem readTyped_telemetry {boost : Boost} (hboost : boost.Documented) :
    readTyped (telemetry boost stationId dateTime packetCounter spacecraftId dataUint8).str =
      some (values stationId dateTime packetCounter spacecraftId dataUint8) := by
  have hne : leaves stationId dateTime packetCounter spacecraftId dataUint8 ≠ [] :=
    List.cons_ne_nil _ _
  have hread := readTyped_unquoted hboost hne
    (leaves_ok stationId dateTime packetCounter spacecraftId dataUint8)
  rw [unquoted_found] at hread
  exact hread

end

end WebSocketSink

end GsSDR
