import GsSDR.HexPayload
import GsSDR.HttpSink.Worker
import GsSDR.JsonText.Reading

/-!
# The telemetry record

`packet_handler` of `http_transfer_sink` writes a packet as a JSON object with
seven members and puts the text into `m_fifo`.  A reader of the text finds the
seven members (`read_telemetry`).  It gets all of them back as they were,
except that the packet length goes through an `int` and so is that of the
packet for packets of less than 2 GiB (`recovers_iff`).
-/

namespace GsSDR

namespace HttpSink

open Cxx Json

/-! ## The source -/

/-- A `size_t` stored in an `int`. -/
def toInt (n : Nat) : Int := (n : Int).bmod 0x100000000

def groundStation : Str := ['g', 'r', 'o', 'u', 'n', 'd', 'S', 't', 'a', 't', 'i', 'o', 'n']
def timestampKey : Str := ['t', 'i', 'm', 'e', 's', 't', 'a', 'm', 'p']
def crcOK : Str := ['c', 'r', 'c', 'O', 'K']
def packetNumber : Str := ['p', 'a', 'c', 'k', 'e', 't', 'N', 'u', 'm', 'b', 'e', 'r']
def packetLength : Str := ['p', 'a', 'c', 'k', 'e', 't', 'L', 'e', 'n', 'g', 't', 'h']
def payload : Str := ['p', 'a', 'y', 'l', 'o', 'a', 'd']
def spacecraftIdKey : Str := ['s', 'p', 'a', 'c', 'e', 'c', 'r', 'a', 'f', 't', 'I', 'd']

/-- The tree `oroot` of `packet_handler`.  The payload is put between quotes of
its own. -/
def oroot (timestamp spacecraftId : Int) (dataUint8 : List UInt8) : List (Str × Str) :=
  [(groundStation, toStr 0),
    (timestampKey, toStr timestamp),
    (crcOK, ['t', 'r', 'u', 'e']),
    (packetNumber, toStr 1),
    (packetLength, toStr (toInt dataUint8.length)),
    (payload, ['"'] ++ renderBytes dataUint8 ++ ['"']),
    (spacecraftIdKey, toStr spacecraftId)]

/-- The record that `packet_handler` puts into `m_fifo`. -/
def telemetry (boost : Boost) (timestamp spacecraftId : Int) (dataUint8 : List UInt8) :
    GrStorageWeb :=
  { flag := 0, str := createJsonString boost (oroot timestamp spacecraftId dataUint8) }

/-- The integer fields. -/
def integers (timestamp spacecraftId : Int) (dataUint8 : List UInt8) : List (Str × Int) :=
  [(groundStation, 0), (timestampKey, timestamp), (packetNumber, 1),
    (packetLength, toInt dataUint8.length), (spacecraftIdKey, spacecraftId)]

/-! ## What a reader gets back -/

/-- The bytes that pairs of hexadecimal digits write. -/
def hexPairs : Str → Option (List UInt8)
  | [] => some []
  | a :: b :: cs =>
      match hexVal a, hexVal b, hexPairs cs with
      | some x, some y, some bytes => some (UInt8.ofNat (16 * x + y) :: bytes)
      | _, _, _ => none
  | _ => none

/-- The keys of the record. -/
def keys : List Str :=
  [groundStation, timestampKey, crcOK, packetNumber, packetLength, payload, spacecraftIdKey]

/-- The text is a JSON object with the seven members, and their values, taken as
text, are those of the packet. -/
def Recovers (text : Str) (timestamp spacecraftId : Int) (bytes : List UInt8) : Prop :=
  ∃ fields, readObject text = some fields ∧
    fields.map Prod.fst = keys ∧
    (fields.lookup timestampKey).bind integer = some timestamp ∧
    (fields.lookup spacecraftIdKey).bind integer = some spacecraftId ∧
    (fields.lookup packetLength).bind integer = some (bytes.length : Int) ∧
    (fields.lookup payload).bind hexPairs = some bytes

/-! ## The leaves -/

/-- The leaves of the tree. -/
def leaves (timestamp spacecraftId : Int) (dataUint8 : List UInt8) : List (Str × Piece) :=
  [(groundStation, .str (toStr 0)),
    (timestampKey, .str (toStr timestamp)),
    (crcOK, .str ['t', 'r', 'u', 'e']),
    (packetNumber, .str (toStr 1)),
    (packetLength, .str (toStr (toInt dataUint8.length))),
    (payload, .inQuotes (renderBytes dataUint8)),
    (spacecraftIdKey, .str (toStr spacecraftId))]

theorem oroot_eq (timestamp spacecraftId : Int) (dataUint8 : List UInt8) :
    oroot timestamp spacecraftId dataUint8 =
      (leaves timestamp spacecraftId dataUint8).map fun m => (m.1, m.2.data) := rfl

theorem hexDigit_plain : ∀ {d : Nat}, d < 16 → isPlain (hexDigit d) = true := by
  decide

theorem renderBytes_plain (dataUint8 : List UInt8) :
    (renderBytes dataUint8).all isPlain = true := by
  rw [List.all_eq_true]
  intro c hc
  obtain ⟨b, _, hb⟩ := List.mem_flatMap.mp hc
  have hlt : b.toNat < 256 := b.toNat_lt
  rw [renderByte_eq] at hb
  rcases List.mem_cons.mp hb with rfl | hb
  · exact hexDigit_plain (by omega)
  · rw [List.mem_singleton.mp hb]
    exact hexDigit_plain (by omega)

/-- The rendered payload is read back. -/
theorem hexPairs_renderBytes (dataUint8 : List UInt8) :
    hexPairs (renderBytes dataUint8) = some dataUint8 := by
  induction dataUint8 with
  | nil => rfl
  | cons b bytes ih =>
      have hlt : b.toNat < 256 := b.toNat_lt
      have hhigh : hexVal (hexDigit (b.toNat / 16)) = some (b.toNat / 16) :=
        hexVal_hexDigit (by omega)
      have hlow : hexVal (hexDigit (b.toNat % 16)) = some (b.toNat % 16) :=
        hexVal_hexDigit (by omega)
      have hsplit : 16 * (b.toNat / 16) + b.toNat % 16 = b.toNat := by omega
      rw [renderBytes] at ih ⊢
      rw [List.flatMap_cons, renderByte_eq]
      simp only [List.cons_append, List.nil_append, hexPairs, hhigh, hlow, ih, hsplit,
        UInt8.ofNat_toNat]

theorem keys_ok : ∀ key ∈ keys, KeyOk key := by
  simp only [keys, List.forall_mem_cons, List.not_mem_nil, false_imp_iff, implies_true, and_true]
  exact ⟨⟨rfl, rfl, rfl⟩, ⟨rfl, rfl, rfl⟩, ⟨rfl, rfl, rfl⟩, ⟨rfl, rfl, rfl⟩, ⟨rfl, rfl, rfl⟩,
    ⟨rfl, rfl, rfl⟩, ⟨rfl, rfl, rfl⟩⟩

theorem leaves_ok (timestamp spacecraftId : Int) (dataUint8 : List UInt8) :
    ∀ m ∈ leaves timestamp spacecraftId dataUint8, LeafOk m := by
  have hkeys := keys_ok
  simp only [keys, leaves, List.forall_mem_cons, List.not_mem_nil, false_imp_iff, implies_true,
    and_true] at hkeys ⊢
  obtain ⟨hstation, htime, hcrc, hnumber, hlength, hpayload, hspacecraft⟩ := hkeys
  exact ⟨leafOk_number hstation 0, leafOk_number htime timestamp, leafOk_true hcrc,
    leafOk_number hnumber 1, leafOk_number hlength (toInt dataUint8.length),
    leafOk_inQuotes hpayload (renderBytes_plain dataUint8), leafOk_number hspacecraft spacecraftId⟩

/-! ## Reading the record -/

/-- What a reader finds. -/
def fields (timestamp spacecraftId : Int) (dataUint8 : List UInt8) : List (Str × Str) :=
  [(groundStation, toStr 0),
    (timestampKey, toStr timestamp),
    (crcOK, ['t', 'r', 'u', 'e']),
    (packetNumber, toStr 1),
    (packetLength, toStr (toInt dataUint8.length)),
    (payload, renderBytes dataUint8),
    (spacecraftIdKey, toStr spacecraftId)]

/-- The members of the object. -/
def values (timestamp spacecraftId : Int) (dataUint8 : List UInt8) : List (Str × Value) :=
  [(groundStation, numeral 0),
    (timestampKey, numeral timestamp),
    (crcOK, .bare ['t', 'r', 'u', 'e']),
    (packetNumber, numeral 1),
    (packetLength, numeral (toInt dataUint8.length)),
    (payload, .str (renderBytes dataUint8)),
    (spacecraftIdKey, numeral spacecraftId)]

variable {boost : Boost} {timestamp spacecraftId : Int} {dataUint8 : List UInt8}

theorem leaves_result :
    (leaves timestamp spacecraftId dataUint8).map (fun m => (m.1, m.2.result)) =
      values timestamp spacecraftId dataUint8 := by
  simp only [leaves, List.map_cons, List.map_nil, result_toStr]
  rfl

theorem values_text :
    (values timestamp spacecraftId dataUint8).map (fun m => (m.1, m.2.text)) =
      fields timestamp spacecraftId dataUint8 := by
  simp only [values, List.map_cons, List.map_nil, text_numeral]
  rfl

/-- The text is a JSON object with these members. -/
theorem readTyped_telemetry (hboost : boost.Documented) :
    readTyped (telemetry boost timestamp spacecraftId dataUint8).str =
      some (values timestamp spacecraftId dataUint8) := by
  have hne : leaves timestamp spacecraftId dataUint8 ≠ [] := List.cons_ne_nil _ _
  rw [telemetry, oroot_eq, readTyped_createJsonString hboost hne (leaves_ok _ _ _),
    leaves_result]

/-- Without the kinds of the values, these are its members. -/
theorem read_telemetry (hboost : boost.Documented) :
    readObject (telemetry boost timestamp spacecraftId dataUint8).str =
      some (fields timestamp spacecraftId dataUint8) := by
  rw [readObject_eq, readTyped_telemetry hboost, Option.map_some, texts, values_text]

/-- Everything but the packet length comes back. -/
theorem recovers_iff_length (hboost : boost.Documented) :
    Recovers (telemetry boost timestamp spacecraftId dataUint8).str timestamp spacecraftId
        dataUint8 ↔ toInt dataUint8.length = dataUint8.length := by
  have hlength : (fields timestamp spacecraftId dataUint8).lookup packetLength =
      some (toStr (toInt dataUint8.length)) := rfl
  constructor
  · rintro ⟨found, hread, _, _, _, hfound, _⟩
    rw [read_telemetry hboost] at hread
    cases hread
    rw [hlength, Option.bind_some, integer_toStr] at hfound
    exact Option.some.inj hfound
  · intro h
    refine ⟨fields timestamp spacecraftId dataUint8, read_telemetry hboost, rfl, ?_, ?_, ?_, ?_⟩
    · exact integer_toStr timestamp
    · exact integer_toStr spacecraftId
    · rw [hlength, Option.bind_some, integer_toStr, h]
    · exact hexPairs_renderBytes dataUint8

/-- A length survives the `int` if it is less than 2 GiB. -/
theorem toInt_eq_iff (n : Nat) : toInt n = n ↔ n < 2 ^ 31 := by
  unfold toInt
  rw [Int.bmod_def]
  omega

/-- A reader recovers the packet from its record exactly if the packet has less
than 2 GiB. -/
theorem recovers_iff (boost : Boost) (hboost : boost.Documented) (timestamp spacecraftId : Int)
    (dataUint8 : List UInt8) :
    Recovers (telemetry boost timestamp spacecraftId dataUint8).str timestamp spacecraftId
        dataUint8 ↔ dataUint8.length < 2 ^ 31 := by
  rw [recovers_iff_length hboost, toInt_eq_iff]

/-- A packet whose digits look like a number. -/
theorem recovers_iff_decimal :
    Recovers (telemetry documentedBoost 1700000000000 (-5) [0x12, 0x34]).str 1700000000000 (-5)
        [0x12, 0x34] ↔ [(0x12 : UInt8), 0x34].length < 2 ^ 31 :=
  recovers_iff documentedBoost documentedBoost_documented 1700000000000 (-5) [0x12, 0x34]

/-- The length of a packet of 2 GiB gets negative. -/
theorem recovers_fails_twoGiB :
    ¬ Recovers (telemetry documentedBoost 0 0 (List.replicate (2 ^ 31) 0)).str 0 0
        (List.replicate (2 ^ 31) 0) := by
  rw [recovers_iff_length documentedBoost_documented, List.length_replicate, toInt_eq_iff]
  omega

end HttpSink

end GsSDR
