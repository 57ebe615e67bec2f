import GsSDR.Lib.CxxText

/-!
# Bytes as hexadecimal text

`http_transfer_sink` renders the bytes of a packet, `http_transfer_source`
reads the two characters of a byte back.
-/

namespace GsSDR

open Cxx

/-- One byte of the payload in the sink's `packet_handler`. -/
def renderByte (c : UInt8) : Str := setw 2 '0' (hexDigits c.toNat)

/-- The payload in the sink's `packet_handler`, without the quotes around it. -/
def renderBytes (data : List UInt8) : Str := data.flatMap renderByte

/-- `string_to_uint8` of the source. -/
def stringToUint8 (str : Str) : UInt8 := UInt8.ofNat (extractHex16 str)

theorem renderByte_eq (c : UInt8) :
    renderByte c = [hexDigit (c.toNat / 16), hexDigit (c.toNat % 16)] :=
  setw_hexDigits c.toNat_lt

/-- The source reads a rendered byte back. -/
theorem stringToUint8_renderByte (c : UInt8) :
    stringToUint8 [hexDigit (c.toNat / 16), hexDigit (c.toNat % 16)] = c := by
  have hlt : c.toNat < 256 := c.toNat_lt
  rw [stringToUint8, extractHex16_digits (by omega) (by omega)]
  have hsplit : 16 * (c.toNat / 16) + c.toNat % 16 = c.toNat := by omega
  rw [hsplit, UInt8.ofNat_toNat]

theorem length_renderBytes (data : List UInt8) : (renderBytes data).length = 2 * data.length := by
  induction data with
  | nil => rfl
  | cons c data ih =>
      rw [renderBytes, List.flatMap_cons, List.length_append, renderByte_eq]
      rw [renderBytes] at ih
      rw [ih]
      simp only [List.length_cons, List.length_nil]
      omega

end GsSDR
