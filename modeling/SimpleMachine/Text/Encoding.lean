/-!
# SimpleMachine.Text.Encoding

The character encodings a program file may be written in, and strict decoding: the bytes as a
whole either have a text or have none.
-/

namespace SimpleMachine

inductive Encoding where
  /-- UTF-8; a byte order mark is kept as the character U+FEFF. -/
  | utf8
  /-- UTF-8 whose leading byte order mark, if there is one, is dropped. -/
  | utf8Marked
  | ascii
  | latin1
  deriving DecidableEq, Repr

namespace Encoding

def ofName? : String → Option Encoding
  | "utf-8" => some .utf8
  | "utf-8-sig" => some .utf8Marked
  | "ascii" => some .ascii
  | "latin-1" => some .latin1
  | _ => none

def decodeBytewise (bytes : ByteArray) : List Char :=
  bytes.toList.map fun b => Char.ofNat b.toNat

/-- The bytes without a leading UTF-8 byte order mark. A file that ends inside the mark holds
nothing but a part of it, which is dropped as well. -/
def dropMark (bytes : ByteArray) : ByteArray :=
  if bytes.toList ∈ [[0xEF], [0xEF, 0xBB]] then ByteArray.empty
  else if bytes.toList.take 3 = [0xEF, 0xBB, 0xBF] then bytes.extract 3 bytes.size
  else bytes

/-- The text that the bytes stand for, or nothing if any part of them is malformed. -/
def decode? (bytes : ByteArray) : Encoding → Option (List Char)
  | .utf8 => (String.fromUTF8? bytes).map String.toList
  | .utf8Marked => (String.fromUTF8? (dropMark bytes)).map String.toList
  | .ascii => if bytes.toList.all (· < 0x80) then some (decodeBytewise bytes) else none
  | .latin1 => some (decodeBytewise bytes)

theorem decode?_toUTF8 (s : String) : decode? s.toUTF8 .utf8 = some s.toList := by
  simp [decode?, String.fromUTF8?, String.toUTF8, s.isValidUTF8, String.fromUTF8]

end Encoding
end SimpleMachine
