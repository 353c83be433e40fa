import Umbilical.Python.Value

set_option autoImplicit false

namespace Umbilical.Execution

open Python

/-- Bytes behind their length in eight bytes. -/
def frame (bytes : List UInt8) : List UInt8 := bigEndian 8 bytes.length ++ bytes

/-- Texts whose frame holds the true length. -/
def framable : Set Text := {text | (utf8 text).length < 2 ^ 64}

def frameText (text : Text) : List UInt8 := frame (utf8 text)

theorem count_delimited : SelfDelimiting {value | value < 2 ^ 64} (bigEndian 8) := by
  have sizes : {value : Nat | value < 2 ^ 64} = {value | value < 256 ^ 8} := by norm_num
  rw [sizes]
  exact bigEndian_delimited 8

theorem frameText_delimited : SelfDelimiting framable frameText :=
  (SelfDelimiting.framed count_delimited).comap utf8 (fun _ small => small) utf8_injective.injOn

end Umbilical.Execution
