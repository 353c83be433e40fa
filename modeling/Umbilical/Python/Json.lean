import Umbilical.Python.Integers
import Umbilical.Shared.Dictionary

set_option autoImplicit false

namespace Umbilical.Python

inductive JsonFloat where
  | finite (value : Rat)
  | nan
  | infinite (negative : Bool)
  deriving DecidableEq

/-- A value `json.loads` returns. -/
inductive Json where
  | null
  | bool (value : Bool)
  | int (value : Int)
  | float (value : JsonFloat)
  | str (value : Str)
  | list (values : List Json)
  | dict (items : List (Str × Json))

/-- `bool(value)`. -/
def Json.truthy : Json → Bool
  | null => false
  | bool value => value
  | int value => value ≠ 0
  | float (.finite value) => value ≠ 0
  | float _ => true
  | str value => value ≠ []
  | list values => !values.isEmpty
  | dict items => !items.isEmpty

end Umbilical.Python
