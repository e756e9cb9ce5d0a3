import Mathlib.Data.List.Basic

/-!
# JSON values

Parsed JSON with the `get` of Python's dictionaries.
-/

namespace RagFlow.Lib

inductive Json where
  | null
  | bool (value : Bool)
  | number (literal : String)
  | string (text : String)
  | array (items : List Json)
  | object (fields : List (String × Json))

abbrev Fields := List (String × Json)

namespace Fields

/-- `fields.get(key)`. -/
def get : Fields → String → Option Json
  | [], _ => none
  | (name, value) :: rest, key => if name = key then some value else get rest key

@[simp] theorem get_nil (key : String) : get [] key = none := rfl

end Fields

end RagFlow.Lib
