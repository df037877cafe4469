/-!
# Dump values

The structured values in which a state is written down and read back.
-/

namespace Sm83.Dump

/-- A structured value. A number that is not an integer is known by its numeral alone, and an object
has the first of its entries under a name. -/
inductive Value where
  | null
  | bool (value : Bool)
  | int (value : Int)
  | real (numeral : String)
  | string (text : String)
  | list (items : List Value)
  | object (entries : List (String × Value))
deriving Repr, Inhabited

end Sm83.Dump
