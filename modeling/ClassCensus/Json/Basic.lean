/-!
# JSON values

Objects keep their members in order, and numbers keep their text, so that writing a value and
reading it back loses nothing.  Strings are of a type of their own: a value to be written holds
texts, a value that was read holds quoted octets (`Json.Quoted`), because strings that nobody
looks at may be broken.
-/

namespace ClassCensus

/-- A JSON value with strings of type `σ`, and with numbers as they are written. -/
inductive Json (σ : Type) where
  | null
  | bool (value : Bool)
  | number (text : String)
  | string (text : σ)
  | array (items : List (Json σ))
  | object (members : List (σ × Json σ))

end ClassCensus
