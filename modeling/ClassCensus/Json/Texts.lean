import ClassCensus.Json.Parser

/-!
# Values with their texts

What a document says once its strings are resolved, those that name members included.  One broken
string spoils the whole document.  Members of objects are looked up by their names.
-/

namespace ClassCensus.Json

mutual

/-- A value with its strings resolved. -/
def unquote? : Json Quoted → Option (Json String)
  | .null => some .null
  | .bool value => some (.bool value)
  | .number text => some (.number text)
  | .string quoted => do return .string (← unescape? quoted)
  | .array items => do return .array (← unquoteItems? items)
  | .object members => do return .object (← unquoteMembers? members)

def unquoteItems? : List (Json Quoted) → Option (List (Json String))
  | [] => some []
  | item :: items => do return (← item.unquote?) :: (← unquoteItems? items)

def unquoteMembers? : List (Quoted × Json Quoted) → Option (List (String × Json String))
  | [] => some []
  | (name, value) :: members => do
    return (← unescape? name, ← value.unquote?) :: (← unquoteMembers? members)

end

/-- The value of a document with its strings resolved. -/
def read? (document : List UInt8) : Option (Json String) := do
  (← parse? document).unquote?

/-- The value of the first member with a name. -/
def member? (name : String) : Json String → Option (Json String)
  | .object members => (members.find? fun member => member.1 = name).map Prod.snd
  | _ => none

/-- Whether a value is an object in which no name stands twice. -/
def IsRecord : Json String → Prop
  | .object members => (members.map Prod.fst).Nodup
  | _ => False

end ClassCensus.Json
