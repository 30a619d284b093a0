import ClassCensus.Json.Basic
import ClassCensus.Json.Quoted

/-!
# Writing JSON

The blanks between the parts of a value are a spacing.  A report is spread over several lines: every
item and member stands on a line of its own, two blanks further in than the brackets around it.  A
compact text has no blanks at all.  Arrays and objects without content are written as a pair of
brackets in either.
-/

namespace ClassCensus.Json

def blankCharacters : List Char := [' ', '\t', '\n', '\r']

/-- The blanks that are written between the parts of a value: in front of items, members and closing
brackets, and in front of the value of a member. -/
structure Spacing where
  line : (depth : Nat) → List Char
  gap : List Char
  line_blank : ∀ depth, ∀ c ∈ line depth, c ∈ blankCharacters
  gap_blank : ∀ c ∈ gap, c ∈ blankCharacters

namespace Spacing

/-- New lines, indented. -/
def indented : Spacing where
  line depth := '\n' :: List.replicate (2 * depth) ' '
  gap := [' ']
  line_blank := by simp [blankCharacters]
  gap_blank := by simp [blankCharacters]

def compact : Spacing where
  line _ := []
  gap := []
  line_blank := by simp
  gap_blank := by simp

end Spacing

def quoted (text : String) : List Char := '"' :: (escape text.toList ++ ['"'])

section Render

variable (spacing : Spacing)

mutual

/-- A value as text; the line it starts on is indented for `depth`. -/
def render (depth : Nat) : Json String → List Char
  | .null => "null".toList
  | .bool true => "true".toList
  | .bool false => "false".toList
  | .number text => text.toList
  | .string text => quoted text
  | .array [] => ['[', ']']
  | .array (first :: others) =>
    '[' :: (spacing.line (depth + 1) ++ (render (depth + 1) first ++
      (renderItems (depth + 1) others ++ (spacing.line depth ++ [']']))))
  | .object [] => ['\x7b', '\x7d']
  | .object ((name, first) :: others) =>
    '\x7b' :: (spacing.line (depth + 1) ++ (quoted name ++ (':' :: (spacing.gap ++
      (render (depth + 1) first ++
        (renderMembers (depth + 1) others ++ (spacing.line depth ++ ['\x7d'])))))))

/-- The items behind the first one. -/
def renderItems (depth : Nat) : List (Json String) → List Char
  | [] => []
  | item :: items =>
    ',' :: (spacing.line depth ++ (render depth item ++ renderItems depth items))

def renderMembers (depth : Nat) : List (String × Json String) → List Char
  | [] => []
  | (name, value) :: members =>
    ',' :: (spacing.line depth ++ (quoted name ++ (':' :: (spacing.gap ++
      (render depth value ++ renderMembers depth members)))))

end

end Render

/-- A value as text on several lines. -/
def pretty (value : Json String) : String := String.ofList (render .indented 0 value)

/-- A value as text without blanks. -/
def compact (value : Json String) : String := String.ofList (render .compact 0 value)

end ClassCensus.Json
