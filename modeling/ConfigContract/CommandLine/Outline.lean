/-!
Values laid out for a reader: one part to a line, and parts inside parts indented.
-/

namespace ConfigContract

inductive Outline where
  | leaf (text : String)
  | record (name : String) (fields : List (String × Outline))
  | tagged (name : String) (content : Outline)
  | list (items : List Outline)

namespace Outline

def number (n : Nat) : Outline := .leaf (toString n)

def bool (value : Bool) : Outline := .leaf (if value then "true" else "false")

def optional : Option Outline → Outline
  | none => .leaf "None"
  | some content => .tagged "Some" content

def indent (depth : Nat) : String := String.ofList (List.replicate (4 * depth) ' ')

mutual

def render (depth : Nat) : Outline → String
  | .leaf text => text
  | .record name fields =>
      name ++ " \x7b\n" ++ renderFields (depth + 1) fields ++ indent depth ++ "\x7d"
  | .tagged name content =>
      name ++ "(\n" ++ indent (depth + 1) ++ render (depth + 1) content ++ ",\n" ++
        indent depth ++ ")"
  | .list [] => "[]"
  | .list (item :: rest) =>
      "[\n" ++ indent (depth + 1) ++ render (depth + 1) item ++ ",\n" ++
        renderItems (depth + 1) rest ++ indent depth ++ "]"

def renderFields (depth : Nat) : List (String × Outline) → String
  | [] => ""
  | (name, value) :: rest =>
      indent depth ++ name ++ ": " ++ render depth value ++ ",\n" ++ renderFields depth rest

def renderItems (depth : Nat) : List Outline → String
  | [] => ""
  | item :: rest => indent depth ++ render depth item ++ ",\n" ++ renderItems depth rest

end

end Outline

end ConfigContract
