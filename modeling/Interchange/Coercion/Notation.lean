import Interchange.Coercion

/-!
# Shapes in writing

A simple shape is written as its name, and `nullable<T>` and `either<A,B>` are built over others.
-/

namespace Interchange.Shape

/-- The shapes that are written as a name alone. -/
def simple : List (String × Shape) :=
  [("bool", bool), ("bigint", int), ("i64", int64), ("f64", float), ("string", string),
    ("bytes", bytes), ("list", list), ("dict", dict), ("set", set), ("tuple", tuple),
    ("callable", function), ("time", time), ("value", value), ("int_or_float", intOrFloat),
    ("string_or_bytes", stringOrBytes)]

/-- A shape at the beginning of a text, with the rest of it; the names nest at most so deep. -/
def read? : (depth : Nat) → List Char → Option (Shape × List Char)
  | 0, _ => none
  | depth + 1, text => do
    let name := String.ofList (text.takeWhile fun c => c.isAlphanum || c == '_')
    let rest := text.drop name.length
    match name, rest with
    | "nullable", '<' :: rest =>
      match ← read? depth rest with
      | (inner, '>' :: rest) => return (nullable inner, rest)
      | _ => none
    | "either", '<' :: rest =>
      match ← read? depth rest with
      | (first, ',' :: rest) =>
        match ← read? depth rest with
        | (second, '>' :: rest) => return (either first second, rest)
        | _ => none
      | _ => none
    | name, rest => return (← simple.lookup name, rest)

/-- The shape of a text. -/
def ofText? (text : String) : Option Shape :=
  match read? text.length text.toList with
  | some (shape, []) => some shape
  | _ => none

end Interchange.Shape
