import Interchange.Decimal.Layout
import Interchange.Store.Kind
import Interchange.Text.ByteLiteral
import Interchange.Text.Quoted

/-!
# The display of values

The text of a value as a person reads it. A walk carries the containers that it is inside of; one
that it meets again is elided. The tag of a record is displayed by a walk of its own, which starts
afresh: a record that its own tag leads back to has no finite display.
-/

namespace Interchange.Store

/-- Floats have their shortest digits, in positional notation from `10 ^ -4` to below `10 ^ 16`. -/
def floatLayout : Decimal.Layout where
  plainFrom := -4
  plainBelow := 16
  pointZero := true
  plusSign := false
  tie := .up
  candidates := .both
  nan := "nan"
  positiveInfinity := "+inf"
  negativeInfinity := "-inf"

/-- What stands for a container inside itself. -/
def elided : Cell → String
  | .list _ _ => "[...]"
  | .dict _ _ => "\x7b...\x7d"
  | .set _ _ => "set(...)"
  | .mapping name _ _ => name ++ "(...)"
  | .extension e => e.typeName ++ "(...)"
  | .proxy native => native.typeName ++ "(...)"
  | _ => "..."

/-- Texts with a separator between them. -/
def joined (separator : List Char) : List (List Char) → List Char
  | [] => []
  | [text] => text
  | text :: rest => text ++ separator ++ joined separator rest

def commas (texts : List (List Char)) : List Char := joined [',', ' '] texts

/-- The display of a scalar. -/
def displayScalar : Value → List Char
  | .nothing => "None".toList
  | .bool true => "True".toList
  | .bool false => "False".toList
  | .int i => (toString i).toList
  | .float x => (floatLayout.write x).toList
  | .string s => (Text.quote s).toList
  | .bytes b => (Text.byteLiteral b).toList
  | .time t => t.text.toList
  | .object _ => []

/-- The display of a cell, given the display of its parts and of a record's tag. -/
def displayCell (part tag : Value → Option (List Char))
    (entriesOf : Ref → List (Value × Value)) : Cell → Option (List Char)
  | .list items _ => return '[' :: commas (← items.mapM part) ++ [']']
  | .tuple items =>
    return '(' :: commas (← items.mapM part) ++ (if items.length = 1 then [',', ')'] else [')'])
  | .set items _ => return "set([".toList ++ commas (← items.mapM part) ++ [']', ')']
  | .dict entries _ => dict entries
  | .record constructor fields => do
    let head ← match constructor with
      | .string s => pure s.toList
      | v => tag v
    let fields ← fields.mapM fun field =>
      return field.1.toList ++ [' ', '=', ' '] ++ (← part field.2)
    return head ++ '(' :: commas fields ++ [')']
  | .module name _ => return "<module ".toList ++ (Text.quote name).toList ++ ['>']
  | .function f => return "<built-in function ".toList ++ f.name.toList ++ ['>']
  | .mapping name ref _ => return name.toList ++ '(' :: (← dict (entriesOf ref)) ++ [')']
  | .extension e =>
    match e.contents with
    | some contents => return e.typeName.toList ++ '(' :: (← part contents) ++ [')']
    | none => return e.display.toList
  | .proxy native => return '<' :: native.typeName.toList ++ ['>']
where
  dict (entries : List (Value × Value)) : Option (List Char) := do
    let entries ← entries.mapM fun entry =>
      return (← part entry.1) ++ [':', ' '] ++ (← part entry.2)
    return '\x7b' :: commas entries ++ ['\x7d']

/-- The display by a walk of a bounded depth, inside the containers on `path`. -/
def displayWithin (store : Store) : Nat → List Ref → Value → Option (List Char)
  | depth, path, .object ref =>
    if path.contains ref then some (elided (store.cell ref)).toList
    else
      match depth with
      | 0 => none
      | depth + 1 =>
        displayCell (displayWithin store depth (ref :: path)) (displayWithin store depth [])
          store.dictEntries (store.cell ref)
  | _, _, v => some (displayScalar v)

/-- A depth that no display needs to exceed. -/
def displayBound (store : Store) : Nat := (store.size + 2) * (store.size + 2)

/-- The display of a value, or `none` when it has no end. -/
def display? (store : Store) (v : Value) : Option String :=
  (displayWithin store store.displayBound [] v).map String.ofList

/-- A string as it is, and any other value as it is displayed. -/
def text? (store : Store) : Value → Option String
  | .string s => some s
  | v => store.display? v

end Interchange.Store
