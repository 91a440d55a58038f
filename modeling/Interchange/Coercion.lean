import Interchange.Store.Kind
import Interchange.Fault
import Interchange.Text.Utf8

/-!
# Coercion

A `Shape` says what a receiver takes and `Shape.Carrier` what it then holds. `unpack` passes
exactly the values of the shape; every refusal names the type that came and the shape that was
wanted.
-/

namespace Interchange

inductive Shape where
  | bool
  | int
  /-- An integer of 64 bits. -/
  | int64
  | float
  | string
  | bytes
  | list
  | dict
  | set
  | tuple
  | function
  | time
  | value
  | intOrFloat
  | stringOrBytes
  | nullable (inner : Shape)
  | either (first second : Shape)
deriving DecidableEq, Repr

/-- A text or bytes, as bytes. -/
structure StringOrBytes where
  bytes : List UInt8
  isBytes : Bool
deriving DecidableEq, Repr

/-- The text that the bytes stand for. -/
def StringOrBytes.text (s : StringOrBytes) : String := Text.decodeLossy s.bytes

/-- One of two alternatives, or neither. -/
inductive Either (α β : Type) where
  | neither
  | left (value : α)
  | right (value : β)
deriving DecidableEq, Repr

namespace Either

variable {α β : Type}

def isNeither : Either α β → Bool
  | neither => true
  | _ => false

def left? : Either α β → Option α
  | left a => some a
  | _ => none

def right? : Either α β → Option β
  | right b => some b
  | _ => none

end Either

namespace Shape

/-- What is held of a value of the shape. -/
def Carrier : Shape → Type
  | bool => Bool
  | int => Int
  | int64 => Int
  | float => Binary64
  | string => String
  | bytes => List UInt8
  | list => Ref
  | dict => Ref
  | set => Ref
  | tuple => Ref
  | function => Ref
  | time => Instant
  | value => Value
  | intOrFloat => Binary64
  | stringOrBytes => StringOrBytes
  | nullable inner => Option inner.Carrier
  | either first second => Either first.Carrier second.Carrier

/-- The words for the shape. -/
def expected : Shape → String
  | bool => "bool"
  | int => "int"
  | int64 => "int"
  | float => "float"
  | string => "string"
  | bytes => "bytes"
  | list => "list"
  | dict => "dict"
  | set => "set"
  | tuple => "tuple"
  | function => "callable"
  | time => "time"
  | value => "value"
  | intOrFloat => "int or float"
  | stringOrBytes => "string or bytes"
  | nullable inner => inner.expected ++ " or None"
  | either first second => first.expected ++ " or " ++ second.expected ++ " or None"

/-- The words for the alternative that was taken. -/
def alternative (first second : Shape) {α β : Type} : Either α β → String
  | .neither => "Null"
  | .left _ => first.expected
  | .right _ => second.expected

end Shape

namespace Store

/-- The refusal of a value for a shape. -/
def refusal {α : Type} (store : Store) (shape : Shape) (v : Value) : Except Mismatch α :=
  .error ⟨store.typeName v, shape.expected⟩

/-- The reference of a value whose cell passes a test. -/
def unpackCell (store : Store) (shape : Shape) (test : Cell → Bool) (v : Value) :
    Except Mismatch Ref :=
  match v with
  | .object ref => if test (store.cell ref) then .ok ref else store.refusal shape v
  | _ => store.refusal shape v

/-- What a receiver of a shape holds of a value. -/
def unpack (store : Store) : (shape : Shape) → Value → Except Mismatch shape.Carrier
  | .bool, v =>
    match v with
    | .bool b => .ok b
    | _ => store.refusal .bool v
  | .int, v =>
    match v with
    | .int i => .ok i
    | _ => store.refusal .int v
  | .int64, v =>
    match v with
    | .int i =>
      if Binary64.fitsInt64 i then .ok i
      else .error ⟨"int (out of range)", "int in 64-bit range"⟩
    | _ => store.refusal .int64 v
  | .float, v =>
    match v with
    | .float x => .ok x
    | _ => store.refusal .float v
  | .string, v =>
    match v with
    | .string s => .ok s
    | _ => store.refusal .string v
  | .bytes, v =>
    match v with
    | .bytes b => .ok b
    | _ => store.refusal .bytes v
  | .time, v =>
    match v with
    | .time t => .ok t
    | _ => store.refusal .time v
  | .value, v => .ok v
  | .list, v => store.unpackCell .list (fun | .list _ _ => true | _ => false) v
  | .dict, v => store.unpackCell .dict (fun | .dict _ _ => true | _ => false) v
  | .set, v => store.unpackCell .set (fun | .set _ _ => true | _ => false) v
  | .tuple, v => store.unpackCell .tuple (fun | .tuple _ => true | _ => false) v
  | .function, v => store.unpackCell .function (fun | .function _ => true | _ => false) v
  | .intOrFloat, v =>
    match v with
    | .int i => .ok (Binary64.ofInt i)
    | .float x => .ok x
    | _ => store.refusal .intOrFloat v
  | .stringOrBytes, v =>
    match v with
    | .string s => .ok ⟨Text.utf8 s, false⟩
    | .bytes b => .ok ⟨b, true⟩
    | _ => store.refusal .stringOrBytes v
  | .nullable inner, v =>
    match v with
    | .nothing => .ok none
    | _ =>
      match unpack store inner v with
      | .ok held => .ok (some held)
      | .error _ => store.refusal (.nullable inner) v
  | .either first second, v =>
    match v with
    | .nothing => .ok .neither
    | _ =>
      match unpack store first v with
      | .ok held => .ok (.left held)
      | .error _ =>
        match unpack store second v with
        | .ok held => .ok (.right held)
        | .error _ => store.refusal (.either first second) v

end Store
end Interchange
