/-!
# The objects that every session begins with

Prototypes, from which objects take the properties that they do not have themselves, and functions.
None of them ever changes. The functions of the record prototype are there in full; of the others a
script of statements sees little more than that they are functions, and what comes of a call
without arguments.
-/

namespace Interchange.Script

/-- What comes of a function when it is called without arguments. -/
inductive EmptyCall where
  /-- A value that crosses the boundary. -/
  | plain
  | symbol
  | error
  | function
  /-- A thrown error with this message. -/
  | refused (message : String)
deriving DecidableEq, Repr

inductive BuiltinFunction where
  /-- Makes an object of a value. -/
  | objectOf
  /-- The kind of an object in brackets. -/
  | kindText
  /-- The text of an object by the object's own method for that. -/
  | ownText
  /-- The object itself. -/
  | itself
  | hasOwn
  | isPrototype
  | isEnumerable
  /-- Makes a property that is read or written by a function. -/
  | defineAccessor
  /-- Finds the function by which a property is read or written. -/
  | findAccessor
  /-- The texts of the elements of an array, with commas between them. -/
  | elementsText
  | functionText
  | errorText
  /-- A function of which calls without arguments are told. -/
  | initial (outcome : EmptyCall)
deriving DecidableEq, Repr

inductive Builtin where
  /-- The object whose properties are the globals of the session. -/
  | globals
  | recordPrototype
  | arrayPrototype
  | functionPrototype
  | errorPrototype
  /-- An object that holds functions for a purpose. -/
  | library
  | function (function : BuiltinFunction)
deriving DecidableEq, Repr

namespace BuiltinFunction

/-- A function of which nothing more is told. -/
def other : BuiltinFunction := initial .plain

/-- The functions of the prototype of records. -/
def ofRecords : List (String × BuiltinFunction) :=
  [("constructor", objectOf), ("toString", kindText), ("toLocaleString", ownText),
    ("valueOf", itself), ("hasOwnProperty", hasOwn), ("isPrototypeOf", isPrototype),
    ("propertyIsEnumerable", isEnumerable), ("__defineGetter__", defineAccessor),
    ("__defineSetter__", defineAccessor), ("__lookupGetter__", findAccessor),
    ("__lookupSetter__", findAccessor)]

/-- The functions of the prototype of arrays. -/
def ofArrays : List (String × BuiltinFunction) :=
  ("toString", elementsText) ::
    ["constructor", "at", "with", "concat", "every", "some", "forEach", "map", "filter", "reduce",
      "reduceRight", "fill", "find", "findIndex", "findLast", "findLastIndex", "indexOf",
      "lastIndexOf", "includes", "join", "toLocaleString", "pop", "push", "shift", "unshift",
      "reverse", "toReversed", "sort", "toSorted", "slice", "splice", "toSpliced", "copyWithin",
      "flatMap", "flat", "values", "keys", "entries"].map (·, other)

/-- The functions of the prototype of functions. -/
def ofFunctions : List (String × BuiltinFunction) :=
  [("toString", functionText), ("constructor", initial .function), ("call", other),
    ("apply", other), ("bind", other)]

/-- The functions of the prototype of errors. -/
def ofErrors : List (String × BuiltinFunction) :=
  [("toString", errorText), ("constructor", initial .error)]

/-- The refusal of a constructor that is called as a plain function. -/
def onlyNew : EmptyCall := .refused "must be called with new"

/-- The functions among the globals that a session begins with. -/
def ofGlobals : List (String × BuiltinFunction) :=
  [("Object", objectOf), ("Function", initial .function), ("Symbol", initial .symbol),
    ("BigInt", initial (.refused "cannot convert to BigInt")),
    ("AggregateError",
      initial (.refused "cannot read property 'Symbol.iterator' of undefined"))] ++
    ["Error", "EvalError", "RangeError", "ReferenceError", "SyntaxError", "TypeError", "URIError",
      "InternalError"].map (·, initial .error) ++
    ["Promise", "Proxy", "Map", "Set", "WeakMap", "WeakSet", "ArrayBuffer", "SharedArrayBuffer",
      "DataView", "Int8Array", "Uint8Array", "Uint8ClampedArray", "Int16Array", "Uint16Array",
      "Int32Array", "Uint32Array", "BigInt64Array", "BigUint64Array", "Float32Array",
      "Float64Array"].map (·, initial onlyNew) ++
    ["Array", "Boolean", "Date", "Number", "RegExp", "String", "__date_clock", "decodeURI",
      "decodeURIComponent", "encodeURI", "encodeURIComponent", "escape", "eval", "isFinite",
      "isNaN", "parseFloat", "parseInt", "unescape"].map (·, other)

end BuiltinFunction

/-- The libraries among the globals that a session begins with. -/
def libraryNames : List String := ["Math", "Reflect", "JSON", "Atomics"]

end Interchange.Script
