import InterfaceHeader.Declaration.Basic
import InterfaceHeader.Json.Reader
import InterfaceHeader.Json.Writer
import InterfaceHeader.Text.Decimal

/-!
# Dumps

A header as JSON. Records are objects with their fields in a fixed order, a choice is an object
with one member whose key names it, and what is missing is null. `Header.dump` writes a header,
`Header.ofDump?` reads one back.

Reading is more generous than writing. The fields of a record may come in any order and among
unknown ones, or without their keys as an array of all of them; a field that may be missing may be
left out. At most `Dump.levels` arrays and objects may be open at once in what is read, while
unknown fields are passed over whatever they hold.
-/

namespace InterfaceHeader

open Json (Value)

namespace Dump

/-! ## Writing -/

/-- An object with the given members. -/
def record (members : List (String × Value)) : Value :=
  .object (members.map fun (key, value) => (some key, value))

/-- A choice and what it holds. -/
def choice (name : String) (value : Value) : Value :=
  record [(name, value)]

/-- A text. -/
def text (s : String) : Value := .string (some s)

/-- A text that may be missing. -/
def optionalText : Option String → Value
  | some s => text s
  | none => .null

/-- A primitive type. -/
def primitive (t : Primitive) : Value :=
  record [("is_const", .bool t.isConst), ("name", text t.name), ("is_pointer", .bool t.isPointer)]

mutual

/-- The type of an argument. -/
def type : CType → Value
  | .primitive t => choice "primitive" (primitive t)
  | .function t => choice "function" (function t)

/-- A function type. -/
def function : FunctionType → Value
  | ⟨returnType, name, args⟩ =>
    record [("return_type", primitive returnType), ("name", text name),
      ("arguments", .array (arguments args))]

/-- The arguments of a function type. -/
def arguments : List Argument → List Value
  | [] => []
  | ⟨t, name⟩ :: rest => record [("ty", type t), ("name", optionalText name)] :: arguments rest

end

/-- What an enumeration value is set to. -/
def initializer : Initializer → Value
  | .int value => choice "int" (.number (String.ofList (Decimal.write value.toInt)))
  | .reference name => choice "const_ref" (text name)

/-- A constant of an enumeration. -/
def enumValue (v : EnumValue) : Value :=
  record [("name", text v.name), ("value", (v.value.map initializer).getD .null),
    ("comment", optionalText v.comment)]

/-- A name declared with a primitive type. -/
def declared (type : Primitive) (name : String) : Value :=
  record [("ty", primitive type), ("name", text name)]

/-- A member of a structure. -/
def field : StructField → Value
  | .data f => choice "variable" (declared f.type f.name)
  | .method f =>
    choice "function"
      (record [("function", function f.function), ("comment", optionalText f.comment)])

/-- A declaration. -/
def declaration : Declaration → Value
  | .comment s => choice "comment" (text s)
  | .enum d =>
    choice "enum"
      (record [("name", optionalText d.name), ("values", .array (d.values.map enumValue))])
  | .typeAlias d => choice "alias" (declared d.type d.name)
  | .function d => choice "function" (function d)
  | .struct d =>
    choice "struct" (record [("name", text d.name), ("fields", .array (d.fields.map field))])

/-- A header. -/
def header (h : Header) : Value :=
  record [("exprs", .array (h.declarations.map declaration))]

/-! ## Reading

A decoder gets the number of arrays and objects that may still be opened, and opening one when
none is left fails. -/

/-- How many arrays and objects may be open at once. -/
def levels : Nat := 127

/-- Reads a value for which a number of levels is left. -/
abbrev Decoder (α : Type) := Nat → Value → Option α

/-- The field of an object that has it at most once: the value, or none if it is left out. -/
def member? (members : List (Json.Text × Value)) (key : String) : Option (Option Value) :=
  match members.filter fun m => m.1 == some key with
  | [] => some none
  | [(_, value)] => some (some value)
  | _ => none

/-- The fields of a record: an object with them among others, or an array of all of them. -/
def fields? (keys : List String) : Decoder (List (Option Value))
  | 0, _ => none
  | _ + 1, .object members =>
    if members.all (·.1.isSome) then keys.mapM (member? members) else none
  | _ + 1, .array items => if items.length = keys.length then some (items.map some) else none
  | _, _ => none

/-- The name of a choice and what it holds. -/
def choice? : Decoder (String × Value)
  | _ + 1, .object [(some name, value)] => some (name, value)
  | _, _ => none

/-- The items of an array. -/
def array? (item : Decoder α) : Decoder (List α)
  | levels + 1, .array items => items.mapM (item levels)
  | _, _ => none

/-- A truth value. -/
def bool? : Value → Option Bool
  | .bool b => some b
  | _ => none

/-- A text. -/
def text? : Value → Option String
  | .string s => s
  | _ => none

/-- A field that may be null or left out. -/
def optional? (decode : Value → Option α) : Option Value → Option (Option α)
  | none => some none
  | some .null => some none
  | some value => (decode value).map some

/-- An integer literal in the 64-bit range. A negative zero is no integer. -/
def int? : Value → Option Int64
  | .number literal => if literal = "-0" then none else Decimal.readWord? literal.toList
  | _ => none

/-- A primitive type. -/
def primitive? : Decoder Primitive := fun levels value => do
  match ← fields? ["is_const", "name", "is_pointer"] levels value with
  | [isConst, name, isPointer] =>
    return ⟨← isConst.bind bool?, ← name.bind text?, ← isPointer.bind bool?⟩
  | _ => none

/-- An argument whose type is read by `type`. -/
def argument? (type : Decoder CType) : Decoder Argument := fun levels value => do
  match ← fields? ["ty", "name"] levels value with
  | [t, name] => return ⟨← t.bind (type (levels - 1)), ← optional? text? name⟩
  | _ => none

/-- A function type whose arguments are read by `argument`. -/
def function? (argument : Decoder Argument) : Decoder FunctionType := fun levels value => do
  match ← fields? ["return_type", "name", "arguments"] levels value with
  | [returnType, name, arguments] =>
    return ⟨← returnType.bind (primitive? (levels - 1)), ← name.bind text?,
      ← arguments.bind (array? argument (levels - 1))⟩
  | _ => none

/-- A type in which function types nest at most so deep. -/
def typeAt? : Nat → Decoder CType
  | 0, _, _ => none
  | depth + 1, levels, value => do
    match ← choice? levels value with
    | ("primitive", value) => return .primitive (← primitive? (levels - 1) value)
    | ("function", value) =>
      return .function (← function? (argument? (typeAt? depth)) (levels - 1) value)
    | _ => none

/-- A type. Every function type in it takes a level of its own, so the levels that are left bound
    their nesting. -/
def type? : Decoder CType := fun levels value =>
  typeAt? levels levels value

/-- A function type. -/
def functionType? : Decoder FunctionType :=
  function? (argument? type?)

/-- What an enumeration value is set to. -/
def initializer? : Decoder Initializer := fun levels value => do
  match ← choice? levels value with
  | ("int", value) => return .int (← int? value)
  | ("const_ref", value) => return .reference (← text? value)
  | _ => none

/-- A constant of an enumeration. -/
def enumValue? : Decoder EnumValue := fun levels value => do
  match ← fields? ["name", "value", "comment"] levels value with
  | [name, init, comment] =>
    return ⟨← name.bind text?, ← optional? (initializer? (levels - 1)) init,
      ← optional? text? comment⟩
  | _ => none

/-- A name declared with a primitive type. -/
def declared? : Decoder (Primitive × String) := fun levels value => do
  match ← fields? ["ty", "name"] levels value with
  | [type, name] => return (← type.bind (primitive? (levels - 1)), ← name.bind text?)
  | _ => none

/-- A function pointer in a structure. -/
def method? : Decoder Method := fun levels value => do
  match ← fields? ["function", "comment"] levels value with
  | [f, comment] => return ⟨← f.bind (functionType? (levels - 1)), ← optional? text? comment⟩
  | _ => none

/-- A member of a structure. -/
def field? : Decoder StructField := fun levels value => do
  match ← choice? levels value with
  | ("variable", value) =>
    let (type, name) ← declared? (levels - 1) value
    return .data ⟨type, name⟩
  | ("function", value) => return .method (← method? (levels - 1) value)
  | _ => none

/-- An enumeration. -/
def enum? : Decoder EnumDecl := fun levels value => do
  match ← fields? ["name", "values"] levels value with
  | [name, values] =>
    return ⟨← optional? text? name, ← values.bind (array? enumValue? (levels - 1))⟩
  | _ => none

/-- A structure. -/
def struct? : Decoder StructDecl := fun levels value => do
  match ← fields? ["name", "fields"] levels value with
  | [name, fields] =>
    return ⟨← name.bind text?, ← fields.bind (array? field? (levels - 1))⟩
  | _ => none

/-- A declaration. -/
def declaration? : Decoder Declaration := fun levels value => do
  match ← choice? levels value with
  | ("comment", value) => return .comment (← text? value)
  | ("enum", value) => return .enum (← enum? (levels - 1) value)
  | ("alias", value) =>
    let (type, name) ← declared? (levels - 1) value
    return .typeAlias ⟨type, name⟩
  | ("function", value) => return .function (← functionType? (levels - 1) value)
  | ("struct", value) => return .struct (← struct? (levels - 1) value)
  | _ => none

/-- A header. -/
def header? : Decoder Header := fun levels value => do
  match ← fields? ["exprs"] levels value with
  | [declarations] => return ⟨← declarations.bind (array? declaration? (levels - 1))⟩
  | _ => none

end Dump

/-- The text of a header's dump. -/
def Header.dump (h : Header) : String :=
  (Dump.header h).write 0 ++ "\n"

/-- The header that a dump describes. -/
def Header.ofDump? (text : String) : Option Header :=
  (Json.parse? text.toList).bind (Dump.header? Dump.levels)

end InterfaceHeader
