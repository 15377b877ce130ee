import InterfaceHeader.Declaration.Spelling
import InterfaceHeader.Declaration.View
import InterfaceHeader.Text.Decimal

/-!
# Canonical declarations

The text of a header without its layout: every declaration in canonical spelling, in order,
without comments, and each function once.
-/

namespace InterfaceHeader

/-- What an enumeration value is set to, behind its name. -/
def Initializer.text : Initializer → String
  | .int value => String.ofList (Decimal.write value.toInt)
  | .reference name => name

/-- The line of an enumeration value. -/
def EnumValue.text (v : EnumValue) : String :=
  "    " ++ v.name ++ ((v.value.map fun init => " = " ++ init.text).getD "") ++ ",\n"

/-- The lines of an enumeration. -/
def EnumDecl.text (e : EnumDecl) : String :=
  "typedef enum \x7b\n" ++ String.join (e.values.map EnumValue.text)
    ++ "\x7d" ++ ((e.name.map fun name => " " ++ name).getD "") ++ ";\n"

/-- The line of an alias. -/
def AliasDecl.text (a : AliasDecl) : String :=
  "typedef " ++ a.type.declaring a.name ++ ";\n"

/-- The line of a function pointer. -/
def FunctionType.text (f : FunctionType) : String :=
  "typedef " ++ f.declaration ++ ";\n"

/-- The line of a member of a structure. -/
def StructField.text : StructField → String
  | .data field => "    " ++ field.type.declaring field.name ++ ";\n"
  | .method field => "    " ++ field.function.declaration ++ ";\n"

/-- The lines of a structure. -/
def StructDecl.text (s : StructDecl) : String :=
  "typedef struct \x7b\n" ++ String.join (s.fields.map StructField.text)
    ++ "\x7d " ++ s.name ++ ";\n"

/-- The lines of a declaration; a comment has none. -/
def Declaration.text : Declaration → String
  | .comment _ => ""
  | .enum decl => decl.text
  | .typeAlias decl => decl.text
  | .function decl => decl.text
  | .struct decl => decl.text

/-- The declarations without functions whose name is `seen` or that of an earlier one. -/
def dropRepeated (seen : List String) : List Declaration → List Declaration
  | [] => []
  | .function f :: rest =>
    if f.name ∈ seen then dropRepeated seen rest
    else .function f :: dropRepeated (f.name :: seen) rest
  | d :: rest => d :: dropRepeated seen rest

/-- The canonical text of a header. -/
def Header.signatures (h : Header) : String :=
  String.join ((dropRepeated [] h.declarations).map Declaration.text)

end InterfaceHeader
