import InterfaceHeader.Declaration.Basic

/-!
# Spelling of types

The canonical text of types and of declarations with them. The spelling of a function type shows
the types of its arguments only; a declaration shows their names too. A star is written at the
name it declares.
-/

namespace InterfaceHeader

/-- The spelling of a primitive type. -/
def Primitive.spelling (t : Primitive) : String :=
  (if t.isConst then "const " else "") ++ t.name ++ (if t.isPointer then " *" else "")

/-- A name declared with a primitive type. -/
def Primitive.declaring (t : Primitive) (name : String) : String :=
  if t.isPointer then t.spelling ++ name else t.spelling ++ " " ++ name

/-- A function pointer whose arguments are given as texts. -/
def functionText (returnType : Primitive) (name : String) (arguments : List String) : String :=
  returnType.spelling ++ " (*" ++ name ++ ")(" ++ String.intercalate ", " arguments ++ ")"

mutual

/-- The spelling of a type. -/
def CType.spelling : CType → String
  | .primitive t => t.spelling
  | .function t => t.spelling

/-- The spelling of a function type. -/
def FunctionType.spelling : FunctionType → String
  | ⟨returnType, name, arguments⟩ => functionText returnType name (typeSpellings arguments)

/-- The spellings of the types of arguments. -/
def typeSpellings : List Argument → List String
  | [] => []
  | ⟨type, _⟩ :: rest => type.spelling :: typeSpellings rest

end

/-- An argument with its name, if it has one. -/
def Argument.declaration : Argument → String
  | ⟨type, none⟩ => type.spelling
  | ⟨.primitive type, some name⟩ => type.declaring name
  | ⟨.function type, some name⟩ => type.spelling ++ " " ++ name

/-- A function type with the names of its arguments. -/
def FunctionType.declaration (f : FunctionType) : String :=
  functionText f.returnType f.name (f.arguments.map Argument.declaration)

theorem typeSpellings_eq_map (arguments : List Argument) :
    typeSpellings arguments = arguments.map fun a => a.type.spelling := by
  induction arguments with
  | nil => rfl
  | cons a rest ih =>
      obtain ⟨type, name⟩ := a
      simp [typeSpellings, ih]

end InterfaceHeader
