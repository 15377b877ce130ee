/-!
# Declarations

What a header declares: enumerations, aliases, function pointers and structures, with the
comments between them, in the order in which they stand. Function types nest through their
arguments, everything else is flat.
-/

namespace InterfaceHeader

/-- A named type, perhaps constant, perhaps a pointer to it. -/
structure Primitive where
  isConst : Bool
  name : String
  isPointer : Bool
deriving DecidableEq

mutual

/-- The type of an argument. -/
inductive CType where
  | primitive (type : Primitive)
  | function (type : FunctionType)

/-- A pointer to a function, with the name it is declared under. -/
structure FunctionType where
  returnType : Primitive
  name : String
  arguments : List Argument

/-- An argument of a function; its name may be left out. -/
structure Argument where
  type : CType
  name : Option String

end

/-- What an enumeration value is set to. -/
inductive Initializer where
  | int (value : Int64)
  /-- The value of another constant. -/
  | reference (name : String)
deriving DecidableEq

/-- A constant of an enumeration, with the comment that belongs to it. -/
structure EnumValue where
  name : String
  value : Option Initializer
  comment : Option String
deriving DecidableEq

/-- An enumeration; its name may be left out. -/
structure EnumDecl where
  name : Option String
  values : List EnumValue
deriving DecidableEq

/-- A new name for a type. -/
structure AliasDecl where
  type : Primitive
  name : String
deriving DecidableEq

/-- A data member of a structure. -/
structure Variable where
  type : Primitive
  name : String
deriving DecidableEq

/-- A function pointer in a structure, with the comment that belongs to it. -/
structure Method where
  function : FunctionType
  comment : Option String

/-- A member of a structure. -/
inductive StructField where
  | data (field : Variable)
  | method (field : Method)

/-- A structure. -/
structure StructDecl where
  name : String
  fields : List StructField

/-- A part of a header. -/
inductive Declaration where
  /-- A comment between declarations. -/
  | comment (text : String)
  | enum (decl : EnumDecl)
  | typeAlias (decl : AliasDecl)
  | function (decl : FunctionType)
  | struct (decl : StructDecl)

/-- A header: its declarations in order. -/
structure Header where
  declarations : List Declaration

end InterfaceHeader
