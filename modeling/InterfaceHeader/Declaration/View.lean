import InterfaceHeader.Declaration.Basic

/-!
# Views of a header

The declarations of one kind, in the order in which they stand, and the first declaration of a
name. A header may declare a function more than once: then the first declaration counts and the
later ones are duplicates.
-/

namespace InterfaceHeader

namespace Declaration

/-- The declared name; comments and nameless enumerations have none. -/
def name? : Declaration → Option String
  | .comment _ => none
  | .enum decl => decl.name
  | .typeAlias decl => some decl.name
  | .function decl => some decl.name
  | .struct decl => some decl.name

def comment? : Declaration → Option String
  | .comment text => some text
  | _ => none

def enum? : Declaration → Option EnumDecl
  | .enum decl => some decl
  | _ => none

def alias? : Declaration → Option AliasDecl
  | .typeAlias decl => some decl
  | _ => none

def function? : Declaration → Option FunctionType
  | .function decl => some decl
  | _ => none

def struct? : Declaration → Option StructDecl
  | .struct decl => some decl
  | _ => none

end Declaration

namespace StructField

/-- The name of a member. -/
def name : StructField → String
  | .data field => field.name
  | .method field => field.function.name

def data? : StructField → Option Variable
  | .data field => some field
  | _ => none

def method? : StructField → Option Method
  | .method field => some field
  | _ => none

end StructField

namespace StructDecl

/-- The data members of a structure. -/
def dataFields (s : StructDecl) : List Variable :=
  s.fields.filterMap StructField.data?

/-- The function pointers of a structure. -/
def methods (s : StructDecl) : List Method :=
  s.fields.filterMap StructField.method?

end StructDecl

/-- The functions whose name is neither `seen` nor that of an earlier one. -/
def firstFunctions (seen : List String) : List FunctionType → List FunctionType
  | [] => []
  | f :: rest =>
    if f.name ∈ seen then firstFunctions seen rest else f :: firstFunctions (f.name :: seen) rest

/-- The functions whose name is `seen` or that of an earlier one. -/
def repeatedFunctions (seen : List String) : List FunctionType → List FunctionType
  | [] => []
  | f :: rest =>
    if f.name ∈ seen then f :: repeatedFunctions seen rest
    else repeatedFunctions (f.name :: seen) rest

namespace Header

def comments (h : Header) : List String :=
  h.declarations.filterMap Declaration.comment?

def enums (h : Header) : List EnumDecl :=
  h.declarations.filterMap Declaration.enum?

def aliases (h : Header) : List AliasDecl :=
  h.declarations.filterMap Declaration.alias?

def structs (h : Header) : List StructDecl :=
  h.declarations.filterMap Declaration.struct?

/-- All function pointers, duplicates included. -/
def allFunctions (h : Header) : List FunctionType :=
  h.declarations.filterMap Declaration.function?

/-- The function pointers, each name once: its first declaration. -/
def functions (h : Header) : List FunctionType :=
  firstFunctions [] h.allFunctions

/-- The function pointers that an earlier declaration of the same name makes void. -/
def duplicateFunctions (h : Header) : List FunctionType :=
  repeatedFunctions [] h.allFunctions

/-- The first enumeration of a name. -/
def findEnum? (h : Header) (name : String) : Option EnumDecl :=
  h.enums.find? fun decl => decl.name == some name

/-- The first alias of a name. -/
def findAlias? (h : Header) (name : String) : Option AliasDecl :=
  h.aliases.find? fun decl => decl.name == name

/-- The first function pointer of a name. -/
def findFunction? (h : Header) (name : String) : Option FunctionType :=
  h.allFunctions.find? fun decl => decl.name == name

/-- The first structure of a name. -/
def findStruct? (h : Header) (name : String) : Option StructDecl :=
  h.structs.find? fun decl => decl.name == name

end Header

end InterfaceHeader
