/-!
# Comments between lines

Directives are looked for line by line, so a line has to know whether it starts inside a block
comment. `endsInComment` follows the comments of one line and says how the next one starts;
`withoutComments` blanks them out. A block comment ends at its first close mark, a line comment
at the end of the line, and no mark counts inside the other kind.
-/

namespace InterfaceHeader

/-- Whether a line ends inside a block comment, given whether it starts inside one. -/
def endsInComment : Bool → List Char → Bool
  | inside, [] => inside
  | true, '*' :: '/' :: cs => endsInComment false cs
  | true, _ :: cs => endsInComment true cs
  | false, '/' :: '*' :: cs => endsInComment true cs
  | false, '/' :: '/' :: _ => false
  | false, _ :: cs => endsInComment false cs

/-- A line with each block comment replaced by one space and without its line comment, given
    whether it starts inside a block comment. -/
def withoutComments : Bool → List Char → List Char
  | _, [] => []
  | true, '*' :: '/' :: cs => withoutComments false cs
  | true, _ :: cs => withoutComments true cs
  | false, '/' :: '*' :: cs => ' ' :: withoutComments true cs
  | false, '/' :: '/' :: _ => []
  | false, c :: cs => c :: withoutComments false cs

end InterfaceHeader
