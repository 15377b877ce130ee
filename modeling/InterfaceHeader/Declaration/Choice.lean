import InterfaceHeader.Declaration.Cursor

/-!
# Choice between readers

Alternatives are tried in order, each from the place where the choice started. The first one that
succeeds decides. One that fails after more than `lookahead` significant tokens decides too: it
was so far on its way that its error is the one to report. If all fail before that, the choice
fails where it started, with the deepest error, and with the expectations of every alternative
that came as deep.
-/

namespace InterfaceHeader

/-- How many significant tokens an alternative may consume and still be given up. -/
def lookahead : Nat := 4

namespace Reader

/-- Tries alternatives from `start`, after others have failed with `deepest?`. -/
def chooseFrom (start : Cursor) (deepest? : Option SyntaxError) :
    List (Reader α) → EStateM.Result SyntaxError Cursor α
  | [] => .error (deepest?.getD (start.failure [])) start
  | alternative :: others =>
    match alternative start with
    | .ok value stop => .ok value stop
    | .error e stop =>
      if lookahead < stop.consumed - start.consumed then .error e stop
      else chooseFrom start (some ((deepest?.map (·.deepest e)).getD e)) others

/-- Reads what the first fitting alternative reads. -/
def choose (alternatives : List (Reader α)) : Reader α := fun start =>
  chooseFrom start none alternatives

end Reader

end InterfaceHeader
