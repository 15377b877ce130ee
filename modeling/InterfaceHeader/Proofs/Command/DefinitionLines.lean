import InterfaceHeader.Command.Options
import InterfaceHeader.Proofs.Conditional.Assignments

/-!
# Definitions on the command line

A symbol that the command line defines or undefines is as good as one that directives in front of
the header define or undefine (`preprocess_definitionLines`). The command line cuts its definitions
at the first equals sign and reads the rest as a value, a directive is cut into words, trimmed and
freed of comments, and is a macro with parameters if a parenthesis comes first. The two ways to the
value meet in the trimmed text (`valueOfRest_eq_definitionValue`).
-/

namespace InterfaceHeader

/-- A value that starts with a parenthesis is no number. -/
theorem readWord?_openParen (cs : List Char) : Decimal.readWord? ('(' :: cs) = none := by
  have unread : Decimal.readDigits? ('(' :: cs) = none :=
    if_neg fun digits => absurd (Bool.and_eq_true_iff.mp digits.2).1 (by decide)
  show ((Decimal.readDigits? ('(' :: cs)).map fun (n : Nat) => (n : Int)).bind Decimal.word? = none
  rw [unread]
  rfl

/-- A directive gives its symbol the value that the command line gives it. -/
theorem valueOfRest_eq_definitionValue (text : List Char) :
    Directive.valueOfRest text = definitionValue text := by
  rw [Directive.valueOfRest_eq, definitionValue]
  split
  · rename_i first
    obtain ⟨cs, same⟩ := List.head?_eq_some_iff.mp first
    rw [same, readWord?_openParen]
    rfl
  · rfl

namespace Command

/-- The name in a definition: what stands in front of the first equals sign. -/
def flagName (flag : String) : String :=
  String.ofList (flag.toList.takeWhile (· != '='))

/-- The text of the value in a definition: what stands behind the first equals sign. -/
def flagValue? (flag : String) : Option String :=
  match flag.toList.dropWhile (· != '=') with
  | [] => none
  | _ :: value => some (String.ofList value)

/-- The directive that says what a definition on the command line says. -/
def definitionLine (flag : String) : String :=
  match flagValue? flag with
  | none => "#define " ++ flagName flag
  | some value => "#define " ++ flagName flag ++ " " ++ value

/-- The directive that undefines what the command line undefines. -/
def undefinitionLine (name : String) : String :=
  "#undef " ++ name

/-- A value that can stand in a line: there is no line break in it, no comment starts in it, and
behind it the line is not continued. A carriage return at its end would belong to the line end. -/
structure Inert (value : List Char) : Prop where
  inLine : '\n' ∉ value
  plain : NoComment value
  ended : isContinued (Text.dropReturn value) = false

theorem inert_iff {value : List Char} :
    ('\n' ∉ value ∧ NoComment value ∧ isContinued (Text.dropReturn value) = false) ↔
      Inert value :=
  ⟨fun all => ⟨all.1, all.2.1, all.2.2⟩, fun inert => ⟨inert.inLine, inert.plain, inert.ended⟩⟩

instance (value : List Char) : Decidable (Inert value) :=
  decidable_of_iff _ inert_iff

/-! ## The two ways to a symbol -/

variable {flag : String} {d : Definition}

theorem ofText?_eq_ok (accepted : Definition.ofText? flag = .ok d) :
    Text.isIdentifier (flagName flag).toList = true ∧ d.name = flagName flag ∧
      d.value = ((flagValue? flag).map fun value => definitionValue value.toList).getD true := by
  unfold Definition.ofText? at accepted
  dsimp only at accepted
  split at accepted
  case isTrue isName =>
    obtain rfl := Except.ok.inj accepted
    refine ⟨by rwa [flagName, String.toList_ofList], rfl, ?_⟩
    rw [flagValue?]
    split <;> simp [*]
  case isFalse => cases accepted

/-- A line with a directive and a symbol, and nothing else, stands for itself. -/
theorem assigns_directiveLine {keyword name : String} {directive : Directive}
    {assignment : String × Option Bool} (isKeyword : Text.isIdentifier keyword.toList = true)
    (isName : Text.isIdentifier name.toList = true)
    (read : Directive.ofText? (directiveLine keyword name.toList) = .ok directive)
    (assigns : directive.assignment? = some assignment) :
    Assigns (Text.dropReturn (directiveLine keyword name.toList)) assignment := by
  have noReturn : '\r' ∉ directiveLine keyword name.toList := by
    have other : Text.isWordChar '\r' = false := by decide
    simp [directiveLine, not_mem_of_isIdentifier isKeyword other,
      not_mem_of_isIdentifier isName other]
  rw [Text.dropReturn_eq_self noReturn]
  exact ⟨((unmarked_of_isIdentifier isName).directiveLine isKeyword).whole,
    startsDirective_directiveLine keyword _, directive, read, assigns⟩

/-- The line of a definition defines its symbol. -/
theorem assigns_definitionLine (accepted : Definition.ofText? flag = .ok d)
    (inert : ∀ value ∈ flagValue? flag, Inert value.toList) :
    Assigns (Text.dropReturn (definitionLine flag).toList) (d.name, some d.value) := by
  obtain ⟨isName, name, value⟩ := ofText?_eq_ok accepted
  rw [name, value, definitionLine]
  cases spelt : flagValue? flag with
  | some text =>
      have inert := inert text spelt
      obtain ⟨line, rfl, whole, starts, read⟩ := exists_defines isName inert.plain inert.ended
      refine ⟨whole, starts, _, read, ?_⟩
      rw [valueOfRest_eq_definitionValue]
      rfl
  | none =>
      have noWord : NoWord [] := rfl
      have read := ofText?_define isName noWord (.of_not_mem List.not_mem_nil)
      rw [List.append_nil] at read
      have line : ("#define " ++ flagName flag).toList =
          directiveLine "define" (flagName flag).toList := String.toList_append
      dsimp only
      rw [line]
      exact assigns_directiveLine (by decide) isName read rfl

/-- The line of a removal undefines its symbol. -/
theorem assigns_undefinitionLine {name : String} (isName : Text.isIdentifier name.toList = true) :
    Assigns (Text.dropReturn (undefinitionLine name).toList) (name, none) := by
  have line : (undefinitionLine name).toList = directiveLine "undef" name.toList :=
    String.toList_append
  rw [line]
  exact assigns_directiveLine (by decide) isName (ofText?_undef isName) rfl

theorem newline_not_mem_definitionLine (accepted : Definition.ofText? flag = .ok d)
    (inert : ∀ value ∈ flagValue? flag, Inert value.toList) :
    '\n' ∉ (definitionLine flag).toList := by
  have newline := not_mem_of_isIdentifier (ofText?_eq_ok accepted).1
    (by decide : Text.isWordChar '\n' = false)
  rw [definitionLine]
  cases spelt : flagValue? flag with
  | none => simp [String.toList_append, newline]
  | some value => simp [String.toList_append, newline, (inert value spelt).inLine]

theorem newline_not_mem_undefinitionLine {name : String}
    (isName : Text.isIdentifier name.toList = true) :
    '\n' ∉ (undefinitionLine name).toList := by
  have newline := not_mem_of_isIdentifier isName (by decide : Text.isWordChar '\n' = false)
  simp [undefinitionLine, String.toList_append, newline]

/-! ## The two ways to a table -/

theorem forall₂_of_mapM {flags : List String} {ds : List Definition}
    (accepted : flags.mapM Definition.ofText? = .ok ds) :
    List.Forall₂ (fun flag d => Definition.ofText? flag = .ok d) flags ds := by
  induction flags generalizing ds with
  | nil =>
      cases accepted
      exact .nil
  | cons flag flags ih =>
      rw [List.mapM_cons] at accepted
      cases first : Definition.ofText? flag with
      | error e =>
          rw [first] at accepted
          cases accepted
      | ok d =>
          cases rest : flags.mapM Definition.ofText? with
          | error e =>
              rw [first, rest] at accepted
              cases accepted
          | ok ds =>
              rw [first, rest] at accepted
              cases accepted
              exact .cons first (ih rest)

/-- What a command line makes of symbols. -/
def Options.assignments (o : Options) : List (String × Option Bool) :=
  o.definitions.map (fun d => (d.name, some d.value)) ++ o.undefined.map fun name => (name, none)

theorem Options.symbols_eq_assignAll (o : Options) :
    o.symbols = SymbolTable.empty.assignAll o.assignments := by
  rw [Options.symbols, SymbolTable.assignAll, Options.assignments, List.foldl_append,
    List.foldl_map, List.foldl_map]
  rfl

/-- A header is preprocessed with the symbols that the command line sets as it is behind one
directive for each definition of the command line, in their order, and then one for each symbol
that it undefines, with no symbols set before. Only the lines that faults are reported on are as
many lines further on. -/
theorem preprocess_definitionLines {o : Options} {flags : List String}
    (accepted : flags.mapM Definition.ofText? = .ok o.definitions)
    (inert : ∀ flag ∈ flags, ∀ value ∈ flagValue? flag, Inert value.toList)
    (names : ∀ name ∈ o.undefined, Text.isIdentifier name.toList = true) (text : String) :
    preprocess
        (Text.unlines (flags.map definitionLine ++ o.undefined.map undefinitionLine) ++ text)
        ⟨.empty, false⟩ =
      (preprocess text ⟨o.symbols, false⟩).mapError
        (·.shift (flags.length + o.undefined.length)) := by
  have read := (List.forall₂_and_left _ _).mpr ⟨inert, forall₂_of_mapM accepted⟩
  have lines (flag : String) (d : Definition) (both : _ ∧ Definition.ofText? flag = .ok d) :
      '\n' ∉ (definitionLine flag).toList ∧
        Assigns (Text.dropReturn (definitionLine flag).toList) (d.name, some d.value) :=
    ⟨newline_not_mem_definitionLine both.2 both.1, assigns_definitionLine both.2 both.1⟩
  obtain ⟨inLine, defines⟩ := (List.forall₂_and_left _ _).mp (read.imp lines)
  have removes : List.Forall₂
      (fun name other => Assigns (Text.dropReturn (undefinitionLine name).toList) (other, none))
      o.undefined o.undefined :=
    List.forall₂_same.mpr fun name mem => assigns_undefinitionLine (names name mem)
  have single : ∀ line ∈ flags.map definitionLine ++ o.undefined.map undefinitionLine,
      '\n' ∉ line.toList := by
    intro line mem
    rcases List.mem_append.mp mem with mem | mem
    · obtain ⟨flag, given, rfl⟩ := List.mem_map.mp mem
      exact inLine flag given
    · obtain ⟨name, given, rfl⟩ := List.mem_map.mp mem
      exact newline_not_mem_undefinitionLine (names name given)
  have assigned : List.Forall₂ Assigns
      ((flags.map definitionLine ++ o.undefined.map undefinitionLine).map
        fun line => Text.dropReturn line.toList) o.assignments := by
    rw [List.map_append, List.map_map, List.map_map]
    refine List.rel_append ?_ ?_
    · exact List.forall₂_map_left_iff.mpr (List.forall₂_map_right_iff.mpr defines)
    · exact List.forall₂_map_left_iff.mpr (List.forall₂_map_right_iff.mpr removes)
  rw [preprocess_assignments single assigned, o.symbols_eq_assignAll, List.length_append,
    List.length_map, List.length_map]

/-- The command line of the values that are read with the most care. -/
def carefulOptions : Options where
  project := "."
  header := defaultHeader
  definitions := [⟨"A", false⟩, ⟨"B", true⟩, ⟨"A", true⟩, ⟨"C", false⟩, ⟨"D", true⟩]
  undefined := ["B"]
  check := false
  signatures := false
  output := none
  verbose := false

/-- Definitions with signs, blanks, parentheses and further equals signs, one of them made again and
one taken back. Behind the six lines a block is read as alone, and a fault six lines further on. -/
theorem carefulOptions_lines :
    let flags := ["A=-0", "B= (0)", "A==0", "C= +00\t\r", "D"]
    let front := Text.unlines (flags.map definitionLine ++ ["B"].map undefinitionLine)
    front = "#define A -0\n#define B  (0)\n#define A =0\n#define C  +00\t\r\n" ++
        "#define D\n#undef B\n" ∧
      preprocess (front ++ "#if A && !C && !defined(B)\nx\n#endif\n") ⟨.empty, false⟩ =
        .ok "x\n" ∧
      preprocess (front ++ "#if A\n") ⟨.empty, false⟩ = .error ⟨.unclosedBlock "if", 7⟩ := by
  have lines := @preprocess_definitionLines carefulOptions
    ["A=-0", "B= (0)", "A==0", "C= +00\t\r", "D"] (by decide +kernel) (by decide +kernel)
    (by decide +kernel)
  refine ⟨by decide +kernel, ?_, ?_⟩
  · exact (lines _).trans (by decide +kernel)
  · exact (lines _).trans (by decide +kernel)

end Command

end InterfaceHeader
