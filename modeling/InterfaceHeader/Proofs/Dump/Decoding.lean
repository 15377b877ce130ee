import InterfaceHeader.Declaration.Dump
import InterfaceHeader.Proofs.Json.RoundTrip

/-!
# Reading back what was dumped

A decoder that is given the dump of something reads it back if the levels that are left are as many
as the dump is deep, and fails otherwise. Each decoder inherits this from those that it is made of.
-/

namespace InterfaceHeader.Dump

open Json (Value itemsDepth membersDepth)

/-- Asked with at most so many levels, the decoder reads the value as `x` just if the value is not
    deeper than the levels that are left. -/
def Decodes {α : Type} (bound : Nat) (decode : Decoder α) (value : Value) (x : α) : Prop :=
  ∀ levels ≤ bound, decode levels value = if value.depth ≤ levels then some x else none

/-- A value without arrays and objects takes no level. -/
theorem decodes_flat {α : Type} {decode : Value → Option α} {value : Value} {x : α}
    (read : decode value = some x) (flat : value.depth = 0) (bound : Nat) :
    Decodes bound (fun _ => decode) value x := by
  intro levels _
  simp [read, flat]

theorem Decodes.mono {α : Type} {bound fewer : Nat} {decode : Decoder α} {value : Value} {x : α}
    (decodes : Decodes bound decode value x) (le : fewer ≤ bound) :
    Decodes fewer decode value x :=
  fun levels enough => decodes levels (Nat.le_trans enough le)

/-- What makes an object deep is read one level deeper. -/
theorem Decodes.inside {α β : Type} {bound : Nat} {decode : Decoder β} {inner : Decoder α}
    {outer value : Value} {x : α} {y : β} (build : α → β)
    (decodes : Decodes (bound - 1) inner value x) (whole : build x = y)
    (depth : outer.depth = value.depth + 1) (full : decode 0 outer = none)
    (opened : ∀ levels, decode (levels + 1) outer =
      (inner levels value).bind fun a => some (build a)) :
    Decodes bound decode outer y := by
  intro levels enough
  cases levels with
  | zero => rw [full, depth, if_neg (Nat.not_succ_le_zero _)]
  | succ levels =>
      have here := decodes levels (by omega)
      rw [opened, here, depth, ← whole]
      simp only [Nat.succ_le_succ_iff]
      split <;> rfl

/-! ## Records and arrays -/

/-- In a record every key finds its own value. -/
theorem member?_record {members : List (String × Value)} (distinct : (members.map Prod.fst).Nodup)
    {key : String} {value : Value} (mem : (key, value) ∈ members) :
    member? (members.map fun m => (some m.1, m.2)) key = some (some value) := by
  have one : (members.map fun m => ((some m.1 : Json.Text), m.2)).filter
      (fun m => m.1 == some key) = [(some key, value)] := by
    induction members with
    | nil => cases mem
    | cons first rest ih =>
        obtain ⟨new, distinct⟩ := List.nodup_cons.mp distinct
        rcases List.mem_cons.mp mem with rfl | mem
        · have none : (rest.map fun m => ((some m.1 : Json.Text), m.2)).filter
              (fun m => m.1 == some key) = [] := by
            rw [List.filter_eq_nil_iff]
            intro _ found
            obtain ⟨m, among, rfl⟩ := List.mem_map.mp found
            have other : m.1 ≠ key := fun same => new (List.mem_map.mpr ⟨m, among, same⟩)
            simpa using other
          simp [none]
        · have other : first.1 ≠ key :=
            fun same => new (List.mem_map.mpr ⟨_, mem, same.symm⟩)
          simpa [other] using ih distinct mem
  rw [member?, one]

/-- The fields of a record are its values. -/
theorem fields?_record {members : List (String × Value)} (distinct : (members.map Prod.fst).Nodup)
    (levels : Nat) :
    fields? (members.map Prod.fst) (levels + 1) (record members) =
      some (members.map fun m => some m.2) := by
  have found (part : List (String × Value)) (sub : part ⊆ members) :
      (part.map Prod.fst).mapM (member? (members.map fun m => (some m.1, m.2))) =
        some (part.map fun m => some m.2) := by
    induction part with
    | nil => rfl
    | cons m part ih =>
        have here := member?_record distinct (sub List.mem_cons_self)
        have later := ih fun _ mem => sub (List.mem_cons_of_mem _ mem)
        simp [here, later]
  have named : (members.map fun m => ((some m.1 : Json.Text), m.2)).all (·.1.isSome) = true := by
    simp
  rw [record, fields?, if_pos named]
  exact found members (List.Subset.refl _)

theorem depth_record (members : List (String × Value)) :
    (record members).depth = membersDepth (members.map fun m => (some m.1, m.2)) + 1 := rfl

theorem depth_choice (name : String) (value : Value) :
    (choice name value).depth = value.depth + 1 := by
  simp [choice, record, Value.depth, membersDepth]

theorem text?_text (s : String) : text? (text s) = some s := rfl

theorem optional?_optionalText (s : Option String) :
    optional? text? (some (optionalText s)) = some s := by
  cases s <;> rfl

theorem depth_text (s : String) : (text s).depth = 0 := rfl

theorem depth_primitive (t : Primitive) : (primitive t).depth = 1 := rfl

theorem depth_optionalText (s : Option String) : (optionalText s).depth = 0 := by
  cases s <;> rfl

/-- The items of an array are read one by one. -/
theorem decodes_array {α : Type} {bound : Nat} {item : Decoder α} {encode : α → Value}
    {xs : List α} (items : ∀ x ∈ xs, Decodes bound item (encode x) x) :
    Decodes bound (array? item) (.array (xs.map encode)) xs := by
  intro levels enough
  cases levels with
  | zero => rfl
  | succ levels =>
      have read : (xs.map encode).mapM (item levels) =
          if itemsDepth (xs.map encode) ≤ levels then some xs else none := by
        induction xs with
        | nil => rfl
        | cons x xs ih =>
            have first := items x List.mem_cons_self levels (Nat.le_of_succ_le enough)
            have later := ih fun y mem => items y (List.mem_cons_of_mem _ mem)
            rw [List.map_cons, List.mapM_cons, first, later, itemsDepth]
            by_cases here : (encode x).depth ≤ levels
            · by_cases there : itemsDepth (xs.map encode) ≤ levels
              · rw [if_pos here, if_pos there, if_pos (Nat.max_le.mpr ⟨here, there⟩)]
                rfl
              · rw [if_pos here, if_neg there, if_neg fun both => there (Nat.max_le.mp both).2]
                rfl
            · rw [if_neg here, if_neg fun both => here (Nat.max_le.mp both).1]
              rfl
      simp only [array?, read, Value.depth, Nat.succ_le_succ_iff]

/-! ## Types -/

theorem decodes_primitive (bound : Nat) (t : Primitive) :
    Decodes bound primitive? (primitive t) t := by
  have fields (levels : Nat) :
      fields? ["is_const", "name", "is_pointer"] (levels + 1) (primitive t) =
        some [some (.bool t.isConst), some (text t.name), some (.bool t.isPointer)] :=
    fields?_record (by simp) levels
  have name := decodes_flat (text?_text t.name) (depth_text t.name) (bound - 1)
  refine Decodes.inside (fun name => ⟨t.isConst, name, t.isPointer⟩) name rfl rfl rfl ?_
  intro levels
  simp [primitive?, fields, bool?, text?_text]

/-- The dump of an argument. -/
def argument (a : Argument) : Value :=
  record [("ty", type a.type), ("name", optionalText a.name)]

theorem arguments_eq_map (args : List Argument) : arguments args = args.map argument := by
  induction args with
  | nil => rfl
  | cons a args ih =>
      obtain ⟨type, name⟩ := a
      rw [arguments, ih]
      rfl

theorem depth_argument (t : CType) (name : Option String) :
    (argument ⟨t, name⟩).depth = (type t).depth + 1 := by
  simp [argument, depth_record, depth_optionalText, membersDepth]

theorem function_eq_record (returnType : Primitive) (name : String) (args : List Argument) :
    function ⟨returnType, name, args⟩ = record [("return_type", primitive returnType),
      ("name", text name), ("arguments", .array (args.map argument))] := by
  rw [function, arguments_eq_map]

/-- The arguments of a function are not less deep than the type that it returns. -/
theorem depth_function (returnType : Primitive) (name : String) (args : List Argument) :
    (function ⟨returnType, name, args⟩).depth = itemsDepth (args.map argument) + 2 := by
  rw [function_eq_record]
  simp [depth_record, depth_primitive, depth_text, membersDepth, Value.depth]

theorem decodes_argument {bound : Nat} {type' : Decoder CType} {a : Argument}
    (inner : Decodes (bound - 1) type' (type a.type) a.type) :
    Decodes bound (argument? type') (argument a) a := by
  obtain ⟨t, name⟩ := a
  have fields (levels : Nat) : fields? ["ty", "name"] (levels + 1) (argument ⟨t, name⟩) =
      some [some (type t), some (optionalText name)] :=
    fields?_record (by simp) levels
  refine Decodes.inside (fun type => ⟨type, name⟩) inner rfl (depth_argument t name) rfl ?_
  intro levels
  simp [argument?, fields, optional?_optionalText]

theorem decodes_function {bound : Nat} {argument' : Decoder Argument} {f : FunctionType}
    (inner : ∀ a ∈ f.arguments, Decodes (bound - 1) argument' (argument a) a) :
    Decodes bound (function? argument') (function f) f := by
  obtain ⟨returnType, name, args⟩ := f
  have fields (levels : Nat) : fields? ["return_type", "name", "arguments"] (levels + 1)
      (function ⟨returnType, name, args⟩) =
        some [some (primitive returnType), some (text name),
          some (.array (args.map argument))] := by
    rw [function_eq_record]
    exact fields?_record (by simp) levels
  refine Decodes.inside (fun args => ⟨returnType, name, args⟩) (decodes_array inner) rfl
    (depth_function returnType name args) rfl ?_
  intro levels
  cases levels with
  | zero => simp [function?, fields, array?]
  | succ levels =>
      have returned := decodes_primitive (levels + 1) returnType (levels + 1) (Nat.le_refl _)
      have shallow : (primitive returnType).depth ≤ levels + 1 := by simp [depth_primitive]
      simp [function?, fields, returned, shallow, text?_text]

mutual

/-- A type is read back, to whatever depth function types nest in it. -/
theorem decodes_typeAt (t : CType) (fuel : Nat) : Decodes fuel (typeAt? fuel) (type t) t := by
  have full : typeAt? fuel 0 (type t) = none := by
    cases fuel <;> cases t <;> rfl
  cases fuel with
  | zero =>
      intro levels none
      rw [Nat.le_zero.mp none, full]
      cases t <;> rfl
  | succ fuel =>
      cases t with
      | primitive p =>
          have inner := decodes_primitive fuel p
          exact Decodes.inside .primitive inner rfl (depth_choice _ _) full fun _ => rfl
      | function f =>
          have inner := decodes_function (decodes_argumentsAt f.arguments fuel)
          exact Decodes.inside .function inner rfl (depth_choice _ _) full fun _ => rfl

theorem decodes_argumentsAt (args : List Argument) (fuel : Nat) :
    ∀ a ∈ args, Decodes (fuel - 1) (argument? (typeAt? fuel)) (argument a) a := by
  cases args with
  | nil => exact nofun
  | cons a rest =>
      obtain ⟨t, name⟩ := a
      have inner := (decodes_typeAt t fuel).mono (Nat.le_trans (Nat.sub_le _ 1) (Nat.sub_le _ 1))
      have later := decodes_argumentsAt rest fuel
      intro other mem
      rcases List.mem_cons.mp mem with rfl | mem
      · exact decodes_argument inner
      · exact later other mem

end

theorem decodes_functionType (bound : Nat) (f : FunctionType) :
    Decodes bound functionType? (function f) f := by
  apply decodes_function
  intro a _
  apply decodes_argument
  intro levels _
  exact decodes_typeAt a.type levels levels (Nat.le_refl levels)

/-! ## Declarations -/

theorem decodes_initializer (bound : Nat) (i : Initializer) :
    Decodes bound initializer? (initializer i) i := by
  cases i with
  | int value =>
      have notNegative : String.ofList (Decimal.write value.toInt) ≠ "-0" := by
        intro same
        have same := congrArg String.toList same
        rw [String.toList_ofList] at same
        exact Json.write_ne_negativeZero _ same
      have read : int? (.number (String.ofList (Decimal.write value.toInt))) = some value := by
        rw [int?, if_neg notNegative, String.toList_ofList, Decimal.readWord?_write]
      exact Decodes.inside .int (decodes_flat read rfl _) rfl (depth_choice _ _) rfl fun _ => rfl
  | reference name =>
      have read := decodes_flat (text?_text name) (depth_text name) (bound - 1)
      exact Decodes.inside .reference read rfl (depth_choice _ _) rfl fun _ => rfl

/-- An initializer that may be missing. -/
theorem decodes_optionalInitializer (bound : Nat) (init : Option Initializer) :
    Decodes bound (fun levels value => optional? (initializer? levels) (some value))
      ((init.map initializer).getD .null) init := by
  intro levels enough
  cases init with
  | none => rfl
  | some i =>
      have inner := decodes_initializer bound i levels enough
      obtain ⟨members, object⟩ : ∃ members, initializer i = .object members := by
        cases i <;> exact ⟨_, rfl⟩
      rw [object] at inner
      rw [Option.map_some, Option.getD_some, object]
      simp only [optional?, inner]
      split <;> rfl

theorem decodes_enumValue (bound : Nat) (v : EnumValue) :
    Decodes bound enumValue? (enumValue v) v := by
  have fields (levels : Nat) : fields? ["name", "value", "comment"] (levels + 1) (enumValue v) =
      some [some (text v.name), some ((v.value.map initializer).getD .null),
        some (optionalText v.comment)] :=
    fields?_record (by simp) levels
  have value := decodes_optionalInitializer (bound - 1) v.value
  refine Decodes.inside (fun value => ⟨v.name, value, v.comment⟩) value rfl ?_ rfl ?_
  · simp [enumValue, depth_record, depth_text, depth_optionalText, membersDepth]
  · intro levels
    simp [enumValue?, fields, text?_text, optional?_optionalText]

/-- A name declared with a primitive type. -/
theorem decodes_declared (bound : Nat) (type : Primitive) (name : String) :
    Decodes bound declared? (declared type name) (type, name) := by
  have fields (levels : Nat) : fields? ["ty", "name"] (levels + 1) (declared type name) =
      some [some (primitive type), some (text name)] :=
    fields?_record (by simp) levels
  have inner := decodes_primitive (bound - 1) type
  refine Decodes.inside (fun type => (type, name)) inner rfl ?_ rfl ?_
  · simp [declared, depth_record, depth_text, membersDepth]
  · intro levels
    simp [declared?, fields, text?_text]

/-- The dump of a function pointer in a structure. -/
def method (f : Method) : Value :=
  record [("function", function f.function), ("comment", optionalText f.comment)]

theorem decodes_method (bound : Nat) (f : Method) : Decodes bound method? (method f) f := by
  have fields (levels : Nat) : fields? ["function", "comment"] (levels + 1) (method f) =
      some [some (function f.function), some (optionalText f.comment)] :=
    fields?_record (by simp) levels
  have inner := decodes_functionType (bound - 1) f.function
  refine Decodes.inside (fun function => ⟨function, f.comment⟩) inner rfl ?_ rfl ?_
  · simp [method, depth_record, depth_optionalText, membersDepth]
  · intro levels
    simp [method?, fields, optional?_optionalText]

theorem decodes_field (bound : Nat) (f : StructField) : Decodes bound field? (field f) f := by
  cases f with
  | data f =>
      have inner := decodes_declared (bound - 1) f.type f.name
      exact Decodes.inside (fun d => .data ⟨d.1, d.2⟩) inner rfl (depth_choice _ _)
        rfl fun _ => rfl
  | method f =>
      have inner := decodes_method (bound - 1) f
      exact Decodes.inside .method inner rfl (depth_choice _ _) rfl fun _ => rfl

/-- The dump of an enumeration. -/
def enum (d : EnumDecl) : Value :=
  record [("name", optionalText d.name), ("values", .array (d.values.map enumValue))]

theorem decodes_enum (bound : Nat) (d : EnumDecl) : Decodes bound enum? (enum d) d := by
  have fields (levels : Nat) : fields? ["name", "values"] (levels + 1) (enum d) =
      some [some (optionalText d.name), some (.array (d.values.map enumValue))] :=
    fields?_record (by simp) levels
  have inner := decodes_array fun v (_ : v ∈ d.values) => decodes_enumValue (bound - 1) v
  refine Decodes.inside (fun values => ⟨d.name, values⟩) inner rfl ?_ rfl ?_
  · simp [enum, depth_record, depth_optionalText, membersDepth]
  · intro levels
    simp [enum?, fields, optional?_optionalText]

/-- The dump of a structure. -/
def struct (d : StructDecl) : Value :=
  record [("name", text d.name), ("fields", .array (d.fields.map field))]

theorem decodes_struct (bound : Nat) (d : StructDecl) : Decodes bound struct? (struct d) d := by
  have fields (levels : Nat) : fields? ["name", "fields"] (levels + 1) (struct d) =
      some [some (text d.name), some (.array (d.fields.map field))] :=
    fields?_record (by simp) levels
  have inner := decodes_array fun f (_ : f ∈ d.fields) => decodes_field (bound - 1) f
  refine Decodes.inside (fun fields => ⟨d.name, fields⟩) inner rfl ?_ rfl ?_
  · simp [struct, depth_record, depth_text, membersDepth]
  · intro levels
    simp [struct?, fields, text?_text]

theorem decodes_declaration (bound : Nat) (d : Declaration) :
    Decodes bound declaration? (declaration d) d := by
  cases d with
  | comment s =>
      have inner := decodes_flat (text?_text s) (depth_text s) (bound - 1)
      exact Decodes.inside .comment inner rfl (depth_choice _ _) rfl fun _ => rfl
  | enum d =>
      have inner := decodes_enum (bound - 1) d
      exact Decodes.inside .enum inner rfl (depth_choice _ _) rfl fun _ => rfl
  | typeAlias d =>
      have inner := decodes_declared (bound - 1) d.type d.name
      exact Decodes.inside (fun d => .typeAlias ⟨d.1, d.2⟩) inner rfl
        (depth_choice _ _) rfl fun _ => rfl
  | function d =>
      have inner := decodes_functionType (bound - 1) d
      exact Decodes.inside .function inner rfl (depth_choice _ _) rfl fun _ => rfl
  | struct d =>
      have inner := decodes_struct (bound - 1) d
      exact Decodes.inside .struct inner rfl (depth_choice _ _) rfl fun _ => rfl

theorem decodes_header (bound : Nat) (h : Header) : Decodes bound header? (header h) h := by
  have fields (levels : Nat) : fields? ["exprs"] (levels + 1) (header h) =
      some [some (.array (h.declarations.map declaration))] :=
    fields?_record (by simp) levels
  have inner := decodes_array fun d (_ : d ∈ h.declarations) => decodes_declaration (bound - 1) d
  refine Decodes.inside (fun declarations => ⟨declarations⟩) inner rfl ?_ rfl ?_
  · simp [header, depth_record, membersDepth]
  · intro levels
    simp [header?, fields]

end InterfaceHeader.Dump
