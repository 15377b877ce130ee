import InterfaceHeader.Proofs.Dump.Decoding

/-!
# Dumps are read back

A header is read back from the text of its dump if the text never has more arrays and objects open
at once than a reader allows, and otherwise the text is refused. No other header is ever read.
-/

namespace InterfaceHeader

namespace Dump

open Json (Value ItemsWhole MembersWhole)

/-! ## Numbers in dumps -/

theorem whole_text (s : String) : (text s).Whole := trivial

theorem whole_optionalText (s : Option String) : (optionalText s).Whole := by
  cases s <;> exact trivial

theorem whole_record {members : List (String × Value)} (all : ∀ m ∈ members, m.2.Whole) :
    (record members).Whole := by
  have each : MembersWhole (members.map fun m => (some m.1, m.2)) := by
    induction members with
    | nil => trivial
    | cons m members ih =>
        exact ⟨all m List.mem_cons_self, ih fun n mem => all n (List.mem_cons_of_mem _ mem)⟩
  exact each

theorem whole_choice {name : String} {value : Value} (whole : value.Whole) :
    (choice name value).Whole :=
  ⟨whole, trivial⟩

theorem whole_array {α : Type} {encode : α → Value} {xs : List α}
    (all : ∀ x ∈ xs, (encode x).Whole) : (Value.array (xs.map encode)).Whole := by
  have each : ItemsWhole (xs.map encode) := by
    induction xs with
    | nil => trivial
    | cons x xs ih =>
        exact ⟨all x List.mem_cons_self, ih fun y mem => all y (List.mem_cons_of_mem _ mem)⟩
  exact each

theorem whole_primitive (t : Primitive) : (primitive t).Whole :=
  whole_record (by simp [Value.Whole, text])

theorem whole_function {returnType : Primitive} {name : String} {args : List Argument}
    (inner : ItemsWhole (arguments args)) : (function ⟨returnType, name, args⟩).Whole := by
  have list : (Value.array (arguments args)).Whole := inner
  exact whole_record (by simp [whole_primitive, whole_text, list])

mutual

theorem whole_type (t : CType) : (type t).Whole := by
  cases t with
  | primitive p => exact whole_choice (whole_primitive p)
  | function f =>
      obtain ⟨returnType, name, args⟩ := f
      exact whole_choice (whole_function (whole_arguments args))

theorem whole_arguments (args : List Argument) : ItemsWhole (arguments args) := by
  cases args with
  | nil => trivial
  | cons a rest =>
      obtain ⟨t, name⟩ := a
      have inner := whole_type t
      have first : (argument ⟨t, name⟩).Whole :=
        whole_record (by simp [inner, whole_optionalText])
      exact ⟨first, whole_arguments rest⟩

end

theorem whole_functionType (f : FunctionType) : (function f).Whole := by
  obtain ⟨returnType, name, args⟩ := f
  exact whole_function (whole_arguments args)

theorem whole_enumValue (v : EnumValue) : (enumValue v).Whole := by
  have init : ((v.value.map initializer).getD .null).Whole := by
    rcases v.value with _ | (value | name)
    · trivial
    · exact whole_choice ⟨value.toInt, String.toList_ofList⟩
    · exact whole_choice (whole_text name)
  exact whole_record (by simp [whole_text, init, whole_optionalText])

theorem whole_declared (type : Primitive) (name : String) : (declared type name).Whole :=
  whole_record (by simp [whole_primitive, whole_text])

theorem whole_field (f : StructField) : (field f).Whole := by
  cases f with
  | data f => exact whole_choice (whole_declared f.type f.name)
  | method f =>
      have all : (method f).Whole := whole_record (by simp [whole_functionType, whole_optionalText])
      exact whole_choice all

theorem whole_declaration (d : Declaration) : (declaration d).Whole := by
  cases d with
  | comment s => exact whole_choice (whole_text s)
  | enum d =>
      have values := whole_array fun v (_ : v ∈ d.values) => whole_enumValue v
      have all : (enum d).Whole := whole_record (by simp [whole_optionalText, values])
      exact whole_choice all
  | typeAlias d => exact whole_choice (whole_declared d.type d.name)
  | function d => exact whole_choice (whole_functionType d)
  | struct d =>
      have fields := whole_array fun f (_ : f ∈ d.fields) => whole_field f
      have all : (struct d).Whole := whole_record (by simp [whole_text, fields])
      exact whole_choice all

/-- All numbers in a dump are whole. -/
theorem whole_header (h : Header) : (header h).Whole := by
  have declarations := whole_array fun d (_ : d ∈ h.declarations) => whole_declaration d
  exact whole_record (by simp [declarations])

end Dump

/-- A dump is read back if it is not too deep. -/
theorem ofDump?_of_depth (h : Header) :
    Header.ofDump? h.dump =
      if (Dump.header h).depth ≤ Dump.levels then some h else none := by
  have parsed := Json.parse?_write (Dump.whole_header h)
  have read := Dump.decodes_header Dump.levels h Dump.levels (Nat.le_refl _)
  rw [Header.ofDump?, Header.dump, parsed]
  exact read

/-- The text of a dump consists of words. If at most 127 arrays and objects are open at once along
    them, the dump is read back as the header that was dumped; otherwise it is refused. -/
theorem ofDump?_dump (h : Header) :
    ∃ words, Json.lexemes? h.dump.toList = some words ∧
      Header.ofDump? h.dump = if Json.mostOpen 0 words ≤ 127 then some h else none := by
  have deepest : Json.mostOpen 0 (Dump.header h).words = (Dump.header h).depth := by
    have along := (Dump.header h).mostOpen_words 0 []
    rw [List.append_nil, Nat.zero_add] at along
    simpa [Json.mostOpen] using along
  refine ⟨(Dump.header h).words, Json.lexemes?_write (Dump.whole_header h), ?_⟩
  rw [deepest]
  exact ofDump?_of_depth h

/-! ## How deep function pointers may nest -/

/-- A function pointer in whose arguments so many others nest. -/
def pointerTo : Nat → FunctionType
  | 0 => ⟨⟨false, "void", false⟩, "f", []⟩
  | n + 1 => ⟨⟨false, "void", false⟩, "f", [⟨.function (pointerTo n), none⟩]⟩

/-- Each function pointer inside another one takes four levels. -/
theorem depth_pointerTo (n : Nat) : (Dump.function (pointerTo n)).depth = 4 * n + 2 := by
  induction n with
  | zero => rfl
  | succ n ih =>
      have inner : (Dump.type (.function (pointerTo n))).depth =
          (Dump.function (pointerTo n)).depth + 1 := Dump.depth_choice _ _
      rw [pointerTo, Dump.depth_function]
      simp [Dump.depth_argument, Json.itemsDepth, inner, ih]
      omega

/-- Of function pointers that nest in each other, thirty are read back and one more is not. -/
theorem ofDump?_pointerTo (n : Nat) :
    Header.ofDump? (Header.dump ⟨[.function (pointerTo n)]⟩) =
      if n ≤ 30 then some ⟨[.function (pointerTo n)]⟩ else none := by
  have depth : (Dump.header ⟨[.function (pointerTo n)]⟩).depth = 4 * n + 5 := by
    have inner : (Dump.declaration (.function (pointerTo n))).depth =
        (Dump.function (pointerTo n)).depth + 1 := Dump.depth_choice _ _
    simp [Dump.header, Dump.depth_record, Json.membersDepth, Json.Value.depth, Json.itemsDepth,
      inner, depth_pointerTo]
  rw [ofDump?_of_depth, depth]
  have same : 4 * n + 5 ≤ Dump.levels ↔ n ≤ 30 := by
    rw [Dump.levels]
    omega
  simp only [same]

end InterfaceHeader
