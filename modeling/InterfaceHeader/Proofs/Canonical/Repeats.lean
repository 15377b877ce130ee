import InterfaceHeader.Declaration.Signatures

/-!
# Functions that are declared again

The functions of a header, its duplicates, the search for a function and the canonical text are
passes of their own over the declarations. They agree on which declaration of a name counts, also
where a later one says the same and cannot be told from it by looking at it
(`functions_first_declared`). So they are followed here on occurrences, functions with the places at
which they are declared, and an occurrence is a duplicate if its name is declared in front of its
place.
-/

namespace InterfaceHeader

/-- A function with the place among the declarations at which it is declared. -/
structure Occurrence where
  place : Nat
  function : FunctionType

/-- The functions among declarations of which the first has a given place. -/
def occurrencesFrom (start : Nat) (ds : List Declaration) : List Occurrence :=
  (ds.zipIdx start).filterMap fun d => d.1.function?.map (Occurrence.mk d.2)

/-- The occurrences of functions whose name is neither `seen` nor that of an earlier one. -/
def firstOccurrences (seen : List String) : List Occurrence → List Occurrence
  | [] => []
  | o :: rest =>
    if o.function.name ∈ seen then firstOccurrences seen rest
    else o :: firstOccurrences (o.function.name :: seen) rest

/-- The occurrences of functions whose name is `seen` or that of an earlier one. -/
def laterOccurrences (seen : List String) : List Occurrence → List Occurrence
  | [] => []
  | o :: rest =>
    if o.function.name ∈ seen then o :: laterOccurrences seen rest
    else laterOccurrences (o.function.name :: seen) rest

/-- The declaration is one of a function of the name. -/
def Declaration.declares (d : Declaration) (name : String) : Bool :=
  d.function?.any fun f => f.name == name

/-- A function of the name is declared. -/
def declaredIn (ds : List Declaration) (name : String) : Bool :=
  ds.any fun d => d.declares name

/-- A function of the same name is declared in front of the occurrence. -/
def declaredBefore (ds : List Declaration) (o : Occurrence) : Bool :=
  declaredIn (ds.take o.place) o.function.name

namespace Header

/-- The functions of a header with their places. -/
def occurrences (h : Header) : List Occurrence :=
  occurrencesFrom 0 h.declarations

/-- Where the functions of a header are declared. -/
def functionOccurrences (h : Header) : List Occurrence :=
  firstOccurrences [] h.occurrences

/-- Where the duplicates of a header are declared. -/
def duplicateOccurrences (h : Header) : List Occurrence :=
  laterOccurrences [] h.occurrences

/-- Where the first function of a name is declared. -/
def findOccurrence? (h : Header) (name : String) : Option Occurrence :=
  h.occurrences.find? fun o => o.function.name == name

end Header

/-! ## Occurrences -/

variable {start : Nat} {ds : List Declaration} {f : FunctionType}

theorem occurrencesFrom_function (start : Nat) (f : FunctionType) (ds : List Declaration) :
    occurrencesFrom start (.function f :: ds) = ⟨start, f⟩ :: occurrencesFrom (start + 1) ds := rfl

theorem occurrencesFrom_other {d : Declaration} (other : d.function? = none) (start : Nat)
    (ds : List Declaration) :
    occurrencesFrom start (d :: ds) = occurrencesFrom (start + 1) ds := by
  rw [occurrencesFrom, List.zipIdx_cons, List.filterMap_cons]
  simp only [other, Option.map_none]
  rfl

theorem mem_occurrencesFrom {o : Occurrence} :
    o ∈ occurrencesFrom 0 ds ↔ ds[o.place]? = some (.function o.function) := by
  rw [occurrencesFrom, List.mem_filterMap]
  constructor
  · rintro ⟨⟨d, place⟩, among, made⟩
    obtain ⟨f, isFunction, rfl⟩ := Option.map_eq_some_iff.mp made
    cases d <;> cases isFunction
    exact List.mem_zipIdx_iff_getElem?.mp among
  · exact fun declared =>
      ⟨(.function o.function, o.place), List.mem_zipIdx_iff_getElem?.mpr declared, rfl⟩

theorem le_place_of_mem {o : Occurrence} (mem : o ∈ occurrencesFrom start ds) :
    start ≤ o.place := by
  obtain ⟨d, among, made⟩ := List.mem_filterMap.mp mem
  obtain ⟨f, -, rfl⟩ := Option.map_eq_some_iff.mp made
  exact List.le_snd_of_mem_zipIdx among

theorem map_function_occurrencesFrom (start : Nat) (ds : List Declaration) :
    (occurrencesFrom start ds).map Occurrence.function = ds.filterMap Declaration.function? := by
  induction ds generalizing start with
  | nil => rfl
  | cons d ds ih =>
      rw [List.filterMap_cons]
      cases other : d.function? with
      | none => rw [occurrencesFrom_other other, ih]
      | some f =>
          cases d <;> cases other
          rw [occurrencesFrom_function, List.map_cons, ih]

/-! ## First and later occurrences -/

theorem map_firstOccurrences (seen : List String) (os : List Occurrence) :
    (firstOccurrences seen os).map Occurrence.function =
      firstFunctions seen (os.map Occurrence.function) := by
  induction os generalizing seen with
  | nil => rfl
  | cons o os ih =>
      rw [firstOccurrences, List.map_cons, firstFunctions]
      split
      · exact ih seen
      · rw [List.map_cons, ih]

theorem map_laterOccurrences (seen : List String) (os : List Occurrence) :
    (laterOccurrences seen os).map Occurrence.function =
      repeatedFunctions seen (os.map Occurrence.function) := by
  induction os generalizing seen with
  | nil => rfl
  | cons o os ih =>
      rw [laterOccurrences, List.map_cons, repeatedFunctions]
      split
      · rw [List.map_cons, ih]
      · exact ih _

theorem mem_of_mem_laterOccurrences {seen : List String} {os : List Occurrence} {o : Occurrence}
    (mem : o ∈ laterOccurrences seen os) : o ∈ os := by
  induction os generalizing seen with
  | nil => exact mem
  | cons first os ih =>
      rw [laterOccurrences] at mem
      split at mem
      · rcases List.mem_cons.mp mem with rfl | mem
        · exact List.mem_cons_self
        · exact List.mem_cons_of_mem _ (ih mem)
      · exact List.mem_cons_of_mem _ (ih mem)

/-- The names that are kept are new and pairwise distinct. -/
theorem nodup_firstOccurrences (seen : List String) (os : List Occurrence) :
    (∀ o ∈ firstOccurrences seen os, o.function.name ∉ seen) ∧
      ((firstOccurrences seen os).map fun o => o.function.name).Nodup := by
  induction os generalizing seen with
  | nil => exact ⟨fun o mem => absurd mem List.not_mem_nil, List.nodup_nil⟩
  | cons first os ih =>
      rw [firstOccurrences]
      split
      case isTrue => exact ih seen
      case isFalse new =>
        obtain ⟨unseen, distinct⟩ := ih (first.function.name :: seen)
        constructor
        · intro o mem
          rcases List.mem_cons.mp mem with rfl | mem
          · exact new
          · exact fun known => unseen o mem (List.mem_cons_of_mem _ known)
        · rw [List.map_cons, List.nodup_cons]
          refine ⟨fun mem => ?_, distinct⟩
          obtain ⟨o, kept, same⟩ := List.mem_map.mp mem
          exact unseen o kept (same ▸ List.mem_cons_self)

/-- The first occurrence of a name that is not `seen` is the one that is kept. -/
theorem find?_eq_some_iff_mem_firstOccurrences {name : String} {seen : List String}
    (unseen : name ∉ seen) (os : List Occurrence) (o : Occurrence) :
    os.find? (fun o => o.function.name == name) = some o ↔
      o ∈ firstOccurrences seen os ∧ o.function.name = name := by
  induction os generalizing seen with
  | nil => simp [firstOccurrences]
  | cons first os ih =>
      rw [firstOccurrences]
      by_cases found : first.function.name = name
      · subst found
        rw [List.find?_cons_of_pos (by simp), if_neg unseen, Option.some.injEq,
          List.mem_cons]
        constructor
        · rintro rfl
          exact ⟨.inl rfl, rfl⟩
        · rintro ⟨rfl | kept, same⟩
          · rfl
          · exact absurd (same ▸ List.mem_cons_self) ((nodup_firstOccurrences _ os).1 o kept)
      · rw [List.find?_cons_of_neg (by simpa using found)]
        split
        · exact ih unseen
        · rw [ih (List.not_mem_cons_of_ne_of_not_mem (Ne.symm found) unseen), List.mem_cons]
          constructor
          · exact fun later => ⟨.inr later.1, later.2⟩
          · rintro ⟨rfl | kept, same⟩
            · exact absurd same found
            · exact ⟨kept, same⟩

/-! ## Names that are declared before -/

section Before

variable {before : List Declaration} {seen : List String}

theorem declaredIn_append_other {d : Declaration} (other : d.function? = none) (name : String) :
    declaredIn (before ++ [d]) name = declaredIn before name := by
  rw [declaredIn, List.any_append, List.any_cons, Declaration.declares, other]
  exact Bool.or_false _

theorem declaredIn_append_function (f : FunctionType) (name : String) :
    declaredIn (before ++ [.function f]) name = true ↔ name = f.name ∨ declaredIn before name := by
  rw [declaredIn, List.any_append, Bool.or_eq_true, or_comm, List.any_cons, List.any_nil,
    Bool.or_false]
  exact or_congr_left (beq_iff_eq.trans eq_comm)

theorem declaredBefore_here (before : List Declaration) (f : FunctionType)
    (ds : List Declaration) :
    declaredBefore (before ++ .function f :: ds) ⟨before.length, f⟩ =
      declaredIn before f.name := by
  rw [declaredBefore, List.take_left]

/-- Seeing the names of the functions one by one, the passes know at each declaration which names
are declared in front of it. -/
theorem occurrences_split (known : ∀ name, name ∈ seen ↔ declaredIn before name)
    (ds : List Declaration) :
    firstOccurrences seen (occurrencesFrom before.length ds) =
        (occurrencesFrom before.length ds).filter (fun o => !declaredBefore (before ++ ds) o) ∧
      laterOccurrences seen (occurrencesFrom before.length ds) =
        (occurrencesFrom before.length ds).filter (declaredBefore (before ++ ds)) := by
  induction ds generalizing before seen with
  | nil => exact ⟨rfl, rfl⟩
  | cons d ds ih =>
      have behind {seen' : List String}
          (known' : ∀ name, name ∈ seen' ↔ declaredIn (before ++ [d]) name) := ih known'
      rw [List.length_append, List.length_singleton, List.append_assoc, List.singleton_append]
        at behind
      cases other : d.function? with
      | none =>
          rw [occurrencesFrom_other other]
          exact behind fun name => by rw [known, declaredIn_append_other other]
      | some f =>
          cases d <;> cases other
          have here := declaredBefore_here before f ds
          rw [occurrencesFrom_function, firstOccurrences, laterOccurrences]
          by_cases repeated : f.name ∈ seen
          · rw [(known f.name).mp repeated] at here
            obtain ⟨first, later⟩ := behind fun name => by
              rw [declaredIn_append_function, ← known, iff_or_self]
              exact fun same => same ▸ repeated
            rw [if_pos repeated, if_pos repeated, first, later,
              List.filter_cons_of_neg (by rw [here]; decide), List.filter_cons_of_pos here]
            exact ⟨rfl, rfl⟩
          · rw [Bool.eq_false_iff.mpr (mt (known f.name).mpr repeated)] at here
            obtain ⟨first, later⟩ := behind fun name => by
              rw [declaredIn_append_function, ← known, List.mem_cons]
            rw [if_neg repeated, if_neg repeated, first, later,
              List.filter_cons_of_pos (by rw [here]; decide),
              List.filter_cons_of_neg (by rw [here]; decide)]
            exact ⟨rfl, rfl⟩

end Before

/-! ## The canonical text -/

/-- What is left out of the canonical text are the later occurrences, told apart by their places. -/
theorem dropRepeated_eq_filter (seen : List String) (start : Nat) (ds : List Declaration) :
    dropRepeated seen ds =
      ((ds.zipIdx start).filter fun d =>
        d.2 ∉ (laterOccurrences seen (occurrencesFrom start ds)).map Occurrence.place).map
          Prod.fst := by
  induction ds generalizing seen start with
  | nil => rfl
  | cons d ds ih =>
      have ahead (seen : List String) : start ∉
          (laterOccurrences seen (occurrencesFrom (start + 1) ds)).map Occurrence.place := by
        intro mem
        obtain ⟨o, later, same⟩ := List.mem_map.mp mem
        have := le_place_of_mem (mem_of_mem_laterOccurrences later)
        omega
      rw [List.zipIdx_cons]
      cases other : d.function? with
      | none =>
          rw [occurrencesFrom_other other, List.filter_cons_of_pos (by simpa using ahead seen),
            List.map_cons, ← ih]
          cases d <;> first | rfl | cases other
      | some f =>
          cases d <;> cases other
          rw [occurrencesFrom_function, dropRepeated, laterOccurrences]
          split
          · rw [ih seen (start + 1), List.map_cons, List.filter_cons_of_neg (by simp)]
            congr 1
            refine List.filter_congr fun d mem => ?_
            have := List.le_snd_of_mem_zipIdx mem
            have behind : d.2 ≠ start := by omega
            simp only [List.mem_cons, or_iff_right behind]
          · rw [List.filter_cons_of_pos (by simpa using ahead (f.name :: seen)), List.map_cons,
              ← ih]

theorem text_of_comment {d : Declaration} (comment : d.comment?.isNone = false) : d.text = "" := by
  cases d <;> first | rfl | cases comment

/-- Declarations without text need not be written. -/
theorem join_text_filter (keep : Declaration × Nat → Bool) (ds : List (Declaration × Nat))
    (empty : ∀ d ∈ ds, keep d = false → d.1.text = "") :
    String.join ((ds.map Prod.fst).map Declaration.text) =
      String.join ((ds.filter keep).map fun d => d.1.text) := by
  induction ds with
  | nil => rfl
  | cons d ds ih =>
      have ih := ih fun d mem => empty d (List.mem_cons_of_mem _ mem)
      rw [List.map_cons, List.map_cons, String.join_cons, ih]
      cases kept : keep d with
      | false =>
          rw [List.filter_cons_of_neg (by simp [kept]), empty d List.mem_cons_self kept,
            String.empty_append]
      | true => rw [List.filter_cons_of_pos kept, List.map_cons, String.join_cons]

theorem Header.signatures_eq_join (h : Header) :
    h.signatures =
      String.join ((h.declarations.zipIdx.filter fun d =>
        d.1.comment?.isNone && d.2 ∉ h.duplicateOccurrences.map Occurrence.place).map
          fun d => d.1.text) := by
  rw [signatures, dropRepeated_eq_filter [] 0,
    join_text_filter (fun d => d.1.comment?.isNone) _ fun d _ => text_of_comment,
    List.filter_filter]
  rfl

/-! ## The passes agree -/

/-- Every function of a header is declared at one place, and the passes over the declarations agree
on the places that count: those with no declaration of the name in front of them. Their functions
are the functions of the header, all others its duplicates, both in order. The function that is
found under a name is the one declared at the place that counts for it. The canonical text is that
of all declarations but comments and the very declarations that are duplicates, whatever they
say. -/
theorem functions_first_declared (h : Header) :
    (∀ o, o ∈ h.occurrences ↔ h.declarations[o.place]? = some (.function o.function)) ∧
    h.occurrences.map Occurrence.function = h.allFunctions ∧
    h.functionOccurrences = h.occurrences.filter (fun o => !declaredBefore h.declarations o) ∧
    h.duplicateOccurrences = h.occurrences.filter (declaredBefore h.declarations) ∧
    h.functions = h.functionOccurrences.map Occurrence.function ∧
    h.duplicateFunctions = h.duplicateOccurrences.map Occurrence.function ∧
    (h.functions.map FunctionType.name).Nodup ∧
    (∀ name, h.findFunction? name = (h.findOccurrence? name).map Occurrence.function ∧
      ∀ o, h.findOccurrence? name = some o ↔
        o ∈ h.functionOccurrences ∧ o.function.name = name) ∧
    h.signatures =
      String.join ((h.declarations.zipIdx.filter fun d =>
        d.1.comment?.isNone && d.2 ∉ h.duplicateOccurrences.map Occurrence.place).map
          fun d => d.1.text) := by
  have all : h.occurrences.map Occurrence.function = h.allFunctions :=
    map_function_occurrencesFrom 0 h.declarations
  have functions : h.functions = h.functionOccurrences.map Occurrence.function := by
    rw [Header.functions, Header.functionOccurrences, map_firstOccurrences, all]
  obtain ⟨first, later⟩ := @occurrences_split [] [] (fun name => by simp [declaredIn])
    h.declarations
  refine ⟨fun o => mem_occurrencesFrom, all, first, later, functions, ?_, ?_, fun name => ⟨?_, ?_⟩,
    h.signatures_eq_join⟩
  · rw [Header.duplicateFunctions, Header.duplicateOccurrences, map_laterOccurrences, all]
  · rw [functions, List.map_map]
    exact (nodup_firstOccurrences [] h.occurrences).2
  · rw [Header.findFunction?, ← all, List.find?_map]
    rfl
  · exact find?_eq_some_iff_mem_firstOccurrences List.not_mem_nil h.occurrences

/-- A repetition word for word is told from what it repeats. -/
example (f : FunctionType) :
    (Header.mk [.function f, .comment "// again", .function f]).duplicateOccurrences =
      [⟨2, f⟩] := by
  simp [Header.duplicateOccurrences, Header.occurrences, occurrencesFrom, laterOccurrences,
    Declaration.function?]

end InterfaceHeader
