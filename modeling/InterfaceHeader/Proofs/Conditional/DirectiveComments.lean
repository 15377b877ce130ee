import InterfaceHeader.Proofs.Conditional.Comments
import InterfaceHeader.Proofs.Conditional.DirectiveLines

/-!
# Comments in a directive

Reading a directive blanks out the comments in its arguments, so a comment there may as well be a
space. The name of the directive is cut off before that. Where a block comment stands between the
hash mark and the name, the name is not found, and the directive is read as one without a name.
-/

namespace InterfaceHeader

/-! ## Places outside comments -/

namespace CommentState

theorem behind_lineComment_inLine {cs : List Char} (inLine : '\n' ∉ cs) :
    lineComment.behind cs = lineComment := by
  induction cs with
  | nil => rfl
  | cons c cs ih =>
      have other : c ≠ '\n' := fun same => inLine (same ▸ List.mem_cons_self)
      have later := ih fun mem => inLine (List.mem_cons_of_mem _ mem)
      simpa [behind, other] using later

theorem behind_other {c : Char} (noSlash : c ≠ '/') (cs : List Char) :
    code.behind (c :: cs) = code.behind cs := by
  rw [behind]
  · exact fun _ same => absurd same noSlash
  · exact fun _ same => absurd same noSlash

end CommentState

/-- No comment is open at the end of the text, and none can start on its last character. -/
def OutsideComments (front : List Char) : Prop :=
  ∀ rest, CommentState.code.behind (front ++ rest) = CommentState.code.behind rest

/-- Behind a place outside comments, comments are what they are in the rest alone. -/
theorem comments_append (inside : Bool) {front : List Char}
    (outside : ∀ rest, (CommentState.ofInside inside).behind (front ++ rest) =
      CommentState.code.behind rest)
    (inLine : '\n' ∉ front) (rest : List Char) :
    withoutComments inside (front ++ rest) =
        withoutComments inside front ++ withoutComments false rest ∧
      endsInComment inside (front ++ rest) = endsInComment false rest := by
  fun_induction withoutComments inside front with
  | case1 inside =>
      cases inside with
      | true => exact absurd (outside []) (by decide)
      | false => exact ⟨rfl, rfl⟩
  | case2 cs ih =>
      exact ih (fun rest => outside rest) (by simp_all)
  | case3 c cs noMark ih =>
      cases cs with
      | nil => exact absurd (outside []) (by simp [CommentState.ofInside, CommentState.behind])
      | cons d cs =>
          have apart : c = '*' → d ≠ '/' := by
            rintro rfl rfl
            exact noMark cs rfl rfl
          have later := ih (fun more => by
            simpa +contextual [CommentState.ofInside, CommentState.behind, apart] using
              outside more)
            (by simp_all)
          simpa +contextual [withoutComments, endsInComment, apart] using later
  | case4 cs ih => exact (ih (fun rest => outside rest) (by simp_all)).imp (congrArg _) id
  | case5 cs =>
      have inComment : '
' ∉ cs := by simp_all
      have stays := CommentState.behind_lineComment_inLine inComment
      have here := outside []
      rw [List.append_nil] at here
      exact absurd (stays.symm.trans here) (by decide)
  | case6 c cs noBlock noLine ih =>
      cases cs with
      | nil =>
          have noSlash : c ≠ '/' := by
            rintro rfl
            exact absurd (outside ['*']) (by decide)
          simp [withoutComments, endsInComment, noSlash]
      | cons d cs =>
          have noBlock : c = '/' → d ≠ '*' := by
            rintro rfl rfl
            exact noBlock cs rfl rfl
          have noLine : c = '/' → d ≠ '/' := by
            rintro rfl rfl
            exact noLine cs rfl rfl
          have later := ih (fun more => by
            simpa +contextual [CommentState.ofInside, CommentState.behind, noBlock, noLine] using
              outside more) (by simp_all)
          simpa +contextual [withoutComments, endsInComment, noBlock, noLine] using later


namespace OutsideComments

variable {front rest : List Char}

theorem withoutComments (outside : OutsideComments front) (inLine : '\n' ∉ front)
    (rest : List Char) :
    withoutComments false (front ++ rest) =
      InterfaceHeader.withoutComments false front ++ InterfaceHeader.withoutComments false rest :=
  (comments_append false outside inLine rest).1

theorem endsInComment (outside : OutsideComments front) (inLine : '\n' ∉ front)
    (rest : List Char) :
    endsInComment false (front ++ rest) = InterfaceHeader.endsInComment false rest :=
  (comments_append false outside inLine rest).2

theorem of_not_mem (noSlash : '/' ∉ front) : OutsideComments front := by
  intro rest
  induction front with
  | nil => rfl
  | cons c front ih =>
      have other : c ≠ '/' := fun same => noSlash (same ▸ List.mem_cons_self)
      rw [List.cons_append, CommentState.behind_other other]
      exact ih fun mem => noSlash (List.mem_cons_of_mem c mem)

theorem back (outside : OutsideComments (front ++ rest)) (noSlash : '/' ∉ front) :
    OutsideComments rest := by
  intro more
  rw [← outside more, List.append_assoc, of_not_mem noSlash]

end OutsideComments

/-! ## Comments of one line -/

/-- A comment in a line and what it is replaced with, in front of the rest of the line: a block
    comment by a space, and a line comment, behind which there is no rest, by nothing. -/
inductive Blanked : List Char → List Char → List Char → Prop where
  | block {body behind : List Char} : ¬ ['*', '/'] <:+: body →
      Blanked ('/' :: '*' :: (body ++ ['*', '/'])) [' '] behind
  | line {body : List Char} : Blanked ('/' :: '/' :: body) [] []

/-- A block comment ends at its first close mark. -/
theorem comments_block {body : List Char} (closed : ¬ ['*', '/'] <:+: body) (rest : List Char) :
    withoutComments true (body ++ '*' :: '/' :: rest) = withoutComments false rest ∧
      endsInComment true (body ++ '*' :: '/' :: rest) = endsInComment false rest := by
  induction body with
  | nil => exact ⟨rfl, rfl⟩
  | cons c body ih =>
      have later := ih fun inside => closed (List.infix_cons inside)
      cases body with
      | nil => simp [withoutComments, endsInComment]
      | cons d body =>
          have apart : c = '*' → d ≠ '/' := by
            rintro rfl rfl
            exact closed (List.prefix_append ['*', '/'] body).isInfix
          simpa +contextual [withoutComments, endsInComment, apart] using later

namespace Blanked

variable {comment replacement behind : List Char}

/-- What is read of the arguments does not depend on whether the comment is blanked already. -/
theorem withoutComments (blanked : Blanked comment replacement behind) :
    withoutComments false (comment ++ behind) =
      InterfaceHeader.withoutComments false (replacement ++ behind) := by
  cases blanked with
  | line => rfl
  | @block body behind closed =>
      have rest := (comments_block closed behind).1
      simpa [InterfaceHeader.withoutComments] using rest

theorem endsInComment (blanked : Blanked comment replacement behind) :
    endsInComment false (comment ++ behind) =
      InterfaceHeader.endsInComment false (replacement ++ behind) := by
  cases blanked with
  | line => rfl
  | @block body behind closed =>
      have rest := (comments_block closed behind).2
      simpa [InterfaceHeader.endsInComment] using rest

/-- The comment starts with a slash. -/
theorem exists_slash (blanked : Blanked comment replacement behind) :
    ∃ rest, comment ++ behind = '/' :: rest := by
  cases blanked <;> exact ⟨_, rfl⟩

theorem noWord (blanked : Blanked comment replacement behind) : NoWord (comment ++ behind) := by
  obtain ⟨rest, slash⟩ := blanked.exists_slash
  rw [slash]
  exact (by decide : Text.isWordChar '/' = false)

theorem noWord_replacement (blanked : Blanked comment replacement behind) :
    NoWord (replacement ++ behind) := by
  cases blanked with
  | line => rfl
  | block => exact (by decide : Text.isWordChar ' ' = false)

/-- The comment is visible, and what it is replaced with is not. -/
theorem trimStart (blanked : Blanked comment replacement behind) :
    Text.trimStart (comment ++ behind) = comment ++ behind ∧
      Text.trimStart (replacement ++ behind) = Text.trimStart behind := by
  constructor
  · obtain ⟨rest, slash⟩ := blanked.exists_slash
    rw [slash]
    exact Text.trimStart_of_head (by decide : Text.isBlank '/' = false)
  · refine Text.trimStart_blanks ?_ behind
    cases blanked <;> decide

end Blanked

/-! ## Reading the directive -/

/-- What stands behind the hash mark of a directive line. -/
def behindHash (line : List Char) : List Char :=
  (Text.trimStart line).drop 1

/-- A directive line is blanks, the hash mark and what stands behind. -/
theorem exists_behindHash {line : List Char} (starts : startsDirective line = true) :
    ∃ blanks, line = blanks ++ '#' :: behindHash line ∧ blanks.all Text.isBlank = true ∧
      Text.trimStart line = '#' :: behindHash line := by
  obtain ⟨blanks, whole, blank, -⟩ := Text.exists_trimStart line
  have hash : Text.trimStart line = '#' :: behindHash line := by
    have first : (Text.trimStart line).head? = some '#' := by
      simpa [startsDirective] using starts
    rw [behindHash, List.drop_one]
    exact (List.cons_head?_tail first).symm
  exact ⟨blanks, by rwa [← hash], blank, hash⟩

theorem behindHash_append {line : List Char} (starts : startsDirective line = true)
    (rest : List Char) : behindHash (line ++ rest) = behindHash line ++ rest := by
  obtain ⟨-, -, -, hash⟩ := exists_behindHash starts
  have some : Text.trimStart line ≠ [] := by simp [hash]
  rw [behindHash, Text.trimStart_append some, hash]
  rfl

namespace Directive

/-- The name and the arguments of a directive by what stands behind its hash mark. -/
theorem split_eq (line : List Char) :
    split line =
      ((Text.trimStart (behindHash line)).takeWhile Text.isWordChar,
        Text.trim (withoutComments false
          ((Text.trimStart (behindHash line)).dropWhile Text.isWordChar))) := rfl

end Directive

/-- A word in front of no word is cut off as if nothing followed. -/
theorem wordChars_append (cs : List Char) {rest : List Char} (noWord : NoWord rest) :
    (cs ++ rest).takeWhile Text.isWordChar = cs.takeWhile Text.isWordChar ∧
      (cs ++ rest).dropWhile Text.isWordChar = cs.dropWhile Text.isWordChar ++ rest := by
  induction cs with
  | nil =>
      cases rest with
      | nil => exact ⟨rfl, rfl⟩
      | cons c rest =>
          have ends : Text.isWordChar c = false := noWord
          simp [ends]
  | cons c cs ih =>
      cases word : Text.isWordChar c with
      | true => simpa [word] using ih
      | false => simp [word]

/-- No slash stands in a directive in front of its arguments. -/
theorem exists_arguments {line : List Char} (starts : startsDirective line = true) :
    ∃ before, line = before ++ (Text.trimStart (behindHash line)).dropWhile Text.isWordChar ∧
      '/' ∉ before := by
  obtain ⟨indent, whole, indented, -⟩ := exists_behindHash starts
  obtain ⟨gap, spaced, blank, -⟩ := Text.exists_trimStart (behindHash line)
  have parts := List.takeWhile_append_dropWhile
    (p := Text.isWordChar) (l := Text.trimStart (behindHash line))
  refine ⟨indent ++ '#' :: (gap ++ (Text.trimStart (behindHash line)).takeWhile Text.isWordChar),
    ?_, ?_⟩
  · rw [List.append_assoc, List.cons_append, List.append_assoc, parts, ← spaced, ← whole]
  · have noWord : '/' ∉ (Text.trimStart (behindHash line)).takeWhile Text.isWordChar := by
      intro mem
      exact absurd (List.all_eq_true.mp List.all_takeWhile '/' mem) (by decide)
    have visible : Text.isBlank '/' = false := by decide
    simp [Text.not_mem_of_blanks indented visible, Text.not_mem_of_blanks blank visible, noWord]

/-- The place is in front of the name of the directive. -/
def Unnamed (front : List Char) : Prop :=
  Text.trimStart (behindHash front) = []

instance (front : List Char) : Decidable (Unnamed front) :=
  inferInstanceAs (Decidable (_ = _))

section

variable {front rest : List Char} (starts : startsDirective front = true)

include starts

/-- Behind its name a directive is read up to a place and from there on. -/
theorem split_of_named (named : ¬ Unnamed front) (outside : OutsideComments front)
    (inLine : '\n' ∉ front) (noWord : NoWord rest) :
    Directive.split (front ++ rest) =
      ((Text.trimStart (behindHash front)).takeWhile Text.isWordChar,
        Text.trim (withoutComments false
            ((Text.trimStart (behindHash front)).dropWhile Text.isWordChar) ++
          withoutComments false rest)) := by
  obtain ⟨name, arguments⟩ := wordChars_append (Text.trimStart (behindHash front)) noWord
  obtain ⟨before, whole, noSlash⟩ := exists_arguments starts
  rw [whole] at outside inLine
  have inArguments := fun mem => inLine (List.mem_append_right before mem)
  rw [Directive.split_eq, behindHash_append starts, Text.trimStart_append named, name, arguments,
    (outside.back noSlash).withoutComments inArguments]

/-- In front of its name nothing of a directive is read. -/
theorem split_of_unnamed (unnamed : Unnamed front) (rest : List Char) :
    (Directive.split (front ++ rest)).1 =
      (Text.trimStart rest).takeWhile Text.isWordChar := by
  rw [Directive.split_eq, behindHash_append starts,
    Text.trimStart_blanks (Text.blank_of_trimStart unnamed)]

end

theorem takeWhile_word_eq_nil_iff {cs : List Char} :
    cs.takeWhile Text.isWordChar = [] ↔ NoWord cs := by
  cases cs with
  | nil => exact ⟨fun _ => rfl, fun _ => rfl⟩
  | cons c cs => simp [NoWord, List.takeWhile_cons]

/-- A directive is read as one without a name just if it has none. -/
theorem ofText?_eq_nameless_iff {line : List Char} :
    Directive.ofText? line = .ok (.other "") ↔ (Directive.split line).1 = [] := by
  have read : Directive.ofText? line =
      Directive.ofParts? (String.ofList (Directive.split line).1) (Directive.split line).2 := rfl
  rw [read, ← String.ofList_eq_empty_iff]
  generalize String.ofList (Directive.split line).1 = name, (Directive.split line).2 = arguments
  have named {α : Type} (read : Except DirectiveFault α) {f : α → Directive}
      (known : ∀ a, f a ≠ .other "") : (do return f (← read)) ≠ .ok (.other "") := by
    cases read with
    | error fault => exact nofun
    | ok a => exact fun same => known a (Except.ok.inj same)
  constructor
  · unfold Directive.ofParts?
    intro read
    split at read
    all_goals first
      | exact absurd read (named _ fun _ => nofun)
      | cases read
    rfl
  · rintro rfl
    rfl

/-- The comment stands between the hash mark of a directive and its name. -/
def HidesName (front behind : List Char) : Prop :=
  Unnamed front ∧ ¬ NoWord (Text.trimStart behind)

instance (front behind : List Char) : Decidable (HidesName front behind) :=
  inferInstanceAs (Decidable (_ = _ ∧ ¬ _ = _))

/-- Blanking a comment changes what a directive says just if the comment hides its name. Then the
    directive is read as one without a name, and afterwards it is not. -/
theorem ofText?_blanked {front comment replacement behind : List Char}
    (starts : startsDirective front = true) (outside : OutsideComments front)
    (inLine : '\n' ∉ front) (blanked : Blanked comment replacement behind) :
    (¬ HidesName front behind →
      Directive.ofText? (front ++ (replacement ++ behind)) =
        Directive.ofText? (front ++ (comment ++ behind))) ∧
    (HidesName front behind →
      Directive.ofText? (front ++ (comment ++ behind)) = .ok (.other "") ∧
        Directive.ofText? (front ++ (replacement ++ behind)) ≠ .ok (.other "")) := by
  by_cases unnamed : Unnamed front
  · have hidden : Directive.ofText? (front ++ (comment ++ behind)) = .ok (.other "") := by
      rw [ofText?_eq_nameless_iff, split_of_unnamed starts unnamed, blanked.trimStart.1]
      exact takeWhile_word_eq_nil_iff.mpr blanked.noWord
    have shown : Directive.ofText? (front ++ (replacement ++ behind)) = .ok (.other "") ↔
        NoWord (Text.trimStart behind) := by
      rw [ofText?_eq_nameless_iff, split_of_unnamed starts unnamed, blanked.trimStart.2]
      exact takeWhile_word_eq_nil_iff
    refine ⟨fun notHidden => ?_, fun hides => ⟨hidden, mt shown.mp hides.2⟩⟩
    rw [hidden, shown]
    by_contra word
    exact notHidden ⟨unnamed, word⟩
  · have same : Directive.split (front ++ (replacement ++ behind)) =
        Directive.split (front ++ (comment ++ behind)) := by
      rw [split_of_named starts unnamed outside inLine blanked.noWord_replacement,
        split_of_named starts unnamed outside inLine blanked.noWord, blanked.withoutComments]
    refine ⟨fun _ => ?_, fun hides => absurd hides.1 unnamed⟩
    unfold Directive.ofText?
    rw [same]

/-! ## Carriage returns -/

/-- A carriage return at the end of a line is no part of a mark, so it is left as a blank or is
    part of the comment at the end. -/
theorem comments_return (inside : Bool) (line : List Char) :
    (∃ last, last.all Text.isBlank = true ∧
      withoutComments inside (line ++ ['\r']) = withoutComments inside line ++ last) ∧
      endsInComment inside (line ++ ['\r']) = endsInComment inside line := by
  have blank : ['\r'].all Text.isBlank = true := by decide
  fun_induction withoutComments inside line with
  | case1 inside =>
      cases inside with
      | true => exact ⟨⟨[], rfl, rfl⟩, rfl⟩
      | false => exact ⟨⟨['\r'], blank, rfl⟩, rfl⟩
  | case2 cs ih => exact ih
  | case3 c cs noMark ih =>
      cases cs with
      | nil => exact ⟨⟨[], rfl, by simp [withoutComments]⟩, by simp [endsInComment]⟩
      | cons d cs =>
          have apart : c = '*' → d ≠ '/' := by
            rintro rfl rfl
            exact noMark cs rfl rfl
          simpa +contextual [withoutComments, endsInComment, apart] using ih
  | case4 cs ih =>
      obtain ⟨⟨last, blank, trailing⟩, closed⟩ := ih
      exact ⟨⟨last, blank, congrArg (' ' :: ·) trailing⟩, closed⟩
  | case5 cs => exact ⟨⟨[], rfl, (List.append_nil _).symm⟩, rfl⟩
  | case6 c cs noBlock noLine ih =>
      cases cs with
      | nil => exact ⟨⟨['\r'], blank, by simp [withoutComments]⟩, by simp [endsInComment]⟩
      | cons d cs =>
          have noBlock : c = '/' → d ≠ '*' := by
            rintro rfl rfl
            exact noBlock cs rfl rfl
          have noLine : c = '/' → d ≠ '/' := by
            rintro rfl rfl
            exact noLine cs rfl rfl
          simpa +contextual [withoutComments, endsInComment, noBlock, noLine] using ih

/-- A carriage return at the end of a directive makes no difference to what it says. -/
theorem ofText?_return {line : List Char} (starts : startsDirective line = true) :
    Directive.ofText? (line ++ ['\r']) = Directive.ofText? line := by
  have noWord : NoWord ['\r'] := (by decide : Text.isWordChar '\r' = false)
  have same : Directive.split (line ++ ['\r']) = Directive.split line := by
    rw [Directive.split_eq, Directive.split_eq, behindHash_append starts]
    by_cases unnamed : Unnamed line
    · rw [Text.trimStart_blanks (Text.blank_of_trimStart unnamed), unnamed]
      rfl
    · obtain ⟨name, arguments⟩ := wordChars_append (Text.trimStart (behindHash line)) noWord
      obtain ⟨⟨last, blank, trailing⟩, -⟩ := comments_return false
        ((Text.trimStart (behindHash line)).dropWhile Text.isWordChar)
      have none : ([] : List Char).all Text.isBlank = true := rfl
      have trimmed := Text.trim_blanks none blank (withoutComments false
        ((Text.trimStart (behindHash line)).dropWhile Text.isWordChar))
      rw [Text.trimStart_append unnamed, name, arguments, trailing]
      exact Prod.ext rfl trimmed
  unfold Directive.ofText?
  rw [same]

end InterfaceHeader
