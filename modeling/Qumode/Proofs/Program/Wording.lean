import Mathlib.Algebra.GroupWithZero.Nat
import Mathlib.Data.Bool.AllAny
import Qumode.Program.Line
import Qumode.Proofs.Steps
import Qumode.Proofs.Text.Occurrences

/-!
# The wording of a program

A line that applies no operation is worded by the program itself: fixed words stand between the
numbers of the circuit and of the settings (`Numbered`). A line that applies an operation has the
name of the operation in front, and behind it a parameter list and operands, which are written with
few characters (`Statement.IsTrailing`).

A `Landmark` is a pattern that can only stand in the words and in the names: not in a number, not in
what follows a name, and not across any joint. So its occurrences in a program are those in the
words and in the names (`occurrences_render?`).
-/

namespace Qumode

/-! ## Words and numbers -/

/-- The text is made of the words with a number between each and the next. -/
inductive Numbered : List String → String → Prop where
  | word (w : String) : Numbered [w] w
  | number (w : String) (n : Nat) {words : List String} {text : String}
      (behind : Numbered words text) : Numbered (w :: words) (w ++ toString n ++ text)

/-- The words of two texts, one put behind the other. -/
def glue : List String → List String → List String
  | [], words => words
  | [w], [] => [w]
  | [w], v :: words => (w ++ v) :: words
  | w :: v :: words, words' => w :: glue (v :: words) words'

namespace Numbered

variable {words words' : List String} {text text' : String} {p : List Char}

theorem ne_nil (h : Numbered words text) : words ≠ [] := by
  cases h <;> exact List.cons_ne_nil _ _

/-- Two numbered texts side by side are numbered, the last word of the one glued to the first of the
other. -/
theorem append (h : Numbered words text) (h' : Numbered words' text') :
    Numbered (glue words words') (text ++ text') := by
  induction h with
  | word w =>
    cases h' with
    | word => exact .word _
    | number v n behind =>
      have joined := Numbered.number (w ++ v) n behind
      simp only [String.append_assoc] at joined ⊢
      exact joined
  | number w n behind ih =>
    obtain ⟨v, rest, rfl⟩ := List.exists_cons_of_ne_nil behind.ne_nil
    rw [String.append_assoc]
    exact .number w n ih

/-- A pattern without digits occurs in the words only. -/
theorem occurrences_eq (nonempty : p ≠ []) (digitless : ∀ x ∈ p, x.isDigit = false)
    (h : Numbered words text) :
    occurrences p text.toList = (words.map fun w => occurrences p w.toList).sum := by
  induction h with
  | word w => exact (Nat.add_zero _).symm
  | number w n behind ih =>
    have digits : (toString n).toList = Nat.toDigits 10 n := Nat.toList_repr
    have foreign : ∀ x ∈ Nat.toDigits 10 n, x ∉ p := by
      intro x digit inside
      have isDigit := Nat.isDigit_of_mem_toDigits (by decide) (by decide) digit
      rw [digitless x inside] at isDigit
      cases isDigit
    rw [String.toList_append, String.toList_append, digits,
      occurrences_between nonempty Nat.toDigits_ne_nil foreign, ih]
    rfl

end Numbered

/-! ## The lines of a program -/

def ReadoutKind.resultWords : ReadoutKind → List String
  | measure => ["bit"]
  | fockNumber => ["uint[", "]"]
  | homodyne => ["float[", "]"]
  | heterodyne => ["complex[float[", "]]"]

def Register.words (register : Register) : List String := [register.text ++ "[", "]"]

/-- The words behind the name of a readout. -/
def Line.readWords (register : Register) (asCall : Bool) : List String :=
  if asCall then glue (glue ["("] register.words) [")"] else glue [" "] register.words

/-- The words of a line that applies no operation. -/
def Line.words : Line → List String
  | version => ["OPENQASM 3.0;"]
  | includeFile name => ["include \"" ++ name ++ "\";"]
  | blank => [""]
  | declaration keyword _ register => [keyword.text ++ "[", "] " ++ register.text ++ ";"]
  | stub kind =>
    glue (glue ["def " ++ kind.keyword ++ "(" ++ WireType.discrete.text ++ " r) -> "]
      kind.resultWords) [" \x7b\x7d"]
  | openPreparation => ["def " ++ preparation ++ "() \x7b"]
  | reset register => ["reset " ++ register.text ++ ";"]
  | closePreparation => ["\x7d"]
  | callPreparation => [preparation ++ "();"]
  | readout kind _ operand asCall =>
    glue (glue (glue (glue (glue kind.resultWords [" c", ""]) [" = "]) [kind.keyword])
      (readWords operand.register asCall)) [";"]
  | prepare _ | rotate _ => []

/-- A result type is worded around its width. -/
theorem ReadoutKind.resultType_numbered (s : Settings) (kind : ReadoutKind) :
    Numbered kind.resultWords (kind.resultType s) := by
  cases kind with
  | measure => exact .word "bit"
  | fockNumber => exact .number "uint[" s.intBits.toNat (.word "]")
  | homodyne => exact .number "float[" s.floatBits.toNat (.word "]")
  | heterodyne => exact .number "complex[float[" s.floatBits.toNat (.word "]]")

/-- An operand is a register around its index. -/
theorem Operand.text_numbered (o : Operand) : Numbered o.register.words o.text :=
  .number (o.register.text ++ "[") o.index (.word "]")

/-- A readout names its operand in brackets when it is a call, and behind a blank otherwise. -/
theorem Line.readWords_numbered (o : Operand) (asCall : Bool) :
    Numbered (readWords o.register asCall)
      (if asCall then "(" ++ o.text ++ ")" else " " ++ o.text) := by
  cases asCall with
  | true => exact ((Numbered.word "(").append o.text_numbered).append (.word ")")
  | false => exact (Numbered.word " ").append o.text_numbered

/-- The operation that a line applies. -/
def Line.statement? : Line → Option Statement
  | prepare st | rotate st => some st
  | _ => none

/-- A line without a statement has the words of its kind, with numbers between them. -/
theorem Line.content_numbered {s : Settings} {line : Line} {text : String}
    (worded : line.statement? = none) (written : line.content? s = some text) :
    Numbered line.words text := by
  cases line with
  | prepare st => cases worded
  | rotate st => cases worded
  | declaration keyword count register =>
    cases written
    have numbered := Numbered.number (keyword.text ++ "[") count
      (.word ("] " ++ register.text ++ ";"))
    rwa [← String.append_assoc, ← String.append_assoc] at numbered
  | stub kind =>
    cases written
    exact ((Numbered.word _).append (kind.resultType_numbered s)).append (.word _)
  | readout kind i operand asCall =>
    cases written
    have named := (kind.resultType_numbered s).append (.number " c" i (.word ""))
    rw [String.append_empty, ← String.append_assoc] at named
    exact (((named.append (.word " = ")).append (.word kind.keyword)).append
      (readWords_numbered operand asCall)).append (.word ";")
  | _ =>
    cases written
    exact .word _

/-! ## What follows a name -/

/-- A character of a written parameter. -/
def Param.IsWritten (ch : Char) : Prop :=
  ch.isDigit = true ∨ ch ∈ ['-', '.', 'N', 'a', 'i', 'n', 'f']

/-- A character of the parameter list and the operands of a statement. -/
def Statement.IsTrailing (ch : Char) : Prop :=
  Param.IsWritten ch ∨ ch ∈ ['(', ')', ' ', ',', '[', ']', 'q', 'm', ';']

instance : DecidablePred Param.IsWritten := fun _ => inferInstanceAs (Decidable (_ ∨ _))

instance : DecidablePred Statement.IsTrailing := fun _ => inferInstanceAs (Decidable (_ ∨ _))

/-- A text that is not empty, of characters of parameters. -/
def Param.Written (text : String) : Prop := text.toList ≠ [] ∧ ∀ ch ∈ text.toList, IsWritten ch

namespace Real64

/-- A number of places is written with digits, a point and nothing else. -/
theorem mem_withPoint {n places : Nat} {ch : Char} (mem : ch ∈ withPoint n places) :
    Param.IsWritten ch := by
  have padded : ∀ x ∈ List.replicate (places + 1 - (Nat.toDigits 10 n).length) '0' ++
      Nat.toDigits 10 n, Param.IsWritten x := by
    intro x hx
    rcases List.mem_append.1 hx with zero | digit
    · rw [List.eq_of_mem_replicate zero]
      exact .inl rfl
    · exact .inl (Nat.isDigit_of_mem_toDigits (by decide) (by decide) digit)
  unfold withPoint at mem
  split at mem
  · exact padded ch (List.mem_of_mem_take mem)
  · rcases List.mem_append.1 mem with whole | point
    · exact padded ch (List.mem_of_mem_take whole)
    · rcases List.mem_cons.1 point with rfl | fraction
      · exact .inr (by decide)
      · exact padded ch (List.mem_of_mem_drop fraction)

theorem withPoint_ne_nil (n places : Nat) : withPoint n places ≠ [] := by
  intro empty
  have length := congrArg List.length empty
  unfold withPoint at length
  split at length
  · simp at length
    omega
  · simp at length

/-- A real in fixed places is written with the characters of numbers. -/
theorem fixedText_written (x : Real64) (places : Nat) : Param.Written (x.fixedText places) := by
  unfold fixedText
  split
  case isTrue => exact ⟨by decide, List.all_iff_forall_prop.1 (by decide)⟩
  case isFalse =>
    have magnitude : (if x.isInfinite then ['i', 'n', 'f']
        else withPoint (x.scaledMagnitude places) places) ≠ [] ∧
        ∀ ch ∈ (if x.isInfinite then ['i', 'n', 'f']
          else withPoint (x.scaledMagnitude places) places), Param.IsWritten ch := by
      split
      · exact ⟨by decide, List.all_iff_forall_prop.1 (by decide)⟩
      · exact ⟨withPoint_ne_nil _ _, fun ch => mem_withPoint⟩
    rw [Param.Written, String.toList_ofList]
    split
    · exact ⟨List.cons_ne_nil _ _, List.forall_mem_cons.2 ⟨.inr (by decide), magnitude.2⟩⟩
    · exact magnitude

end Real64

/-- A natural number is written with digits. -/
theorem Nat.written_toString (n : Nat) : Param.Written (toString n) := by
  have digits : (toString n).toList = Nat.toDigits 10 n := Nat.toList_repr
  rw [Param.Written, digits]
  exact ⟨Nat.toDigits_ne_nil, fun ch digit =>
    .inl (Nat.isDigit_of_mem_toDigits (by decide) (by decide) digit)⟩

/-- Whatever is written for a parameter has the characters of numbers alone. -/
theorem Param.text_written {precision : Nat} {p : Param} {text : String}
    (written : p.text? precision = some text) : Written text := by
  cases p with
  | real x =>
    obtain ⟨-, found⟩ := Option.ite_none_right_eq_some.1 written
    cases found
    exact x.fixedText_written precision
  | int value =>
    cases written
    have signed : toString value.toInt =
        if 0 ≤ value.toInt then value.toInt.toNat.repr else "-" ++ (-value.toInt).toNat.repr :=
      Int.repr_eq_if
    rw [signed]
    split
    · exact Nat.written_toString _
    · obtain ⟨-, digits⟩ := Nat.written_toString (-value.toInt).toNat
      rw [Written, String.toList_append]
      exact ⟨List.cons_ne_nil _ _, List.forall_mem_cons.2 ⟨.inr (by decide), digits⟩⟩

/-- A character of joined texts is in the separator or in one of the texts. -/
theorem mem_intercalate {separator : String} {texts : List String} {ch : Char}
    (mem : ch ∈ (separator.intercalate texts).toList) :
    ch ∈ separator.toList ∨ ∃ text ∈ texts, ch ∈ text.toList := by
  rw [String.toList_intercalate] at mem
  induction texts with
  | nil => cases mem
  | cons text rest ih =>
    cases rest with
    | nil => exact .inr ⟨text, List.mem_singleton_self _, by simpa using mem⟩
    | cons next rest =>
      rw [List.map_cons, List.map_cons, List.intercalate_cons_cons, List.mem_append,
        List.mem_append] at mem
      rcases mem with (first | between) | later
      · exact .inr ⟨text, List.mem_cons_self, first⟩
      · exact .inl between
      · rcases ih later with between | ⟨other, listed, inside⟩
        · exact .inl between
        · exact .inr ⟨other, List.mem_cons_of_mem _ listed, inside⟩

/-- A list of texts begins with the first character of the first. -/
theorem intercalate_begins {text : String} {d : Char} {ds : List Char}
    (first : text.toList = d :: ds) (separator : String) (rest : List String) :
    ∃ more, (separator.intercalate (text :: rest)).toList = d :: more := by
  rw [String.toList_intercalate]
  cases rest with
  | nil => exact ⟨ds, by simpa using first⟩
  | cons next rest =>
    rw [List.map_cons, List.map_cons, List.intercalate_cons_cons, first]
    exact ⟨_, rfl⟩

/-- An operand brings nothing into a statement but trailing characters. -/
theorem Operand.text_trailing (o : Operand) : ∀ ch ∈ o.text.toList, Statement.IsTrailing ch := by
  obtain ⟨register, index⟩ := o
  have named : ∀ ch ∈ register.text.toList, Statement.IsTrailing ch := by
    cases register <;> exact List.all_iff_forall_prop.1 (by decide)
  have position : ∀ ch ∈ (toString index).toList, Statement.IsTrailing ch :=
    fun ch digit => .inl ((Nat.written_toString index).2 ch digit)
  simp only [text, String.toList_append, List.forall_mem_append]
  exact ⟨⟨⟨named, List.all_iff_forall_prop.1 (by decide)⟩, position⟩,
    List.all_iff_forall_prop.1 (by decide)⟩

/-- Neither do operands in a row. -/
theorem Statement.operands_trailing (operands : List Operand) :
    ∀ ch ∈ (", ".intercalate (operands.map Operand.text)).toList, IsTrailing ch := by
  have separator : ∀ ch ∈ ", ".toList, IsTrailing ch :=
    List.all_iff_forall_prop.1 (by decide)
  intro ch mem
  rcases mem_intercalate mem with between | ⟨text, listed, inside⟩
  · exact separator ch between
  · obtain ⟨o, -, rfl⟩ := List.mem_map.1 listed
    exact o.text_trailing ch inside

/-- Neither do parameters in a row. -/
theorem Statement.params_trailing {precision : Nat} {params : List Param} {texts : List String}
    (written : params.mapM (Param.text? precision) = some texts) :
    ∀ ch ∈ (", ".intercalate texts).toList, IsTrailing ch := by
  have separator : ∀ ch ∈ ", ".toList, IsTrailing ch :=
    List.all_iff_forall_prop.1 (by decide)
  intro ch mem
  rcases mem_intercalate mem with between | ⟨text, listed, inside⟩
  · exact separator ch between
  · obtain ⟨p, -, found⟩ := Steps.exists_left_of_mem (Steps.mapM_eq_some.1 written) listed
    exact .inl ((Param.text_written found).2 ch inside)

/-! ## Landmarks -/

/-- A pattern that stands in words and in names only. -/
structure Landmark (p : List Char) : Prop where
  nonempty : p ≠ []
  digitless : ∀ ch ∈ p, ch.isDigit = false
  blankless : ' ' ∉ p
  /-- It does not stand in what follows a name. -/
  beyond : ∃ ch ∈ p, ¬ Statement.IsTrailing ch
  /-- It does not lie across the beginning of a parameter list. -/
  bracket : ∀ i < p.length, p[i]? = some '(' → p[i + 1]? = some ')'
  /-- It does not lie across the end of a line. -/
  lineBreak : '\n' ∉ p ∨ p = ['\n']
  /-- No gate of the includes is spelled with it. -/
  gates : ∀ gate ∈ Gate.standardGates ++ Gate.continuousGates,
    occurrences p gate.1.toList = 0 ∧ occurrences p gate.2.toList = 0

namespace Landmark

variable {p : List Char} (mark : Landmark p)

include mark

theorem apart_lineBreak (b : List Char) : Apart p ('\n' :: b) := by
  rcases mark.lineBreak with missing | alone
  · exact apart_cons missing b
  · exact alone ▸ apart_singleton '\n' _

/-- A line break is looked at by itself: no occurrence lies across it. -/
theorem occurrences_lineBreak (b : List Char) :
    occurrences p ('\n' :: b) = occurrences p ['\n'] + occurrences p b := by
  rcases mark.lineBreak with missing | alone
  · have foreign : ∀ ch ∈ ['\n'], ch ∉ p := by simpa using missing
    have before := occurrences_append_of_foreign mark.nonempty foreign
    rw [← List.singleton_append, before, ← List.append_nil ['\n'], before,
      occurrences_nil mark.nonempty, Nat.zero_add]
  · exact occurrences_append mark.nonempty (alone ▸ apart_singleton '\n' b) ['\n']

/-- No occurrence lies across the beginning of a parameter list. -/
theorem apart_bracket {d : Char} (open_list : d ≠ ')') (b : List Char) :
    Apart p ('(' :: d :: b) := by
  rintro s (- | ⟨x, t⟩) split before inside within
  · exact inside rfl
  · obtain ⟨rfl, behind⟩ := List.cons_prefix_cons.1 within
    have closed := mark.bracket s.length (by simp [split]) (by simp [split])
    obtain - | ⟨y, t⟩ := t
    · simp [split] at closed
    · obtain ⟨rfl, -⟩ := List.cons_prefix_cons.1 behind
      simp [split] at closed
      exact open_list closed

/-- A gate is written without the pattern, and another operation under its own name. -/
theorem occurrences_written (name : String) :
    occurrences p (Gate.written name).toList = occurrences p name.toList := by
  unfold Gate.written
  cases found : Gate.qasmName? name with
  | none => rfl
  | some spelling =>
    have listed : (name, spelling) ∈ Gate.standardGates ++ Gate.continuousGates := by
      unfold Gate.qasmName? at found
      obtain ⟨before, after, split, -⟩ := List.lookup_eq_some_iff.1 found
      rw [split]
      exact List.mem_append_right before List.mem_cons_self
    obtain ⟨named, spelled⟩ := mark.gates _ listed
    rw [Option.getD_some, named, spelled]

/-- Behind a name, what a pattern does not begin in and does not occur in. -/
theorem occurrences_named (name : List Char) {tail : List Char} (apart : Apart p tail)
    (trailing : ∀ ch ∈ tail, Statement.IsTrailing ch) :
    occurrences p (name ++ tail) = occurrences p name := by
  obtain ⟨ch, inside, foreign⟩ := mark.beyond
  have nowhere : occurrences p tail = 0 :=
    occurrences_eq_zero inside fun mem => foreign (trailing ch mem)
  rw [occurrences_append mark.nonempty apart, nowhere, Nat.add_zero]

/-- A statement holds the pattern where the name of its operation does. -/
theorem occurrences_statement {precision : Nat} {st : Statement} {text : String}
    (written : st.text? precision = some text) :
    occurrences p text.toList = occurrences p st.name.toList := by
  obtain ⟨name, params, operands⟩ := st
  have closing : ∀ ch ∈ (", ".intercalate (operands.map Operand.text)).toList ++ ";".toList,
      Statement.IsTrailing ch :=
    List.forall_mem_append.2 ⟨Statement.operands_trailing operands,
      List.all_iff_forall_prop.1 (by decide)⟩
  rw [← mark.occurrences_written name]
  cases params with
  | nil =>
    cases written
    rw [String.toList_append, String.toList_append, String.toList_append, List.append_assoc,
      List.append_assoc]
    refine mark.occurrences_named _ (apart_cons mark.blankless _) ?_
    exact List.forall_mem_append.2 ⟨List.all_iff_forall_prop.1 (by decide), closing⟩
  | cons param params =>
    obtain ⟨texts, listed, rfl⟩ := Option.map_eq_some_iff.1 written
    have inside := Statement.params_trailing listed
    obtain ⟨text, rest, first, -, rfl⟩ := List.forall₂_cons_left_iff.1
      (Steps.mapM_eq_some.1 listed)
    obtain ⟨nonempty, chars⟩ := Param.text_written first
    obtain ⟨d, ds, begins⟩ := List.exists_cons_of_ne_nil nonempty
    obtain ⟨more, continued⟩ := intercalate_begins begins ", " rest
    have unclosed : d ≠ ')' := by
      rintro rfl
      have written := chars ')' (begins ▸ List.mem_cons_self)
      revert written
      decide
    simp only [String.toList_append, List.append_assoc]
    refine mark.occurrences_named _ ?_ ?_
    · rw [continued]
      exact mark.apart_bracket unclosed _
    · refine List.forall_mem_append.2 ⟨List.all_iff_forall_prop.1 (by decide),
        List.forall_mem_append.2 ⟨inside, ?_⟩⟩
      exact List.forall_mem_append.2 ⟨List.all_iff_forall_prop.1 (by decide), closing⟩

end Landmark

/-- How often a line holds a pattern: in its words, or in the name of its operation. -/
def Line.marks (p : List Char) (line : Line) : Nat :=
  match line.statement? with
  | some st => occurrences p st.name.toList
  | none => (line.words.map fun w => occurrences p w.toList).sum

theorem toList_pushn (s : String) (ch : Char) (n : Nat) :
    (s.pushn ch n).toList = s.toList ++ List.replicate n ch := by
  induction n with
  | zero => exact (List.append_nil _).symm
  | succ n ih =>
    have last : s.pushn ch (n + 1) = (s.pushn ch n).push ch := rfl
    rw [last, String.toList_push, ih, List.append_assoc, ← List.replicate_succ']

/-- A landmark occurs in the text of a line as often as the line's kind and its name bring it. -/
theorem Line.occurrences_text {p : List Char} (mark : Landmark p) {s : Settings} {line : Line}
    {text : String} (written : line.text? s = some text) :
    occurrences p text.toList = line.marks p := by
  obtain ⟨content, worded, rfl⟩ := Option.map_eq_some_iff.1 written
  have unindented : occurrences p content.toList = line.marks p := by
    unfold marks
    cases applied : line.statement? with
    | none => exact (content_numbered applied worded).occurrences_eq mark.nonempty mark.digitless
    | some st =>
      have statement : line.content? s = st.text? s.precision.toNat := by
        cases line <;> cases applied <;> rfl
      exact mark.occurrences_statement (statement ▸ worded)
  split
  case isFalse => exact unindented
  case isTrue =>
    have blanks : ∀ ch ∈ List.replicate s.indent.toNat ' ', ch ∉ p := by
      intro ch mem
      rw [List.eq_of_mem_replicate mem]
      exact mark.blankless
    rw [String.toList_append, toList_pushn, List.append_assoc]
    exact (occurrences_append_of_foreign mark.nonempty blanks _).trans unindented

/-- The occurrences of a landmark in a program are those in its lines. -/
theorem Line.occurrences_render? {p : List Char} (mark : Landmark p) {s : Settings}
    {lines : List Line} {text : String} (rendered : render? s lines = some text) :
    occurrences p text.toList =
      (lines.map fun line => line.marks p + occurrences p ['\n']).sum := by
  obtain ⟨texts, written, rfl⟩ := Option.map_eq_some_iff.1 rendered
  rw [String.toList_join]
  have each := Steps.mapM_eq_some.1 written
  clear written rendered
  induction each with
  | nil => exact occurrences_nil mark.nonempty
  | @cons line text lines texts first _ ih =>
    have ended (rest : List Char) :
        (text ++ "\n").toList ++ rest = text.toList ++ '\n' :: rest := by
      rw [String.toList_append, List.append_assoc]
      rfl
    rw [List.map_cons, List.flatMap_cons, ended,
      occurrences_append mark.nonempty (mark.apart_lineBreak _), mark.occurrences_lineBreak, ih,
      occurrences_text mark first, List.map_cons, List.sum_cons, Nat.add_assoc]

end Qumode
