import Mathlib.Data.List.Basic
import Qumode.Json.Reader
import Qumode.Json.Writer
import Qumode.Proofs.Document.Writable
import Qumode.Proofs.Json.Decimal

/-!
# Tokens read back

A token that is written reads back as itself, whatever follows it, as long as no numeral runs into
another (`Token.next?_chars`). A numeral ends where a character stands that it cannot go on with,
and every token but a numeral begins with such a character. So reading the characters of tokens that
are `Apart` is stepping through the tokens (`read?_chars`), with no care for fuel and blanks left.
-/

namespace Qumode.Json

/-- No digit stands in front. -/
def NoDigit (cs : List Char) : Prop := ∀ c ∈ cs.head?, c.isDigit = false

/-- A numeral does not go on with this character. -/
def Stops (c : Char) : Prop := c.isDigit = false ∧ c ≠ '.' ∧ c ≠ 'e' ∧ c ≠ 'E'

/-- What may stand behind a numeral: nothing, or a character that stops it. -/
def Ends (cs : List Char) : Prop := ∀ c ∈ cs.head?, Stops c

theorem Ends.noDigit {cs : List Char} (ends : Ends cs) : NoDigit cs := fun c hc => (ends c hc).1

theorem noDigit_cons {c : Char} {cs : List Char} (hc : c.isDigit = false) : NoDigit (c :: cs) := by
  intro d hd
  obtain rfl := Option.some.inj hd
  exact hc

/-- A run of digits ends where no digit follows. -/
theorem span_append {ds rest : List Char} (digits : ∀ c ∈ ds, c.isDigit = true)
    (noDigit : NoDigit rest) : Digit.span (ds ++ rest) = (ds, rest) := by
  rw [Digit.span, List.takeWhile_append_of_pos digits, List.dropWhile_append_of_pos digits]
  cases rest with
  | nil => simp
  | cons c rest =>
    have stops := noDigit c rfl
    simp [stops]

/-- Only zero is written with a zero in front. -/
theorem toDigits_eq_zero_cons {n : Nat} {ds : List Char} (zero : Nat.toDigits 10 n = '0' :: ds) :
    ds = [] := by
  induction n using Nat.strongRecOn generalizing ds with
  | ind n ih =>
    obtain small | large := Nat.lt_or_ge n 10
    · rw [Nat.toDigits_of_lt_base small] at zero
      exact (List.cons.inj zero).2.symm
    · rw [Nat.toDigits_of_base_le (by decide) large] at zero
      cases front : Nat.toDigits 10 (n / 10) with
      | nil => exact absurd front Nat.toDigits_ne_nil
      | cons c cs =>
        rw [front, List.cons_append] at zero
        rw [(List.cons.inj zero).1] at front
        have rest := ih (n / 10) (by omega) front
        have value := Nat.ofDigitChars_ten_toDigits (n := n / 10)
        rw [front, rest] at value
        have vanishes : n / 10 = 0 := value.symm
        omega

namespace Token

section Decimals

variable {rest : List Char}

/-- The digits of a number are read as its whole part. -/
theorem whole?_toDigits (n : Nat) (noDigit : NoDigit rest) :
    whole? (Nat.toDigits 10 n ++ rest) = some (n, rest) := by
  rw [whole?, span_append (fun _ => Decimal.isDigit_of_mem_toDigits) noDigit]
  split
  case h_1 none h => exact absurd (congrArg Prod.fst h) Nat.toDigits_ne_nil
  case h_2 superfluous h => nomatch toDigits_eq_zero_cons (congrArg Prod.fst h)
  case h_3 ds rest' _ _ h =>
    obtain ⟨rfl, rfl⟩ := Prod.mk.inj h
    rw [Nat.ofDigitChars_ten_toDigits]

/-- The digits of a number are read as that number. -/
theorem digits?_toDigits (n : Nat) (noDigit : NoDigit rest) :
    digits? (Nat.toDigits 10 n ++ rest) = some (n, rest) := by
  rw [digits?, span_append (fun _ => Decimal.isDigit_of_mem_toDigits) noDigit]
  split
  case h_1 none h => exact absurd (congrArg Prod.fst h) Nat.toDigits_ne_nil
  case h_2 ds rest' _ h =>
    obtain ⟨rfl, rfl⟩ := Prod.mk.inj h
    rw [Nat.ofDigitChars_ten_toDigits]

/-- The fraction of a decimal as written. -/
def fractionChars (fraction : List Char) : List Char :=
  if fraction.isEmpty then [] else '.' :: fraction

/-- The power of ten of a decimal as written. -/
def exponentChars : Option Int → List Char
  | none => []
  | some (.ofNat power) => 'e' :: Nat.toDigits 10 power
  | some (.negSucc power) => 'e' :: '-' :: Nat.toDigits 10 (power + 1)

/-- A decimal is its sign, its whole part, its fraction and its power of ten, one after another. -/
theorem text_eq (n : Decimal) : n.text =
    (if n.negative then ['-'] else []) ++ Nat.toDigits 10 n.whole ++ fractionChars n.fraction
      ++ exponentChars n.exponent := by
  unfold Decimal.text exponentChars
  rfl

/-- A fraction is read back, and none is read where no point follows. -/
theorem fraction?_chars {fraction : List Char} (plain : ∀ c ∈ fraction, c.isDigit = true)
    (noDigit : NoDigit rest) (no_point : ∀ c ∈ rest.head?, c ≠ '.') :
    fraction? (fractionChars fraction ++ rest) = some (fraction, rest) := by
  unfold fractionChars
  cases fraction with
  | nil =>
    cases rest with
    | nil => rfl
    | cons c rest =>
      have other := no_point c rfl
      show fraction? (c :: rest) = _
      unfold fraction?
      split
      case h_1 point => exact absurd (List.cons.inj point).1 other
      case h_2 => rfl
  | cons c ds =>
    show fraction? ('.' :: (c :: ds ++ rest)) = _
    rw [fraction?, span_append plain noDigit]

/-- Where a numeral ends there is no power of ten. -/
theorem exponent?_of_ends (ends : Ends rest) : exponent? rest = some (none, rest) := by
  unfold exponent?
  split
  case h_7 => rfl
  all_goals simp [Ends, Stops] at ends

/-- A power of ten is read back with its sign. -/
theorem exponent?_chars (exponent : Option Int) (ends : Ends rest) :
    exponent? (exponentChars exponent ++ rest) = some (exponent, rest) := by
  match exponent with
  | none => exact exponent?_of_ends ends
  | some (.ofNat power) =>
    have reads := digits?_toDigits power ends.noDigit
    show exponent? ('e' :: (Nat.toDigits 10 power ++ rest)) = _
    -- Without a sign the power begins with a digit, which is no sign.
    obtain ⟨d, ds, front, digit⟩ := Decimal.toDigits_eq_cons power
    rw [front] at reads
    rw [front, List.cons_append, exponent?, ← List.cons_append, reads]
    · rfl
    all_goals
      rintro cs sign
      rw [(List.cons.inj sign).1] at digit
      exact absurd digit (by decide)
  | some (.negSucc power) =>
    show exponent? ('e' :: '-' :: (Nat.toDigits 10 (power + 1) ++ rest)) = _
    rw [exponent?, digits?_toDigits _ ends.noDigit]
    rfl

/-- What follows a fraction is neither a digit nor a point. -/
theorem exponentChars_ends (exponent : Option Int) (ends : Ends rest) :
    ∀ c ∈ (exponentChars exponent ++ rest).head?, c.isDigit = false ∧ c ≠ '.' := by
  match exponent with
  | none => exact fun c hc => ⟨(ends c hc).1, (ends c hc).2.1⟩
  | some (.ofNat power) | some (.negSucc power) =>
    intro c hc
    obtain rfl := Option.some.inj hc
    decide

theorem fractionChars_noDigit (fraction : List Char) (noDigit : NoDigit rest) :
    NoDigit (fractionChars fraction ++ rest) := by
  cases fraction with
  | nil => exact noDigit
  | cons c ds => exact noDigit_cons (by decide)

/-- A decimal is read part by part. -/
theorem decimal?_of_parts {n : Decimal} {digits cs₁ cs₂ : List Char}
    (unsigned : ∀ ds, digits ≠ '-' :: ds) (whole : whole? digits = some (n.whole, cs₁))
    (fraction : fraction? cs₁ = some (n.fraction, cs₂))
    (exponent : exponent? cs₂ = some (n.exponent, rest)) :
    decimal? ((if n.negative then ['-'] else []) ++ digits) = some (n, rest) := by
  obtain ⟨isNegative, n⟩ := n
  cases isNegative with
  | true => simp [decimal?, whole, fraction, exponent]
  | false =>
    -- By `unsigned` the branch that takes a sign off is not the one.
    simp [decimal?, whole, fraction, exponent]

/-- A number without a sign does not begin with one. -/
theorem toDigits_append_ne_minus (n : Nat) (cs ds : List Char) :
    Nat.toDigits 10 n ++ cs ≠ '-' :: ds := by
  obtain ⟨d, rest, front, digit⟩ := Decimal.toDigits_eq_cons n
  intro minus
  rw [front, List.cons_append] at minus
  rw [(List.cons.inj minus).1] at digit
  exact absurd digit (by decide)

/-- A decimal reads back from its text, whatever ends it. -/
theorem decimal?_text {n : Decimal} (plain : n.Plain) (ends : Ends rest) :
    decimal? (n.text ++ rest) = some (n, rest) := by
  have after_fraction := exponentChars_ends n.exponent ends
  have noDigit : NoDigit (exponentChars n.exponent ++ rest) := fun c hc => (after_fraction c hc).1
  rw [text_eq]
  simp only [List.append_assoc]
  exact decimal?_of_parts (toDigits_append_ne_minus n.whole _)
    (whole?_toDigits n.whole (fractionChars_noDigit n.fraction noDigit))
    (fraction?_chars plain noDigit fun c hc => (after_fraction c hc).2)
    (exponent?_chars n.exponent ends)

/-- A decimal begins with a sign or a digit. -/
theorem text_eq_cons (n : Decimal) : ∃ c cs, n.text = c :: cs ∧ (c = '-' ∨ c.isDigit = true) := by
  rw [text_eq]
  cases n.negative with
  | true => exact ⟨'-', _, rfl, .inl rfl⟩
  | false =>
    obtain ⟨d, ds, front, digit⟩ := Decimal.toDigits_eq_cons n.whole
    rw [front]
    exact ⟨d, _, rfl, .inr digit⟩

/-- A token that begins with a sign or a digit is a number. -/
theorem next?_eq_decimal? {c : Char} {cs : List Char} (first : c = '-' ∨ c.isDigit = true) :
    next? (c :: cs) = (decimal? (c :: cs)).map fun (n, r) => (number n.toNumeral, r) := by
  unfold next?
  split
  case h_11 => rfl
  all_goals
    rename_i h
    rw [(List.cons.inj h).1] at first
    exact absurd first (by decide)

/-- A number that a document can hold is written as a decimal that stands for it. -/
theorem exists_decimal {n : Numeral} (plain : n.Plain) :
    ∃ d : Decimal, numberChars n = d.text ∧ d.Plain ∧ d.toNumeral = n := by
  cases n with
  | integer value =>
    exact ⟨.ofInt value, rfl, Decimal.plain_ofInt value, Decimal.toNumeral_ofInt plain⟩
  | real value =>
    refine ⟨.ofReal value, ?_, Decimal.plain_ofReal plain, Decimal.toNumeral_ofReal plain⟩
    rw [numberChars]
    exact if_pos plain

end Decimals

section Texts

/-- The hexadecimal digits of a control character are read as its number. -/
theorem number?_control : ∀ n < 32,
    Digit.number? 16 ['0', '0', Digit.hex (n / 16), Digit.hex (n % 16)] = some n := by
  decide

/-- A control character reads back from its escape. -/
theorem unicodeEscape?_control {n : Nat} (control : n < 32) (rest : List Char) :
    unicodeEscape? ('0' :: '0' :: Digit.hex (n / 16) :: Digit.hex (n % 16) :: rest) =
      some (some (Char.ofNat n), rest) := by
  have high : isHighSurrogate n = false := decide_eq_false (by omega)
  have low : isLowSurrogate n = false := decide_eq_false (by omega)
  simp [unicodeEscape?, codeUnit?, number?_control n control, high, low]

/-- A character of a text is read back from how it is written. -/
theorem content?_escaped (c : Char) (fuel : Nat) (done rest : List Char) :
    content? (fuel + 1) (some done) (escaped c ++ rest) =
      content? fuel (some (c :: done)) rest := by
  unfold escaped
  -- Seven characters have an escape of their own.
  iterate 7
    split
    case isTrue named =>
      subst named
      rfl
  split
  case isTrue control =>
    have reads := unicodeEscape?_control control rest
    rw [Char.ofNat_toNat] at reads
    simp only [List.cons_append, List.nil_append]
    rw [content?, escape?, reads]
    rfl
  case isFalse no_quote no_backslash _ _ _ _ _ no_control =>
    show content? (fuel + 1) (some done) (c :: rest) = _
    rw [content?, if_neg no_control]
    · rfl
    · exact no_quote
    · exact no_backslash

/-- The characters of a text read back one after another, up to the closing quote. -/
theorem content?_chars (cs : List Char) {fuel : Nat} (enough : cs.length < fuel)
    (done rest : List Char) :
    content? fuel (some done) (cs.flatMap escaped ++ '"' :: rest) =
      some (some (String.ofList (done.reverse ++ cs)), rest) := by
  induction cs generalizing fuel done with
  | nil =>
    obtain ⟨fuel, rfl⟩ : ∃ k, fuel = k + 1 := ⟨fuel - 1, by simp at enough; omega⟩
    simp [content?]
  | cons c cs ih =>
    obtain ⟨fuel, rfl⟩ : ∃ k, fuel = k + 1 := ⟨fuel - 1, by simp at enough; omega⟩
    rw [List.flatMap_cons, List.append_assoc, content?_escaped,
      ih (by simpa using enough), List.reverse_cons, List.append_assoc]
    rfl

/-- No character is written as nothing. -/
theorem length_le_escaped (cs : List Char) : cs.length ≤ (cs.flatMap escaped).length := by
  induction cs with
  | nil => exact Nat.le_refl 0
  | cons c cs ih =>
    have some_char : 0 < (escaped c).length := by
      unfold escaped
      split_ifs <;> exact Nat.zero_lt_succ _
    rw [List.flatMap_cons, List.length_append, List.length_cons]
    omega

theorem next?_quote (rest : List Char) : next? ('"' :: rest) =
    (content? (rest.length + 1) (some []) rest).map fun (t, r) => (text t, r) := rfl

/-- A text reads back from between its quotes. -/
theorem next?_quoted (content : String) (rest : List Char) :
    next? (quoted (some content) ++ rest) = some (text (some content), rest) := by
  have enough : content.toList.length <
      (content.toList.flatMap escaped ++ '"' :: rest).length + 1 := by
    have le := length_le_escaped content.toList
    rw [List.length_append]
    omega
  have reads := content?_chars content.toList enough [] rest
  rw [List.reverse_nil, List.nil_append, String.ofList_toList] at reads
  have front : quoted (some content) ++ rest =
      '"' :: (content.toList.flatMap escaped ++ '"' :: rest) :=
    congrArg ('"' :: ·) (List.append_assoc _ ['"'] rest)
  rw [front, next?_quote, reads, Option.map_some]

end Texts

/-- A token that can be written and read. -/
def Readable : Token → Prop
  | number numeral => numeral.Plain
  | text content => content.isSome
  | _ => True

def isNumber : Token → Bool
  | number _ => true
  | _ => false

/-- Two tokens that may stand side by side: not both of them are numerals. -/
def Apart (t u : Token) : Prop := t.isNumber = true → u.isNumber = false

/-- A token reads back from its characters. A numeral needs something behind it that ends it. -/
theorem next?_chars {t : Token} (readable : t.Readable) {rest : List Char}
    (ends : t.isNumber = true → Ends rest) : next? (t.chars ++ rest) = some (t, rest) := by
  cases t with
  | number numeral =>
    obtain ⟨d, written, plain, rfl⟩ := exists_decimal readable
    obtain ⟨c, cs, front, first⟩ := text_eq_cons d
    have reads := decimal?_text plain (ends rfl)
    rw [front] at reads
    rw [chars, written, front, List.cons_append, next?_eq_decimal? first, ← List.cons_append, reads]
    rfl
  | text content =>
    cases content with
    | none => exact absurd readable Bool.false_ne_true
    | some content => exact next?_quoted content rest
  | bool value => cases value <;> rfl
  | openList | closeList | openFields | closeFields | comma | colon | null => rfl

/-- A numeral does not begin with a blank. -/
theorem isBlank_of_numeral {c : Char} (first : c = '-' ∨ c.isDigit = true) :
    isBlank c = false := by
  by_contra blank
  simp only [isBlank, Bool.or_eq_true, decide_eq_true_eq, Bool.not_eq_false] at blank
  obtain ((rfl | rfl) | rfl) | rfl := blank <;> exact absurd first (by decide)

/-- No token is empty or begins with a blank, and every token but a numeral begins with a character
that stops a numeral. -/
theorem chars_eq_cons {t : Token} (readable : t.Readable) :
    ∃ c cs, t.chars = c :: cs ∧ isBlank c = false ∧ (t.isNumber = false → Stops c) := by
  cases t with
  | number numeral =>
    obtain ⟨d, written, -⟩ := exists_decimal readable
    obtain ⟨c, cs, front, first⟩ := text_eq_cons d
    exact ⟨c, cs, written.trans front, isBlank_of_numeral first, fun other => nomatch other⟩
  | text content =>
    cases content with
    | none => exact absurd readable Bool.false_ne_true
    | some content => exact ⟨'"', _, rfl, rfl, fun _ => by simp [Stops]⟩
  | bool value => cases value <;> exact ⟨_, _, rfl, rfl, fun _ => by simp [Stops]⟩
  | openList | closeList | openFields | closeFields | comma | colon | null =>
    exact ⟨_, _, rfl, rfl, fun _ => by simp [Stops]⟩

/-- A numeral ends where the tokens behind it begin. -/
theorem ends_chars {ts : List Token} (readable : ∀ t ∈ ts, t.Readable)
    (other : ∀ t ∈ ts.head?, t.isNumber = false) : Ends (ts.flatMap chars) := by
  cases ts with
  | nil => exact fun c hc => nomatch hc
  | cons t ts =>
    obtain ⟨c, cs, front, -, stops⟩ := chars_eq_cons (readable t List.mem_cons_self)
    intro d hd
    rw [List.flatMap_cons, front] at hd
    obtain rfl := Option.some.inj hd
    exact stops (other t rfl)

end Token

/-- The document that the machine has read when the text ends in a state. -/
def State.whole? : State → Option Document
  | .complete whole => some whole
  | _ => none

/-- Reading the characters of tokens is stepping through the tokens. -/
theorem read?_chars {ts : List Token} (apart : ts.IsChain Token.Apart)
    (readable : ∀ t ∈ ts, t.Readable) {fuel : Nat} (enough : ts.length < fuel) (s : State) :
    read? fuel s (ts.flatMap Token.chars) = (ts.foldlM State.step s).bind State.whole? := by
  induction ts generalizing fuel s with
  | nil =>
    obtain ⟨fuel, rfl⟩ : ∃ k, fuel = k + 1 := ⟨fuel - 1, by simp at enough; omega⟩
    cases s <;> rfl
  | cons t ts ih =>
    obtain ⟨fuel, rfl⟩ : ∃ k, fuel = k + 1 := ⟨fuel - 1, by simp at enough; omega⟩
    have readable_rest := fun u hu => readable u (List.mem_cons_of_mem t hu)
    obtain ⟨c, cs, front, no_blank, -⟩ := Token.chars_eq_cons (readable t List.mem_cons_self)
    have ends : t.isNumber = true → Ends (ts.flatMap Token.chars) := fun number =>
      Token.ends_chars readable_rest fun u hu => (List.isChain_cons.1 apart).1 u hu number
    have next := Token.next?_chars (readable t List.mem_cons_self) ends
    rw [front, List.cons_append] at next
    rw [List.flatMap_cons, front, List.cons_append, read?, if_neg (Bool.eq_false_iff.1 no_blank),
      next, List.foldlM_cons]
    dsimp only
    cases s.step t with
    | none => rfl
    | some s' => exact ih (List.isChain_cons.1 apart).2 readable_rest (by simpa using enough) s'

end Qumode.Json
