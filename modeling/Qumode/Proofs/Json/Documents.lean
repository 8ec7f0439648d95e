import Qumode.Proofs.Json.Tokens

/-!
# Documents read back

The tokens of a document take the machine from waiting for a value to having one
(`foldlM_tokens`), whatever lists and records it is inside of; so a document that is written reads
back as itself (`parse?_compact`).
-/

namespace Qumode

namespace Json

open Document State

theorem itemTokens_cons_cons (d e : Document) (rest : List Document) :
    itemTokens (d :: e :: rest) = tokens d ++ .comma :: itemTokens (e :: rest) := by
  rw [itemTokens]
  exact nofun

theorem fieldTokens_cons_cons (name : Option String) (d : Document)
    (entry : Option String × Document) (rest : List (Option String × Document)) :
    fieldTokens ((name, d) :: entry :: rest) =
      .text name :: .colon :: (tokens d ++ .comma :: fieldTokens (entry :: rest)) := by
  rw [fieldTokens]
  · rfl
  · exact nofun

/-- A value begins with a token that does not close a list. -/
theorem tokens_eq_cons (d : Document) : ∃ t ts, tokens d = t :: ts ∧ t ≠ .closeList := by
  cases d <;> (rw [tokens]; exact ⟨_, _, rfl, nofun⟩)

theorem itemTokens_eq_cons (d : Document) (rest : List Document) :
    ∃ t ts, itemTokens (d :: rest) = t :: ts ∧ t ≠ .closeList := by
  obtain ⟨t, ts, front, value⟩ := tokens_eq_cons d
  cases rest with
  | nil => exact ⟨t, ts, by rw [itemTokens, front], value⟩
  | cons e rest => exact ⟨t, _, by rw [itemTokens_cons_cons, front]; rfl, value⟩

/-- The first item of a list is read as the later ones are. -/
theorem foldlM_firstItem (d : Document) (rest : List Document) (outer : List Frame) :
    (itemTokens (d :: rest)).foldlM step (.firstItem outer) =
      (itemTokens (d :: rest)).foldlM step (.value (.list [] :: outer)) := by
  obtain ⟨t, ts, front, value⟩ := itemTokens_eq_cons d rest
  have same : step (.firstItem outer) t = step (.value (.list [] :: outer)) t := by
    cases t <;> first | rfl | exact absurd rfl value
  rw [front, List.foldlM_cons, List.foldlM_cons, same]

/-- The first field of a record is read as the later ones are. -/
theorem foldlM_firstField (entry : Option String × Document)
    (rest : List (Option String × Document)) (outer : List Frame) :
    (fieldTokens (entry :: rest)).foldlM step (.firstField outer) =
      (fieldTokens (entry :: rest)).foldlM step (.nextField [] outer) := by
  obtain ⟨name, d⟩ := entry
  cases rest with
  | nil => rfl
  | cons entry rest =>
    rw [fieldTokens_cons_cons]
    rfl

mutual

/-- The tokens of a document supply it to what waits for a value. -/
theorem foldlM_tokens : (d : Document) → d.Writable → (outer : List Frame) →
    (tokens d).foldlM step (.value outer) = some (supply d outer)
  | .null, _, _ => rfl
  | .bool _, _, _ => rfl
  | .number _, _, _ => rfl
  | .text _, _, _ => rfl
  | .list [], _, _ => rfl
  | .list (d :: rest), writable, outer => by
    have items := foldlM_itemTokens (d :: rest) nofun writable [] outer
    rw [← foldlM_firstItem, List.append_nil] at items
    show (itemTokens (d :: rest) ++ [Token.closeList]).foldlM step (.firstItem outer) = _
    rw [List.foldlM_append, items]
    show some (supply (.list (d :: rest).reverse.reverse) outer) = _
    rw [List.reverse_reverse]
  | .fields [], _, _ => rfl
  | .fields (entry :: rest), writable, outer => by
    have fields := foldlM_fieldTokens (entry :: rest) nofun writable.2 [] outer
    rw [← foldlM_firstField, List.append_nil] at fields
    show (fieldTokens (entry :: rest) ++ [Token.closeFields]).foldlM step (.firstField outer) = _
    rw [List.foldlM_append, fields]
    show some (supply (.fields (entry :: rest).reverse.reverse) outer) = _
    rw [List.reverse_reverse]

/-- The tokens of items fill the list that waits for them. -/
theorem foldlM_itemTokens : (items : List Document) → items ≠ [] → WritableItems items →
    (done : List Document) → (outer : List Frame) →
    (itemTokens items).foldlM step (.value (.list done :: outer)) =
      some (.afterItem (items.reverse ++ done) outer)
  | [], nonempty, _, _, _ => absurd rfl nonempty
  | [d], _, writable, done, outer => foldlM_tokens d writable.1 (.list done :: outer)
  | d :: e :: rest, _, writable, done, outer => by
    have first := foldlM_tokens d writable.1 (.list done :: outer)
    have others := foldlM_itemTokens (e :: rest) nofun writable.2 (d :: done) outer
    rw [itemTokens_cons_cons, List.foldlM_append, first]
    show (itemTokens (e :: rest)).foldlM step (.value (.list (d :: done) :: outer)) = _
    rw [others, List.reverse_cons (a := d), List.append_assoc, List.singleton_append]

/-- The tokens of fields fill the record that waits for them. -/
theorem foldlM_fieldTokens : (entries : List (Option String × Document)) → entries ≠ [] →
    WritableEntries entries → (done : List (Option String × Document)) → (outer : List Frame) →
    (fieldTokens entries).foldlM step (.nextField done outer) =
      some (.afterField (entries.reverse ++ done) outer)
  | [], nonempty, _, _, _ => absurd rfl nonempty
  | [(name, d)], _, writable, done, outer =>
    foldlM_tokens d writable.2.1 (.fields done name :: outer)
  | (name, d) :: entry :: rest, _, writable, done, outer => by
    have first := foldlM_tokens d writable.2.1 (.fields done name :: outer)
    have others := foldlM_fieldTokens (entry :: rest) nofun writable.2.2 ((name, d) :: done) outer
    rw [fieldTokens_cons_cons]
    show (tokens d ++ .comma :: fieldTokens (entry :: rest)).foldlM step
      (.value (.fields done name :: outer)) = _
    rw [List.foldlM_append, first]
    show (fieldTokens (entry :: rest)).foldlM step (.nextField ((name, d) :: done) outer) = _
    rw [others, List.reverse_cons (a := (name, d)), List.append_assoc, List.singleton_append]

end

mutual

/-- A document that can be written is written in readable tokens. -/
theorem readable_tokens : (d : Document) → d.Writable → ∀ t ∈ tokens d, t.Readable
  | .null, _ => List.forall_mem_singleton.2 trivial
  | .bool _, _ => List.forall_mem_singleton.2 trivial
  | .number _, writable => List.forall_mem_singleton.2 writable
  | .text _, writable => List.forall_mem_singleton.2 writable
  | .list items, writable => by
    rw [tokens, List.cons_append, List.forall_mem_cons, List.forall_mem_append]
    exact ⟨trivial, readable_itemTokens items writable, List.forall_mem_singleton.2 trivial⟩
  | .fields entries, writable => by
    rw [tokens, List.cons_append, List.forall_mem_cons, List.forall_mem_append]
    exact ⟨trivial, readable_fieldTokens entries writable.2, List.forall_mem_singleton.2 trivial⟩

theorem readable_itemTokens : (items : List Document) → WritableItems items →
    ∀ t ∈ itemTokens items, t.Readable
  | [], _ => by simp [itemTokens]
  | [d], writable => readable_tokens d writable.1
  | d :: e :: rest, writable => by
    rw [itemTokens_cons_cons, List.forall_mem_append, List.forall_mem_cons]
    exact ⟨readable_tokens d writable.1, trivial, readable_itemTokens (e :: rest) writable.2⟩

theorem readable_fieldTokens : (entries : List (Option String × Document)) →
    WritableEntries entries → ∀ t ∈ fieldTokens entries, t.Readable
  | [], _ => by simp [fieldTokens]
  | [(name, d)], writable => by
    rw [fieldTokens, List.forall_mem_cons, List.forall_mem_cons]
    exact ⟨writable.1, trivial, readable_tokens d writable.2.1⟩
  | (name, d) :: entry :: rest, writable => by
    rw [fieldTokens_cons_cons, List.forall_mem_cons, List.forall_mem_cons, List.forall_mem_append,
      List.forall_mem_cons]
    exact ⟨writable.1, trivial, readable_tokens d writable.2.1, trivial,
      readable_fieldTokens (entry :: rest) writable.2.2⟩

end

/-- A token that is no numeral may stand in front of any tokens that are apart. -/
theorem isChain_cons {t : Token} {ts : List Token} (other : t.isNumber = false)
    (apart : ts.IsChain Token.Apart) : (t :: ts).IsChain Token.Apart :=
  List.isChain_cons.2 ⟨fun _ _ number => absurd number (Bool.eq_false_iff.1 other), apart⟩

/-- And between any two runs of them. -/
theorem isChain_append_cons {t : Token} {ts us : List Token} (other : t.isNumber = false)
    (before : ts.IsChain Token.Apart) (behind : us.IsChain Token.Apart) :
    (ts ++ t :: us).IsChain Token.Apart := by
  refine List.isChain_append.2 ⟨before, isChain_cons other behind, fun u _ v hv _ => ?_⟩
  obtain rfl := Option.some.inj hv
  exact other

mutual

/-- No two numerals stand side by side in a document. -/
theorem isChain_tokens : (d : Document) → (tokens d).IsChain Token.Apart
  | .null => .singleton _
  | .bool _ => .singleton _
  | .number _ => .singleton _
  | .text _ => .singleton _
  | .bare _ _ => .singleton _
  | .list items => isChain_cons rfl (isChain_append_cons rfl (isChain_itemTokens items) .nil)
  | .fields entries =>
    isChain_cons rfl (isChain_append_cons rfl (isChain_fieldTokens entries) .nil)
  | .tagged _ body =>
    isChain_cons rfl (isChain_cons rfl (isChain_cons rfl
      (isChain_append_cons rfl (isChain_tokens body) .nil)))

/-- Nor do they in a list, where commas stand between the items. -/
theorem isChain_itemTokens : (items : List Document) → (itemTokens items).IsChain Token.Apart
  | [] => .nil
  | [d] => isChain_tokens d
  | d :: e :: rest => by
    rw [itemTokens_cons_cons]
    exact isChain_append_cons rfl (isChain_tokens d) (isChain_itemTokens (e :: rest))

/-- Nor in a record, where a name stands in front of every value. -/
theorem isChain_fieldTokens : (entries : List (Option String × Document)) →
    (fieldTokens entries).IsChain Token.Apart
  | [] => .nil
  | [(_, d)] => isChain_cons rfl (isChain_cons rfl (isChain_tokens d))
  | (name, d) :: entry :: rest => by
    rw [fieldTokens_cons_cons]
    exact isChain_cons rfl (isChain_cons rfl
      (isChain_append_cons rfl (isChain_tokens d) (isChain_fieldTokens (entry :: rest))))

end

/-- There are at least as many characters as tokens. -/
theorem length_le_chars {ts : List Token} (readable : ∀ t ∈ ts, t.Readable) :
    ts.length ≤ (ts.flatMap Token.chars).length := by
  induction ts with
  | nil => exact Nat.le_refl 0
  | cons t ts ih =>
    obtain ⟨c, cs, front, -⟩ := Token.chars_eq_cons (readable t List.mem_cons_self)
    have le := ih fun u hu => readable u (List.mem_cons_of_mem t hu)
    rw [List.flatMap_cons, front, List.length_append, List.length_cons, List.length_cons]
    omega

/-- A document that can be written reads back from its text. -/
theorem parse?_compact {d : Document} (writable : d.Writable) :
    parse? (compact d) = some d := by
  have readable := readable_tokens d writable
  have enough := Nat.lt_add_one_of_le (length_le_chars readable)
  have reads := read?_chars (isChain_tokens d) readable enough (.value [])
  rw [foldlM_tokens d writable []] at reads
  rw [parse?, compact, String.toList_ofList]
  exact reads

end Json

end Qumode
