/-!
# The first fault of a list

A check that goes through items in order and stops at the first one that is wrong reports what is
wrong with that item. Here this is said without a check: `fault before item e` holds when `e` is
wrong with an item that stands behind the items `before`, and `FirstFault` says that `e` is wrong
with an item and that nothing is wrong with an item before it.

`Reports` joins both outcomes of a check. Checks of the parts of a list make a check of the list
(`Reports.append`), the second of which has to look at its items behind those of the first
(`Behind`).
-/

namespace Qumode

variable {α ε : Type}

/-- What is wrong with an item that stands behind some others. -/
abbrev Faults (α ε : Type) := List α → α → ε → Prop

/-- The same faults for items that stand behind `first`. -/
def Faults.Behind (fault : Faults α ε) (first : List α) : Faults α ε :=
  fun before => fault (first ++ before)

/-- No item is faulty. -/
def Faultless (fault : Faults α ε) (items : List α) : Prop :=
  ∀ before item after, items = before ++ item :: after → ∀ e, ¬ fault before item e

/-- `e` is wrong with an item, and no item before it is faulty. -/
def FirstFault (fault : Faults α ε) (items : List α) (e : ε) : Prop :=
  ∃ before item after, items = before ++ item :: after ∧ Faultless fault before ∧
    fault before item e

variable {fault : Faults α ε} {first second : List α} {item : α} {e : ε}

/-- Looking behind one list and then another is looking behind both. -/
theorem Faults.behind_behind :
    (fault.Behind first).Behind second = fault.Behind (first ++ second) := by
  funext before
  exact congrArg fault (List.append_assoc first second before).symm

theorem Faults.behind_at_start (fault : Faults α ε) (first : List α) :
    fault.Behind first [] = fault first :=
  congrArg fault (List.append_nil first)

theorem faultless_nil : Faultless fault [] := by
  intro before item after split
  exact absurd split.symm (List.append_ne_nil_of_right_ne_nil before (List.cons_ne_nil item after))

/-- Two lists in a row are faultless when the first is, and the second behind it. -/
theorem faultless_append :
    Faultless fault (first ++ second) ↔
      Faultless fault first ∧ Faultless (fault.Behind first) second := by
  constructor
  · intro h
    refine ⟨fun before item after split => ?_, fun before item after split => ?_⟩
    · exact h before item (after ++ second) (by simp [split])
    · exact h (first ++ before) item after (by simp [split])
  · rintro ⟨h, h'⟩ before item after split
    rcases List.append_eq_append_iff.1 split with ⟨more, rfl, rest⟩ | ⟨more, rfl, rest⟩
    · exact h' more item after rest
    · cases more with
      | nil =>
        rw [List.append_nil] at h'
        rw [← List.append_nil before]
        exact h' [] item after rest.symm
      | cons item' more =>
        cases rest
        exact h before item more rfl

/-- One item is faultless when nothing is wrong with it at the start. -/
theorem faultless_singleton : Faultless fault [item] ↔ ∀ e, ¬ fault [] item e := by
  constructor
  · exact fun h => h [] item [] rfl
  · intro h before item' after split
    obtain ⟨rfl, rfl, rfl⟩ : before = [] ∧ item' = item ∧ after = [] := by
      cases before with
      | nil => cases split; exact ⟨rfl, rfl, rfl⟩
      | cons head before => simp at split
    exact h

/-- The fault of a single item is the first one. -/
theorem FirstFault.singleton (h : fault [] item e) : FirstFault fault [item] e :=
  ⟨[], item, [], rfl, faultless_nil, h⟩

/-- An item that stands right behind others has the faults that it has behind them. -/
theorem faultless_behind_singleton :
    Faultless (fault.Behind first) [item] ↔ ∀ e, ¬ fault first item e := by
  rw [faultless_singleton, Faults.behind_at_start]

theorem FirstFault.behind_singleton (h : fault first item e) :
    FirstFault (fault.Behind first) [item] e := by
  refine .singleton ?_
  rwa [Faults.behind_at_start]

/-- The first fault of the front is the first of the whole. -/
theorem FirstFault.left (h : FirstFault fault first e) : FirstFault fault (first ++ second) e := by
  obtain ⟨before, item, after, rfl, clean, found⟩ := h
  exact ⟨before, item, after ++ second, by simp, clean, found⟩

/-- Behind a faultless front the first fault of the rest is the first of the whole. -/
theorem FirstFault.right (clean : Faultless fault first)
    (h : FirstFault (fault.Behind first) second e) : FirstFault fault (first ++ second) e := by
  obtain ⟨before, item, after, rfl, clean', found⟩ := h
  exact ⟨first ++ before, item, after, by simp, faultless_append.2 ⟨clean, clean'⟩, found⟩

/-- A list with a first fault is not faultless. -/
theorem FirstFault.not_faultless (h : FirstFault fault first e) : ¬ Faultless fault first := by
  obtain ⟨before, item, after, rfl, -, found⟩ := h
  exact fun clean => clean before item after rfl e found

/-- If an item cannot be faulty in two ways, there is one first fault. -/
theorem FirstFault.unique {e' : ε}
    (functional : ∀ before item e e', fault before item e → fault before item e' → e = e')
    (h : FirstFault fault first e) (h' : FirstFault fault first e') : e = e' := by
  obtain ⟨before, item, after, rfl, clean, found⟩ := h
  obtain ⟨before', item', after', split, clean', found'⟩ := h'
  rcases List.append_eq_append_iff.1 split with ⟨more, rfl, rest⟩ | ⟨more, rfl, rest⟩
  · cases more with
    | nil =>
      cases rest
      rw [List.append_nil] at found'
      exact functional _ _ e e' found found'
    | cons item'' more =>
      cases rest
      exact absurd found (clean' before item more rfl e)
  · cases more with
    | nil =>
      cases rest
      rw [List.append_nil] at found
      exact functional _ _ e e' found found'
    | cons item'' more =>
      cases rest
      exact absurd found' (clean before' item' more rfl e')

/-- The outcome of a check is that of looking for the first fault. -/
def Reports (found : Option ε) (fault : Faults α ε) (items : List α) : Prop :=
  match found with
  | none => Faultless fault items
  | some e => FirstFault fault items e

/-- A report on two lists is the report on the first, or else the one on the second. -/
theorem Reports.append {found found' : Option ε} (h : Reports found fault first)
    (h' : Reports found' (fault.Behind first) second) :
    Reports (found.or found') fault (first ++ second) := by
  cases found with
  | some e => exact FirstFault.left h
  | none =>
    cases found' with
    | some e => exact FirstFault.right h h'
    | none => exact faultless_append.2 ⟨h, h'⟩

/-- A report on one item is its fault. -/
theorem Reports.singleton {found : Option ε} (h : ∀ e, fault [] item e ↔ found = some e) :
    Reports found fault [item] := by
  cases found with
  | some e => exact FirstFault.singleton ((h e).2 rfl)
  | none => exact faultless_singleton.2 fun e found => nomatch (h e).1 found

/-- Nothing is reported just when nothing is wrong. -/
theorem Reports.faultless_iff {found : Option ε} (h : Reports found fault first) :
    Faultless fault first ↔ found = none := by
  cases found with
  | some e => exact iff_of_false (FirstFault.not_faultless h) nofun
  | none => exact iff_of_true h rfl

/-- Whether an item is faulty may not depend on what stands before it, although its fault does. -/
theorem faultless_iff_forall {sound : α → Prop} {items : List α}
    (h : ∀ before item, (∀ e, ¬ fault before item e) ↔ sound item) :
    Faultless fault items ↔ ∀ item ∈ items, sound item := by
  constructor
  · intro clean item mem
    obtain ⟨before, after, split⟩ := List.append_of_mem mem
    exact (h before item).1 (clean before item after split)
  · rintro each before item after rfl
    exact (h before item).2 (each item (by simp))

end Qumode
