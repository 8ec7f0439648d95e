import Mathlib.Data.List.Infix

/-!
# Where a pattern occurs in a text

`occurrences p text` counts the positions of a text at which a pattern begins. Texts are put
together from parts, and an occurrence may lie across a joint. `Apart p b` says that none ends in
the part `b` and begins before it, whatever that part is put behind; then the occurrences of the two
parts add up. It holds of every part whose first character is not in the pattern.
-/

namespace Qumode

variable {α : Type} [DecidableEq α]

/-- At how many positions of a text the pattern begins. -/
def occurrences (p text : List α) : Nat := text.tails.countP (p <+: ·)

/-- No occurrence of the pattern begins before the text and ends inside it. -/
def Apart (p b : List α) : Prop := ∀ s t, p = s ++ t → s ≠ [] → t ≠ [] → ¬ t <+: b

variable {p a b : List α} {x : α}

omit [DecidableEq α] in
theorem apart_cons (missing : x ∉ p) (b : List α) : Apart p (x :: b) := by
  rintro s (- | ⟨y, t⟩) rfl before inside within
  · exact inside rfl
  · obtain ⟨rfl, -⟩ := List.cons_prefix_cons.1 within
    exact missing (List.mem_append_right s List.mem_cons_self)

omit [DecidableEq α] in
/-- A single character does not lie across a joint. -/
theorem apart_singleton (x : α) (b : List α) : Apart [x] b := by
  rintro (- | ⟨y, s⟩) t split before inside -
  · exact before rfl
  · have rest : [] = s ++ t := (List.cons.inj split).2
    exact inside (List.append_eq_nil_iff.1 rest.symm).2

theorem occurrences_nil (nonempty : p ≠ []) : occurrences p [] = 0 := by
  simp [occurrences, List.prefix_nil, nonempty]

theorem occurrences_cons (p : List α) (x : α) (b : List α) :
    occurrences p (x :: b) = occurrences p b + if p <+: x :: b then 1 else 0 := by
  rw [occurrences, List.tails_cons, List.countP_cons, occurrences]
  simp only [decide_eq_true_eq]

/-- The occurrences of two parts add up if none lies across the joint. -/
theorem occurrences_append (nonempty : p ≠ []) (apart : Apart p b) (a : List α) :
    occurrences p (a ++ b) = occurrences p a + occurrences p b := by
  induction a with
  | nil => rw [List.nil_append, occurrences_nil nonempty, Nat.zero_add]
  | cons x a ih =>
    have begins : p <+: x :: (a ++ b) ↔ p <+: x :: a := by
      constructor
      · rintro ⟨rest, joined⟩
        rw [← List.cons_append, List.append_eq_append_iff] at joined
        rcases joined with ⟨t, covered, -⟩ | ⟨t, across, within⟩
        · exact ⟨t, covered.symm⟩
        · by_cases inside : t = []
          · rw [across, inside, List.append_nil]
          · exact absurd ⟨rest, within.symm⟩ (apart (x :: a) t across (List.cons_ne_nil x a) inside)
      · exact fun within => within.trans ⟨b, rfl⟩
    simp only [List.cons_append, occurrences_cons, ih, begins]
    exact Nat.add_right_comm _ _ _

/-- A pattern that has none of the characters of a part does not begin there. -/
theorem occurrences_append_of_foreign (nonempty : p ≠ []) (foreign : ∀ x ∈ a, x ∉ p)
    (b : List α) : occurrences p (a ++ b) = occurrences p b := by
  induction a with
  | nil => rfl
  | cons x a ih =>
    rw [List.forall_mem_cons] at foreign
    have elsewhere : ¬ p <+: x :: (a ++ b) := by
      obtain ⟨y, p, rfl⟩ := List.exists_cons_of_ne_nil nonempty
      intro begins
      obtain ⟨rfl, -⟩ := List.cons_prefix_cons.1 begins
      exact foreign.1 List.mem_cons_self
    rw [List.cons_append, occurrences_cons, if_neg elsewhere, ih foreign.2]
    rfl

/-- Characters that the pattern does not have keep what stands on their sides apart. -/
theorem occurrences_between (nonempty : p ≠ []) {gap : List α} (wide : gap ≠ [])
    (foreign : ∀ x ∈ gap, x ∉ p) (a b : List α) :
    occurrences p (a ++ gap ++ b) = occurrences p a + occurrences p b := by
  obtain ⟨x, rest, rfl⟩ := List.exists_cons_of_ne_nil wide
  have apart : Apart p (x :: rest ++ b) := apart_cons (foreign x List.mem_cons_self) (rest ++ b)
  rw [List.append_assoc, occurrences_append nonempty apart,
    occurrences_append_of_foreign nonempty foreign]

theorem occurrences_singleton (x : α) (text : List α) : occurrences [x] text = text.count x := by
  induction text with
  | nil => rfl
  | cons y rest ih =>
    have begins : [x] <+: y :: rest ↔ (y == x) = true := by
      rw [List.singleton_prefix_cons_iff, beq_iff_eq, eq_comm]
    rw [occurrences_cons, ih, List.count_cons]
    simp only [begins]

/-- A pattern that occurs is an infix, and the other way around. -/
theorem occurrences_pos_iff : 0 < occurrences p b ↔ p <:+: b := by
  simp only [occurrences, List.countP_pos_iff, List.mem_tails, decide_eq_true_eq,
    List.infix_iff_prefix_suffix]
  exact exists_congr fun t => And.comm

/-- A pattern with a character that the text does not have does not occur. -/
theorem occurrences_eq_zero (inside : x ∈ p) (missing : x ∉ b) : occurrences p b = 0 := by
  refine Nat.eq_zero_of_not_pos fun found => missing ?_
  exact (occurrences_pos_iff.1 found).subset inside

end Qumode
