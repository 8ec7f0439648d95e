import Mathlib.Data.List.Basic
import Mathlib.Data.List.Induction

/-!
# First occurrences

`List.eraseDupsBy same` keeps an item of a list unless it is the same as one that is kept before it.
Read from its end, a list has one item more, which goes behind the kept ones or is dropped
(`eraseDupsBy_concat`), and everything here is shown along this equation.

The comparison need not be reflexive: an item that differs from itself is kept wherever it stands.
What is kept of joined lists is what is kept of their kept parts if the comparison is transitive
(`eraseDupsBy_flatMap`). A look-up by key is a first occurrence too; where no key stands twice it
finds every entry (`lookup_eq_some_iff_mem`).
-/

namespace Qumode

variable {α : Type} {same : α → α → Bool} {l l' rest : List α} {a : α}

/-- The last item is kept unless one that is kept is the same. -/
theorem eraseDupsBy_concat (l : List α) (a : α) :
    (l ++ [a]).eraseDupsBy same =
      if (l.eraseDupsBy same).any (same a) then l.eraseDupsBy same
      else l.eraseDupsBy same ++ [a] := by
  -- the loop has the kept items in reverse, so they are generalized
  have loop : ∀ kept : List α, List.eraseDupsBy.loop same (l ++ [a]) kept =
      if (List.eraseDupsBy.loop same l kept).any (same a) then List.eraseDupsBy.loop same l kept
      else List.eraseDupsBy.loop same l kept ++ [a] := by
    induction l with
    | nil =>
      intro kept
      simp only [List.nil_append, List.eraseDupsBy.loop, List.any_reverse]
      cases kept.any (same a) <;> simp
    | cons b l ih =>
      intro kept
      simp only [List.cons_append, List.eraseDupsBy.loop]
      rcases Bool.eq_false_or_eq_true (kept.any (same b)) with held | free
      · simpa only [held] using ih kept
      · simpa only [free] using ih (b :: kept)
  exact loop []

theorem eraseDupsBy_sublist (l : List α) : (l.eraseDupsBy same).Sublist l := by
  induction l using List.reverseRecOn with
  | nil => exact List.Sublist.slnil
  | append_singleton l a ih =>
    rw [eraseDupsBy_concat]
    split
    · exact ih.trans (List.sublist_append_left l [a])
    · exact ih.append_right [a]

/-- No kept item is the same as one before it. -/
theorem pairwise_eraseDupsBy (l : List α) :
    (l.eraseDupsBy same).Pairwise fun a b => same b a = false := by
  induction l using List.reverseRecOn with
  | nil => exact .nil
  | append_singleton l a ih =>
    rw [eraseDupsBy_concat]
    split
    case isTrue => exact ih
    case isFalse differs =>
      rw [Bool.not_eq_true, List.any_eq_false] at differs
      rw [List.pairwise_append]
      refine ⟨ih, List.pairwise_singleton _ a, fun b hb c hc => ?_⟩
      rw [List.mem_singleton.1 hc]
      exact Bool.not_eq_true _ ▸ differs b hb

theorem eraseDupsBy_eq_self (apart : l.Pairwise fun a b => same b a = false) :
    l.eraseDupsBy same = l := by
  induction l using List.reverseRecOn with
  | nil => rfl
  | append_singleton l a ih =>
    rw [List.pairwise_append] at apart
    have new : l.any (same a) = false := by
      rw [List.any_eq_false]
      intro b mem equal
      rw [apart.2.2 b mem a (List.mem_singleton_self a)] at equal
      cases equal
    rw [eraseDupsBy_concat, ih apart.1, new]
    rfl

/-- What is kept stands in the order of the first occurrences. -/
theorem pairwise_idxOf_eraseDups [DecidableEq α] (l : List α) :
    l.eraseDups.Pairwise fun a b => l.idxOf a < l.idxOf b := by
  induction l using List.reverseRecOn with
  | nil => exact .nil
  | append_singleton l a ih =>
    have same_place {b : α} (mem : b ∈ l.eraseDups) : (l ++ [a]).idxOf b = l.idxOf b :=
      List.idxOf_append_of_mem (List.mem_eraseDups.1 mem)
    have earlier : l.eraseDups.Pairwise fun b b' => (l ++ [a]).idxOf b < (l ++ [a]).idxOf b' := by
      refine ih.imp_of_mem fun mem mem' before => ?_
      rwa [same_place mem, same_place mem']
    rw [List.eraseDups, eraseDupsBy_concat]
    split
    case isTrue => exact earlier
    case isFalse new =>
      have fresh : a ∉ l := fun mem =>
        new (List.any_eq_true.2 ⟨a, List.mem_eraseDups.2 mem, beq_self_eq_true a⟩)
      refine List.pairwise_append.2 ⟨earlier, List.pairwise_singleton _ a, fun b mem b' last => ?_⟩
      rw [List.mem_singleton.1 last, same_place mem, List.idxOf_append_of_notMem fresh]
      exact Nat.lt_add_right _ (List.idxOf_lt_length_of_mem (List.mem_eraseDups.1 mem))

/-- An item is kept, or it is the same as one that is. -/
theorem mem_or_any_eraseDupsBy (mem : a ∈ l) :
    a ∈ l.eraseDupsBy same ∨ (l.eraseDupsBy same).any (same a) = true := by
  induction l using List.reverseRecOn with
  | nil => cases mem
  | append_singleton l b ih =>
    rw [eraseDupsBy_concat]
    rw [List.mem_append, List.mem_singleton] at mem
    split
    case isTrue dropped =>
      rcases mem with before | rfl
      · exact ih before
      · exact .inr dropped
    case isFalse =>
      rcases mem with before | rfl
      · rw [List.mem_append, List.any_append, Bool.or_eq_true]
        exact (ih before).imp .inl .inl
      · exact .inl (List.mem_append_right _ (List.mem_singleton_self a))

/-- What is kept behind a list depends on what is kept of it. -/
theorem eraseDupsBy_append_congr (kept : l.eraseDupsBy same = l'.eraseDupsBy same)
    (rest : List α) : (l ++ rest).eraseDupsBy same = (l' ++ rest).eraseDupsBy same := by
  induction rest using List.reverseRecOn with
  | nil => rwa [List.append_nil, List.append_nil]
  | append_singleton rest a ih =>
    rw [← List.append_assoc, ← List.append_assoc, eraseDupsBy_concat, eraseDupsBy_concat, ih]

section Transitive

variable (trans : ∀ a b c, same a b = true → same b c = true → same a c = true)

include trans

/-- What is the same as an item of a list is the same as a kept one. -/
theorem any_eraseDupsBy (found : l.any (same a) = true) :
    (l.eraseDupsBy same).any (same a) = true := by
  obtain ⟨b, mem, ab⟩ := List.any_eq_true.1 found
  have kept_or_dropped : b ∈ l.eraseDupsBy same ∨ (l.eraseDupsBy same).any (same b) = true :=
    mem_or_any_eraseDupsBy mem
  rcases kept_or_dropped with kept | dropped
  · exact List.any_eq_true.2 ⟨b, kept, ab⟩
  · obtain ⟨c, kept, bc⟩ := List.any_eq_true.1 dropped
    exact List.any_eq_true.2 ⟨c, kept, trans a b c ab bc⟩

/-- Erasing in the rest beforehand makes no difference. -/
theorem eraseDupsBy_append_eraseDupsBy (l rest : List α) :
    (l ++ rest.eraseDupsBy same).eraseDupsBy same = (l ++ rest).eraseDupsBy same := by
  induction rest using List.reverseRecOn with
  | nil => rfl
  | append_singleton rest a ih =>
    rw [← List.append_assoc l, eraseDupsBy_concat (l ++ rest), ← ih, eraseDupsBy_concat rest]
    split
    case isTrue dropped =>
      have within : (l ++ rest.eraseDupsBy same).any (same a) = true := by
        rw [List.any_append, dropped, Bool.or_true]
      rw [if_pos (any_eraseDupsBy trans within)]
    case isFalse => rw [← List.append_assoc, eraseDupsBy_concat]

/-- Nor does it within each of several lists. -/
theorem eraseDupsBy_flatMap {β : Type} (lists : List β) (f : β → List α) :
    (lists.flatMap fun b => (f b).eraseDupsBy same).eraseDupsBy same =
      (lists.flatMap f).eraseDupsBy same := by
  induction lists using List.reverseRecOn with
  | nil => rfl
  | append_singleton lists b ih =>
    simp only [List.flatMap_append, List.flatMap_singleton]
    rw [eraseDupsBy_append_eraseDupsBy trans]
    exact eraseDupsBy_append_congr ih (f b)

end Transitive

theorem nodup_eraseDups [BEq α] [LawfulBEq α] (l : List α) : l.eraseDups.Nodup := by
  refine (pairwise_eraseDupsBy l).imp fun {a b} differs => ?_
  rintro rfl
  simp at differs

/-- Where no key stands twice, a look-up finds every entry. -/
theorem lookup_eq_some_iff_mem {κ β : Type} [BEq κ] [LawfulBEq κ] {entries : List (κ × β)} {k : κ}
    {b : β} (distinct : (entries.map (·.1)).Nodup) :
    entries.lookup k = some b ↔ (k, b) ∈ entries := by
  induction entries with
  | nil => simp
  | cons e rest ih =>
    obtain ⟨k', b'⟩ := e
    rw [List.map_cons, List.nodup_cons] at distinct
    rw [List.lookup_cons, List.mem_cons, Prod.mk.injEq]
    by_cases same : k = k'
    · subst same
      have elsewhere : (k, b) ∉ rest := by
        intro mem
        exact distinct.1 (List.mem_map.2 ⟨(k, b), mem, rfl⟩)
      simp [elsewhere, eq_comm]
    · have apart : (k == k') = false := by simpa using same
      rw [apart, ih distinct.2]
      simp [same]

end Qumode
