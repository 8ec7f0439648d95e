import Qumode.Document.Record
import Qumode.Proofs.Steps

/-!
# Lists and records read back

A list of documents, each of which reads back, reads back as a list (`list?_map`); a record whose
fields are among the declared ones and in their order has just these fields
(`record?_toDocument`), whichever of the declared ones are missing.
-/

namespace Qumode

namespace Record

/-- The fields of a record as they stand in a document. -/
def entries (r : Record) : List (Option String × Document) :=
  r.map fun field => (some field.1, field.2)

/-- The record as a document. -/
def toDocument (r : Record) : Document := .fields r.entries

end Record

namespace Document

/-- A list reads back when its items do. -/
theorem list?_map {α : Type} {read : Document → Option α} {write : α → Document} {xs : List α}
    (reads : ∀ x ∈ xs, read (write x) = some x) : list? read (.list (xs.map write)) = some xs := by
  show (xs.map write).mapM read = some xs
  exact Steps.mapM_eq_some.2 (List.forall₂_map_left_iff.2 (List.forall₂_same.2 reads))

section Records

variable {r : Record}

theorem filter_entries_eq_nil {name : String} (absent : name ∉ r.map (·.1)) :
    r.entries.filter (fun entry => entry.1 = some name) = [] := by
  rw [List.filter_eq_nil_iff]
  intro entry hentry
  obtain ⟨field, hfield, rfl⟩ := List.mem_map.1 hentry
  have other : field.1 ≠ name := fun same => absent (List.mem_map.2 ⟨field, hfield, same⟩)
  simpa using other

/-- A field that stands once is the one that is found by its name. -/
theorem field?_entries (distinct : (r.map (·.1)).Nodup) (name : String) :
    field? r.entries name = some (r.find? (·.1 = name)) := by
  induction r with
  | nil => rfl
  | cons field r ih =>
    obtain ⟨fresh, distinct⟩ := List.nodup_cons.1 distinct
    by_cases same : field.1 = name
    · subst same
      have once : (Record.entries (field :: r)).filter (fun entry => entry.1 = some field.1) =
          [(some field.1, field.2)] := by
        rw [Record.entries, List.map_cons, List.filter_cons_of_pos (by simp), ← Record.entries,
          filter_entries_eq_nil fresh]
      rw [field?, once, List.find?_cons_of_pos (by simp)]
    · rw [List.find?_cons_of_neg (by simpa using same), ← ih distinct, field?, field?,
        Record.entries, List.map_cons, List.filter_cons_of_neg (by simpa using same),
        Record.entries]

/-- The declared names pick the fields of a record in their order. -/
theorem filterMap_find? {names : List String} (declared : (r.map (·.1)).Sublist names)
    (distinct : names.Nodup) : names.filterMap (fun name => r.find? (·.1 = name)) = r := by
  generalize hkeys : r.map (·.1) = keys at declared
  induction declared generalizing r with
  | slnil => rw [List.map_eq_nil_iff.1 hkeys, List.filterMap_nil]
  | @cons keys names name declared ih =>
    obtain ⟨undeclared, distinct⟩ := List.nodup_cons.1 distinct
    have absent : r.find? (·.1 = name) = none := by
      rw [List.find?_eq_none]
      intro field hfield
      have key := declared.subset (hkeys ▸ List.mem_map_of_mem hfield : field.1 ∈ keys)
      simpa using fun same : field.1 = name => undeclared (same ▸ key)
    rw [List.filterMap_cons, absent]
    exact ih distinct hkeys
  | @cons_cons keys names name declared ih =>
    obtain ⟨fresh, rest_distinct⟩ := List.nodup_cons.1 distinct
    obtain ⟨field, rest, rfl, rfl, rfl⟩ := List.map_eq_cons_iff.1 hkeys
    have first : (field :: rest).find? (·.1 = field.1) = some field :=
      List.find?_cons_of_pos (decide_eq_true rfl)
    have others : names.filterMap (fun name => (field :: rest).find? (·.1 = name)) =
        names.filterMap fun name => rest.find? (·.1 = name) := by
      refine List.filterMap_congr fun name hname => List.find?_cons_of_neg ?_
      simpa using fun same : field.1 = name => fresh (same ▸ hname)
    rw [List.filterMap_cons, first, others, ih rest_distinct rfl]

/-- A record whose names are declared, in order, is read field by field. -/
theorem record?_toDocument {names : List String} (declared : (r.map (·.1)).Sublist names)
    (distinct : names.Nodup) : r.toDocument.record? names = some r := by
  have named : ¬ r.entries.any (·.1.isNone) = true := by simp [Record.entries]
  have found : names.mapM (field? r.entries) =
      some (names.map fun name => r.find? (·.1 = name)) :=
    Steps.mapM_eq_some.2 (List.forall₂_map_right_iff.2 (List.forall₂_same.2 fun name _ =>
      field?_entries (declared.nodup distinct) name))
  calc r.toDocument.record? names
      = (names.mapM (field? r.entries)).map (·.filterMap id) := if_neg named
    _ = some (names.filterMap fun name => r.find? (·.1 = name)) := by
      rw [found, Option.map_some, List.filterMap_map]
      rfl
    _ = some r := congrArg some (filterMap_find? declared distinct)

end Records

end Document

end Qumode
