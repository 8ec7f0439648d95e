import Std.Data.ExtTreeMap
import Std.Data.ExtTreeMap.Lemmas

/-!
# Lists with an index

A list of distinct keys can keep a map beside it that gives the position of every key. `Indexes`
says that the two are in step: the map and the list are inverse to each other. A list then has no
key twice (`Indexes.nodup`), and it leaves no choice for the map (`Indexes.unique`), so a list and
its map are equal to another list and its map as soon as the lists are.

A key is added at the end of both, and the last keys are dropped from the list and then erased from
the map one after another.
-/

namespace Qumode

/-- The position of every key of a list. -/
abbrev Positions (κ : Type) [Ord κ] := Std.ExtTreeMap κ Nat compare

namespace Positions

variable {κ : Type} [Ord κ] [Std.TransOrd κ]

/-- The map without some keys, erased in order. -/
def eraseAll (p : Positions κ) (dropped : List κ) : Positions κ :=
  dropped.foldl (fun p k => p.erase k) p

/-- The map gives the position of every key of the list, and of nothing else. -/
def Indexes (p : Positions κ) (keys : List κ) : Prop :=
  ∀ (k : κ) (i : Nat), p[k]? = some i ↔ keys[i]? = some k

theorem indexes_nil : Indexes (∅ : Positions κ) [] := fun k i => by simp

namespace Indexes

variable {p q : Positions κ} {keys : List κ}

theorem nodup (h : p.Indexes keys) : keys.Nodup := by
  refine List.pairwise_iff_getElem.2 fun i j hi hj ij same => ?_
  have first := (h keys[i] i).2 (List.getElem?_eq_getElem hi)
  rw [(h keys[i] j).2 (same ▸ List.getElem?_eq_getElem hj)] at first
  exact absurd (Option.some.inj first) (Nat.ne_of_gt ij)

theorem getElem?_eq_none_iff (h : p.Indexes keys) {k : κ} : p[k]? = none ↔ k ∉ keys := by
  constructor
  · intro missing present
    obtain ⟨i, found⟩ := List.mem_iff_getElem?.1 present
    rw [(h k i).2 found] at missing
    cases missing
  · intro fresh
    cases found : p[k]? with
    | none => rfl
    | some i => exact absurd (List.mem_of_getElem? ((h k i).1 found)) fresh

end Indexes

variable [Std.LawfulEqOrd κ]

theorem getElem?_eraseAll {p : Positions κ} {dropped : List κ} {k : κ} {i : Nat} :
    (eraseAll p dropped)[k]? = some i ↔ k ∉ dropped ∧ p[k]? = some i := by
  induction dropped generalizing p with
  | nil => simp [eraseAll]
  | cons d dropped ih =>
    have step : eraseAll p (d :: dropped) = eraseAll (p.erase d) dropped := rfl
    rw [step, ih, Std.ExtTreeMap.getElem?_erase]
    by_cases same : d = k
    · simp [same]
    · simp [same, Ne.symm same]

namespace Indexes

variable {p q : Positions κ} {keys : List κ}

theorem unique (h : p.Indexes keys) (h' : q.Indexes keys) : p = q := by
  refine Std.ExtTreeMap.ext_getElem? fun k => ?_
  cases found : p[k]? with
  | none => exact (h'.getElem?_eq_none_iff.2 (h.getElem?_eq_none_iff.1 found)).symm
  | some i => exact ((h' k i).2 ((h k i).1 found)).symm

/-- A new key goes to the end of the list. -/
theorem push (h : p.Indexes keys) {new : κ} (fresh : new ∉ keys) :
    Indexes (p.insert new keys.length) (keys ++ [new]) := by
  intro k i
  rw [Std.ExtTreeMap.getElem?_insert, List.getElem?_append]
  by_cases same : new = k
  · subst same
    simp only [Std.ReflCmp.compare_self, ↓reduceIte, Option.some.injEq]
    by_cases before : i < keys.length
    · rw [if_pos before]
      exact ⟨fun atEnd => by omega, fun found => absurd (List.mem_of_getElem? found) fresh⟩
    · rw [if_neg before, List.getElem?_singleton]
      split <;> simp <;> omega
  · rw [if_neg (fun equal => same (Std.LawfulEqCmp.eq_of_compare equal)), h k i]
    by_cases before : i < keys.length
    · rw [if_pos before]
    · rw [if_neg before, List.getElem?_eq_none (Nat.le_of_not_lt before), List.getElem?_singleton]
      split <;> simp [same]

/-- The keys behind the first `size` are dropped from the list and erased from the map. -/
theorem take (h : p.Indexes keys) (size : Nat) :
    Indexes (eraseAll p (keys.drop size)) (keys.take size) := by
  intro k i
  rw [getElem?_eraseAll, h k i, List.getElem?_take]
  constructor
  · rintro ⟨kept, found⟩
    have before : i < size := Nat.lt_of_not_le fun behind => by
      refine kept (List.mem_iff_getElem?.2 ⟨i - size, ?_⟩)
      rw [List.getElem?_drop, Nat.add_sub_cancel' behind]
      exact found
    rw [if_pos before]
    exact found
  · intro found
    split at found
    case isFalse => cases found
    case isTrue before =>
      refine ⟨fun dropped => ?_, found⟩
      obtain ⟨j, again⟩ := List.mem_iff_getElem?.1 dropped
      rw [List.getElem?_drop] at again
      have position := (h k i).2 found
      rw [(h k _).2 again] at position
      have := Option.some.inj position
      omega

end Indexes

end Positions

end Qumode
