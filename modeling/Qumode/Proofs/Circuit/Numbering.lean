import Qumode.Circuit.Builder
import Qumode.Proofs.Observable.Nodes
import Qumode.Proofs.Steps

/-!
# Ids in order of first reference

A table numbers some references when it lists the wires that they name, each at its first reference.
Registering a wire is one reference more, whether the wire is in the table or not
(`Numbers.intern`), so a computation that registers wires one after another appends references
(`Normal.Refers`): those of an observable are the wires of its leaves, from left to right.
-/

namespace Qumode

/-- The table lists the wires of the references in order of first reference. -/
def WireTable.Numbers (t : WireTable) (references : List Wire) : Prop :=
  t.names = references.eraseDups

theorem WireTable.numbers_empty : empty.Numbers [] := rfl

/-- A table that numbers references has the wires that are referred to. -/
theorem WireTable.Numbers.mem_names {t : WireTable} {references : List Wire}
    (h : t.Numbers references) {w : Wire} : w ∈ t.names ↔ w ∈ references := by
  rw [show t.names = references.eraseDups from h, List.mem_eraseDups]

/-- Interning a wire adds one reference. -/
theorem WireTable.Numbers.intern {t : WireTable} {references : List Wire}
    (h : t.Numbers references) (w : Wire) : (t.intern w).2.Numbers (references ++ [w]) := by
  rw [Numbers, List.eraseDups_append, ← show t.names = references.eraseDups from h]
  unfold WireTable.intern
  split
  case h_1 id known =>
    have referred : w ∈ references :=
      h.mem_names.1 (List.mem_of_getElem? (get?_eq_some_iff.1 known))
    simp [List.removeAll, referred]
  case h_2 unknown =>
    have fresh : w ∉ references := fun referred =>
      get?_eq_none_iff.1 unknown (h.mem_names.2 referred)
    simp [List.removeAll, fresh, push, List.eraseDups_cons]

/-- The wires that an observable names, leaf by leaf. -/
def Observable.references (raw : RawObservable) : List Wire := raw.leafList.flatMap (·.wires)

namespace Normal

variable {α β : Type} {x : Normal α} {wires wires' : List Wire} {Q : α → Prop} {R : β → Prop}

/-- A run that succeeds registers the wires in order, and `Q` is true of its result. -/
def Refers (x : Normal α) (wires : List Wire) (Q : α → Prop) : Prop :=
  ∀ ⦃t u : WireTable⦄ ⦃a : α⦄, x.run t = .ok a u →
    Q a ∧ ∀ references, t.Numbers references → u.Numbers (references ++ wires)

/-- A value is given without a reference. -/
theorem Refers.pure {a : α} (h : Q a) : (pure a : Normal α).Refers [] Q := by
  rintro t u b ⟨⟩
  exact ⟨h, fun references numbers => by rwa [List.append_nil]⟩

/-- What is refused has no wires to answer for. -/
theorem Refers.throw (e : CircuitError) : (throw e : Normal α).Refers wires Q := nofun

/-- References are made one part after another. -/
theorem Refers.bind {y : α → Normal β} (hx : x.Refers wires Q)
    (hy : ∀ a, Q a → (y a).Refers wires' R) : (x >>= y).Refers (wires ++ wires') R := by
  intro t v b done
  obtain ⟨a, u, first, second⟩ := Steps.run_bind_eq_ok.1 done
  obtain ⟨good, registers⟩ := hx first
  obtain ⟨good', registers'⟩ := hy a good second
  refine ⟨good', fun references numbers => ?_⟩
  rw [← List.append_assoc]
  exact registers' _ (registers references numbers)

/-- A run whose result is only rearranged. -/
theorem Refers.map {g : α → β} (hx : x.Refers wires Q) (use : ∀ a, Q a → R (g a)) :
    (x >>= fun a => Pure.pure (g a)).Refers wires R := by
  have both := hx.bind (fun a good => Refers.pure (use a good))
  rwa [List.append_nil] at both

theorem intern_refers (w : Wire) : (intern w).Refers [w] fun _ => True := by
  intro t u id done
  cases done
  exact ⟨trivial, fun references numbers => numbers.intern w⟩

/-- Interning wires refers to them in order. -/
theorem internAll_refers (wires : List Wire) : (internAll wires).Refers wires fun _ => True := by
  induction wires with
  | nil => exact .pure trivial
  | cons w rest ih => exact (intern_refers w).bind fun _ _ => ih.map fun _ _ => trivial

/-- So it does when they have to be distinct. -/
theorem internDistinct_refers (name : String) (seen wires : List Wire) :
    (internDistinct name seen wires).Refers wires fun _ => True := by
  induction wires generalizing seen with
  | nil => exact .pure trivial
  | cons w rest ih =>
    rw [internDistinct]
    split
    · exact .throw _
    · exact (intern_refers w).bind fun _ _ => (ih (w :: seen)).map fun _ _ => trivial

/-- A leaf refers to its wires. -/
theorem leaf_refers (n : NamedObservable) : (leaf n).Refers n.wires fun _ => True := by
  rw [leaf]
  split
  · exact .throw _
  · exact (internDistinct_refers n.name [] n.wires).map fun _ _ => trivial

mutual

/-- An observable registers the wires of its leaves in order, and its tree has its shape. -/
theorem observable_refers : (raw : RawObservable) →
    (observable raw).Refers raw.references fun tree => tree.shape = raw.shape
  | .leaf n => by
    rw [observable, Observable.references, Observable.leafList, List.flatMap_singleton]
    exact (leaf_refers n).map fun l _ => rfl
  | .sum terms => by
    rw [observable]
    split
    · exact .throw _
    · exact (observables_refers terms).map fun trees same => congrArg Observable.sum same
  | .product factors => by
    rw [observable]
    split
    · exact .throw _
    · exact (observables_refers factors).map fun trees same => congrArg Observable.product same
  | .adjoint base => by
    rw [observable]
    exact (observable_refers base).map fun tree same => congrArg Observable.adjoint same
  | .power base exponent => by
    rw [observable]
    exact (observable_refers base).map fun tree same =>
      congrArg (Observable.power · exponent) same

/-- Observables refer to the wires of their leaves, depth first, and keep their shapes. -/
theorem observables_refers : (raws : List RawObservable) →
    (observables raws).Refers ((Observable.leafLists raws).flatMap (·.wires)) fun trees =>
      Observable.mapAll (fun _ => ()) trees = Observable.mapAll (fun _ => ()) raws
  | [] => .pure rfl
  | raw :: rest => by
    rw [observables, Observable.leafLists, List.flatMap_append]
    refine (observable_refers raw).bind fun tree same => ?_
    exact (observables_refers rest).map fun trees others => congrArg₂ List.cons same others

end

end Normal

end Qumode
