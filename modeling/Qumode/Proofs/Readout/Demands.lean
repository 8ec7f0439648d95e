import Qumode.Program.Line
import Qumode.Proofs.Circuit.WellFormed
import Qumode.Readout.Resolution

/-!
# What a leaf asks of its wires

`Leaf.Touches` says by kind what a leaf asks of a wire: a type, and the readout in which it is
diagonal on that wire. `Leaf.mem_demands` shows that the demands of the leaf ask for this and for
nothing else. A leaf of a built circuit asks each wire once, and it can be read out everywhere
unless it is a qumode observable without a natural basis.
-/

namespace Qumode

namespace Leaf

variable {l : Leaf} {size : Nat} {w : WireId} {t : WireType} {r : Option WireReadout}

/-- A leaf asks for a type and a readout of a wire; the readout is missing where the leaf has no
natural basis. The wires of a hybrid leaf are split like those of a hybrid operation. The identity
asks for nothing. -/
inductive Touches (l : Leaf) : WireId → WireType → Option WireReadout → Prop where
  | qubit {gates : List String} {w : WireId} (kind : l.kind = .discrete gates) (on : w ∈ l.wires) :
      l.Touches w .discrete (some ⟨.discrete, gates.map fun gate => .qubitGate gate w⟩)
  | qumode {basis : Option NaturalBasis} {w : WireId} (kind : l.kind = .continuous basis)
      (on : w ∈ l.wires) :
      l.Touches w .continuous (basis.map (NaturalBasis.readout w))
  | hybridQumode {count : Nat} {basis : Option NaturalBasis} {w : WireId} {position : Nat}
      (kind : l.kind = .hybrid count basis) (on : l.wires[position]? = some w)
      (side : hybridWireOrder.typeAt position l.wires.length count = .continuous) :
      l.Touches w .continuous (basis.map (NaturalBasis.readout w))
  | hybridQubit {count : Nat} {basis : Option NaturalBasis} {w : WireId} {position : Nat}
      (kind : l.kind = .hybrid count basis) (on : l.wires[position]? = some w)
      (side : hybridWireOrder.typeAt position l.wires.length count = .discrete) :
      l.Touches w .discrete (some (.plain .discrete))

/-- The demands of a leaf are the ways it touches its wires. -/
theorem mem_demands : (⟨w, t, r⟩ : Demand) ∈ l.demands ↔ l.Touches w t r := by
  rw [demands]
  constructor
  · intro mem
    split at mem
    case h_1 => cases mem
    case h_2 gates kind =>
      obtain ⟨v, on, equal⟩ := List.mem_map.1 mem
      cases equal
      exact .qubit kind on
    case h_3 basis kind =>
      obtain ⟨v, on, equal⟩ := List.mem_map.1 mem
      cases equal
      exact .qumode kind on
    case h_4 count basis kind =>
      obtain ⟨⟨v, position⟩, on, equal⟩ := List.mem_map.1 mem
      rw [List.mk_mem_zipIdx_iff_getElem?] at on
      dsimp only at equal
      split at equal
      case h_1 side =>
        cases equal
        exact .hybridQumode kind on side
      case h_2 side =>
        cases equal
        exact .hybridQubit kind on side
  · intro touches
    cases touches with
    | qubit kind on =>
      rw [kind]
      exact List.mem_map.2 ⟨w, on, rfl⟩
    | qumode kind on =>
      rw [kind]
      exact List.mem_map.2 ⟨w, on, rfl⟩
    | hybridQumode kind on side =>
      rw [kind]
      refine List.mem_map.2 ⟨_, List.mk_mem_zipIdx_iff_getElem?.2 on, ?_⟩
      dsimp only
      rw [side]
      rfl
    | hybridQubit kind on side =>
      rw [kind]
      refine List.mem_map.2 ⟨_, List.mk_mem_zipIdx_iff_getElem?.2 on, ?_⟩
      dsimp only
      rw [side]
      rfl

theorem map_wire_demands (l : Leaf) :
    l.demands.map (·.wire) = if l.kind = .identity then [] else l.wires := by
  rw [demands]
  split
  case h_4 count basis kind =>
    simp only [kind, List.map_map, reduceCtorEq, ↓reduceIte]
    refine Eq.trans (List.map_congr_left fun entry _ => ?_) (List.zipIdx_map_fst 0 l.wires)
    dsimp only [Function.comp_apply]
    split <;> rfl
  all_goals simp_all [Function.comp_def, Demand.qubit, Demand.qumode]

theorem Touches.mem_wires (h : l.Touches w t r) : w ∈ l.wires := by
  cases h with
  | qubit kind on => exact on
  | qumode kind on => exact on
  | hybridQumode kind on side => exact List.mem_of_getElem? on
  | hybridQubit kind on side => exact List.mem_of_getElem? on

/-- What a leaf reads a wire out with, the wire can be read out with: the readout is one of those of
its type, after operations on that wire alone. -/
theorem Touches.readout {readout : WireReadout} (h : l.Touches w t (some readout)) :
    (ReadoutKind.ofWire? t readout.schema).isSome ∧
      ∀ op ∈ readout.diagonalizing, op.wires = [w] := by
  have natural : ∀ {basis : Option NaturalBasis} {found : WireReadout},
      basis.map (NaturalBasis.readout w) = some found →
        (ReadoutKind.ofWire? .continuous found.schema).isSome ∧
          ∀ op ∈ found.diagonalizing, op.wires = [w] := by
    rintro (_ | basis) found equal
    · cases equal
    · cases equal
      cases basis <;>
        simp [NaturalBasis.readout, WireReadout.plain, WireReadout.rotated, ReadoutKind.ofWire?,
          Operation.rotation]
  generalize asked : some readout = r at h
  cases h with
  | qubit kind on =>
    cases asked
    refine ⟨rfl, fun op mem => ?_⟩
    obtain ⟨gate, -, rfl⟩ := List.mem_map.1 mem
    rfl
  | qumode kind on => exact natural asked.symm
  | hybridQumode kind on side => exact natural asked.symm
  | hybridQubit kind on side =>
    cases asked
    exact ⟨rfl, fun op mem => nomatch mem⟩

/-- A well-formed leaf demands each of its wires once. -/
theorem WellFormed.nodup_demands (h : l.WellFormed size) : (l.demands.map (·.wire)).Nodup := by
  rw [map_wire_demands]
  split
  · exact List.nodup_nil
  · exact h.wires.distinct

/-- A leaf lacks a readout somewhere only if it has no natural basis. -/
theorem WellFormed.readable_iff (h : l.WellFormed size) :
    (∀ w t r, l.Touches w t r → r.isSome) ↔ l.kind ≠ .continuous none := by
  constructor
  · intro readable kind
    obtain ⟨w, on⟩ := List.exists_mem_of_ne_nil l.wires h.nonempty
    exact nomatch readable w _ _ (.qumode kind on)
  · intro natural w t r touches
    cases touches with
    | qubit kind on => rfl
    | @qumode basis w kind on =>
      cases basis with
      | none => exact absurd kind natural
      | some basis => rfl
    | @hybridQumode count basis w position kind on side =>
      cases basis with
      | none => exact absurd kind (h.hybridBasis count)
      | some basis => rfl
    | hybridQubit kind on side => rfl

end Leaf

end Qumode
