import Qumode.Proofs.Grouping.Contents
import Qumode.Proofs.Program.Scope

/-!
# Readouts suit the types of their wires

`WireReadout.Suits` says by type what a readout can be: a qubit is counted after gates on it alone,
and a qumode is counted as it is, or one rotation of it comes before a quadrature or both are read.
A leaf asks for such a readout together with the type (`Leaf.Touches.suits`), the analysis settles
that type, and groups place readouts as they are. So every operation before a readout is on a wire
of the type it requires.
-/

namespace Qumode

namespace WireReadout

variable {r : WireReadout} {w : WireId} {t : WireType} {op : Operation}

/-- The readout is one of a wire of the given type. -/
def Suits (r : WireReadout) (w : WireId) : WireType → Prop
  | .discrete => r.schema = .discrete ∧
    ∀ op ∈ r.diagonalizing, op.capability = .standard ∧ op.params = [] ∧ op.wires = [w]
  | .continuous => (r.schema = .discrete ∧ r.diagonalizing = []) ∨
    ((r.schema = .position ∨ r.schema = .coherent) ∧
      ∃ angle, r.diagonalizing = [⟨"Rotation", [w], [.real angle], .continuousNative⟩])

/-- The operations before a readout require of its wire the type that the readout suits. -/
theorem Suits.requirements (suits : r.Suits w t) (mem : op ∈ r.diagonalizing) :
    op.requirements = [(w, t)] := by
  cases t with
  | discrete =>
    obtain ⟨capability, -, wires⟩ := suits.2 op mem
    rw [Operation.requirements, wires, capability]
    rfl
  | continuous =>
    rcases suits with ⟨-, plain⟩ | ⟨-, angle, rotated⟩
    · rw [plain] at mem
      cases mem
    · rw [rotated, List.mem_singleton] at mem
      subst mem
      rfl

end WireReadout

/-- The readout in a natural basis is one for qumodes. -/
theorem NaturalBasis.suits (basis : NaturalBasis) (w : WireId) :
    (basis.readout w).Suits w .continuous := by
  cases basis with
  | fock => exact .inl ⟨rfl, rfl⟩
  | quadrature angle => exact .inr ⟨.inl rfl, angle, rfl⟩
  | coherent phase => exact .inr ⟨.inr rfl, phase, rfl⟩

/-- The readout that a leaf asks for suits the type that it asks for. -/
theorem Leaf.Touches.suits {l : Leaf} {w : WireId} {t : WireType} {readout : WireReadout}
    (touches : l.Touches w t (some readout)) : readout.Suits w t := by
  have natural : ∀ {basis : Option NaturalBasis},
      basis.map (NaturalBasis.readout w) = some readout →
      readout.Suits w .continuous := by
    intro basis found
    obtain ⟨b, -, rfl⟩ := Option.map_eq_some_iff.1 found
    exact b.suits w
  generalize asked : some readout = found at touches
  cases touches with
  | qubit kind on =>
    cases asked
    refine ⟨rfl, fun op mem => ?_⟩
    obtain ⟨gate, -, rfl⟩ := List.mem_map.1 mem
    exact ⟨rfl, rfl, rfl⟩
  | qumode kind on => exact natural asked.symm
  | hybridQumode kind on side => exact natural asked.symm
  | hybridQubit kind on side =>
    cases asked
    exact ⟨rfl, fun op mem => nomatch mem⟩

/-- How a group reads a wire out, with the operations that it applies to the wire before. -/
def ExecutionGroup.readout? (g : ExecutionGroup) (w : WireId) : Option WireReadout :=
  (g.basis? w).map fun schema => ⟨schema, g.diagonalizing.filter (w ∈ ·.wires)⟩

/-- The readouts of a group whose operations stay on their wires are those that are placed in it. -/
theorem OpenGroup.readout?_close {g : OpenGroup} (distinct : (g.readouts.map (·.1)).Nodup)
    (on_wire : ∀ e ∈ g.readouts, ∀ op ∈ e.2.diagonalizing, op.wires = [e.1]) (w : WireId) :
    g.close.readout? w = g.readout? w := by
  unfold ExecutionGroup.readout? OpenGroup.readout?
  rw [basis?_close]
  cases held : g.readouts.lookup w with
  | none => rfl
  | some placed =>
    have own := Grouping.filter_mem_diagonalizing distinct on_wire
      ((lookup_eq_some_iff_mem distinct).1 held)
    rw [Option.map_some, Option.map_some, Option.some.injEq]
    exact congrArg (WireReadout.mk placed.schema) own

/-- A group reads out a wire of one of its measurements as a measurement asks. -/
theorem Grouping.exists_readout? {schemas : List MeasurementSchema}
    (on_wire : ∀ s ∈ schemas, ∀ w r, s.get? w = some r → ∀ op ∈ r.diagonalizing, op.wires = [w])
    {g : ExecutionGroup} (hg : g ∈ groupMeasurements schemas) {i : Nat} (hi : i ∈ g.measurements)
    {s : MeasurementSchema} (listed : schemas[i]? = some s) {w : WireId} {r : WireReadout}
    (touched : s.get? w = some r) :
    ∃ placed, g.readout? w = some placed ∧ ∃ s' ∈ schemas, s'.get? w = some placed := by
  rw [groupMeasurements_eq_map_placeAll] at hg
  obtain ⟨opened, placed_in, rfl⟩ := List.mem_map.1 hg
  have serves := serves_placeAll schemas opened placed_in
  have asked_by : ∀ e ∈ opened.readouts, ∃ s' ∈ schemas, s'.get? e.1 = some e.2 := by
    intro e he
    obtain ⟨s', hs', entry⟩ := readFrom_placeAll schemas opened placed_in e he
    exact ⟨s', hs', MeasurementSchema.get?_eq_some_iff.2 entry⟩
  have stays : ∀ e ∈ opened.readouts, ∀ op ∈ e.2.diagonalizing, op.wires = [e.1] := by
    intro e he
    obtain ⟨s', hs', asked⟩ := asked_by e he
    exact on_wire s' hs' e.1 e.2 asked
  obtain ⟨placed, held⟩ :=
    serves.exists_placed hi ((OpenGroup.asked_eq_get? listed w).trans touched)
  refine ⟨placed, (OpenGroup.readout?_close serves.distinct stays w).trans held, ?_⟩
  exact asked_by _ ((lookup_eq_some_iff_mem serves.distinct).1 held)

namespace Analysis

open TypeContext

variable {c : Circuit} {r : Analysis} {w : WireId}

/-- An analysis describes its circuit, whether that is well-formed or not. -/
theorem describes_of_analysed (analysed : ofCircuit c = .ok r) : r.Describes c := by
  obtain ⟨ctx, run, finished, groups⟩ := ofCircuit_eq_ok.1 analysed
  obtain ⟨-, -, grows, asked⟩ := (resolved_makes c).of_ok run
  refine ⟨?_, fun w t => ?_, asked, groups⟩
  · exact (finish_length finished).trans (grows.length.trans (length_start c))
  · rw [wireType?, finish_getElem? finished, grows.get?, get?_start, Circuit.mem_demanded]
    simp

/-- A readout of a measurement suits the type of its wire. -/
theorem Describes.suits_type (h : r.Describes c) {s : MeasurementSchema} (hs : s ∈ r.schemas)
    {readout : WireReadout} (found : s.get? w = some readout) :
    ∃ t, r.wireType? w = some t ∧ readout.Suits w t := by
  obtain ⟨m, hm, l, hl, t, touches⟩ := h.exists_leaf hs found
  exact ⟨t, h.requires hm hl touches, touches.suits⟩

/-- What a measurement needs on a wire suits the type of the wire, and so does the way in which its
group reads the wire out. The operations before the readouts of a group require the types that their
wires have. -/
theorem readouts_suit_types (analysed : ofCircuit c = .ok r) :
    (∀ i s w readout, r.schemas[i]? = some s → (w, readout) ∈ s.entries →
      ∃ t, r.wireType? w = some t ∧ readout.Suits w t ∧ (∃ g ∈ r.groups, i ∈ g.measurements) ∧
        ∀ g ∈ r.groups, i ∈ g.measurements →
          ∃ placed, g.readout? w = some placed ∧ placed.Suits w t) ∧
    ∀ g ∈ r.groups, ∀ op ∈ g.diagonalizing,
      ∃ w t, op.requirements = [(w, t)] ∧ r.wireType? w = some t := by
  have describes := describes_of_analysed analysed
  have on_wire : ∀ s ∈ r.schemas, ∀ w readout, s.get? w = some readout →
      ∀ op ∈ readout.diagonalizing, op.wires = [w] :=
    fun s hs w readout => (resolved_of_ofCircuit analysed s hs).on_wire
  constructor
  · intro i s w readout listed entry
    have hs := List.mem_of_getElem? listed
    have touched := MeasurementSchema.get?_eq_some_iff.2 entry
    obtain ⟨t, type, suits⟩ := describes.suits_type hs touched
    refine ⟨t, type, suits, ?_, fun g hg hi => ?_⟩
    · obtain ⟨inside, -⟩ := List.getElem?_eq_some_iff.1 listed
      obtain ⟨k, g, found, member, -⟩ := Grouping.existsUnique_group inside
      rw [← describes.groups] at found
      exact ⟨g, List.mem_of_getElem? found, member⟩
    · rw [describes.groups] at hg
      obtain ⟨placed, held, s', hs', asked⟩ :=
        Grouping.exists_readout? on_wire hg hi listed touched
      obtain ⟨t', type', suits'⟩ := describes.suits_type hs' asked
      cases type.symm.trans type'
      exact ⟨placed, held, suits'⟩
  · intro g hg op hop
    rw [describes.groups] at hg
    obtain ⟨s, hs, w, readout, found, mem⟩ := Grouping.mem_diagonalizing hg hop
    obtain ⟨t, type, suits⟩ := describes.suits_type hs found
    exact ⟨w, t, suits.requirements mem, type⟩

/-- A quadrature of a qumode with a qubit observable, and the photon number of the qumode in a group
of its own: the rotation is of a qumode and the gate is of a qubit. -/
theorem suit_types_of_product_and_count :
    let c := (Circuit.empty "c").afterCalls [
      .measure (.product [.leaf ⟨"QuadX", [.index 1], []⟩, .leaf ⟨"PauliX", [.index 0], []⟩]),
      .measure (.leaf ⟨"NumberOperator", [.index 1], []⟩)]
    ∃ r, ofCircuit c = .ok r ∧ r.groups.length = 2 ∧
      (∀ g ∈ r.groups, ∀ op ∈ g.diagonalizing,
        ∃ w t, op.requirements = [(w, t)] ∧ r.wireType? w = some t) ∧
      ∃ s readout, r.schemas[0]? = some s ∧ (⟨0⟩, readout) ∈ s.entries ∧
        readout.Suits ⟨0⟩ .continuous ∧ ∃ g ∈ r.groups, 0 ∈ g.measurements ∧
          ∃ placed, g.readout? ⟨0⟩ = some placed ∧ placed.Suits ⟨0⟩ .continuous := by
  intro c
  obtain ⟨measured, grouped⟩ := readouts_suit_types (c := c) rfl
  obtain ⟨t, type, suits, ⟨g, hg, hi⟩, served⟩ := measured 0 _ ⟨0⟩ _ rfl List.mem_cons_self
  cases type
  exact ⟨_, rfl, rfl, grouped, _, _, rfl, List.mem_cons_self, suits, g, hg, hi, served g hg hi⟩

end Analysis

end Qumode
