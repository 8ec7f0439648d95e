import Qumode.Analysis.Basic
import Qumode.Proofs.Readout.Demands
import Qumode.Proofs.Steps
import Qumode.Proofs.Typing.Resolution

/-!
# When an analysis succeeds

The analysis meets demands in program order on one typing context and stops at the first that is not
met. `Circuit.Consistent` says without an order what has to hold: no wire is required at both types,
every wire is required at one, every leaf has a natural basis, and the leaves of one measurement
agree on the wires they share. A circuit that is built by calls has an analysis just when it is
consistent, and the analysis then gives every wire its one required type.
-/

namespace Qumode

namespace TypeContext

variable {c : Circuit} {ctx : TypeContext} {types : List WireType}

/-- In a new context no wire has a type. -/
theorem get?_start (c : Circuit) (w : WireId) : (start c).get? w = none := by
  rw [get?, start, List.getElem?_replicate]
  split <;> rfl

theorem length_start (c : Circuit) : (start c).slots.length = c.numWires := List.length_replicate

/-- Finishing succeeds with the types in the slots. -/
theorem finishFrom_eq_ok {index : Nat} {slots : List (Option Settled)}
    (h : finishFrom c index slots = .ok types) :
    slots.map (Option.map Settled.type) = types.map some := by
  induction slots generalizing index types with
  | nil =>
    cases h
    rfl
  | cons slot rest ih =>
    cases slot with
    | none => cases h
    | some settled =>
      obtain ⟨others, finished, done⟩ := Steps.bind_eq_ok.1 h
      cases done
      rw [List.map_cons, List.map_cons, ih finished, Option.map_some]

/-- Finishing succeeds when every slot is filled. -/
theorem finishFrom_isOk {index : Nat} {slots : List (Option Settled)}
    (filled : none ∉ slots) : ∃ types, finishFrom c index slots = .ok types := by
  induction slots generalizing index with
  | nil => exact ⟨[], rfl⟩
  | cons slot rest ih =>
    rw [List.mem_cons, not_or] at filled
    cases slot with
    | none => exact absurd rfl filled.1
    | some settled =>
      obtain ⟨others, finished⟩ : ∃ types, finishFrom c (index + 1) rest = .ok types :=
        ih filled.2
      exact ⟨_, Steps.bind_eq_ok.2 ⟨others, finished, rfl⟩⟩

/-- There is one type for each slot. -/
theorem finish_length (h : ctx.finish c = .ok types) : types.length = ctx.slots.length := by
  simpa using (congrArg List.length (finishFrom_eq_ok h)).symm

/-- The type of a wire is the one in its slot. -/
theorem finish_getElem? (h : ctx.finish c = .ok types) (w : WireId) :
    types[w.index]? = ctx.get? w := by
  have at_w := congrArg (·[w.index]?) (finishFrom_eq_ok h)
  simp only [List.getElem?_map] at at_w
  rw [get?]
  cases slot : ctx.slots[w.index]? with
  | none =>
    rw [slot, Option.map_none] at at_w
    exact Option.map_eq_none_iff.1 at_w.symm
  | some settled =>
    rw [slot, Option.map_some] at at_w
    obtain ⟨t, type, same⟩ := Option.map_eq_some_iff.1 at_w.symm
    rw [type, same]
    rfl

/-- The types of all wires are known just when each is. -/
theorem finish_isOk_iff :
    (∃ types, ctx.finish c = .ok types) ↔
      ∀ w : WireId, w.index < ctx.slots.length → ∃ t, ctx.get? w = some t := by
  constructor
  · rintro ⟨types, finished⟩ w inside
    rw [← finish_length finished] at inside
    exact ⟨_, (finish_getElem? finished w).symm.trans (List.getElem?_eq_getElem inside)⟩
  · intro known
    refine finishFrom_isOk fun missing => ?_
    obtain ⟨i, inside, slot⟩ := List.mem_iff_getElem.1 missing
    obtain ⟨t, found⟩ := known ⟨i⟩ inside
    rw [get?, List.getElem?_eq_getElem inside, slot] at found
    cases found

end TypeContext

/-- Whenever two leaves read a wire out, they do it in the same way. -/
def Leaf.Agrees (l l' : Leaf) : Prop :=
  ∀ w t t' r r', l.Touches w t (some r) → l'.Touches w t' (some r') → r.numEq r' = true

namespace Circuit

variable {c : Circuit} {w : WireId} {t : WireType}

/-- An operation or a leaf of a measurement requires the wire to have the type. -/
def Requires (c : Circuit) (w : WireId) (t : WireType) : Prop :=
  (∃ op ∈ c.operations, (w, t) ∈ op.requirements) ∨
    ∃ m ∈ c.measurements, ∃ l ∈ m.leafList, ∃ r, l.Touches w t r

/-- What a circuit needs for an analysis. The leaves of a measurement are compared by occurrence: a
leaf that stands twice is compared with itself. -/
structure Consistent (c : Circuit) : Prop where
  typed : ∀ w, ¬ (c.Requires w .discrete ∧ c.Requires w .continuous)
  covered : ∀ w ∈ c.wires.ids, ∃ t, c.Requires w t
  natural : ∀ m ∈ c.measurements, ∀ l ∈ m.leafList, l.kind ≠ .continuous none
  agreeing : ∀ m ∈ c.measurements, m.leafList.Pairwise Leaf.Agrees

/-- The demands of all operations and then of all measurements. -/
def demanded (c : Circuit) : List (WireId × WireType) :=
  c.operations.flatMap Operation.requirements ++
    c.measurements.flatMap fun m => m.demands.map Demand.typed

/-- The demands of a circuit are the types it requires. -/
theorem mem_demanded : (w, t) ∈ c.demanded ↔ c.Requires w t := by
  rw [demanded, List.mem_append, List.mem_flatMap, List.mem_flatMap]
  refine or_congr_right (exists_congr fun m => and_congr_right fun _ => ?_)
  rw [Observable.demands, List.mem_map]
  constructor
  · rintro ⟨⟨v, u, r⟩, mem, equal⟩
    cases equal
    obtain ⟨l, hl, mem⟩ := List.mem_flatMap.1 mem
    exact ⟨l, hl, r, Leaf.mem_demands.1 mem⟩
  · rintro ⟨l, hl, r, touches⟩
    exact ⟨⟨w, t, r⟩, List.mem_flatMap.2 ⟨l, hl, Leaf.mem_demands.2 touches⟩, rfl⟩

theorem mem_ids : w ∈ c.wires.ids ↔ w.index < c.numWires := by
  obtain ⟨i⟩ := w
  simp [WireTable.ids, numWires]

namespace WellFormed

/-- A well-formed circuit requires types of its own wires only. -/
theorem index_lt (h : c.WellFormed) (required : c.Requires w t) : w.index < c.numWires := by
  rcases required with ⟨op, hop, mem⟩ | ⟨m, hm, l, hl, r, touches⟩
  · obtain ⟨⟨v, i⟩, found, equal⟩ := List.mem_map.1 mem
    cases equal
    have on := List.mem_of_getElem? (List.mk_mem_zipIdx_iff_getElem?.1 found)
    exact (h.operations op hop).inside _ on
  · exact (h.leaves m hm l hl).wires.inside w touches.mem_wires

/-- The demands fit when no wire is required to be both a qubit and a qumode. -/
theorem fits_iff (h : c.WellFormed) :
    (TypeContext.start c).Fits c.demanded ↔
      ∀ w, ¬ (c.Requires w .discrete ∧ c.Requires w .continuous) := by
  constructor
  · rintro fits w ⟨discrete, continuous⟩
    obtain ⟨-, -, agree⟩ := fits w .discrete (mem_demanded.2 discrete)
    exact nomatch agree .continuous (mem_demanded.2 continuous)
  · intro typed w t mem
    have required := mem_demanded.1 mem
    refine ⟨?_, fun t' found => ?_, fun t' mem' => ?_⟩
    · rw [TypeContext.length_start]
      exact h.index_lt required
    · rw [TypeContext.get?_start] at found
      cases found
    · have required' := mem_demanded.1 mem'
      cases t <;> cases t'
      case discrete.discrete => rfl
      case continuous.continuous => rfl
      case discrete.continuous => exact absurd ⟨required, required'⟩ (typed w)
      case continuous.discrete => exact absurd ⟨required', required⟩ (typed w)

/-- The demands of a measurement can be recorded just when its leaves have natural bases and agree.
A leaf has nothing to agree with itself about, since it asks each wire once. -/
theorem readable_iff (h : c.WellFormed) {m : Observable Leaf} (hm : m ∈ c.measurements) :
    Readable .empty m.demands ↔
      (∀ l ∈ m.leafList, l.kind ≠ .continuous none) ∧ m.leafList.Pairwise Leaf.Agrees := by
  have admitted_iff : (∀ d ∈ m.demands, d.Admitted .empty) ↔
      ∀ l ∈ m.leafList, l.kind ≠ .continuous none := by
    simp only [Observable.demands, List.forall_mem_flatMap, Demand.Admitted]
    refine forall₂_congr fun l hl => ?_
    rw [← (h.leaves m hm l hl).readable_iff]
    simp only [← Leaf.mem_demands]
    constructor
    · intro admitted w t r mem
      obtain ⟨readout, asked, -⟩ := admitted _ mem
      exact Option.isSome_iff_exists.2 ⟨readout, asked⟩
    · intro readable d hd
      obtain ⟨readout, asked⟩ := Option.isSome_iff_exists.1 (readable d.wire d.type d.readout hd)
      exact ⟨readout, asked, MeasurementSchema.accepts_empty d.wire readout⟩
  have agree_iff : m.demands.Pairwise Demand.Agrees ↔ m.leafList.Pairwise Leaf.Agrees := by
    rw [Observable.demands, List.pairwise_flatMap, and_iff_right]
    · refine List.Pairwise.iff fun l l' => ?_
      simp only [Leaf.Agrees, ← Leaf.mem_demands]
      constructor
      · intro agree w t t' r r' mem mem'
        exact agree _ mem _ mem' rfl r r' rfl rfl
      · intro agree d hd d' hd' on r r' asked asked'
        obtain ⟨w, t, _⟩ := d
        obtain ⟨w', t', _⟩ := d'
        cases on
        cases asked
        cases asked'
        exact agree w t t' r r' hd hd'
    · intro l hl
      have distinct := List.pairwise_map.1 (h.leaves m hm l hl).nodup_demands
      exact distinct.imp fun apart same => absurd same apart
  rw [← admitted_iff, ← agree_iff]
  exact ⟨fun readable => ⟨readable.admitted, readable.agree⟩, fun both => ⟨both.1, both.2⟩⟩

end WellFormed

end Circuit

namespace Analysis

open Circuit Typing

variable {c : Circuit} {r : Analysis}

/-- The readouts of a schema are readouts that leaves of the observable ask for. -/
def AskedBy (s : MeasurementSchema) (m : Observable Leaf) : Prop :=
  ∀ w readout, s.get? w = some readout → ∃ l ∈ m.leafList, ∃ t, l.Touches w t (some readout)

/-- What the analysis of a circuit says of it: the required type of every wire, readouts of every
measurement that its leaves ask for, and the groups of these measurements. -/
structure Describes (r : Analysis) (c : Circuit) : Prop where
  numWires : r.numWires = c.numWires
  wireType? : ∀ w t, r.wireType? w = some t ↔ c.Requires w t
  schemas : List.Forall₂ (fun m s => AskedBy s m) c.measurements r.schemas
  groups : r.groups = Grouping.groupMeasurements r.schemas

/-- A schema that has collected the demands of a measurement holds what it asks for. -/
theorem askedBy_of_collects {s : MeasurementSchema} {m : Observable Leaf}
    (h : Collects .empty m.demands s) : AskedBy s m := by
  intro w readout present
  rcases h w readout present with held | ⟨⟨v, t, r⟩, mem, on, asked⟩
  · rw [MeasurementSchema.get?_empty] at held
    cases held
  · cases on
    cases asked
    obtain ⟨l, hl, mem⟩ := List.mem_flatMap.1 mem
    exact ⟨l, hl, t, Leaf.mem_demands.1 mem⟩

/-- Resolving a circuit makes its demands, and its measurements have to be readable. -/
theorem resolved_makes (c : Circuit) :
    (resolved c).Makes c.demanded (∀ m ∈ c.measurements, Readable .empty m.demands)
      (List.Forall₂ (fun m s => AskedBy s m) c.measurements) := by
  have both := (operations_makes c).bind fun _ _ => measurements_makes c
  refine both.mono (iff_of_eq (true_and _)) fun schemas collected => ?_
  exact collected.imp fun m s => askedBy_of_collects

/-- An analysis of a well-formed circuit fails only if the circuit is not consistent, and describes
it if it succeeds. -/
theorem ofCircuit_spec (h : c.WellFormed) :
    match ofCircuit c with
    | .ok r => c.Consistent ∧ r.Describes c
    | .error _ => ¬ c.Consistent := by
  rw [ofCircuit]
  cases run : (resolved c).run (.start c) with
  | error e ctx =>
    refine fun consistent => (resolved_makes c).of_error run ⟨h.fits_iff.2 consistent.typed, ?_⟩
    exact fun m hm => (h.readable_iff hm).2 ⟨consistent.natural m hm, consistent.agreeing m hm⟩
  | ok schemas ctx =>
    obtain ⟨fits, readable, grows, found⟩ := (resolved_makes c).of_ok run
    have type_iff : ∀ w t, ctx.get? w = some t ↔ c.Requires w t := by
      intro w t
      rw [grows.get?, TypeContext.get?_start, mem_demanded]
      simp
    have length : ctx.slots.length = c.numWires := grows.length.trans (TypeContext.length_start c)
    dsimp only
    have covered_iff : (∃ types, ctx.finish c = .ok types) ↔
        ∀ w ∈ c.wires.ids, ∃ t, c.Requires w t := by
      simp only [TypeContext.finish_isOk_iff, type_iff, length, mem_ids]
    cases finished : ctx.finish c with
    | error e =>
      change ¬ c.Consistent
      intro consistent
      obtain ⟨types, done⟩ := covered_iff.2 consistent.covered
      cases finished.symm.trans done
    | ok types =>
      change c.Consistent ∧ Describes ⟨types, schemas, Grouping.groupMeasurements schemas⟩ c
      refine ⟨⟨h.fits_iff.1 fits, covered_iff.1 ⟨types, finished⟩, ?_, ?_⟩, ?_, ?_, found, rfl⟩
      · exact fun m hm => ((h.readable_iff hm).1 (readable m hm)).1
      · exact fun m hm => ((h.readable_iff hm).1 (readable m hm)).2
      · exact (TypeContext.finish_length finished).trans length
      · intro w t
        rw [← type_iff, ← TypeContext.finish_getElem? finished]
        rfl

/-- An analysis that succeeds describes the circuit. -/
theorem describes_of_ofCircuit (h : c.WellFormed) (analysed : ofCircuit c = .ok r) :
    r.Describes c := by
  have spec := ofCircuit_spec h
  rw [analysed] at spec
  exact spec.2

/-- An analysis succeeds when the circuit is consistent, and only then. -/
theorem ofCircuit_isOk_iff (h : c.WellFormed) : (∃ r, ofCircuit c = .ok r) ↔ c.Consistent := by
  have spec := ofCircuit_spec h
  cases analysed : ofCircuit c with
  | error e =>
    rw [analysed] at spec
    exact iff_of_false nofun spec
  | ok r =>
    rw [analysed] at spec
    exact iff_of_true ⟨r, rfl⟩ spec.1

/-- A built circuit has an analysis just when it is consistent. The analysis covers all its wires,
and the type of a wire is the one at which the wire is required. -/
theorem ofCircuit_succeeds_iff_consistent (built : c.Reachable) :
    ((∃ r, ofCircuit c = .ok r) ↔ c.Consistent) ∧
      ∀ r, ofCircuit c = .ok r → r.numWires = c.numWires ∧
        ∀ w ∈ c.wires.ids, ∃ t, r.wireType? w = some t ∧ ∀ t', c.Requires w t' ↔ t' = t := by
  have spec := ofCircuit_spec built.wellFormed
  cases analysed : ofCircuit c with
  | error e =>
    rw [analysed] at spec
    exact ⟨iff_of_false nofun spec, nofun⟩
  | ok r =>
    rw [analysed] at spec
    obtain ⟨consistent, describes⟩ := spec
    refine ⟨iff_of_true ⟨r, rfl⟩ consistent, ?_⟩
    rintro _ ⟨⟩
    refine ⟨describes.numWires, fun w hw => ?_⟩
    obtain ⟨t, required⟩ := consistent.covered w hw
    have type := (describes.wireType? w t).2 required
    refine ⟨t, type, fun t' => ?_⟩
    rw [← describes.wireType?, type, Option.some.injEq, eq_comm]

/-- Two leaves of one measurement that read a qumode out in the same way. -/
theorem consistent_of_shared_quadrature :
    let c := (empty "c").afterCalls [.hybrid "ConditionalDisplacement" [.index 4, .index 9] 1 [],
      .measure (.sum [.leaf ⟨"ConditionalQuadX", [.index 4, .index 9], []⟩,
        .leaf ⟨"QuadX", [.index 4], []⟩])]
    c.Consistent ∧ ∀ t, c.Requires ⟨0⟩ t ↔ t = .continuous := by
  intro c
  obtain ⟨analysed, types⟩ := ofCircuit_succeeds_iff_consistent (c := c) ⟨_, _, rfl⟩
  obtain ⟨-, type⟩ := types _ rfl
  obtain ⟨t, found, unique⟩ := type ⟨0⟩ (by decide)
  cases found
  exact ⟨analysed.1 ⟨_, rfl⟩, unique⟩

end Analysis

end Qumode
