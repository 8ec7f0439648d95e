import Mathlib.Data.List.Nodup
import Mathlib.Data.List.Pairwise
import Mathlib.Logic.Equiv.Basic
import Qumode.Proofs.Analysis.Consistency
import Qumode.Proofs.Circuit.Reordering
import Qumode.Proofs.Readout.Collection

/-!
# An analysis does not depend on an order

The analysis is first-come: the first demand settles the type of a wire, and the first readout of a
wire in a measurement is the one that is kept. The outcome is not. A description in another order
has an analysis when the description has one, its wires have the same types, and its measurements
are read out in the same way, up to the sign of zeros: readouts that are accepted one after another
are the same as each other, and only numeric equality tells them apart from equal ones.
-/

namespace Qumode

/-! ## Readouts over two tables -/

/-- The same parameter, or zeros of either sign. -/
inductive Param.Corresponds : Param → Param → Prop where
  | same (p : Param) : Corresponds p p
  | zeros {x y : Real64} (zero : x.isZero = true) (zero' : y.isZero = true) :
      Corresponds (.real x) (.real y)

/-- The same operation on the same wires of two tables, up to the sign of zeros. -/
structure Operation.Corresponds (t u : WireTable) (op op' : Operation) : Prop where
  name : op.name = op'.name
  wires : op.wires.map t.label? = op'.wires.map u.label?
  params : List.Forall₂ Param.Corresponds op.params op'.params
  capability : op.capability = op'.capability

/-- The same schema after the same operations. -/
structure WireReadout.Corresponds (t u : WireTable) (r r' : WireReadout) : Prop where
  schema : r.schema = r'.schema
  diagonalizing : List.Forall₂ (Operation.Corresponds t u) r.diagonalizing r'.diagonalizing

section Corresponds

variable {t u : WireTable} {f : WireId ≃ WireId}

/-- Lists that are compared item by item are related item by item. -/
theorem forall₂_of_isEqv {α : Type} {same : α → α → Bool} {as bs : List α}
    (h : as.isEqv bs same = true) : List.Forall₂ (fun a b => same a b = true) as bs := by
  induction as generalizing bs with
  | nil =>
    cases bs with
    | nil => exact .nil
    | cons b bs => cases h
  | cons a as ih =>
    cases bs with
    | nil => cases h
    | cons b bs =>
      rw [List.isEqv_cons_cons, Bool.and_eq_true] at h
      exact .cons h.1 (ih h.2)

/-- Parameters that are numerically equal correspond. -/
theorem Param.corresponds_of_numEq {p q : Param} (h : p.numEq q = true) : p.Corresponds q := by
  cases p <;> cases q
  case int.int m n =>
    cases of_decide_eq_true h
    exact .same _
  case real.real x y =>
    simp only [numEq, Real64.numEq, Bool.and_eq_true, Bool.or_eq_true, beq_iff_eq] at h
    obtain ⟨-, bits | ⟨zero, zero'⟩⟩ := h
    · obtain ⟨x⟩ := x
      cases bits
      exact .same _
    · exact .zeros zero zero'
  all_goals cases h

/-- Operations that are numerically equal correspond, over one table. -/
theorem Operation.corresponds_of_numEq (t : WireTable) {a b : Operation} (h : a.numEq b = true) :
    a.Corresponds t t b := by
  simp only [numEq, Bool.and_eq_true, decide_eq_true_eq] at h
  obtain ⟨⟨⟨name, wires⟩, params⟩, capability⟩ := h
  exact ⟨name, congrArg _ wires, (forall₂_of_isEqv params).imp fun _ _ =>
    Param.corresponds_of_numEq, capability⟩

theorem Operation.corresponds_refl (t : WireTable) (op : Operation) : op.Corresponds t t op :=
  ⟨rfl, rfl, List.forall₂_same.2 fun p _ => .same p, rfl⟩

/-- An operation corresponds to one that it corresponds to before the renaming. -/
theorem Operation.Corresponds.rename (renames : t.Renames u f) {a b : Operation}
    (h : a.Corresponds t t b) : a.Corresponds t u (b.rename f) := by
  refine { h with wires := h.wires.trans ?_ }
  rw [Operation.rename, List.map_map]
  exact (List.map_congr_left fun id _ => renames id).symm

/-- Readouts that are numerically equal correspond, over one table. -/
theorem WireReadout.corresponds_of_numEq (t : WireTable) {a b : WireReadout}
    (h : a.numEq b = true) : a.Corresponds t t b := by
  simp only [numEq, Bool.and_eq_true, decide_eq_true_eq] at h
  exact ⟨h.1, (forall₂_of_isEqv h.2).imp fun _ _ => Operation.corresponds_of_numEq t⟩

theorem WireReadout.corresponds_refl (t : WireTable) (r : WireReadout) : r.Corresponds t t r :=
  ⟨rfl, List.forall₂_same.2 fun op _ => op.corresponds_refl t⟩

/-- A readout corresponds to one that it corresponds to before the renaming. -/
theorem WireReadout.Corresponds.rename (renames : t.Renames u f) {a b : WireReadout}
    (h : a.Corresponds t t b) : a.Corresponds t u (b.rename f) :=
  ⟨h.schema, List.forall₂_map_right_iff.2 (h.diagonalizing.imp fun _ _ => .rename renames)⟩

end Corresponds

/-! ## What is required of the wires -/

namespace Leaf

variable {l l' : Leaf} {size : Nat} {w : WireId} {t t' : WireType}

/-- A leaf touches a wire with one readout only, whatever the type. -/
theorem WellFormed.touches_unique (h : l.WellFormed size) {r r' : Option WireReadout}
    (touches : l.Touches w t r) (touches' : l.Touches w t' r') : r = r' := by
  have same := List.inj_on_of_nodup_map h.nodup_demands (mem_demands.2 touches)
    (mem_demands.2 touches') rfl
  exact (Demand.mk.inj same).2.2

theorem Agrees.symm (h : l.Agrees l') : l'.Agrees l :=
  fun w t t' r r' touches touches' =>
    WireReadout.sameness.symm (h w t' t r' r touches' touches)

/-- Leaves that agree do so under other ids. -/
theorem Agrees.rename (f : WireId ≃ WireId) (h : l.Agrees l') :
    (l.rename f).Agrees (l'.rename f) := by
  intro v t t' r r' touches touches'
  obtain ⟨w, q, asked, rfl, equal⟩ := touches_rename_iff.1 touches
  obtain ⟨w', q', asked', on, equal'⟩ := touches_rename_iff.1 touches'
  cases f.injective on
  obtain ⟨readout, rfl, rfl⟩ := Option.map_eq_some_iff.1 equal
  obtain ⟨readout', rfl, rfl⟩ := Option.map_eq_some_iff.1 equal'
  rw [WireReadout.numEq_rename]
  exact h w t t' readout readout' asked asked'

end Leaf

namespace Circuit.Rearranged

variable {c c' : Circuit} {f : WireId ≃ WireId} {place : Equiv.Perm Nat} {w : WireId} {t : WireType}

/-- What a circuit requires of a wire, the rearranged circuit requires of its new id. -/
theorem requires (h : c.Rearranged c' f place) (required : c.Requires w t) :
    c'.Requires (f w) t := by
  rcases required with ⟨op, hop, mem⟩ | ⟨m, hm, l, hl, r, touches⟩
  · refine .inl ⟨op.rename f, h.operations.mem_iff.1 (List.mem_map_of_mem hop), ?_⟩
    rw [Operation.requirements_rename]
    exact List.mem_map_of_mem mem
  · obtain ⟨m', hm', perm⟩ := (h.leaves.symm fun _ _ => id).exists_left hm
    exact .inr ⟨m', hm', l.rename f, perm.mem_iff.1 (List.mem_map_of_mem hl), _,
      touches.rename f⟩

/-- The two circuits require the same types, wire by wire. -/
theorem requires_iff (h : c.Rearranged c' f place) : c'.Requires (f w) t ↔ c.Requires w t := by
  refine ⟨fun required => ?_, h.requires⟩
  rw [← f.symm_apply_apply w]
  exact h.symm.requires required

/-- A circuit is consistent when another is that has the same elements in another order. -/
theorem consistent (h : c.Rearranged c' f place) (consistent : c.Consistent) : c'.Consistent where
  typed w both := by
    rw [← f.apply_symm_apply w, h.requires_iff, h.requires_iff] at both
    exact consistent.typed _ both
  covered w hw := by
    have named : c'.wires.label? w = some _ := List.getElem?_eq_getElem (mem_ids.1 hw)
    rw [← h.wires.symm] at named
    obtain ⟨t, required⟩ :=
      consistent.covered (f.symm w) (mem_ids.2 (WireTable.index_lt_size_of_label? named))
    rw [← f.apply_symm_apply w]
    exact ⟨t, h.requires required⟩
  natural m' hm' l' hl' := by
    obtain ⟨m, hm, perm⟩ := h.leaves.exists_left hm'
    obtain ⟨l, hl, rfl⟩ := List.mem_map.1 (perm.mem_iff.2 hl')
    exact consistent.natural m hm l hl
  agreeing m' hm' := by
    obtain ⟨m, hm, perm⟩ := h.leaves.exists_left hm'
    have renamed := (consistent.agreeing m hm).map (Leaf.rename f) fun _ _ => Leaf.Agrees.rename f
    exact perm.pairwise renamed Leaf.Agrees.symm

end Circuit.Rearranged

namespace Analysis

open Circuit

variable {d d' : Description} {c c' : Circuit} {f : WireId ≃ WireId} {place : Equiv.Perm Nat}
  {m m' : Observable Leaf} {s s' : MeasurementSchema} {l : Leaf} {w : WireId} {t : WireType}
  {q : WireReadout} {table table' : WireTable} {r r' : Analysis}

/-- A readout of a measurement is one that a leaf of it asks for. -/
theorem exists_touches (found : m.schema? = some s) (read : s.get? w = some q) :
    ∃ l ∈ m.leafList, ∃ t, l.Touches w t (some q) := by
  rw [MeasurementSchema.get?_of_collect? found, MeasurementSchema.get?_empty,
    Option.none_or] at read
  obtain ⟨⟨v, t, readout⟩, mem, asked⟩ := List.exists_of_findSome?_eq_some read
  obtain ⟨on, rfl⟩ := Option.ite_none_right_eq_some.1 asked
  cases on
  obtain ⟨l, hl, mem⟩ := List.mem_flatMap.1 mem
  exact ⟨l, hl, t, Leaf.mem_demands.1 mem⟩

/-- A measurement reads out every wire that a leaf of it asks for. -/
theorem isSome_get?_of_touches (found : m.schema? = some s) (hl : l ∈ m.leafList)
    (touches : l.Touches w t (some q)) : (s.get? w).isSome := by
  rw [MeasurementSchema.get?_of_collect? found, MeasurementSchema.get?_empty, Option.none_or,
    List.findSome?_isSome_iff]
  refine ⟨⟨w, t, some q⟩, List.mem_flatMap.2 ⟨l, hl, Leaf.mem_demands.2 touches⟩, ?_⟩
  simp [Demand.readoutOn]

/-- Leaves that can be read out together, one by one and in pairs. -/
structure ReadTogether (size : Nat) (m : Observable Leaf) : Prop where
  leaves : ∀ l ∈ m.leafList, l.WellFormed size
  agree : m.leafList.Pairwise Leaf.Agrees

/-- Two readouts of one wire that leaves of a measurement ask for are equal or the same. -/
theorem ReadTogether.corresponds {size : Nat} (h : ReadTogether size m) {l l' : Leaf}
    {t t' : WireType} {q q' : WireReadout} (hl : l ∈ m.leafList) (hl' : l' ∈ m.leafList)
    (touches : l.Touches w t (some q)) (touches' : l'.Touches w t' (some q')) :
    q.Corresponds table table q' := by
  by_cases same : l = l'
  · -- a leaf asks a wire once, so this holds of an angle that is not a number, too
    subst same
    cases (h.leaves l hl).touches_unique touches touches'
    exact q.corresponds_refl table
  · have symmetric : Std.Symm Leaf.Agrees := ⟨fun _ _ => Leaf.Agrees.symm⟩
    have agrees := h.agree.forall hl hl' same
    exact WireReadout.corresponds_of_numEq table (agrees w t t' q q' touches touches')

/-- Measurements with the same leaves read a wire out in the same way. -/
theorem corresponds_of_perm {size : Nat} (together : ReadTogether size m)
    (renames : table.Renames table' f) (perm : (m.leafList.map (Leaf.rename f)).Perm m'.leafList)
    (found : m.schema? = some s) (found' : m'.schema? = some s') (w : WireId) :
    Option.Rel (WireReadout.Corresponds table table') (s.get? w) (s'.get? (f w)) := by
  have original {q' : WireReadout} (read' : s'.get? (f w) = some q') :
      ∃ l ∈ m.leafList, ∃ t q, l.Touches w t (some q) ∧ q.rename f = q' := by
    obtain ⟨l', hl', t, touches'⟩ := exists_touches found' read'
    obtain ⟨l, hl, rfl⟩ := List.mem_map.1 (perm.mem_iff.2 hl')
    obtain ⟨v, r, touches, on, renamed⟩ := Leaf.touches_rename_iff.1 touches'
    cases f.injective on
    obtain ⟨q, rfl, same⟩ := Option.map_eq_some_iff.1 renamed
    exact ⟨l, hl, t, q, touches, same⟩
  cases read : s.get? w with
  | none =>
    cases read' : s'.get? (f w) with
    | none => exact .none
    | some q' =>
      obtain ⟨l, hl, t, q, touches, -⟩ := original read'
      have there := isSome_get?_of_touches found hl touches
      rw [read] at there
      cases there
  | some q =>
    obtain ⟨l, hl, t, touches⟩ := exists_touches found read
    cases read' : s'.get? (f w) with
    | none =>
      have there := isSome_get?_of_touches found' (perm.mem_iff.1 (List.mem_map_of_mem hl))
        (touches.rename f)
      rw [read'] at there
      cases there
    | some q' =>
      obtain ⟨l', hl', t', p, touches', rfl⟩ := original read'
      exact .some ((together.corresponds hl hl' touches touches').rename renames)

/-- The type of a wire, by its name. -/
def typeOf? (r : Analysis) (c : Circuit) (label : Wire) : Option WireType :=
  (c.wires.get? label).bind r.wireType?

/-- How a measurement of a circuit reads a wire out, by its name. -/
def readoutOf? (c : Circuit) (s : MeasurementSchema) (label : Wire) : Option WireReadout :=
  (c.wires.get? label).bind s.get?

/-- A wire has the same type in both analyses. -/
theorem typeOf?_of_rearranged (h : c.Rearranged c' f place)
    (describes : r.Describes c) (describes' : r'.Describes c') (label : Wire) :
    r.typeOf? c label = r'.typeOf? c' label := by
  rw [typeOf?, typeOf?, h.wires.get?]
  cases c.wires.get? label with
  | none => rfl
  | some w =>
    refine Option.ext fun t => ?_
    rw [Option.map_some, Option.bind_some, Option.bind_some, describes.wireType?,
      describes'.wireType?, h.requires_iff]

/-- Two schemas read the same wires out, each in the same way up to the sign of zeros. -/
def SameReadouts (c c' : Circuit) (s s' : MeasurementSchema) : Prop :=
  ∀ label, Option.Rel (WireReadout.Corresponds c.wires c'.wires) (readoutOf? c s label)
    (readoutOf? c' s' label)

/-- The measurements at corresponding places are read out in the same way. -/
theorem schemas_of_rearranged (h : c.Rearranged c' f place) (wellFormed : c.WellFormed)
    (consistent : c.Consistent) (analysed : ofCircuit c = .ok r)
    (analysed' : ofCircuit c' = .ok r') :
    Paired (SameReadouts c c') place r.schemas r'.schemas := by
  have together : ∀ m ∈ c.measurements, ReadTogether c.numWires m := fun m hm =>
    ⟨wellFormed.leaves m hm, consistent.agreeing m hm⟩
  have schemas := (List.forall₂_and_left _ _).2 ⟨together, schemas_of_ofCircuit analysed⟩
  refine h.leaves.of_forall₂ schemas.flip (schemas_of_ofCircuit analysed').flip ?_
  rintro s m m' s' ⟨together, found⟩ perm found' label
  rw [readoutOf?, readoutOf?, h.wires.get?]
  cases c.wires.get? label with
  | none => exact .none
  | some w => exact corresponds_of_perm together h.wires perm found found' w

/-- An analysis does not depend on the order of operations, of measurements, of terms and of
factors. A description in another order is a circuit when the description is, and the one circuit
has an analysis when the other has. Then the wires have the same types, and the measurements at
corresponding places, for each of which there is a schema, have the same readouts. -/
theorem order_independent (h : d.Reordered d' place) :
    ((∃ c, Circuit.ofDescription d = .ok c) ↔ ∃ c', Circuit.ofDescription d' = .ok c') ∧
      ∀ c c', Circuit.ofDescription d = .ok c → Circuit.ofDescription d' = .ok c' →
        ((∃ r, ofCircuit c = .ok r) ↔ ∃ r', ofCircuit c' = .ok r') ∧
          ∀ r r', ofCircuit c = .ok r → ofCircuit c' = .ok r' →
            (∀ label, r.typeOf? c label = r'.typeOf? c' label) ∧
              r.schemas.length = d.measurements.length ∧
              Paired (SameReadouts c c') place r.schemas r'.schemas := by
  refine ⟨h.isOk_iff, fun c c' built built' => ?_⟩
  obtain ⟨f, rearranged⟩ := exists_rearranged h built built'
  have lists := lists_of_ofDescription built
  have wellFormed := lists.wellFormed
  have wellFormed' := (lists_of_ofDescription built').wellFormed
  have analysed_iff : (∃ r, ofCircuit c = .ok r) ↔ ∃ r', ofCircuit c' = .ok r' := by
    rw [ofCircuit_isOk_iff wellFormed, ofCircuit_isOk_iff wellFormed']
    exact ⟨rearranged.consistent, rearranged.symm.consistent⟩
  refine ⟨analysed_iff, fun r r' analysed analysed' => ⟨fun label => ?_, ?_, ?_⟩⟩
  · exact typeOf?_of_rearranged rearranged (describes_of_ofCircuit wellFormed analysed)
      (describes_of_ofCircuit wellFormed' analysed') label
  · have measurements := lists.measurements.length_eq
    rw [Description.observables_entries] at measurements
    exact (schemas_of_ofCircuit analysed).length_eq.symm.trans measurements
  · have consistent := (ofCircuit_isOk_iff wellFormed).1 ⟨r, analysed⟩
    exact schemas_of_rearranged rearranged wellFormed consistent analysed analysed'

/-- The wires get other ids when operations, measurements and terms change places. -/
theorem order_independent_of_swaps :
    let d : Description := {
      operations := [.hybrid "ConditionalDisplacement" [.index 4, .label "q"] 1 [],
        .standard "Hadamard" [.label "q"] []]
      measurements := [.leaf ⟨"PauliX", [.label "q"], []⟩,
        .sum [.leaf ⟨"QuadX", [.index 4], []⟩, .leaf ⟨"PauliZ", [.label "q"], []⟩]] }
    let d' : Description := {
      operations := [.standard "Hadamard" [.label "q"] [],
        .hybrid "ConditionalDisplacement" [.index 4, .label "q"] 1 []]
      measurements := [.sum [.leaf ⟨"PauliZ", [.label "q"], []⟩, .leaf ⟨"QuadX", [.index 4], []⟩],
        .leaf ⟨"PauliX", [.label "q"], []⟩] }
    ∃ c c' r r', Circuit.ofDescription d = .ok c ∧ Circuit.ofDescription d' = .ok c' ∧
      ofCircuit c = .ok r ∧ ofCircuit c' = .ok r' ∧
      c.wires.get? (.index 4) = some ⟨0⟩ ∧ c'.wires.get? (.index 4) = some ⟨1⟩ ∧
      r'.typeOf? c' (.index 4) = some .continuous ∧
      Paired (SameReadouts c c') (Equiv.swap 0 1) r.schemas r'.schemas := by
  intro d d'
  have reordered : d.Reordered d' (Equiv.swap 0 1) := by
    refine ⟨List.Perm.swap _ _ _, fun i => ?_⟩
    match i with
    | 0 => exact .some (.refl _)
    | 1 => exact .some (.terms (List.Perm.swap _ _ _))
    | i + 2 =>
      rw [Equiv.swap_apply_of_ne_of_ne (by omega) (by omega)]
      exact .none
  obtain ⟨-, independent⟩ := order_independent reordered
  obtain ⟨-, results⟩ := independent _ _ rfl rfl
  obtain ⟨types, -, schemas⟩ := results _ _ rfl rfl
  exact ⟨_, _, _, _, rfl, rfl, rfl, rfl, rfl, rfl, (types _).symm, schemas⟩

end Analysis

end Qumode
