import Qumode.Proofs.Circuit.Normalization
import Qumode.Proofs.Circuit.Representation
import Qumode.Proofs.Program.Erasure
import Qumode.Proofs.Program.Wording

/-!
# The elements of a program

A program has one line for each of its elements: the registers, the stubs, the operations, the
groups with their diagonalizing operations and readouts, and the lines around them (`Program.size`).
It calls the preparation once for each group, and it applies the operations of the circuit and the
diagonalizing ones (`Program.applied`). A `Census` of some lines is these three figures, which add
up where lines are put together, so every part of a program is counted by itself.

The diagonalizing operations are gates of the includes: a leaf of a built circuit has the kind that
its name gives it.
-/

namespace Qumode

/-! ## Diagonalizing operations are gates -/

/-- The includes have a gate for an operation of this name. -/
def Gate.Known (name : String) : Prop :=
  ∃ spelling, (name, spelling) ∈ standardGates ++ continuousGates

/-- The gates that diagonalize a qubit observable have a spelling in the includes. -/
theorem LeafKind.gates_known {name : String} {numWires : Nat} {params : List Real64}
    {gates : List String} (h : classify name numWires params = .ok (.discrete gates)) :
    ∀ gate ∈ gates, Gate.Known gate := by
  have hadamard : Gate.Known "Hadamard" := ⟨"h", by decide +kernel⟩
  have pauliZ : Gate.Known "PauliZ" := ⟨"z", by decide +kernel⟩
  have s : Gate.Known "S" := ⟨"s", by decide +kernel⟩
  unfold classify ofName? ofName?.hybrid at h
  repeat' split at h
  all_goals cases h
  all_goals simp [hadamard, pauliZ, s]

/-- What a leaf is diagonalized with are gates of the includes. -/
theorem Leaf.Touches.diagonalizing_known {l : Leaf} {size : Nat} {w : WireId} {t : WireType}
    {readout : WireReadout} (sound : l.Sound size) (touches : l.Touches w t (some readout)) :
    ∀ op ∈ readout.diagonalizing, Gate.Known op.name := by
  have rotation : Gate.Known "Rotation" := ⟨"cv_r", by decide +kernel⟩
  have natural : ∀ {basis : Option NaturalBasis},
      some readout = basis.map (NaturalBasis.readout w) →
        ∀ op ∈ readout.diagonalizing, Gate.Known op.name := by
    rintro (_ | basis) equal
    · cases equal
    · cases equal
      cases basis <;>
        simp [NaturalBasis.readout, WireReadout.plain, WireReadout.rotated, Operation.rotation,
          rotation]
  generalize asked : some readout = found at touches
  cases touches with
  | qubit kind on =>
    cases asked
    obtain ⟨params, classified⟩ := sound.classified
    rw [kind] at classified
    intro op mem
    obtain ⟨gate, listed, rfl⟩ := List.mem_map.1 mem
    exact LeafKind.gates_known classified gate listed
  | qumode kind on => exact natural asked
  | hybridQumode kind on side => exact natural asked
  | hybridQubit kind on side =>
    cases asked
    intro op mem
    cases mem

/-- Diagonalizing operations are gates with a spelling, so names from outside never get into blocks.
-/
theorem Analysis.Describes.diagonalizing_known {c : Circuit} {r : Analysis} {entries : List Entry}
    (lists : c.Lists entries) (describes : r.Describes c) {g : ExecutionGroup} (hg : g ∈ r.groups)
    {op : Operation} (hop : op ∈ g.diagonalizing) : Gate.Known op.name := by
  rw [describes.groups] at hg
  obtain ⟨s, hs, w, readout, found, mem⟩ := Grouping.mem_diagonalizing hg hop
  obtain ⟨m, hm, l, hl, t, touches⟩ := describes.exists_leaf hs found
  obtain ⟨raw, -, stands⟩ := Steps.exists_left_of_mem lists.measurements.flip hm
  obtain ⟨n, -, leaf⟩ := Steps.exists_left_of_mem stands.leaves.flip hl
  exact touches.diagonalizing_known leaf.sound op mem

namespace Program

variable {c : Circuit} {r : Analysis} {scope : Scope} {mode : Mode} {rotations : Bool}

/-- The ways in which qumodes are read out, each of which has a stub in a strict program. -/
def stubs (mode : Mode) (r : Analysis) : Nat :=
  match mode with
  | .permissive => 0
  | .strict => [ReadoutKind.fockNumber, .homodyne, .heterodyne].countP fun kind =>
    ∃ g ∈ r.groups, ∃ e ∈ g.readouts, r.kind? e = some kind

/-- There are as many stubs as kinds that are called. -/
theorem length_calledKinds (resolves : scope.Resolves r) :
    (calledKinds mode scope).length = stubs mode r := by
  cases mode with
  | permissive => rw [calledKinds_permissive, stubs, List.length_nil]
  | strict =>
    rw [stubs, List.countP_eq_length_filter]
    refine List.Perm.length_eq ((List.perm_ext_iff_of_nodup (nodup_eraseDups _) ?_).2 ?_)
    · exact .filter _ (by decide)
    · intro kind
      have called : kind ∈ calledKinds .strict scope ↔ _ := mem_calledKinds resolves
      rw [eq_self, true_and] at called
      rw [List.mem_filter, decide_eq_true_eq]
      refine called.trans (and_congr_left fun _ => ?_)
      cases kind <;> decide

/-- How many lines a program has. -/
def size (s : Settings) (c : Circuit) (r : Analysis) : Nat :=
  let qubits := if 0 < r.discreteWires.length then 1 else 0
  let qumodes := if 0 < r.continuousWires.length then 1 else 0
  let wires := if 0 < r.discreteWires.length + r.continuousWires.length then 1 else 0
  2 + qumodes + 1 + qubits + qumodes + stubs s.mode r + wires + 1 + qubits + qumodes
    + c.operations.length + 1
    + (r.groups.map fun g =>
        2 + (if s.rotations then g.diagonalizing.length else 0) + g.readouts.length).sum

/-- The operations that a program applies: those of the circuit, and before the readouts of a group
the diagonalizing ones, if they are wanted. -/
def applied (rotations : Bool) (c : Circuit) (r : Analysis) : List Operation :=
  c.operations ++ r.groups.flatMap fun g => if rotations then g.diagonalizing else []

/-! ## The parts of a program -/

/-- Statements bear the names of the operations that they render. -/
theorem names_of_renders {ops : List Operation} {statements : List Statement}
    (renders : List.Forall₂ (Renders r) ops statements) :
    statements.map Statement.name = ops.map Operation.name := by
  induction renders with
  | nil => rfl
  | cons first _ ih => rw [List.map_cons, List.map_cons, first.name, ih]

/-- What a census asks of some lines: how many there are, how many of them call the preparation, and
the names of the operations they apply. -/
structure Census (lines : List Line) (length calls : Nat) (names : List String) : Prop where
  length : lines.length = length
  calls : lines.count .callPreparation = calls
  names : (lines.filterMap Line.statement?).map Statement.name = names

namespace Census

variable {lines lines' : List Line} {length calls length' calls' : Nat} {names names' : List String}

/-- Censuses of lines side by side add up. -/
theorem append (h : Census lines length calls names) (h' : Census lines' length' calls' names') :
    Census (lines ++ lines') (length + length') (calls + calls') (names ++ names') where
  length := by rw [List.length_append, h.length, h'.length]
  calls := by rw [List.count_append, h.calls, h'.calls]
  names := by rw [List.filterMap_append, List.map_append, h.names, h'.names]

theorem nil : Census [] 0 0 [] := ⟨rfl, rfl, rfl⟩

/-- A line that neither calls the preparation nor applies an operation. -/
theorem line (line : Line) (worded : line.statement? = none) (other : line ≠ .callPreparation) :
    Census [line] 1 0 [] :=
  ⟨rfl, by simp [other], by simp [worded]⟩

/-- Lines that are there on a condition are counted on it. -/
theorem ite (P : Prop) [Decidable P] (h : Census lines length 0 []) :
    Census (if P then lines else []) (if P then length else 0) 0 [] := by
  split
  · exact h
  · exact nil

/-- Lines made of statements are as many, bear their names and call nothing. -/
theorem statements (apply : Statement → Line) (applies : ∀ st, (apply st).statement? = some st)
    (sts : List Statement) :
    Census (sts.map apply) sts.length 0 (sts.map Statement.name) := by
  refine ⟨List.length_map _, ?_, ?_⟩
  · refine List.count_eq_zero.2 fun mem => ?_
    obtain ⟨st, -, call⟩ := List.mem_map.1 mem
    have applied := applies st
    rw [call] at applied
    cases applied
  · have each : Line.statement? ∘ apply = some := funext applies
    rw [List.filterMap_map, each, List.filterMap_some]

/-- Lines that neither call the preparation nor apply an operation. -/
theorem worded (h : ∀ line ∈ lines, line.statement? = none ∧ line ≠ .callPreparation) :
    Census lines lines.length 0 [] := by
  refine ⟨rfl, List.count_eq_zero.2 fun mem => (h _ mem).2 rfl, ?_⟩
  rw [List.filterMap_eq_nil_iff.2 fun line mem => (h line mem).1]
  rfl

end Census

/-- The header includes one more file where there are qumodes. -/
theorem header_census (scope : Scope) :
    Census (header scope) (2 + (if 0 < scope.numQumodes then 1 else 0) + 1) 0 [] :=
  (((Census.line .version rfl nofun).append (.line (.includeFile "stdgates.inc") rfl nofun)).append
    (.ite (0 < scope.numQumodes) (.line (.includeFile "cvstdgates.inc") rfl nofun))).append
    (.line .blank rfl nofun)

/-- There is a line for each register that is not empty and for each stub, and a blank one if there
are wires. -/
theorem declarations_census (mode : Mode) (resolves : scope.Resolves r) :
    Census (declarations mode scope)
    ((if 0 < scope.numQubits then 1 else 0) + (if 0 < scope.numQumodes then 1 else 0)
      + stubs mode r + (if 0 < scope.numQubits + scope.numQumodes then 1 else 0)) 0 [] := by
  have stubbed : Census ((calledKinds mode scope).map .stub) (stubs mode r) 0 [] := by
    rw [← length_calledKinds resolves, ← List.length_map Line.stub]
    refine .worded fun line mem => ?_
    obtain ⟨kind, -, rfl⟩ := List.mem_map.1 mem
    exact ⟨rfl, nofun⟩
  have qubits := Census.line (.declaration .discrete scope.numQubits .qubits) rfl nofun
  have qumodes :=
    Census.line (.declaration (qumodeKeyword mode) scope.numQumodes .qumodes) rfl nofun
  exact (((qubits.ite (0 < scope.numQubits)).append (qumodes.ite (0 < scope.numQumodes))).append
    stubbed).append (.ite (0 < scope.numQubits + scope.numQumodes) (.line .blank rfl nofun))

/-- The preparation has a line for each operation and for each reset, between its first and its
last. -/
theorem preparation_census (resolves : scope.Resolves r) {ops : List Operation}
    {prepared : List Line} (done : preparation scope ops = .ok prepared) : Census prepared
      (1 + (if 0 < scope.numQubits then 1 else 0) + (if 0 < scope.numQumodes then 1 else 0)
        + ops.length + 1) 0 (ops.map Operation.name) := by
  obtain ⟨statements, stated, same⟩ := Steps.bind_eq_ok.1 done
  cases same
  have renders := (Steps.mapM_eq_ok.1 stated).imp fun op st => statement_renders resolves
  have applied := Census.statements .prepare (fun _ => rfl) statements
  rw [names_of_renders renders, ← renders.length_eq] at applied
  have all := ((((Census.line .openPreparation rfl nofun).append
    (.ite (0 < scope.numQubits) (.line (.reset .qubits) rfl nofun))).append
    (.ite (0 < scope.numQumodes) (.line (.reset .qumodes) rfl nofun))).append applied).append
    (.line .closePreparation rfl nofun)
  rwa [List.append_nil] at all

/-- A block has one call, and a line for each rotation and for each readout. -/
theorem block_census {g : ExecutionGroup} {block : List Line}
    (h : IsBlock r mode rotations g block) : Census (.blank :: block)
      (2 + (if rotations then g.diagonalizing.length else 0) + g.readouts.length) 1
      ((if rotations then g.diagonalizing else []).map Operation.name) := by
  obtain ⟨statements, read, rfl, renders, reads⟩ := h
  have applied := Census.statements .rotate (fun _ => rfl) statements
  rw [names_of_renders renders, ← renders.length_eq] at applied
  have results : Census read g.readouts.length 0 [] := by
    rw [reads.length_eq]
    refine .worded fun line mem => ?_
    obtain ⟨e, -, found⟩ := Steps.exists_left_of_mem reads mem
    cases found
    exact ⟨rfl, nofun⟩
  have call : Census [.blank, .callPreparation] 2 1 [] := ⟨rfl, rfl, rfl⟩
  have all := (call.append applied).append results
  rw [List.append_nil, apply_ite List.length] at all
  exact all

/-- There is one call for each group. -/
theorem blocks_census {groups : List ExecutionGroup} {parts : List (List Line)}
    (are_blocks : List.Forall₂ (IsBlock r mode rotations) groups parts) :
    Census (parts.flatMap (.blank :: ·))
      (groups.map fun g => 2 + (if rotations then g.diagonalizing.length else 0)
        + g.readouts.length).sum groups.length
      ((groups.flatMap fun g => if rotations then g.diagonalizing else []).map Operation.name) := by
  induction are_blocks with
  | nil => exact .nil
  | cons first _ ih =>
    have all := (block_census first).append ih
    rw [Nat.add_comm 1] at all
    rw [List.flatMap_cons, List.flatMap_cons, List.map_append]
    exact all

/-- The census of a program. -/
theorem lines_census {s : Settings} {written : List Line}
    (done : lines s.mode s.rotations c r = .ok written) :
    Census written (size s c r) r.groups.length ((applied s.rotations c r).map Operation.name) := by
  obtain ⟨scope, checked, prepared, prepares, measured, measures, rfl⟩ := lines_eq_ok.1 done
  have resolves := Scope.resolves_of_ofAnalysis checked
  obtain ⟨parts, rfl, are_blocks, -⟩ := blocks_layout resolves resolves.kinds measures
  obtain ⟨qubits, qumodes⟩ := Scope.registers_of_ofAnalysis checked
  have all := (((header_census scope).append (declarations_census s.mode resolves)).append
    (preparation_census resolves prepares)).append (blocks_census are_blocks)
  rw [qubits, qumodes] at all
  refine ⟨all.length.trans ?_, all.calls.trans (by simp), all.names.trans ?_⟩
  · unfold size
    dsimp only
    omega
  · unfold applied
    rw [List.map_append]
    rfl

end Program

end Qumode
