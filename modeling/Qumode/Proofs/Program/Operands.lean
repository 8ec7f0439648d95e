import Mathlib.Data.List.Count
import Qumode.Proofs.Program.Scope

/-!
# The operands of the wires

The qubits of a circuit are numbered in the order of the wires, and so are its qumodes. An operand
is thus the type of its wire and the rank of the wire among those of its type (`Analysis.operand?`),
and no two wires have the same one (`Analysis.operand?_inj`). A scope that has passed the checks
looks up these operands, and the kinds that go with the types (`Scope.resolves_of_ofAnalysis`).
-/

namespace Qumode

/-- The register that holds the wires of a type. -/
def Register.ofType : WireType → Register
  | .discrete => qubits
  | .continuous => qumodes

/-- Each type has a register of its own. -/
theorem Register.ofType_inj {t t' : WireType} (h : ofType t = ofType t') : t = t' := by
  cases t <;> cases t' <;> first | rfl | cases h

/-! ## Ranks -/

/-- A wire counts itself among those up to it. -/
theorem count_take_succ {types : List WireType} {i : Nat} {t : WireType}
    (h : types[i]? = some t) : (types.take (i + 1)).count t = (types.take i).count t + 1 := by
  rw [List.take_add_one, h, List.count_append]
  simp

/-- Of two wires of one type the later one has the larger rank. -/
theorem rank_lt_of_lt {types : List WireType} {i j : Nat} {t : WireType} (before : i < j)
    (h : types[i]? = some t) : (types.take i).count t < (types.take j).count t := by
  have up_to_i : types.take (i + 1) <+: types.take j := List.take_prefix_take_left before
  have counted : (types.take (i + 1)).count t ≤ (types.take j).count t :=
    up_to_i.sublist.count_le t
  rw [count_take_succ h] at counted
  omega

namespace Analysis

variable {r : Analysis} {v w : WireId} {o : Operand}

/-- There are as many wires of a type as the type stands in the analysis. -/
theorem length_wiresOf (r : Analysis) (t : WireType) :
    (r.wiresOf t).length = r.wireTypes.count t := by
  have types : r.wireTypes = r.wireTypes.zipIdx.map (·.1) := (List.zipIdx_map_fst 0 _).symm
  unfold wiresOf
  rw [List.length_map, ← List.countP_eq_length_filter, types, List.count, List.countP_map, ← types]
  rfl

/-- The operand of a wire: its register, and its rank among the wires of its type. -/
def operand? (r : Analysis) (w : WireId) : Option Operand :=
  (r.wireType? w).map fun t => ⟨.ofType t, (r.wireTypes.take w.index).count t⟩

/-- The kind of a readout, by the type of its wire. -/
def kind? (r : Analysis) (e : WireId × BasisSchema) : Option ReadoutKind :=
  (r.wireType? e.1).bind fun t => ReadoutKind.ofWire? t e.2

/-- The operand of a wire is its register and the number of wires of its type before it. -/
theorem operand?_eq_some {t : WireType} (type : r.wireType? w = some t) :
    r.operand? w = some ⟨.ofType t, (r.wireTypes.take w.index).count t⟩ := by
  unfold operand?
  rw [type, Option.map_some]

/-- A wire with a type has an operand, in the register of the type. -/
theorem exists_operand? {t : WireType} (type : r.wireType? w = some t) :
    ∃ o, r.operand? w = some o ∧ o.register = .ofType t :=
  ⟨_, operand?_eq_some type, rfl⟩

/-- An operand is in the register of the type of its wire. -/
theorem operand?_register (h : r.operand? w = some o) :
    ∃ t, r.wireType? w = some t ∧ o.register = .ofType t := by
  obtain ⟨t, type, rfl⟩ := Option.map_eq_some_iff.1 h
  exact ⟨t, type, rfl⟩

/-- No two wires have the same operand. -/
theorem operand?_inj (hv : r.operand? v = some o) (hw : r.operand? w = some o) : v = w := by
  obtain ⟨t, type_v, rfl⟩ := Option.map_eq_some_iff.1 hv
  obtain ⟨t', type_w, same⟩ := Option.map_eq_some_iff.1 hw
  have registers := Register.ofType_inj (congrArg Operand.register same)
  have ranks := congrArg Operand.index same
  subst registers
  dsimp only at ranks
  rcases Nat.lt_trichotomy v.index w.index with before | level | after
  · have := rank_lt_of_lt before type_v
    omega
  · exact WireId.ext level
  · have := rank_lt_of_lt after type_w
    omega

/-- A wire is read out in another way than a qubit just when it is in the register of the qumodes.
-/
theorem register_of_kind? {e : WireId × BasisSchema} {kind : ReadoutKind}
    (read_as : r.kind? e = some kind) (read_from : r.operand? e.1 = some o) :
    o.register = .qumodes ↔ kind ≠ .measure := by
  obtain ⟨t, type, register⟩ := operand?_register read_from
  unfold kind? at read_as
  rw [type, Option.bind_some] at read_as
  rw [register]
  obtain ⟨w, schema⟩ := e
  cases t <;> cases schema <;> cases read_as <;> decide

/-! ## Registers -/

/-- The wires in a register. -/
def wiresIn (r : Analysis) : Register → List WireId
  | .qubits => r.discreteWires
  | .qumodes => r.continuousWires

/-- The registers that are not empty. -/
def registers (r : Analysis) : List Register :=
  [.qubits, .qumodes].filter fun register => r.wiresIn register ≠ []

/-- The registers are those of the types that some wire has. -/
theorem registers_eq (r : Analysis) : r.registers =
    (if 0 < r.discreteWires.length then [.qubits] else [])
      ++ (if 0 < r.continuousWires.length then [.qumodes] else []) := by
  unfold registers
  cases qubits : r.discreteWires <;> cases qumodes : r.continuousWires
  all_goals simp [wiresIn, qubits, qumodes]

end Analysis

namespace Scope

variable {c : Circuit} {r : Analysis} {scope : Scope}

/-- The scope looks operands and readout kinds up as the types say. -/
structure Resolves (scope : Scope) (r : Analysis) : Prop where
  operands : ∀ w : WireId, scope.operands[w.index]? = r.operand? w
  kinds : List.Forall₂ (fun g kinds => List.Forall₂ (fun e kind => r.kind? e = some kind)
    g.readouts kinds) r.groups scope.kinds

/-- The kinds of a scope are those of the readouts of the groups. -/
theorem Resolves.mem_kinds (resolves : scope.Resolves r) {kind : ReadoutKind} :
    kind ∈ scope.kinds.flatten ↔ ∃ g ∈ r.groups, ∃ e ∈ g.readouts, r.kind? e = some kind := by
  rw [List.mem_flatten]
  constructor
  · rintro ⟨kinds, listed, mem⟩
    obtain ⟨g, hg, typed⟩ := Steps.exists_left_of_mem resolves.kinds listed
    obtain ⟨e, he, read_as⟩ := Steps.exists_left_of_mem typed mem
    exact ⟨g, hg, e, he, read_as⟩
  · rintro ⟨g, hg, e, he, read_as⟩
    obtain ⟨kinds, listed, typed⟩ := Steps.exists_left_of_mem resolves.kinds.flip hg
    obtain ⟨kind', mem, read_as'⟩ := Steps.exists_left_of_mem typed.flip he
    cases read_as.symm.trans read_as'
    exact ⟨kinds, listed, mem⟩

/-- The next wire gets the number of wires of its type so far. -/
theorem allot_cons {w : WireId} {t : WireType} (type : r.wireType? w = some t)
    {before : List WireType} {rest : List WireId} {operands : List Operand} {counts : Nat × Nat}
    (allotted : allot r (before.count .discrete) (before.count .continuous) (w :: rest)
      = .ok (operands, counts)) :
    ∃ others, operands = ⟨.ofType t, before.count t⟩ :: others ∧
      allot r ((before ++ [t]).count .discrete) ((before ++ [t]).count .continuous) rest
        = .ok (others, counts) := by
  rw [allot, type] at allotted
  cases t with
  | discrete =>
    obtain ⟨⟨others, counts'⟩, later, done⟩ := Steps.bind_eq_ok.1 allotted
    cases done
    exact ⟨others, rfl, by simpa using later⟩
  | continuous =>
    obtain ⟨⟨others, counts'⟩, later, done⟩ := Steps.bind_eq_ok.1 allotted
    cases done
    exact ⟨others, rfl, by simpa using later⟩

/-- The operand that is allotted counts the wires of its type before it. -/
theorem getElem?_allot {wires : List WireId} {types before : List WireType}
    {operands : List Operand} {counts : Nat × Nat}
    (typed : wires.map r.wireType? = types.map some)
    (allotted : allot r (before.count .discrete) (before.count .continuous) wires
      = .ok (operands, counts)) (i : Nat) :
    operands[i]? = types[i]?.map fun t => ⟨.ofType t, (before ++ types.take i).count t⟩ := by
  -- the counters are the counts in `before`, so every suffix of the wires is a case of the lemma
  induction wires generalizing types before operands i with
  | nil =>
    cases allotted
    cases types with
    | nil => rfl
    | cons t types => cases typed
  | cons w rest ih =>
    cases types with
    | nil => cases typed
    | cons t types =>
      rw [List.map_cons, List.map_cons, List.cons.injEq] at typed
      obtain ⟨others, rfl, later⟩ := allot_cons typed.1 allotted
      cases i with
      | zero => simp
      | succ i =>
        have found := ih typed.2 later i
        rw [List.getElem?_cons_succ, List.getElem?_cons_succ, found, List.take_succ_cons]
        simp only [List.append_assoc, List.singleton_append]

/-- The wires of a circuit have the types of its analysis, in order. -/
theorem map_wireType?_ids (covers : r.numWires = c.numWires) :
    c.wires.ids.map r.wireType? = r.wireTypes.map some := by
  have length : c.wires.size = r.wireTypes.length := covers.symm
  refine List.ext_getElem? fun i => ?_
  rw [WireTable.ids, length, List.map_map, List.getElem?_map, List.getElem?_map]
  by_cases inside : i < r.wireTypes.length
  · rw [List.getElem?_range inside, List.getElem?_eq_getElem inside]
    exact congrArg some (List.getElem?_eq_getElem inside)
  · have outside := Nat.le_of_not_lt inside
    rw [List.getElem?_eq_none (by simpa using outside), List.getElem?_eq_none outside]
    rfl

theorem readoutKind_eq_ok {group : Nat} {w : WireId} {schema : BasisSchema} {kind : ReadoutKind} :
    readoutKind r group w schema = .ok kind ↔ r.kind? (w, schema) = some kind := by
  unfold readoutKind Analysis.kind?
  cases r.wireType? w with
  | none => simp
  | some t => cases found : ReadoutKind.ofWire? t schema <;> simp [found]

/-- A scope looks wires up as the analysis types them. -/
theorem resolves_of_ofAnalysis (h : ofAnalysis c r = .ok scope) : scope.Resolves r := by
  obtain ⟨numWires, ⟨operands, counts⟩, allotted, -, -, kinds, collected, rfl⟩ :=
    ofAnalysis_eq_ok.1 h
  constructor
  · intro w
    have none_before : allot r (([] : List WireType).count .discrete)
        (([] : List WireType).count .continuous) c.wires.ids = .ok (operands, counts) := allotted
    exact getElem?_allot (map_wireType?_ids numWires) none_before w.index
  · have groups := Steps.mapM_eq_ok.1 collected
    rw [← List.zipIdx_map_fst 0 r.groups, List.forall₂_map_left_iff]
    refine groups.imp fun p kinds found => ?_
    exact (Steps.mapM_eq_ok.1 found).imp fun e kind => readoutKind_eq_ok.1

/-- The counts at the end are those of all wires of a type. -/
theorem counts_allot {wires : List WireId} {types before : List WireType}
    {operands : List Operand} {counts : Nat × Nat}
    (typed : wires.map r.wireType? = types.map some)
    (allotted : allot r (before.count .discrete) (before.count .continuous) wires
      = .ok (operands, counts)) :
    counts = ((before ++ types).count .discrete, (before ++ types).count .continuous) := by
  induction wires generalizing types before operands with
  | nil =>
    cases allotted
    cases types with
    | nil => rw [List.append_nil]
    | cons t types => cases typed
  | cons w rest ih =>
    cases types with
    | nil => cases typed
    | cons t types =>
      rw [List.map_cons, List.map_cons, List.cons.injEq] at typed
      obtain ⟨others, -, later⟩ := allot_cons typed.1 allotted
      have counted := ih typed.2 later
      rwa [List.append_assoc, List.singleton_append] at counted

/-- A scope has a register element for every wire of the type. -/
theorem registers_of_ofAnalysis (h : ofAnalysis c r = .ok scope) :
    scope.numQubits = r.discreteWires.length ∧ scope.numQumodes = r.continuousWires.length := by
  obtain ⟨numWires, ⟨operands, counts⟩, allotted, -, -, kinds, -, rfl⟩ := ofAnalysis_eq_ok.1 h
  have none_before : allot r (([] : List WireType).count .discrete)
      (([] : List WireType).count .continuous) c.wires.ids = .ok (operands, counts) := allotted
  rw [Analysis.discreteWires, Analysis.continuousWires, Analysis.length_wiresOf,
    Analysis.length_wiresOf]
  cases counts_allot (map_wireType?_ids numWires) none_before
  exact ⟨rfl, rfl⟩

end Scope

end Qumode
