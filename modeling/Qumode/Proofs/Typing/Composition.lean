import Qumode.Proofs.Circuit.Calls
import Qumode.Proofs.Observable.Nodes
import Qumode.Proofs.Readout.Merging

/-!
# Observables are resolved by their leaves

An observable makes the demands of its leaves, so trees with the same leaves are resolved alike,
whatever the nodes above the leaves are and wherever an identity stands among them.

A run that succeeds has two sides that do not meet: the types that are required one after another of
the context (`Typing.requires`), and the readouts that are collected without a context
(`Typing.observable_eq_ok`). Each side of a composite is made of those of its children, hence so is
the run: the children are resolved one after another, and their schemas are merged.
-/

namespace Qumode

namespace Observable

/-- The leaves that ask for something: all but the identities. -/
def asking (t : Observable Leaf) : List Leaf := t.leafList.filter (·.kind ≠ .identity)

theorem demands_eq_flatMap_children {t : Observable Leaf} {kind : Composite}
    (composite : t.root = .inl kind) : t.demands = t.children.flatMap demands := by
  unfold demands
  rw [leafList_eq_flatMap_children composite, List.flatMap_assoc]

end Observable

namespace Typing

open MeasurementSchema (Agrees)

variable {c : Circuit} {site : Site} {ctx ctx' : TypeContext} {s s' : MeasurementSchema}

/-! ## Trees with the same leaves -/

/-- The identity asks for nothing. -/
theorem flatMap_named_filter (ls : List Leaf) :
    (ls.filter (·.kind ≠ .identity)).flatMap named = ls.flatMap named := by
  induction ls with
  | nil => rfl
  | cons l rest ih =>
    rw [List.filter_cons, List.flatMap_cons]
    split
    case isTrue => rw [List.flatMap_cons, ih]
    case isFalse silent =>
      have identity : l.kind = .identity := by simpa using silent
      have nothing : named l = [] := by
        rw [named, Leaf.demands, identity]
        rfl
      rw [nothing, List.nil_append, ih]

/-- What an observable comes to depends on the leaves that ask for something, and on nothing else of
it. -/
theorem observable_congr {t u : Observable Leaf} (same : u.asking = t.asking) (index : Nat) :
    observable c u index = observable c t index := by
  have calls : u.leafList.flatMap named = t.leafList.flatMap named := by
    rw [← flatMap_named_filter, ← flatMap_named_filter t.leafList]
    exact congrArg (List.flatMap named) same
  rw [observable, observable, tree_eq_foldlM, tree_eq_foldlM, calls]

/-! ## The two sides of a run -/

/-- Requires types of wires, one after another. -/
def requires (c : Circuit) (site : Site) (demands : List (WireId × WireType)) : Typing Unit :=
  demands.forM fun (w, t) => require c w t site

theorem requires_cons_eq_ok {w : WireId} {t : WireType} {T : List (WireId × WireType)} :
    (requires c site ((w, t) :: T)).run ctx = .ok () ctx' ↔
      ∃ between, (require c w t site).run ctx = .ok () between ∧
        (requires c site T).run between = .ok () ctx' := by
  have head : requires c site ((w, t) :: T) = (do
      require c w t site
      requires c site T) := rfl
  rw [head, Steps.run_check_bind_eq_ok]

theorem requires_append_eq_ok {T T' : List (WireId × WireType)} :
    (requires c site (T ++ T')).run ctx = .ok () ctx' ↔
      ∃ between, (requires c site T).run ctx = .ok () between ∧
        (requires c site T').run between = .ok () ctx' := by
  have both : requires c site (T ++ T') = (do
      requires c site T
      requires c site T') := List.forM_append
  rw [both, Steps.run_check_bind_eq_ok]

/-- A demand succeeds when its type is settled and its readout is taken into the schema. -/
theorem demand_eq_ok {name : String} {d : Demand} :
    (demand c site name s d).run ctx = .ok s' ctx' ↔
      (require c d.wire d.type site).run ctx = .ok () ctx' ∧
        ∃ r, d.readout = some r ∧ s.insert d.wire r = .ok s' := by
  unfold demand
  rw [Steps.run_check_bind_eq_ok]
  constructor
  · rintro ⟨between, required, rest⟩
    split at rest
    case h_1 r asked =>
      unfold record at rest
      split at rest
      case h_1 inserted =>
        cases rest
        exact ⟨required, r, asked, inserted⟩
      case h_2 => cases rest
    case h_2 => cases rest
  · rintro ⟨required, r, asked, inserted⟩
    refine ⟨ctx', required, ?_⟩
    rw [asked]
    dsimp only
    rw [record, inserted]
    rfl

/-- A run of demands succeeds just when the types are met and the readouts are collected. -/
theorem demands_eq_ok {ds : List (String × Demand)} :
    (ds.foldlM (fun s (name, d) => demand c site name s d) s).run ctx = .ok s' ctx' ↔
      (requires c site ((ds.map Prod.snd).map Demand.typed)).run ctx = .ok () ctx' ∧
        s.collect? (ds.map Prod.snd) = some s' := by
  induction ds generalizing s ctx with
  | nil =>
    constructor
    · rintro ⟨⟩
      exact ⟨rfl, rfl⟩
    · rintro ⟨⟨⟩, ⟨⟩⟩
      rfl
  | cons d rest ih =>
    rw [List.foldlM_cons, Steps.run_bind_eq_ok, List.map_cons, List.map_cons, Demand.typed,
      requires_cons_eq_ok, MeasurementSchema.collect?_cons]
    constructor
    · rintro ⟨next, between, first, others⟩
      obtain ⟨required, r, asked, inserted⟩ := demand_eq_ok.1 first
      obtain ⟨required', collected⟩ := ih.1 others
      exact ⟨⟨between, required, required'⟩, r, next, asked, inserted, collected⟩
    · rintro ⟨⟨between, required, required'⟩, r, next, asked, inserted, collected⟩
      exact ⟨next, between, demand_eq_ok.2 ⟨required, r, asked, inserted⟩,
        ih.2 ⟨required', collected⟩⟩

/-- An observable is resolved when its types are settled and its readouts have a schema. -/
theorem observable_eq_ok {t : Observable Leaf} {index : Nat} :
    (observable c t index).run ctx = .ok s ctx' ↔
      (requires c (.measurement index) (t.demands.map Demand.typed)).run ctx = .ok () ctx' ∧
        t.schema? = some s := by
  rw [observable, tree_eq_foldlM, demands_eq_ok, snd_named]
  rfl

/-- Observables resolved one after another: their types are met in this order, and each has its
schema. -/
theorem observables_eq_ok {ts : List (Observable Leaf)} {index : Nat}
    {schemas : List MeasurementSchema} :
    (ts.mapM (observable c · index)).run ctx = .ok schemas ctx' ↔
      (requires c (.measurement index) ((ts.flatMap Observable.demands).map Demand.typed)).run ctx =
          .ok () ctx' ∧
        List.Forall₂ (fun t s => t.schema? = some s) ts schemas := by
  induction ts generalizing ctx schemas with
  | nil =>
    rw [List.mapM_nil, List.forall₂_nil_left_iff]
    constructor
    · rintro ⟨⟩
      exact ⟨rfl, rfl⟩
    · rintro ⟨⟨⟩, rfl⟩
      rfl
  | cons t rest ih =>
    rw [List.mapM_cons, Steps.run_bind_eq_ok, List.flatMap_cons, List.map_append,
      requires_append_eq_ok]
    constructor
    · rintro ⟨s, between, first, others⟩
      obtain ⟨more, last, later, finish⟩ := Steps.run_bind_eq_ok.1 others
      cases finish
      obtain ⟨required, found⟩ := observable_eq_ok.1 first
      obtain ⟨required', each⟩ := ih.1 later
      exact ⟨⟨between, required, required'⟩, .cons found each⟩
    · rintro ⟨⟨between, required, required'⟩, each⟩
      cases each with
      | @cons _ s _ more found each =>
        refine ⟨s, between, observable_eq_ok.2 ⟨required, found⟩, ?_⟩
        exact Steps.run_bind_eq_ok.2 ⟨more, ctx', ih.2 ⟨required', each⟩, rfl⟩

/-! ## Composites -/

/-- A composite is resolved just when its children are, one after another, and their schemas agree.
-/
theorem composite_isOk_iff {t : Observable Leaf} {kind : Composite} (composite : t.root = .inl kind)
    (index : Nat) :
    (∃ s, (observable c t index).run ctx = .ok s ctx') ↔
      ∃ schemas, (t.children.mapM (observable c · index)).run ctx = .ok schemas ctx' ∧
        schemas.Pairwise Agrees := by
  have whole : t.schema? = MeasurementSchema.empty.collect?
      (t.children.flatMap Observable.demands) := by
    rw [Observable.schema?, Observable.demands_eq_flatMap_children composite]
  simp only [observable_eq_ok, observables_eq_ok,
    ← Observable.demands_eq_flatMap_children composite, exists_and_left, and_assoc]
  refine and_congr_right fun _ => ?_
  rw [whole]
  exact MeasurementSchema.exists_collect?_flatMap_iff

/-- The entries of a composite are the first ones among those of its children. -/
theorem composite_entries {t : Observable Leaf} {kind : Composite} (composite : t.root = .inl kind)
    {index : Nat} {schemas : List MeasurementSchema}
    (done : (observable c t index).run ctx = .ok s ctx')
    (each : (t.children.mapM (observable c · index)).run ctx = .ok schemas ctx') :
    s.entries = firstEntries (schemas.flatMap (·.entries)) := by
  have found := (observable_eq_ok.1 done).2
  rw [Observable.schema?, Observable.demands_eq_flatMap_children composite] at found
  exact MeasurementSchema.entries_of_collect?_flatMap (observables_eq_ok.1 each).2 found

/-- How an observable is resolved depends on its leaves, without the identities: the answer, or the
error, and the context after it. The schema depends neither on the circuit nor on the context or the
index. A composite is resolved just when its children are, one after another on the same context,
and their schemas agree; the context afterwards is the same, and the schema has the first readout of
each wire, in the order in which the children touch the wires. -/
theorem resolved_by_leaves (c : Circuit) (t : Observable Leaf) (index : Nat) :
    (∀ u : Observable Leaf, u.asking = t.asking →
      ∀ ctx, (observable c u index).run ctx = (observable c t index).run ctx) ∧
    (∀ c' index' ctx₁ ctx₁' ctx₂ ctx₂' s s', (observable c t index).run ctx₁ = .ok s ctx₁' →
      (observable c' t index').run ctx₂ = .ok s' ctx₂' → s' = s) ∧
    ∀ kind, t.root = .inl kind → ∀ ctx ctx',
      ((∃ s, (observable c t index).run ctx = .ok s ctx') ↔
        ∃ schemas, (t.children.mapM (observable c · index)).run ctx = .ok schemas ctx' ∧
          schemas.Pairwise Agrees) ∧
      ∀ s schemas, (observable c t index).run ctx = .ok s ctx' →
        (t.children.mapM (observable c · index)).run ctx = .ok schemas ctx' →
        s.entries = firstEntries (schemas.flatMap (·.entries)) := by
  refine ⟨fun u same ctx => ?_, fun c' index' ctx₁ ctx₁' ctx₂ ctx₂' s s' done done' => ?_,
    fun kind composite ctx ctx' => ⟨composite_isOk_iff composite index, fun s schemas => ?_⟩⟩
  · rw [observable_congr same]
  · exact Option.some.inj ((schema?_of_observable done').symm.trans (schema?_of_observable done))
  · exact composite_entries composite

/-- A quadrature in a product with a qubit observable and once more: the nodes above the leaves and
the identity in the second tree change nothing, and the schema of the sum is that of its terms. -/
theorem resolved_by_three_leaves :
    let c := (Circuit.empty "c").afterCalls
      [.measure (.product [.leaf ⟨"QuadX", [.index 0], []⟩, .leaf ⟨"PauliX", [.index 1], []⟩])]
    let x : Observable Leaf := .leaf ⟨"QuadX", [⟨0⟩], .continuous (some (.quadrature .zero))⟩
    let p : Observable Leaf := .leaf ⟨"PauliX", [⟨1⟩], .discrete ["Hadamard"]⟩
    let i : Observable Leaf := .leaf ⟨"Identity", [⟨1⟩], .identity⟩
    let t : Observable Leaf := .sum [x, .product [p, x]]
    let u : Observable Leaf := .adjoint (.product [x, .power i .zero, .sum [p, x]])
    u.asking = t.asking ∧
      (observable c u 0).run (.start c) = (observable c t 0).run (.start c) ∧
      ∃ s schemas ctx, (observable c t 0).run (.start c) = .ok s ctx ∧
        ([x, .product [p, x]].mapM (observable c · 0)).run (.start c) = .ok schemas ctx ∧
        schemas.Pairwise Agrees ∧ s.entries = firstEntries (schemas.flatMap (·.entries)) ∧
        s.entries.map (·.1) = [⟨0⟩, ⟨1⟩] := by
  intro c x p i t u
  have same : u.asking = t.asking := rfl
  obtain ⟨by_leaves, -, composite⟩ := resolved_by_leaves c t 0
  obtain ⟨isOk_iff, entries⟩ := composite .sum rfl (.start c)
    ⟨[some ⟨.continuous, .measurement 0⟩, some ⟨.discrete, .measurement 0⟩]⟩
  obtain ⟨schemas, each, agree⟩ := isOk_iff.1 ⟨_, rfl⟩
  exact ⟨same, by_leaves u same (.start c), _, schemas, _, rfl, each, agree,
    entries _ schemas rfl each, rfl⟩

end Typing

end Qumode
