import Qumode.Circuit.Document
import Qumode.Proofs.Document.Reading
import Qumode.Proofs.Json.Format

/-!
# Descriptions read back

A description is read back as it was from the JSON text that is written for it, in any format that
keeps plain values (`Description.reads_back_from_json`). Each part reads back by itself: a wire
keeps its kind because an index is written as an integer and a label as a text, and a parameter
because a real is not written as an integer. A real that is not finite is not written and is
excluded; observables are read as deep as the format reads, so deeper ones are excluded as well.
-/

namespace Qumode

open Document

/-- A natural number below the limit is read as itself. -/
theorem nat?_ofNat {limit n : Nat} (small : n < limit) :
    (Document.number (.ofNat n)).nat? limit = some n := by
  show (if 0 ≤ (n : Int) ∧ (n : Int) < limit then some (n : Int).toNat else none) = some n
  rw [if_pos ⟨Int.natCast_nonneg n, Int.ofNat_lt.2 small⟩, Int.toNat_natCast]

/-- A wire keeps its kind: an index is written as an integer, and a label as a text. -/
theorem Wire.ofDocument?_toDocument (w : Wire) : ofDocument? w.toDocument = some w := by
  cases w with
  | index number =>
    have small : number.toNat < UInt32.size := number.toNat_lt
    show (if 0 ≤ (number.toNat : Int) ∧ (number.toNat : Int) < UInt32.size
      then some (Wire.index (.ofNat (number.toNat : Int).toNat)) else none) = _
    rw [if_pos ⟨Int.natCast_nonneg _, Int.ofNat_lt.2 small⟩, Int.toNat_natCast, UInt32.ofNat_toNat]
  | label name => rfl

/-- A finite real is written as a number, not as an integer. -/
theorem Real64.scalar?_toDocument {x : Real64} (finite : x.isFinite = true) :
    x.toDocument.scalar? = some (.real x) := by
  rw [toDocument, if_pos finite]
  exact if_pos finite

theorem Real64.real?_toDocument {x : Real64} (finite : x.isFinite = true) :
    x.toDocument.real? = some x := by
  rw [Document.real?, scalar?_toDocument finite]

namespace Param

/-- The reals that a parameter holds. -/
def reals : Param → List Real64
  | int _ => []
  | real value => [value]

/-- A parameter keeps its kind, since an integer in range is an integer and a real is none. -/
theorem ofDocument?_toDocument {p : Param} (finite : ∀ x ∈ p.reals, x.isFinite = true) :
    ofDocument? p.toDocument = some p := by
  cases p with
  | int value =>
    show (if Int64.minValue.toInt ≤ value.toInt ∧ value.toInt ≤ Int64.maxValue.toInt
      then some (Param.int (.ofInt value.toInt)) else some (Param.real (.ofInt value.toInt))) = _
    rw [if_pos ⟨value.minValue_le_toInt, value.toInt_le⟩, Int64.ofInt_toInt]
  | real value =>
    have finite := finite value List.mem_cons_self
    rw [toDocument, ofDocument?, Real64.scalar?_toDocument finite]

end Param

theorem CapabilityTag.ofText?_text (tag : CapabilityTag) : ofText? tag.text = some tag := by
  cases tag <;> decide

/-- A list of wires reads back. -/
theorem wires_toDocument (wires : List Wire) :
    list? Wire.ofDocument? (.list (wires.map Wire.toDocument)) = some wires :=
  list?_map fun w _ => w.ofDocument?_toDocument

namespace OperationRecord

/-- The fields of an operation. -/
def fields (r : OperationRecord) : Record :=
  [("name", .text (some r.name)), ("wires", .list (r.wires.map Wire.toDocument)),
    ("params", .list (r.params.map Param.toDocument)),
    ("capability", .text (some r.capability.text))]
    ++ match r.numContinuous with
      | none => []
      | some count => [("num_continuous", .number (.ofNat count.toNat))]

/-- The reals among the parameters of an operation. -/
def reals (r : OperationRecord) : List Real64 := r.params.flatMap Param.reals

theorem toDocument_eq (r : OperationRecord) : r.toDocument = r.fields.toDocument := by
  unfold toDocument fields
  cases r.numContinuous <;> rfl

/-- The names of the fields, in order of declaration. -/
def fieldNames : List String := ["name", "wires", "params", "capability", "num_continuous"]

/-- The fields that are written are among the declared ones, in their order. -/
theorem fields_sublist (r : OperationRecord) : (r.fields.map (·.1)).Sublist fieldNames := by
  unfold fields
  cases r.numContinuous with
  | none => exact List.sublist_append_left _ ["num_continuous"]
  | some count => exact List.Sublist.refl _

/-- An absent number of qumodes stays absent, and one that is there is read. -/
theorem withDefault_numContinuous (r : OperationRecord) :
    r.fields.withDefault "num_continuous" none (option? uint64?) = some r.numContinuous := by
  obtain ⟨name, wires, params, capability, count⟩ := r
  cases count with
  | none => rfl
  | some count =>
    show (uint64? (.number (.ofNat count.toNat))).map some = _
    rw [uint64?, nat?_ofNat count.toNat_lt, Option.map_some, UInt64.ofNat_toNat]
    rfl

/-- An operation with finite reals reads back field by field. -/
theorem ofDocument?_toDocument {r : OperationRecord} (finite : ∀ x ∈ r.reals, x.isFinite = true) :
    ofDocument? .json r.toDocument = some r := by
  have record : r.fields.toDocument.record? fieldNames = some r.fields :=
    record?_toDocument r.fields_sublist (by decide)
  have name : r.fields.required "name" text? = some r.name := rfl
  have wires : r.fields.required "wires" (list? Wire.ofDocument?) = some r.wires :=
    wires_toDocument r.wires
  have params : r.fields.withDefault "params" [] (list? Param.ofDocument?) = some r.params :=
    list?_map fun p hp => Param.ofDocument?_toDocument fun x hx =>
      finite x (List.mem_flatMap.2 ⟨p, hp, hx⟩)
  have capability : (r.fields.required "capability" fun d => do
      CapabilityTag.ofText? (← d.unitVariant? .json)) = some r.capability :=
    r.capability.ofText?_text
  rw [toDocument_eq, ofDocument?, ← fieldNames, record]
  simp only [Option.bind_eq_bind, Option.bind_some] at capability ⊢
  rw [name, wires, params, capability, withDefault_numContinuous]
  rfl

end OperationRecord

namespace NamedObservable

def fields (o : NamedObservable) : Record :=
  [("name", .text (some o.name)), ("wires", .list (o.wires.map Wire.toDocument)),
    ("params", .list (o.params.map Real64.toDocument))]

theorem toDocument_eq (o : NamedObservable) : o.toDocument = o.fields.toDocument := rfl

/-- A named observable with finite parameters reads back field by field. -/
theorem ofDocument?_toDocument {o : NamedObservable} (finite : ∀ x ∈ o.params, x.isFinite = true) :
    ofDocument? o.toDocument = some o := by
  have record : o.fields.toDocument.record? ["name", "wires", "params"] = some o.fields :=
    record?_toDocument (List.Sublist.refl _) (by decide)
  have name : o.fields.required "name" text? = some o.name := rfl
  have wires : o.fields.required "wires" (list? Wire.ofDocument?) = some o.wires :=
    wires_toDocument o.wires
  have params : o.fields.withDefault "params" [] (list? real?) = some o.params :=
    list?_map fun x hx => Real64.real?_toDocument (finite x hx)
  rw [toDocument_eq, ofDocument?, record]
  simp only [Option.bind_eq_bind, Option.bind_some]
  rw [name, wires, params]
  rfl

end NamedObservable

namespace RawObservable

mutual

/-- The reals in an observable: parameters of its leaves and exponents. -/
def reals : RawObservable → List Real64
  | .leaf named => named.params
  | .sum terms => realsOf terms
  | .product factors => realsOf factors
  | .adjoint base => reals base
  | .power base exponent => exponent :: reals base

def realsOf : List RawObservable → List Real64
  | [] => []
  | t :: rest => reals t ++ realsOf rest

end

variable {depth : Nat}

/-- A sum nests three deeper than its terms: in its name, in its field and in the list. -/
theorem nesting_sum (terms : List RawObservable) :
    (toDocument (.sum terms)).nesting = nestingOfItems (toDocuments terms) + 3 := by
  simp [toDocument, nesting, nestingOfEntries]

/-- A product nests three deeper than its factors, as a sum does. -/
theorem nesting_product (factors : List RawObservable) :
    (toDocument (.product factors)).nesting = nestingOfItems (toDocuments factors) + 3 := by
  simp [toDocument, nesting, nestingOfEntries]

/-- A node without a list nests two deeper than what it stands on. -/
theorem nesting_adjoint (base : RawObservable) :
    (toDocument (.adjoint base)).nesting = (toDocument base).nesting + 2 := by
  simp [toDocument, nesting, nestingOfEntries]

theorem nesting_power (base : RawObservable) (exponent : Real64) :
    (toDocument (.power base exponent)).nesting = (toDocument base).nesting + 2 := by
  have number : exponent.toDocument.nesting = 0 := by
    unfold Real64.toDocument
    split <;> simp [nesting]
  simp [toDocument, nesting, nestingOfEntries, number]

/-- Lists and records stand three deep in any observable: what is read has that much depth. -/
theorem exists_depth_eq (t : RawObservable) (nests : (toDocument t).nesting ≤ depth) :
    ∃ rest, depth = rest + 3 := by
  have record (u : RawObservable) : 1 ≤ (toDocument u).nesting := by
    cases u <;> simp [toDocument, nesting]
  have three : 3 ≤ (toDocument t).nesting := by
    cases t with
    | leaf named => simp [toDocument, NamedObservable.toDocument, nesting, nestingOfEntries]
    | sum terms => exact nesting_sum terms ▸ Nat.le_add_left 3 _
    | product factors => exact nesting_product factors ▸ Nat.le_add_left 3 _
    | adjoint base => exact nesting_adjoint base ▸ Nat.add_le_add_right (record base) 2
    | power base exponent =>
      exact nesting_power base exponent ▸ Nat.add_le_add_right (record base) 2
  exact ⟨depth - 3, (Nat.sub_add_cancel (three.trans nests)).symm⟩

/-- A record with the one field that is declared is that field. -/
theorem record?_single (name : String) (d : Document) :
    (Document.fields [(some name, d)]).record? [name] = some [(name, d)] :=
  record?_toDocument (r := [(name, d)]) (List.Sublist.refl _) (List.nodup_singleton name)

/-! Each kind of node is read by reading what is below it. -/

/-- A leaf is read by reading the named observable in it. -/
theorem ofDocument?_leaf (named : NamedObservable) :
    ofDocument? .json (depth + 3) (toDocument (.leaf named)) =
      (NamedObservable.ofDocument? named.toDocument).map Observable.leaf := by
  rw [toDocument, ofDocument?]
  rfl

/-- A sum is read by reading its terms three levels further down. -/
theorem ofDocument?_sum (terms : List RawObservable) :
    ofDocument? .json (depth + 3) (toDocument (.sum terms)) =
      ((toDocuments terms).mapM (ofDocument? .json depth)).map Observable.sum := by
  rw [toDocument, ofDocument?]
  simp only [variant?, Option.bind_eq_bind, Option.bind_some, record?_single]
  rfl

/-- A product is read by reading its factors three levels further down. -/
theorem ofDocument?_product (factors : List RawObservable) :
    ofDocument? .json (depth + 3) (toDocument (.product factors)) =
      ((toDocuments factors).mapM (ofDocument? .json depth)).map Observable.product := by
  rw [toDocument, ofDocument?]
  simp only [variant?, Option.bind_eq_bind, Option.bind_some, record?_single]
  rfl

/-- An adjoint is read by reading its base two levels further down. -/
theorem ofDocument?_adjoint (base : RawObservable) :
    ofDocument? .json (depth + 3) (toDocument (.adjoint base)) =
      (ofDocument? .json (depth + 1) (toDocument base)).map Observable.adjoint := by
  rw [toDocument, ofDocument?]
  simp only [variant?, Option.bind_eq_bind, Option.bind_some, record?_single]
  rfl

/-- A power is read by reading its base two levels further down, and then its exponent. -/
theorem ofDocument?_power (base : RawObservable) (exponent : Real64) :
    ofDocument? .json (depth + 3) (toDocument (.power base exponent)) =
      (ofDocument? .json (depth + 1) (toDocument base)).bind fun base =>
        exponent.toDocument.real?.bind fun exponent => some (Observable.power base exponent) := by
  have record : (Document.fields [(some "base", toDocument base),
      (some "exponent", exponent.toDocument)]).record? ["base", "exponent"] =
        some [("base", toDocument base), ("exponent", exponent.toDocument)] :=
    record?_toDocument (r := [("base", toDocument base), ("exponent", exponent.toDocument)])
      (List.Sublist.refl _) (by decide)
  rw [toDocument, ofDocument?]
  simp only [variant?, Option.bind_eq_bind, Option.bind_some, record]
  rfl

mutual

/-- An observable that nests no deeper than is read reads back. -/
theorem ofDocument?_toDocument : (t : RawObservable) → (depth : Nat) →
    (toDocument t).nesting ≤ depth → (∀ x ∈ reals t, x.isFinite = true) →
    ofDocument? .json depth (toDocument t) = some t
  | .leaf named, depth, nests, finite => by
    obtain ⟨depth, rfl⟩ := exists_depth_eq _ nests
    rw [ofDocument?_leaf, NamedObservable.ofDocument?_toDocument finite, Option.map_some]
  | .sum terms, depth, nests, finite => by
    obtain ⟨depth, rfl⟩ := exists_depth_eq _ nests
    rw [nesting_sum, Nat.add_le_add_iff_right] at nests
    rw [ofDocument?_sum, mapM_toDocuments terms depth nests finite, Option.map_some]
  | .product factors, depth, nests, finite => by
    obtain ⟨depth, rfl⟩ := exists_depth_eq _ nests
    rw [nesting_product, Nat.add_le_add_iff_right] at nests
    rw [ofDocument?_product, mapM_toDocuments factors depth nests finite, Option.map_some]
  | .adjoint base, depth, nests, finite => by
    obtain ⟨depth, rfl⟩ := exists_depth_eq _ nests
    have inner : (toDocument base).nesting ≤ depth + 1 := by
      rw [nesting_adjoint] at nests
      omega
    rw [ofDocument?_adjoint, ofDocument?_toDocument base (depth + 1) inner finite, Option.map_some]
  | .power base exponent, depth, nests, finite => by
    obtain ⟨depth, rfl⟩ := exists_depth_eq _ nests
    have inner : (toDocument base).nesting ≤ depth + 1 := by
      rw [nesting_power] at nests
      omega
    obtain ⟨finite_exponent, finite_base⟩ := List.forall_mem_cons.1 finite
    rw [ofDocument?_power, ofDocument?_toDocument base (depth + 1) inner finite_base,
      Option.bind_some, Real64.real?_toDocument finite_exponent, Option.bind_some]

/-- Observables that nest no deeper than is read all read back. -/
theorem mapM_toDocuments : (ts : List RawObservable) → (depth : Nat) →
    nestingOfItems (toDocuments ts) ≤ depth → (∀ x ∈ realsOf ts, x.isFinite = true) →
    (toDocuments ts).mapM (ofDocument? .json depth) = some ts
  | [], _, _, _ => rfl
  | t :: rest, depth, nests, finite => by
    have finite := List.forall_mem_append.1 finite
    have first := ofDocument?_toDocument t depth (le_trans (le_max_left _ _) nests) finite.1
    have others := mapM_toDocuments rest depth (le_trans (le_max_right _ _) nests) finite.2
    rw [toDocuments, List.mapM_cons, first, others]
    rfl

end

end RawObservable

namespace Description

/-- The reals in a description: parameters of operations and of observables, and exponents. -/
def reals (d : Description) : List Real64 :=
  d.operations.flatMap OperationRecord.reals ++ RawObservable.realsOf d.measurements

def fields (d : Description) : Record :=
  [("name", .text (some d.name)),
    ("operations", .list (d.operations.map OperationRecord.toDocument)),
    ("measurements", .list (RawObservable.toDocuments d.measurements))]

theorem toDocument_eq (d : Description) : d.toDocument = d.fields.toDocument := rfl

/-- A description with finite reals reads back from its document, if that nests within the limit. -/
theorem ofDocument?_toDocument {d : Description} {limit : Nat}
    (finite : ∀ x ∈ d.reals, x.isFinite = true) (nests : d.toDocument.nesting ≤ limit) :
    ofDocumentWithin? limit .json d.toDocument = some d := by
  obtain ⟨finite_operations, finite_measurements⟩ := List.forall_mem_append.1 finite
  have record : d.fields.toDocument.record? ["name", "operations", "measurements"] =
      some d.fields :=
    record?_toDocument (List.Sublist.refl _) (by decide)
  have name : d.fields.withDefault "name" "" text? = some d.name := rfl
  have operations : d.fields.withDefault "operations" []
      (list? (OperationRecord.ofDocument? .json)) = some d.operations :=
    list?_map fun r hr => OperationRecord.ofDocument?_toDocument fun x hx =>
      finite_operations x (List.mem_flatMap.2 ⟨r, hr, hx⟩)
  have inner : nestingOfItems (RawObservable.toDocuments d.measurements) ≤ limit - 2 := by
    simp only [toDocument, nesting, nestingOfEntries] at nests
    omega
  have measurements : d.fields.withDefault "measurements" []
      (list? (RawObservable.ofDocument? .json (limit - 2))) = some d.measurements :=
    RawObservable.mapM_toDocuments d.measurements (limit - 2) inner finite_measurements
  rw [toDocument_eq, ofDocumentWithin?, record]
  simp only [Option.bind_eq_bind, Option.bind_some]
  rw [name, operations, measurements]
  rfl

end Description

section Writing

/-- Indices are in the range of integers that a document can hold. -/
theorem Wire.writable_toDocument (w : Wire) : w.toDocument.Writable := by
  cases w with
  | index number =>
    have low : Int64.minValue.toInt ≤ number.toNat :=
      (by decide : Int64.minValue.toInt ≤ 0).trans (Int.natCast_nonneg _)
    have high : number.toNat < UInt64.size := number.toNat_lt.trans (by decide)
    exact decide_eq_true ⟨low, Int.ofNat_lt.2 high⟩
  | label name => rfl

/-- A real is a number only if it is finite. -/
theorem Real64.writable_toDocument (x : Real64) : x.toDocument.Writable := by
  unfold toDocument
  split
  case isTrue finite => exact finite
  case isFalse => trivial

/-- The integers of parameters are in the range that a document can hold. -/
theorem Param.writable_toDocument (p : Param) : p.toDocument.Writable := by
  cases p with
  | int value =>
    exact decide_eq_true ⟨value.minValue_le_toInt, value.toInt_le.trans_lt (by decide)⟩
  | real value => exact value.writable_toDocument

theorem writable_wires (wires : List Wire) :
    (Document.list (wires.map Wire.toDocument)).Writable :=
  writable_list (List.forall_mem_map.2 fun w _ => w.writable_toDocument)

/-- The document of an operation can be written: no declared name stands twice. -/
theorem OperationRecord.writable_toDocument (r : OperationRecord) : r.toDocument.Writable := by
  have params : (Document.list (r.params.map Param.toDocument)).Writable :=
    writable_list (List.forall_mem_map.2 fun p _ => p.writable_toDocument)
  rw [toDocument_eq]
  refine writable_record (r.fields_sublist.nodup (by decide)) (List.forall_mem_append.2 ⟨?_, ?_⟩)
  · simp only [List.forall_mem_cons]
    exact ⟨rfl, writable_wires r.wires, params, rfl, List.forall_mem_nil _⟩
  · cases r.numContinuous with
    | none => exact List.forall_mem_nil _
    | some count =>
      have low : Int64.minValue.toInt ≤ count.toNat :=
        (by decide : Int64.minValue.toInt ≤ 0).trans (Int.natCast_nonneg _)
      exact List.forall_mem_singleton.2
        (decide_eq_true ⟨low, Int.ofNat_lt.2 count.toNat_lt⟩)

/-- The document of a named observable can be written. -/
theorem NamedObservable.writable_toDocument (o : NamedObservable) : o.toDocument.Writable := by
  have params : (Document.list (o.params.map Real64.toDocument)).Writable :=
    writable_list (List.forall_mem_map.2 fun x _ => x.writable_toDocument)
  have distinct : (o.fields.map (·.1)).Nodup := (by decide : ["name", "wires", "params"].Nodup)
  rw [toDocument_eq]
  refine writable_record distinct ?_
  simp only [fields, List.forall_mem_cons]
  exact ⟨rfl, writable_wires o.wires, params, List.forall_mem_nil _⟩

namespace RawObservable

mutual

/-- The document of an observable can be written, at any depth. -/
theorem writable_toDocument : (t : RawObservable) → (toDocument t).Writable
  | .leaf named => writable_field "Named" named.writable_toDocument
  | .sum terms => writable_field "Sum" (writable_field "terms" (writable_toDocuments terms))
  | .product factors =>
    writable_field "Prod" (writable_field "factors" (writable_toDocuments factors))
  | .adjoint base => writable_field "Adjoint" (writable_field "base" (writable_toDocument base))
  | .power base exponent =>
    writable_field "Pow" <|
      writable_record (r := [("base", toDocument base), ("exponent", exponent.toDocument)])
        (by decide : ["base", "exponent"].Nodup)
        (List.forall_mem_cons.2 ⟨writable_toDocument base,
          List.forall_mem_singleton.2 exponent.writable_toDocument⟩)

theorem writable_toDocuments : (ts : List RawObservable) → WritableItems (toDocuments ts)
  | [] => trivial
  | t :: rest => ⟨writable_toDocument t, writable_toDocuments rest⟩

end

end RawObservable

namespace Description

/-- Every description has a document that can be written. -/
theorem writable_toDocument (d : Description) : d.toDocument.Writable := by
  have operations : (Document.list (d.operations.map OperationRecord.toDocument)).Writable :=
    writable_list (List.forall_mem_map.2 fun r _ => r.writable_toDocument)
  have measurements : (Document.list (RawObservable.toDocuments d.measurements)).Writable :=
    RawObservable.writable_toDocuments d.measurements
  have distinct : (d.fields.map (·.1)).Nodup :=
    (by decide : ["name", "operations", "measurements"].Nodup)
  rw [toDocument_eq]
  refine writable_record distinct ?_
  simp only [fields, List.forall_mem_cons]
  exact ⟨rfl, operations, measurements, List.forall_mem_nil _⟩

/-- A description whose reals are finite and that nests no deeper than a format reads is read back
as it was from the text that is written for it. -/
theorem reads_back_from_json {format : Json.Format} (lawful : format.Lawful) (d : Description)
    (finite : ∀ x ∈ d.reals, x.isFinite = true)
    (nests : d.toDocument.nesting ≤ format.depthLimit) :
    (format.read? (format.write d.toDocument)).bind
      (ofDocumentWithin? format.depthLimit .json) = some d := by
  have kept : format.read? (format.write d.toDocument) = some d.toDocument :=
    lawful.keeps d.toDocument d.writable_toDocument nests
  rw [kept, Option.bind_some, ofDocument?_toDocument finite nests]

/-- A description in which each value stands beside the one that it could be taken for. -/
def twins : Description where
  name := "\"twins\"\n"
  operations :=
    [.standard "RX" [.index 0, .label "0"] [.int 1, .real ⟨0x3FF0000000000000⟩],
     .hybrid "CR" [.index 0, .index 4294967295] 1 [.int 0, .real ⟨0⟩, .real ⟨0x8000000000000000⟩]]
  measurements :=
    [.sum [.leaf ⟨"PauliZ", [.label "0"], []⟩,
       .adjoint (.power (.leaf ⟨"QuadOperator", [.index 0], [⟨0x3FB999999999999A⟩]⟩)
         ⟨0xC004000000000000⟩)],
     .product []]

/-- The indices and labels, the integers and reals, and the zeros of both signs are told apart in
JSON. -/
theorem twins_reads_back_from_json :
    Json.format.Lawful ∧ (∀ x ∈ twins.reals, x.isFinite = true) ∧
      twins.toDocument.nesting ≤ Json.format.depthLimit ∧
      (Json.format.read? (Json.format.write twins.toDocument)).bind
        (ofDocumentWithin? Json.format.depthLimit .json) = some twins := by
  have finite : ∀ x ∈ twins.reals, x.isFinite = true := by decide
  have nests : twins.toDocument.nesting ≤ Json.format.depthLimit := by decide
  exact ⟨Json.format_lawful, finite, nests,
    reads_back_from_json Json.format_lawful twins finite nests⟩

end Description

end Writing

end Qumode
