import Qumode.Readout.Schema

/-!
# Sameness of readouts

Readouts are the same when their schemas are equal and their operations are, with angles compared as
numbers. This relation is symmetric and transitive, so readouts that are the same as one are the
same as each other. It is not reflexive: a readout at an angle that is not a number differs from
itself.
-/

namespace Qumode

/-- A relation under which things that are the same as one are the same as each other. -/
structure Sameness {α : Type} (same : α → α → Bool) : Prop where
  symm : ∀ {a b}, same a b = true → same b a = true
  trans : ∀ {a b c}, same a b = true → same b c = true → same a c = true

theorem Sameness.symm_false {α : Type} {same : α → α → Bool} (h : Sameness same) {a b : α}
    (differ : same a b = false) : same b a = false := by
  rw [Bool.eq_false_iff] at differ ⊢
  exact mt h.symm differ

theorem Sameness.isEqv {α : Type} {same : α → α → Bool} (h : Sameness same) :
    Sameness fun as bs : List α => as.isEqv bs same where
  symm {as bs} := by
    induction as generalizing bs with
    | nil => cases bs <;> simp
    | cons a as ih =>
      cases bs with
      | nil => simp
      | cons b bs =>
        simp only [List.isEqv_cons_cons, Bool.and_eq_true]
        exact fun ⟨head, tail⟩ => ⟨h.symm head, ih tail⟩
  trans {as bs cs} := by
    induction as generalizing bs cs with
    | nil => cases bs <;> simp
    | cons a as ih =>
      cases bs with
      | nil => simp
      | cons b bs =>
        cases cs with
        | nil => simp
        | cons c cs =>
          simp only [List.isEqv_cons_cons, Bool.and_eq_true]
          exact fun ⟨head, tail⟩ ⟨head', tail'⟩ => ⟨h.trans head head', ih tail tail'⟩

theorem Real64.sameness : Sameness Real64.numEq where
  symm := numEq_symm
  trans {x y z} xy yz := by
    simp only [numEq, Bool.and_eq_true, Bool.or_eq_true, beq_iff_eq] at xy yz ⊢
    obtain ⟨⟨hx, -⟩, same | ⟨zx, zy⟩⟩ := xy
    · -- the same bits, so what holds of `y` holds of `x`
      obtain ⟨bits⟩ := x
      obtain ⟨_⟩ := y
      cases same
      exact yz
    · obtain ⟨⟨-, hz⟩, same | ⟨-, zz⟩⟩ := yz
      · obtain ⟨bits⟩ := y
        obtain ⟨_⟩ := z
        cases same
        exact ⟨⟨hx, hz⟩, .inr ⟨zx, zy⟩⟩
      · exact ⟨⟨hx, hz⟩, .inr ⟨zx, zz⟩⟩

example : Real64.nan.numEq .nan = false := by decide

theorem Param.sameness : Sameness Param.numEq where
  symm {a b} h := by
    cases a <;> cases b
    case int.int => simpa [numEq, eq_comm] using h
    case real.real => exact Real64.sameness.symm h
    all_goals exact nomatch h
  trans {a b c} ab bc := by
    cases a <;> cases b <;> cases c
    case int.int.int =>
      simp only [numEq, decide_eq_true_eq] at ab bc ⊢
      exact ab.trans bc
    case real.real.real => exact Real64.sameness.trans ab bc
    all_goals simp [numEq] at ab bc

theorem Operation.sameness : Sameness Operation.numEq where
  symm {a b} h := by
    simp only [numEq, Bool.and_eq_true, decide_eq_true_eq] at h ⊢
    obtain ⟨⟨⟨name, wires⟩, params⟩, capability⟩ := h
    exact ⟨⟨⟨name.symm, wires.symm⟩, Param.sameness.isEqv.symm params⟩, capability.symm⟩
  trans {a b c} ab bc := by
    simp only [numEq, Bool.and_eq_true, decide_eq_true_eq] at ab bc ⊢
    obtain ⟨⟨⟨name, wires⟩, params⟩, capability⟩ := ab
    obtain ⟨⟨⟨name', wires'⟩, params'⟩, capability'⟩ := bc
    exact ⟨⟨⟨name.trans name', wires.trans wires'⟩, Param.sameness.isEqv.trans params params'⟩,
      capability.trans capability'⟩

/-- Numeric equality of readouts is symmetric and transitive. -/
theorem WireReadout.sameness : Sameness WireReadout.numEq where
  symm {a b} h := by
    simp only [numEq, Bool.and_eq_true, decide_eq_true_eq] at h ⊢
    exact ⟨h.1.symm, Operation.sameness.isEqv.symm h.2⟩
  trans {a b c} ab bc := by
    simp only [numEq, Bool.and_eq_true, decide_eq_true_eq] at ab bc ⊢
    exact ⟨ab.1.trans bc.1, Operation.sameness.isEqv.trans ab.2 bc.2⟩

end Qumode
