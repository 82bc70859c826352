import LocalEmu.Core.StepFunctions.ErrorNames

/-!
# Error Names Across Map And Parallel

An error keeps its name from an iteration or a branch to the enclosing state if the
name is one that the user may choose. A reserved name cannot be put into a
`CustomErrorName` again: the constructor raises, a Map state takes this for a runtime
error, and a Parallel state does not catch it at all.
-/

namespace LocalEmu.StepFunctions

/-- The error name that a state raises for a text. -/
def raisedDirectly (name : String) : Option ErrorName :=
  match StatesErrorNameType.fromName name with
  | some typ => some (.states typ)
  | none => (CustomErrorName.make? (some name)).map .custom

/-- The enclosing state has a failure event with the name of the error, and every
    Retrier or Catcher is for it exactly if it is for the error itself. -/
def KeepsName (name : String) (failure : Option FailureEvent) : Prop :=
  ∃ event, failure = some event ∧ event.errorName.bind ErrorName.errorName = some name ∧
    ∀ decl : ErrorEqualsDecl, ∀ direct, raisedDirectly name = some direct →
      decl.eval event.errorName = decl.eval (some direct)

/-- The two states with programs in them. -/
inductive Composite
  | map
  | parallel

/-- The failure event of the enclosing state, if a program in it ends with an error. -/
def failureOf (pool : BranchWorkerPool) (details : ExecutionFailedEventDetails) :
    Composite → Option FailureEvent
  | .map =>
    match evalIteration () (.error (some details)) with
    | .error raised => mapFailureEvent raised
    | .ok _ => none
  | .parallel =>
    match evalBranches ([] : List Unit) (pool.onTerminated (.error (some details))) with
    | .error raised => parallelFailureEvent raised
    | .ok _ => none

theorem isReserved_toName (typ : StatesErrorNameType) : isReserved typ.toName = true := by
  cases typ <;> rfl

variable {name : String}

theorem fromName_of_not_reserved (h : isReserved name = false) :
    StatesErrorNameType.fromName name = none := by
  cases hname : StatesErrorNameType.fromName name with
  | none => rfl
  | some =>
    have htyp := List.find?_some hname
    rw [beq_iff_eq] at htyp
    rw [← htyp, isReserved_toName] at h
    cases h

/-- When a name can be made. -/
theorem make?_of_not_reserved (h : isReserved name = false) : CustomErrorName.make? (some name) =
      some ⟨some name, fun other hother => by rw [← Option.mem_some.mp hother]; exact h⟩ :=
  dif_pos _

theorem make?_of_reserved (h : isReserved name = true) :
    CustomErrorName.make? (some name) = none := by
  refine dif_neg fun hlegal => ?_
  rw [hlegal _ (Option.mem_some.mpr rfl)] at h
  cases h

theorem failureOf_of_not_reserved (h : isReserved name = false) (pool : BranchWorkerPool)
    (cause : Option String) (composite : Composite) :
    ∃ event, failureOf pool ⟨some name, cause⟩ composite = some event ∧
      event.errorName = raisedDirectly name ∧
      event.errorName.bind ErrorName.errorName = some name := by
  have hmake := make?_of_not_reserved h
  generalize hcustom : (⟨some name, _⟩ : CustomErrorName) = custom at hmake
  have hdirect : raisedDirectly name = some (.custom custom) := by
    rw [raisedDirectly, fromName_of_not_reserved h, hmake]
    rfl
  have hname : custom.errorName = some name := by rw [← hcustom]
  rw [hdirect]
  cases composite with
  | map =>
    refine ⟨⟨some (.custom custom), .mapIterationFailed, some name, cause⟩, ?_, rfl, hname⟩
    simp only [failureOf, evalIteration, hmake, mapFailureEvent, fromError]
  | parallel =>
    refine ⟨⟨some (.custom custom), .executionFailed, some name, cause⟩, ?_, rfl, hname⟩
    simp only [failureOf, evalBranches, BranchWorkerPool.onTerminated, Option.getD_some, hmake,
      parallelFailureEvent, fromError]

theorem failureOf_of_reserved (h : isReserved name = true) (pool : BranchWorkerPool)
    (cause : Option String) :
    (∃ event, failureOf pool ⟨some name, cause⟩ .map = some event ∧
      event.errorName = some (.states .statesRuntime)) ∧
    failureOf pool ⟨some name, cause⟩ .parallel = none := by
  constructor
  · refine ⟨fromError (illegalName (some name)), ?_, rfl⟩
    simp only [failureOf, evalIteration, make?_of_reserved h, mapFailureEvent]
  · simp only [failureOf, evalBranches, BranchWorkerPool.onTerminated, Option.getD_some,
      make?_of_reserved h, illegalName, parallelFailureEvent]

/-- An error keeps its name exactly if the name is not a reserved one, or if it is
    the one that a Map state puts in its place. -/
theorem keepsName_iff (name : String) (cause : Option String) (pool : BranchWorkerPool)
    (composite : Composite) :
    KeepsName name (failureOf pool ⟨some name, cause⟩ composite) ↔
      isReserved name = false ∨ (composite = .map ∧ name = "States.Runtime") := by
  cases hreserved : isReserved name with
  | false =>
    rcases failureOf_of_not_reserved hreserved _ _ _ with ⟨event, hevent, hdirect, hname⟩
    refine iff_of_true ⟨event, hevent, hname, ?_⟩ (.inl rfl)
    intro decl direct hraised
    rw [hdirect, hraised]
  | true =>
    rcases failureOf_of_reserved hreserved _ _ with ⟨⟨event, hevent, hruntime⟩, hnone⟩
    cases composite with
    | map =>
      constructor
      · rintro ⟨other, hother, hname, -⟩
        rw [hevent, Option.some.injEq] at hother
        rw [← hother, hruntime] at hname
        exact .inr ⟨rfl, (Option.some.inj hname).symm⟩
      · rintro (hfalse | ⟨-, rfl⟩)
        · cases hfalse
        · refine ⟨event, hevent, by rw [hruntime]; rfl, ?_⟩
          intro decl direct hraised
          rw [hruntime, ← hraised]
          rfl
    | parallel =>
      constructor
      · rintro ⟨other, hother, -⟩
        rw [hnone] at hother
        cases hother
      · rintro (hfalse | ⟨hmap, -⟩)
        · cases hfalse
        · cases hmap

-- A timeout in an iteration is not one for the Map state any more.
theorem timeout_lost :
    ¬KeepsName "States.Timeout"
      (failureOf ⟨false, 1, none⟩ ⟨some "States.Timeout", none⟩ .map) := by
  rintro ⟨event, hevent, hname, -⟩
  have hruntime : event = ⟨some (.states .statesRuntime), .taskFailed, some "States.Runtime", some
      "Custom Error Names MUST NOT begin with the prefix 'States.', got 'States.Timeout'."⟩ := by
    exact (Option.some.inj hevent).symm
  rw [hruntime] at hname
  exact absurd hname (by decide)

end LocalEmu.StepFunctions
