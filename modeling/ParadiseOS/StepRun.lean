/-!
# Runs of a fallible step function

A system is given by a step function that answers an operation with an
observation and a new state, or fails. The rules here carry an invariant, or a
simulation by a total abstract machine, from one step to every finite run.
-/

namespace ParadiseOS.StepRun

set_option autoImplicit false

variable {State Abstract Operation Observation Failure : Type}

/-- Runs the operations in order and collects what they answer; the first
failure ends the run. -/
def run (step : State → Operation → Except Failure (Observation × State)) :
    State → List Operation → Except Failure (List Observation × State)
  | state, [] => .ok ([], state)
  | state, operation :: rest =>
      match step state operation with
      | .error failure => .error failure
      | .ok (observation, next) =>
          match run step next rest with
          | .error failure => .error failure
          | .ok (observations, final) => .ok (observation :: observations, final)

/-- Each operation of the list is allowed in the state in which the run meets it. -/
def Allowed (step : State → Operation → Except Failure (Observation × State))
    (allowed : State → Operation → Prop) : State → List Operation → Prop
  | _, [] => True
  | state, operation :: rest =>
      allowed state operation ∧
        ∀ observation next, step state operation = .ok (observation, next) →
          Allowed step allowed next rest

instance decideAllowed (step : State → Operation → Except Failure (Observation × State))
    (allowed : State → Operation → Prop) [∀ state operation, Decidable (allowed state operation)] :
    ∀ state operations, Decidable (Allowed step allowed state operations)
  | _, [] => isTrue trivial
  | state, operation :: rest =>
      match reached : step state operation with
      | .error _ =>
          decidable_of_iff (allowed state operation)
            ⟨fun legal => ⟨legal, fun _ _ same => by rw [reached] at same; cases same⟩, And.left⟩
      | .ok (observation, next) =>
          have := decideAllowed step allowed next rest
          decidable_of_iff (allowed state operation ∧ Allowed step allowed next rest)
            ⟨fun legal => ⟨legal.1, fun _ _ same => by
                rw [reached] at same
                cases same
                exact legal.2⟩,
              fun legal => ⟨legal.1, legal.2 observation next reached⟩⟩

/-- The observations and the last state of a total machine. -/
def observe (step : Abstract → Operation → Observation × Abstract) :
    Abstract → List Operation → List Observation × Abstract
  | state, [] => ([], state)
  | state, operation :: rest =>
      let (observation, next) := step state operation
      let (observations, final) := observe step next rest
      (observation :: observations, final)

/-- The step function with the state of a total machine carried along. -/
def pairedStep (step : State → Operation → Except Failure (Observation × State))
    (abstractStep : Abstract → Operation → Observation × Abstract) :
    State × Abstract → Operation → Except Failure (Observation × State × Abstract)
  | (state, abstract), operation =>
      match step state operation with
      | .error failure => .error failure
      | .ok (observation, next) => .ok (observation, next, (abstractStep abstract operation).2)

variable {step : State → Operation → Except Failure (Observation × State)}
variable {allowed : State → Operation → Prop}

theorem run_cons {state final : State} {operation : Operation} {rest : List Operation}
    {observations : List Observation}
    (completed : run step state (operation :: rest) = .ok (observations, final)) :
    ∃ observation next later, step state operation = .ok (observation, next) ∧
      run step next rest = .ok (later, final) ∧ observations = observation :: later := by
  rw [run] at completed
  cases first : step state operation with
  | error failure => simp [first] at completed
  | ok pair =>
      obtain ⟨observation, next⟩ := pair
      cases tail : run step next rest with
      | error failure => simp [first, tail] at completed
      | ok outcome =>
          obtain ⟨later, last⟩ := outcome
          simp only [first, tail, Except.ok.injEq, Prod.mk.injEq] at completed
          obtain ⟨rfl, rfl⟩ := completed
          exact ⟨observation, next, later, rfl, tail, rfl⟩

theorem run_cons_of_step {state next final : State} {operation : Operation}
    {observation : Observation} {rest : List Operation} {observations : List Observation}
    (first : step state operation = .ok (observation, next))
    (tail : run step next rest = .ok (observations, final)) :
    run step state (operation :: rest) = .ok (observation :: observations, final) := by
  simp only [run, first, tail]

theorem allowed_cons_of_step {state next : State} {operation : Operation}
    {observation : Observation} {rest : List Operation} (legal : allowed state operation)
    (first : step state operation = .ok (observation, next))
    (tail : Allowed step allowed next rest) : Allowed step allowed state (operation :: rest) := by
  refine ⟨legal, ?_⟩
  intro other reached same
  rw [first] at same
  simp only [Except.ok.injEq, Prod.mk.injEq] at same
  exact same.2 ▸ tail

/-- Operations that are allowed in every state form an allowed run. -/
theorem allowed_of_always {operations : List Operation}
    (always : ∀ operation ∈ operations, ∀ state, allowed state operation) (state : State) :
    Allowed step allowed state operations := by
  induction operations generalizing state with
  | nil => trivial
  | cons operation rest ih =>
      refine ⟨always operation List.mem_cons_self state, ?_⟩
      intro _ next _
      exact ih (fun other member => always other (List.mem_cons_of_mem _ member)) next

theorem allowed_and {first second : State → Operation → Prop} {operations : List Operation}
    {state : State} (left : Allowed step first state operations)
    (right : Allowed step second state operations) :
    Allowed step (fun state operation => first state operation ∧ second state operation) state
      operations := by
  induction operations generalizing state with
  | nil => trivial
  | cons operation rest ih =>
      refine ⟨⟨left.1, right.1⟩, ?_⟩
      intro observation next stepped
      exact ih (left.2 observation next stepped) (right.2 observation next stepped)

/-- Two conditions that agree wherever a run gets to, as long as it meets the first. -/
theorem allowed_iff {first second : State → Operation → Prop} (invariant : State → Prop)
    (same : ∀ state operation, invariant state → allowed state operation →
      (first state operation ↔ second state operation))
    (preserved : ∀ state operation observation next, invariant state → allowed state operation →
      first state operation → step state operation = .ok (observation, next) → invariant next)
    (operations : List Operation) (state : State) (holds : invariant state)
    (legal : Allowed step allowed state operations) :
    Allowed step first state operations ↔ Allowed step second state operations := by
  induction operations generalizing state with
  | nil => exact Iff.rfl
  | cons operation rest ih =>
      have here := same state operation holds legal.1
      constructor
      · rintro ⟨met, later⟩
        refine ⟨here.1 met, ?_⟩
        intro observation next stepped
        exact (ih next (preserved _ _ _ _ holds legal.1 met stepped) (legal.2 _ _ stepped)).1
          (later observation next stepped)
      · rintro ⟨met, later⟩
        have metFirst := here.2 met
        refine ⟨metFirst, ?_⟩
        intro observation next stepped
        exact (ih next (preserved _ _ _ _ holds legal.1 metFirst stepped) (legal.2 _ _ stepped)).2
          (later observation next stepped)

/-- What one allowed step preserves, every allowed run preserves. -/
theorem run_preserves (invariant : State → Prop)
    (preserved : ∀ state operation observation next, invariant state → allowed state operation →
      step state operation = .ok (observation, next) → invariant next)
    (operations : List Operation) (state final : State) (observations : List Observation)
    (holds : invariant state) (legal : Allowed step allowed state operations)
    (completed : run step state operations = .ok (observations, final)) : invariant final := by
  induction operations generalizing state observations with
  | nil =>
      simp only [run, Except.ok.injEq, Prod.mk.injEq] at completed
      exact completed.2 ▸ holds
  | cons operation rest ih =>
      obtain ⟨observation, next, later, first, tail, _⟩ := run_cons completed
      exact ih next later (preserved state operation observation next holds legal.1 first)
        (legal.2 observation next first) tail

/-- If every allowed step from related states succeeds and is matched by the
total machine, then every allowed run succeeds with the observations of that machine. -/
theorem run_simulates (abstractStep : Abstract → Operation → Observation × Abstract)
    (related : State → Abstract → Prop)
    (matched : ∀ state abstract operation, related state abstract → allowed state operation →
      ∃ next, step state operation = .ok ((abstractStep abstract operation).1, next) ∧
        related next (abstractStep abstract operation).2)
    (operations : List Operation) (state : State) (abstract : Abstract)
    (start : related state abstract) (legal : Allowed step allowed state operations) :
    ∃ final, run step state operations =
        .ok ((observe abstractStep abstract operations).1, final) ∧
      related final (observe abstractStep abstract operations).2 := by
  induction operations generalizing state abstract with
  | nil => exact ⟨state, rfl, start⟩
  | cons operation rest ih =>
      obtain ⟨next, first, relatedNext⟩ := matched state abstract operation start legal.1
      obtain ⟨final, tail, relatedFinal⟩ :=
        ih next (abstractStep abstract operation).2 relatedNext (legal.2 _ next first)
      exact ⟨final, by simp only [run, first, tail, observe], relatedFinal⟩

/-- The same when what is allowed also depends on the state of the total machine. -/
theorem run_simulates_paired {legalCall : State × Abstract → Operation → Prop}
    (abstractStep : Abstract → Operation → Observation × Abstract)
    (related : State → Abstract → Prop)
    (matched : ∀ state abstract operation, related state abstract →
      legalCall (state, abstract) operation →
      ∃ next, step state operation = .ok ((abstractStep abstract operation).1, next) ∧
        related next (abstractStep abstract operation).2)
    (operations : List Operation) (state : State) (abstract : Abstract)
    (start : related state abstract)
    (legal : Allowed (pairedStep step abstractStep) legalCall (state, abstract) operations) :
    ∃ final, run step state operations =
        .ok ((observe abstractStep abstract operations).1, final) ∧
      related final (observe abstractStep abstract operations).2 := by
  induction operations generalizing state abstract with
  | nil => exact ⟨state, rfl, start⟩
  | cons operation rest ih =>
      obtain ⟨next, first, relatedNext⟩ := matched state abstract operation start legal.1
      have both : pairedStep step abstractStep (state, abstract) operation =
          .ok ((abstractStep abstract operation).1, next, (abstractStep abstract operation).2) := by
        rw [pairedStep, first]
      obtain ⟨final, tail, relatedFinal⟩ :=
        ih next (abstractStep abstract operation).2 relatedNext (legal.2 _ _ both)
      exact ⟨final, by simp only [run, first, tail, observe], relatedFinal⟩

/-- If every step that succeeds is matched by the total machine, then so is every run that does. -/
theorem run_refines (abstractStep : Abstract → Operation → Observation × Abstract)
    (related : State → Abstract → Prop)
    (matched : ∀ state abstract operation observation next, related state abstract →
      allowed state operation → step state operation = .ok (observation, next) →
      observation = (abstractStep abstract operation).1 ∧ related next (abstractStep abstract operation).2)
    (operations : List Operation) (state final : State) (abstract : Abstract)
    (observations : List Observation) (start : related state abstract)
    (legal : Allowed step allowed state operations)
    (completed : run step state operations = .ok (observations, final)) :
    observations = (observe abstractStep abstract operations).1 ∧
      related final (observe abstractStep abstract operations).2 := by
  induction operations generalizing state abstract observations with
  | nil =>
      cases completed
      exact ⟨rfl, start⟩
  | cons operation rest ih =>
      obtain ⟨observation, next, later, first, tail, rfl⟩ := run_cons completed
      obtain ⟨same, relatedNext⟩ := matched _ _ _ _ _ start legal.1 first
      obtain ⟨sameLater, relatedFinal⟩ := ih next _ later relatedNext (legal.2 _ _ first) tail
      exact ⟨by rw [observe, same, sameLater], relatedFinal⟩

section Fallible

/-- Two fallible machines side by side, for what is allowed in both of their states. -/
def bothStep (step : State → Operation → Except Failure (Observation × State))
    (abstractStep : Abstract → Operation → Except Failure (Observation × Abstract)) :
    State × Abstract → Operation → Except Failure (Observation × State × Abstract)
  | (state, abstract), operation =>
      match step state operation, abstractStep abstract operation with
      | .ok (observation, next), .ok (_, abstractNext) => .ok (observation, next, abstractNext)
      | .ok _, .error failure => .error failure
      | .error failure, _ => .error failure

/-- Both answer the same and end in related states, or both fail the same way. -/
def Matches {Answer : Type} (related : State → Abstract → Prop) :
    Except Failure (Answer × State) → Except Failure (Answer × Abstract) → Prop
  | .ok (answer, state), .ok (expected, abstract) => answer = expected ∧ related state abstract
  | .error failure, .error expected => failure = expected
  | _, _ => False

/-- Machines that match in every allowed step match in every allowed run. -/
theorem run_matches {abstractStep : Abstract → Operation → Except Failure (Observation × Abstract)}
    {legalCall : State × Abstract → Operation → Prop} (related : State → Abstract → Prop)
    (matched : ∀ state abstract operation, related state abstract →
      legalCall (state, abstract) operation →
      Matches related (step state operation) (abstractStep abstract operation))
    (operations : List Operation) (state : State) (abstract : Abstract) (start : related state abstract)
    (legal : Allowed (bothStep step abstractStep) legalCall (state, abstract) operations) :
    Matches related (run step state operations) (run abstractStep abstract operations) := by
  induction operations generalizing state abstract with
  | nil => exact ⟨rfl, start⟩
  | cons operation rest ih =>
      have here := matched state abstract operation start legal.1
      rw [run, run]
      cases first : step state operation with
      | error failure =>
          cases second : abstractStep abstract operation with
          | error expected =>
              rw [first, second] at here
              exact here
          | ok pair =>
              rw [first, second] at here
              exact here.elim
      | ok pair =>
          obtain ⟨observation, next⟩ := pair
          cases second : abstractStep abstract operation with
          | error expected =>
              rw [first, second] at here
              exact here.elim
          | ok abstractPair =>
              obtain ⟨expected, abstractNext⟩ := abstractPair
              rw [first, second] at here
              have both : bothStep step abstractStep (state, abstract) operation =
                  .ok (observation, next, abstractNext) := by
                rw [bothStep, first, second]
              have later := ih next abstractNext here.2 (legal.2 _ _ both)
              dsimp only
              revert later
              cases run step next rest with
              | error failure =>
                  cases run abstractStep abstractNext rest with
                  | error other => exact id
                  | ok other => exact id
              | ok outcome =>
                  cases run abstractStep abstractNext rest with
                  | error other => exact id
                  | ok other =>
                      intro later
                      exact ⟨by rw [here.1, later.1], later.2⟩

end Fallible

section Parts

/-- A run of two parts is a run of the first and then one of the second. -/
theorem run_append {state final : State} {first second : List Operation}
    {observations : List Observation}
    (completed : run step state (first ++ second) = .ok (observations, final)) :
    ∃ before middle after, run step state first = .ok (before, middle) ∧
      run step middle second = .ok (after, final) ∧ observations = before ++ after ∧
      before.length = first.length := by
  induction first generalizing state observations with
  | nil => exact ⟨[], state, observations, rfl, completed, rfl, rfl⟩
  | cons operation rest ih =>
      obtain ⟨observation, next, later, here, tail, rfl⟩ := run_cons completed
      obtain ⟨before, middle, after, front, back, rfl, same⟩ := ih tail
      exact ⟨observation :: before, middle, after, run_cons_of_step here front, back, rfl,
        congrArg Nat.succ same⟩

/-- The first part of an allowed run is allowed. -/
theorem allowed_append {state : State} {first second : List Operation}
    (legal : Allowed step allowed state (first ++ second)) : Allowed step allowed state first := by
  induction first generalizing state with
  | nil => trivial
  | cons operation rest ih =>
      exact ⟨legal.1, fun observation next reached => ih (legal.2 observation next reached)⟩

/-- What is allowed in the second part is judged where the first part ended. -/
theorem allowed_append_iff {state middle : State} {first second : List Operation}
    {observations : List Observation} (completed : run step state first = .ok (observations, middle)) :
    Allowed step allowed state (first ++ second) ↔
      Allowed step allowed state first ∧ Allowed step allowed middle second := by
  induction first generalizing state observations with
  | nil =>
      cases completed
      exact (and_iff_right trivial).symm
  | cons operation rest ih =>
      obtain ⟨observation, next, later, here, tail, _⟩ := run_cons completed
      constructor
      · rintro ⟨legal, after⟩
        obtain ⟨front, back⟩ := (ih tail).1 (after observation next here)
        exact ⟨allowed_cons_of_step legal here front, back⟩
      · rintro ⟨⟨legal, after⟩, back⟩
        exact allowed_cons_of_step legal here ((ih tail).2 ⟨after observation next here, back⟩)

end Parts

end ParadiseOS.StepRun
