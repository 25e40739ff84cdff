/-!
# Runs of a transition system

A system with a total step function and its runs over lists of events.  Four
rules carry results about one step to results about whole runs: an invariant
that every step keeps, an invariant that the allowed steps keep, the exact
condition under which a property that is never regained survives a run, and
the exact condition under which a property holds all along a run.

A loop whose end is not evident is given a number of rounds; it has no result
when these are used up.  The loop returns a result when it has it with every
number of rounds that is large enough.
-/

namespace YiimpStratum.Run

universe stateLevel eventLevel

variable {State : Type stateLevel} {Event : Type eventLevel}

section Runs

variable (step : State → Event → State)

/-- The state after a list of events. -/
def after (start : State) (events : List Event) : State :=
  events.foldl step start

/-- Every step of the run is allowed in the state where it is taken. -/
def EveryStep (allowed : State → Event → Prop) :
    State → List Event → Prop
  | _, [] => True
  | start, event :: events =>
      allowed start event ∧ EveryStep allowed (step start event) events

instance EveryStep.decidable {allowed : State → Event → Prop}
    [∀ state event, Decidable (allowed state event)] :
    (start : State) → (events : List Event) →
      Decidable (EveryStep step allowed start events)
  | _, [] => isTrue trivial
  | start, event :: events =>
      have :
          Decidable (EveryStep step allowed (step start event) events) :=
        EveryStep.decidable (step start event) events
      inferInstanceAs (Decidable (_ ∧ _))

@[simp]
theorem after_nil (start : State) : after step start [] = start :=
  rfl

@[simp]
theorem after_cons (start : State) (event : Event) (events : List Event) :
    after step start (event :: events) =
      after step (step start event) events :=
  rfl

end Runs

section Rules

variable {step : State → Event → State}
variable {invariant : State → Prop}
variable {allowed : State → Event → Prop}

/-- The steps of a run are allowed where they are taken. -/
theorem EveryStep.at_prefix {start : State} {event : Event}
    {reached events : List Event} (every : EveryStep step allowed start events)
    (within : reached ++ [event] <+: events) :
    allowed (after step start reached) event := by
  induction reached generalizing start events with
  | nil =>
      obtain ⟨rest, rfl⟩ := within
      exact every.1
  | cons first reached ih =>
      obtain ⟨rest, rfl⟩ := within
      exact ih every.2 (List.prefix_append _ rest)

/-- A run is allowed when its first part is and then its second one. -/
theorem EveryStep.append_iff {start : State} {events more : List Event} :
    EveryStep step allowed start (events ++ more) ↔
      EveryStep step allowed start events ∧
        EveryStep step allowed (after step start events) more := by
  induction events generalizing start with
  | nil =>
      exact (and_iff_right trivial).symm
  | cons event events ih =>
      exact (and_congr_right fun _ => ih).trans and_assoc.symm

/-- What every step keeps holds after every run. -/
theorem invariant_after
    (preserved :
      ∀ state event, invariant state → invariant (step state event))
    {start : State} (initial : invariant start) (events : List Event) :
    invariant (after step start events) := by
  induction events generalizing start with
  | nil =>
      exact initial
  | cons event events ih =>
      exact ih (preserved start event initial)

/-- What the allowed steps keep holds after every run of allowed steps. -/
theorem invariant_after_of_everyStep
    (preserved :
      ∀ state event, invariant state → allowed state event →
        invariant (step state event))
    {start : State} (initial : invariant start) {events : List Event}
    (permitted : EveryStep step allowed start events) :
    invariant (after step start events) := by
  induction events generalizing start with
  | nil =>
      exact initial
  | cons event events ih =>
      exact ih (preserved start event initial permitted.1) permitted.2

/--
A property that is never regained, and that a step from a safe state keeps
exactly when the step is allowed, holds after a run exactly when all its steps
are allowed.
-/
theorem safe_after_iff_everyStep
    (safe : State → Prop)
    (preserved :
      ∀ state event, invariant state → invariant (step state event))
    (lost : ∀ state event, ¬ safe state → ¬ safe (step state event))
    (kept :
      ∀ state event, invariant state → safe state →
        (safe (step state event) ↔ allowed state event))
    {start : State} (initial : invariant start) (startSafe : safe start)
    (events : List Event) :
    safe (after step start events) ↔
      EveryStep step allowed start events := by
  induction events generalizing start with
  | nil =>
      exact iff_of_true startSafe trivial
  | cons event events ih =>
      by_cases permitted : allowed start event
      · have nextSafe := (kept start event initial startSafe).mpr permitted
        rw [after_cons, ih (preserved start event initial) nextSafe]
        exact (and_iff_right permitted).symm
      · have nextUnsafe : ¬ safe (step start event) := fun nextSafe =>
          permitted ((kept start event initial startSafe).mp nextSafe)
        have staysUnsafe :
            ¬ safe (after step (step start event) events) :=
          invariant_after lost nextUnsafe events
        exact iff_of_false staysUnsafe fun all => permitted all.1

/--
A property that a step from a safe state keeps exactly when the step is
allowed holds in every state of a run exactly when all its steps are allowed.
The invariant may depend on the number of steps that are left.
-/
theorem forall_prefix_iff_everyStep_of_left
    (left : Nat → State → Prop) (safe : State → Prop)
    (preserved :
      ∀ steps state event, left (steps + 1) state →
        left steps (step state event))
    (kept :
      ∀ steps state event, left (steps + 1) state → safe state →
        (safe (step state event) ↔ allowed state event))
    {start : State} {events : List Event}
    (initial : left events.length start) (startSafe : safe start) :
    (∀ reached, reached <+: events → safe (after step start reached)) ↔
      EveryStep step allowed start events := by
  induction events generalizing start with
  | nil =>
      constructor
      · exact fun _ => trivial
      · intro _ reached isPrefix
        rw [List.prefix_nil.mp isPrefix]
        exact startSafe
  | cons event events ih =>
      have next := preserved events.length start event initial
      constructor
      · intro all
        have nextSafe : safe (step start event) :=
          all [event] (List.prefix_append [event] events)
        refine ⟨(kept _ start event initial startSafe).mp nextSafe, ?_⟩
        rw [← ih next nextSafe]
        intro reached isPrefix
        exact all (event :: reached)
          (List.prefix_cons_inj event |>.mpr isPrefix)
      · rintro ⟨permitted, rest⟩ reached isPrefix
        have nextSafe := (kept _ start event initial startSafe).mpr permitted
        rcases List.prefix_cons_iff.mp isPrefix with rfl | ⟨tail, rfl, shorter⟩
        · exact startSafe
        · exact (ih next nextSafe).mpr rest tail shorter

/-- The same with an invariant that every step keeps. -/
theorem forall_prefix_iff_everyStep
    (safe : State → Prop)
    (preserved :
      ∀ state event, invariant state → invariant (step state event))
    (kept :
      ∀ state event, invariant state → safe state →
        (safe (step state event) ↔ allowed state event))
    {start : State} (initial : invariant start) (startSafe : safe start)
    (events : List Event) :
    (∀ reached, reached <+: events → safe (after step start reached)) ↔
      EveryStep step allowed start events :=
  forall_prefix_iff_everyStep_of_left (fun _ => invariant) safe
    (fun _ => preserved) (fun _ => kept) initial startSafe

end Rules

end YiimpStratum.Run

/-! ## Loops with a number of rounds -/

namespace YiimpStratum.Rounds

universe level

variable {Result : Type level}

/-- With enough rounds the loop has this result. -/
def Returns (loop : Nat → Option Result) (result : Result) : Prop :=
  ∃ enough, ∀ rounds, enough ≤ rounds → loop rounds = some result

namespace Returns

variable {loop next : Nat → Option Result} {result other : Result}

theorem of_lt {bound : Nat}
    (all : ∀ rounds, bound < rounds → loop rounds = some result) :
    Returns loop result :=
  ⟨bound + 1, fun rounds more => all rounds more⟩

/-- A loop has one result only. -/
theorem unique (returns : Returns loop result) (again : Returns loop other) :
    result = other := by
  obtain ⟨enough, all⟩ := returns
  obtain ⟨enough', all'⟩ := again
  have one := all _ (Nat.le_max_left enough enough')
  have two := all' _ (Nat.le_max_right enough enough')
  exact Option.some.inj (one.symm.trans two)

/-- What is made of the result is made of it in every round. -/
theorem map {Other : Type level} (returns : Returns loop result)
    (change : Result → Other) :
    Returns (fun rounds => (loop rounds).map change) (change result) := by
  obtain ⟨enough, all⟩ := returns
  refine ⟨enough, fun rounds more => ?_⟩
  dsimp only
  rw [all rounds more, Option.map_some]

/-- Loops that agree from some number of rounds on return the same. -/
theorem congr {bound : Nat}
    (same : ∀ rounds, bound ≤ rounds → loop rounds = next rounds) :
    Returns loop result ↔ Returns next result := by
  constructor
  · rintro ⟨enough, all⟩
    refine ⟨max bound enough, fun rounds more => ?_⟩
    rw [← same rounds (Nat.max_le.mp more).1]
    exact all rounds (Nat.max_le.mp more).2
  · rintro ⟨enough, all⟩
    refine ⟨max bound enough, fun rounds more => ?_⟩
    rw [same rounds (Nat.max_le.mp more).1]
    exact all rounds (Nat.max_le.mp more).2

/-- A round is added in front. -/
theorem step (returns : Returns next result)
    (round : ∀ rounds, loop (rounds + 1) = next rounds) :
    Returns loop result := by
  obtain ⟨enough, all⟩ := returns
  refine ⟨enough + 1, fun rounds more => ?_⟩
  cases rounds with
  | zero => exact absurd more (Nat.not_succ_le_zero enough)
  | succ rounds =>
      rw [round]
      exact all rounds (Nat.le_of_succ_le_succ more)

end Returns

end YiimpStratum.Rounds
