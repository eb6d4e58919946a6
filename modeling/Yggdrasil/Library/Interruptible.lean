import Mathlib.Data.List.Basic

/-!
# Programs that can be interrupted

A program changes a state through calls to an operating system.  What the operating system does
with the calls to come is a list of verdicts: it performs a call, refuses it, or the machine stops
before it.  A list that has run out means that every further call is performed.

A program ends by returning, by throwing an error, by a panic, or because the machine stopped; in
each case the state stays as it is at that moment.  `Meets` says what holds of the state for each
way to end, over all verdicts of an allowed kind, and excludes a panic.  The rules below take a
program apart along its syntax: one for each construct, and an invariant for a loop.

Nothing here mentions a particular state or call.
-/

namespace Yggdrasil.Library

/-- What becomes of a call. -/
inductive Verdict where
  | succeed
  | fail
  | stop
deriving DecidableEq, Repr

/-- How a program ends. -/
inductive Ending (Error Value : Type) where
  | returned (value : Value)
  | threw (error : Error)
  | panicked
  | stopped
deriving DecidableEq, Repr

/-- An ending by an error. -/
def Ending.failed {Error Value : Type} : Ending Error Value → Bool
  | .threw _ => true
  | _ => false

/-- A state and the verdicts on the calls to come. -/
structure Machine (State : Type) where
  state : State
  verdicts : List Verdict

/-- Nothing but a verdict stops the machine, and verdicts do not come from nowhere. -/
def Calm {State Error Value : Type} (result : Ending Error Value × Machine State) : Prop :=
  result.1 ≠ .stopped ∧ result.2.verdicts = []

/-- A program over a state. -/
structure Program (State Error Value : Type) where
  run : Machine State → Ending Error Value × Machine State
  calm : ∀ state, Calm (run { state, verdicts := [] })

variable {State Error Value Other Item : Type}

namespace Program

instance : CoeFun (Program State Error Value) fun _ =>
    Machine State → Ending Error Value × Machine State := ⟨run⟩

/-- What follows the end of a program. -/
def proceed (next : Value → Program State Error Other) :
    Ending Error Value × Machine State → Ending Error Other × Machine State
  | (.returned value, after) => next value after
  | (.threw error, after) => (.threw error, after)
  | (.panicked, after) => (.panicked, after)
  | (.stopped, after) => (.stopped, after)

theorem calm_proceed {next : Value → Program State Error Other}
    {result : Ending Error Value × Machine State} (hcalm : Calm result) :
    Calm (proceed next result) := by
  obtain ⟨ending, ⟨state, verdicts⟩⟩ := result
  obtain rfl : verdicts = [] := hcalm.2
  cases ending with
  | returned value => exact (next value).calm state
  | threw error | panicked => exact ⟨nofun, rfl⟩
  | stopped => exact absurd rfl hcalm.1

/-- Run the second program on what the first returns. -/
def andThen (first : Program State Error Value) (next : Value → Program State Error Other) :
    Program State Error Other where
  run machine := proceed next (first machine)
  calm state := calm_proceed (first.calm state)

instance : Monad (Program State Error) where
  pure value := { run := fun machine => (.returned value, machine), calm := fun _ => ⟨nofun, rfl⟩ }
  bind := andThen

def throw (error : Error) : Program State Error Value where
  run machine := (.threw error, machine)
  calm _ := ⟨nofun, rfl⟩

/-- A value that is absent is a panic. -/
def orPanic (value : Option Value) : Program State Error Value where
  run machine := (value.elim .panicked .returned, machine)
  calm _ := by cases value <;> exact ⟨nofun, rfl⟩

/-- The state, as far as the program has it in memory. -/
def read : Program State Error State where
  run machine := (.returned machine.state, machine)
  calm _ := ⟨nofun, rfl⟩

/-- A change in memory, which needs no call. -/
def update (change : State → State) : Program State Error Unit where
  run machine := (.returned (), { machine with state := change machine.state })
  calm _ := ⟨nofun, rfl⟩

/-- The result of a call that is performed. -/
def performCall (perform : State → Except Error (Value × State)) (state : State)
    (verdicts : List Verdict) : Ending Error Value × Machine State :=
  match perform state with
  | .ok (value, next) => (.returned value, { state := next, verdicts })
  | .error error => (.threw error, { state, verdicts })

/-- The result of a call, by the first verdict. -/
def runCall (refusal : Error) (perform : State → Except Error (Value × State))
    (machine : Machine State) : Ending Error Value × Machine State :=
  match machine.verdicts with
  | [] => performCall perform machine.state []
  | .succeed :: rest => performCall perform machine.state rest
  | .fail :: rest => (.threw refusal, { machine with verdicts := rest })
  | .stop :: rest => (.stopped, { machine with verdicts := rest })

/-- A call.  `perform` is its effect where it is performed, and `refusal` the error where it is
refused. -/
def call (refusal : Error) (perform : State → Except Error (Value × State)) :
    Program State Error Value where
  run := runCall refusal perform
  calm state := by
    rw [runCall, performCall]
    cases perform state with
    | ok pair => exact ⟨nofun, rfl⟩
    | error error => exact ⟨nofun, rfl⟩

/-- An ending in which an error is a value. -/
def catchError : Ending Error Value → Ending Error (Except Error Value)
  | .returned value => .returned (.ok value)
  | .threw error => .returned (.error error)
  | .panicked => .panicked
  | .stopped => .stopped

/-- Return an error as a value. -/
def attempt (program : Program State Error Value) : Program State Error (Except Error Value) where
  run machine := (catchError (program machine).1, (program machine).2)
  calm state := by
    refine ⟨fun hstopped => (program.calm state).1 ?_, (program.calm state).2⟩
    cases hending : (program { state, verdicts := [] }).1 with
    | stopped => rfl
    | returned value => simp [catchError, hending] at hstopped
    | threw error => simp [catchError, hending] at hstopped
    | panicked => simp [catchError, hending] at hstopped

/-- Run a program for its effect and drop its error. -/
def ignore (program : Program State Error Value) : Program State Error Unit := do
  let _ ← attempt program
  pure ()

/-- Run a program for each item. -/
def forEach (body : Item → Program State Error Unit) : List Item → Program State Error Unit
  | [] => pure ()
  | item :: rest => do
    body item
    forEach body rest

/-- A composition, by how its first part ends. -/
theorem bind_apply (first : Program State Error Value) (next : Value → Program State Error Other)
    (machine : Machine State) : (first >>= next) machine = proceed next (first machine) := rfl

theorem proceed_returned (next : Value → Program State Error Other) (value : Value)
    (after : Machine State) : proceed next (.returned value, after) = next value after := rfl

theorem read_bind_apply (next : State → Program State Error Value) (machine : Machine State) :
    (read >>= next) machine = next machine.state machine := rfl

theorem update_bind_apply (change : State → State) (next : Unit → Program State Error Value)
    (machine : Machine State) : (update change >>= next) machine =
      next () { machine with state := change machine.state } := rfl

/-- What a program does when every call is performed. -/
def perform (program : Program State Error Value) (state : State) :
    Ending Error Value × Machine State :=
  program { state, verdicts := [] }

theorem perform_ne_stopped (program : Program State Error Value) (state : State) :
    (program.perform state).1 ≠ .stopped :=
  (program.calm state).1

end Program

/-! ## What a program promises -/

/-- What is promised of the state for each way a program can end without a panic. -/
structure Promise (State Error Value : Type) where
  returned : Value → State → Prop
  threw : Error → State → Prop
  stopped : State → Prop

/-- The promise holds of a result, and the verdicts that are left are of the allowed kind. -/
def Promise.Kept (promise : Promise State Error Value) (allowed : Verdict → Prop)
    (result : Ending Error Value × Machine State) : Prop :=
  (match result.1 with
    | .returned value => promise.returned value result.2.state
    | .threw error => promise.threw error result.2.state
    | .panicked => False
    | .stopped => promise.stopped result.2.state) ∧
  ∀ verdict ∈ result.2.verdicts, allowed verdict

/-- From `state`, under any verdicts of the allowed kind, the program keeps the promise. -/
def Meets (allowed : Verdict → Prop) (program : Program State Error Value) (state : State)
    (promise : Promise State Error Value) : Prop :=
  ∀ verdicts, (∀ verdict ∈ verdicts, allowed verdict) →
    promise.Kept allowed (program { state, verdicts })

namespace Meets

variable {allowed : Verdict → Prop} {state : State} {promise : Promise State Error Value}
  {program : Program State Error Value}

theorem mono {stronger : Promise State Error Value} (hmeets : Meets allowed program state stronger)
    (hreturned : ∀ value next, stronger.returned value next → promise.returned value next)
    (hthrew : ∀ error next, stronger.threw error next → promise.threw error next)
    (hstopped : ∀ next, stronger.stopped next → promise.stopped next) :
    Meets allowed program state promise := by
  intro verdicts hallowed
  have hkept := hmeets verdicts hallowed
  rcases hresult : program { state, verdicts } with ⟨ending, after⟩
  rw [hresult] at hkept
  cases ending with
  | returned value => exact ⟨hreturned _ _ hkept.1, hkept.2⟩
  | threw error => exact ⟨hthrew _ _ hkept.1, hkept.2⟩
  | panicked => exact hkept
  | stopped => exact ⟨hstopped _ hkept.1, hkept.2⟩

theorem pure {value : Value} (hreturned : promise.returned value state) :
    Meets allowed (Pure.pure value) state promise :=
  fun _ hallowed => ⟨hreturned, hallowed⟩

theorem throw {error : Error} (hthrew : promise.threw error state) :
    Meets allowed (Program.throw error) state promise :=
  fun _ hallowed => ⟨hthrew, hallowed⟩

theorem orPanic {value : Option Value} {found : Value} (hfound : value = some found)
    (hreturned : promise.returned found state) :
    Meets allowed (Program.orPanic value) state promise := by
  subst hfound
  exact fun _ hallowed => ⟨hreturned, hallowed⟩

/-- The rule of composition: what the first program promises is what the second starts from. -/
theorem seq {first : Program State Error Value} {next : Value → Program State Error Other}
    {middle : Promise State Error Value} {promise : Promise State Error Other}
    (hfirst : Meets allowed first state middle)
    (hnext : ∀ value after, middle.returned value after → Meets allowed (next value) after promise)
    (hthrew : ∀ error after, middle.threw error after → promise.threw error after)
    (hstopped : ∀ after, middle.stopped after → promise.stopped after) :
    Meets allowed (first >>= next) state promise := by
  intro verdicts hallowed
  have hkept := hfirst verdicts hallowed
  change promise.Kept allowed (Program.proceed next (first { state, verdicts }))
  rcases hresult : first { state, verdicts } with ⟨ending, after⟩
  rw [hresult] at hkept
  cases ending with
  | returned value => exact hnext value after.state hkept.1 after.verdicts hkept.2
  | threw error => exact ⟨hthrew _ _ hkept.1, hkept.2⟩
  | panicked => exact hkept.1.elim
  | stopped => exact ⟨hstopped _ hkept.1, hkept.2⟩

/-- A change in memory, then the rest. -/
theorem update_seq {change : State → State} {next : Unit → Program State Error Value}
    (hnext : Meets allowed (next ()) (change state) promise) :
    Meets allowed (Program.update change >>= next) state promise := hnext

/-- A look at the state, then the rest. -/
theorem read_seq {next : State → Program State Error Value}
    (hnext : Meets allowed (next state) state promise) :
    Meets allowed (Program.read >>= next) state promise := hnext

theorem update {change : State → State} {promise : Promise State Error Unit}
    (hreturned : promise.returned () (change state)) :
    Meets allowed (Program.update change) state promise :=
  fun _ hallowed => ⟨hreturned, hallowed⟩

theorem call {refusal : Error} {perform : State → Except Error (Value × State)}
    (hok : ∀ value next, perform state = .ok (value, next) → promise.returned value next)
    (herror : ∀ error, perform state = .error error → promise.threw error state)
    (hfail : allowed .fail → promise.threw refusal state)
    (hstop : allowed .stop → promise.stopped state) :
    Meets allowed (Program.call refusal perform) state promise := by
  intro verdicts hallowed
  have hperformed : ∀ rest, (∀ verdict ∈ rest, allowed verdict) →
      promise.Kept allowed (Program.performCall perform state rest) := by
    intro rest hrest
    unfold Program.performCall
    cases hresult : perform state with
    | ok pair => exact ⟨hok _ _ hresult, hrest⟩
    | error error => exact ⟨herror _ hresult, hrest⟩
  cases verdicts with
  | nil => exact hperformed [] hallowed
  | cons verdict rest =>
    have hrest : ∀ verdict ∈ rest, allowed verdict := fun other hother =>
      hallowed other (List.mem_cons_of_mem _ hother)
    have hverdict := hallowed verdict List.mem_cons_self
    cases verdict with
    | succeed => exact hperformed rest hrest
    | fail => exact ⟨hfail hverdict, hrest⟩
    | stop => exact ⟨hstop hverdict, hrest⟩

/-- An error becomes a value. -/
theorem attempt {promise : Promise State Error (Except Error Value)}
    (hmeets : Meets allowed program state
      { returned := fun value => promise.returned (.ok value)
        threw := fun error => promise.returned (.error error)
        stopped := promise.stopped }) :
    Meets allowed program.attempt state promise := by
  intro verdicts hallowed
  have hkept := hmeets verdicts hallowed
  change promise.Kept allowed
    (Program.catchError (program { state, verdicts }).1, (program { state, verdicts }).2)
  rcases hresult : program { state, verdicts } with ⟨ending, after⟩
  rw [hresult] at hkept
  cases ending with
  | returned value | threw error => exact hkept
  | panicked | stopped => exact hkept

/-- A dropped error is as good as a return. -/
theorem ignore {promise : Promise State Error Unit}
    (hmeets : Meets allowed program state
      { returned := fun _ => promise.returned (), threw := fun _ => promise.returned ()
        stopped := promise.stopped }) :
    Meets allowed program.ignore state promise := by
  have hattempt : Meets allowed program.attempt state
      { returned := fun _ => promise.returned (), threw := fun _ _ => False
        stopped := promise.stopped } := attempt hmeets
  exact seq hattempt (fun _ _ hreturned => pure hreturned) (fun _ _ => False.elim)
    (fun _ hstopped => hstopped)

/-- The invariant rule of a loop.  `invariant` speaks of the items still to come. -/
theorem forEach {body : Item → Program State Error Unit} {promise : Promise State Error Unit}
    (invariant : List Item → State → Prop)
    (hbody : ∀ item rest current, invariant (item :: rest) current →
      Meets allowed (body item) current
        { promise with returned := fun _ next => invariant rest next })
    (hdone : ∀ next, invariant [] next → promise.returned () next)
    {items : List Item} (hstart : invariant items state) :
    Meets allowed (Program.forEach body items) state promise := by
  induction items generalizing state with
  | nil => exact pure (hdone _ hstart)
  | cons item rest ih =>
    exact seq (hbody item rest state hstart) (fun _ _ hinvariant => ih hinvariant)
      (fun _ _ hthrew => hthrew) (fun _ hstopped => hstopped)

/-- A call with a known effect. -/
theorem call_ok {refusal : Error} {perform : State → Except Error (Value × State)}
    {value : Value} {next : State} (hok : perform state = .ok (value, next))
    (hreturned : promise.returned value next)
    (hfail : allowed .fail → promise.threw refusal state)
    (hstop : allowed .stop → promise.stopped state) :
    Meets allowed (Program.call refusal perform) state promise := by
  refine call (fun found after hfound => ?_) (fun error herror => ?_) hfail hstop
  · rw [hok] at hfound
    cases hfound
    exact hreturned
  · rw [hok] at herror
    cases herror

/-- A promise is kept when every call is performed. -/
theorem perform (hmeets : Meets allowed program state promise) :
    promise.Kept allowed (program.perform state) :=
  hmeets [] fun _ hmem => absurd hmem List.not_mem_nil

end Meets

/-- The program does not throw; `returned` holds where it returns and `stopped` where it stops. -/
def Yields (allowed : Verdict → Prop) (program : Program State Error Value) (state : State)
    (returned : Value → State → Prop) (stopped : State → Prop) : Prop :=
  Meets allowed program state { returned, threw := fun _ _ => False, stopped }

namespace Yields

variable {allowed : Verdict → Prop} {program : Program State Error Value} {state : State}
  {returned : Value → State → Prop} {stopped : State → Prop}

theorem seq {next : Value → Program State Error Other} {promise : Promise State Error Other}
    (hprogram : Yields allowed program state returned stopped)
    (hnext : ∀ value after, returned value after → Meets allowed (next value) after promise)
    (hstopped : ∀ after, stopped after → promise.stopped after) :
    Meets allowed (program >>= next) state promise :=
  Meets.seq hprogram hnext (fun _ _ => False.elim) hstopped

theorem mono {promise : Promise State Error Value}
    (hprogram : Yields allowed program state returned stopped)
    (hreturned : ∀ value next, returned value next → promise.returned value next)
    (hstopped : ∀ next, stopped next → promise.stopped next) :
    Meets allowed program state promise :=
  Meets.mono hprogram hreturned (fun _ _ => False.elim) hstopped

/-- What else is known of a return. -/
theorem and {promise : Promise State Error Value}
    (hprogram : Yields allowed program state returned stopped)
    (hmeets : Meets allowed program state promise) :
    Yields allowed program state
      (fun value next => promise.returned value next ∧ returned value next) stopped := by
  intro verdicts hallowed
  have hkept := hprogram verdicts hallowed
  have hother := hmeets verdicts hallowed
  rcases hresult : program { state, verdicts } with ⟨ending, after⟩
  rw [hresult] at hkept hother
  cases ending with
  | returned value => exact ⟨⟨hother.1, hkept.1⟩, hkept.2⟩
  | threw error => exact hkept
  | panicked | stopped => exact hkept

theorem ignore {program : Program State Error Unit} {returned : Unit → State → Prop}
    (hprogram : Yields allowed program state returned stopped) :
    Yields allowed program.ignore state returned stopped :=
  Meets.ignore (hprogram.mono (fun _ _ hreturned => hreturned) fun _ hstopped => hstopped)

end Yields

/-! ## Programs that stay within a relation -/

/-- However the program ends, the state is related to the one it started from; and it ends with an
error only if `mayThrow`. -/
def Stays (allowed : Verdict → Prop) (mayThrow : Prop) (rel : State → State → Prop)
    (program : Program State Error Value) : Prop :=
  ∀ state, Meets allowed program state
    { returned := fun _ => rel state, threw := fun _ next => mayThrow ∧ rel state next
      stopped := rel state }

namespace Stays

variable {allowed : Verdict → Prop} {mayThrow : Prop} {rel : State → State → Prop}

theorem pure [Std.Refl rel] (value : Value) :
    Stays allowed mayThrow rel (Pure.pure value : Program State Error Value) :=
  fun state => Meets.pure (Std.Refl.refl state)

variable {program : Program State Error Value}

theorem mono {wider : State → State → Prop} (hprogram : Stays allowed mayThrow rel program)
    (hrel : ∀ state next, rel state next → wider state next) :
    Stays allowed mayThrow wider program :=
  fun state => Meets.mono (hprogram state) (fun _ next => hrel state next)
    (fun _ next hthrew => ⟨hthrew.1, hrel state next hthrew.2⟩) fun next => hrel state next

theorem call [Std.Refl rel] {refusal : Error} {perform : State → Except Error (Value × State)}
    (hok : ∀ state value next, perform state = .ok (value, next) → rel state next)
    (herror : ∀ state error, perform state = .error error → mayThrow)
    (hfail : allowed .fail → mayThrow) : Stays allowed mayThrow rel (Program.call refusal perform) :=
  fun state => Meets.call (fun value next => hok state value next)
    (fun error hresult => ⟨herror state error hresult, Std.Refl.refl state⟩)
    (fun hallowed => ⟨hfail hallowed, Std.Refl.refl state⟩) (fun _ => Std.Refl.refl state)

variable {first : Program State Error Value} {next : Value → Program State Error Other}

theorem seq [IsTrans State rel] (hfirst : Stays allowed mayThrow rel first)
    (hnext : ∀ value, Stays allowed mayThrow rel (next value)) :
    Stays allowed mayThrow rel (first >>= next) := by
  intro state
  refine Meets.seq (hfirst state) (fun value middle hmiddle => ?_) (fun _ _ hrel => hrel)
    (fun _ hrel => hrel)
  exact (hnext value middle).mono (fun _ _ hrel => IsTrans.trans _ _ _ hmiddle hrel)
    (fun _ _ hrel => ⟨hrel.1, IsTrans.trans _ _ _ hmiddle hrel.2⟩)
    (fun _ hrel => IsTrans.trans _ _ _ hmiddle hrel)

theorem attempt (hprogram : Stays allowed True rel program) :
    Stays allowed mayThrow rel program.attempt :=
  fun state => Meets.attempt ((hprogram state).mono (fun _ _ hrel => hrel) (fun _ _ hrel => hrel.2)
    (fun _ hrel => hrel))

theorem ignore (hprogram : Stays allowed True rel program) :
    Stays allowed mayThrow rel program.ignore :=
  fun state => Meets.ignore ((hprogram state).mono (fun _ _ hrel => hrel) (fun _ _ hrel => hrel.2)
    (fun _ hrel => hrel))

theorem forEach [Std.Refl rel] [IsTrans State rel] {body : Item → Program State Error Unit}
    {items : List Item} (hbody : ∀ item ∈ items, Stays allowed mayThrow rel (body item)) :
    Stays allowed mayThrow rel (Program.forEach body items) := by
  induction items with
  | nil => exact pure ()
  | cons item rest ih =>
    exact seq (hbody item List.mem_cons_self) fun _ =>
      ih fun other hother => hbody other (List.mem_cons_of_mem _ hother)

/-- A program that stays within a relation, then the rest. -/
theorem seq_meets {state : State} {promise : Promise State Error Other}
    (hfirst : Stays allowed mayThrow rel first)
    (hnext : ∀ value middle, rel state middle → Meets allowed (next value) middle promise)
    (hthrew : ∀ error middle, mayThrow → rel state middle → promise.threw error middle)
    (hstopped : ∀ middle, rel state middle → promise.stopped middle) :
    Meets allowed (first >>= next) state promise :=
  Meets.seq (hfirst state) hnext (fun error middle hrel => hthrew error middle hrel.1 hrel.2)
    hstopped

/-- A program that does not throw, then the rest. -/
theorem seq_quiet {state : State} {promise : Promise State Error Other}
    (hfirst : Stays allowed False rel first)
    (hnext : ∀ value middle, rel state middle → Meets allowed (next value) middle promise)
    (hstopped : ∀ middle, rel state middle → promise.stopped middle) :
    Meets allowed (first >>= next) state promise :=
  hfirst.seq_meets hnext (fun _ _ => False.elim) hstopped

end Stays

end Yggdrasil.Library
