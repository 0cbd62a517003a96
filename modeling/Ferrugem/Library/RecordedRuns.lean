import Ferrugem.Library.FallibleState

/-!
# Runs with a log

A computation on a state beside a log of what it has done. `Erases` says that a
recorded computation is a plain one once the log is left out: it returns the
same value, fails where that fails, and ends in the same state. The rules follow
the program, so a recorded program is compared with the plain one line by line.
-/

set_option autoImplicit false

universe u v w

structure Recorded (State : Type u) (Event : Type v) where
  state : State
  log : List Event

namespace Fallible

variable {State : Type u} {Event : Type v} {Value Result : Type}

def lift (prog : Fallible State Value) : Fallible (Recorded State Event) Value := fun recorded =>
  ((prog recorded.state).1, { recorded with state := (prog recorded.state).2 })

def record (event : State → Event) : Fallible (Recorded State Event) Unit :=
  modify fun recorded => { recorded with log := recorded.log ++ [event recorded.state] }

def Erases (recorded : Fallible (Recorded State Event) Value) (plain : Fallible State Value) :
    Prop :=
  ∀ start, (recorded start).1 = (plain start.state).1 ∧
    (recorded start).2.state = (plain start.state).2

theorem erases_pure (value : Value) :
    Erases (pure value : Fallible (Recorded State Event) Value) (pure value) :=
  fun _ => ⟨rfl, rfl⟩

theorem erases_fail : Erases (fail : Fallible (Recorded State Event) Value) fail :=
  fun _ => ⟨rfl, rfl⟩

theorem erases_lift (prog : Fallible State Value) :
    Erases (lift prog : Fallible (Recorded State Event) Value) prog :=
  fun _ => ⟨rfl, rfl⟩

theorem erases_bind {recorded : Fallible (Recorded State Event) Value}
    {plain : Fallible State Value} {next : Value → Fallible (Recorded State Event) Result}
    {plainNext : Value → Fallible State Result} (first : Erases recorded plain)
    (second : ∀ value, Erases (next value) (plainNext value)) :
    Erases (recorded >>= next) (plain >>= plainNext) := by
  intro start
  obtain ⟨same, reached⟩ := first start
  cases outcome : recorded start with
  | mk result later =>
      cases plainOutcome : plain start.state with
      | mk plainResult plainLater =>
          rw [outcome, plainOutcome] at same reached
          dsimp only at same reached
          subst same reached
          cases result with
          | none =>
              rw [bind_none outcome, bind_none plainOutcome]
              exact ⟨rfl, rfl⟩
          | some value =>
              rw [bind_some outcome, bind_some plainOutcome]
              exact second value later

theorem erases_bind_value {recorded : Fallible (Recorded State Event) Value} {value : Value}
    {next : Value → Fallible (Recorded State Event) Result} {plain : Fallible State Result}
    (first : Erases recorded (pure value)) (second : Erases (next value) plain) :
    Erases (recorded >>= next) plain := by
  intro start
  obtain ⟨same, reached⟩ := first start
  rw [bind_some (Prod.ext same rfl)]
  obtain ⟨result, state⟩ := second (recorded start).2
  rw [reached] at result state
  exact ⟨result, state⟩

theorem erases_bind_fail {recorded : Fallible (Recorded State Event) Value}
    (next : Value → Fallible (Recorded State Event) Result) (first : Erases recorded fail) :
    Erases (recorded >>= next) fail := by
  intro start
  obtain ⟨same, reached⟩ := first start
  rw [bind_none (Prod.ext same rfl)]
  exact ⟨rfl, reached⟩

theorem erases_bind_record {event : State → Event}
    {next : Unit → Fallible (Recorded State Event) Result} {plain : Fallible State Result}
    (second : Erases (next ()) plain) : Erases (record event >>= next) plain :=
  erases_bind_value (fun _ => ⟨rfl, rfl⟩) second

theorem erases_bind_observe {Observed : Type} {observe : Recorded State Event → Observed}
    {next : Observed → Fallible (Recorded State Event) Result} {plain : Fallible State Result}
    (second : ∀ observed, Erases (next observed) plain) : Erases (read observe >>= next) plain :=
  fun start => second (observe start) start

theorem erases_then_record {recorded : Fallible (Recorded State Event) Unit}
    {plain : Fallible State Unit} {event : State → Event} (first : Erases recorded plain) :
    Erases (recorded >>= fun _ => record event) plain := by
  intro start
  obtain ⟨same, reached⟩ := first start
  cases outcome : recorded start with
  | mk result later =>
      rw [outcome] at same reached
      cases result with
      | none =>
          rw [bind_none outcome]
          exact ⟨same, reached⟩
      | some value =>
          rw [bind_some outcome]
          exact ⟨same, reached⟩

theorem erases_for_range {n : Nat} {body : Nat → Fallible (Recorded State Event) Unit}
    {plain : Nat → Fallible State Unit} (each : ∀ i, i < n → Erases (body i) (plain i)) :
    Erases (forRange n body) (forRange n plain) := by
  induction n with
  | zero =>
      rw [for_range_zero, for_range_zero]
      exact erases_pure ()
  | succ n ih =>
      rw [for_range_succ, for_range_succ]
      exact erases_bind (ih fun i below => each i (by omega)) fun _ => each n (by omega)

section

variable {start : Recorded State Event}

theorem ends_bind_observe {Observed : Type} {observe : Recorded State Event → Observed}
    {next : Observed → Fallible (Recorded State Event) Result}
    {Final : Result → Recorded State Event → Prop} {Failed : Recorded State Event → Prop}
    (second : Ends (next (observe start)) start Final Failed) :
    Ends (read observe >>= next) start Final Failed :=
  second

theorem ends_bind_lift {prog : Fallible State Value} {Outcome : Type}
    {next : Value → Fallible (Recorded State Event) Outcome}
    {Final : Outcome → Recorded State Event → Prop} {Failed : Recorded State Event → Prop}
    (failed : ∀ later, prog start.state = (none, later) →
      Failed { start with state := later })
    (second : ∀ value later, prog start.state = (some value, later) →
      Ends (next value) { start with state := later } Final Failed) :
    Ends (lift prog >>= next) start Final Failed := by
  cases outcome : prog start.state with
  | mk result later =>
      have lifted : lift prog start =
          (result, ({ start with state := later } : Recorded State Event)) := by
        unfold lift
        rw [outcome]
      unfold Ends
      cases result with
      | none =>
          rw [bind_none lifted]
          refine ⟨fun value last same => ?_, fun last same => ?_⟩
          · cases same
          · cases same
            exact failed later outcome
      | some value =>
          rw [bind_some lifted]
          exact second value later outcome

theorem ends_record {event : State → Event} {Returned : Unit → Recorded State Event → Prop}
    {Failed : Recorded State Event → Prop}
    (returned : Returned () { start with log := start.log ++ [event start.state] }) :
    Ends (record event) start Returned Failed :=
  ends_modify returned

theorem ends_bind_record {event : State → Event} {Outcome : Type}
    {next : Unit → Fallible (Recorded State Event) Outcome}
    {Final : Outcome → Recorded State Event → Prop} {Failed : Recorded State Event → Prop}
    (second : Ends (next ()) { start with log := start.log ++ [event start.state] } Final Failed) :
    Ends (record event >>= next) start Final Failed :=
  second

end

def Added (Allowed : Event → Prop) (start later : Recorded State Event) : Prop :=
  ∃ added, later.log = start.log ++ added ∧ ∀ event ∈ added, Allowed event

section

variable {Allowed : Event → Prop} {start middle later : Recorded State Event}

theorem Added.refl (Allowed : Event → Prop) (start : Recorded State Event) :
    Added Allowed start start :=
  ⟨[], (List.append_nil _).symm, nofun⟩

theorem Added.trans (left : Added Allowed start middle) (right : Added Allowed middle later) :
    Added Allowed start later := by
  obtain ⟨first, log, allowed⟩ := left
  obtain ⟨second, further, allowedToo⟩ := right
  refine ⟨first ++ second, by rw [further, log, List.append_assoc], ?_⟩
  intro event member
  rcases List.mem_append.mp member with earlier | last
  · exact allowed event earlier
  · exact allowedToo event last

theorem Added.all (added : Added Allowed start later) (before : ∀ event ∈ start.log, Allowed event) :
    ∀ event ∈ later.log, Allowed event := by
  obtain ⟨entries, log, allowed⟩ := added
  intro event member
  rw [log] at member
  rcases List.mem_append.mp member with earlier | last
  · exact before event earlier
  · exact allowed event last

end

def Logs (Allowed : Event → Prop) (prog : Fallible (Recorded State Event) Value)
    (Post : Value → Prop) : Prop :=
  ∀ start, Ends prog start (fun value later => Post value ∧ Added Allowed start later)
    (Added Allowed start)

section

variable {Allowed : Event → Prop}

theorem logs_pure {value : Value} {Post : Value → Prop} (post : Post value) :
    Logs Allowed (pure value : Fallible (Recorded State Event) Value) Post :=
  fun start => ends_pure ⟨post, Added.refl Allowed start⟩

theorem logs_fail {Post : Value → Prop} :
    Logs Allowed (fail : Fallible (Recorded State Event) Value) Post :=
  fun start => ends_fail (Added.refl Allowed start)

theorem logs_bind {prog : Fallible (Recorded State Event) Value}
    {next : Value → Fallible (Recorded State Event) Result} {Middle : Value → Prop}
    {Post : Result → Prop} (first : Logs Allowed prog Middle)
    (second : ∀ value, Middle value → Logs Allowed (next value) Post) :
    Logs Allowed (prog >>= next) Post := by
  intro start
  apply ends_bind (first start)
  rintro value later ⟨middle, added⟩
  apply ends_mono (second value middle later)
  · exact fun _ _ done => ⟨done.1, added.trans done.2⟩
  · exact fun _ failed => added.trans failed

theorem logs_bind_record {event : State → Event} {Outcome : Type}
    {next : Unit → Fallible (Recorded State Event) Outcome} {Post : Outcome → Prop}
    (allowed : ∀ state, Allowed (event state)) (second : Logs Allowed (next ()) Post) :
    Logs Allowed (record event >>= next) Post := by
  intro start
  have added : Added Allowed start { start with log := start.log ++ [event start.state] } :=
    ⟨[event start.state], rfl, List.forall_mem_singleton.mpr (allowed start.state)⟩
  apply ends_bind_record
  apply ends_mono (second _)
  · exact fun _ _ done => ⟨done.1, added.trans done.2⟩
  · exact fun _ failed => added.trans failed

theorem logs_for_range {n : Nat} {body : Nat → Fallible (Recorded State Event) Unit}
    (each : ∀ i, i < n → Logs Allowed (body i) fun _ => True) :
    Logs Allowed (forRange n body) fun _ => True := by
  intro start
  apply ends_mono (@ends_for_range _ start _ n body (fun _ later => Added Allowed start later)
    (Added.refl Allowed start) ?_)
  · exact fun _ _ added => ⟨trivial, added⟩
  · exact fun _ failed => failed
  · intro i later below added
    apply ends_mono (each i below later)
    · exact fun _ _ done => added.trans done.2
    · exact fun _ failed => added.trans failed

theorem ends_bind_value {prog : Fallible (Recorded State Event) Value} {value : Value}
    {Post : Value → Prop} {Outcome : Type} {next : Value → Fallible (Recorded State Event) Outcome}
    {start now : Recorded State Event} {Final : Outcome → Recorded State Event → Prop}
    {Failed : Recorded State Event → Prop} (before : Added Allowed start now)
    (erases : Erases prog (pure value)) (logs : Logs Allowed prog Post)
    (second : ∀ later, later.state = now.state → Added Allowed start later →
      Ends (next value) later Final Failed) :
    Ends (prog >>= next) now Final Failed := by
  obtain ⟨same, reached⟩ := erases now
  have outcome : prog now = (some value, (prog now).2) := Prod.ext same rfl
  unfold Ends
  rw [bind_some outcome]
  exact second _ reached (before.trans ((logs now).1 value _ outcome).2)

end

end Fallible
