import Mathlib.Order.Basic

/-!
# Fallible computations on a state

A computation returns a value or fails, and keeps what it wrote before it
failed. `Safe` is the judgement for invariants that speak about a growing
assignment, such as who owns which part of the state: started in a world in
which the invariant holds, a computation ends, whether it failed or not, in a
later world in which it holds again, and a value it returns satisfies the
postcondition there. Facts that later worlds keep are carried by the caller.
`Twin` is the same judgement for two runs from related states, which return the
same value or both fail; a run beside itself is the case that gives `Safe`.
`Ends` is the judgement for one given state: what holds after a return and what
holds after a failure. `Preserves` is the judgement for an invariant of the state
alone.
-/

set_option autoImplicit false

universe u v w

def Fallible (State : Type u) (Value : Type v) : Type (max u v) := State → Option Value × State

namespace Fallible

variable {State : Type u} {Value Result : Type v}

instance : Monad (Fallible State) where
  pure value := fun state => (some value, state)
  bind prog next := fun state =>
    match prog state with
    | (some value, later) => next value later
    | (none, later) => (none, later)

def fail : Fallible State Value := fun state => (none, state)

def read (observe : State → Value) : Fallible State Value :=
  fun state => (some (observe state), state)

def modify (change : State → State) : Fallible State Unit := fun state => (some (), change state)

theorem bind_read (observe : State → Value) (next : Value → Fallible State Result)
    (state : State) : (read observe >>= next) state = next (observe state) state := rfl

theorem bind_modify {Outcome : Type} (change : State → State)
    (next : Unit → Fallible State Outcome) (state : State) :
    (modify change >>= next) state = next () (change state) := rfl

theorem bind_some {prog : Fallible State Value} {state later : State} {value : Value}
    (returned : prog state = (some value, later)) (next : Value → Fallible State Result) :
    (prog >>= next) state = next value later := by
  simp only [bind, returned]

theorem bind_none {prog : Fallible State Value} {state later : State}
    (failed : prog state = (none, later)) (next : Value → Fallible State Result) :
    (prog >>= next) state = (none, later) := by
  simp only [bind, failed]

/-- The body for `0`, `1`, up to `n - 1`; the first failure ends the loop. -/
def forRange : Nat → (Nat → Fallible State Unit) → Fallible State Unit
  | 0, _ => pure ()
  | n + 1, body => do
      forRange n body
      body n

theorem for_range_zero (body : Nat → Fallible State Unit) : forRange 0 body = pure () := rfl

theorem for_range_succ (n : Nat) (body : Nat → Fallible State Unit) :
    forRange (n + 1) body = forRange n body >>= fun _ => body n := rfl

attribute [irreducible] forRange

theorem bind_assoc {Returned Middle Outcome : Type} (prog : Fallible State Returned)
    (next : Returned → Fallible State Middle) (last : Middle → Fallible State Outcome) :
    (prog >>= next) >>= last = prog >>= fun value => next value >>= last := by
  funext state
  simp only [bind]
  cases prog state with
  | mk result reached => cases result <;> rfl

theorem bind_return {Returned Outcome : Type} (prog : Fallible State Returned)
    (next : Returned → Fallible State Unit) (last : Returned → Fallible State Outcome) :
    (prog >>= fun value => next value >>= fun _ => last value) =
      (prog >>= fun value => next value >>= fun _ => pure value) >>= last := by
  rw [bind_assoc]
  apply congrArg (prog >>= ·)
  funext value
  exact (bind_assoc (next value) (fun _ => pure value) last).symm

section

variable {World : Type w} [Preorder World] (Rel : World → State → State → Prop)

def Twin (world : World) (prog : Fallible State Value) (Post : World → Value → Prop) : Prop :=
  ∀ first second, Rel world first second → (prog second).1 = (prog first).1 ∧
    ∃ later, world ≤ later ∧ Rel later (prog first).2 (prog second).2 ∧
      ∀ value, (prog first).1 = some value → Post later value

variable {Rel} {world : World}

theorem twin_pure {value : Value} {Post : World → Value → Prop} (post : Post world value) :
    Twin Rel world (pure value) Post := by
  intro first second related
  refine ⟨rfl, world, le_refl world, related, ?_⟩
  intro returned same
  cases same
  exact post

theorem twin_fail {Post : World → Value → Prop} : Twin Rel world fail Post := by
  intro first second related
  refine ⟨rfl, world, le_refl world, related, ?_⟩
  intro returned same
  cases same

theorem twin_read {observe : State → Value} {Post : World → Value → Prop}
    (same : ∀ first second, Rel world first second → observe second = observe first)
    (post : ∀ first second, Rel world first second → Post world (observe first)) :
    Twin Rel world (read observe) Post := by
  intro first second related
  refine ⟨congrArg some (same first second related), world, le_refl world, related, ?_⟩
  intro returned observed
  cases observed
  exact post first second related

theorem twin_modify {change : State → State} {Post : World → Unit → Prop}
    (keeps : ∀ first second, Rel world first second → Rel world (change first) (change second))
    (post : Post world ()) : Twin Rel world (modify change) Post := by
  intro first second related
  refine ⟨rfl, world, le_refl world, keeps first second related, ?_⟩
  intro returned _
  exact post

theorem twin_bind {prog : Fallible State Value} {next : Value → Fallible State Result}
    {Mid : World → Value → Prop} {Post : World → Result → Prop}
    (before : Twin Rel world prog Mid)
    (after : ∀ later value, world ≤ later → Mid later value → Twin Rel later (next value) Post) :
    Twin Rel world (prog >>= next) Post := by
  intro first second related
  obtain ⟨same, middle, grown, kept, mid⟩ := before first second related
  cases outcome : prog first with
  | mk result reached =>
      cases twinOutcome : prog second with
      | mk twinResult twinReached =>
          rw [outcome, twinOutcome] at same kept
          rw [outcome] at mid
          dsimp only at same kept mid
          subst same
          cases twinResult with
          | none =>
              rw [bind_none outcome, bind_none twinOutcome]
              refine ⟨rfl, middle, grown, kept, ?_⟩
              intro value absent
              cases absent
          | some value =>
              rw [bind_some outcome, bind_some twinOutcome]
              obtain ⟨equal, later, further, done, post⟩ :=
                after middle value grown (mid value rfl) reached twinReached kept
              exact ⟨equal, later, le_trans grown further, done, post⟩

theorem twin_mono {prog : Fallible State Value} {Strong Weak : World → Value → Prop}
    (strong : Twin Rel world prog Strong)
    (weaker : ∀ later value, world ≤ later → Strong later value → Weak later value) :
    Twin Rel world prog Weak := by
  intro first second related
  obtain ⟨same, later, grown, kept, post⟩ := strong first second related
  exact ⟨same, later, grown, kept, fun value returned => weaker later value grown
    (post value returned)⟩

theorem twin_for_range_while {n : Nat} {body : Nat → Fallible State Unit} {Done : Nat → Prop}
    (each : ∀ later i, world ≤ later → i < n → (∀ j, j < i → Done j) →
      Twin Rel later (body i) fun _ _ => Done i) :
    Twin Rel world (forRange n body) fun _ _ => ∀ j, j < n → Done j := by
  induction n with
  | zero =>
      rw [for_range_zero]
      exact twin_pure fun j below => absurd below (Nat.not_lt_zero j)
  | succ n ih =>
      rw [for_range_succ]
      apply twin_bind (ih fun later i grown below => each later i grown (by omega))
      intro later _ grown done
      apply twin_mono (each later n grown (by omega) done)
      intro last _ _ doneLast j below
      rcases Nat.lt_succ_iff_lt_or_eq.mp below with earlier | rfl
      · exact done j earlier
      · exact doneLast

theorem twin_for_range {n : Nat} {body : Nat → Fallible State Unit}
    (each : ∀ later i, world ≤ later → i < n → Twin Rel later (body i) fun _ _ => True) :
    Twin Rel world (forRange n body) fun _ _ => True := by
  apply twin_mono (@twin_for_range_while _ _ _ Rel world n body (fun _ => True) ?_)
  · exact fun _ _ _ _ => trivial
  · exact fun later i grown below _ => each later i grown below

end

section

variable {World : Type w} [Preorder World] (Inv : World → State → Prop)

def Safe (world : World) (prog : Fallible State Value) (Post : World → Value → Prop) : Prop :=
  ∀ state, Inv world state → ∃ later, world ≤ later ∧ Inv later (prog state).2 ∧
    ∀ value, (prog state).1 = some value → Post later value

def Alone (world : World) (first second : State) : Prop := second = first ∧ Inv world first

variable {Inv} {world : World}

theorem safe_iff_twin {prog : Fallible State Value} {Post : World → Value → Prop} :
    Safe Inv world prog Post ↔ Twin (Alone Inv) world prog Post := by
  constructor
  · rintro safe first second ⟨rfl, inv⟩
    obtain ⟨later, grown, kept, post⟩ := safe second inv
    exact ⟨rfl, later, grown, ⟨rfl, kept⟩, post⟩
  · intro twin state inv
    obtain ⟨_, later, grown, ⟨_, kept⟩, post⟩ := twin state state ⟨rfl, inv⟩
    exact ⟨later, grown, kept, post⟩

theorem Twin.safe {Rel : World → State → State → Prop} {prog : Fallible State Value}
    {Post : World → Value → Prop} (twin : Twin Rel world prog Post)
    (alike : ∀ state, Inv world state → Rel world state state)
    (kept : ∀ later first second, Rel later first second → Inv later first) :
    Safe Inv world prog Post := by
  intro state inv
  obtain ⟨_, later, grown, related, post⟩ := twin state state (alike state inv)
  exact ⟨later, grown, kept later _ _ related, post⟩

theorem safe_pure {value : Value} {Post : World → Value → Prop} (post : Post world value) :
    Safe Inv world (pure value) Post :=
  safe_iff_twin.mpr (twin_pure post)

theorem safe_fail {Post : World → Value → Prop} : Safe Inv world fail Post :=
  safe_iff_twin.mpr twin_fail

theorem safe_modify {change : State → State} {Post : World → Unit → Prop}
    (keeps : ∀ state, Inv world state → Inv world (change state)) (post : Post world ()) :
    Safe Inv world (modify change) Post :=
  safe_iff_twin.mpr
    (twin_modify (fun first _ alone => ⟨congrArg change alone.1, keeps first alone.2⟩) post)

theorem safe_bind {prog : Fallible State Value} {next : Value → Fallible State Result}
    {Mid : World → Value → Prop} {Post : World → Result → Prop}
    (first : Safe Inv world prog Mid)
    (second : ∀ later value, world ≤ later → Mid later value →
      Safe Inv later (next value) Post) :
    Safe Inv world (prog >>= next) Post := by
  apply safe_iff_twin.mpr
  apply twin_bind (safe_iff_twin.mp first)
  intro later value grown mid
  exact safe_iff_twin.mp (second later value grown mid)

theorem safe_mono {prog : Fallible State Value} {Strong Weak : World → Value → Prop}
    (strong : Safe Inv world prog Strong)
    (weaker : ∀ later value, world ≤ later → Strong later value → Weak later value) :
    Safe Inv world prog Weak :=
  safe_iff_twin.mpr (twin_mono (safe_iff_twin.mp strong) weaker)

theorem safe_for_range_while {n : Nat} {body : Nat → Fallible State Unit} {Done : Nat → Prop}
    (each : ∀ later i, world ≤ later → i < n → (∀ j, j < i → Done j) →
      Safe Inv later (body i) fun _ _ => Done i) :
    Safe Inv world (forRange n body) fun _ _ => ∀ j, j < n → Done j := by
  apply safe_iff_twin.mpr
  apply twin_for_range_while
  intro later i grown below done
  exact safe_iff_twin.mp (each later i grown below done)

end

section

/-- Started in the state, the computation returns into the one predicate or
fails into the other. -/
def Ends (prog : Fallible State Value) (state : State) (Returned : Value → State → Prop)
    (Failed : State → Prop) : Prop :=
  (∀ value later, prog state = (some value, later) → Returned value later) ∧
    ∀ later, prog state = (none, later) → Failed later

variable {state : State} {Returned : Value → State → Prop} {Failed : State → Prop}

theorem ends_pure {value : Value} (returned : Returned value state) :
    Ends (pure value) state Returned Failed := by
  constructor
  · intro other later same
    cases same
    exact returned
  · intro later same
    cases same

theorem ends_fail (failed : Failed state) : Ends fail state Returned Failed := by
  constructor
  · intro value later same
    cases same
  · intro later same
    cases same
    exact failed

theorem ends_mono {prog : Fallible State Value} {Strong : Value → State → Prop}
    {Worse : State → Prop} (ends : Ends prog state Strong Worse)
    (returned : ∀ value later, Strong value later → Returned value later)
    (failed : ∀ later, Worse later → Failed later) : Ends prog state Returned Failed :=
  ⟨fun value later same => returned value later (ends.1 value later same),
    fun later same => failed later (ends.2 later same)⟩

theorem ends_and {prog : Fallible State Value} {Other : Value → State → Prop}
    {Broken : State → Prop} (left : Ends prog state Returned Failed)
    (right : Ends prog state Other Broken) :
    Ends prog state (fun value later => Returned value later ∧ Other value later)
      fun later => Failed later ∧ Broken later :=
  ⟨fun value later same => ⟨left.1 value later same, right.1 value later same⟩,
    fun later same => ⟨left.2 later same, right.2 later same⟩⟩

theorem ends_bind {prog : Fallible State Value} {next : Value → Fallible State Result}
    {Middle : Value → State → Prop} {Final : Result → State → Prop}
    (first : Ends prog state Middle Failed)
    (second : ∀ value later, Middle value later → Ends (next value) later Final Failed) :
    Ends (prog >>= next) state Final Failed := by
  cases outcome : prog state with
  | mk result reached =>
      unfold Ends
      cases result with
      | none =>
          rw [bind_none outcome]
          refine ⟨fun value later same => ?_, fun later same => ?_⟩
          · cases same
          · cases same
            exact first.2 reached outcome
      | some value =>
          rw [bind_some outcome]
          exact second value reached (first.1 value reached outcome)

theorem ends_bind_read {observe : State → Value} {next : Value → Fallible State Result}
    {Final : Result → State → Prop}
    (second : Ends (next (observe state)) state Final Failed) :
    Ends (read observe >>= next) state Final Failed :=
  second

theorem ends_bind_modify {change : State → State} {Outcome : Type}
    {next : Unit → Fallible State Outcome} {Final : Outcome → State → Prop}
    (second : Ends (next ()) (change state) Final Failed) :
    Ends (modify change >>= next) state Final Failed :=
  second

theorem ends_modify {change : State → State} {Returned : Unit → State → Prop}
    (returned : Returned () (change state)) : Ends (modify change) state Returned Failed := by
  constructor
  · intro value later same
    cases same
    exact returned
  · intro later same
    cases same

/-- The loop rule: `Inv i` holds before round `i`. -/
theorem ends_for_range {n : Nat} {body : Nat → Fallible State Unit} {Inv : Nat → State → Prop}
    (initial : Inv 0 state)
    (each : ∀ i later, i < n → Inv i later →
      Ends (body i) later (fun _ last => Inv (i + 1) last) Failed) :
    Ends (forRange n body) state (fun _ last => Inv n last) Failed := by
  induction n with
  | zero =>
      rw [for_range_zero]
      exact ends_pure initial
  | succ n ih =>
      rw [for_range_succ]
      apply ends_bind (ih fun i later below => each i later (by omega))
      intro _ later reached
      exact each n later (by omega) reached

end

section

/-- Whether it returns or fails, the program keeps the invariant. -/
def Preserves (Inv : State → Prop) (prog : Fallible State Value) : Prop :=
  ∀ state, Inv state → Inv (prog state).2

variable {Inv : State → Prop}

theorem preserves_pure (value : Value) : Preserves Inv (pure value) := fun _ inv => inv

theorem preserves_fail : Preserves Inv (fail : Fallible State Value) := fun _ inv => inv

theorem preserves_read (observe : State → Value) : Preserves Inv (read observe) :=
  fun _ inv => inv

theorem preserves_modify {change : State → State}
    (keeps : ∀ state, Inv state → Inv (change state)) : Preserves Inv (modify change) :=
  keeps

theorem preserves_bind {prog : Fallible State Value} {next : Value → Fallible State Result}
    (first : Preserves Inv prog) (second : ∀ value, Preserves Inv (next value)) :
    Preserves Inv (prog >>= next) := by
  intro state inv
  have kept := first state inv
  cases outcome : prog state with
  | mk result later =>
      rw [outcome] at kept
      cases result with
      | none =>
          rw [bind_none outcome]
          exact kept
      | some value =>
          rw [bind_some outcome]
          exact second value later kept

theorem preserves_for_range {n : Nat} {body : Nat → Fallible State Unit}
    (each : ∀ i, Preserves Inv (body i)) : Preserves Inv (forRange n body) := by
  induction n with
  | zero =>
      rw [for_range_zero]
      exact preserves_pure ()
  | succ n ih =>
      rw [for_range_succ]
      exact preserves_bind ih fun _ => each n

end

end Fallible
