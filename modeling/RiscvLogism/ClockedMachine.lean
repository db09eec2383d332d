import Mathlib.Data.List.Chain
import Mathlib.Logic.Function.Iterate

/-!
# Runs of clocked machines

A synchronous design is a state together with a function which takes the
state across one event: a clock edge with the values held on the inputs, or
an asynchronous edge on some other line.  This file is independent of any
particular design.  It provides runs over finite event sequences, the
invariant rule, the rule for a pair of related runs, and the rule for
deleting the events of a run which nobody observes.
-/

namespace Clocked

variable {State Event Obs : Type*}

def run (step : State → Event → State) (state : State)
    (events : List Event) : State :=
  events.foldl step state

section Runs

variable (step : State → Event → State)

@[simp] theorem run_cons (state : State) (event : Event)
    (events : List Event) :
    run step state (event :: events) =
      run step (step state event) events := rfl

theorem run_replicate_succ (event : Event) (k : ℕ) (state : State) :
    run step state (List.replicate (k + 1) event) =
      step (run step state (List.replicate k event)) event := by
  rw [List.replicate_succ', run, List.foldl_append]
  rfl

theorem run_replicate_add (event : Event) (m n : ℕ) (state : State) :
    run step state (List.replicate (m + n) event) =
      run step (run step state (List.replicate m event))
        (List.replicate n event) := by
  rw [← List.replicate_append_replicate, run, List.foldl_append]
  rfl

theorem run_replicate (event : Event) (k : ℕ) (state : State) :
    run step state (List.replicate k event) =
      (fun s => step s event)^[k] state := by
  induction k generalizing state with
  | zero => rfl
  | succ k ih =>
      rw [List.replicate_succ, run_cons, Function.iterate_succ_apply]
      exact ih _

theorem run_replicate_two_mul (event : Event) (k : ℕ) (state : State) :
    run step state (List.replicate (2 * k) event) =
      (fun s => step (step s event) event)^[k] state := by
  induction k generalizing state with
  | zero => rfl
  | succ k ih =>
      rw [show 2 * (k + 1) = 2 * k + 1 + 1 by omega]
      simp only [List.replicate_succ, run_cons, Function.iterate_succ_apply]
      exact ih _

end Runs

/-! ## Invariants -/

/-- Every event of the run satisfies `Side` in the state in which it
occurs. -/
def Along (step : State → Event → State) (Side : State → Event → Prop) :
    State → List Event → Prop
  | _, [] => True
  | state, event :: rest =>
      Side state event ∧ Along step Side (step state event) rest

theorem run_invariant_of_along
    {step : State → Event → State} {Side : State → Event → Prop}
    {Inv : State → Prop}
    (hstep : ∀ state event,
      Side state event → Inv state → Inv (step state event))
    {state : State} (hinv : Inv state)
    {events : List Event} (hside : Along step Side state events) :
    Inv (run step state events) := by
  induction events generalizing state with
  | nil => exact hinv
  | cons event rest ih =>
      exact ih (hstep state event hside.1 hinv) hside.2

theorem along_of_forall
    {step : State → Event → State} {Allowed : Event → Prop}
    (state : State) {events : List Event}
    (hall : ∀ event ∈ events, Allowed event) :
    Along step (fun _ event => Allowed event) state events := by
  induction events generalizing state with
  | nil => trivial
  | cons event rest ih =>
      refine ⟨hall event (List.mem_cons_self ..), ih _ ?_⟩
      intro later hlater
      exact hall later (List.mem_cons_of_mem _ hlater)

theorem run_invariant_of_forall
    {step : State → Event → State} {Inv : State → Prop}
    (Allowed : Event → Prop)
    (hstep : ∀ state event,
      Allowed event → Inv state → Inv (step state event))
    {state : State} (hinv : Inv state)
    {events : List Event} (hall : ∀ event ∈ events, Allowed event) :
    Inv (run step state events) :=
  run_invariant_of_along hstep hinv (along_of_forall state hall)

inductive Reachable (step : State → Event → State)
    (Start : State → Prop) : State → Prop
  | start {state : State} (hstart : Start state) :
      Reachable step Start state
  | next {state : State} (hreach : Reachable step Start state)
      (event : Event) : Reachable step Start (step state event)

theorem Reachable.run
    {step : State → Event → State} {Start : State → Prop} {state : State}
    (hreach : Reachable step Start state) (events : List Event) :
    Reachable step Start (run step state events) := by
  induction events generalizing state with
  | nil => exact hreach
  | cons event rest ih => exact ih (hreach.next event)

theorem Reachable.invariant
    {step : State → Event → State} {Start Inv : State → Prop}
    (hstart : ∀ state, Start state → Inv state)
    (hstep : ∀ state event, Inv state → Inv (step state event))
    {state : State} (hreach : Reachable step Start state) :
    Inv state := by
  induction hreach with
  | start hs => exact hstart _ hs
  | next _ event ih => exact hstep _ event ih

theorem Reachable.invariant_of_reachable
    {step : State → Event → State} {Start Inv : State → Prop}
    (hstart : ∀ state, Start state → Inv state)
    (hstep : ∀ state event, Reachable step Start state → Inv state →
      Inv (step state event))
    {state : State} (hreach : Reachable step Start state) :
    Inv state := by
  induction hreach with
  | start hs => exact hstart _ hs
  | next hbefore event ih => exact hstep _ event hbefore ih

theorem along_replicate_iff (step : State → Event → State)
    (Side : State → Event → Prop) (state : State) (event : Event) (n : ℕ) :
    Along step Side state (List.replicate n event) ↔
      ∀ i < n, Side (run step state (List.replicate i event)) event := by
  induction n generalizing state with
  | zero => exact iff_of_true trivial fun i hi => absurd hi (Nat.not_lt_zero i)
  | succ n ih =>
      rw [List.replicate_succ, Along, ih]
      constructor
      · rintro ⟨hfirst, hrest⟩ i hi
        cases i with
        | zero => exact hfirst
        | succ i => exact hrest i (Nat.lt_of_succ_lt_succ hi)
      · intro hall
        refine ⟨hall 0 (Nat.zero_lt_succ n), ?_⟩
        intro i hi
        exact hall (i + 1) (Nat.succ_lt_succ hi)

/-! ## Pairs of runs -/

/-- Two runs whose events are paired up, every pair allowed in the state the
first run has reached. -/
def Paired {Event' : Type*} (step : State → Event → State)
    (Allowed : State → Event → Event' → Prop) :
    State → List Event → List Event' → Prop
  | _, [], [] => True
  | state, event :: rest, event' :: rest' =>
      Allowed state event event' ∧
        Paired step Allowed (step state event) rest rest'
  | _, _, _ => False

theorem run_related
    {State' Event' : Type*}
    {step : State → Event → State} {step' : State' → Event' → State'}
    {Allowed : State → Event → Event' → Prop}
    {Rel : State → State' → Prop}
    (hstep : ∀ state state' event event',
      Allowed state event event' → Rel state state' →
        Rel (step state event) (step' state' event'))
    {state : State} {state' : State'} (hrel : Rel state state')
    {events : List Event} {events' : List Event'}
    (hpaired : Paired step Allowed state events events') :
    Rel (run step state events) (run step' state' events') := by
  induction events generalizing state state' events' with
  | nil =>
      cases events' with
      | nil => exact hrel
      | cons event' rest' => exact hpaired.elim
  | cons event rest ih =>
      cases events' with
      | nil => exact hpaired.elim
      | cons event' rest' =>
          exact ih (hstep _ _ _ _ hpaired.1 hrel) hpaired.2

theorem run_related_of_step
    {State' : Type*}
    {step : State → Event → State} {step' : State' → Event → State'}
    {Rel : State → State' → Prop}
    (hstep : ∀ state state' event,
      Rel state state' → Rel (step state event) (step' state' event))
    {state : State} {state' : State'} (hrel : Rel state state')
    (events : List Event) :
    Rel (run step state events) (run step' state' events) := by
  induction events generalizing state state' with
  | nil => exact hrel
  | cons event rest ih => exact ih (hstep state state' event hrel)

theorem run_map_eq
    {Event' Stimulus : Type*}
    {step : State → Event → State} {step' : State → Event' → State}
    (drive : Stimulus → Event) (drive' : Stimulus → Event')
    (Allowed : Stimulus → Prop)
    (hstep : ∀ state stimulus, Allowed stimulus →
      step state (drive stimulus) = step' state (drive' stimulus))
    (state : State) {stimuli : List Stimulus}
    (hall : ∀ stimulus ∈ stimuli, Allowed stimulus) :
    run step state (stimuli.map drive) =
      run step' state (stimuli.map drive') := by
  induction stimuli generalizing state with
  | nil => rfl
  | cons stimulus rest ih =>
      have hfirst := hall stimulus (List.mem_cons_self ..)
      have hrest : ∀ later ∈ rest, Allowed later := by
        intro later hlater
        exact hall later (List.mem_cons_of_mem _ hlater)
      simp only [List.map_cons, run_cons]
      rw [hstep state stimulus hfirst]
      exact ih _ hrest

theorem iterate_commutes
    {State' : Type*} {step : State → State} {step' : State' → State'}
    (Inv : State → Prop) (abs : State → State')
    (hinv : ∀ state, Inv state → Inv (step state))
    (hstep : ∀ state, Inv state → abs (step state) = step' (abs state))
    (k : ℕ) {state : State} (hstate : Inv state) :
    abs (step^[k] state) = step'^[k] (abs state) := by
  induction k generalizing state with
  | zero => rfl
  | succ k ih =>
      rw [Function.iterate_succ_apply, Function.iterate_succ_apply,
        ih (hinv state hstate), hstep state hstate]

theorem iterate_related
    {State' : Type*} {step : State → State} {step' : State' → State'}
    {Side : State → Prop} {Rel : State → State' → Prop}
    (hstep : ∀ state state',
      Side state → Rel state state' → Rel (step state) (step' state'))
    {state : State} {state' : State'} (hrel : Rel state state') (k : ℕ)
    (hside : ∀ j < k, Side (step^[j] state)) :
    Rel (step^[k] state) (step'^[k] state') := by
  induction k with
  | zero => exact hrel
  | succ k ih =>
      have hbefore := ih fun j hj => hside j (Nat.lt_succ_of_lt hj)
      rw [Function.iterate_succ_apply', Function.iterate_succ_apply']
      exact hstep _ _ (hside k (Nat.lt_succ_self k)) hbefore

/-! ## Views -/

/-- A view to which each event gives a new value or none shows the value it
was given last. -/
theorem view_run_eq_last (step : State → Event → State)
    (view : State → Obs) (gives : Event → Option Obs)
    (hstep : ∀ state event,
      view (step state event) = (gives event).getD (view state))
    (state : State) (events : List Event) :
    view (run step state events) =
      (events.reverse.findSome? gives).getD (view state) := by
  induction events generalizing state with
  | nil => rfl
  | cons event rest ih =>
      rw [run_cons, ih, hstep, List.reverse_cons, List.findSome?_append,
        Option.getD_or]
      cases hgives : gives event with
      | some value => simp [hgives]
      | none => simp [hgives]

/-! ## Samples -/

/-- What a monitor sees of each event, in the state in which the event
occurs. -/
def samples (step : State → Event → State) (sample : State → Event → Obs) :
    State → List Event → List Obs
  | _, [] => []
  | state, event :: rest =>
      sample state event :: samples step sample (step state event) rest

/-- A check of every two consecutive samples is a condition on every event
but the last. -/
theorem isChain_samples_iff
    {step : State → Event → State} {sample : State → Event → Obs}
    {R : Obs → Obs → Prop} {Side : State → Event → Prop}
    (hR : ∀ state event event',
      R (sample state event) (sample (step state event) event') ↔
        Side state event)
    (state : State) (events : List Event) :
    (samples step sample state events).IsChain R ↔
      Along step Side state events.dropLast := by
  induction events generalizing state with
  | nil => simp [samples, Along]
  | cons event rest ih =>
      cases rest with
      | nil => simp [samples, Along]
      | cons event' rest' =>
          have hrest := ih (step state event)
          simp only [samples, List.isChain_cons_cons, hR,
            List.dropLast_cons_cons, Along] at hrest ⊢
          rw [hrest]

/-! ## Emissions -/

/-- What the machine puts on a port in the course of a run: each event may
emit one value, which depends on the state in which the event occurs. -/
def emitted (step : State → Event → State)
    (out : State → Event → Option Obs) : State → List Event → List Obs
  | _, [] => []
  | state, event :: rest =>
      (out state event).toList ++ emitted step out (step state event) rest

/-- A machine which takes two events for one of another machine, and emits
with the second of them what the other one emits, emits the same sequence. -/
theorem emitted_two_steps
    {State' Event' : Type*} {step : State → Event → State}
    {step' : State' → Event' → State'} {out : State → Event → Option Obs}
    {out' : State' → Event' → Option Obs} {event : Event} {event' : Event'}
    (Inv : State → Prop) (abs : State → State')
    (hinv : ∀ state, Inv state → Inv (step (step state event) event))
    (habs : ∀ state, Inv state →
      abs (step (step state event) event) = step' (abs state) event')
    (hfirst : ∀ state, Inv state → out state event = none)
    (hsecond : ∀ state, Inv state →
      out (step state event) event = out' (abs state) event')
    (k : ℕ) {state : State} (hstate : Inv state) :
    emitted step out state (List.replicate (2 * k) event) =
      emitted step' out' (abs state) (List.replicate k event') := by
  induction k generalizing state with
  | zero => rfl
  | succ k ih =>
      rw [show 2 * (k + 1) = 2 * k + 1 + 1 by omega]
      simp only [List.replicate_succ, emitted]
      rw [hfirst state hstate, hsecond state hstate, ih (hinv state hstate),
        habs state hstate]
      rfl

/-! ## Deleting unobserved events -/

/-- If dropping an event which `keep` rejects leaves the states related, and
kept events move related states together, then the run is related to the run
of the kept events. -/
theorem run_filter_related
    {step : State → Event → State} {keep : Event → Bool}
    {Side : State → Event → Prop} {Rel : State → State → Prop}
    (hkeep : ∀ state state' event, keep event = true →
      Rel state state' → Rel (step state event) (step state' event))
    (hdrop : ∀ state state' event, keep event = false →
      Side state event → Rel state state' → Rel (step state event) state')
    {state state' : State} (hrel : Rel state state')
    {events : List Event} (hside : Along step Side state events) :
    Rel (run step state events) (run step state' (events.filter keep)) := by
  induction events generalizing state state' with
  | nil => exact hrel
  | cons event rest ih =>
      cases hevent : keep event with
      | true =>
          rw [List.filter_cons_of_pos hevent]
          exact ih (hkeep state state' event hevent hrel) hside.2
      | false =>
          rw [List.filter_cons_of_neg (Bool.eq_false_iff.mp hevent)]
          exact ih (hdrop state state' event hevent hside.1 hrel) hside.2

/-- The views of the state just after each of the events selected by
`tick`. -/
def observed (step : State → Event → State)
    (tick : State → Event → Bool) (view : State → Obs) :
    State → List Event → List Obs
  | _, [] => []
  | state, event :: rest =>
      if tick state event then
        view (step state event) ::
          observed step tick view (step state event) rest
      else
        observed step tick view (step state event) rest

/-- If dropping an event which `keep` rejects leaves the states related, and
kept events move related states together with equal views, then the events
rejected by `keep` can be deleted without changing what is observed. -/
theorem observed_filter
    {step : State → Event → State} {tick : State → Event → Bool}
    {view : State → Obs} {keep : Event → Bool}
    {Side : State → Event → Prop} {Rel : State → State → Prop}
    (hkeep : ∀ state state' event, keep event = true →
      Rel state state' →
        Rel (step state event) (step state' event) ∧
          tick state event = tick state' event ∧
          (tick state event = true →
            view (step state event) = view (step state' event)))
    (hdrop : ∀ state state' event, keep event = false →
      Side state event → Rel state state' →
        Rel (step state event) state' ∧ tick state event = false)
    {state state' : State} (hrel : Rel state state')
    {events : List Event} (hside : Along step Side state events) :
    observed step tick view state events =
      observed step tick view state' (events.filter keep) := by
  induction events generalizing state state' with
  | nil => rfl
  | cons event rest ih =>
      cases hevent : keep event with
      | true =>
          obtain ⟨hnext, htick, hview⟩ := hkeep state state' event hevent hrel
          have hrest := ih hnext hside.2
          simp only [List.filter_cons, hevent, if_true, observed]
          rw [← htick]
          cases hobs : tick state event with
          | true => simp [hview hobs, hrest]
          | false => simpa using hrest
      | false =>
          obtain ⟨hnext, htick⟩ :=
            hdrop state state' event hevent hside.1 hrel
          have hrest := ih hnext hside.2
          simpa [List.filter_cons, hevent, observed, htick] using hrest

end Clocked
