import Mathlib

/-!
# Machines and their runs

A system that takes one request after another: a step takes a state and an input to an output and
the next state. The inputs of a run are arbitrary, so a statement about every run is one about every
client. The rules of this module are the inductions over runs: an invariant of the states
(`Machine.run_invariant`, `Machine.events_invariant`), an invariant that relates the state to
everything that happened so far (`Machine.history_invariant`), and a preorder along which the states
move (`Machine.run_mono`).
-/

namespace Volparossa

universe u v w

/-- A machine with states `σ`, inputs `ι` and outputs `ο`. -/
structure Machine (σ : Type u) (ι : Type v) (ο : Type w) where
  step : σ → ι → ο × σ

/-- One step of a run. -/
structure Machine.Event (σ : Type u) (ι : Type v) (ο : Type w) where
  before : σ
  input : ι
  output : ο
  after : σ

namespace Machine

variable {σ : Type u} {ι : Type v} {ο : Type w} (m : Machine σ ι ο)

/-- The state after one input. -/
def next (s : σ) (i : ι) : σ := (m.step s i).2

/-- The step that an input causes. -/
def event (s : σ) (i : ι) : Event σ ι ο := ⟨s, i, (m.step s i).1, m.next s i⟩

/-- The state after a sequence of inputs. -/
def run (s : σ) : List ι → σ
  | [] => s
  | i :: inputs => run (m.next s i) inputs

/-- The steps of a run. -/
def events (s : σ) : List ι → List (Event σ ι ο)
  | [] => []
  | i :: inputs => m.event s i :: events (m.next s i) inputs

@[simp] theorem run_nil (s : σ) : m.run s [] = s := rfl

@[simp] theorem run_cons (s : σ) (i : ι) (inputs : List ι) :
    m.run s (i :: inputs) = m.run (m.next s i) inputs := rfl

@[simp] theorem events_nil (s : σ) : m.events s [] = [] := rfl

@[simp] theorem events_cons (s : σ) (i : ι) (inputs : List ι) :
    m.events s (i :: inputs) = m.event s i :: m.events (m.next s i) inputs := rfl

theorem run_append (s : σ) (inputs inputs' : List ι) :
    m.run s (inputs ++ inputs') = m.run (m.run s inputs) inputs' := by
  induction inputs generalizing s with
  | nil => rfl
  | cons i inputs ih => exact ih (m.next s i)

theorem events_append (s : σ) (inputs inputs' : List ι) :
    m.events s (inputs ++ inputs') = m.events s inputs ++ m.events (m.run s inputs) inputs' := by
  induction inputs generalizing s with
  | nil => rfl
  | cons i inputs ih =>
    rw [List.cons_append, events_cons, ih, events_cons, run_cons, List.cons_append]

/-- The state after a run is the one after its last step. -/
theorem run_of_getLast {s : σ} {inputs : List ι} {e : Event σ ι ο}
    (h : (m.events s inputs).getLast? = some e) : m.run s inputs = e.after := by
  induction inputs using List.reverseRecOn with
  | nil => cases h
  | append_singleton inputs i _ =>
    rw [events_append, events_cons, events_nil, List.getLast?_concat, Option.some.injEq] at h
    rw [run_append, ← h]
    rfl

/-- The inputs of the steps of a run are the inputs of the run. -/
theorem map_input_events (s : σ) (inputs : List ι) :
    (m.events s inputs).map Event.input = inputs := by
  induction inputs generalizing s with
  | nil => rfl
  | cons i inputs ih => rw [events_cons, List.map_cons, ih]; rfl

/-- A step of a run is the one that an input causes after those before it. -/
theorem exists_inputs_of_events_eq {s : σ} {inputs : List ι} {past later : List (Event σ ι ο)}
    {e : Event σ ι ο} (h : m.events s inputs = past ++ e :: later) :
    ∃ before i after, inputs = before ++ i :: after ∧ past = m.events s before ∧
      e = m.event (m.run s before) i ∧ later = m.events e.after after := by
  induction past generalizing s inputs with
  | nil =>
    cases inputs with
    | nil => cases h
    | cons i inputs =>
      rw [events_cons, List.nil_append, List.cons.injEq] at h
      obtain ⟨rfl, rfl⟩ := h
      exact ⟨[], i, inputs, rfl, rfl, rfl, rfl⟩
  | cons f past ih =>
    cases inputs with
    | nil => cases h
    | cons i inputs =>
      rw [events_cons, List.cons_append, List.cons.injEq] at h
      obtain ⟨rfl, h⟩ := h
      obtain ⟨before, j, after, rfl, rfl, he, hlater⟩ := ih h
      exact ⟨i :: before, j, after, rfl, rfl, he, hlater⟩

variable {m}

section

variable {P : σ → Prop} {s : σ} (hstep : ∀ s i, P s → P (m.next s i)) (hs : P s) (inputs : List ι)

include hstep hs inputs

/-- **An invariant of the states**: what holds at the start and is kept by every step holds after
every run. -/
theorem run_invariant : P (m.run s inputs) := by
  induction inputs generalizing s with
  | nil => exact hs
  | cons i inputs ih => exact ih (hstep s i hs)

/-- An invariant holds before every step of a run. -/
theorem events_invariant : ∀ e ∈ m.events s inputs, P e.before ∧ e = m.event e.before e.input := by
  induction inputs generalizing s with
  | nil => simp
  | cons i inputs ih =>
    intro e he
    rcases List.mem_cons.mp he with rfl | he
    · exact ⟨hs, rfl⟩
    · exact ih (hstep s i hs) e he

end

/-- **An invariant of the history**: what holds of no steps at the start, and of one more step after
each, holds of the steps of every run and the state after it. -/
theorem history_invariant {P : List (Event σ ι ο) → σ → Prop} {s : σ} (hs : P [] s)
    (hstep : ∀ past s i, P past s → P (past ++ [m.event s i]) (m.next s i)) (inputs : List ι) :
    P (m.events s inputs) (m.run s inputs) := by
  induction inputs using List.reverseRecOn with
  | nil => exact hs
  | append_singleton inputs i ih =>
    rw [events_append, run_append]
    exact hstep _ _ i ih

/-- **A preorder along runs**: the state after a run is above the one before it, if the state after
every step is. The steps may rely on an invariant. -/
theorem run_mono {P : σ → Prop} {R : σ → σ → Prop} (hrefl : ∀ s, R s s)
    (htrans : ∀ s s' s'', R s s' → R s' s'' → R s s'') (hinv : ∀ s i, P s → P (m.next s i))
    (hstep : ∀ s i, P s → R s (m.next s i)) {s : σ} (hs : P s) (inputs : List ι) :
    R s (m.run s inputs) := by
  induction inputs generalizing s with
  | nil => exact hrefl s
  | cons i inputs ih => exact htrans _ _ _ (hstep s i hs) (ih (hinv s i hs))

end Machine

end Volparossa
