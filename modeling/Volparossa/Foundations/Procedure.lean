import Volparossa.Foundations.Fallible

/-!
# Procedures

A procedure works on a state and ends with a value or with a failure. Unlike a transaction it keeps,
when it fails, whatever it did to the state before: the effects of a method that returns early with
an error. A pure computation that can fail is used in a procedure as it is, `Procedure.within` runs
a procedure on one part of a larger state, and `Procedure.attempt` hands a failure to the caller.

`Procedure.Ensures m s Q E` is what a caller may rely on: started in `s`, the procedure ends with a
value and a state that satisfy `Q`, or fails with an error and a state that satisfy `E`. There is
one rule for each way of building a procedure, and `Ensures.mono` weakens what is promised, so that
a proof about a method cites the promise of the methods it calls and never runs them.
-/

namespace Volparossa

universe u v w

/-- Computations on a state `σ` that end with a value in `α` or fail with an error in `ε`. -/
def Procedure (σ : Type u) (ε : Type v) (α : Type w) : Type (max u v w) := σ → Except ε α × σ

namespace Procedure

variable {σ τ : Type u} {ε ε' : Type v} {α β : Type w}

instance : Monad (Procedure σ ε) where
  pure a s := (.ok a, s)
  bind m f s := match m s with
    | (.ok a, s') => f a s'
    | (.error e, s') => (.error e, s')

/-- A pure computation leaves the state as it is. -/
instance : MonadLift (Except ε) (Procedure σ ε) where
  monadLift x s := (x, s)

/-- Fail with `e`. -/
def fail (e : ε) : Procedure σ ε α := fun s => (.error e, s)

/-- Fail with `e` when `p` holds. -/
def refuse (p : Prop) [Decidable p] (e : ε) : Procedure σ ε Unit :=
  fun s => (Volparossa.refuse p e, s)

/-- The value of `x`, or the failure `e` when there is none. -/
def orFail (x : Option α) (e : ε) : Procedure σ ε α := fun s => (Volparossa.orFail x e, s)

/-- The current state. -/
def state : Procedure σ ε σ := fun s => (.ok s, s)

/-- Replace the state by one computed from it. -/
def update (f : σ → σ) : Procedure σ ε Unit := fun s => (.ok (), f s)

/-- Run a procedure on the part of the state that `get` reads and `set` replaces. -/
def within (get : σ → τ) (set : σ → τ → σ) (m : Procedure τ ε α) : Procedure σ ε α :=
  fun s => ((m (get s)).1, set s (m (get s)).2)

/-- Run a procedure on a state that is made of the present one, which is `part` of it, and return
the state in which it ended. -/
def build (make : σ → τ) (part : τ → σ) (m : Procedure τ ε Unit) : Procedure σ ε τ :=
  fun s => ((m (make s)).1.map fun _ => (m (make s)).2, part (m (make s)).2)

/-- Run a procedure and return how it ended; the effects of a failure stay. -/
def attempt (m : Procedure σ ε α) : Procedure σ ε' (Except ε α) := fun s => (.ok (m s).1, (m s).2)

/-- Run a procedure for each item of a list, until one fails. -/
def forEach {ι : Type*} (body : ι → Procedure σ ε Unit) : List ι → Procedure σ ε Unit
  | [] => pure ()
  | i :: rest => body i >>= fun _ => forEach body rest

/-- Started in `s`, the procedure ends in `Q` or fails in `E`. -/
def Ensures (m : Procedure σ ε α) (s : σ) (Q : α → σ → Prop) (E : ε → σ → Prop) : Prop :=
  match m s with
  | (.ok a, s') => Q a s'
  | (.error e, s') => E e s'

section Rules

variable {s : σ} {Q : α → σ → Prop} {R : β → σ → Prop} {E : ε → σ → Prop}

variable {m : Procedure σ ε α}

theorem ensures_iff : m.Ensures s Q E ↔
    (∀ a, (m s).1 = .ok a → Q a (m s).2) ∧ ∀ e, (m s).1 = .error e → E e (m s).2 := by
  unfold Ensures
  rcases m s with ⟨e | a, s'⟩ <;> simp

theorem Ensures.of_ok (h : m.Ensures s Q E) {a : α} (hm : (m s).1 = .ok a) :
    Q a (m s).2 :=
  (ensures_iff.mp h).1 a hm

theorem Ensures.of_error (h : m.Ensures s Q E) {e : ε} (hm : (m s).1 = .error e) : E e (m s).2 :=
  (ensures_iff.mp h).2 e hm

/-- What holds however the procedure ends. -/
theorem Ensures.always {P : σ → Prop} (h : m.Ensures s (fun _ => P) fun _ => P) : P (m s).2 := by
  unfold Ensures at h
  rcases hm : m s with ⟨e | a, s'⟩ <;> rw [hm] at h <;> exact h

/-- A promise may be weakened. -/
theorem Ensures.mono {Q' : α → σ → Prop} {E' : ε → σ → Prop}
    (h : m.Ensures s Q E) (hQ : ∀ a s', Q a s' → Q' a s') (hE : ∀ e s', E e s' → E' e s') :
    m.Ensures s Q' E' := by
  revert h
  unfold Ensures
  rcases m s with ⟨e | a, s'⟩
  · exact hE e s'
  · exact hQ a s'

@[simp] theorem ensures_pure {a : α} : (pure a : Procedure σ ε α).Ensures s Q E ↔ Q a s := Iff.rfl

@[simp] theorem ensures_bind {f : α → Procedure σ ε β} :
    (m >>= f).Ensures s R E ↔ m.Ensures s (fun a s' => (f a).Ensures s' R E) E := by
  simp only [Ensures, bind]
  rcases m s with ⟨e | a, s'⟩ <;> exact Iff.rfl

@[simp] theorem ensures_fail {e : ε} : (fail e : Procedure σ ε α).Ensures s Q E ↔ E e s := Iff.rfl

@[simp] theorem ensures_refuse {p : Prop} [Decidable p] {e : ε} {Q : Unit → σ → Prop} :
    (refuse p e : Procedure σ ε Unit).Ensures s Q E ↔ (p → E e s) ∧ (¬p → Q () s) := by
  by_cases hp : p <;> simp [Ensures, refuse, Volparossa.refuse, hp]

@[simp] theorem ensures_orFail {x : Option α} {e : ε} :
    (orFail x e : Procedure σ ε α).Ensures s Q E ↔ (x = none → E e s) ∧ ∀ a,
    x = some a → Q a s := by
  cases x <;> simp [Ensures, orFail]

@[simp] theorem ensures_state {Q : σ → σ → Prop} :
    (state : Procedure σ ε σ).Ensures s Q E ↔ Q s s := Iff.rfl

@[simp] theorem ensures_update {f : σ → σ} {Q : Unit → σ → Prop} :
    (update f : Procedure σ ε Unit).Ensures s Q E ↔ Q () (f s) := Iff.rfl

@[simp] theorem ensures_lift {x : Except ε α} : (liftM x : Procedure σ ε α).Ensures s Q E ↔
    (∀ a, x = .ok a → Q a s) ∧ ∀ e, x = .error e → E e s := by
  cases x with
  | error e => simp [Ensures, liftM, monadLift, MonadLift.monadLift]
  | ok a => simp [Ensures, liftM, monadLift, MonadLift.monadLift]

@[simp] theorem ensures_ite {p : Prop} [Decidable p] {m' : Procedure σ ε α} :
    (if p then m else m').Ensures s Q E ↔ (p → m.Ensures s Q E) ∧ (¬p → m'.Ensures s Q E) := by
  split <;> simp_all

@[simp] theorem ensures_within {get : σ → τ} {set : σ → τ → σ} {m : Procedure τ ε α} :
    (m.within get set).Ensures s Q E ↔
      m.Ensures (get s) (fun a t => Q a (set s t)) fun e t => E e (set s t) := by
  simp only [Ensures, within]
  rcases m (get s) with ⟨e | a, t⟩ <;> exact Iff.rfl

@[simp] theorem ensures_build {make : σ → τ} {part : τ → σ} {m : Procedure τ ε Unit}
    {Q : τ → σ → Prop} : (m.build make part).Ensures s Q E ↔
      m.Ensures (make s) (fun _ t => Q t (part t)) fun e t => E e (part t) := by
  simp only [Ensures, build]
  rcases m (make s) with ⟨e | a, t⟩ <;> exact Iff.rfl

@[simp] theorem ensures_attempt {Q : Except ε α → σ → Prop}
    {E : ε' → σ → Prop} : (m.attempt : Procedure σ ε' _).Ensures s Q E ↔
      m.Ensures s (fun a => Q (.ok a)) fun e => Q (.error e) := by
  simp only [Ensures, attempt]
  rcases m s with ⟨e | a, s'⟩ <;> exact Iff.rfl

/-- What every item of a loop preserves, and guarantees when it fails, the loop does; what an item
establishes, the loop establishes of all of them. -/
theorem ensures_forEach {ι : Type*} {body : ι → Procedure σ ε Unit} {I : σ → Prop} {G : ι → Prop}
    {l : List ι} (hs : I s)
    (hbody : ∀ i ∈ l, ∀ s, I s → (body i).Ensures s (fun _ s' => I s' ∧ G i) E) :
    (forEach body l).Ensures s (fun _ s' => I s' ∧ ∀ i ∈ l, G i) E := by
  induction l generalizing s with
  | nil => exact ⟨hs, by simp⟩
  | cons i l ih =>
    refine ensures_bind.mpr
      ((hbody i (by simp) s hs).mono (fun _ s' ⟨hs', hi⟩ => ?_) fun _ _ h => h)
    refine (ih hs' fun j hj => hbody j (by simp [hj])).mono (fun _ s'' ⟨hs'', hl⟩ => ?_)
      fun _ _ h => h
    exact ⟨hs'', List.forall_mem_cons.mpr ⟨hi, hl⟩⟩

end Rules

/-! ## Which errors are possible -/

/-- The procedure fails only with errors that satisfy `P`, whatever the state. -/
def FailsOnly (P : ε → Prop) (m : Procedure σ ε α) : Prop := ∀ s, Volparossa.FailsOnly P (m s).1

section Errors

variable {P : ε → Prop} {m : Procedure σ ε α}

/-- A promise about failures may rely on the errors that are possible. -/
theorem FailsOnly.ensures (h : m.FailsOnly P) {s : σ} {Q : α → σ → Prop} {E : ε → σ → Prop}
    (hm : m.Ensures s Q fun e s' => P e → E e s') : m.Ensures s Q E :=
  ensures_iff.mpr ⟨fun _ => hm.of_ok, fun e he => hm.of_error he (h s e he)⟩

theorem FailsOnly.pure {a : α} : (pure a : Procedure σ ε α).FailsOnly P :=
  fun _ => failsOnly_ok a

theorem FailsOnly.bind {f : α → Procedure σ ε β} (hm : m.FailsOnly P)
    (hf : ∀ a, (f a).FailsOnly P) : (m >>= f).FailsOnly P := by
  intro s
  have hm := hm s
  revert hm
  simp only [Bind.bind]
  rcases m s with ⟨e | a, s'⟩
  · exact fun h => failsOnly_error.mpr (failsOnly_error.mp h)
  · exact fun _ => hf a s'

/-- What follows an attempt may rely on the errors that are possible in it. -/
theorem FailsOnly.attempt_bind {γ : Type (max v w)} {f : Except ε α → Procedure σ ε γ}
    (hm : m.FailsOnly P)
    (hf : ∀ r, Volparossa.FailsOnly P r → (f r).FailsOnly P) : (m.attempt >>= f).FailsOnly P :=
  fun s => hf _ (hm s) (m s).2

theorem FailsOnly.fail {e : ε} (h : P e) : (fail e : Procedure σ ε α).FailsOnly P :=
  fun _ => failsOnly_error.mpr h

theorem FailsOnly.refuse {p : Prop} [Decidable p] {e : ε} (h : P e) :
    (refuse p e : Procedure σ ε Unit).FailsOnly P :=
  fun _ => Volparossa.failsOnly_refuse.mpr fun _ => h

theorem FailsOnly.orFail {x : Option α} {e : ε} (h : P e) :
    (orFail x e : Procedure σ ε α).FailsOnly P :=
  fun _ => Volparossa.failsOnly_orFail.mpr fun _ => h

theorem FailsOnly.state : (state : Procedure σ ε σ).FailsOnly P := fun s => failsOnly_ok s

theorem FailsOnly.update {f : σ → σ} : (update f : Procedure σ ε Unit).FailsOnly P :=
  fun _ => failsOnly_ok ()

theorem FailsOnly.lift {x : Except ε α} (h : Volparossa.FailsOnly P x) :
    (liftM x : Procedure σ ε α).FailsOnly P := fun _ => h

theorem FailsOnly.within {get : σ → τ} {set : σ → τ → σ} {m : Procedure τ ε α}
    (h : m.FailsOnly P) : (m.within get set).FailsOnly P := fun s => h (get s)

end Errors

end Procedure

end Volparossa
