import Mathlib

/-!
# Computations that can fail

`Except ε α` with early exits: `refuse p e` fails with `e` when `p` holds, as a guard that returns
an error does, and `orFail x e` unwraps an optional value. The lemmas take a successful (or
failed) sequence apart into its stages, so that a proof about a function written with them never
unfolds the sequencing itself.
-/

namespace Volparossa

universe u v

variable {ε : Type u} {α β : Type v}

/-- Fail with `e` when `p` holds. -/
def refuse (p : Prop) [Decidable p] (e : ε) : Except ε Unit := if p then .error e else .ok ()

/-- The value of `x`, or the failure `e` when there is none. -/
def orFail (x : Option α) (e : ε) : Except ε α :=
  match x with
  | none => .error e
  | some a => .ok a

@[simp] theorem ok_bind (a : α) (f : α → Except ε β) : (Except.ok a >>= f) = f a := rfl

@[simp] theorem error_bind (e : ε) (f : α → Except ε β) : (Except.error e >>= f) = .error e := rfl

@[simp] theorem pure_ok (a : α) : (pure a : Except ε α) = .ok a := rfl

theorem pure_eq_ok {a b : α} : (pure a : Except ε α) = .ok b ↔ a = b := by
  rw [pure_ok, Except.ok.injEq]

theorem bind_eq_ok {x : Except ε α} {f : α → Except ε β} {b : β} :
    (x >>= f) = .ok b ↔ ∃ a, x = .ok a ∧ f a = .ok b := by
  cases x with
  | error e => simp
  | ok a => simp

theorem ok_unique {x : Except ε α} {a b : α} (h : x = .ok a) (h' : x = .ok b) : a = b :=
  Except.ok.inj (h.symm.trans h')

theorem exists_eq_ok {x : Except ε α} (h : x.isOk = true) : ∃ a, x = .ok a := by
  cases x with
  | error e => cases h
  | ok a => exact ⟨a, rfl⟩

@[simp] theorem refuse_eq_ok {p : Prop} [Decidable p] {e : ε} {u : Unit} :
    refuse p e = .ok u ↔ ¬p := by
  unfold refuse
  split <;> simp_all

@[simp] theorem refuse_eq_error {p : Prop} [Decidable p] {e e' : ε} :
    refuse p e = .error e' ↔ p ∧ e = e' := by
  unfold refuse
  split <;> simp_all

theorem refuse_of_not {p : Prop} [Decidable p] (h : ¬p) (e : ε) : refuse p e = .ok () := if_neg h

@[simp] theorem orFail_some (a : α) (e : ε) : orFail (some a) e = .ok a := rfl

@[simp] theorem orFail_none (e : ε) : orFail (none : Option α) e = .error e := rfl

@[simp] theorem orFail_eq_ok {x : Option α} {e : ε} {a : α} : orFail x e = .ok a ↔ x = some a := by
  cases x <;> simp

@[simp] theorem mapError_eq_ok {ε' : Type*} {x : Except ε α} {g : ε → ε'} {a : α} :
    x.mapError g = .ok a ↔ x = .ok a := by
  cases x <;> simp [Except.mapError]

/-- **The rules above as one rewriting set**: when a sequence of stages succeeds. -/
theorem ok_iff :
    (∀ {ε α β : Type} {x : Except ε α} {f : α → Except ε β} {b : β},
      (x >>= f) = .ok b ↔ ∃ a, x = .ok a ∧ f a = .ok b) ∧
    (∀ {ε α : Type} {a b : α}, (pure a : Except ε α) = .ok b ↔ a = b) ∧
    (∀ {ε : Type} {p : Prop} [Decidable p] {e : ε} {u : Unit}, refuse p e = .ok u ↔ ¬p) ∧
    (∀ {ε α : Type} {x : Option α} {e : ε} {a : α}, orFail x e = .ok a ↔ x = some a) ∧
    ∀ {ε ε' α : Type} {x : Except ε α} {g : ε → ε'} {a : α}, x.mapError g = .ok a ↔ x = .ok a :=
  ⟨bind_eq_ok, pure_eq_ok, refuse_eq_ok, orFail_eq_ok, mapError_eq_ok⟩

/-! ## Which failures are possible -/

/-- Every failure of `x` satisfies `P`. -/
def FailsOnly (P : ε → Prop) (x : Except ε α) : Prop := ∀ e, x = .error e → P e

section FailsOnly

variable {P : ε → Prop}

@[simp] theorem failsOnly_ok (a : α) : FailsOnly P (.ok a) := fun _ h => by cases h

@[simp] theorem failsOnly_error {e : ε} : FailsOnly P (.error e : Except ε α) ↔ P e :=
  ⟨fun h => h e rfl, fun h _ he => by cases he; exact h⟩

theorem failsOnly_bind {x : Except ε α} {f : α → Except ε β} :
    FailsOnly P (x >>= f) ↔ FailsOnly P x ∧ ∀ a, x = .ok a → FailsOnly P (f a) := by
  cases x with
  | error e => simp
  | ok a => simp

@[simp] theorem failsOnly_refuse {p : Prop} [Decidable p] {e : ε} :
    FailsOnly P (refuse p e) ↔ (p → P e) := by
  unfold refuse
  split <;> simp_all

@[simp] theorem failsOnly_orFail {x : Option α} {e : ε} :
    FailsOnly P (orFail x e) ↔ (x = none → P e) := by
  cases x <;> simp

theorem failsOnly_mapM {γ : Type*} {f : γ → Except ε α} {l : List γ}
    (h : ∀ x ∈ l, FailsOnly P (f x)) : FailsOnly P (l.mapM f) := by
  induction l with
  | nil => exact failsOnly_ok _
  | cons x l ih =>
    simp only [List.mapM_cons, failsOnly_bind]
    exact ⟨h x (by simp), fun _ _ => ⟨ih fun y hy => h y (by simp [hy]), fun _ _ => failsOnly_ok _⟩⟩

theorem failsOnly_mapError_const {ε' : Type*} {x : Except ε' α} {e : ε} (h : P e) :
    FailsOnly P (x.mapError fun _ => e) := by
  cases x with
  | error _ => exact failsOnly_error.mpr h
  | ok a => exact failsOnly_ok a

end FailsOnly

/-! ## Two computations side by side -/

/-- Both computations succeed, with results that `R` relates, or both fail, with the same error. -/
def Agrees (R : α → β → Prop) : Except ε α → Except ε β → Prop
  | .ok a, .ok b => R a b
  | .error e, .error e' => e = e'
  | _, _ => False

namespace Agrees

variable {α' β' : Type v} {R : α → β → Prop} {S : α' → β' → Prop}

theorem of_eq {x : Except ε α} {y : Except ε α} (h : x = y) : Agrees (· = ·) x y := by
  subst h
  cases x <;> exact rfl

theorem cases {x : Except ε α} {y : Except ε β} (h : Agrees R x y) :
    (∃ a b, x = .ok a ∧ y = .ok b ∧ R a b) ∨ ∃ e, x = .error e ∧ y = .error e := by
  cases x with
  | error e => cases y with
    | error e' => exact .inr ⟨e, rfl, congrArg _ h.symm⟩
    | ok b => exact h.elim
  | ok a => cases y with
    | error e' => exact h.elim
    | ok b => exact .inl ⟨a, b, rfl, rfl, h⟩

theorem bind {x : Except ε α} {y : Except ε β} {f : α → Except ε α'} {g : β → Except ε β'}
    (h : Agrees R x y) (hfg : ∀ a b, R a b → Agrees S (f a) (g b)) :
    Agrees S (x >>= f) (y >>= g) := by
  obtain ⟨a, b, rfl, rfl, h⟩ | ⟨e, rfl, rfl⟩ := h.cases
  · exact hfg a b h
  · exact rfl

/-- Two computations that begin with the same part. -/
theorem bind_eq {x : Except ε α} {y : Except ε α} {f g : α → Except ε α'} {S : α' → α' → Prop}
    (h : x = y) (hfg : ∀ a, Agrees S (f a) (g a)) : Agrees S (x >>= f) (y >>= g) :=
  (of_eq h).bind fun a _ hab => hab ▸ hfg a

theorem ok_left {a : α} {y : Except ε β} (h : Agrees R (.ok a) y) : ∃ b, y = .ok b ∧ R a b := by
  cases y with
  | error e => exact h.elim
  | ok b => exact ⟨b, rfl, h⟩

/-- Loops with related iterations from related states. -/
theorem foldlM {ι : Type*} {R : α → α → Prop} {f g : α → ι → Except ε α}
    (hstep : ∀ a b i, R a b → Agrees R (f a i) (g b i)) (l : List ι) {a b : α} (h : R a b) :
    Agrees R (l.foldlM f a) (l.foldlM g b) := by
  induction l generalizing a b with
  | nil => exact h
  | cons i l ih =>
    rw [List.foldlM_cons, List.foldlM_cons]
    exact (hstep a b i h).bind fun a' b' h' => ih h'

end Agrees

/-! ## Two computations, up to some failures -/

/-- `x` fails with an error that satisfies `Q`. -/
def Fails (Q : ε → Prop) (x : Except ε α) : Prop := ∃ e, x = .error e ∧ Q e

/-- Both computations succeed with related results or fail with the same error, unless one of them
fails with an error that satisfies `Q`. -/
def AgreesUnless (Q : ε → Prop) (R : α → β → Prop) (x : Except ε α) (y : Except ε β) : Prop :=
  Agrees R x y ∨ Fails Q x ∨ Fails Q y

namespace AgreesUnless

variable {α' β' : Type v} {Q : ε → Prop} {R : α → β → Prop} {S : α' → β' → Prop}

theorem ok {a : α} {b : β} (h : R a b) : AgreesUnless Q R (.ok a) (.ok b) := .inl h

theorem bind {x : Except ε α} {y : Except ε β} {f : α → Except ε α'} {g : β → Except ε β'}
    (h : AgreesUnless Q R x y)
    (hfg : ∀ a b, x = .ok a → y = .ok b → R a b → AgreesUnless Q S (f a) (g b)) :
    AgreesUnless Q S (x >>= f) (y >>= g) := by
  rcases h with h | ⟨e, rfl, he⟩ | ⟨e, rfl, he⟩
  · obtain ⟨a, b, rfl, rfl, h⟩ | ⟨e, rfl, rfl⟩ := h.cases
    · exact hfg a b rfl rfl h
    · exact .inl rfl
  · exact .inr (.inl ⟨e, rfl, he⟩)
  · exact .inr (.inr ⟨e, rfl, he⟩)

/-- Two computations that begin with the same part. -/
theorem bind_eq {x : Except ε α} {y : Except ε α} {f g : α → Except ε α'} {S : α' → α' → Prop}
    (h : x = y) (hfg : ∀ a, AgreesUnless Q S (f a) (g a)) : AgreesUnless Q S (x >>= f) (y >>= g) :=
  AgreesUnless.bind (.inl (Agrees.of_eq h)) fun a _ _ _ hab => hab ▸ hfg a

/-- Two guards with an error that is allowed to differ. -/
theorem refuse {p q : Prop} [Decidable p] [Decidable q] {e : ε} (he : Q e) :
    AgreesUnless Q (fun _ _ => True) (refuse p e) (refuse q e) := by
  unfold Volparossa.refuse
  split
  · exact .inr (.inl ⟨e, rfl, he⟩)
  · split
    · exact .inr (.inr ⟨e, rfl, he⟩)
    · exact .inl trivial

theorem mapError {ε' : Type u} {Q' : ε' → Prop} {g : ε → ε'} {x : Except ε α} {y : Except ε β}
    (h : AgreesUnless Q R x y) (hg : ∀ e, Q e → Q' (g e)) :
    AgreesUnless Q' R (x.mapError g) (y.mapError g) := by
  rcases h with h | ⟨e, rfl, he⟩ | ⟨e, rfl, he⟩
  · obtain ⟨a, b, rfl, rfl, h⟩ | ⟨e, rfl, rfl⟩ := h.cases
    · exact .inl h
    · exact .inl rfl
  · exact .inr (.inl ⟨g e, rfl, hg e he⟩)
  · exact .inr (.inr ⟨g e, rfl, hg e he⟩)

end AgreesUnless

/-! ## Loops -/

/-- What holds of the items so far and of the next one. -/
theorem forall_mem_concat {γ : Type*} {P : γ → Prop} {l : List γ} {x : γ} (h : ∀ y ∈ l, P y)
    (hx : P x) : ∀ y ∈ l ++ [x], P y :=
  List.forall_mem_append.mpr ⟨h, List.forall_mem_singleton.mpr hx⟩

section

variable {σ ι : Type*} {f : σ → ι → Except ε σ} (P : List ι → σ → Prop) {l : List ι}

include P

/-- What one iteration of a fallible loop preserves, a run of the loop preserves. The invariant may
speak of the items consumed so far. -/
theorem foldlM_invariant (hstep : ∀ past i s s', P past s → f s i = .ok s' → P (past ++ [i]) s')
    {s s' : σ} (hs : P [] s) (h : l.foldlM f s = .ok s') : P l s' := by
  have key : ∀ (rest past : List ι) (s : σ), P past s → rest.foldlM f s = .ok s' →
      P (past ++ rest) s' := by
    intro rest
    induction rest with
    | nil =>
      intro past s hs h
      rw [List.foldlM_nil, pure_eq_ok] at h
      rwa [List.append_nil, ← h]
    | cons i rest ih =>
      intro past s hs h
      rw [List.foldlM_cons, bind_eq_ok] at h
      obtain ⟨s₁, h₁, h⟩ := h
      rw [List.append_cons]
      exact ih (past ++ [i]) s₁ (hstep past i s s₁ hs h₁) h
  exact key l [] s hs h

/-- A fallible loop succeeds, and establishes an invariant that speaks of the items consumed so far,
if every iteration does. -/
theorem foldlM_exists {s : σ} (hs : P [] s)
    (hstep : ∀ past i rest s, l = past ++ i :: rest → P past s → ∃ s', f s i = .ok s' ∧
      P (past ++ [i]) s') :
    ∃ s', l.foldlM f s = .ok s' ∧ P l s' := by
  have key : ∀ (rest past : List ι) (s : σ), l = past ++ rest → P past s →
      ∃ s', rest.foldlM f s = .ok s' ∧ P l s' := by
    intro rest
    induction rest with
    | nil =>
      intro past s hl hs
      rw [List.append_nil] at hl
      exact ⟨s, rfl, hl ▸ hs⟩
    | cons i rest ih =>
      intro past s hl hs
      obtain ⟨s₁, h₁, hs₁⟩ := hstep past i rest s hl hs
      obtain ⟨s', h', hs'⟩ := ih (past ++ [i]) s₁ (by simpa using hl) hs₁
      exact ⟨s', by rw [List.foldlM_cons, h₁, ok_bind, h'], hs'⟩
  exact key l [] s rfl hs

end

theorem mapM_eq_ok {γ : Type*} {f : γ → Except ε α} {g : γ → α} {l : List γ}
    (h : ∀ x ∈ l, f x = .ok (g x)) : l.mapM f = .ok (l.map g) := by
  induction l with
  | nil => rfl
  | cons x l ih =>
    rw [List.mapM_cons, h x (by simp), ok_bind, ih fun y hy => h y (by simp [hy])]
    rfl

/-- A loop that pushes `f x` for each item, after checking the item and that the value is new. -/
theorem foldlM_push {γ : Type*} {step : List α → γ → Except ε (List α)} {f : γ → α} {P : γ → Prop}
    (hstep : ∀ seen x r, step seen x = .ok r ↔ P x ∧ f x ∉ seen ∧ r = seen ++ [f x])
    {seen r : List α} (hseen : seen.Nodup) {l : List γ} : l.foldlM step seen = .ok r ↔
      (∀ x ∈ l, P x) ∧ (seen ++ l.map f).Nodup ∧ r = seen ++ l.map f := by
  induction l generalizing seen with
  | nil => simp [hseen, eq_comm]
  | cons x l ih =>
    simp only [List.foldlM_cons, bind_eq_ok, hstep, List.forall_mem_cons, List.map_cons]
    have hnew : (seen ++ [f x]).Nodup ↔ f x ∉ seen := by
      simp [List.nodup_append, hseen, List.forall_mem_ne']
    rw [List.append_cons seen (f x) (l.map f)]
    constructor
    · rintro ⟨_, ⟨hP, hx, rfl⟩, h⟩
      obtain ⟨hl, h⟩ := (ih (hnew.mpr hx)).mp h
      exact ⟨⟨hP, hl⟩, h⟩
    · rintro ⟨⟨hP, hl⟩, h, rfl⟩
      have hx := (List.nodup_append.mp h).1
      exact ⟨_, ⟨hP, hnew.mp hx, rfl⟩, (ih hx).mpr ⟨hl, h, rfl⟩⟩

/-- A loop over independent items succeeds when each of them does. -/
theorem mapM_eq_ok_iff {γ : Type*} {f : γ → Except ε α} {g : γ → α} {P : γ → Prop}
    (h : ∀ x r, f x = .ok r ↔ P x ∧ r = g x) {l : List γ} {r : List α} :
    l.mapM f = .ok r ↔ (∀ x ∈ l, P x) ∧ r = l.map g := by
  induction l generalizing r with
  | nil => simp [eq_comm]
  | cons x l ih =>
    simp only [List.mapM_cons, bind_eq_ok, h, ih, pure_eq_ok, List.forall_mem_cons, List.map_cons]
    constructor
    · rintro ⟨_, ⟨hx, rfl⟩, _, ⟨hl, rfl⟩, rfl⟩
      exact ⟨⟨hx, hl⟩, rfl⟩
    · rintro ⟨⟨hx, hl⟩, rfl⟩
      exact ⟨_, ⟨hx, rfl⟩, _, ⟨hl, rfl⟩, rfl⟩

end Volparossa
