import Mathlib.Init

/-!
# Runs of a fallible step function

A run is a list of requests, each admitted by the state it meets and each returning.
-/

namespace Transitions

universe u v w
variable {σ : Type u} {ρ : Type v} {ε : Type w} {τ : Type u}

/-- `s` is reached from `start` by the requests `rs`. -/
inductive Reached (step : σ → ρ → Except ε σ) (admits : σ → ρ → Prop) (start : σ) :
    List ρ → σ → Prop
  | start : Reached step admits start [] start
  | call {rs : List ρ} {s s' : σ} {r : ρ} (before : Reached step admits start rs s)
      (admitted : admits s r) (returns : step s r = .ok s') :
      Reached step admits start (rs ++ [r]) s'

variable {step : σ → ρ → Except ε σ} {admits : σ → ρ → Prop} {start s : σ} {rs : List ρ}

/-- What holds at the start and is kept by every admitted step holds along every run. -/
theorem Reached.invariant {P : σ → Prop} (initial : P start)
    (kept : ∀ s r s', P s → admits s r → step s r = .ok s' → P s')
    (h : Reached step admits start rs s) : P s := by
  induction h with
  | start => exact initial
  | call _ admitted returns ih => exact kept _ _ _ ih admitted returns

/-- A run of admitted steps is one of steps that a weaker condition admits. -/
theorem Reached.mono {admits' : σ → ρ → Prop} (weaker : ∀ s r, admits s r → admits' s r)
    (h : Reached step admits start rs s) : Reached step admits' start rs s := by
  induction h with
  | start => exact .start
  | call _ admitted returns ih => exact .call ih (weaker _ _ admitted) returns

/-- A run goes on from where another ends. -/
theorem Reached.append {rs' : List ρ} {s' : σ} (h : Reached step admits start rs s)
    (h' : Reached step admits s rs' s') : Reached step admits start (rs ++ rs') s' := by
  induction h' with
  | start => rwa [List.append_nil]
  | call _ admitted returns ih =>
    rw [← List.append_assoc]
    exact .call ih admitted returns

/-- The last call of a run. -/
theorem Reached.last {r : ρ} {s' : σ} (h : Reached step admits start (rs ++ [r]) s') :
    ∃ s, Reached step admits start rs s ∧ admits s r ∧ step s r = .ok s' := by
  generalize hrun : rs ++ [r] = run at h
  cases h with
  | start => exact absurd hrun (List.append_ne_nil_of_right_ne_nil _ (List.cons_ne_nil r []))
  | call before admitted returns =>
    obtain ⟨rfl, hr⟩ := List.append_inj' hrun rfl
    obtain rfl := List.singleton_inj.mp hr
    exact ⟨_, before, admitted, returns⟩

/-- The requests determine the state. -/
theorem Reached.unique {s' : σ} (h : Reached step admits start rs s)
    (h' : Reached step admits start rs s') : s = s' := by
  induction h generalizing s' with
  | start =>
    generalize hrun : ([] : List ρ) = run at h'
    cases h' with
    | start => rfl
    | call => exact absurd hrun.symm (List.append_ne_nil_of_right_ne_nil _ (List.cons_ne_nil _ []))
  | call _ _ returns ih =>
    obtain ⟨s₁, before, _, returns'⟩ := h'.last
    rw [ih before] at returns
    exact Except.ok.inj (returns.symm.trans returns')

/-- A run of the step function is matched by a run of a total one on related states. -/
theorem Reached.simulation {R : σ → τ → Prop} {next : τ → ρ → τ} {t : τ} (initial : R start t)
    (matched : ∀ s t r s', R s t → admits s r → step s r = .ok s' → R s' (next t r))
    (h : Reached step admits start rs s) : R s (rs.foldl next t) := by
  induction h with
  | start => exact initial
  | call _ admitted returns ih =>
    rw [List.foldl_append]
    exact matched _ _ _ _ ih admitted returns

/-- If every step is matched by a run of another step function, from the state that the first
stands for, then every run is, and what is seen of the two is the same. -/
theorem Reached.refine {τ' : Type*} {ρ' : Type*} {α : Type*} {step' : τ' → ρ' → Except ε τ'}
    {admits' : τ' → ρ' → Prop} {start' : τ'} {abs : σ → τ'} {seen : ρ → List α}
    {seen' : ρ' → List α} (initial : abs start = start')
    (matched : ∀ s r s', (∃ rs', Reached step' admits' start' rs' (abs s)) → admits s r →
      step s r = .ok s' → ∃ rs', Reached step' admits' (abs s) rs' (abs s') ∧
        rs'.flatMap seen' = seen r)
    (h : Reached step admits start rs s) :
    ∃ rs', Reached step' admits' start' rs' (abs s) ∧ rs'.flatMap seen' = rs.flatMap seen := by
  induction h with
  | start => exact ⟨[], initial ▸ .start, rfl⟩
  | call _ admitted returns ih =>
    obtain ⟨rs₁, h₁, hseen₁⟩ := ih
    obtain ⟨rs₂, h₂, hseen₂⟩ := matched _ _ _ ⟨rs₁, h₁⟩ admitted returns
    refine ⟨rs₁ ++ rs₂, h₁.append h₂, ?_⟩
    rw [List.flatMap_append, List.flatMap_append, hseen₁, hseen₂, List.flatMap_singleton]

section Fuel
variable {α β : Type u} {f : Nat → Except ε α} {fuel fuel' : Nat}

/-- What is returned with some fuel is returned with more. -/
def Steady (f : Nat → Except ε α) : Prop :=
  ∀ fuel fuel' a, fuel ≤ fuel' → f fuel = .ok a → f fuel' = .ok a

theorem steady_const (x : Except ε α) : Steady fun _ => x := fun _ _ _ _ h => h

theorem steady_of_succ (h : ∀ fuel a, f fuel = .ok a → f (fuel + 1) = .ok a) : Steady f := by
  intro fuel fuel' a hle hf
  induction hle with
  | refl => exact hf
  | step _ ih => exact h _ _ ih

theorem Steady.bind {g : Nat → α → Except ε β} (hf : Steady f)
    (hg : ∀ a, Steady fun fuel => g fuel a) : Steady fun fuel => f fuel >>= g fuel := by
  intro fuel fuel' b hle h
  cases hx : f fuel with
  | error e =>
    simp only [hx] at h
    cases h
  | ok a =>
    simp only [hx] at h
    simp only [hf fuel fuel' a hle hx]
    exact hg a fuel fuel' b hle h

/-- A run goes the same way with more fuel. -/
theorem Reached.more {step : Nat → σ → ρ → Except ε σ} (steady : ∀ s r, Steady fun n => step n s r)
    (hle : fuel ≤ fuel') (h : Reached (step fuel) admits start rs s) :
    Reached (step fuel') admits start rs s := by
  induction h with
  | start => exact .start
  | call _ admitted returns ih => exact .call ih admitted (steady _ _ _ _ _ hle returns)

/-- The fuel with which a run returns does not matter. -/
theorem Reached.unique_fuel {step : Nat → σ → ρ → Except ε σ} {s' : σ}
    (steady : ∀ s r, Steady fun n => step n s r) (h : Reached (step fuel) admits start rs s)
    (h' : Reached (step fuel') admits start rs s') : s = s' := by
  have hmore := h.more steady (Nat.le_max_left fuel fuel')
  exact hmore.unique (h'.more steady (Nat.le_max_right fuel fuel'))

end Fuel

section Compute
variable (step admits) [∀ s r, Decidable (admits s r)]

/-- The state a list of requests leads to, if each is admitted and returns. -/
def follow : σ → List ρ → Option σ
  | s, [] => some s
  | s, r :: rs => if admits s r then match step s r with
    | .ok s' => follow s' rs
    | .error _ => none
    else none

variable {step admits}

theorem reached_of_follow {s₀ s' : σ} {rs₀ : List ρ} (before : Reached step admits start rs₀ s₀)
    (h : follow step admits s₀ rs = some s') : Reached step admits start (rs₀ ++ rs) s' := by
  induction rs generalizing s₀ rs₀ with
  | nil =>
    rw [List.append_nil]
    exact Option.some.inj h ▸ before
  | cons r rs ih =>
    rw [follow] at h
    split at h
    · rename_i admitted
      split at h
      · rename_i s₁ returns
        have := ih (.call before admitted returns) h
        rwa [List.append_assoc] at this
      · cases h
    · cases h

/-- A run found by evaluation, in a state with a property that was evaluated as well. -/
theorem reached_of_any {check : σ → Bool}
    (h : (follow step admits start rs).any check = true) :
    ∃ s, Reached step admits start rs s ∧ check s = true := by
  obtain ⟨s, hs, hcheck⟩ := (Option.any_eq_true _ _).mp h
  exact ⟨s, by simpa using reached_of_follow .start hs, hcheck⟩

end Compute

end Transitions
