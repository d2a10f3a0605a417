import Mathlib.Data.List.Forall2

/-!
# Loops that stop at the first error

A loop that pushes one result for each element and returns early is `List.mapM` in `Except`.
-/
namespace Wrkr.Lib

variable {ε α β : Type} {f : α → Except ε β}

theorem Except.bind_eq_ok {γ : Type} {x : Except ε α} {g : α → Except ε γ} {c : γ} :
    x.bind g = .ok c ↔ ∃ a, x = .ok a ∧ g a = .ok c := by
  cases x <;> simp [Except.bind]

theorem map_isError_iff {γ : Type} {g : α → γ} {x : Except ε α} :
    (∃ e, x.map g = .error e) ↔ ∃ e, x = .error e := by
  cases x <;> simp [Except.map]

/-- What the step for each element preserves, the loop preserves. -/
theorem foldlM_invariant_mem {σ : Type} {step : σ → α → Except ε σ} {P : σ → Prop} {as : List α}
    (preserved : ∀ a ∈ as, ∀ s s', P s → step s a = .ok s' → P s') {s s' : σ} (start : P s)
    (ok : as.foldlM step s = .ok s') : P s' := by
  induction as generalizing s with
  | nil =>
    cases ok
    exact start
  | cons a as ih =>
    rw [List.foldlM_cons] at ok
    obtain ⟨mid, first, rest⟩ := Except.bind_eq_ok.mp ok
    exact ih (fun b member => preserved b (List.mem_cons_of_mem _ member))
      (preserved a List.mem_cons_self s mid start first) rest

theorem foldlM_invariant {σ : Type} {step : σ → α → Except ε σ} {P : σ → Prop}
    (preserved : ∀ s a s', P s → step s a = .ok s' → P s') {as : List α} {s s' : σ} (start : P s)
    (ok : as.foldlM step s = .ok s') : P s' :=
  foldlM_invariant_mem (fun a _ s s' => preserved s a s') start ok

/-- The loop succeeds with the results of all elements. -/
theorem mapM_eq_ok {as : List α} {bs : List β} :
    as.mapM f = .ok bs ↔ List.Forall₂ (fun a b => f a = .ok b) as bs := by
  induction as generalizing bs with
  | nil => simp [pure, Except.pure, eq_comm]
  | cons a as ih =>
    rw [List.mapM_cons]
    simp only [bind, Except.bind_eq_ok, pure, Except.pure, ih, List.forall₂_cons_left_iff]
    constructor
    · rintro ⟨b, head, bs', tail, same⟩
      exact ⟨b, bs', head, tail, (Except.ok.inj same).symm⟩
    · rintro ⟨b, bs', head, tail, rfl⟩
      exact ⟨b, head, bs', tail, rfl⟩

theorem exists_of_mem_mapM {as : List α} {bs : List β} (ok : as.mapM f = .ok bs) {b : β}
    (member : b ∈ bs) : ∃ a ∈ as, f a = .ok b := by
  have each := mapM_eq_ok.mp ok
  clear ok
  induction each with
  | nil => cases member
  | cons head _ ih =>
    rcases List.mem_cons.mp member with rfl | member
    · exact ⟨_, List.mem_cons_self, head⟩
    · obtain ⟨a, source, result⟩ := ih member
      exact ⟨a, List.mem_cons_of_mem _ source, result⟩

/-- The loop fails if some element does. -/
theorem mapM_isError_iff {as : List α} :
    (∃ e, as.mapM f = .error e) ↔ ∃ a ∈ as, ∃ e, f a = .error e := by
  induction as with
  | nil => simp [pure, Except.pure]
  | cons a as ih =>
    rw [List.mapM_cons, List.exists_mem_cons_iff, ← ih]
    cases f a with
    | error e => simp [bind, Except.bind]
    | ok b => cases as.mapM f <;> simp [bind, Except.bind, pure, Except.pure]

/-- A loop that pushes what each element gives collects the results of all elements. -/
theorem foldlM_push {push : α → Except ε (List β)} {step : List β → α → Except ε (List β)}
    (isPush : ∀ out a, step out a = (push a).map (out ++ ·)) (as : List α) (out : List β) :
    as.foldlM step out = (as.mapM push).map fun pushed => out ++ pushed.flatten := by
  induction as generalizing out with
  | nil => simp [pure, Except.pure, Except.map]
  | cons a as ih =>
    rw [List.foldlM_cons, List.mapM_cons, isPush]
    cases push a with
    | error e => rfl
    | ok pushed =>
      simp only [Except.map, bind, Except.bind, ih]
      cases as.mapM push <;> simp [pure, Except.pure]

/-- What is pushed in all, when the loop succeeds. -/
theorem flatMap_of_push {push : α → Except ε (List β)} {g : α → List β}
    (pushed : ∀ a bs, push a = .ok bs → g a = bs) {as : List α} {start out : List β}
    (ok : ((as.mapM push).map fun results => start ++ results.flatten) = .ok out) :
    out = start ++ as.flatMap g := by
  cases loop : as.mapM push with
  | error e =>
    rw [loop] at ok
    cases ok
  | ok results =>
    rw [loop] at ok
    cases ok
    have each := mapM_eq_ok.mp loop
    clear loop
    rw [List.flatMap_def]
    congr 2
    induction each with
    | nil => rfl
    | cons first _ ih => rw [List.map_cons, ih, pushed _ _ first]

end Wrkr.Lib
