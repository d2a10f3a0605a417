import Mathlib.Data.List.Basic

/-!
# Loops over the rest of a buffer

`whileRemaining` is `while src.has_remaining() { .. }`: the body takes some elements off the front
and updates the state, or fails. The iterations are bounded by the length of the buffer, and a
loop that is not done by then is reported as `stuck`; a body that makes progress never gets there
(`whileRemaining_of_ok`). `Reads` composes what a loop does on consecutive parts of a buffer.

`Consumes` is what a parser should be: it fails in an allowed way, or it takes a definite prefix
off the buffer, whatever comes after it. The notion composes (`Consumes.bind`), and a loop over a
body that consumes ends in one of the two ways on every buffer (`Consumes.reads_or_fails`) and
divides one that it gets through into `Chunks`.
-/
namespace Wrkr.Lib

variable {α σ ε : Type} (stuck : ε) (body : σ → List α → Except ε (σ × List α))

/-- The loop with a bound on its turns. Running out of it is an error of its own, so that it can be
told from those of the body. -/
def loopFor : Nat → σ → List α → Except ε σ
  | _, s, [] => .ok s
  | 0, _, _ :: _ => .error stuck
  | fuel + 1, s, x :: src => do
    let (s, rest) ← body s (x :: src)
    loopFor fuel s rest

/-- `while !src.is_empty() { .. }`: a body that always takes something needs no more turns than
there are bytes. -/
def whileRemaining (s : σ) (src : List α) : Except ε σ := loopFor stuck body src.length s src

/-- Every iteration takes something off the buffer. -/
def Progress : Prop := ∀ s src s' rest, body s src = .ok (s', rest) → rest.length < src.length

@[simp] theorem whileRemaining_nil (s : σ) : whileRemaining stuck body s [] = .ok s := rfl

variable {stuck body}

theorem whileRemaining_of_error {s : σ} {src : List α} {e : ε} (some : src ≠ [])
    (failed : body s src = .error e) : whileRemaining stuck body s src = .error e := by
  cases src with
  | nil => exact absurd rfl some
  | cons x rest => simp [whileRemaining, loopFor, failed, bind, Except.bind]

/-- More iterations than elements make no difference. -/
theorem loopFor_congr (progress : Progress body) {n m : Nat} {s : σ} {src : List α}
    (enough : src.length ≤ n) (enough' : src.length ≤ m) :
    loopFor stuck body n s src = loopFor stuck body m s src := by
  induction n generalizing m s src with
  | zero =>
    rw [List.length_eq_zero_iff.mp (Nat.le_zero.mp enough)]
    simp [loopFor]
  | succ n ih =>
    cases src with
    | nil => simp [loopFor]
    | cons x rest =>
      rw [List.length_cons] at enough enough'
      obtain ⟨m, rfl⟩ : ∃ k, m = k + 1 := ⟨m - 1, by omega⟩
      simp only [loopFor]
      cases taken : body s (x :: rest) with
      | error e => rfl
      | ok after =>
        -- each iteration takes something, so neither limit is reached
        have shorter := progress _ _ _ _ taken
        rw [List.length_cons] at shorter
        exact ih (by omega) (by omega)

theorem whileRemaining_of_ok (progress : Progress body) {s s' : σ} {src rest : List α}
    (taken : body s src = .ok (s', rest)) :
    whileRemaining stuck body s src = whileRemaining stuck body s' rest := by
  have shorter := progress _ _ _ _ taken
  cases src with
  | nil => simp at shorter
  | cons x tail =>
    simp only [List.length_cons] at shorter
    rw [whileRemaining, List.length_cons, loopFor, taken]
    exact loopFor_congr progress (by omega) (Nat.le_refl _)

variable (stuck body)

/-- The loop gets from `s` to `s'` by the bytes, whatever comes after them. -/
def Reads (s : σ) (bytes : List α) (s' : σ) : Prop :=
  ∀ rest, whileRemaining stuck body s (bytes ++ rest) = whileRemaining stuck body s' rest

variable {stuck body}

theorem Reads.nil (s : σ) : Reads stuck body s [] s := fun _ => rfl

theorem Reads.append {s s' s'' : σ} {first second : List α} (before : Reads stuck body s first s')
    (after : Reads stuck body s' second s'') : Reads stuck body s (first ++ second) s'' := by
  intro rest
  rw [List.append_assoc, before, after]

theorem Reads.of_body (progress : Progress body) {s s' : σ} {bytes : List α}
    (taken : ∀ rest, body s (bytes ++ rest) = .ok (s', rest)) : Reads stuck body s bytes s' :=
  fun rest => whileRemaining_of_ok progress (taken rest)

theorem Reads.whileRemaining {s s' : σ} {bytes : List α} (reads : Reads stuck body s bytes s') :
    whileRemaining stuck body s bytes = .ok s' := by
  have whole := reads []
  rw [List.append_nil] at whole
  rw [whole, whileRemaining_nil]

/-- What every iteration preserves holds at the end. -/
theorem whileRemaining_invariant {Inv : σ → Prop}
    (preserved : ∀ s src s' rest, Inv s → body s src = .ok (s', rest) → Inv s') {s s' : σ}
    (inv : Inv s) {src : List α} (done : Lib.whileRemaining stuck body s src = .ok s') : Inv s' := by
  unfold Lib.whileRemaining at done
  generalize src.length = fuel at done
  induction fuel generalizing s src with
  | zero =>
    cases src with
    | nil =>
      cases done
      exact inv
    | cons x src => cases done
  | succ fuel ih =>
    cases src with
    | nil =>
      cases done
      exact inv
    | cons x src =>
      cases taken : body s (x :: src) with
      | error e => simp [loopFor, taken, bind, Except.bind] at done
      | ok p =>
        obtain ⟨s'', rest⟩ := p
        rw [loopFor, taken] at done
        exact ih (preserved s _ s'' rest inv taken) done

/-- A second loop that takes the same steps keeps in step with the first one. -/
theorem whileRemaining_lockstep {τ : Type} (body' : τ → List α → Except ε (τ × List α))
    (Rel : σ → τ → Prop)
    (step : ∀ s t src s' rest, Rel s t → body s src = .ok (s', rest) →
      ∃ t', body' t src = .ok (t', rest) ∧ Rel s' t') {s s' : σ} {t : τ} (start : Rel s t)
    {src : List α} (done : Lib.whileRemaining stuck body s src = .ok s') :
    ∃ t', Lib.whileRemaining stuck body' t src = .ok t' ∧ Rel s' t' := by
  unfold Lib.whileRemaining at done ⊢
  generalize src.length = fuel at done ⊢
  -- both loops have the same fuel, that of the bytes left
  induction fuel generalizing s t src with
  | zero =>
    cases src with
    | nil =>
      cases done
      exact ⟨t, rfl, start⟩
    | cons x src => cases done
  | succ fuel ih =>
    cases src with
    | nil =>
      cases done
      exact ⟨t, rfl, start⟩
    | cons x src =>
      cases taken : body s (x :: src) with
      | error e => simp [loopFor, taken, bind, Except.bind] at done
      | ok p =>
        obtain ⟨s'', rest⟩ := p
        rw [loopFor, taken] at done
        obtain ⟨t'', taken', related⟩ := step s t _ s'' rest start taken
        obtain ⟨t', done', related'⟩ := ih related done
        exact ⟨t', by rw [loopFor, taken']; exact done', related'⟩

variable (stuck) in
/-- A change of the state that commutes with every iteration commutes with the loop. -/
theorem whileRemaining_map {f : σ → σ} (Inv : σ → Prop)
    (commutes : ∀ s src, Inv s → body (f s) src = (body s src).map fun p => (f p.1, p.2))
    (preserved : ∀ s src s' rest, Inv s → body s src = .ok (s', rest) → Inv s') {s : σ}
    (inv : Inv s) (src : List α) :
    whileRemaining stuck body (f s) src = (whileRemaining stuck body s src).map f := by
  unfold Lib.whileRemaining
  -- the number of iterations is the same on both sides
  generalize src.length = fuel
  induction fuel generalizing s src with
  | zero => cases src <;> rfl
  | succ fuel ih =>
    cases src with
    | nil => rfl
    | cons x src =>
      simp only [loopFor, commutes s (x :: src) inv]
      cases taken : body s (x :: src) with
      | error e => rfl
      | ok p =>
        obtain ⟨s', rest⟩ := p
        exact ih (preserved s _ s' rest inv taken) rest

/-! ### Parsers -/

section Consumes

variable {β γ : Type} (allowed : ε → Prop)

/-- The reader fails with an allowed error, or takes a prefix that does not depend on the rest. -/
def Consumes (read : List α → Except ε (β × List α)) : Prop :=
  ∀ src, (∃ e, read src = .error e ∧ allowed e) ∨
    ∃ b taken rest, src = taken ++ rest ∧ ∀ more, read (taken ++ more) = .ok (b, more)

variable {allowed}

theorem Consumes.fail {e : ε} (ok : allowed e) :
    Consumes allowed fun _ : List α => (.error e : Except ε (β × List α)) :=
  fun _ => .inl ⟨e, rfl, ok⟩

theorem Consumes.pure (b : β) :
    Consumes allowed fun src : List α => (.ok (b, src) : Except ε (β × List α)) :=
  fun src => .inr ⟨b, [], src, rfl, fun _ => rfl⟩

theorem Consumes.bind {read : List α → Except ε (β × List α)}
    {k : β → List α → Except ε (γ × List α)} (first : Consumes allowed read)
    (second : ∀ b, Consumes allowed (k b)) :
    Consumes allowed fun src => read src >>= fun p => k p.1 p.2 := by
  intro src
  rcases first src with ⟨e, failed, ok⟩ | ⟨b, taken, rest, rfl, reads⟩
  · exact .inl ⟨e, by simp [failed, Bind.bind, Except.bind], ok⟩
  · rcases second b rest with ⟨e, failed, ok⟩ | ⟨c, taken', rest', rfl, reads'⟩
    · exact .inl ⟨e, by simp [reads, failed, Bind.bind, Except.bind], ok⟩
    · refine .inr ⟨c, taken ++ taken', rest', by simp, fun more => ?_⟩
      simp only [List.append_assoc, reads]
      exact reads' more

/-- What comes after the bytes that were read makes no difference. -/
theorem Consumes.append {read : List α → Except ε (β × List α)} (consumes : Consumes allowed read)
    {src rest : List α} {b : β} (done : read src = .ok (b, rest)) (more : List α) :
    read (src ++ more) = .ok (b, rest ++ more) := by
  rcases consumes src with ⟨e, failed, -⟩ | ⟨c, taken, left, rfl, reads⟩
  · rw [failed] at done
    cases done
  · rw [reads] at done
    cases done
    rw [List.append_assoc, reads]

theorem Consumes.allowed_of_error {read : List α → Except ε (β × List α)}
    (consumes : Consumes allowed read) {src : List α} {e : ε} (failed : read src = .error e) :
    allowed e := by
  rcases consumes src with ⟨e', failed', ok⟩ | ⟨c, taken, left, rfl, reads⟩
  · rw [failed] at failed'
    cases failed'
    exact ok
  · rw [reads] at failed
    cases failed

variable (stuck) in
/-- A loop whose body consumes and makes progress gets through the buffer, or fails in an allowed
way. -/
theorem Consumes.reads_or_fails (consumes : ∀ s, Consumes allowed (body s))
    (progress : Progress body) (s : σ) (src : List α) :
    (∃ e, Lib.whileRemaining stuck body s src = .error e ∧ allowed e) ∨
      ∃ s', Reads stuck body s src s' := by
  -- by induction on the length: the first iteration leaves a shorter buffer
  induction len : src.length using Nat.strongRecOn generalizing s src with
  | ind n ih =>
    cases src with
    | nil => exact .inr ⟨s, Reads.nil s⟩
    | cons x src =>
      cases taken : body s (x :: src) with
      | error e =>
        exact .inl ⟨e, whileRemaining_of_error (List.cons_ne_nil x src) taken,
          (consumes s).allowed_of_error taken⟩
      | ok p =>
        obtain ⟨s', rest⟩ := p
        have shorter := progress _ _ _ _ taken
        rcases ih rest.length (by omega) s' rest rfl with ⟨e, failed, ok⟩ | ⟨s'', reads⟩
        · exact .inl ⟨e, by rw [whileRemaining_of_ok progress taken, failed], ok⟩
        · refine .inr ⟨s'', fun more => ?_⟩
          rw [whileRemaining_of_ok progress ((consumes s).append taken more), reads]

/-- What a loop does on the rest of the buffer starts where it got to on the first part. -/
theorem Consumes.reads (consumes : ∀ s, Consumes allowed (body s)) (progress : Progress body)
    {s s' : σ} {src : List α} (done : Lib.whileRemaining stuck body s src = .ok s') :
    Reads stuck body s src s' := by
  rcases Consumes.reads_or_fails stuck consumes progress s src with ⟨e, failed, -⟩ | ⟨s'', reads⟩
  · rw [failed] at done
    cases done
  · rw [reads.whileRemaining] at done
    cases done
    exact reads

end Consumes

/-! ### Chunks -/

/-- The parts of a buffer that the iterations take one after the other. -/
inductive Chunks (body : σ → List α → Except ε (σ × List α)) : σ → List (List α) → σ → Prop
  | nil (s : σ) : Chunks body s [] s
  | cons {s s' s'' : σ} {chunk : List α} {later : List (List α)}
    (taken : body s chunk = .ok (s', [])) (rest : Chunks body s' later s'') :
    Chunks body s (chunk :: later) s''

section Chunks

variable {allowed : ε → Prop} {s s' s'' : σ}

/-- The state between two groups of chunks. -/
theorem Chunks.split {before after : List (List α)} (whole : Chunks body s (before ++ after) s'') :
    ∃ s', Chunks body s before s' ∧ Chunks body s' after s'' := by
  induction before generalizing s with
  | nil => exact ⟨s, .nil s, whole⟩
  | cons chunk before ih =>
    cases whole with
    | cons taken rest =>
      obtain ⟨s', first, second⟩ := ih rest
      exact ⟨s', .cons taken first, second⟩

theorem Chunks.reads (consumes : ∀ s, Consumes allowed (body s)) (progress : Progress body)
    {parts : List (List α)} (chunks : Chunks body s parts s') :
    Reads stuck body s parts.flatten s' := by
  induction chunks with
  | nil s => exact Reads.nil s
  | cons taken _ ih =>
    exact (Reads.of_body progress fun rest => (consumes _).append taken rest).append ih

/-- A loop that gets through a buffer divides it into chunks. -/
theorem Consumes.chunks (consumes : ∀ s, Consumes allowed (body s)) (progress : Progress body)
    {src : List α} (done : Lib.whileRemaining stuck body s src = .ok s') :
    ∃ parts, parts.flatten = src ∧ Chunks body s parts s' := by
  induction len : src.length using Nat.strongRecOn generalizing s src with
  | ind n ih =>
    cases src with
    | nil =>
      cases done
      exact ⟨[], rfl, .nil _⟩
    | cons x src =>
      rcases consumes s (x :: src) with ⟨e, failed, -⟩ | ⟨s'', chunk, rest, whole, reads⟩
      · rw [whileRemaining_of_error (List.cons_ne_nil x src) failed] at done
        cases done
      · have step := reads rest
        rw [← whole] at step
        rw [whileRemaining_of_ok progress step] at done
        obtain ⟨later, flat, rest'⟩ := ih rest.length (len ▸ progress _ _ _ _ step) done rfl
        -- the same chunk is read when nothing follows
        have taken := reads []
        rw [List.append_nil] at taken
        exact ⟨chunk :: later, by rw [List.flatten_cons, flat, whole], .cons taken rest'⟩

end Chunks

end Wrkr.Lib
