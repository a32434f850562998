import RdStubs.Task

/-!
# Tasks, run from a state

A sequence of two tasks succeeds when both do, and fails where the first of them fails. `after` is
where a task leaves things, whether it fails or not, and `result` is what it comes to.
-/

namespace RdStubs.Task

variable {σ α β : Type}

theorem run_bind_eq_ok_iff {x : Task σ α} {f : α → Task σ β} {p r : Progress σ} {b : β} :
    (x >>= f).run p = .ok b r ↔ ∃ a q, x.run p = .ok a q ∧ (f a).run q = .ok b r := by
  rw [EStateM.run_bind]
  constructor
  · cases hx : x.run p with
    | ok a q => exact fun h => ⟨a, q, rfl, h⟩
    | error e q => exact fun h => nomatch h
  · rintro ⟨a, q, hx, hf⟩
    rw [hx]
    exact hf

theorem run_bind_eq_error_iff {x : Task σ α} {f : α → Task σ β} {p r : Progress σ} {e : Error} :
    (x >>= f).run p = .error e r ↔
      x.run p = .error e r ∨ ∃ a q, x.run p = .ok a q ∧ (f a).run q = .error e r := by
  rw [EStateM.run_bind]
  constructor
  · cases hx : x.run p with
    | ok a q => exact fun h => .inr ⟨a, q, rfl, h⟩
    | error e q =>
      rintro ⟨⟩
      exact .inl rfl
  · rintro (h | ⟨a, q, hx, hf⟩)
    · rw [h]
    · rw [hx]
      exact hf

@[simp] theorem run_throw (e : Error) (p : Progress σ) :
    (throw e : Task σ α).run p = .error e p := rfl

@[simp] theorem run_state (p : Progress σ) : (state : Task σ σ).run p = .ok p.state p := rfl

@[simp] theorem run_setState (s : σ) (p : Progress σ) :
    (setState s).run p = .ok () { p with state := s } := rfl

@[simp] theorem run_note (level : Level) (origin : Origin) (message : Text) (p : Progress σ) :
    (note level origin message).run p =
      .ok () { p with notices := p.notices ++ [⟨level, origin, message⟩] } := rfl

def result (task : Task σ α) (p : Progress σ) : Except Error α :=
  match task.run p with
  | .ok a _ => .ok a
  | .error e _ => .error e

def after (task : Task σ α) (p : Progress σ) : Progress σ :=
  match task.run p with
  | .ok _ q => q
  | .error _ q => q

theorem run_eq_ok_iff {task : Task σ α} {p q : Progress σ} {a : α} :
    task.run p = .ok a q ↔ result task p = .ok a ∧ after task p = q := by
  unfold result after
  cases task.run p <;> simp

theorem run_eq_error_iff {task : Task σ α} {p q : Progress σ} {e : Error} :
    task.run p = .error e q ↔ result task p = .error e ∧ after task p = q := by
  unfold result after
  cases task.run p <;> simp

theorem result_bind (x : Task σ α) (f : α → Task σ β) (p : Progress σ) :
    result (x >>= f) p = (result x p).bind fun a => result (f a) (after x p) := by
  unfold result after
  rw [EStateM.run_bind]
  cases x.run p <;> rfl

theorem after_bind (x : Task σ α) (f : α → Task σ β) (p : Progress σ) :
    after (x >>= f) p =
      match result x p with
      | .ok a => after (f a) (after x p)
      | .error _ => after x p := by
  unfold result after
  rw [EStateM.run_bind]
  cases x.run p <;> rfl

/-- Behind a task that succeeds only its value and where it has led matter. -/
theorem bind_of_run_eq_ok {x : Task σ α} {p q : Progress σ} {a : α} (h : x.run p = .ok a q)
    (f : α → Task σ β) :
    result (x >>= f) p = result (f a) q ∧ after (x >>= f) p = after (f a) q := by
  obtain ⟨hresult, hafter⟩ := run_eq_ok_iff.1 h
  rw [result_bind, after_bind, hresult, hafter]
  exact ⟨rfl, rfl⟩

@[simp] theorem result_pure (a : α) (p : Progress σ) : result (pure a) p = .ok a := rfl

@[simp] theorem after_pure (a : α) (p : Progress σ) : after (pure a) p = p := rfl

/-- Two tasks whose lists are put one behind the other. -/
theorem result_append (x y : Task σ (List α)) (p : Progress σ) :
    result (do
        let as ← x
        let more ← y
        return as ++ more) p =
      (result x p).bind fun as => (as ++ ·) <$> result y (after x p) := by
  rw [result_bind]
  congr 1
  funext as
  rw [result_bind]
  cases result y (after x p) <;> rfl

theorem append_eq_ok {x y : Task σ (List α)} {p : Progress σ} {all : List α}
    (h : result (do
        let as ← x
        let more ← y
        return as ++ more) p = .ok all) :
    ∃ more, result y (after x p) = .ok more ∧
      after (do
        let as ← x
        let more ← y
        return as ++ more) p = after y (after x p) := by
  rw [result_append] at h
  rw [after_bind]
  cases hx : result x p with
  | error e =>
    rw [hx] at h
    cases h
  | ok as =>
    rw [hx] at h
    cases hy : result y (after x p) with
    | error e =>
      rw [Except.bind, hy] at h
      cases h
    | ok more =>
      refine ⟨more, rfl, ?_⟩
      simp only [after_bind, hy, after_pure]

/-- Notices come and go without a trace in the state. -/
theorem forM_note (level : Level) (origin : Origin) (message : α → Text) (as : List α)
    (p : Progress σ) :
    ∃ notices, (as.forM fun a => note level origin (message a)).run p =
      .ok () ⟨p.state, notices⟩ := by
  induction as generalizing p with
  | nil => exact ⟨p.notices, rfl⟩
  | cons a as ih =>
    obtain ⟨notices, h⟩ := ih { p with notices := p.notices ++ [⟨level, origin, message a⟩] }
    exact ⟨notices, by simpa using h⟩

end RdStubs.Task
