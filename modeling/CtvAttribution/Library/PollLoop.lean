import Mathlib.Logic.Basic

/-! A loop that reads one answer at each turn and may raise. A run takes its answers from
an endless stream and stops when its guard fails. -/
namespace CtvAttribution.Library

/-- `while running: step(next answer)`. -/
structure PollLoop (σ α ε : Type) where
  running : σ → Bool
  step : σ → α → Except ε σ

namespace PollLoop
variable {σ α ε : Type} (L : PollLoop σ α ε) (answers : Nat → α)

/-- At most `fuel` turns from the `k`-th answer on; `none` while the loop still runs. -/
def run : Nat → Nat → σ → Option (Except ε σ)
  | 0, _, s => if L.running s then none else some (.ok s)
  | fuel + 1, k, s =>
    if L.running s then
      match L.step s (answers k) with
      | .error e => some (.error e)
      | .ok s' => run fuel (k + 1) s'
    else some (.ok s)

/-- The loop is at its head in state `s` after `n` answers. -/
inductive Reaches (s₀ : σ) : Nat → σ → Prop
  | start : Reaches s₀ 0 s₀
  | turn {n : Nat} {s s' : σ} : Reaches s₀ n s → L.running s = true → L.step s (answers n) = .ok s' →
      Reaches s₀ (n + 1) s'

variable {L answers} {s₀ s t : σ} {n fuel k : Nat} {e : ε}

theorem run_stopped (h : L.running s = false) : L.run answers fuel k s = some (.ok s) := by
  cases fuel <;> simp [run, h]

theorem run_zero_running (h : L.running s = true) : L.run answers 0 k s = none := by
  simp [run, h]

theorem run_turn (hs : L.running s = true) (h : L.step s (answers k) = .ok t) :
    L.run answers (fuel + 1) k s = L.run answers fuel (k + 1) t := by
  simp [run, hs, h]

theorem run_raise (hs : L.running s = true) (h : L.step s (answers k) = .error e) :
    L.run answers (fuel + 1) k s = some (.error e) := by
  simp [run, hs, h]

/-- A run passes through the states it reaches. -/
theorem Reaches.run_eq (h : L.Reaches answers s₀ n s) (fuel : Nat) :
    L.run answers (n + fuel) 0 s₀ = L.run answers fuel n s := by
  induction h generalizing fuel with
  | start => rw [Nat.zero_add]
  | @turn n s s' _ hs hstep ih =>
    rw [Nat.add_right_comm, Nat.add_assoc, ih (fuel + 1), run_turn hs hstep]

/-- How a run with the given fuel ends: at a failed guard, by raising, or not yet. -/
theorem outcome (L : PollLoop σ α ε) (answers : Nat → α) (s₀ : σ) (fuel : Nat) :
    (∃ n ≤ fuel, ∃ t, L.Reaches answers s₀ n t ∧ L.running t = false) ∨
    (∃ n < fuel, ∃ s e, L.Reaches answers s₀ n s ∧ L.running s = true ∧ L.step s (answers n) = .error e) ∨
    ∃ s, L.Reaches answers s₀ fuel s ∧ L.running s = true := by
  induction fuel with
  | zero =>
    cases hs : L.running s₀ with
    | false => exact .inl ⟨0, Nat.le_refl 0, s₀, .start, hs⟩
    | true => exact .inr (.inr ⟨s₀, .start, hs⟩)
  | succ fuel ih =>
    obtain ⟨n, hn, h⟩ | ⟨n, hn, h⟩ | ⟨s, hr, hs⟩ := ih
    · exact .inl ⟨n, Nat.le_succ_of_le hn, h⟩
    · exact .inr (.inl ⟨n, Nat.lt_succ_of_lt hn, h⟩)
    · cases hstep : L.step s (answers fuel) with
      | error e => exact .inr (.inl ⟨fuel, Nat.lt_succ_self fuel, s, e, hr, hs, hstep⟩)
      | ok t =>
        have ht := hr.turn hs hstep
        cases hrun : L.running t with
        | false => exact .inl ⟨fuel + 1, Nat.le_refl _, t, ht, hrun⟩
        | true => exact .inr (.inr ⟨t, ht, hrun⟩)

theorem run_of_stops (h : L.Reaches answers s₀ n t) (ht : L.running t = false) (hn : n ≤ fuel) :
    L.run answers fuel 0 s₀ = some (.ok t) := by
  obtain ⟨m, rfl⟩ := Nat.exists_eq_add_of_le hn
  rw [h.run_eq, run_stopped ht]

theorem run_of_raises (h : L.Reaches answers s₀ n s) (hs : L.running s = true)
    (he : L.step s (answers n) = .error e) (hn : n < fuel) :
    L.run answers fuel 0 s₀ = some (.error e) := by
  obtain ⟨m, rfl⟩ := Nat.exists_eq_add_of_lt hn
  rw [Nat.add_assoc, h.run_eq, run_raise hs he]

theorem run_of_runs (h : L.Reaches answers s₀ fuel s) (hs : L.running s = true) :
    L.run answers fuel 0 s₀ = none := by
  rw [← Nat.add_zero fuel, h.run_eq, run_zero_running hs]

/-- The loop ends with `t` exactly when it reaches `t` within its fuel and stops there. -/
theorem run_eq_ok_iff : L.run answers fuel 0 s₀ = some (.ok t) ↔
    ∃ n ≤ fuel, L.Reaches answers s₀ n t ∧ L.running t = false := by
  constructor
  · intro h
    obtain ⟨n, hn, u, hu, hstop⟩ | ⟨n, hn, s, e, hs, hrun, he⟩ | ⟨s, hs, hrun⟩ :=
      outcome L answers s₀ fuel
    · rw [run_of_stops hu hstop hn] at h
      cases h
      exact ⟨n, hn, hu, hstop⟩
    · rw [run_of_raises hs hrun he hn] at h
      cases h
    · rw [run_of_runs hs hrun] at h
      cases h
  · rintro ⟨n, hn, ht, hstop⟩
    exact run_of_stops ht hstop hn

/-- No fuel is enough exactly when the guard holds at every turn. -/
theorem run_eq_none_iff : (∀ fuel, L.run answers fuel 0 s₀ = none) ↔
    ∀ n, ∃ s, L.Reaches answers s₀ n s ∧ L.running s = true := by
  constructor
  · intro h n
    obtain ⟨m, hm, u, hu, hstop⟩ | ⟨m, hm, s, e, hs, hrun, he⟩ | hrun := outcome L answers s₀ n
    · have hno := h n
      rw [run_of_stops hu hstop hm] at hno
      cases hno
    · have hno := h n
      rw [run_of_raises hs hrun he hm] at hno
      cases hno
    · exact hrun
  · intro h n
    obtain ⟨s, hs, hrun⟩ := h n
    exact run_of_runs hs hrun

/-- A property of each turn's state that every turn hands on. -/
theorem Reaches.invariant {I : Nat → σ → Prop} (h : L.Reaches answers s₀ n s) (h0 : I 0 s₀)
    (hstep : ∀ n s s', I n s → L.running s = true → L.step s (answers n) = .ok s' → I (n + 1) s') : I n s := by
  induction h with
  | start => exact h0
  | turn _ hs hok ih => exact hstep _ _ _ ih hs hok

end PollLoop
end CtvAttribution.Library
