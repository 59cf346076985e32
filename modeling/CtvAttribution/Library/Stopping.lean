import CtvAttribution.Library.Script

/-! A script stopped after a given number of its writes. -/
namespace CtvAttribution.Library.Script
variable {σ ε α β : Type} {s t : σ} {a : α} {n : Nat}

/-- The store once `n` writes are done; a script of fewer writes is at its end. -/
def stoppedAfter : Script σ ε α → Nat → σ → σ
  | .done _, _, s => s
  | .fail _, _, s => s
  | .write _ _, 0, s => s
  | .write f rest, n + 1, s => rest.stoppedAfter n (f s)
  | .read k, n, s => (k s).stoppedAfter n s

/-- The writes of the uninterrupted run. -/
def writeCount : Script σ ε α → σ → Nat
  | .done _, _ => 0
  | .fail _, _ => 0
  | .write f rest, s => rest.writeCount (f s) + 1
  | .read k, s => (k s).writeCount s

/-- The run is left to its end, and completes. -/
def Finishes (p : Script σ ε α) (n : Nat) (s : σ) : Prop := p.writeCount s ≤ n ∧ ∃ a t, p.Ends s a t

theorem leaves_stoppedAfter (p : Script σ ε α) (n : Nat) (s : σ) : p.Leaves s (p.stoppedAfter n s) := by
  induction p generalizing n s with
  | done a => exact .done a s
  | fail e => exact .fail e s
  | write f rest ih =>
    cases n with
    | zero => exact .stop f rest s
    | succ n => exact .write f rest (ih n (f s))
  | read k ih => exact .read k (ih s n s)

theorem stoppedAfter_zero (p : Script σ ε α) (s : σ) : p.stoppedAfter 0 s = s := by
  induction p with
  | done a => rfl
  | fail e => rfl
  | write f rest => rfl
  | read k ih => exact ih s

/-- A sequence stopped within its first part. -/
theorem stoppedAfter_bind_of_le {p : Script σ ε α} {q : α → Script σ ε β} (h : n ≤ p.writeCount s) :
    (p.bind q).stoppedAfter n s = p.stoppedAfter n s := by
  induction p generalizing n s with
  | done a =>
    obtain rfl : n = 0 := Nat.le_zero.mp h
    exact stoppedAfter_zero _ _
  | fail e => rfl
  | write f rest ih =>
    cases n with
    | zero => rfl
    | succ n => exact ih (Nat.le_of_succ_le_succ h)
  | read k ih => exact ih s h

theorem stoppedAfter_bind_of_fails {p : Script σ ε α} {q : α → Script σ ε β} {e : ε} (h : p.Fails s e t) :
    (p.bind q).stoppedAfter n s = p.stoppedAfter n s := by
  induction p generalizing n s with
  | done a => exact absurd h fails_done
  | fail e => rfl
  | write f rest ih =>
    cases n with
    | zero => rfl
    | succ n => exact ih h
  | read k ih => exact ih s h

/-- Or within its second. -/
theorem stoppedAfter_bind_of_ends {p : Script σ ε α} {q : α → Script σ ε β} (h : p.Ends s a t) :
    (p.bind q).stoppedAfter (p.writeCount s + n) s = (q a).stoppedAfter n t := by
  induction p generalizing s with
  | done b =>
    obtain ⟨rfl, rfl⟩ := ends_done.mp h
    rw [writeCount, Nat.zero_add]
    rfl
  | fail e => exact absurd h ends_fail
  | write f rest ih =>
    rw [writeCount, Nat.add_right_comm]
    exact ih h
  | read k ih => exact ih s h

theorem writeCount_bind_of_ends {p : Script σ ε α} {q : α → Script σ ε β} (h : p.Ends s a t) :
    (p.bind q).writeCount s = p.writeCount s + (q a).writeCount t := by
  induction p generalizing s with
  | done b =>
    obtain ⟨rfl, rfl⟩ := ends_done.mp h
    exact (Nat.zero_add _).symm
  | fail e => exact absurd h ends_fail
  | write f rest ih =>
    have hrest := ih h
    change (rest.bind q).writeCount (f s) + 1 = rest.writeCount (f s) + 1 + _
    omega
  | read k ih => exact ih s h

theorem Ends.unique {p : Script σ ε α} {a' : α} {t' : σ} (h : p.Ends s a t) (h' : p.Ends s a' t') :
    a' = a ∧ t' = t := by
  have he := h.symm.trans h'
  exact ⟨(Except.ok.inj (Prod.mk.inj he).2).symm, (Prod.mk.inj he).1.symm⟩

/-- A run left to its end. -/
theorem Ends.stoppedAfter {p : Script σ ε α} (h : p.Ends s a t) (hn : p.writeCount s ≤ n) : p.stoppedAfter n s = t := by
  induction p generalizing n s with
  | done b => exact (ends_done.mp h).1.symm
  | fail e => exact absurd h ends_fail
  | write f rest ih =>
    obtain ⟨m, rfl⟩ := Nat.exists_eq_add_of_le hn
    rw [writeCount, Nat.add_right_comm]
    exact ih h (Nat.le_add_right _ _)
  | read k ih => exact ih s h hn

/-- Once its first part completed, a sequence finishes when the second does. -/
theorem finishes_bind_of_ends {p : Script σ ε α} {q : α → Script σ ε β} (h : p.Ends s a t) :
    (p.bind q).Finishes (p.writeCount s + n) s ↔ (q a).Finishes n t := by
  rw [Finishes, Finishes, writeCount_bind_of_ends h, Nat.add_le_add_iff_left]
  refine and_congr_right fun _ => ?_
  constructor
  · intro hends
    obtain ⟨b, t', hb⟩ := hends
    obtain ⟨a', m, hm, hq⟩ := ends_bind.mp hb
    obtain ⟨rfl, rfl⟩ := h.unique hm
    exact ⟨b, t', hq⟩
  · intro hends
    obtain ⟨b, t', hb⟩ := hends
    exact ⟨b, t', ends_bind.mpr ⟨a, t, h, hb⟩⟩

/-- Where a sequence stops: within its first part, or that completed and it stops in the
second. -/
theorem stoppedAfter_bind (p : Script σ ε α) (q : α → Script σ ε β) (n : Nat) (s : σ) :
    (p.bind q).stoppedAfter n s = p.stoppedAfter n s ∨ ∃ a t m, p.Ends s a t ∧ n = p.writeCount s + m ∧
      (p.bind q).stoppedAfter n s = (q a).stoppedAfter m t := by
  rcases Nat.le_total n (p.writeCount s) with hn | hn
  · exact .inl (stoppedAfter_bind_of_le hn)
  · obtain ⟨m, rfl⟩ := Nat.exists_eq_add_of_le hn
    rcases ends_or_fails p s with ⟨a, t, h⟩ | ⟨e, t, h⟩
    · exact .inr ⟨a, t, m, h, rfl, stoppedAfter_bind_of_ends h⟩
    · exact .inl (stoppedAfter_bind_of_fails h)

end CtvAttribution.Library.Script
