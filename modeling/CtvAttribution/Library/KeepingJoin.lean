import CtvAttribution.Library.WatermarkJoin

/-! The join with its eviction removed. Where no probe row comes later than the watermark
tolerates, eviction drops nothing a probe row is still joined with. -/
namespace CtvAttribution.Library.WatermarkJoin
open Arrival
variable {α β τ : Type} [AddCommGroup τ] [LinearOrder τ] (J : WatermarkJoin α β τ)

/-- The schedule of a join that moves on by `next`. -/
def scheduleBy (next : State α β τ → Arrival α β → State α β τ) (s : State α β τ) :
    List (Arrival α β) → List (β × List α)
  | [] => s.waiting.map fun b => (b, s.held)
  | x :: xs => (J.due s x).map (fun b => (b, arrived s x)) ++ scheduleBy next (next s x) xs

theorem schedule_eq_scheduleBy (s : State α β τ) (l : List (Arrival α β)) :
    J.schedule s l = J.scheduleBy J.step s l := by
  induction l generalizing s with
  | nil => rfl
  | cons x l ih => rw [schedule, scheduleBy, ih]

/-- One tick that evicts nothing. -/
def keep (s : State α β τ) (x : Arrival α β) : State α β τ := { J.step s x with held := arrived s x }

/-- The state after a prefix when nothing is evicted. -/
def keptAfter (l : List (Arrival α β)) : State α β τ := { J.stateAfter l with held := builds l }

theorem due_keptAfter (l : List (Arrival α β)) (x : Arrival α β) :
    J.due (J.keptAfter l) x = J.due (J.stateAfter l) x := rfl

theorem arrived_keptAfter (l : List (Arrival α β)) (x : Arrival α β) :
    arrived (J.keptAfter l) x = builds (l ++ [x]) := (builds_append l [x]).symm

/-- No probe row comes later, in event time, than the watermark tolerates. -/
def Timely (l : List (Arrival α β)) : Prop :=
  l.Pairwise fun z x => ∀ b, x = .probe b → J.time z ≤ J.probeTime b + J.lateness

variable [IsOrderedAddMonoid τ]

theorem keep_keptAfter (l : List (Arrival α β)) (x : Arrival α β) :
    J.keep (J.keptAfter l) x = J.keptAfter (l ++ [x]) := by
  have hstep := J.step_stateAfter l x
  unfold keep keptAfter
  rw [← hstep]
  exact congrArg (State.mk · _ _) (J.arrived_keptAfter l x)

variable {J} {l : List (Arrival α β)} {x : Arrival α β} {b : β}

/-- Up to its own instant no window of a row's matches has closed. -/
theorem filter_held_of_not_passed (h : ¬ J.Passed l (J.probeTime b)) :
    (J.stateAfter l).held.filter (fun a => J.Eligible b a) = (builds l).filter fun a => J.Eligible b a := by
  rw [held_stateAfter, List.filter_filter]
  apply List.filter_congr
  intro a _
  rw [Bool.and_eq_left_iff_imp]
  intro ha
  rw [decide_eq_true_eq] at ha ⊢
  rintro ⟨z, hz, hzt⟩
  exact h ⟨z, hz, (add_le_add_left ha.2 _).trans_lt hzt⟩

/-- Nothing it could match is gone for a row that waits. -/
theorem filter_held_of_not_reached (h : ¬ J.Reached l (J.probeTime b)) :
    (J.stateAfter l).held.filter (fun a => J.Eligible b a) = (builds l).filter fun a => J.Eligible b a := by
  apply filter_held_of_not_passed
  rintro ⟨z, hz, hzt⟩
  exact h ⟨z, hz, hzt.le⟩

/-- Nor for one that arrives in time. -/
theorem filter_held_of_timely (h : J.Timely (l ++ [.probe b])) :
    (J.stateAfter l).held.filter (fun a => J.Eligible b a) = (builds l).filter fun a => J.Eligible b a := by
  apply filter_held_of_not_passed
  rintro ⟨z, hz, hzt⟩
  exact absurd ((List.pairwise_append.mp h).2.2 z hz _ (List.mem_singleton_self _) b rfl) (not_le.mpr hzt)

/-- A due row is joined with the same rows whether or not the earlier ticks evicted. -/
theorem filter_arrived_of_due (h : J.Timely (l ++ [x])) (hb : b ∈ J.due (J.stateAfter l) x) :
    (arrived (J.stateAfter l) x).filter (fun a => J.Eligible b a) =
      (arrived (J.keptAfter l) x).filter fun a => J.Eligible b a := by
  have hheld : (J.stateAfter l).held.filter (fun a => J.Eligible b a) =
      (builds l).filter fun a => J.Eligible b a := by
    rcases (J.mem_due.mp hb).1 with ⟨_, hnot⟩ | rfl
    · exact filter_held_of_not_reached hnot
    · exact filter_held_of_timely h
  rw [arrived, arrived, List.filter_append, List.filter_append, hheld]
  rfl

/-- Probe rows of two schedules in the same order, joined with the same eligible rows. -/
def SameJoins (p q : β × List α) : Prop :=
  p.1 = q.1 ∧ p.2.filter (fun a => J.Eligible p.1 a) = q.2.filter fun a => J.Eligible p.1 a

theorem sameJoins_schedule {m : List (Arrival α β)} (h : J.Timely (l ++ m)) :
    List.Forall₂ (SameJoins (J := J)) (J.scheduleBy J.step (J.stateAfter l) m)
      (J.scheduleBy J.keep (J.keptAfter l) m) := by
  induction m generalizing l with
  | nil =>
    rw [scheduleBy, scheduleBy, List.forall₂_map_left_iff, List.forall₂_map_right_iff]
    refine List.forall₂_same.mpr fun b hb => ?_
    have hnot : ¬ J.Reached l (J.probeTime b) := of_decide_eq_true (List.mem_filter.mp hb).2
    exact ⟨rfl, filter_held_of_not_reached hnot⟩
  | cons x m ih =>
    have htimely : J.Timely ((l ++ [x]) ++ m) := by rwa [List.append_assoc, List.singleton_append]
    have hupto : J.Timely (l ++ [x]) := (List.pairwise_append.mp htimely).1
    rw [scheduleBy, scheduleBy, step_stateAfter, keep_keptAfter, due_keptAfter]
    refine List.rel_append ?_ (ih htimely)
    rw [List.forall₂_map_left_iff, List.forall₂_map_right_iff]
    refine List.forall₂_same.mpr fun b hb => ?_
    exact ⟨rfl, filter_arrived_of_due hupto hb⟩

end CtvAttribution.Library.WatermarkJoin
