import CtvAttribution.Library.Interleaving
import CtvAttribution.Library.VersionedRows
import Mathlib.Data.List.Forall2

/-! Replacing tables merged in the background, and scripts over a store that moves underneath
them. A merge puts the current rows of adjacent ones in their place; a script that treats
stores of equal `FINAL` alike cannot tell. -/
namespace CtvAttribution.Library

section merges
variable {α κ ν : Type} [LinearOrder ν] [DecidableEq κ]

/-- The tables have one `FINAL`. -/
def SameFinal (key : α → κ) (version : α → ν) (l m : List α) : Prop :=
  ∀ k, finalRow key version l k = finalRow key version m k

/-- One merge: of adjacent rows the current ones stay, in whatever order they are written. -/
inductive MergesTo (key : α → κ) (version : α → ν) : List α → List α → Prop where
  | merge (before : List α) {rows merged : List α} (after : List α) : merged.Perm (finalRows key version rows) →
      MergesTo key version (before ++ rows ++ after) (before ++ merged ++ after)

variable {key : α → κ} {version : α → ν} {l l' m m' rows merged : List α}

theorem SameFinal.refl (l : List α) : SameFinal key version l l := fun _ => rfl

theorem SameFinal.trans {n : List α} (h : SameFinal key version l m) (h' : SameFinal key version m n) :
    SameFinal key version l n := fun k => (h k).trans (h' k)

theorem SameFinal.append (h : SameFinal key version l m) (h' : SameFinal key version l' m') :
    SameFinal key version (l ++ l') (m ++ m') := by
  intro k
  rw [finalRow_append, finalRow_append, h k, h' k]

theorem SameFinal.finalRows_perm (h : SameFinal key version l m) :
    (finalRows key version l).Perm (finalRows key version m) := Library.finalRows_perm h

/-- The current rows in any order read as the rows they were taken from. -/
theorem finalRow_of_perm_collapse (h : merged.Perm (collapse key version rows)) (k : κ) :
    finalRow key version merged k = current key version rows k := by
  have hnodup : (merged.map key).Nodup := (h.map key).nodup_iff.mpr (nodup_key_collapse rows)
  cases hk : current key version rows k with
  | none =>
    rw [current_eq_none] at hk
    rw [finalRow_eq_none]
    intro x hx
    exact hk x (current_eq_some (mem_collapse.mp (h.mem_iff.mp hx))).1
  | some r =>
    obtain rfl := (current_eq_some hk).2.1
    exact finalRow_of_nodup hnodup (h.mem_iff.mpr (mem_collapse.mpr hk))

theorem sameFinal_of_perm (h : merged.Perm (finalRows key version rows)) : SameFinal key version merged rows :=
  finalRow_of_perm_collapse h

/-- No merge is seen through `FINAL`. -/
theorem MergesTo.sameFinal (h : MergesTo key version l m) : SameFinal key version m l := by
  cases h with
  | merge before after h => exact ((SameFinal.refl before).append (sameFinal_of_perm h)).append (.refl after)

/-- A merge only keeps rows. -/
theorem MergesTo.mem (h : MergesTo key version l m) {x : α} (hx : x ∈ m) : x ∈ l := by
  cases h with
  | @merge before rows merged after h =>
    rcases List.mem_append.mp hx with hx | hx
    · rcases List.mem_append.mp hx with hx | hx
      · exact List.mem_append_left _ (List.mem_append_left _ hx)
      · have hrow := (finalRow_eq_some (mem_finalRows.mp (h.mem_iff.mp hx))).1
        exact List.mem_append_left _ (List.mem_append_right _ hrow)
    · exact List.mem_append_right _ hx

/-- The whole table merged holds each key once. -/
theorem mergesTo_finalRows (l : List α) : MergesTo key version l (finalRows key version l) := by
  have h : MergesTo key version ([] ++ l ++ []) ([] ++ finalRows key version l ++ []) := .merge [] [] (.refl _)
  rwa [List.nil_append, List.append_nil, List.nil_append, List.append_nil] at h

end merges

namespace Script
variable {σ ε α β ι : Type}

/-- The scripts do the same, statement by statement, over related stores. -/
inductive Alike (R : σ → σ → Prop) : Script σ ε α → Script σ ε α → Prop where
  | done (a : α) : Alike R (.done a) (.done a)
  | fail (e : ε) : Alike R (.fail e) (.fail e)
  | write {f g : σ → σ} {p q : Script σ ε α} : (∀ s t, R s t → R (f s) (g t)) → Alike R p q →
      Alike R (.write f p) (.write g q)
  | read {k l : σ → Script σ ε α} : (∀ s t, R s t → Alike R (k s) (l t)) → Alike R (.read k) (.read l)

section alike
variable {R : σ → σ → Prop}

theorem Alike.bind {p p' : Script σ ε α} {q q' : α → Script σ ε β} (hp : Alike R p p')
    (hq : ∀ a, Alike R (q a) (q' a)) :
    Alike R (p >>= q) (p' >>= q') := by
  induction hp with
  | done a => exact hq a
  | fail e => exact .fail e
  | write hf _ ih => exact .write hf ih
  | read _ ih => exact .read ih

theorem alike_modify {f g : σ → σ} (h : ∀ s t, R s t → R (f s) (g t)) :
    Alike R (modify f : Script σ ε Unit) (modify g) := .write h (.done ())

/-- What is read may differ as far as the rest does not depend on it. -/
theorem alike_get_bind {q q' : σ → Script σ ε β} (h : ∀ s t, R s t → Alike R (q s) (q' t)) :
    Alike R (get >>= q) (get >>= q') := .read h

theorem alike_ofExcept (x : Except ε α) : Alike R (ofExcept x : Script σ ε α) (ofExcept x) := by
  cases x with
  | ok a => exact .done a
  | error e => exact .fail e

theorem alike_forEach {l : List ι} {body body' : ι → Script σ ε Unit} (h : ∀ i ∈ l, Alike R (body i) (body' i)) :
    Alike R (forEach l body) (forEach l body') := by
  induction l with
  | nil => exact .done ()
  | cons i l ih =>
    exact (h i List.mem_cons_self).bind fun _ => ih fun j hj => h j (List.mem_cons_of_mem _ hj)

theorem alike_collect {l : List ι} {body body' : ι → Script σ ε α} (h : ∀ i ∈ l, Alike R (body i) (body' i)) :
    Alike R (collect l body) (collect l body') := by
  induction l with
  | nil => exact .done []
  | cons i l ih =>
    refine (h i List.mem_cons_self).bind fun a => ?_
    exact (ih fun j hj => h j (List.mem_cons_of_mem _ hj)).bind fun as => .done _

theorem Alike.zoom {τ : Type} {S : τ → τ → Prop} {view : τ → σ} {set : τ → σ → τ} {p q : Script σ ε α}
    (h : Alike R p q) (hview : ∀ x y, S x y → R (view x) (view y))
    (hset : ∀ x y s t, S x y → R s t → S (set x s) (set y t)) : Alike S (p.zoom view set) (q.zoom view set) := by
  induction h with
  | done a => exact .done a
  | fail e => exact .fail e
  | write hf _ ih => exact .write (fun x y hxy => hset x y _ _ hxy (hf _ _ (hview x y hxy))) ih
  | read _ ih => exact .read fun x y hxy => ih _ _ (hview x y hxy)

end alike
end Script

section disturbed
variable {σ ε α : Type} {programs : Script σ ε α → Prop} {B R : σ → σ → Prop} {init : σ}

/-- An interleaving in which the store may also take steps of `B` at any time. -/
inductive Disturbed (programs : Script σ ε α → Prop) (B : σ → σ → Prop) (init : σ) :
    σ → List (Script σ ε α) → Prop where
  | init : Disturbed programs B init init []
  | start {s : σ} {running : List (Script σ ε α)} {p : Script σ ε α} : programs p →
      Disturbed programs B init s running → Disturbed programs B init s (p :: running)
  | read {s : σ} {before after : List (Script σ ε α)} {k : σ → Script σ ε α} :
      Disturbed programs B init s (before ++ .read k :: after) →
      Disturbed programs B init s (before ++ k s :: after)
  | write {s : σ} {before after : List (Script σ ε α)} {f : σ → σ} {rest : Script σ ε α} :
      Disturbed programs B init s (before ++ .write f rest :: after) →
      Disturbed programs B init (f s) (before ++ rest :: after)
  | stop {s : σ} {before after : List (Script σ ε α)} {p : Script σ ε α} :
      Disturbed programs B init s (before ++ p :: after) → Disturbed programs B init s (before ++ after)
  | background {s s' : σ} {running : List (Script σ ε α)} : B s s' →
      Disturbed programs B init s running → Disturbed programs B init s' running

theorem Interleaves.disturbed {s : σ} {earlier : List σ} {running : List (Script σ ε α)}
    (h : Interleaves programs init s earlier running) : Disturbed programs B init s running := by
  induction h with
  | init => exact .init
  | start hp _ ih => exact ih.start hp
  | read _ ih => exact ih.read
  | write _ ih => exact ih.write
  | stop _ ih => exact ih.stop

private theorem forall₂_split {γ : Type} {S : γ → γ → Prop} {before after running : List γ} {p : γ}
    (h : List.Forall₂ S (before ++ p :: after) running) : ∃ before' q after', running = before' ++ q :: after' ∧
      List.Forall₂ S before before' ∧ S p q ∧ List.Forall₂ S after after' := by
  induction before generalizing running with
  | nil =>
    obtain ⟨q, after', hq, hafter, rfl⟩ := List.forall₂_cons_left_iff.mp h
    exact ⟨[], q, after', rfl, .nil, hq, hafter⟩
  | cons x before ih =>
    obtain ⟨y, rest, hy, hrest, rfl⟩ := List.forall₂_cons_left_iff.mp h
    obtain ⟨before', q, after', rfl, hbefore, hq, hafter⟩ := ih hrest
    exact ⟨y :: before', q, after', rfl, .cons hy hbefore, hq, hafter⟩

/-- What happens to a disturbed store happens, up to the relation, to an undisturbed one:
the same scripts are at related points. -/
theorem Disturbed.undisturbed (hinit : R init init) (hprograms : ∀ p, programs p → Script.Alike R p p)
    (hB : ∀ s s' t, B s s' → R s t → R s' t) {s : σ} {running : List (Script σ ε α)}
    (h : Disturbed programs B init s running) : ∃ t earlier running', Interleaves programs init t earlier running' ∧
      R s t ∧ List.Forall₂ (Script.Alike R) running running' := by
  induction h with
  | init => exact ⟨init, [], [], .init, hinit, .nil⟩
  | start hp _ ih =>
    obtain ⟨t, earlier, running', hrun, hR, hall⟩ := ih
    exact ⟨t, earlier, _, .start hp hrun, hR, .cons (hprograms _ hp) hall⟩
  | read _ ih =>
    obtain ⟨t, earlier, running', hrun, hR, hall⟩ := ih
    obtain ⟨before', q, after', rfl, hbefore, hq, hafter⟩ := forall₂_split hall
    cases hq with
    | read hk => exact ⟨t, earlier, _, hrun.read, hR, List.rel_append hbefore (.cons (hk _ _ hR) hafter)⟩
  | write _ ih =>
    obtain ⟨t, earlier, running', hrun, hR, hall⟩ := ih
    obtain ⟨before', q, after', rfl, hbefore, hq, hafter⟩ := forall₂_split hall
    cases hq with
    | write hf hrest => exact ⟨_, _, _, hrun.write, hf _ _ hR, List.rel_append hbefore (.cons hrest hafter)⟩
  | stop _ ih =>
    obtain ⟨t, earlier, running', hrun, hR, hall⟩ := ih
    obtain ⟨before', q, after', rfl, hbefore, _, hafter⟩ := forall₂_split hall
    exact ⟨t, earlier, _, hrun.stop, hR, List.rel_append hbefore hafter⟩
  | background hstep _ ih =>
    obtain ⟨t, earlier, running', hrun, hR, hall⟩ := ih
    exact ⟨t, earlier, running', hrun, hB _ _ _ hstep hR, hall⟩

end disturbed
end CtvAttribution.Library
