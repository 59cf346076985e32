import CtvAttribution.Library.Script

/-! Interleavings of scripts over one store. Any number of them may start, each of them
may stop for good before any of its statements, and every store ever held is remembered. -/
namespace CtvAttribution.Library
variable {σ ε α β ι : Type}

/-- The store, the ones held before it (newest first), and the scripts still running. -/
inductive Interleaves (programs : Script σ ε α → Prop) (init : σ) :
    σ → List σ → List (Script σ ε α) → Prop where
  | init : Interleaves programs init init [] []
  | start {s : σ} {earlier : List σ} {running : List (Script σ ε α)} {p : Script σ ε α} : programs p →
      Interleaves programs init s earlier running → Interleaves programs init s earlier (p :: running)
  | read {s : σ} {earlier : List σ} {before after : List (Script σ ε α)} {k : σ → Script σ ε α} :
      Interleaves programs init s earlier (before ++ .read k :: after) →
      Interleaves programs init s earlier (before ++ k s :: after)
  | write {s : σ} {earlier : List σ} {before after : List (Script σ ε α)} {f : σ → σ} {rest : Script σ ε α} :
      Interleaves programs init s earlier (before ++ .write f rest :: after) →
      Interleaves programs init (f s) (s :: earlier) (before ++ rest :: after)
  | stop {s : σ} {earlier : List σ} {before after : List (Script σ ε α)} {p : Script σ ε α} :
      Interleaves programs init s earlier (before ++ p :: after) →
      Interleaves programs init s earlier (before ++ after)

section interleaves
variable {programs : Script σ ε α → Prop} {init : σ}

/-- What holds of the stores and of each running script, while every statement keeps both:
its own script's part over the new store, and the part of any other one. -/
structure InterleavingInvariant (programs : Script σ ε α → Prop) (init : σ) (I : σ → List σ → Prop)
    (T : σ → List σ → Script σ ε α → Prop) : Prop where
  init : I init []
  start : ∀ s earlier p, programs p → I s earlier → T s earlier p
  read : ∀ s earlier k, I s earlier → T s earlier (.read k) → T s earlier (k s)
  write : ∀ s earlier f rest, I s earlier → T s earlier (.write f rest) → I (f s) (s :: earlier)
  next : ∀ s earlier f rest, I s earlier → T s earlier (.write f rest) → T (f s) (s :: earlier) rest
  other : ∀ s earlier f rest p, T s earlier (.write f rest) → T s earlier p → T (f s) (s :: earlier) p

theorem Interleaves.invariant {I : σ → List σ → Prop} {T : σ → List σ → Script σ ε α → Prop}
    (hI : InterleavingInvariant programs init I T) {s : σ} {earlier : List σ} {running : List (Script σ ε α)}
    (h : Interleaves programs init s earlier running) : I s earlier ∧ ∀ p ∈ running, T s earlier p := by
  induction h with
  | init => exact ⟨hI.init, fun _ hp => absurd hp List.not_mem_nil⟩
  | start hp _ ih =>
    refine ⟨ih.1, fun q hq => ?_⟩
    rcases List.mem_cons.mp hq with rfl | hq
    · exact hI.start _ _ _ hp ih.1
    · exact ih.2 q hq
  | read _ ih =>
    refine ⟨ih.1, fun q hq => ?_⟩
    rcases List.mem_append.mp hq with hq | hq
    · exact ih.2 q (List.mem_append_left _ hq)
    rcases List.mem_cons.mp hq with rfl | hq
    · exact hI.read _ _ _ ih.1 (ih.2 _ (List.mem_append_right _ List.mem_cons_self))
    · exact ih.2 q (List.mem_append_right _ (List.mem_cons_of_mem _ hq))
  | write _ ih =>
    have hrun := ih.2 _ (List.mem_append_right _ List.mem_cons_self)
    refine ⟨hI.write _ _ _ _ ih.1 hrun, fun q hq => ?_⟩
    rcases List.mem_append.mp hq with hq | hq
    · exact hI.other _ _ _ _ q hrun (ih.2 q (List.mem_append_left _ hq))
    rcases List.mem_cons.mp hq with rfl | hq
    · exact hI.next _ _ _ _ ih.1 hrun
    · exact hI.other _ _ _ _ q hrun (ih.2 q (List.mem_append_right _ (List.mem_cons_of_mem _ hq)))
  | stop _ ih =>
    refine ⟨ih.1, fun q hq => ih.2 q ?_⟩
    rcases List.mem_append.mp hq with hq | hq
    · exact List.mem_append_left _ hq
    · exact List.mem_append_right _ (List.mem_cons_of_mem _ hq)

/-- One of the scripts may run on, to where its first part has ended, while the others wait. -/
theorem Interleaves.ends_bind {s t : σ} {earlier : List σ} {p : Script σ ε β} {q : β → Script σ ε α}
    {others : List (Script σ ε α)} {b : β} (h : Interleaves programs init s earlier (p.bind q :: others))
    (hp : p.Ends s b t) : ∃ earlier', Interleaves programs init t earlier' (q b :: others) := by
  induction p generalizing s earlier with
  | done a =>
    obtain ⟨rfl, rfl⟩ := Script.ends_done.mp hp
    exact ⟨earlier, h⟩
  | fail e => exact absurd hp Script.ends_fail
  | write f rest ih =>
    have hrun : Interleaves programs init s earlier ([] ++ .write f (rest.bind q) :: others) := h
    exact ih hrun.write hp
  | read k ih =>
    have hrun : Interleaves programs init s earlier ([] ++ .read (fun s => (k s).bind q) :: others) := h
    exact ih s hrun.read hp

theorem Interleaves.ends {s t : σ} {earlier : List σ} {p : Script σ ε α} {others : List (Script σ ε α)} {a : α}
    (h : Interleaves programs init s earlier (p :: others)) (hp : p.Ends s a t) :
    ∃ earlier', Interleaves programs init t earlier' others := by
  rw [← Script.bind_done p] at h
  obtain ⟨earlier', hdone⟩ := h.ends_bind hp
  have hrun : Interleaves programs init t earlier' ([] ++ .done a :: others) := hdone
  exact ⟨earlier', hrun.stop⟩

end interleaves

namespace Script

/-- Every statement of the script is one of `P`, whatever it read before. -/
def Writes (P : (σ → σ) → Prop) : Script σ ε α → Prop
  | .done _ => True
  | .fail _ => True
  | .write f rest => P f ∧ Writes P rest
  | .read k => ∀ s, Writes P (k s)

section writes
variable {P : (σ → σ) → Prop}

theorem writes_bind {p : Script σ ε α} {q : α → Script σ ε β} (hp : p.Writes P) (hq : ∀ a, (q a).Writes P) :
    (p.bind q).Writes P := by
  induction p with
  | done a => exact hq a
  | fail e => exact trivial
  | write f rest ih => exact ⟨hp.1, ih hp.2⟩
  | read k ih => exact fun s => ih s (hp s)

theorem writes_modify {f : σ → σ} (h : P f) : (modify f : Script σ ε Unit).Writes P := ⟨h, trivial⟩

theorem writes_forEach {l : List ι} {body : ι → Script σ ε Unit} (h : ∀ i ∈ l, (body i).Writes P) :
    (forEach l body).Writes P := by
  induction l with
  | nil => exact trivial
  | cons i l ih =>
    exact writes_bind (h i List.mem_cons_self) fun _ => ih fun j hj => h j (List.mem_cons_of_mem _ hj)

end writes
end Script
end CtvAttribution.Library
