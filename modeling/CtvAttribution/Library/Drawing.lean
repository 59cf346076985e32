import Mathlib.Data.List.Forall2

/-! Programs over a sequence of random draws, and what holds of every outcome they have,
whatever the draws are. -/
namespace CtvAttribution.Library
variable {ε α β ι : Type}

/-- The draws still to come are the state; a program may fail. -/
abbrev Drawing (ε α : Type) := StateT (List Nat) (Except ε) α

namespace Drawing

/-- The next draw; a program that needs more than there are fails. -/
def draw (exhausted : ε) : Drawing ε Nat := do
  match ← get with
  | [] => throw exhausted
  | d :: ds =>
    set ds
    return d

/-- An element of a list, by the next draw. -/
def choose (exhausted empty : ε) (xs : List α) : Drawing ε α := do
  match xs[(← draw exhausted) % xs.length]? with
  | some x => return x
  | none => throw empty

/-- Whatever the draws, a result satisfies `P`. -/
def Yields (P : α → Prop) (x : Drawing ε α) : Prop :=
  ∀ draws a rest, x.run draws = .ok (a, rest) → P a

section yields
variable {P : α → Prop} {Q : β → Prop} {x : Drawing ε α} {f : α → Drawing ε β}

theorem yields_pure {a : α} (h : P a) : Yields P (pure a : Drawing ε α) := by
  intro draws b rest hrun
  cases hrun
  exact h

theorem yields_throw (e : ε) : Yields P (throw e : Drawing ε α) := by
  intro draws b rest hrun
  cases hrun

theorem yields_any (x : Drawing ε α) : Yields (fun _ => True) x := fun _ _ _ _ => trivial

theorem Yields.mono {P' : α → Prop} (h : Yields P x) (hPP : ∀ a, P a → P' a) : Yields P' x :=
  fun draws a rest hrun => hPP a (h draws a rest hrun)

theorem yields_bind (hx : Yields P x) (hf : ∀ a, P a → Yields Q (f a)) : Yields Q (x >>= f) := by
  intro draws b rest hrun
  rw [StateT.run_bind] at hrun
  cases hmid : x.run draws with
  | error e =>
    rw [hmid] at hrun
    cases hrun
  | ok p =>
    rw [hmid] at hrun
    exact hf p.1 (hx draws p.1 p.2 hmid) p.2 b rest hrun

/-- What a first part returns does not matter. -/
theorem yields_then (hf : ∀ a, Yields Q (f a)) : Yields Q (x >>= f) :=
  yields_bind (yields_any x) fun a _ => hf a

theorem yields_ite {c : Prop} [Decidable c] {y : Drawing ε α} (hx : c → Yields P x) (hy : ¬ c → Yields P y) :
    Yields P (if c then x else y) := by
  split
  · rename_i h
    exact hx h
  · rename_i h
    exact hy h

theorem yields_choose (exhausted empty : ε) (xs : List α) : Yields (· ∈ xs) (choose exhausted empty xs) := by
  refine yields_then fun d => ?_
  cases hget : xs[d % xs.length]? with
  | some a => exact yields_pure (List.mem_of_getElem? hget)
  | none => exact yields_throw empty

/-- A loop keeps what each round keeps, over the part of the list it is done with. -/
theorem yields_foldlM {I : List ι → β → Prop} {step : β → ι → Drawing ε β} {l : List ι} {b : β}
    (hstep : ∀ done b i, i ∈ l → I done b → Yields (I (done ++ [i])) (step b i)) (hb : I [] b) :
    Yields (I l) (l.foldlM step b) := by
  have main (done todo : List ι) (b : β) (hsub : ∀ i ∈ todo, i ∈ l) (hb : I done b) :
      Yields (I (done ++ todo)) (todo.foldlM step b) := by
    induction todo generalizing done b with
    | nil =>
      rw [List.append_nil]
      exact yields_pure hb
    | cons i todo ih =>
      rw [List.foldlM_cons]
      refine yields_bind (hstep done b i (hsub i List.mem_cons_self) hb) fun b' hb' => ?_
      have hrest := ih (done ++ [i]) b' (fun j hj => hsub j (List.mem_cons_of_mem i hj)) hb'
      rwa [List.append_assoc] at hrest
  exact main [] l b (fun _ hi => hi) hb

/-- A loop that collects its results, one for each element. -/
theorem yields_mapM {R : ι → α → Prop} {body : ι → Drawing ε α} {l : List ι}
    (h : ∀ i ∈ l, Yields (R i) (body i)) : Yields (List.Forall₂ R l) (l.mapM body) := by
  induction l with
  | nil => exact yields_pure .nil
  | cons i l ih =>
    rw [List.mapM_cons]
    refine yields_bind (h i List.mem_cons_self) fun a ha => ?_
    refine yields_bind (ih fun j hj => h j (List.mem_cons_of_mem i hj)) fun as has => ?_
    exact yields_pure (.cons ha has)

theorem yields_mapM_forall {body : ι → Drawing ε α} {l : List ι} (h : ∀ i ∈ l, Yields P (body i)) :
    Yields (fun as => ∀ a ∈ as, P a) (l.mapM body) := by
  refine (yields_mapM (R := fun _ a => P a) h).mono fun as has => ?_
  induction has with
  | nil => exact fun _ ha => absurd ha List.not_mem_nil
  | cons ha _ ih => exact List.forall_mem_cons.mpr ⟨ha, ih fun j hj => h j (List.mem_cons_of_mem _ hj)⟩

end yields
end Drawing
end CtvAttribution.Library
