import CtvAttribution.Library.Fallible

/-! Computations that may raise for one more reason: they return what a plain computation
returns where a condition holds, and raise elsewhere. -/
namespace CtvAttribution.Library
variable {α β ε ε' : Type}

/-- `x` returns what `y` returns where the condition holds, and nothing elsewhere. -/
def AgreesWhere (condition : Prop) (x : Except ε α) (y : Except ε' α) : Prop :=
  ∀ a, x = .ok a ↔ condition ∧ y = .ok a

namespace AgreesWhere
variable {P Q : Prop} {x : Except ε α} {y : Except ε' α}

theorem congr (h : AgreesWhere P x y) (hPQ : P ↔ Q) : AgreesWhere Q x y := by
  intro a
  rw [h a, hPQ]

theorem isOk_iff (h : AgreesWhere P x y) : (∃ a, x = .ok a) ↔ P ∧ ∃ a, y = .ok a := by
  simp only [h _, exists_and_left]

theorem of_ok (a : α) : AgreesWhere True (.ok a : Except ε α) (.ok a : Except ε' α) := by
  intro b
  simp only [true_and, Except.ok.injEq]

theorem mapError (f : ε' → ε) (y : Except ε' α) : AgreesWhere True (y.mapError f) y := by
  intro a
  rw [mapError_eq_ok_iff, true_and]

/-- What follows need agree only after what came before has returned. -/
theorem bind {f : α → Except ε β} {g : α → Except ε' β} (hx : AgreesWhere P x y)
    (hf : ∀ a, P → y = .ok a → AgreesWhere Q (f a) (g a)) : AgreesWhere (P ∧ Q) (x >>= f) (y >>= g) := by
  intro b
  rw [bind_eq_ok_iff, bind_eq_ok_iff]
  constructor
  · intro h
    obtain ⟨a, ha, hb⟩ := h
    obtain ⟨hP, hy⟩ := (hx a).mp ha
    obtain ⟨hQ, hg⟩ := (hf a hP hy b).mp hb
    exact ⟨⟨hP, hQ⟩, a, hy, hg⟩
  · intro h
    obtain ⟨⟨hP, hQ⟩, a, hy, hg⟩ := h
    exact ⟨a, (hx a).mpr ⟨hP, hy⟩, (hf a hP hy b).mpr ⟨hQ, hg⟩⟩

/-- A step that computes `a` plainly may only raise. -/
theorem bind_ok {a : α} {f : α → Except ε β} {z : Except ε' β} (hx : AgreesWhere P x (.ok a : Except ε' α))
    (hf : AgreesWhere Q (f a) z) : AgreesWhere (P ∧ Q) (x >>= f) z :=
  hx.bind (g := fun _ => z) fun _ _ hb => Except.ok.inj hb ▸ hf

/-- A pure continuation adds no condition. -/
theorem map (hx : AgreesWhere P x y) (f : α → β) :
    AgreesWhere P (x >>= fun a => pure (f a)) (y >>= fun a => pure (f a)) :=
  (hx.bind fun a _ _ => of_ok (f a)).congr (and_iff_left trivial)

/-- A step whose value is not used. -/
theorem before {a : α} (hx : AgreesWhere P x (.ok a : Except ε' α)) (b : β) :
    AgreesWhere P (x >>= fun _ => pure b) (pure b : Except ε' β) :=
  (hx.bind_ok (f := fun _ => pure b) (of_ok b)).congr (and_iff_left trivial)

section loops
variable {condition : α → Prop} {l : List α}

theorem mapM {f : α → Except ε β} {g : α → Except ε' β} (h : ∀ a ∈ l, AgreesWhere (condition a) (f a) (g a)) :
    AgreesWhere (∀ a ∈ l, condition a) (l.mapM f) (l.mapM g) := by
  induction l with
  | nil => exact (of_ok []).congr (by simp)
  | cons a l ih =>
    rw [List.mapM_cons, List.mapM_cons]
    have hrest := ih fun b hb => h b (List.mem_cons_of_mem _ hb)
    refine ((h a List.mem_cons_self).bind fun b _ _ => hrest.map fun bs => b :: bs).congr ?_
    rw [List.forall_mem_cons]

theorem foldlM {f : β → α → Except ε β} {g : β → α → Except ε' β}
    (h : ∀ s, ∀ a ∈ l, AgreesWhere (condition a) (f s a) (g s a)) (s : β) :
    AgreesWhere (∀ a ∈ l, condition a) (l.foldlM f s) (l.foldlM g s) := by
  induction l generalizing s with
  | nil => exact (of_ok s).congr (by simp)
  | cons a l ih =>
    rw [List.foldlM_cons, List.foldlM_cons]
    have hrest := ih fun t b hb => h t b (List.mem_cons_of_mem _ hb)
    refine ((h s a List.mem_cons_self).bind fun t _ _ => hrest t).congr ?_
    rw [List.forall_mem_cons]

end loops
end AgreesWhere
end CtvAttribution.Library
