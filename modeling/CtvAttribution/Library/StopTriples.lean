import CtvAttribution.Library.Script

/-! Triples for scripts that may be stopped. From `P` whatever is left at a stop meets `C`,
and a completed run meets `Q` of its result. -/
namespace CtvAttribution.Library.Script
variable {σ ε α β ι : Type}

structure Triple (P : σ → Prop) (p : Script σ ε α) (C : σ → Prop) (Q : α → σ → Prop) : Prop where
  stopped : ∀ s t, P s → p.Leaves s t → C t
  completed : ∀ s a t, P s → p.Ends s a t → Q a t

section rules
variable {P C : σ → Prop} {Q : α → σ → Prop}

theorem Triple.conseq {P' C' : σ → Prop} {Q' : α → σ → Prop} {p : Script σ ε α} (h : Triple P p C Q)
    (hP : ∀ s, P' s → P s) (hC : ∀ s, C s → C' s) (hQ : ∀ a s, Q a s → Q' a s) : Triple P' p C' Q' where
  stopped s t hs hl := hC t (h.stopped s t (hP s hs) hl)
  completed s a t hs he := hQ a t (h.completed s a t (hP s hs) he)

/-- A fact about values may be taken out of the precondition. -/
theorem triple_of_fact {R : Prop} {p : Script σ ε α} (h : R → Triple P p C Q) : Triple (fun s => R ∧ P s) p C Q where
  stopped s t hs hl := (h hs.1).stopped s t hs.2 hl
  completed s a t hs he := (h hs.1).completed s a t hs.2 he

theorem triple_done (a : α) (hC : ∀ s, P s → C s) : (done a : Script σ ε α).Triple P C fun b s => b = a ∧ P s := by
  constructor
  · intro s t hs hl
    rw [leaves_done.mp hl]
    exact hC s hs
  · intro s b t hs he
    obtain ⟨rfl, rfl⟩ := ends_done.mp he
    exact ⟨rfl, hs⟩

/-- A write is stopped before or after. -/
theorem triple_modify {f : σ → σ} {R : σ → Prop} (hf : ∀ s, P s → R (f s)) (hP : ∀ s, P s → C s) (hR : ∀ s, R s → C s) :
    (modify f : Script σ ε Unit).Triple P C fun _ => R := by
  constructor
  · intro s t hs hl
    rcases leaves_modify.mp hl with rfl | rfl
    · exact hP t hs
    · exact hR _ (hf s hs)
  · intro s _ t hs he
    rw [ends_modify.mp he]
    exact hf s hs

theorem triple_ofExcept (x : Except ε α) (hC : ∀ s, P s → C s) :
    (ofExcept x : Script σ ε α).Triple P C fun a s => x = .ok a ∧ P s := by
  constructor
  · intro s t hs hl
    rw [leaves_ofExcept.mp hl]
    exact hC s hs
  · intro s a t hs he
    obtain ⟨rfl, ha⟩ := ends_ofExcept.mp he
    exact ⟨ha, hs⟩

theorem Triple.bind {p : Script σ ε α} {q : α → Script σ ε β} {R : β → σ → Prop} (hp : Triple P p C Q)
    (hq : ∀ a, Triple (Q a) (q a) C R) : Triple P (p >>= q) C R := by
  constructor
  · intro s t hs hl
    rcases leaves_bind' hl with h | ⟨a, m, hm, h⟩
    · exact hp.stopped s t hs h
    · exact (hq a).stopped m t (hp.completed s a m hs hm) h
  · intro s b t hs he
    obtain ⟨a, m, hm, h⟩ := ends_bind'.mp he
    exact (hq a).completed m b t (hp.completed s a m hs hm) h

theorem Triple.and {P' C' : σ → Prop} {Q' : α → σ → Prop} {p : Script σ ε α} (h : Triple P p C Q)
    (h' : Triple P' p C' Q') :
    Triple (fun s => P s ∧ P' s) p (fun s => C s ∧ C' s) fun a s => Q a s ∧ Q' a s where
  stopped s t hs hl := ⟨h.stopped s t hs.1 hl, h'.stopped s t hs.2 hl⟩
  completed s a t hs he := ⟨h.completed s a t hs.1 he, h'.completed s a t hs.2 he⟩

end rules

section loops
variable {C : σ → Prop}

/-- A loop, by an invariant over the rounds done so far. -/
theorem triple_forEach {I : List ι → σ → Prop} {l : List ι} (body : ι → Script σ ε Unit)
    (hC : ∀ past s, I past s → C s) (h : ∀ past, ∀ i ∈ l, (body i).Triple (I past) C fun _ => I (past ++ [i]))
    (past : List ι) : (forEach l body).Triple (I past) C fun _ => I (past ++ l) := by
  induction l generalizing past with
  | nil =>
    rw [List.append_nil]
    exact (triple_done () (hC past)).conseq (fun _ h => h) (fun _ h => h) fun _ _ h => h.2
  | cons i l ih =>
    refine (h past i List.mem_cons_self).bind fun _ => ?_
    have hrest := ih (fun past j hj => h past j (List.mem_cons_of_mem _ hj)) (past ++ [i])
    rwa [List.append_assoc] at hrest

/-- A collecting loop, by an invariant over the rounds done and what they returned. -/
theorem triple_collect {I : List ι → List α → σ → Prop} {l : List ι} (body : ι → Script σ ε α)
    (hC : ∀ past as s, I past as s → C s)
    (h : ∀ past as, ∀ i ∈ l, (body i).Triple (I past as) C fun a => I (past ++ [i]) (as ++ [a]))
    (past : List ι) (as : List α) : (collect l body).Triple (I past as) C fun bs => I (past ++ l) (as ++ bs) := by
  induction l generalizing past as with
  | nil =>
    rw [List.append_nil]
    refine (triple_done [] (hC past as)).conseq (fun _ h => h) (fun _ h => h) fun bs _ h => ?_
    rw [h.1, List.append_nil]
    exact h.2
  | cons i l ih =>
    refine (h past as i List.mem_cons_self).bind fun a => ?_
    refine (ih (fun past as j hj => h past as j (List.mem_cons_of_mem _ hj)) (past ++ [i]) (as ++ [a])).bind fun bs => ?_
    refine (triple_done (a :: bs) (hC _ _)).conseq (fun _ h => h) (fun _ h => h) fun cs _ h => ?_
    rw [h.1]
    have hs := h.2
    rwa [List.append_assoc, List.append_assoc] at hs

end loops

/-- From every store the script runs to its end. -/
def Total (p : Script σ ε α) : Prop := ∀ s, ∃ a t, p.Ends s a t

section total

theorem total_done (a : α) : (done a : Script σ ε α).Total := fun s => ⟨a, s, ends_done.mpr ⟨rfl, rfl⟩⟩

theorem total_modify (f : σ → σ) : (modify f : Script σ ε Unit).Total := fun s => ⟨(), f s, ends_modify.mpr rfl⟩

theorem total_ofExcept {x : Except ε α} {a : α} (h : x = .ok a) : (ofExcept x : Script σ ε α).Total :=
  fun s => ⟨a, s, ends_ofExcept.mpr ⟨rfl, h⟩⟩

/-- What follows a script need only run on from its results. -/
theorem Total.bind_of_ends {p : Script σ ε α} {q : α → Script σ ε β} {R : α → Prop} (hp : p.Total)
    (hR : p.Triple (fun _ => True) (fun _ => True) fun a _ => R a) (hq : ∀ a, R a → (q a).Total) : (p >>= q).Total := by
  intro s
  obtain ⟨a, m, hm⟩ := hp s
  obtain ⟨b, t, ht⟩ := hq a (hR.completed s a m trivial hm) m
  exact ⟨b, t, ends_bind'.mpr ⟨a, m, hm, ht⟩⟩

theorem Total.bind {p : Script σ ε α} {q : α → Script σ ε β} (hp : p.Total) (hq : ∀ a, (q a).Total) : (p >>= q).Total :=
  hp.bind_of_ends (R := fun _ => True) ⟨fun _ _ _ _ => trivial, fun _ _ _ _ _ => trivial⟩ fun a _ => hq a

theorem total_forEach {l : List ι} {body : ι → Script σ ε Unit} (h : ∀ i ∈ l, (body i).Total) :
    (forEach l body).Total := by
  induction l with
  | nil => exact total_done ()
  | cons i l ih => exact (h i List.mem_cons_self).bind fun _ => ih fun j hj => h j (List.mem_cons_of_mem _ hj)

theorem total_collect {l : List ι} {body : ι → Script σ ε α} (h : ∀ i ∈ l, (body i).Total) :
    (collect l body).Total := by
  induction l with
  | nil => exact total_done []
  | cons i l ih =>
    refine (h i List.mem_cons_self).bind fun a => ?_
    exact (ih fun j hj => h j (List.mem_cons_of_mem _ hj)).bind fun as => total_done _

end total
end CtvAttribution.Library.Script
