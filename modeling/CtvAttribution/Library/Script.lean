import Mathlib.Logic.Basic

/-! Scripts that write a store step by step. A script can be stopped before any of its
writes; what it had written by then stays. -/
namespace CtvAttribution.Library
variable {σ ε α β ι : Type}

/-- `batched(l, n)`: consecutive chunks of at most `n`. The fuel bounds their number. -/
def batchedFrom (n : Nat) : Nat → List α → List (List α)
  | 0, _ => []
  | _ + 1, [] => []
  | fuel + 1, a :: l => (a :: l).take n :: batchedFrom n fuel ((a :: l).drop n)

def batched (n : Nat) (l : List α) : List (List α) := batchedFrom n l.length l

theorem flatten_batched {n : Nat} (hn : 0 < n) (l : List α) : (batched n l).flatten = l := by
  have main (fuel : Nat) : ∀ l : List α, l.length ≤ fuel → (batchedFrom n fuel l).flatten = l := by
    induction fuel with
    | zero =>
      intro l hl
      have hnil : l = [] := List.eq_nil_of_length_eq_zero (Nat.le_zero.mp hl)
      rw [hnil]
      rfl
    | succ fuel ih =>
      intro l hl
      cases l with
      | nil => rfl
      | cons a l =>
        have hdrop : ((a :: l).drop n).length ≤ fuel := by
          rw [List.length_drop]
          rw [List.length_cons] at hl ⊢
          omega
        rw [batchedFrom, List.flatten_cons, ih _ hdrop, List.take_append_drop]
  exact main l.length l (Nat.le_refl _)

/-- Reads see the whole store, writes are atomic, and a failure undoes nothing. -/
inductive Script (σ ε α : Type) where
  | done (a : α)
  | fail (e : ε)
  | write (f : σ → σ) (rest : Script σ ε α)
  | read (k : σ → Script σ ε α)

namespace Script

def bind : Script σ ε α → (α → Script σ ε β) → Script σ ε β
  | .done a, q => q a
  | .fail e, _ => .fail e
  | .write f rest, q => .write f (rest.bind q)
  | .read k, q => .read fun s => (k s).bind q

instance : Monad (Script σ ε) where
  pure := .done
  bind := bind

protected theorem bind_assoc {γ : Type} (p : Script σ ε α) (q : α → Script σ ε β) (r : β → Script σ ε γ) :
    (p.bind q).bind r = p.bind fun a => (q a).bind r := by
  induction p with
  | done a => rfl
  | fail e => rfl
  | write f rest ih => exact congrArg (Script.write f) ih
  | read k ih => exact congrArg Script.read (funext ih)

theorem bind_done (p : Script σ ε α) : p.bind .done = p := by
  induction p with
  | done a => rfl
  | fail e => rfl
  | write f rest ih => exact congrArg (Script.write f) ih
  | read k ih => exact congrArg Script.read (funext ih)

instance : LawfulMonad (Script σ ε) := .mk' _ bind_done (fun _ _ => rfl) Script.bind_assoc

def get : Script σ ε σ := .read .done
def modify (f : σ → σ) : Script σ ε Unit := .write f (.done ())

def ofExcept : Except ε α → Script σ ε α
  | .ok a => .done a
  | .error e => .fail e

/-- Act on a part of a larger store. -/
def zoom {τ : Type} (view : τ → σ) (set : τ → σ → τ) : Script σ ε α → Script τ ε α
  | .done a => .done a
  | .fail e => .fail e
  | .write f rest => .write (fun t => set t (f (view t))) (rest.zoom view set)
  | .read k => .read fun t => (k (view t)).zoom view set

/-- `for i in l: body i`. -/
def forEach (l : List ι) (body : ι → Script σ ε Unit) : Script σ ε Unit :=
  l.foldr (fun i rest => (body i).bind fun _ => rest) (.done ())

/-- A loop that collects what its rounds return. -/
def collect (l : List ι) (body : ι → Script σ ε α) : Script σ ε (List α) :=
  l.foldr (fun i rest => (body i).bind fun a => rest.bind fun as => .done (a :: as)) (.done [])

/-- The uninterrupted run: the store it leaves, and its result or failure. -/
def run : Script σ ε α → σ → σ × Except ε α
  | .done a, s => (s, .ok a)
  | .fail e, s => (s, .error e)
  | .write f rest, s => rest.run (f s)
  | .read k, s => (k s).run s

/-- The stores a run can leave when it is stopped: before a write, on failure, or at its end. -/
inductive Leaves : Script σ ε α → σ → σ → Prop where
  | done (a : α) (s : σ) : Leaves (.done a) s s
  | fail (e : ε) (s : σ) : Leaves (.fail e) s s
  | stop (f : σ → σ) (rest : Script σ ε α) (s : σ) : Leaves (.write f rest) s s
  | write (f : σ → σ) (rest : Script σ ε α) {s t : σ} : Leaves rest (f s) t → Leaves (.write f rest) s t
  | read (k : σ → Script σ ε α) {s t : σ} : Leaves (k s) s t → Leaves (.read k) s t

/-- The run from `s` completes with `a` and leaves `t`. -/
def Ends (p : Script σ ε α) (s : σ) (a : α) (t : σ) : Prop := p.run s = (t, .ok a)

/-- The run from `s` fails with `e` and leaves `t`. -/
def Fails (p : Script σ ε α) (s : σ) (e : ε) (t : σ) : Prop := p.run s = (t, .error e)

/-- The same script under a caller's names for its failures. -/
def mapFail {ε' : Type} (f : ε → ε') : Script σ ε α → Script σ ε' α
  | .done a => .done a
  | .fail e => .fail (f e)
  | .write g rest => .write g (rest.mapFail f)
  | .read k => .read fun s => (k s).mapFail f

theorem Ends.leaves {p : Script σ ε α} {s t : σ} {a : α} (h : p.Ends s a t) : p.Leaves s t := by
  induction p generalizing s with
  | done b =>
    obtain ⟨rfl, _⟩ := Prod.mk.inj h
    exact .done b s
  | fail e => exact nomatch (Prod.mk.inj h).2
  | write f rest ih => exact .write f rest (ih h)
  | read k ih => exact .read k (ih s h)

section ends
variable {s t : σ} {a : α} {b : β}

@[simp] theorem ends_done {a' : α} : (done a : Script σ ε α).Ends s a' t ↔ t = s ∧ a' = a := by
  simp [Ends, run, eq_comm]

@[simp] theorem ends_pure {a' : α} : (pure a : Script σ ε α).Ends s a' t ↔ t = s ∧ a' = a := ends_done

@[simp] theorem ends_fail {e : ε} : ¬ (fail e : Script σ ε α).Ends s a t := by
  simp [Ends, run]

@[simp] theorem ends_get {r : σ} : (get : Script σ ε σ).Ends s r t ↔ t = s ∧ r = s := by
  simp [Ends, get, run, eq_comm]

@[simp] theorem ends_modify {f : σ → σ} {u : Unit} :
    (modify f : Script σ ε Unit).Ends s u t ↔ t = f s := by
  simp [Ends, modify, run, eq_comm]

theorem ends_ofExcept {x : Except ε α} : (ofExcept x : Script σ ε α).Ends s a t ↔ t = s ∧ x = .ok a := by
  cases x with
  | ok b => simp [ofExcept, eq_comm]
  | error e => simp [ofExcept]

/-- A sequence completes through a store in between. -/
theorem ends_bind {p : Script σ ε α} {q : α → Script σ ε β} :
    (p.bind q).Ends s b t ↔ ∃ a m, p.Ends s a m ∧ (q a).Ends m b t := by
  induction p generalizing s with
  | done a =>
    simp only [bind, ends_done]
    exact ⟨fun h => ⟨a, s, ⟨rfl, rfl⟩, h⟩, fun ⟨_, _, ⟨hm, ha⟩, h⟩ => by rw [ha, hm] at h; exact h⟩
  | fail e => simp [bind]
  | write f rest ih => exact ih
  | read k ih => exact ih s

theorem ends_bind' {p : Script σ ε α} {q : α → Script σ ε β} :
    (p >>= q).Ends s b t ↔ ∃ a m, p.Ends s a m ∧ (q a).Ends m b t := ends_bind

@[simp] theorem ends_forEach_nil {body : ι → Script σ ε Unit} {u : Unit} :
    (forEach [] body).Ends s u t ↔ t = s := by
  simp [forEach]

theorem ends_forEach_cons {body : ι → Script σ ε Unit} {i : ι} {l : List ι} {u : Unit} :
    (forEach (i :: l) body).Ends s u t ↔ ∃ m, (body i).Ends s () m ∧ (forEach l body).Ends m u t := by
  change ((body i).bind fun _ => forEach l body).Ends s u t ↔ _
  rw [ends_bind]
  exact ⟨fun ⟨_, m, h⟩ => ⟨m, h⟩, fun ⟨m, h⟩ => ⟨(), m, h⟩⟩

/-- A loop whose rounds always complete is a fold. -/
theorem ends_forEach {body : ι → Script σ ε Unit} {f : ι → σ → σ}
    (h : ∀ i s t, (body i).Ends s () t ↔ t = f i s) {l : List ι} {u : Unit} :
    (forEach l body).Ends s u t ↔ t = l.foldl (fun s i => f i s) s := by
  induction l generalizing s with
  | nil => simp
  | cons i l ih =>
    rw [ends_forEach_cons, List.foldl_cons]
    constructor
    · intro ⟨m, hm, ht⟩
      rw [(h i s m).mp hm] at ht
      exact ih.mp ht
    · intro ht
      exact ⟨f i s, (h i s _).mpr rfl, ih.mpr ht⟩

theorem ends_collect_nil {body : ι → Script σ ε α} {as : List α} :
    (collect [] body).Ends s as t ↔ t = s ∧ as = [] := ends_done

theorem ends_collect_cons {body : ι → Script σ ε α} {i : ι} {l : List ι} {as : List α} :
    (collect (i :: l) body).Ends s as t ↔ ∃ a m bs, (body i).Ends s a m ∧
      (collect l body).Ends m bs t ∧ as = a :: bs := by
  change ((body i).bind fun a => (collect l body).bind fun bs => .done (a :: bs)).Ends s as t ↔ _
  rw [ends_bind]
  simp only [ends_bind, ends_done]
  constructor
  · intro ⟨a, m, ha, bs, t', hbs, ht, has⟩
    rw [ht]
    exact ⟨a, m, bs, ha, hbs, has⟩
  · intro ⟨a, m, bs, ha, hbs, has⟩
    exact ⟨a, m, ha, bs, t, hbs, rfl, has⟩

theorem ends_zoom {τ : Type} {view : τ → σ} {set : τ → σ → τ} (hview : ∀ x y, view (set x y) = y)
    (hset : ∀ x y z, set (set x y) z = set x z) (hself : ∀ x, set x (view x) = x)
    {p : Script σ ε α} {x y : τ} :
    (p.zoom view set).Ends x a y ↔ ∃ t, p.Ends (view x) a t ∧ y = set x t := by
  induction p generalizing x with
  | done b =>
    simp only [zoom, ends_done]
    constructor
    · rintro ⟨rfl, rfl⟩
      exact ⟨_, ⟨rfl, rfl⟩, (hself _).symm⟩
    · rintro ⟨_, ⟨rfl, rfl⟩, rfl⟩
      exact ⟨hself x, rfl⟩
  | fail e => simp [zoom]
  | write f rest ih =>
    change (rest.zoom view set).Ends (set x (f (view x))) a y ↔ ∃ t, rest.Ends (f (view x)) a t ∧ _
    rw [ih, hview]
    simp only [hset]
  | read k ih => exact ih (view x)

@[simp] theorem ends_mapFail {ε' : Type} {f : ε → ε'} {p : Script σ ε α} :
    (p.mapFail f).Ends s a t ↔ p.Ends s a t := by
  induction p generalizing s with
  | done b => simp [mapFail]
  | fail e => simp [mapFail]
  | write g rest ih => exact ih
  | read k ih => exact ih s

end ends

section fails
variable {s t : σ} {a : α} {e : ε}

/-- A run completes or fails. -/
theorem ends_or_fails (p : Script σ ε α) (s : σ) : (∃ a t, p.Ends s a t) ∨ ∃ e t, p.Fails s e t := by
  cases h : p.run s with
  | mk t result =>
    cases result with
    | ok a => exact .inl ⟨a, t, h⟩
    | error e => exact .inr ⟨e, t, h⟩

theorem Fails.not_ends {p : Script σ ε α} {t' : σ} (h : p.Fails s e t) : ¬ p.Ends s a t' := by
  intro hend
  exact nomatch (Prod.mk.inj (h.symm.trans hend)).2

@[simp] theorem fails_done : ¬ (done a : Script σ ε α).Fails s e t :=
  fun h => h.not_ends (ends_done.mpr ⟨rfl, rfl⟩)

@[simp] theorem fails_fail {e' : ε} : (fail e : Script σ ε α).Fails s e' t ↔ t = s ∧ e' = e := by
  simp [Fails, run, eq_comm]

theorem fails_ofExcept {x : Except ε α} : (ofExcept x).Fails s e t ↔ t = s ∧ x = .error e := by
  cases x with
  | ok b => simp [ofExcept]
  | error e' => simp [ofExcept, eq_comm]

theorem fails_mapFail {ε' : Type} {f : ε → ε'} {p : Script σ ε α} {e' : ε'} :
    (p.mapFail f).Fails s e' t ↔ ∃ e, p.Fails s e t ∧ e' = f e := by
  induction p generalizing s with
  | done b => simp [mapFail]
  | fail e => simp [mapFail, and_assoc]
  | write g rest ih => exact ih
  | read k ih => exact ih s

/-- A sequence fails in its first part or, that completed, in its second. -/
theorem fails_bind {p : Script σ ε α} {q : α → Script σ ε β} :
    (p.bind q).Fails s e t ↔ p.Fails s e t ∨ ∃ a m, p.Ends s a m ∧ (q a).Fails m e t := by
  induction p generalizing s with
  | done a =>
    simp only [bind, fails_done, ends_done, false_or]
    constructor
    · intro h
      exact ⟨a, s, ⟨rfl, rfl⟩, h⟩
    · intro h
      obtain ⟨_, _, ⟨rfl, rfl⟩, h⟩ := h
      exact h
  | fail e' => simp [bind]
  | write f rest ih => exact ih
  | read k ih => exact ih s

theorem fails_bind' {p : Script σ ε α} {q : α → Script σ ε β} :
    (p >>= q).Fails s e t ↔ p.Fails s e t ∨ ∃ a m, p.Ends s a m ∧ (q a).Fails m e t := fails_bind

@[simp] theorem fails_forEach_nil {body : ι → Script σ ε Unit} : ¬ (forEach [] body).Fails s e t := fails_done

theorem fails_forEach_cons {body : ι → Script σ ε Unit} {i : ι} {l : List ι} :
    (forEach (i :: l) body).Fails s e t ↔
      (body i).Fails s e t ∨ ∃ m, (body i).Ends s () m ∧ (forEach l body).Fails m e t := by
  change ((body i).bind fun _ => forEach l body).Fails s e t ↔ _
  rw [fails_bind]
  exact or_congr_right ⟨fun ⟨_, m, h⟩ => ⟨m, h⟩, fun ⟨m, h⟩ => ⟨(), m, h⟩⟩

end fails

section leaves
variable {s t : σ}

@[simp] theorem leaves_done {a : α} : (done a : Script σ ε α).Leaves s t ↔ t = s := by
  constructor
  · intro h
    cases h
    rfl
  · intro h
    subst h
    exact .done a t

@[simp] theorem leaves_pure {a : α} : (pure a : Script σ ε α).Leaves s t ↔ t = s := leaves_done

@[simp] theorem leaves_fail {e : ε} : (fail e : Script σ ε α).Leaves s t ↔ t = s := by
  constructor
  · intro h
    cases h
    rfl
  · intro h
    subst h
    exact .fail e t

@[simp] theorem leaves_ofExcept {x : Except ε α} : (ofExcept x : Script σ ε α).Leaves s t ↔ t = s := by
  cases x with
  | ok a => exact leaves_done
  | error e => exact leaves_fail

@[simp] theorem leaves_get : (get : Script σ ε σ).Leaves s t ↔ t = s := by
  constructor
  · intro h
    cases h with
    | read _ h => exact leaves_done.mp h
  · intro h
    subst h
    exact .read _ (.done t t)

/-- A write is done or not. -/
@[simp] theorem leaves_modify {f : σ → σ} : (modify f : Script σ ε Unit).Leaves s t ↔ t = s ∨ t = f s := by
  constructor
  · intro h
    cases h with
    | stop => exact Or.inl rfl
    | write _ _ h => exact Or.inr (leaves_done.mp h)
  · intro h
    rcases h with h | h
    · subst h
      exact .stop f _ t
    · subst h
      exact .write f _ (.done () _)

/-- A script can be stopped before it begins. -/
theorem leaves_self (p : Script σ ε α) (s : σ) : p.Leaves s s := by
  induction p with
  | done a => exact .done a s
  | fail e => exact .fail e s
  | write f rest => exact .stop f rest s
  | read k ih => exact .read k (ih s)

/-- Or in its second part. -/
theorem leaves_bind_of_ends {p : Script σ ε α} {q : α → Script σ ε β} {a : α} {m : σ} (hp : p.Ends s a m)
    (hq : (q a).Leaves m t) : (p.bind q).Leaves s t := by
  induction p generalizing s with
  | done b =>
    obtain ⟨rfl, rfl⟩ := ends_done.mp hp
    exact hq
  | fail e => exact absurd hp ends_fail
  | write f rest ih => exact .write f _ (ih hp)
  | read k ih => exact .read _ (ih s hp)

theorem leaves_mapFail {ε' : Type} {f : ε → ε'} {p : Script σ ε α} (h : (p.mapFail f).Leaves s t) :
    p.Leaves s t := by
  induction p generalizing s with
  | done a =>
    rw [leaves_done.mp h]
    exact .done a s
  | fail e =>
    rw [leaves_fail.mp h]
    exact .fail e s
  | write g rest ih =>
    cases h with
    | stop => exact .stop g rest _
    | write _ _ h => exact .write g rest (ih h)
  | read k ih =>
    cases h with
    | read _ h => exact .read k (ih s h)

end leaves

/-- Every store the script can leave keeps `I`. -/
def Keeps (I : σ → Prop) (p : Script σ ε α) : Prop := ∀ s t, I s → p.Leaves s t → I t

section keeps
variable {I : σ → Prop}

theorem keeps_done (a : α) : (done a : Script σ ε α).Keeps I := by
  intro s t hs h
  rw [leaves_done.mp h]
  exact hs

theorem keeps_modify {f : σ → σ} (h : ∀ s, I s → I (f s)) : (modify f : Script σ ε Unit).Keeps I := by
  intro s t hs hl
  rcases leaves_modify.mp hl with hl | hl
  · rw [hl]
    exact hs
  · rw [hl]
    exact h s hs

theorem keeps_ofExcept (x : Except ε α) : (ofExcept x : Script σ ε α).Keeps I := by
  intro s t hs h
  rw [leaves_ofExcept.mp h]
  exact hs

theorem keeps_mapFail {ε' : Type} {f : ε → ε'} {p : Script σ ε α} (h : p.Keeps I) : (p.mapFail f).Keeps I :=
  fun s t hs hl => h s t hs (leaves_mapFail hl)

theorem leaves_bind {p : Script σ ε α} {q : α → Script σ ε β} {s t : σ} (h : (p.bind q).Leaves s t) :
    p.Leaves s t ∨ ∃ a m, p.Ends s a m ∧ (q a).Leaves m t := by
  induction p generalizing s with
  | done a => exact Or.inr ⟨a, s, ends_done.mpr ⟨rfl, rfl⟩, h⟩
  | fail e =>
    cases h
    exact Or.inl (.fail e _)
  | write f rest ih =>
    cases h with
    | stop => exact Or.inl (.stop f rest _)
    | write _ _ h =>
      rcases ih h with h | h
      · exact Or.inl (.write f rest h)
      · exact Or.inr h
  | read k ih =>
    cases h with
    | read _ h =>
      rcases ih s h with h | h
      · exact Or.inl (.read k h)
      · exact Or.inr h

theorem leaves_bind' {p : Script σ ε α} {q : α → Script σ ε β} {s t : σ} (h : (p >>= q).Leaves s t) :
    p.Leaves s t ∨ ∃ a m, p.Ends s a m ∧ (q a).Leaves m t := leaves_bind h

/-- Stopped at a read, or later with what it read. -/
theorem leaves_get_bind {q : σ → Script σ ε β} {s t : σ} (h : ((get : Script σ ε σ) >>= q).Leaves s t) :
    t = s ∨ (q s).Leaves s t := by
  rcases leaves_bind' h with h₁ | ⟨_, m, hm, h₁⟩
  · exact Or.inl (leaves_get.mp h₁)
  · obtain ⟨rfl, rfl⟩ := ends_get.mp hm
    exact Or.inr h₁

theorem leaves_ofExcept_bind {x : Except ε α} {q : α → Script σ ε β} {s t : σ}
    (h : (ofExcept x >>= q).Leaves s t) : t = s ∨ ∃ a, x = .ok a ∧ (q a).Leaves s t := by
  rcases leaves_bind' h with h₁ | ⟨a, m, hm, h₁⟩
  · exact Or.inl (leaves_ofExcept.mp h₁)
  · obtain ⟨rfl, ha⟩ := ends_ofExcept.mp hm
    exact Or.inr ⟨a, ha, h₁⟩

theorem keeps_bind {p : Script σ ε α} {q : α → Script σ ε β} (hp : p.Keeps I) (hq : ∀ a, (q a).Keeps I) :
    (p.bind q).Keeps I := by
  intro s t hs h
  rcases leaves_bind h with h | ⟨a, m, hm, h⟩
  · exact hp s t hs h
  · exact hq a m t (hp s m hs hm.leaves) h

theorem keeps_bind' {p : Script σ ε α} {q : α → Script σ ε β} (hp : p.Keeps I) (hq : ∀ a, (q a).Keeps I) :
    (p >>= q).Keeps I := keeps_bind hp hq

/-- What is read is the store the rest starts in. -/
theorem keeps_get_bind {q : σ → Script σ ε β} (h : ∀ s, I s → ∀ t, (q s).Leaves s t → I t) :
    (get.bind q).Keeps I := by
  intro s t hs hl
  cases hl with
  | read _ hl => exact h s hs t hl

theorem keeps_forEach {l : List ι} {body : ι → Script σ ε Unit} (h : ∀ i ∈ l, (body i).Keeps I) :
    (forEach l body).Keeps I := by
  induction l with
  | nil => exact keeps_done ()
  | cons i l ih =>
    exact keeps_bind (h i List.mem_cons_self) fun _ => ih fun j hj => h j (List.mem_cons_of_mem _ hj)

theorem keeps_collect {l : List ι} {body : ι → Script σ ε α} (h : ∀ i ∈ l, (body i).Keeps I) :
    (collect l body).Keeps I := by
  induction l with
  | nil => exact keeps_done []
  | cons i l ih =>
    refine keeps_bind (h i List.mem_cons_self) fun a => ?_
    exact keeps_bind (ih fun j hj => h j (List.mem_cons_of_mem _ hj)) fun as => keeps_done _

theorem leaves_collect_cons {body : ι → Script σ ε α} {i : ι} {l : List ι} {s t : σ}
    (h : (collect (i :: l) body).Leaves s t) :
    (body i).Leaves s t ∨ ∃ a m, (body i).Ends s a m ∧ (collect l body).Leaves m t := by
  rcases leaves_bind h with h | ⟨a, m, hm, h⟩
  · exact Or.inl h
  · rcases leaves_bind h with h | ⟨as, n, hn, h⟩
    · exact Or.inr ⟨a, m, hm, h⟩
    · rw [leaves_done.mp h]
      exact Or.inr ⟨a, m, hm, hn.leaves⟩

theorem leaves_zoom {τ : Type} {view : τ → σ} {set : τ → σ → τ} (hview : ∀ x y, view (set x y) = y)
    (hset : ∀ x y z, set (set x y) z = set x z) (hself : ∀ x, set x (view x) = x)
    {p : Script σ ε α} {x y : τ} (h : (p.zoom view set).Leaves x y) :
    ∃ t, p.Leaves (view x) t ∧ y = set x t := by
  induction p generalizing x with
  | done a =>
    cases h
    exact ⟨_, .done a _, (hself _).symm⟩
  | fail e =>
    cases h
    exact ⟨_, .fail e _, (hself _).symm⟩
  | write f rest ih =>
    cases h with
    | stop => exact ⟨_, .stop f rest _, (hself _).symm⟩
    | write _ _ h =>
      obtain ⟨t, ht, rfl⟩ := ih h
      rw [hview] at ht
      exact ⟨t, .write f rest ht, hset _ _ _⟩
  | read k ih =>
    cases h with
    | read _ h =>
      obtain ⟨t, ht, rfl⟩ := ih (view x) h
      exact ⟨t, .read k ht, rfl⟩

end keeps
end Script
end CtvAttribution.Library
