import Mathlib.Data.List.Forall2

/-! Loops that may raise: a mapped loop succeeds with exactly the results of its items. -/
namespace CtvAttribution.Library
variable {α β ε : Type}

theorem bind_eq_ok_iff {x : Except ε α} {f : α → Except ε β} {b : β} :
    x >>= f = .ok b ↔ ∃ a, x = .ok a ∧ f a = .ok b := by
  cases x with
  | error e => exact ⟨nofun, fun ⟨_, h, _⟩ => nomatch h⟩
  | ok a => exact ⟨fun h => ⟨a, rfl, h⟩, fun ⟨_, ha, h⟩ => by cases ha; exact h⟩

theorem mapError_eq_ok_iff {ε' : Type} {f : ε → ε'} {x : Except ε α} {a : α} :
    x.mapError f = .ok a ↔ x = .ok a := by
  cases x <;> simp [Except.mapError]

theorem mapError_isOk_iff {ε' : Type} {f : ε → ε'} {x : Except ε α} :
    (∃ a, x.mapError f = .ok a) ↔ ∃ a, x = .ok a := by
  cases x <;> simp [Except.mapError]

theorem mapM_eq_ok_iff {f : α → Except ε β} {l : List α} {xs : List β} :
    l.mapM f = .ok xs ↔ List.Forall₂ (fun a x => f a = .ok x) l xs := by
  induction l generalizing xs with
  | nil =>
    rw [List.mapM_nil, List.forall₂_nil_left_iff]
    exact ⟨fun h => (Except.ok.inj h).symm, fun h => h ▸ rfl⟩
  | cons a l ih =>
    rw [List.mapM_cons, List.forall₂_cons_left_iff]
    cases ha : f a with
    | error e =>
      constructor
      · intro h
        cases h
      · rintro ⟨x, ys, hx, _⟩
        cases hx
    | ok x =>
      cases hl : l.mapM f with
      | error e =>
        constructor
        · intro h
          cases h
        · rintro ⟨y, ys, _, hys, _⟩
          rw [← ih, hl] at hys
          cases hys
      | ok ys =>
        constructor
        · intro h
          exact ⟨x, ys, rfl, ih.mp hl, (Except.ok.inj h).symm⟩
        · rintro ⟨y, zs, hy, hzs, rfl⟩
          rw [← ih, hl] at hzs
          rw [← Except.ok.inj hy, ← Except.ok.inj hzs]
          rfl

theorem mem_of_mapM_eq_ok {f : α → Except ε β} {l : List α} {xs : List β} (h : l.mapM f = .ok xs)
    {x : β} : x ∈ xs ↔ ∃ a ∈ l, f a = .ok x := by
  rw [mapM_eq_ok_iff] at h
  induction h with
  | nil => simp
  | cons ha _ ih =>
    rw [List.mem_cons, ih, List.exists_mem_cons_iff, ha, Except.ok.injEq, eq_comm (a := x)]

theorem exists_of_mapM_eq_ok {f : α → Except ε β} {l : List α} {xs : List β} (h : l.mapM f = .ok xs)
    {a : α} (ha : a ∈ l) : ∃ x ∈ xs, f a = .ok x := by
  rw [mapM_eq_ok_iff] at h
  induction h with
  | nil => cases ha
  | cons hb _ ih =>
    rcases List.mem_cons.mp ha with rfl | ha
    · exact ⟨_, List.mem_cons_self, hb⟩
    · obtain ⟨x, hx, he⟩ := ih ha
      exact ⟨x, List.mem_cons_of_mem _ hx, he⟩

/-- Rows computed one by one and mapped are a computation of all of them, mapped. -/
theorem exists_mapM_of_forall₂ {γ : Type} {f : α → Except ε β} {g : β → γ} {l : List α} {zs : List γ}
    (h : List.Forall₂ (fun a z => ∃ x, f a = .ok x ∧ g x = z) l zs) : ∃ xs, l.mapM f = .ok xs ∧ xs.map g = zs := by
  induction h with
  | nil => exact ⟨[], rfl, rfl⟩
  | cons ha _ ih =>
    obtain ⟨x, hx, rfl⟩ := ha
    obtain ⟨xs, hxs, rfl⟩ := ih
    rw [mapM_eq_ok_iff] at hxs
    exact ⟨x :: xs, mapM_eq_ok_iff.mpr (.cons hx hxs), rfl⟩

theorem exists_mapM_eq_ok {f : α → Except ε β} {l : List α} (h : ∀ a ∈ l, ∃ x, f a = .ok x) :
    ∃ xs, l.mapM f = .ok xs := by
  induction l with
  | nil => exact ⟨[], rfl⟩
  | cons a l ih =>
    obtain ⟨x, hx⟩ := h a List.mem_cons_self
    obtain ⟨xs, hxs⟩ := ih fun b hb => h b (List.mem_cons_of_mem _ hb)
    exact ⟨x :: xs, by rw [List.mapM_cons, hx, hxs]; rfl⟩

/-- A loop whose items are all made in one way that is accepted. -/
theorem exists_mapM_map_eq_ok {γ : Type} {f : β → Except ε γ} {g : α → β} (h : ∀ a, ∃ c, f (g a) = .ok c)
    (l : List α) : ∃ cs, (l.map g).mapM f = .ok cs := by
  apply exists_mapM_eq_ok
  intro b hb
  obtain ⟨a, _, rfl⟩ := List.mem_map.mp hb
  exact h a

theorem mapM_isOk_iff {f : α → Except ε β} {l : List α} :
    (∃ xs, l.mapM f = .ok xs) ↔ ∀ a ∈ l, ∃ x, f a = .ok x := by
  constructor
  · intro h a ha
    obtain ⟨xs, hxs⟩ := h
    obtain ⟨x, _, hx⟩ := exists_of_mapM_eq_ok hxs ha
    exact ⟨x, hx⟩
  · exact exists_mapM_eq_ok

/-- Results that tell their items apart are as distinct as the items. -/
theorem nodup_of_mapM_eq_ok {f : α → Except ε β} {l : List α} {xs : List β} (h : l.mapM f = .ok xs)
    (hl : l.Nodup) (hf : ∀ a ∈ l, ∀ b ∈ l, ∀ x, f a = .ok x → f b = .ok x → a = b) : xs.Nodup := by
  rw [mapM_eq_ok_iff] at h
  induction h with
  | nil => exact List.nodup_nil
  | @cons a x l xs ha hrest ih =>
    rw [List.nodup_cons] at hl ⊢
    constructor
    · intro hx
      obtain ⟨b, hb, he⟩ := (mem_of_mapM_eq_ok (mapM_eq_ok_iff.mpr hrest)).mp hx
      have hab := hf a List.mem_cons_self b (List.mem_cons_of_mem _ hb) x ha he
      exact hl.1 (hab ▸ hb)
    · exact ih hl.2 fun b hb c hc => hf b (List.mem_cons_of_mem _ hb) c (List.mem_cons_of_mem _ hc)

/-- A loop over the results of a loop is one loop. -/
theorem mapM_mapM_eq_ok_iff {γ : Type} {f : α → Except ε β} {g : β → Except ε γ} {l : List α} {zs : List γ} :
    (l.mapM f >>= fun ys => ys.mapM g) = .ok zs ↔ (l.mapM fun a => f a >>= g) = .ok zs := by
  constructor
  · intro h
    obtain ⟨ys, hys, hzs⟩ := bind_eq_ok_iff.mp h
    clear h
    rw [mapM_eq_ok_iff] at hys hzs ⊢
    induction hys generalizing zs with
    | nil =>
      cases hzs
      exact .nil
    | cons ha _ ih =>
      cases hzs with
      | cons hb hrest => exact .cons (bind_eq_ok_iff.mpr ⟨_, ha, hb⟩) (ih hrest)
  · intro h
    rw [mapM_eq_ok_iff] at h
    induction h with
    | nil => rfl
    | cons hc _ ih =>
      obtain ⟨b, ha, hb⟩ := bind_eq_ok_iff.mp hc
      obtain ⟨ys, hys, hzs⟩ := bind_eq_ok_iff.mp ih
      rw [mapM_eq_ok_iff] at hys hzs
      exact bind_eq_ok_iff.mpr ⟨b :: ys, mapM_eq_ok_iff.mpr (.cons ha hys), mapM_eq_ok_iff.mpr (.cons hb hzs)⟩

/-- Items that are each accepted as they were. -/
theorem mapM_map_ok {f : β → Except ε α} {g : α → β} (h : ∀ a, f (g a) = .ok a) (l : List α) :
    (l.map g).mapM f = .ok l := by
  rw [mapM_eq_ok_iff, List.forall₂_map_left_iff, List.forall₂_same]
  exact fun a _ => h a

/-- A loop of guarded items is guarded by all of them. -/
theorem mapM_guarded {p : α → Prop} [DecidablePred p] {f : α → Except ε β} {g : α → β} {e : ε}
    (h : ∀ a, f a = if p a then .ok (g a) else .error e) (l : List α) :
    l.mapM f = if ∀ a ∈ l, p a then .ok (l.map g) else .error e := by
  induction l with
  | nil => rfl
  | cons a l ih =>
    rw [List.mapM_cons, h, ih]
    by_cases ha : p a
    · by_cases hl : ∀ b ∈ l, p b
      · rw [if_pos ha, if_pos hl, if_pos (List.forall_mem_cons.mpr ⟨ha, hl⟩)]
        rfl
      · rw [if_pos ha, if_neg hl, if_neg fun hall => hl (List.forall_mem_cons.mp hall).2]
        rfl
    · rw [if_neg ha, if_neg fun hall => ha (List.forall_mem_cons.mp hall).1]
      rfl

/-- A field every item passes on to its result is passed on by the loop. -/
theorem map_eq_of_mapM_eq_ok {γ : Type} {f : α → Except ε β} {l : List α} {xs : List β}
    (h : l.mapM f = .ok xs) {g : α → γ} {k : β → γ} (hk : ∀ a ∈ l, ∀ x, f a = .ok x → k x = g a) :
    xs.map k = l.map g := by
  rw [mapM_eq_ok_iff] at h
  induction h with
  | nil => rfl
  | cons ha _ ih =>
    rw [List.map_cons, List.map_cons, hk _ List.mem_cons_self _ ha,
      ih fun b hb => hk b (List.mem_cons_of_mem _ hb)]

/-- Item-wise rearrangements add up over the whole loop. -/
theorem flatMap_perm_of_mapM_eq_ok {γ : Type} {f : α → Except ε β} {l : List α} {xs : List β}
    (h : l.mapM f = .ok xs) {g : α → List γ} {k : β → List γ}
    (hk : ∀ a ∈ l, ∀ x, f a = .ok x → (k x).Perm (g a)) : (xs.flatMap k).Perm (l.flatMap g) := by
  rw [mapM_eq_ok_iff] at h
  induction h with
  | nil => exact .refl _
  | cons ha _ ih =>
    rw [List.flatMap_cons, List.flatMap_cons]
    exact (hk _ List.mem_cons_self _ ha).append (ih fun b hb => hk b (List.mem_cons_of_mem _ hb))

/-- Two loops over items that give the same results one by one. -/
theorem mapM_congr_forall₂ {γ : Type} {f : α → Except ε β} {g : γ → Except ε β} {l : List α} {m : List γ}
    (h : List.Forall₂ (fun a c => f a = g c) l m) : l.mapM f = m.mapM g := by
  induction h with
  | nil => rfl
  | cons ha _ ih => rw [List.mapM_cons, List.mapM_cons, ha, ih]

theorem mapM_congr {f g : α → Except ε β} {l : List α} (h : ∀ a ∈ l, f a = g a) :
    l.mapM f = l.mapM g :=
  mapM_congr_forall₂ (List.forall₂_same.mpr h)

/-- A loop of loops is one loop over the flattened items. -/
theorem mapM_flatten (f : α → Except ε β) (ls : List (List α)) :
    ls.flatten.mapM f = (do return (← ls.mapM fun l => l.mapM f).flatten) := by
  induction ls with
  | nil => rfl
  | cons l ls ih =>
    simp only [List.flatten_cons, List.mapM_append, List.mapM_cons, ih, bind_assoc, pure_bind]

/-- Appending one result at a time is the mapped loop. -/
theorem foldlM_append_singleton (f : α → Except ε β) (l : List α) (out : List β) :
    l.foldlM (fun out a => do return out ++ (← [a].mapM f)) out =
      (do return out ++ (← l.mapM f)) := by
  induction l generalizing out with
  | nil => simp
  | cons a l ih =>
    have cons : (a :: l).mapM f = (do return (← f a) :: (← l.mapM f)) := List.mapM_cons
    rw [List.foldlM_cons, cons]
    cases ha : f a with
    | error e =>
      have he : [a].mapM f = .error e := by rw [List.mapM_cons, ha]; rfl
      rw [he]
      rfl
    | ok x =>
      have hx : [a].mapM f = .ok [x] := by rw [List.mapM_cons, ha]; rfl
      rw [hx]
      change List.foldlM _ (out ++ [x]) l = _
      rw [ih]
      cases l.mapM f with
      | error e => rfl
      | ok xs => exact congrArg Except.ok (List.append_assoc out [x] xs)

end CtvAttribution.Library
