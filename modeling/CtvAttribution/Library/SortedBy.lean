import Mathlib.Data.Int.Order.Basic
import Mathlib.Data.List.Dedup
import Mathlib.Data.List.Sort
import Mathlib.Data.List.MinMax
import Mathlib.Data.Prod.Lex

/-! Stable sorting by a key, sorted sets and first maxima over lists. -/
namespace CtvAttribution.Library
variable {α β κ : Type} [LinearOrder κ]

/-- The executable order of instants, ahead of the conditionally complete one. -/
instance (priority := high) intLinearOrder : LinearOrder Int := Int.instLinearOrder

instance (priority := high) intPreorder : Preorder Int := intLinearOrder.toPreorder

/-- Equal keys mean equal rows. -/
def Keyed {κ : Type} (key : α → κ) (l : List α) : Prop := ∀ x ∈ l, ∀ y ∈ l, key x = key y → x = y

section keyed
variable {κ : Type} {key : α → κ} {l m : List α}

instance [DecidableEq κ] [DecidableEq α] : Decidable (Keyed key l) :=
  inferInstanceAs (Decidable (∀ x ∈ l, ∀ y ∈ l, key x = key y → x = y))

theorem Keyed.mono (h : Keyed key m) (hlm : ∀ x ∈ l, x ∈ m) : Keyed key l :=
  fun x hx y hy => h x (hlm x hx) y (hlm y hy)

theorem keyed_of_nodup (h : (l.map key).Nodup) : Keyed key l :=
  fun _ hx _ hy he => List.inj_on_of_nodup_map h hx hy he

/-- A key that determines another one identifies rows whenever that one does. -/
theorem Keyed.of_determines {ι : Type} {id : α → ι} (h : Keyed id l)
    (hk : ∀ x y, key x = key y → id x = id y) : Keyed key l :=
  fun x hx y hy he => h x hx y hy (hk x y he)

end keyed

/-- `sorted(l, key=key)`: stable, so equal keys keep their list order. -/
def sortedBy (key : α → κ) (l : List α) : List α := l.insertionSort fun a b => key a ≤ key b

section sortedBy
variable (key : α → κ)

theorem sortedBy_perm (l : List α) : (sortedBy key l).Perm l := List.perm_insertionSort _ l

@[simp] theorem mem_sortedBy {l : List α} {a : α} : a ∈ sortedBy key l ↔ a ∈ l :=
  List.mem_insertionSort _

theorem sortedBy_pairwise (l : List α) : (sortedBy key l).Pairwise fun a b => key a ≤ key b := by
  have : Std.Total fun a b : α => key a ≤ key b := ⟨fun _ _ => le_total _ _⟩
  have : IsTrans α fun a b : α => key a ≤ key b := ⟨fun _ _ _ => le_trans⟩
  exact List.pairwise_insertionSort _ l

/-- Distinct keys make the sorted list strict. -/
theorem sortedBy_strict {l : List α} (h : (l.map key).Nodup) :
    (sortedBy key l).Pairwise fun a b => key a < key b := by
  have hn : ((sortedBy key l).map key).Nodup := ((sortedBy_perm key l).map key).nodup_iff.mpr h
  have hne := (List.pairwise_map.mp (List.nodup_iff_pairwise_ne.mp hn))
  exact (sortedBy_pairwise key l).imp₂ (fun _ _ hle hne => lt_of_le_of_ne hle hne) hne

/-- Sorting commutes with a map that passes the key on. -/
theorem sortedBy_map {γ : Type} (g : γ → α) (l : List γ) :
    sortedBy key (l.map g) = (sortedBy (fun x => key (g x)) l).map g := by
  unfold sortedBy
  rw [List.map_insertionSort _ (fun a b => key a ≤ key b)]
  intro x _ y _
  rfl

/-- A strictly sorted list is determined by its members. -/
theorem eq_of_strict_of_mem_iff {l m : List α} (hl : l.Pairwise fun a b => key a < key b)
    (hm : m.Pairwise fun a b => key a < key b) (h : ∀ a, a ∈ l ↔ a ∈ m) : l = m := by
  have : Std.Irrefl fun a b : α => key a < key b := ⟨fun _ => lt_irrefl _⟩
  have : IsTrans α fun a b : α => key a < key b := ⟨fun _ _ _ => lt_trans⟩
  have : Std.Antisymm fun a b : α => key a < key b := ⟨fun _ _ h h' => absurd h' h.asymm⟩
  exact hl.eq_of_mem_iff hm h

/-- Rows of distinct keys are sorted in one way. -/
theorem sortedBy_eq_of_perm {l m : List α} (h : l.Perm m) (hl : (l.map key).Nodup) :
    sortedBy key l = sortedBy key m := by
  apply eq_of_strict_of_mem_iff key (sortedBy_strict key hl) (sortedBy_strict key ((h.map key).nodup_iff.mp hl))
  intro a
  rw [mem_sortedBy, mem_sortedBy, h.mem_iff]

end sortedBy

/-- `sorted(set(l))`. -/
def sortedSet (l : List κ) : List κ := sortedBy id l.dedup

@[simp] theorem mem_sortedSet {l : List κ} {k : κ} : k ∈ sortedSet l ↔ k ∈ l := by
  rw [sortedSet, mem_sortedBy, List.mem_dedup]

theorem sortedSet_strict (l : List κ) : (sortedSet l).Pairwise (· < ·) :=
  sortedBy_strict id (by simpa using l.nodup_dedup)

theorem sortedSet_eq_of_strict {l m : List κ} (hl : l.Pairwise (· < ·)) (h : ∀ k, k ∈ l ↔ k ∈ m) :
    sortedSet m = l :=
  eq_of_strict_of_mem_iff id (sortedSet_strict m) hl fun k => by rw [mem_sortedSet, h k]

theorem sortedSet_congr {l m : List κ} (h : ∀ k, k ∈ l ↔ k ∈ m) : sortedSet l = sortedSet m :=
  sortedSet_eq_of_strict (sortedSet_strict m) fun k => by rw [mem_sortedSet, h k]

/-- Sorting a sorted set again changes nothing. -/
theorem sortedSet_of_strict {l : List κ} (h : l.Pairwise (· < ·)) : sortedSet l = l :=
  sortedSet_eq_of_strict h fun _ => Iff.rfl

/-- A set of one element lists only that element. -/
theorem eq_of_length_sortedSet_one {l : List κ} (h : (sortedSet l).length = 1) {a b : κ}
    (ha : a ∈ l) (hb : b ∈ l) : a = b := by
  obtain ⟨c, hc⟩ := List.length_eq_one_iff.mp h
  have mem (k : κ) (hk : k ∈ l) : k = c := by
    have := mem_sortedSet.mpr hk
    rwa [hc, List.mem_singleton] at this
  exact (mem a ha).trans (mem b hb).symm

section argmax
variable {f : α → κ} {l m : List α} {a : α}

/-- `max(l, key=f)` by its defining property, when equal keys mean equal rows. -/
theorem argmax_eq_some_of_max (hinj : Keyed f l) :
    l.argmax f = some a ↔ a ∈ l ∧ ∀ x ∈ l, f x ≤ f a := by
  constructor
  · intro h
    exact ⟨List.argmax_mem h, fun x hx => List.le_of_mem_argmax hx h⟩
  · rintro ⟨ha, hmax⟩
    cases hc : l.argmax f with
    | none => rw [List.argmax_eq_none.mp hc] at ha; cases ha
    | some b =>
      have hb := List.argmax_mem hc
      have he := le_antisymm (List.le_of_mem_argmax ha hc) (hmax b hb)
      rw [hinj a ha b hb he]

/-- The maximum depends on the members only. -/
theorem argmax_congr (hinj : Keyed f l) (h : ∀ x, x ∈ l ↔ x ∈ m) :
    l.argmax f = m.argmax f := by
  have hinj' : Keyed f m := hinj.mono fun x hx => (h x).mpr hx
  apply Option.ext
  intro b
  rw [argmax_eq_some_of_max hinj, argmax_eq_some_of_max hinj', h b]
  exact and_congr_right fun _ => forall_congr' fun x => by rw [h x]

theorem argmin_eq_some_of_min (hinj : Keyed f l) :
    l.argmin f = some a ↔ a ∈ l ∧ ∀ x ∈ l, f a ≤ f x := by
  constructor
  · intro h
    exact ⟨List.argmin_mem h, fun x hx => List.le_of_mem_argmin hx h⟩
  · rintro ⟨ha, hmin⟩
    cases hc : l.argmin f with
    | none => rw [List.argmin_eq_none.mp hc] at ha; cases ha
    | some b =>
      have hb := List.argmin_mem hc
      have he := le_antisymm (hmin b hb) (List.le_of_mem_argmin ha hc)
      rw [hinj a ha b hb he]

/-- The next row takes the slot when it is empty or holds a higher row. -/
def lowerOf (f : α → κ) (x : α) : Option α → α
  | none => x
  | some c => if f x < f c then x else c

theorem foldl_lowerOf (f : α → κ) (l : List α) :
    l.foldl (fun o x => some (lowerOf f x o)) none = l.argmin f := by
  apply congrArg (fun step => l.foldl step none)
  funext o x
  cases o with
  | none => rfl
  | some c => exact apply_ite some _ _ _

theorem argmax_map {γ : Type} (g : γ → α) (l : List γ) :
    (l.map g).argmax f = (l.argmax fun x => f (g x)).map g := by
  induction l using List.reverseRecOn with
  | nil => rfl
  | append_singleton l x ih =>
    rw [List.map_append, List.map_singleton, List.argmax_concat, List.argmax_concat, ih]
    cases l.argmax fun x => f (g x) with
    | none => rfl
    | some y =>
      rw [Option.map_some, apply_ite (Option.map g)]
      rfl

theorem argmax_isSome_iff : (l.argmax f).isSome ↔ l ≠ [] := by
  rw [Option.isSome_iff_ne_none, ne_eq, List.argmax_eq_none]

/-- The largest key needs no distinct keys: whichever row holds it first. -/
theorem argmax_key_eq_some {k : κ} :
    (l.argmax f).map f = some k ↔ (∃ x ∈ l, f x = k) ∧ ∀ x ∈ l, f x ≤ k := by
  constructor
  · intro h
    obtain ⟨a, ha, rfl⟩ := Option.map_eq_some_iff.mp h
    exact ⟨⟨a, List.argmax_mem ha, rfl⟩, fun x hx => List.le_of_mem_argmax hx ha⟩
  · intro h
    obtain ⟨⟨x, hx, rfl⟩, hmax⟩ := h
    obtain ⟨a, ha⟩ := Option.isSome_iff_exists.mp
      (argmax_isSome_iff (f := f).mpr (List.ne_nil_of_mem hx))
    rw [ha, Option.map_some, Option.some.injEq]
    exact le_antisymm (hmax a (List.argmax_mem ha)) (List.le_of_mem_argmax hx ha)

theorem argmax_key_congr (h : ∀ x, x ∈ l ↔ x ∈ m) : (l.argmax f).map f = (m.argmax f).map f := by
  apply Option.ext
  intro k
  rw [argmax_key_eq_some, argmax_key_eq_some]
  simp only [h]

end argmax
end CtvAttribution.Library
