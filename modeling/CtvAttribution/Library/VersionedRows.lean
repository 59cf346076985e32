import CtvAttribution.Library.OrderedDict
import CtvAttribution.Library.SortedBy
import Mathlib.Data.List.Induction

/-! Versioned rows: of all rows with one key, the row of highest version is current. A log
is read with the first of equal versions, a replacing table with the last. -/
namespace CtvAttribution.Library
variable {α κ ν : Type} [LinearOrder ν]

/-- Of two choices the one of higher version; the first one on equal versions. -/
def newer (version : α → ν) : Option α → Option α → Option α
  | none, o => o
  | some a, none => some a
  | some a, some b => if version a < version b then some b else some a

section newer
variable {version : α → ν} {a b : α} {o : Option α}

@[simp] theorem newer_none : newer version o none = o := by cases o <;> rfl
@[simp] theorem none_newer : newer version none o = o := rfl

theorem newer_eq_left (h : ∀ b, o = some b → version b ≤ version a) : newer version (some a) o = some a := by
  cases o with
  | none => rfl
  | some b => exact if_neg (not_lt.mpr (h b rfl))

theorem newer_eq_none {o' : Option α} : newer version o o' = none ↔ o = none ∧ o' = none := by
  cases o with
  | none => simp
  | some a =>
    cases o' with
    | none => simp [newer]
    | some b =>
      rw [newer]
      split <;> simp

/-- The newer one is one of the two. -/
theorem newer_eq_or (version : α → ν) (o o' : Option α) :
    newer version o o' = o ∨ newer version o o' = o' := by
  cases o with
  | none => exact Or.inr rfl
  | some a =>
    cases o' with
    | none => exact Or.inl rfl
    | some b =>
      by_cases h : version a < version b
      · exact Or.inr (if_pos h)
      · exact Or.inl (if_neg h)

/-- The maximum of two lists is the newer one of their maxima. -/
theorem argmax_append (version : α → ν) (l m : List α) :
    (l ++ m).argmax version = newer version (l.argmax version) (m.argmax version) := by
  induction m using List.reverseRecOn with
  | nil => simp
  | append_singleton m x ih =>
    rw [← List.append_assoc, List.argmax_concat, List.argmax_concat, ih]
    cases hl : l.argmax version with
    | none => cases m.argmax version <;> rfl
    | some a =>
      cases hm : m.argmax version with
      | none => rfl
      | some b =>
        simp only [newer]
        by_cases hab : version a < version b
        · simp only [if_pos hab]
          by_cases hbx : version b < version x
          · simp only [if_pos hbx, if_pos (hab.trans hbx)]
          · simp only [if_neg hbx, if_pos hab]
        · simp only [if_neg hab]
          by_cases hbx : version b < version x
          · simp only [if_pos hbx]
          · have hax : ¬ version a < version x := fun h =>
              hbx ((not_lt.mp hab).trans_lt h)
            simp only [if_neg hbx, if_neg hab, if_neg hax]

end newer

/-- Repetitions do not move the first maximum. -/
theorem argmax_firstSeen [DecidableEq α] (version : α → ν) (l : List α) :
    (firstSeen l).argmax version = l.argmax version := by
  induction l using List.reverseRecOn with
  | nil => rfl
  | append_singleton l x ih =>
    rw [firstSeen_append, argmax_append, argmax_append, ih]
    by_cases hx : x ∈ l
    · have hempty : (firstSeen [x]).filter (· ∉ l) = [] := by simp [firstSeen, hx]
      rw [hempty, List.argmax_nil, newer_none]
      obtain ⟨a, ha⟩ := Option.isSome_iff_exists.mp 
        (argmax_isSome_iff (f := version).mpr (List.ne_nil_of_mem hx))
      rw [ha, List.argmax_singleton]
      symm
      apply newer_eq_left
      rintro b hb
      cases hb
      exact List.le_of_mem_argmax hx ha
    · have hsame : (firstSeen [x]).filter (· ∉ l) = [x] := by simp [firstSeen, hx]
      rw [hsame]

theorem filter_firstSeen [DecidableEq α] (p : α → Bool) (l : List α) :
    (firstSeen l).filter p = firstSeen (l.filter p) := by
  induction l with
  | nil => rfl
  | cons a l ih =>
    cases hp : p a with
    | false =>
      rw [firstSeen, List.filter_cons_of_neg (by simp [hp]), List.filter_cons_of_neg (by simp [hp]),
        List.filter_filter, ← ih]
      apply List.filter_congr
      intro b _
      by_cases hb : b = a <;> simp [hb, hp]
    | true =>
      rw [firstSeen, List.filter_cons_of_pos hp, List.filter_cons_of_pos hp, firstSeen, ← ih,
        List.filter_filter, List.filter_filter]
      congr 1
      apply List.filter_congr
      intro b _
      exact Bool.and_comm _ _

section current
variable [DecidableEq κ] (key : α → κ) (version : α → ν)

/-- `row_number() over (partition by key order by version desc) = 1`. -/
def current (rows : List α) (k : κ) : Option α := (rows.filter (key · = k)).argmax version

/-- One row per key, the current one. -/
def collapse (rows : List α) : List α := (firstSeen (rows.map key)).filterMap (current key version rows)

/-- `FINAL` of a replacing table, whose rows stand in insertion order. -/
def finalRow (rows : List α) (k : κ) : Option α := current key version rows.reverse k

def finalRows (rows : List α) : List α := collapse key version rows.reverse

variable {key version} {rows new : List α} {k : κ} {r : α}

theorem current_eq_some (h : current key version rows k = some r) :
    r ∈ rows ∧ key r = k ∧ ∀ x ∈ rows, key x = k → version x ≤ version r := by
  have hr := List.mem_filter.mp (List.argmax_mem h)
  refine ⟨hr.1, by simpa using hr.2, fun x hx hk => ?_⟩
  exact List.le_of_mem_argmax (List.mem_filter.mpr ⟨hx, by simpa using hk⟩) h

theorem current_eq_none : current key version rows k = none ↔ ∀ x ∈ rows, key x ≠ k := by
  rw [current, List.argmax_eq_none, List.filter_eq_nil_iff]
  simp

variable (key version) in
theorem exists_current (h : r ∈ rows) : ∃ c, current key version rows (key r) = some c := by
  rw [← Option.isSome_iff_exists, Option.isSome_iff_ne_none, ne_eq, current_eq_none]
  exact fun hn => hn r h rfl

/-- Later rows supersede when their version is higher, and only then. -/
theorem current_append :
    current key version (rows ++ new) k =
      newer version (current key version rows k) (current key version new k) := by
  rw [current, List.filter_append, argmax_append]
  rfl

theorem current_append_of_not_mem (h : ∀ x ∈ new, key x ≠ k) :
    current key version (rows ++ new) k = current key version rows k := by
  rw [current_append, current_eq_none.mpr h, newer_none]

theorem current_firstSeen [DecidableEq α] (rows : List α) (k : κ) :
    current key version (firstSeen rows) k = current key version rows k := by
  rw [current, filter_firstSeen, argmax_firstSeen]
  rfl

/-- A filter that keeps every row of a key keeps its current row. -/
theorem current_filter {p : α → Bool} (h : ∀ x ∈ rows, key x = k → p x = true) :
    current key version (rows.filter p) k = current key version rows k := by
  rw [current, current, List.filter_filter]
  congr 1
  apply List.filter_congr
  intro x hx
  by_cases hk : key x = k
  · simp [hk, h x hx hk]
  · simp [hk]

theorem current_filter_eq_none {p : α → Bool} (h : ∀ x ∈ rows, key x = k → p x = false) :
    current key version (rows.filter p) k = none := by
  rw [current_eq_none]
  intro x hx hk
  obtain ⟨hx, hp⟩ := List.mem_filter.mp hx
  rw [h x hx hk] at hp
  cases hp

/-- With distinct versions per key the current row is the one of highest version, in
whatever order the rows are read. -/
theorem current_eq_some_iff (hu : Keyed (fun x => (key x, version x)) rows) :
    current key version rows k = some r ↔
      r ∈ rows ∧ key r = k ∧ ∀ x ∈ rows, key x = k → version x ≤ version r := by
  refine ⟨current_eq_some, fun ⟨hr, hk, hmax⟩ => ?_⟩
  obtain ⟨c, hc⟩ := exists_current key version hr
  rw [hk] at hc
  obtain ⟨hcm, hck, hcmax⟩ := current_eq_some hc
  have hv := le_antisymm (hmax c hcm hck) (hcmax r hr hk)
  rw [hc, hu c hcm r hr (Prod.ext (hck.trans hk.symm) hv)]

theorem current_congr {rows' : List α} (hu : Keyed (fun x => (key x, version x)) rows)
    (h : ∀ x, x ∈ rows ↔ x ∈ rows') : current key version rows k = current key version rows' k := by
  apply Option.ext
  intro r
  rw [current_eq_some_iff hu, current_eq_some_iff (hu.mono fun x hx => (h x).mpr hx), h r]
  simp only [h]

theorem mem_collapse : r ∈ collapse key version rows ↔ current key version rows (key r) = some r := by
  rw [collapse, List.mem_filterMap]
  constructor
  · rintro ⟨k, _, h⟩
    rwa [(current_eq_some h).2.1]
  · intro h
    refine ⟨key r, ?_, h⟩
    rw [mem_firstSeen]
    exact List.mem_map_of_mem (current_eq_some h).1

/-- Collapsing commutes with a map that passes key and version on. -/
theorem collapse_map {γ : Type} (g : γ → α) (l : List γ) : collapse key version (l.map g) =
    (collapse (fun x => key (g x)) (fun x => version (g x)) l).map g := by
  have hcurrent (k : κ) : current key version (l.map g) k =
      (current (fun x => key (g x)) (fun x => version (g x)) l k).map g := by
    rw [current, List.filter_map, argmax_map]
    rfl
  rw [collapse, collapse, List.map_map, List.map_filterMap]
  simp only [hcurrent, Function.comp_def]

theorem map_key_collapse (rows : List α) :
    (collapse key version rows).map key = firstSeen (rows.map key) := by
  have hall (k : κ) (hk : k ∈ firstSeen (rows.map key)) :
      (current key version rows k).map key = some k := by
    rw [mem_firstSeen, List.mem_map] at hk
    obtain ⟨x, hx, rfl⟩ := hk
    obtain ⟨c, hc⟩ := exists_current key version hx
    rw [hc, Option.map_some, (current_eq_some hc).2.1]
  rw [collapse, List.map_filterMap]
  conv_rhs => rw [← List.filterMap_some (l := firstSeen (rows.map key))]
  exact List.filterMap_congr hall

theorem nodup_key_collapse (rows : List α) : ((collapse key version rows).map key).Nodup := by
  rw [map_key_collapse]
  exact nodup_firstSeen _

section lookup
variable {l l' : List α} {f f' : κ → Option α} {g : α → α}

omit [LinearOrder ν] [DecidableEq κ] in
/-- Tables of unique keys, seen through a map that keeps the key, agree when they agree
key by key. -/
theorem map_perm_iff_lookup (hg : ∀ a, key (g a) = key a) (hl : (l.map key).Nodup) (hl' : (l'.map key).Nodup)
    (hf : ∀ a, a ∈ l ↔ f (key a) = some a) (hf' : ∀ a, a ∈ l' ↔ f' (key a) = some a)
    (hk : ∀ k a, f k = some a → key a = k) (hk' : ∀ k a, f' k = some a → key a = k) :
    (l.map g).Perm (l'.map g) ↔ ∀ k, (f k).map g = (f' k).map g := by
  have hnodup {m : List α} (h : (m.map key).Nodup) : (m.map g).Nodup := by
    apply List.Nodup.of_map key
    rw [List.map_map]
    exact (List.map_congr_left fun a _ => hg a) ▸ h
  have hmem {m : List α} {d : κ → Option α} (hm : ∀ a, a ∈ m ↔ d (key a) = some a)
      (hd : ∀ k a, d k = some a → key a = k) (b : α) : b ∈ m.map g ↔ (d (key b)).map g = some b := by
    rw [List.mem_map, Option.map_eq_some_iff]
    constructor
    · intro ⟨a, ha, he⟩
      rw [← he, hg]
      exact ⟨a, (hm a).mp ha, rfl⟩
    · intro ⟨a, ha, he⟩
      exact ⟨a, (hm a).mpr (hd _ a ha ▸ ha), he⟩
  have hkey {d : κ → Option α} (hd : ∀ k a, d k = some a → key a = k) {k : κ} {b : α}
      (h : (d k).map g = some b) : key b = k := by
    obtain ⟨a, ha, rfl⟩ := Option.map_eq_some_iff.mp h
    rw [hg]
    exact hd k a ha
  rw [List.perm_ext_iff_of_nodup (hnodup hl) (hnodup hl')]
  simp only [hmem hf hk, hmem hf' hk']
  constructor
  · intro h k
    apply Option.ext
    intro b
    constructor
    · intro hb
      obtain rfl := hkey hk hb
      exact (h b).mp hb
    · intro hb
      obtain rfl := hkey hk' hb
      exact (h b).mpr hb
  · intro h b
    rw [h]

end lookup

section final

theorem finalRow_append : finalRow key version (rows ++ new) k =
    newer version (finalRow key version new k) (finalRow key version rows k) := by
  rw [finalRow, List.reverse_append, current_append]
  rfl

theorem finalRow_append_of_not_mem (h : ∀ x ∈ new, key x ≠ k) :
    finalRow key version (rows ++ new) k = finalRow key version rows k := by
  have hn : finalRow key version new k = none :=
    current_eq_none.mpr fun x hx => h x (List.mem_reverse.mp hx)
  rw [finalRow_append, hn, none_newer]

/-- A row inserted last wins unless an older one has a higher version. -/
theorem finalRow_append_of_le (hnew : finalRow key version new k = some r)
    (h : ∀ x ∈ rows, key x = k → version x ≤ version r) :
    finalRow key version (rows ++ new) k = some r := by
  rw [finalRow_append, hnew]
  apply newer_eq_left
  intro b hb
  obtain ⟨hb, hk, _⟩ := current_eq_some hb
  exact h b (List.mem_reverse.mp hb) hk

theorem finalRow_eq_some (h : finalRow key version rows k = some r) :
    r ∈ rows ∧ key r = k ∧ ∀ x ∈ rows, key x = k → version x ≤ version r := by
  obtain ⟨hr, hk, hmax⟩ := current_eq_some h
  exact ⟨List.mem_reverse.mp hr, hk, fun x hx => hmax x (List.mem_reverse.mpr hx)⟩

theorem finalRow_eq_none : finalRow key version rows k = none ↔ ∀ x ∈ rows, key x ≠ k := by
  rw [finalRow, current_eq_none]
  simp

/-- Inserting all rows again leaves nothing of the ones before. -/
theorem finalRow_append_of_subset (h : ∀ x ∈ rows, x ∈ new) :
    finalRow key version (rows ++ new) k = finalRow key version new k := by
  cases hnew : finalRow key version new k with
  | none =>
    rw [finalRow_eq_none] at hnew ⊢
    intro x hx
    exact hnew x ((List.mem_append.mp hx).elim (h x) id)
  | some r =>
    apply finalRow_append_of_le hnew
    intro x hx hk
    exact (finalRow_eq_some hnew).2.2 x (h x hx) hk

variable (key version) in
theorem exists_finalRow (h : r ∈ rows) : ∃ c, finalRow key version rows (key r) = some c :=
  exists_current _ _ (List.mem_reverse.mpr h)

/-- Without versions the rows inserted last decide a key they hold. -/
theorem finalRow_append_of_mem {rows new : List α} {k : κ} (h : ∃ x ∈ new, key x = k) :
    finalRow key (fun _ => ()) (rows ++ new) k = finalRow key (fun _ => ()) new k := by
  obtain ⟨x, hx, rfl⟩ := h
  obtain ⟨r, hr⟩ := exists_finalRow key (fun _ => ()) hx
  rw [hr]
  exact finalRow_append_of_le hr fun _ _ _ => le_rfl

theorem mem_finalRows : r ∈ finalRows key version rows ↔ finalRow key version rows (key r) = some r :=
  mem_collapse

theorem nodup_key_finalRows (rows : List α) : ((finalRows key version rows).map key).Nodup :=
  nodup_key_collapse _

/-- A current row that was not inserted last was current before. -/
theorem mem_finalRows_of_append (h : r ∈ finalRows key version (rows ++ new)) (hr : r ∉ new) :
    r ∈ finalRows key version rows := by
  rw [mem_finalRows] at h ⊢
  rw [finalRow_append] at h
  rcases newer_eq_or version (finalRow key version new (key r)) (finalRow key version rows (key r)) with he | he
  · rw [he] at h
    exact absurd (finalRow_eq_some h).1 hr
  · rwa [he] at h

/-- Tables that agree key by key have the same `FINAL`, up to order. -/
theorem finalRows_perm {rows' : List α} (h : ∀ k, finalRow key version rows k = finalRow key version rows' k) :
    (finalRows key version rows).Perm (finalRows key version rows') := by
  rw [List.perm_ext_iff_of_nodup (.of_map key (nodup_key_finalRows _)) (.of_map key (nodup_key_finalRows _))]
  intro r
  rw [mem_finalRows, mem_finalRows, h]

/-- A row that is the only one of its key, up to repetition. -/
theorem finalRow_of_unique (hr : r ∈ rows) (h : ∀ x ∈ rows, key x = key r → x = r) :
    finalRow key version rows (key r) = some r := by
  obtain ⟨c, hc⟩ := exists_finalRow key version hr
  obtain ⟨hcm, hck, _⟩ := finalRow_eq_some hc
  rw [hc, h c hcm hck]

/-- A table of pairwise distinct keys is its own `FINAL`. -/
theorem finalRow_of_nodup (h : (rows.map key).Nodup) (hr : r ∈ rows) :
    finalRow key version rows (key r) = some r :=
  finalRow_of_unique hr fun x hx he => keyed_of_nodup h x hx r hr he

end final
end current
end CtvAttribution.Library
