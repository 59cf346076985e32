import Mathlib.Data.List.Basic
import Mathlib.Data.List.Dedup
import Mathlib.Data.List.Induction
import Mathlib.Data.List.Perm.Basic

/-! Insertion-ordered dictionaries. Reassigning a key keeps the slot of its first
assignment, so the entries stay in first-seen order. -/
namespace CtvAttribution.Library
variable {α β κ ν : Type}

/-- The values of a list without repetition, each at its first position. -/
def firstSeen [DecidableEq κ] : List κ → List κ
  | [] => []
  | k :: ks => k :: (firstSeen ks).filter (· ≠ k)

@[simp] theorem mem_firstSeen [DecidableEq κ] {k : κ} {l : List κ} : k ∈ firstSeen l ↔ k ∈ l := by
  induction l with
  | nil => simp [firstSeen]
  | cons a l ih =>
    simp only [firstSeen, List.mem_cons, List.mem_filter, decide_eq_true_eq, ih]
    by_cases h : k = a <;> simp [h]

theorem nodup_firstSeen [DecidableEq κ] (l : List κ) : (firstSeen l).Nodup := by
  induction l with
  | nil => exact List.nodup_nil
  | cons a l ih => exact List.nodup_cons.mpr ⟨by simp, ih.filter _⟩

theorem firstSeen_map {ι : Type} [DecidableEq κ] [DecidableEq ι] {g : κ → ι} (hg : Function.Injective g)
    (l : List κ) : firstSeen (l.map g) = (firstSeen l).map g := by
  induction l with
  | nil => rfl
  | cons k l ih =>
    rw [List.map_cons, firstSeen, firstSeen, List.map_cons, ih, List.filter_map]
    simp only [Function.comp_def, ne_eq, hg.eq_iff]

theorem firstSeen_append [DecidableEq κ] (l m : List κ) :
    firstSeen (l ++ m) = firstSeen l ++ (firstSeen m).filter (· ∉ l) := by
  induction l with
  | nil => simp [firstSeen]
  | cons a l ih =>
    simp only [List.cons_append, firstSeen, ih, List.filter_append, List.filter_filter]
    congr 2
    apply List.filter_congr
    intro b _
    simp [not_or]

/-- What is there already adds nothing. -/
theorem firstSeen_append_of_mem [DecidableEq κ] {l m : List κ} (h : ∀ x ∈ m, x ∈ l) :
    firstSeen (l ++ m) = firstSeen l := by
  have hnone : (firstSeen m).filter (· ∉ l) = [] := by
    rw [List.filter_eq_nil_iff]
    intro x hx
    simp [h x (mem_firstSeen.mp hx)]
  rw [firstSeen_append, hnone, List.append_nil]

/-- In the order of the first positions. -/
theorem firstSeen_pairwise_idxOf [DecidableEq κ] (l : List κ) :
    (firstSeen l).Pairwise fun a b => l.idxOf a < l.idxOf b := by
  induction l with
  | nil => exact List.Pairwise.nil
  | cons k l ih =>
    rw [firstSeen, List.pairwise_cons]
    constructor
    · intro b hb
      have hne : b ≠ k := of_decide_eq_true (List.mem_filter.mp hb).2
      rw [List.idxOf_cons_self, List.idxOf_cons_ne _ hne.symm]
      exact Nat.succ_pos _
    · refine List.Pairwise.imp_of_mem ?_ (ih.filter (· ≠ k))
      intro a b ha hb hlt
      have hna : a ≠ k := of_decide_eq_true (List.mem_filter.mp ha).2
      have hnb : b ≠ k := of_decide_eq_true (List.mem_filter.mp hb).2
      rw [List.idxOf_cons_ne _ hna.symm, List.idxOf_cons_ne _ hnb.symm]
      exact Nat.succ_lt_succ hlt

/-- A constant block contributes its key once. -/
theorem firstSeen_replicate [DecidableEq κ] (k : κ) {n : Nat} (hn : 0 < n) :
    firstSeen (List.replicate n k) = [k] := by
  induction n with
  | zero => omega
  | succ n ih =>
    rw [List.replicate_succ, firstSeen]
    cases n with
    | zero => rfl
    | succ n => simp [ih (by omega)]

structure OrderedDict (κ ν : Type) where
  entries : List (κ × ν)
  nodup : (entries.map Prod.fst).Nodup

namespace OrderedDict

/-- Replace the value in the slot of `k`, or append a new slot. -/
def alterEntries [DecidableEq κ] (k : κ) (f : Option ν → ν) : List (κ × ν) → List (κ × ν)
  | [] => [(k, f none)]
  | (j, v) :: es => if j = k then (j, f (some v)) :: es else (j, v) :: alterEntries k f es

theorem keys_alterEntries [DecidableEq κ] (k : κ) (f : Option ν → ν) (es : List (κ × ν)) :
    (alterEntries k f es).map Prod.fst =
      if k ∈ es.map Prod.fst then es.map Prod.fst else es.map Prod.fst ++ [k] := by
  induction es with
  | nil => simp [alterEntries]
  | cons e es ih =>
    obtain ⟨j, v⟩ := e
    by_cases hj : j = k
    · simp [alterEntries, hj]
    · by_cases hm : k ∈ es.map Prod.fst <;>
        simp only [alterEntries, if_neg hj, List.map_cons, ih, List.mem_cons, hm, Ne.symm hj,
          or_true, or_false, if_true, if_false, List.cons_append]

def empty : OrderedDict κ ν := ⟨[], List.nodup_nil⟩

def keys (d : OrderedDict κ ν) : List κ := d.entries.map Prod.fst
def values (d : OrderedDict κ ν) : List ν := d.entries.map Prod.snd

/-- `d[k] = f(d.get(k))`. -/
def alter [DecidableEq κ] (d : OrderedDict κ ν) (k : κ) (f : Option ν → ν) : OrderedDict κ ν where
  entries := alterEntries k f d.entries
  nodup := by
    rw [keys_alterEntries]
    split
    · exact d.nodup
    · rename_i h
      exact List.nodup_append.mpr ⟨d.nodup, List.nodup_singleton k, by
        intro a ha b hb
        rw [List.mem_singleton.mp hb]
        exact fun e => h (e ▸ ha)⟩

def get? [DecidableEq κ] (d : OrderedDict κ ν) (k : κ) : Option ν := d.entries.lookup k

theorem lookup_alterEntries [DecidableEq κ] (k j : κ) (f : Option ν → ν) (es : List (κ × ν)) :
    (alterEntries k f es).lookup j = if j = k then some (f (es.lookup k)) else es.lookup j := by
  induction es with
  | nil => by_cases h : j = k <;> simp [alterEntries, h]
  | cons e es ih =>
    obtain ⟨i, v⟩ := e
    by_cases hi : i = k
    · by_cases hj : j = k
      · simp [alterEntries, hi, hj]
      · have hjk : (j == k) = false := by simpa using hj
        simp [alterEntries, hi, List.lookup_cons, hjk, hj]
    · by_cases hj : j = i
      · subst hj
        simp [alterEntries, hi]
      · have hki : (k == i) = false := by simpa using Ne.symm hi
        have hji : (j == i) = false := by simpa using hj
        simp [alterEntries, hi, List.lookup_cons, hki, hji, ih]

@[simp] theorem get?_alter [DecidableEq κ] (d : OrderedDict κ ν) (k j : κ) (f : Option ν → ν) :
    (d.alter k f).get? j = if j = k then some (f (d.get? k)) else d.get? j :=
  lookup_alterEntries k j f d.entries

@[simp] theorem keys_alter [DecidableEq κ] (d : OrderedDict κ ν) (k : κ) (f : Option ν → ν) :
    (d.alter k f).keys = if k ∈ d.keys then d.keys else d.keys ++ [k] :=
  keys_alterEntries k f d.entries

theorem mem_entries [DecidableEq κ] {d : OrderedDict κ ν} {k : κ} {v : ν} :
    (k, v) ∈ d.entries ↔ d.get? k = some v := by
  obtain ⟨es, hes⟩ := d
  simp only [get?]
  induction es with
  | nil => simp
  | cons e es ih =>
    obtain ⟨j, w⟩ := e
    obtain ⟨hj, hn⟩ := List.nodup_cons.mp hes
    by_cases h : k = j
    · subst h
      have : (k, v) ∉ es := fun hm => hj (List.mem_map.mpr ⟨_, hm, rfl⟩)
      simp [this, eq_comm]
    · have hkj : (k == j) = false := by simpa using h
      simp [List.lookup_cons, hkj, h, ih hn]

theorem mem_keys_iff [DecidableEq κ] {d : OrderedDict κ ν} {k : κ} :
    k ∈ d.keys ↔ ∃ v, d.get? k = some v := by
  simp only [keys, List.mem_map, Prod.exists, exists_and_right, exists_eq_right, mem_entries]

theorem mem_values_iff [DecidableEq κ] {d : OrderedDict κ ν} {v : ν} :
    v ∈ d.values ↔ ∃ k, d.get? k = some v := by
  simp only [values, List.mem_map, Prod.exists, exists_eq_right, mem_entries]

/-- The entries are the keys in slot order, each with the value it looks up. -/
theorem entries_eq_of_get? [DecidableEq κ] (d : OrderedDict κ ν) (val : κ → ν)
    (h : ∀ k ∈ d.keys, d.get? k = some (val k)) : d.entries = d.keys.map fun k => (k, val k) := by
  rw [keys, List.map_map]
  conv_lhs => rw [← List.map_id d.entries]
  apply List.map_congr_left
  rintro ⟨k, v⟩ hm
  have hk : k ∈ d.keys := List.mem_map_of_mem hm
  have hv := mem_entries.mp hm
  rw [h k hk] at hv
  simp [Option.some.inj hv]

/-- The entries are determined by the mapping, up to their order. -/
theorem entries_perm [DecidableEq κ] {d e : OrderedDict κ ν} (h : ∀ k, d.get? k = e.get? k) :
    d.entries.Perm e.entries := by
  rw [List.perm_ext_iff_of_nodup d.nodup.of_map e.nodup.of_map]
  rintro ⟨k, v⟩
  rw [mem_entries, mem_entries, h]

/-- Of two sets of keys each shares as many with the other. -/
theorem countP_mem_comm [DecidableEq κ] {l m : List κ} (hl : l.Nodup) (hm : m.Nodup) :
    l.countP (· ∈ m) = m.countP (· ∈ l) := by
  rw [List.countP_eq_length_filter, List.countP_eq_length_filter]
  apply List.Perm.length_eq
  rw [List.perm_ext_iff_of_nodup (hl.filter _) (hm.filter _)]
  intro k
  simp only [List.mem_filter, decide_eq_true_eq, and_comm]

/-- A mapping that keeps its entries counts no fewer. -/
theorem countP_entries_le [DecidableEq κ] {d e : OrderedDict κ ν} (h : ∀ k v, d.get? k = some v → e.get? k = some v)
    {p q : κ × ν → Bool} (hpq : ∀ x ∈ d.entries, p x = true → q x = true) : d.entries.countP p ≤ e.entries.countP q := by
  rw [List.countP_eq_length_filter, List.countP_eq_length_filter]
  apply List.Subperm.length_le
  apply List.subperm_of_subset (d.nodup.of_map.filter _)
  intro x hx
  obtain ⟨hmem, hp⟩ := List.mem_filter.mp hx
  exact List.mem_filter.mpr ⟨mem_entries.mpr (h _ _ (mem_entries.mp hmem)), hpq x hmem hp⟩

/-- `d.update(e)`. -/
def update [DecidableEq κ] (d e : OrderedDict κ ν) : OrderedDict κ ν :=
  e.entries.foldl (fun d kv => d.alter kv.1 fun _ => kv.2) d

private theorem get?_foldl_update [DecidableEq κ] (es : List (κ × ν)) (hes : (es.map Prod.fst).Nodup)
    (d : OrderedDict κ ν) (k : κ) :
    (es.foldl (fun d kv => d.alter kv.1 fun _ => kv.2) d).get? k = (es.lookup k).or (d.get? k) := by
  induction es generalizing d with
  | nil => rfl
  | cons e es ih =>
    obtain ⟨j, v⟩ := e
    obtain ⟨hj, hn⟩ := List.nodup_cons.mp hes
    rw [List.foldl_cons, ih hn, get?_alter]
    by_cases h : k = j
    · subst h
      have hnone : es.lookup k = none := by
        rw [List.lookup_eq_none_iff]
        intro e he
        have hne : k ≠ e.1 := fun h => hj (List.mem_map.mpr ⟨e, he, h.symm⟩)
        simpa using hne
      simp [hnone]
    · have hkj : (k == j) = false := by simpa using h
      simp [List.lookup_cons, hkj, h]

@[simp] theorem get?_update [DecidableEq κ] (d e : OrderedDict κ ν) (k : κ) :
    (d.update e).get? k = (e.get? k).or (d.get? k) :=
  get?_foldl_update e.entries e.nodup d k

/-- Of several updates only the one that may hold the key matters. -/
theorem get?_updates [DecidableEq κ] {ι : Type} [DecidableEq ι] (f : ι → OrderedDict κ ν) {i : ι} {k : κ}
    (h : ∀ j, j ≠ i → (f j).get? k = none) (l : List ι) :
    (l.foldl (fun d j => d.update (f j)) empty).get? k = if i ∈ l then (f i).get? k else none := by
  induction l using List.reverseRecOn with
  | nil => rfl
  | append_singleton l j ih =>
    rw [List.foldl_append, List.foldl_cons, List.foldl_nil, get?_update, ih]
    by_cases hj : j = i
    · subst hj
      split <;> simp
    · rw [h j hj, Option.none_or]
      simp [Ne.symm hj]

/-- A loop that assigns `d[key x] = f x (d.get(key x))` over a list. -/
def collect [DecidableEq κ] (key : α → κ) (f : α → Option ν → ν) (l : List α) : OrderedDict κ ν :=
  l.foldl (fun d x => d.alter (key x) (f x)) empty

private theorem get?_foldl_alter [DecidableEq κ] (key : α → κ) (f : α → Option ν → ν) (l : List α)
    (d : OrderedDict κ ν) (k : κ) :
    (l.foldl (fun d x => d.alter (key x) (f x)) d).get? k =
      (l.filter (key · = k)).foldl (fun o x => some (f x o)) (d.get? k) := by
  induction l generalizing d with
  | nil => rfl
  | cons a l ih =>
    rw [List.foldl_cons, ih, get?_alter]
    by_cases h : key a = k
    · simp [h]
    · simp [h, Ne.symm h]

/-- Each key holds the fold of its own rows: the loop never mixes keys. -/
theorem get?_collect [DecidableEq κ] (key : α → κ) (f : α → Option ν → ν) (l : List α) (k : κ) :
    (collect key f l).get? k = (l.filter (key · = k)).foldl (fun o x => some (f x o)) none :=
  get?_foldl_alter key f l empty k

/-- A loop that overwrites keeps each key's last row. -/
theorem get?_collect_last [DecidableEq κ] (key : α → κ) (f : α → ν) (l : List α) (k : κ) :
    (collect key (fun x _ => f x) l).get? k = (l.filter (key · = k)).getLast?.map f := by
  have hfold (m : List α) (o : Option ν) :
      m.foldl (fun _ x => some (f x)) o = (m.getLast?.map f).or o := by
    induction m generalizing o with
    | nil => rfl
    | cons a m ih =>
      rw [List.foldl_cons, ih, List.getLast?_cons]
      cases m.getLast? <;> rfl
  rw [get?_collect, hfold, Option.or_none]

/-- Over rows of distinct keys each key holds its own row's value. -/
theorem get?_collect_of_nodup [DecidableEq κ] (key : α → κ) (f : α → ν) {l : List α} (hl : (l.map key).Nodup)
    {k : κ} {v : ν} :
    (collect key (fun x _ => f x) l).get? k = some v ↔ ∃ x ∈ l, key x = k ∧ f x = v := by
  rw [get?_collect_last, Option.map_eq_some_iff]
  constructor
  · intro h
    obtain ⟨x, hx, rfl⟩ := h
    obtain ⟨hmem, hk⟩ := List.mem_filter.mp (List.mem_of_getLast? hx)
    exact ⟨x, hmem, of_decide_eq_true hk, rfl⟩
  · intro h
    obtain ⟨x, hmem, hk, rfl⟩ := h
    have hx : x ∈ l.filter (key · = k) := List.mem_filter.mpr ⟨hmem, decide_eq_true hk⟩
    have hlast := List.getLast?_eq_some_getLast (List.ne_nil_of_mem hx)
    obtain ⟨hymem, hyk⟩ := List.mem_filter.mp (List.mem_of_getLast? hlast)
    have hsame := List.inj_on_of_nodup_map hl hymem hmem ((of_decide_eq_true hyk).trans hk.symm)
    exact ⟨_, hlast, congrArg f hsame⟩

private theorem keys_foldl_alter [DecidableEq κ] (key : α → κ) (f : α → Option ν → ν) (l : List α)
    (d : OrderedDict κ ν) :
    (l.foldl (fun d x => d.alter (key x) (f x)) d).keys =
      d.keys ++ (firstSeen (l.map key)).filter (· ∉ d.keys) := by
  induction l generalizing d with
  | nil => simp [firstSeen]
  | cons a l ih =>
    rw [List.foldl_cons, ih, keys_alter, List.map_cons, firstSeen]
    by_cases h : key a ∈ d.keys
    · simp only [h, if_true, not_true_eq_false, decide_false, Bool.false_eq_true,
        not_false_eq_true, List.filter_cons_of_neg, List.filter_filter]
      congr 1
      apply List.filter_congr
      intro b _
      by_cases hb : b = key a <;> simp [hb, h]
    · simp only [h, if_false, not_false_eq_true, decide_true, List.filter_cons_of_pos,
        List.append_assoc, List.singleton_append, List.filter_filter, List.mem_append,
        List.mem_singleton, not_or]
      congr 2
      apply List.filter_congr
      intro b _
      simp

theorem keys_collect [DecidableEq κ] (key : α → κ) (f : α → Option ν → ν) (l : List α) :
    (collect key f l).keys = firstSeen (l.map key) := by
  rw [collect, keys_foldl_alter]
  exact (List.nil_append _).trans (List.filter_eq_self.mpr fun b _ => by simp [empty, keys])

@[simp] theorem mem_keys_collect [DecidableEq κ] (key : α → κ) (f : α → Option ν → ν) (l : List α)
    (k : κ) : k ∈ (collect key f l).keys ↔ ∃ x ∈ l, key x = k := by
  rw [keys_collect, mem_firstSeen, List.mem_map]

/-- `d.setdefault(key x, []).append(x)` over a list. -/
def groupBy [DecidableEq κ] (key : α → κ) (l : List α) : OrderedDict κ (List α) :=
  collect key (fun x o => o.getD [] ++ [x]) l

private theorem foldl_some_append (l : List α) (o : Option (List α)) :
    (l.foldl (fun o x => some (o.getD [] ++ [x])) o).getD [] = o.getD [] ++ l := by
  induction l generalizing o with
  | nil => simp
  | cons a l ih => rw [List.foldl_cons, ih]; simp

/-- A group is the sublist of its key. -/
@[simp] theorem getD_groupBy [DecidableEq κ] (key : α → κ) (l : List α) (k : κ) :
    ((groupBy key l).get? k).getD [] = l.filter (key · = k) := by
  rw [groupBy, get?_collect, foldl_some_append]
  simp

theorem get?_groupBy [DecidableEq κ] (key : α → κ) (l : List α) {k : κ} (hk : k ∈ (groupBy key l).keys) :
    (groupBy key l).get? k = some (l.filter (key · = k)) := by
  obtain ⟨v, hv⟩ := mem_keys_iff.mp hk
  have := getD_groupBy key l k
  rw [hv] at this ⊢
  simpa using this

theorem get?_groupBy_of_nil [DecidableEq κ] (key : α → κ) (l : List α) {k : κ}
    (h : l.filter (key · = k) = []) : (groupBy key l).get? k = none := by
  cases hg : (groupBy key l).get? k with
  | none => rfl
  | some v =>
    obtain ⟨x, hx, he⟩ := (mem_keys_collect key _ l k).mp (mem_keys_iff.mpr ⟨v, hg⟩)
    have hm : x ∈ l.filter (key · = k) := List.mem_filter.mpr ⟨hx, by simpa using he⟩
    rw [h] at hm
    cases hm

/-- No group is empty. -/
theorem ne_nil_of_get?_groupBy [DecidableEq κ] {key : α → κ} {l g : List α} {k : κ}
    (h : (groupBy key l).get? k = some g) : g ≠ [] := by
  intro hnil
  subst hnil
  have hgroup := getD_groupBy key l k
  rw [h, Option.getD_some] at hgroup
  rw [get?_groupBy_of_nil key l hgroup.symm] at h
  cases h

theorem entries_groupBy [DecidableEq κ] (key : α → κ) (l : List α) :
    (groupBy key l).entries = (firstSeen (l.map key)).map fun k => (k, l.filter (key · = k)) := by
  rw [entries_eq_of_get? _ (fun k => l.filter (key · = k)) fun k hk => get?_groupBy key l hk]
  rw [groupBy, keys_collect]

theorem flatMap_filter_perm [DecidableEq κ] (key : α → κ) {ks : List κ} (hks : ks.Nodup)
    {l : List α} (h : ∀ x ∈ l, key x ∈ ks) : (ks.flatMap fun k => l.filter (key · = k)).Perm l := by
  induction ks generalizing l with
  | nil =>
    have hl : l = [] := List.eq_nil_iff_forall_not_mem.mpr fun x hx => absurd (h x hx) List.not_mem_nil
    rw [hl, List.flatMap_nil]
  | cons k ks ih =>
    obtain ⟨hk, hks⟩ := List.nodup_cons.mp hks
    have hrest : (ks.flatMap fun j => l.filter (key · = j)) =
        ks.flatMap fun j => (l.filter fun x => !decide (key x = k)).filter (key · = j) := by
      apply List.flatMap_congr
      intro j hj
      rw [List.filter_filter]
      apply List.filter_congr
      intro x _
      have hjk : j ≠ k := fun e => hk (e ▸ hj)
      by_cases hx : key x = j <;> simp [hx, hjk]
    rw [List.flatMap_cons, hrest]
    refine (List.Perm.append_left _ (ih hks fun x hx => ?_)).trans (List.filter_append_perm _ l)
    obtain ⟨hx, hne⟩ := List.mem_filter.mp hx
    rcases List.mem_cons.mp (h x hx) with he | he
    · simp [he] at hne
    · exact he

theorem values_groupBy [DecidableEq κ] (key : α → κ) (l : List α) :
    (groupBy key l).values = (groupBy key l).keys.map fun k => l.filter (key · = k) := by
  rw [values, entries_groupBy, groupBy, keys_collect, List.map_map]
  rfl

section blocks
variable [DecidableEq κ] {key : β → κ} {id : α → κ} {f : α → List β} {l : List α}

/-- A block of rows under one key is cut out again by that key. -/
theorem filter_flatMap_blocks (hid : ∀ a ∈ l, ∀ b ∈ f a, key b = id a) (hn : (l.map id).Nodup)
    {a : α} (ha : a ∈ l) : (l.flatMap f).filter (key · = id a) = f a := by
  induction l with
  | nil => cases ha
  | cons c l ih =>
    obtain ⟨hc, hn⟩ := List.nodup_cons.mp hn
    have hrest (d : α) (hd : d ∈ l) : ∀ b ∈ f d, key b = id d := hid d (List.mem_cons_of_mem _ hd)
    rw [List.flatMap_cons, List.filter_append]
    rcases List.mem_cons.mp ha with rfl | ha
    · have hhead : (f a).filter (key · = id a) = f a :=
        List.filter_eq_self.mpr fun b hb => decide_eq_true (hid a List.mem_cons_self b hb)
      have htail : (l.flatMap f).filter (key · = id a) = [] := by
        rw [List.filter_eq_nil_iff]
        intro b hb he
        obtain ⟨d, hd, hb⟩ := List.mem_flatMap.mp hb
        have hda : id d = id a := (hrest d hd b hb).symm.trans (of_decide_eq_true he)
        exact hc (hda ▸ List.mem_map_of_mem hd)
      rw [hhead, htail, List.append_nil]
    · have hhead : (f c).filter (key · = id a) = [] := by
        rw [List.filter_eq_nil_iff]
        intro b hb he
        have hca : id c = id a := (hid c List.mem_cons_self b hb).symm.trans (of_decide_eq_true he)
        exact hc (hca ▸ List.mem_map_of_mem ha)
      rw [hhead, List.nil_append, ih hrest hn ha]

private theorem firstSeen_flatMap_blocks (hid : ∀ a ∈ l, ∀ b ∈ f a, key b = id a)
    (hne : ∀ a ∈ l, f a ≠ []) (hn : (l.map id).Nodup) :
    firstSeen ((l.flatMap f).map key) = l.map id := by
  induction l with
  | nil => rfl
  | cons c l ih =>
    obtain ⟨hc, hn⟩ := List.nodup_cons.mp hn
    have hconst : (f c).map key = List.replicate (f c).length (id c) :=
      List.eq_replicate_iff.mpr ⟨List.length_map _, fun k hk => by
        obtain ⟨b, hb, rfl⟩ := List.mem_map.mp hk
        exact hid c List.mem_cons_self b hb⟩
    have hlen : 0 < (f c).length := List.length_pos_iff.mpr (hne c List.mem_cons_self)
    rw [List.flatMap_cons, List.map_append, firstSeen_append, hconst, firstSeen_replicate _ hlen,
      ih (fun d hd => hid d (List.mem_cons_of_mem _ hd)) (fun d hd => hne d (List.mem_cons_of_mem _ hd)) hn]
    rw [List.filter_eq_self.mpr]
    · rfl
    · intro k hk
      simp only [List.mem_replicate, not_and, decide_eq_true_eq]
      intro _ he
      exact hc (he ▸ hk)

/-- Grouping blocks of distinct keys finds the blocks in their order. -/
theorem entries_groupBy_flatMap (hid : ∀ a ∈ l, ∀ b ∈ f a, key b = id a)
    (hne : ∀ a ∈ l, f a ≠ []) (hn : (l.map id).Nodup) : (groupBy key (l.flatMap f)).entries =
      l.map fun a => (id a, (l.flatMap f).filter (key · = id a)) := by
  rw [entries_groupBy, firstSeen_flatMap_blocks hid hne hn, List.map_map]
  rfl

/-- Shuffled blocks are found in some order. -/
theorem exists_entries_groupBy_perm (hid : ∀ a ∈ l, ∀ b ∈ f a, key b = id a)
    (hne : ∀ a ∈ l, f a ≠ []) (hn : (l.map id).Nodup) {rows : List β} (hp : rows.Perm (l.flatMap f)) :
    ∃ m : List α, m.Perm l ∧
      (groupBy key rows).entries = m.map fun a => (id a, rows.filter (key · = id a)) := by
  have hkeys : (firstSeen (rows.map key)).Perm (l.map id) := by
    rw [List.perm_ext_iff_of_nodup (nodup_firstSeen _) hn]
    intro k
    rw [← firstSeen_flatMap_blocks hid hne hn, mem_firstSeen, mem_firstSeen, (hp.map key).mem_iff]
  have hcomp : Relation.Comp (fun ks m => ks = List.map id m) List.Perm (firstSeen (rows.map key)) l := by
    rw [List.eq_map_comp_perm]
    exact hkeys
  obtain ⟨m, hm, hml⟩ := hcomp
  exact ⟨m, hml, by rw [entries_groupBy, hm, List.map_map]; rfl⟩

end blocks

/-- The groups partition the list. -/
theorem flatten_values_groupBy_perm [DecidableEq κ] (key : α → κ) (l : List α) :
    (groupBy key l).values.flatten.Perm l := by
  rw [values_groupBy, ← List.flatMap_def]
  exact flatMap_filter_perm key (groupBy key l).nodup fun x hx =>
    (mem_keys_collect key _ l (key x)).mpr ⟨x, hx, rfl⟩

def mapValues (f : ν → α) (d : OrderedDict κ ν) : OrderedDict κ α where
  entries := d.entries.map fun e => (e.1, f e.2)
  nodup := by
    rw [List.map_map]
    exact d.nodup

@[simp] theorem get?_mapValues [DecidableEq κ] (f : ν → α) (d : OrderedDict κ ν) (k : κ) :
    (d.mapValues f).get? k = (d.get? k).map f := by
  obtain ⟨es, hes⟩ := d
  simp only [get?, mapValues]
  clear hes
  induction es with
  | nil => rfl
  | cons e es ih =>
    obtain ⟨j, v⟩ := e
    by_cases h : k = j
    · simp [h]
    · have hkj : (k == j) = false := by simpa using h
      simp [List.lookup_cons, hkj, ih]

theorem entries_mapValues_groupBy [DecidableEq κ] (key : α → κ) (l : List α) (f : List α → β) :
    ((groupBy key l).mapValues f).entries = (firstSeen (l.map key)).map fun k => (k, f (l.filter (key · = k))) := by
  change (groupBy key l).entries.map (fun e => (e.1, f e.2)) = _
  rw [entries_groupBy, List.map_map]
  rfl

/-- A group put through `f`, the value of an absent one being that of no rows. -/
theorem getD_mapValues_groupBy [DecidableEq κ] (key : α → κ) (l : List α) {f : List α → β} {d : β}
    (hf : f [] = d) (k : κ) :
    (((groupBy key l).mapValues f).get? k).getD d = f (l.filter (key · = k)) := by
  rw [get?_mapValues, ← getD_groupBy key l k]
  cases (groupBy key l).get? k with
  | none => exact hf.symm
  | some v => rfl

end OrderedDict
end CtvAttribution.Library
