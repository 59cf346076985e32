import CtvAttribution.Library.SortedBy
import Mathlib.Algebra.Order.Group.Basic
import Mathlib.Data.List.Induction

/-! A watermark-gated stream join. Build rows are held until the watermark passes
their window; probe rows wait until the watermark reaches their event time and are
then released against the build rows held at that moment. -/
namespace CtvAttribution.Library
variable {α β τ κ : Type}

inductive Arrival (α β : Type) where
  | build : α → Arrival α β
  | probe : β → Arrival α β
  deriving DecidableEq, Repr

namespace Arrival

def builds : List (Arrival α β) → List α
  | [] => []
  | .build a :: xs => a :: builds xs
  | .probe _ :: xs => builds xs

def probes : List (Arrival α β) → List β
  | [] => []
  | .build _ :: xs => probes xs
  | .probe b :: xs => b :: probes xs

@[simp] theorem mem_builds {l : List (Arrival α β)} {a : α} : a ∈ builds l ↔ .build a ∈ l := by
  induction l with
  | nil => simp [builds]
  | cons x l ih => cases x <;> simp [builds, ih]

@[simp] theorem mem_probes {l : List (Arrival α β)} {b : β} : b ∈ probes l ↔ .probe b ∈ l := by
  induction l with
  | nil => simp [probes]
  | cons x l ih => cases x <;> simp [probes, ih]

@[simp] theorem builds_append (l m : List (Arrival α β)) : builds (l ++ m) = builds l ++ builds m := by
  induction l with
  | nil => rfl
  | cons x l ih => cases x <;> simp [builds, ih]

@[simp] theorem probes_append (l m : List (Arrival α β)) : probes (l ++ m) = probes l ++ probes m := by
  induction l with
  | nil => rfl
  | cons x l ih => cases x <;> simp [probes, ih]

theorem probes_flatten (ls : List (List (Arrival α β))) : probes ls.flatten = ls.flatMap probes := by
  induction ls with
  | nil => rfl
  | cons l ls ih => rw [List.flatten_cons, probes_append, ih, List.flatMap_cons]

theorem probes_sublist {l m : List (Arrival α β)} (h : l.Sublist m) :
    (probes l).Sublist (probes m) := by
  induction h with
  | slnil => exact .slnil
  | cons x _ ih =>
    cases x with
    | build a => exact ih
    | probe b => exact ih.cons b
  | cons_cons x _ ih =>
    cases x with
    | build a => exact ih
    | probe b => exact ih.cons_cons b

theorem probes_perm {l m : List (Arrival α β)} (h : l.Perm m) : (probes l).Perm (probes m) := by
  induction h with
  | nil => exact .refl _
  | cons x _ ih => cases x <;> simp [probes, ih]
  | swap x y l => cases x <;> cases y <;> simp [probes, List.Perm.swap]
  | trans _ _ ih ih' => exact ih.trans ih'

theorem builds_perm {l m : List (Arrival α β)} (h : l.Perm m) : (builds l).Perm (builds m) := by
  induction h with
  | nil => exact .refl _
  | cons x _ ih => cases x <;> simp [builds, ih]
  | swap x y l => cases x <;> cases y <;> simp [builds, List.Perm.swap]
  | trans _ _ ih ih' => exact ih.trans ih'

end Arrival

/-- Event times of both sides, the lateness the watermark trails by, and how long a
build row stays joinable. -/
structure WatermarkJoin (α β τ : Type) where
  buildTime : α → τ
  probeTime : β → τ
  lateness : τ
  window : τ

namespace WatermarkJoin
open Arrival

structure State (α β τ : Type) where
  held : List α
  waiting : List β
  watermark : Option τ

def initial : State α β τ := ⟨[], [], none⟩

section steps
variable [AddCommGroup τ] [LinearOrder τ] (J : WatermarkJoin α β τ)

def time : Arrival α β → τ
  | .build a => J.buildTime a
  | .probe b => J.probeTime b

/-- The watermark trails the latest event time and never moves back. -/
def advance (w : Option τ) (t : τ) : τ :=
  match w with
  | none => t - J.lateness
  | some w => if w < t - J.lateness then t - J.lateness else w

def mark (s : State α β τ) (x : Arrival α β) : τ := J.advance s.watermark (J.time x)
def arrived (s : State α β τ) (x : Arrival α β) : List α := s.held ++ builds [x]
def queued (s : State α β τ) (x : Arrival α β) : List β := s.waiting ++ probes [x]
def due (s : State α β τ) (x : Arrival α β) : List β :=
  (queued s x).filter fun b => J.probeTime b ≤ J.mark s x

/-- One tick: advance, buffer, release what is due, then evict. -/
def step (s : State α β τ) (x : Arrival α β) : State α β τ where
  held := (arrived s x).filter fun a => J.mark s x ≤ J.buildTime a + J.window
  waiting := (queued s x).filter fun b => J.mark s x < J.probeTime b
  watermark := some (J.mark s x)

/-- Every probe row with the build rows it is released against, in release order;
what still waits at the end is flushed against the surviving rows. -/
def schedule (s : State α β τ) : List (Arrival α β) → List (β × List α)
  | [] => s.waiting.map fun b => (b, s.held)
  | x :: xs => (J.due s x).map (fun b => (b, arrived s x)) ++ schedule (J.step s x) xs

def watermark (l : List (Arrival α β)) : Option τ :=
  l.foldl (fun w x => some (J.advance w (J.time x))) none

/-- Whether a row of event time `t` lies behind the watermark of `l`. -/
def Reached (l : List (Arrival α β)) (t : τ) : Prop := ∃ z ∈ l, t + J.lateness ≤ J.time z

def Passed (l : List (Arrival α β)) (t : τ) : Prop := ∃ z ∈ l, t + J.lateness < J.time z

instance (l : List (Arrival α β)) (t : τ) : Decidable (J.Reached l t) :=
  inferInstanceAs (Decidable (∃ z ∈ l, _))
instance (l : List (Arrival α β)) (t : τ) : Decidable (J.Passed l t) :=
  inferInstanceAs (Decidable (∃ z ∈ l, _))

/-- The state after a prefix in closed form: held and waiting rows are filters of
everything that has arrived. -/
def stateAfter (l : List (Arrival α β)) : State α β τ where
  held := (builds l).filter fun a => ¬ J.Passed l (J.buildTime a + J.window)
  waiting := (probes l).filter fun b => ¬ J.Reached l (J.probeTime b)
  watermark := J.watermark l

theorem stateAfter_nil : J.stateAfter [] = initial := rfl

theorem held_stateAfter (l : List (Arrival α β)) : (J.stateAfter l).held =
    (builds l).filter fun a => ¬ J.Passed l (J.buildTime a + J.window) := rfl

theorem waiting_stateAfter (l : List (Arrival α β)) : (J.stateAfter l).waiting =
    (probes l).filter fun b => ¬ J.Reached l (J.probeTime b) := rfl

theorem watermark_append_singleton (l : List (Arrival α β)) (x : Arrival α β) :
    J.watermark (l ++ [x]) = some (J.advance (J.watermark l) (J.time x)) := by
  simp [watermark]

theorem reached_append {l : List (Arrival α β)} {u : τ} (h : J.Reached l u)
    (m : List (Arrival α β)) : J.Reached (l ++ m) u := by
  obtain ⟨z, hz, hu⟩ := h
  exact ⟨z, List.mem_append_left m hz, hu⟩

theorem passed_append {l : List (Arrival α β)} {u : τ} (h : J.Passed l u)
    (m : List (Arrival α β)) : J.Passed (l ++ m) u := by
  obtain ⟨z, hz, hu⟩ := h
  exact ⟨z, List.mem_append_left m hz, hu⟩

variable [IsOrderedAddMonoid τ]

/-- Once something has arrived the watermark trails the latest event time. -/
theorem exists_latest {l : List (Arrival α β)} (hne : l ≠ []) :
    ∃ x ∈ l, (∀ z ∈ l, J.time z ≤ J.time x) ∧ J.watermark l = some (J.time x - J.lateness) := by
  induction l using List.reverseRecOn with
  | nil => exact absurd rfl hne
  | append_singleton l x ih =>
    rw [watermark_append_singleton]
    by_cases hl : l = []
    · subst hl
      exact ⟨x, List.mem_singleton_self x, fun z hz => (List.mem_singleton.mp hz) ▸ le_rfl, rfl⟩
    · obtain ⟨y, hy, hlatest, hw⟩ := ih hl
      rw [hw, advance]
      split
      · rename_i hlt
        have hyx : J.time y < J.time x := (sub_lt_sub_iff_right _).mp hlt
        refine ⟨x, List.mem_append_right l (List.mem_singleton_self x), fun z hz => ?_, rfl⟩
        rcases List.mem_append.mp hz with hz | hz
        · exact (hlatest z hz).trans hyx.le
        · rw [List.mem_singleton.mp hz]
      · rename_i hnot
        have hxy : J.time x ≤ J.time y := (sub_le_sub_iff_right _).mp (not_lt.mp hnot)
        refine ⟨y, List.mem_append_left _ hy, fun z hz => ?_, rfl⟩
        rcases List.mem_append.mp hz with hz | hz
        · exact hlatest z hz
        · exact (List.mem_singleton.mp hz) ▸ hxy

theorem le_advance_iff (w : Option τ) (t u : τ) :
    u ≤ J.advance w t ↔ (∃ v, w = some v ∧ u ≤ v) ∨ u + J.lateness ≤ t := by
  rw [← le_sub_iff_add_le]
  cases w with
  | none => simp [advance]
  | some v =>
    simp only [advance, Option.some.injEq, exists_eq_left']
    split
    · rename_i h
      exact ⟨Or.inr, fun hu => hu.elim (fun hv => hv.trans h.le) id⟩
    · rename_i h
      exact ⟨Or.inl, fun hu => hu.elim id fun ht => ht.trans (not_lt.mp h)⟩

theorem lt_advance_iff (w : Option τ) (t u : τ) :
    u < J.advance w t ↔ (∃ v, w = some v ∧ u < v) ∨ u + J.lateness < t := by
  rw [← lt_sub_iff_add_lt]
  cases w with
  | none => simp [advance]
  | some v =>
    simp only [advance, Option.some.injEq, exists_eq_left']
    split
    · rename_i h
      exact ⟨Or.inr, fun hu => hu.elim (fun hv => hv.trans h) id⟩
    · rename_i h
      exact ⟨Or.inl, fun hu => hu.elim id fun ht => ht.trans_le (not_lt.mp h)⟩

theorem le_watermark_iff (l : List (Arrival α β)) (u : τ) :
    (∃ w, J.watermark l = some w ∧ u ≤ w) ↔ J.Reached l u := by
  induction l using List.reverseRecOn with
  | nil => simp [watermark, Reached]
  | append_singleton l x ih =>
    rw [watermark_append_singleton]
    simp only [Option.some.injEq, exists_eq_left', le_advance_iff, ih, Reached, List.mem_append,
      List.mem_singleton, or_and_right, exists_or, exists_eq_left]

theorem lt_watermark_iff (l : List (Arrival α β)) (u : τ) :
    (∃ w, J.watermark l = some w ∧ u < w) ↔ J.Passed l u := by
  induction l using List.reverseRecOn with
  | nil => simp [watermark, Passed]
  | append_singleton l x ih =>
    rw [watermark_append_singleton]
    simp only [Option.some.injEq, exists_eq_left', lt_advance_iff, ih, Passed, List.mem_append,
      List.mem_singleton, or_and_right, exists_or, exists_eq_left]

theorem le_mark_iff (l : List (Arrival α β)) (x : Arrival α β) (u : τ) :
    u ≤ J.mark (J.stateAfter l) x ↔ J.Reached (l ++ [x]) u := by
  rw [← le_watermark_iff, watermark_append_singleton]
  simp [mark, stateAfter]

theorem lt_mark_iff (l : List (Arrival α β)) (x : Arrival α β) (u : τ) :
    u < J.mark (J.stateAfter l) x ↔ J.Passed (l ++ [x]) u := by
  rw [← lt_watermark_iff, watermark_append_singleton]
  simp [mark, stateAfter]

/-- A tick keeps the closed form: the watermark only grows, so filtering the filtered
rows again is filtering all of them once. -/
theorem step_stateAfter (l : List (Arrival α β)) (x : Arrival α β) :
    J.step (J.stateAfter l) x = J.stateAfter (l ++ [x]) := by
  have held : (arrived (J.stateAfter l) x).filter (fun a =>
      J.mark (J.stateAfter l) x ≤ J.buildTime a + J.window) =
      (builds (l ++ [x])).filter fun a => ¬ J.Passed (l ++ [x]) (J.buildTime a + J.window) := by
    rw [arrived, held_stateAfter, builds_append, List.filter_append, List.filter_append,
      List.filter_filter]
    congr 1 <;> refine List.filter_congr fun a _ => Bool.eq_iff_iff.mpr ?_ <;>
      simp only [Bool.and_eq_true, decide_eq_true_eq, ← not_lt, lt_mark_iff]
    exact ⟨And.left, fun h => ⟨h, fun hp => h (J.passed_append hp [x])⟩⟩
  have waiting : (queued (J.stateAfter l) x).filter (fun b =>
      J.mark (J.stateAfter l) x < J.probeTime b) =
      (probes (l ++ [x])).filter fun b => ¬ J.Reached (l ++ [x]) (J.probeTime b) := by
    rw [queued, waiting_stateAfter, probes_append, List.filter_append, List.filter_append,
      List.filter_filter]
    congr 1 <;> refine List.filter_congr fun b _ => Bool.eq_iff_iff.mpr ?_ <;>
      simp only [Bool.and_eq_true, decide_eq_true_eq, ← not_le, le_mark_iff]
    exact ⟨And.left, fun h => ⟨h, fun hp => h (J.reached_append hp [x])⟩⟩
  rw [step, held, waiting]
  exact congrArg (State.mk _ _) (J.watermark_append_singleton l x).symm

theorem mem_due {l : List (Arrival α β)} {x : Arrival α β} {b : β} :
    b ∈ J.due (J.stateAfter l) x ↔
      ((.probe b ∈ l ∧ ¬ J.Reached l (J.probeTime b)) ∨ x = .probe b) ∧
        J.Reached (l ++ [x]) (J.probeTime b) := by
  simp only [due, queued, waiting_stateAfter, List.mem_filter, List.mem_append, mem_probes,
    List.mem_singleton, decide_eq_true_eq, le_mark_iff, eq_comm (a := x)]

omit [IsOrderedAddMonoid τ] in
theorem mem_arrived {l : List (Arrival α β)} {x : Arrival α β} {a : α} :
    a ∈ arrived (J.stateAfter l) x ↔
      (.build a ∈ l ∧ ¬ J.Passed l (J.buildTime a + J.window)) ∨ x = .build a := by
  simp only [arrived, held_stateAfter, List.mem_append, List.mem_filter, mem_builds,
    List.mem_singleton, decide_eq_true_eq, eq_comm (a := x)]

/-- A scheduled pair is either released by the arrival that first carries the watermark
to the probe row, or flushed at the end. -/
theorem released_or_flushed {l m : List (Arrival α β)} {b : β} {snap : List α}
    (h : (b, snap) ∈ J.schedule (J.stateAfter l) m) :
    (∃ p x s, m = p ++ x :: s ∧ b ∈ J.due (J.stateAfter (l ++ p)) x ∧
      snap = arrived (J.stateAfter (l ++ p)) x) ∨
    (b ∈ (J.stateAfter (l ++ m)).waiting ∧ snap = (J.stateAfter (l ++ m)).held) := by
  induction m generalizing l with
  | nil =>
    obtain ⟨c, hc, he⟩ := List.mem_map.mp h
    obtain ⟨rfl, rfl⟩ := Prod.mk.inj he
    exact Or.inr (by simpa using hc)
  | cons x m ih =>
    rw [schedule, List.mem_append, step_stateAfter] at h
    rcases h with h | h
    · obtain ⟨c, hc, he⟩ := List.mem_map.mp h
      obtain ⟨rfl, rfl⟩ := Prod.mk.inj he
      exact Or.inl ⟨[], x, m, rfl, by simpa using hc, by simp⟩
    · rcases ih h with ⟨p, y, s, rfl, hb, hs⟩ | ⟨hb, hs⟩
      · refine Or.inl ⟨x :: p, y, s, rfl, ?_, ?_⟩
        · simpa using hb
        · simpa using hs
      · exact Or.inr ⟨by simpa using hb, by simpa using hs⟩

omit [IsOrderedAddMonoid τ] in
/-- Release neither drops nor repeats a probe row. -/
theorem schedule_probes (s : State α β τ) (m : List (Arrival α β)) :
    ((J.schedule s m).map Prod.fst).Perm (s.waiting ++ probes m) := by
  induction m generalizing s with
  | nil => simp [schedule, probes, Function.comp_def]
  | cons x m ih =>
    have split : (J.due s x ++ (J.step s x).waiting).Perm (queued s x) := by
      have h := List.filter_append_perm (fun b => decide (J.probeTime b ≤ J.mark s x)) (queued s x)
      simpa only [due, step, ← decide_not, not_le] using h
    have head : (J.due s x).map (Prod.fst ∘ fun b => (b, arrived s x)) = J.due s x := by
      simp [Function.comp_def]
    rw [schedule, List.map_append, List.map_map, head]
    refine ((ih _).append_left _).trans ?_
    rw [← List.append_assoc]
    refine (split.append_right _).trans (.of_eq ?_)
    cases x <;> simp [queued, probes]

end steps

/-- The arrivals come in key order, equal keys are equal arrivals, and no probe row
arrives twice. Build rows may be repeated. -/
structure InOrder [LinearOrder κ] (key : Arrival α β → κ) (l : List (Arrival α β)) : Prop where
  sorted : l.Pairwise fun x y => key x ≤ key y
  inj : Keyed key l
  probesOnce : (probes l).Nodup

section visibility
variable [AddCommGroup τ] [LinearOrder τ] (J : WatermarkJoin α β τ)
variable [LinearOrder κ] (key : Arrival α β → κ) (l : List (Arrival α β))

/-- In the window of `b` and not after it. -/
def Eligible (b : β) (a : α) : Prop :=
  J.buildTime a ≤ J.probeTime b ∧ J.probeTime b ≤ J.buildTime a + J.window

/-- `a` arrives only after the watermark has released `b`. -/
def Missed (b : β) (a : α) : Prop :=
  key (.probe b) < key (.build a) ∧
    ∃ z ∈ l, J.probeTime b + J.lateness ≤ J.time z ∧ key z < key (.build a)

/-- The window of `a` has closed before `b` arrives. -/
def Evicted (b : β) (a : α) : Prop :=
  key (.build a) < key (.probe b) ∧
    ∃ z ∈ l, J.buildTime a + J.window + J.lateness < J.time z ∧ key z < key (.probe b)

instance (b : β) (a : α) : Decidable (J.Eligible b a) := inferInstanceAs (Decidable (_ ∧ _))
instance (b : β) (a : α) : Decidable (J.Missed key l b a) :=
  inferInstanceAs (Decidable (_ ∧ ∃ z ∈ l, _))
instance (b : β) (a : α) : Decidable (J.Evicted key l b a) :=
  inferInstanceAs (Decidable (_ ∧ ∃ z ∈ l, _))

variable {J key l}

theorem InOrder.mem_left {p s : List (Arrival α β)} {x y : Arrival α β}
    (h : InOrder key (p ++ x :: s)) (hy : y ∈ p ++ x :: s) (hlt : key y < key x) : y ∈ p := by
  rcases List.mem_append.mp hy with hp | hs
  · exact hp
  · have hle := (List.pairwise_cons.mp (List.pairwise_append.mp h.sorted).2.1).1
    rcases List.mem_cons.mp hs with rfl | hs
    · exact absurd hlt (lt_irrefl _)
    · exact absurd hlt (not_lt.mpr (hle y hs))

theorem InOrder.le_of_mem_left {p s : List (Arrival α β)} {x y : Arrival α β}
    (h : InOrder key (p ++ x :: s)) (hy : y ∈ p) : key y ≤ key x :=
  (List.pairwise_append.mp h.sorted).2.2 y hy x List.mem_cons_self

theorem InOrder.lt_of_mem_left {p s : List (Arrival α β)} {x y : Arrival α β}
    (h : InOrder key (p ++ x :: s)) (hy : y ∈ p) (hx : x ∉ p) : key y < key x := by
  refine lt_of_le_of_ne (h.le_of_mem_left hy) fun he => hx ?_
  rwa [← h.inj y (List.mem_append_left _ hy) x (List.mem_append_right p List.mem_cons_self) he]

theorem InOrder.probe_not_mem_left {p s : List (Arrival α β)} {b : β}
    (h : InOrder key (p ++ .probe b :: s)) : .probe b ∉ p := by
  have hn := h.probesOnce
  rw [probes_append] at hn
  intro hb
  exact (List.nodup_append.mp hn).2.2 b (mem_probes.mpr hb) b (by simp [probes]) rfl

/-- What is neither `x` nor before it comes after it. -/
theorem InOrder.lt_of_mem_right {p s : List (Arrival α β)} {x y : Arrival α β}
    (h : InOrder key (p ++ x :: s)) (hy : y ∈ p ++ x :: s) (hp : y ∉ p) (hx : x ≠ y) : key x < key y := by
  refine lt_of_not_ge fun hle => ?_
  rcases hle.lt_or_eq with hlt | he
  · exact hp (h.mem_left hy hlt)
  · exact hx (h.inj _ (List.mem_append_right p List.mem_cons_self) _ hy he.symm)

/-- The arrivals up to `x`. -/
theorem InOrder.le_of_mem_upto {p s : List (Arrival α β)} {x y : Arrival α β}
    (h : InOrder key (p ++ x :: s)) (hy : y ∈ p ++ [x]) : key y ≤ key x := by
  rcases List.mem_append.mp hy with hy | hy
  · exact h.le_of_mem_left hy
  · rw [List.mem_singleton.mp hy]

theorem mem_of_mem_upto {p s : List (Arrival α β)} {x y : Arrival α β} (hy : y ∈ p ++ [x]) : y ∈ p ++ x :: s := by
  rcases List.mem_append.mp hy with hy | hy
  · exact List.mem_append_left _ hy
  · exact List.mem_append_right _ (List.mem_cons.mpr (Or.inl (List.mem_singleton.mp hy)))

variable [IsOrderedAddMonoid τ]

section released
variable {p s : List (Arrival α β)} {x : Arrival α β} {b : β} {a : α}

/-- What the release of `b` by `x` sees arrived by then, with its window open. -/
theorem seen_of_arrived (h : InOrder key (p ++ x :: s)) (hb : b ∈ J.due (J.stateAfter p) x)
    (ha : J.Eligible b a) (hm : a ∈ arrived (J.stateAfter p) x) :
    .build a ∈ p ++ x :: s ∧ ¬ J.Missed key (p ++ x :: s) b a ∧ ¬ J.Evicted key (p ++ x :: s) b a := by
  obtain ⟨hb, _⟩ := J.mem_due.mp hb
  rw [J.mem_arrived] at hm
  have hax : .build a ∈ p ++ [x] := by
    rcases hm with ⟨hm, _⟩ | rfl
    · exact List.mem_append_left _ hm
    · exact List.mem_append_right _ (List.mem_singleton_self _)
  refine ⟨mem_of_mem_upto hax, ?_, ?_⟩
  · rintro ⟨hba, y, hy, hyt, hya⟩
    have hyp := h.mem_left hy (hya.trans_le (h.le_of_mem_upto hax))
    rcases hb with ⟨_, hnot⟩ | rfl
    · exact hnot ⟨y, hyp, hyt⟩
    · exact absurd (h.le_of_mem_upto hax) (not_le.mpr hba)
  · rintro ⟨_, y, hy, hyt, hyb⟩
    rcases hb with ⟨hb, hnot⟩ | rfl
    · have hyp := h.mem_left hy (hyb.trans_le (h.le_of_mem_left hb))
      exact hnot ⟨y, hyp, (add_le_add_left ha.2 _).trans hyt.le⟩
    · rcases hm with ⟨_, hnot⟩ | he
      · exact hnot ⟨y, h.mem_left hy hyb, hyt⟩
      · cases he

/-- An arrival the release has not missed came before it, or is it. -/
theorem mem_left_of_not_missed (h : InOrder key (p ++ x :: s)) (hb : b ∈ J.due (J.stateAfter p) x)
    (hal : .build a ∈ p ++ x :: s) (hmiss : ¬ J.Missed key (p ++ x :: s) b a) (hx : x ≠ .build a) :
    .build a ∈ p := by
  obtain ⟨hb, z, hz, hzt⟩ := J.mem_due.mp hb
  by_contra hp
  have hax : key x < key (.build a) := h.lt_of_mem_right hal hp hx
  have hbx : key (.probe b) ≤ key x := by
    rcases hb with ⟨hb, _⟩ | rfl
    · exact h.le_of_mem_left hb
    · exact le_rfl
  exact hmiss ⟨hbx.trans_lt hax, z, mem_of_mem_upto hz, hzt, (h.le_of_mem_upto hz).trans_lt hax⟩

theorem arrived_of_seen (h : InOrder key (p ++ x :: s)) (hb : b ∈ J.due (J.stateAfter p) x)
    (ha : J.Eligible b a) (hal : .build a ∈ p ++ x :: s) (hmiss : ¬ J.Missed key (p ++ x :: s) b a)
    (hevict : ¬ J.Evicted key (p ++ x :: s) b a) : a ∈ arrived (J.stateAfter p) x := by
  rw [J.mem_arrived]
  by_cases hx : x = .build a
  · exact Or.inr hx
  · have hap := mem_left_of_not_missed h hb hal hmiss hx
    refine Or.inl ⟨hap, ?_⟩
    -- had its window closed, `b` would have been released earlier or be late
    rintro ⟨y, hy, hyt⟩
    rcases (J.mem_due.mp hb).1 with ⟨_, hnot⟩ | rfl
    · exact hnot ⟨y, hy, (add_le_add_left ha.2 _).trans hyt.le⟩
    · have hbp := h.probe_not_mem_left
      exact hevict ⟨h.lt_of_mem_left hap hbp, y, List.mem_append_left _ hy, hyt, h.lt_of_mem_left hy hbp⟩

end released

/-- What a released probe row sees. Among the rows in its window it is joined with
exactly those it has not missed and that were not evicted: both conditions compare
arrival keys only, so the batching of the pass drops out. -/
theorem mem_snapshot_iff (h : InOrder key l) {b : β} {snap : List α}
    (hs : (b, snap) ∈ J.schedule initial l) {a : α} (ha : J.Eligible b a) :
    a ∈ snap ↔ .build a ∈ l ∧ ¬ J.Missed key l b a ∧ ¬ J.Evicted key l b a := by
  rw [← stateAfter_nil] at hs
  rcases J.released_or_flushed hs with ⟨p, x, s, rfl, hb, rfl⟩ | ⟨hb, rfl⟩
  · -- released by `x`; `p` is everything that arrived before
    rw [List.nil_append] at hb ⊢
    constructor
    · exact seen_of_arrived h hb ha
    · intro hseen
      exact arrived_of_seen h hb ha hseen.1 hseen.2.1 hseen.2.2
  · -- flushed: the watermark never reached `b`, so nothing in its window was evicted
    simp only [List.nil_append, waiting_stateAfter, held_stateAfter, List.mem_filter, mem_probes,
      mem_builds, decide_eq_true_eq] at hb ⊢
    refine and_congr_right fun hal => ⟨fun _ => ⟨?_, ?_⟩, fun _ => ?_⟩
    · rintro ⟨_, z, hz, hzt, _⟩
      exact hb.2 ⟨z, hz, hzt⟩
    · rintro ⟨_, z, hz, hzt, _⟩
      exact hb.2 ⟨z, hz, (add_le_add_left ha.2 _).trans hzt.le⟩
    · rintro ⟨z, hz, hzt⟩
      exact hb.2 ⟨z, hz, (add_le_add_left ha.2 _).trans hzt.le⟩

omit [IsOrderedAddMonoid τ] in
/-- Visibility depends on the set of arrivals only. -/
theorem missed_congr {m : List (Arrival α β)} (h : ∀ x, x ∈ l ↔ x ∈ m) {b : β} {a : α} :
    J.Missed key l b a ↔ J.Missed key m b a := by
  simp only [Missed, h]

omit [IsOrderedAddMonoid τ] in
theorem evicted_congr {m : List (Arrival α β)} (h : ∀ x, x ∈ l ↔ x ∈ m) {b : β} {a : α} :
    J.Evicted key l b a ↔ J.Evicted key m b a := by
  simp only [Evicted, h]

/-- A row newer than one the probe row sees cannot have been evicted before it. -/
theorem not_evicted_of_newer (hkey : Keyed key l) {b : β} {a w : α} (hb : .probe b ∈ l)
    (hal : .build a ∈ l) (hmiss : ¬ J.Missed key l b a) (hevict : ¬ J.Evicted key l b a)
    (haw : J.buildTime a ≤ J.buildTime w) (hw : J.Eligible b w) : ¬ J.Evicted key l b w := by
  rintro ⟨_, z, hz, hzt, hzb⟩
  have hza : J.buildTime a + J.window + J.lateness < J.time z :=
    lt_of_le_of_lt (add_le_add_left (add_le_add_left haw _) _) hzt
  have hba : key (.probe b) < key (.build a) := by
    refine lt_of_le_of_ne (not_lt.mp fun hab => hevict ⟨hab, z, hz, hza, hzb⟩) fun he => ?_
    cases hkey _ hb _ hal he
  exact hmiss ⟨hba, z, hz, (add_le_add_left hw.2 _).trans hzt.le, hzb.trans hba⟩

section boundedLateness
variable {arrival : Arrival α β → τ} (hmono : ∀ x ∈ l, ∀ y ∈ l, key x < key y → arrival x ≤ arrival y)
  (hearly : ∀ x ∈ l, J.time x ≤ arrival x) (hlate : ∀ x ∈ l, arrival x ≤ J.time x + J.lateness)

include hmono hearly hlate

/-- Within the tolerated lateness eviction never drops a row in the window of `b`. -/
theorem not_evicted_of_bounded {b : β} {a : α} (hb : .probe b ∈ l) (ha : J.Eligible b a) :
    ¬ J.Evicted key l b a := by
  rintro ⟨_, z, hz, hzt, hzb⟩
  have harrive : arrival z ≤ J.probeTime b + J.lateness := (hmono z hz _ hb hzb).trans (hlate _ hb)
  have hclosed : J.probeTime b + J.lateness < J.time z := lt_of_le_of_lt (add_le_add_left ha.2 _) hzt
  exact absurd (hearly z hz) (not_le.mpr (harrive.trans_lt hclosed))

/-- Within the tolerated lateness a row is missed only at an exact tie: it happens with
the probe row, arrives as late as tolerated, and something punctual arrives just then. -/
theorem missed_iff_of_bounded {b : β} {a : α} (hal : .build a ∈ l) (ha : J.Eligible b a) :
    J.Missed key l b a ↔ key (.probe b) < key (.build a) ∧ J.buildTime a = J.probeTime b ∧
      arrival (.build a) = J.probeTime b + J.lateness ∧
      ∃ z ∈ l, J.time z = J.probeTime b + J.lateness ∧ arrival z = J.time z ∧ key z < key (.build a) := by
  constructor
  · rintro ⟨hba, z, hz, hzt, hza⟩
    have h1 : arrival z ≤ arrival (.build a) := hmono z hz _ hal hza
    have h2 : arrival (.build a) ≤ J.buildTime a + J.lateness := hlate _ hal
    have h3 : J.buildTime a + J.lateness ≤ J.probeTime b + J.lateness := add_le_add_left ha.1 _
    have h4 : J.time z ≤ arrival z := hearly z hz
    have hz' : J.time z = J.probeTime b + J.lateness :=
      le_antisymm (h4.trans (h1.trans (h2.trans h3))) hzt
    refine ⟨hba, ?_, ?_, z, hz, hz', ?_, hza⟩
    · exact add_right_cancel (le_antisymm h3 (hzt.trans (h4.trans (h1.trans h2))))
    · exact le_antisymm (h2.trans h3) (hzt.trans (h4.trans h1))
    · exact le_antisymm ((h1.trans (h2.trans h3)).trans hzt) h4
  · rintro ⟨hba, _, _, z, hz, hzt, _, hza⟩
    exact ⟨hba, z, hz, hzt.ge, hza⟩

end boundedLateness
end visibility
end WatermarkJoin
end CtvAttribution.Library
