import Mathlib.Data.List.Basic

/-! Programs that ask an environment and go on with its answers. Nothing is assumed of the
environment: what it answers may depend on everything asked before. -/
namespace CtvAttribution.Library
variable {Req : Type} {Ans : Req → Type} {σ ε ε' α β ι : Type}

/-- At its end, failed, or waiting for an answer. -/
inductive Session (Req : Type) (Ans : Req → Type) (ε α : Type) where
  | done (a : α)
  | fail (e : ε)
  | ask (r : Req) (k : Ans r → Session Req Ans ε α)

/-- A request and the answer it got. -/
abbrev Exchanged (Ans : Req → Type) : Type := (r : Req) × Ans r

namespace Session

def bind : Session Req Ans ε α → (α → Session Req Ans ε β) → Session Req Ans ε β
  | .done a, q => q a
  | .fail e, _ => .fail e
  | .ask r k, q => .ask r fun x => (k x).bind q

instance : Monad (Session Req Ans ε) where
  pure := .done
  bind := bind

def request (r : Req) : Session Req Ans ε (Ans r) := .ask r .done

def ofExcept : Except ε α → Session Req Ans ε α
  | .ok a => .done a
  | .error e => .fail e

/-- `try`: a failure becomes a result. -/
def attempt : Session Req Ans ε α → Session Req Ans ε' (Except ε α)
  | .done a => .done (.ok a)
  | .fail e => .done (.error e)
  | .ask r k => .ask r fun x => (k x).attempt

/-- The request a program waits on. -/
def next? : Session Req Ans ε α → Option Req
  | .ask r _ => some r
  | _ => none

/-- Complete runs, with what was exchanged on the way. -/
inductive Runs : Session Req Ans ε α → List (Exchanged Ans) → Except ε α → Prop where
  | done (a : α) : Runs (.done a) [] (.ok a)
  | fail (e : ε) : Runs (.fail e) [] (.error e)
  | ask {r : Req} {k : Ans r → Session Req Ans ε α} (x : Ans r) {d : List (Exchanged Ans)}
      {out : Except ε α} : Runs (k x) d out → Runs (.ask r k) (⟨r, x⟩ :: d) out

section runs
variable {d : List (Exchanged Ans)}

@[simp] theorem runs_done {a : α} {out : Except ε α} :
    (done a : Session Req Ans ε α).Runs d out ↔ d = [] ∧ out = .ok a := by
  constructor
  · intro h
    cases h
    exact ⟨rfl, rfl⟩
  · rintro ⟨rfl, rfl⟩
    exact .done a

@[simp] theorem runs_pure {a : α} {out : Except ε α} :
    (pure a : Session Req Ans ε α).Runs d out ↔ d = [] ∧ out = .ok a := runs_done

@[simp] theorem runs_fail {e : ε} {out : Except ε α} :
    (fail e : Session Req Ans ε α).Runs d out ↔ d = [] ∧ out = .error e := by
  constructor
  · intro h
    cases h
    exact ⟨rfl, rfl⟩
  · rintro ⟨rfl, rfl⟩
    exact .fail e

theorem runs_ask {r : Req} {k : Ans r → Session Req Ans ε α} {out : Except ε α} :
    (ask r k).Runs d out ↔ ∃ x d', (k x).Runs d' out ∧ d = ⟨r, x⟩ :: d' := by
  constructor
  · intro h
    cases h with
    | ask x h => exact ⟨x, _, h, rfl⟩
  · rintro ⟨x, d', h, rfl⟩
    exact .ask x h

theorem runs_request {r : Req} {out : Except ε (Ans r)} :
    (request r : Session Req Ans ε (Ans r)).Runs d out ↔ ∃ x, d = [⟨r, x⟩] ∧ out = .ok x := by
  simp only [request, runs_ask, runs_done]
  constructor
  · rintro ⟨x, d', ⟨rfl, rfl⟩, rfl⟩
    exact ⟨x, rfl, rfl⟩
  · rintro ⟨x, rfl, rfl⟩
    exact ⟨x, [], ⟨rfl, rfl⟩, rfl⟩

@[simp] theorem runs_ofExcept {x out : Except ε α} :
    (ofExcept x : Session Req Ans ε α).Runs d out ↔ d = [] ∧ out = x := by
  cases x with
  | ok a => exact runs_done
  | error e => exact runs_fail

/-- A sequence runs its first part, and goes on from there unless that failed. -/
theorem runs_bind {p : Session Req Ans ε α} {q : α → Session Req Ans ε β} {out : Except ε β} :
    (p >>= q).Runs d out ↔
      (∃ a d₁ d₂, p.Runs d₁ (.ok a) ∧ (q a).Runs d₂ out ∧ d = d₁ ++ d₂) ∨
        ∃ e, p.Runs d (.error e) ∧ out = .error e := by
  change (p.bind q).Runs d out ↔ _
  induction p generalizing d with
  | done a => simp [bind]
  | fail e => simp [bind]
  | ask r k ih =>
    simp only [bind, runs_ask, ih]
    constructor
    · rintro ⟨x, d', ⟨a, d₁, d₂, h₁, h₂, rfl⟩ | ⟨e, h, rfl⟩, rfl⟩
      · exact Or.inl ⟨a, ⟨r, x⟩ :: d₁, d₂, ⟨x, d₁, h₁, rfl⟩, h₂, rfl⟩
      · exact Or.inr ⟨e, ⟨x, d', h, rfl⟩, rfl⟩
    · rintro (⟨a, _, d₂, ⟨x, d₁, h₁, rfl⟩, h₂, rfl⟩ | ⟨e, ⟨x, d', h, rfl⟩, rfl⟩)
      · exact ⟨x, d₁ ++ d₂, Or.inl ⟨a, d₁, d₂, h₁, h₂, rfl⟩, rfl⟩
      · exact ⟨x, d', Or.inr ⟨e, h, rfl⟩, rfl⟩

theorem runs_attempt {p : Session Req Ans ε α} {out : Except ε' (Except ε α)} :
    (p.attempt : Session Req Ans ε' (Except ε α)).Runs d out ↔ ∃ x, p.Runs d x ∧ out = .ok x := by
  induction p generalizing d with
  | done a => simp [attempt]
  | fail e => simp [attempt]
  | ask r k ih =>
    simp only [attempt, runs_ask, ih]
    constructor
    · rintro ⟨x, d', ⟨y, h, rfl⟩, rfl⟩
      exact ⟨y, ⟨x, d', h, rfl⟩, rfl⟩
    · rintro ⟨y, ⟨x, d', h, rfl⟩, rfl⟩
      exact ⟨x, d', ⟨y, h, rfl⟩, rfl⟩

/-- A loop whose rounds never fail: what each round extends holds of the whole loop. -/
theorem runs_foldlM {body : β → ι → Session Req Ans ε β} {I : List ι → β → List (Exchanged Ans) → Prop}
    (hbody : ∀ seen b d i d' out, I seen b d → (body b i).Runs d' out →
      ∃ b', out = .ok b' ∧ I (seen ++ [i]) b' (d ++ d'))
    {l : List ι} {b : β} (hinit : I [] b []) {out : Except ε β} (h : (l.foldlM body b).Runs d out) :
    ∃ b', out = .ok b' ∧ I l b' d := by
  have main (l seen : List ι) : ∀ b d₀ d (out : Except ε β), I seen b d₀ → (l.foldlM body b).Runs d out →
      ∃ b', out = .ok b' ∧ I (seen ++ l) b' (d₀ ++ d) := by
    clear h
    induction l generalizing seen with
    | nil =>
      intro b d₀ d out hI h
      obtain ⟨rfl, rfl⟩ := runs_pure.mp h
      rw [List.append_nil, List.append_nil]
      exact ⟨b, rfl, hI⟩
    | cons i l ih =>
      intro b d₀ d out hI h
      rw [List.foldlM_cons, runs_bind] at h
      rcases h with ⟨a, d₁, d₂, h₁, h₂, rfl⟩ | ⟨e, h, rfl⟩
      · obtain ⟨b', hb', hI'⟩ := hbody seen b d₀ i d₁ _ hI h₁
        cases hb'
        obtain ⟨b'', hout, hI''⟩ := ih (seen ++ [i]) a (d₀ ++ d₁) d₂ out hI' h₂
        rw [List.append_assoc, List.append_assoc] at hI''
        exact ⟨b'', hout, hI''⟩
      · obtain ⟨_, hb', _⟩ := hbody seen b d₀ i d _ hI h
        cases hb'
  exact main l [] b [] d out hinit h

end runs

/-- The run against an environment with a state of its own. -/
def converse (serve : (r : Req) → σ → Ans r × σ) : Session Req Ans ε α → σ →
    List (Exchanged Ans) × Except ε α
  | .done a, _ => ([], .ok a)
  | .fail e, _ => ([], .error e)
  | .ask r k, s =>
    let rest := (k (serve r s).1).converse serve (serve r s).2
    (⟨r, (serve r s).1⟩ :: rest.1, rest.2)

/-- Every environment leads a program to an end. -/
theorem runs_converse (serve : (r : Req) → σ → Ans r × σ) (p : Session Req Ans ε α) (s : σ) :
    p.Runs (p.converse serve s).1 (p.converse serve s).2 := by
  induction p generalizing s with
  | done a => exact .done a
  | fail e => exact .fail e
  | ask r k ih => exact .ask _ (ih _ _)

theorem answered_of_mem_converse {serve : (r : Req) → σ → Ans r × σ} {p : Session Req Ans ε α} {s : σ}
    {x : Exchanged Ans} (h : x ∈ (p.converse serve s).1) : ∃ s', x.2 = (serve x.1 s').1 := by
  induction p generalizing s with
  | done a => cases h
  | fail e => cases h
  | ask r k ih =>
    rcases List.mem_cons.mp h with rfl | h
    · exact ⟨s, rfl⟩
    · exact ih _ h

end Session
end CtvAttribution.Library
