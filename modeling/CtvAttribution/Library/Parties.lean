import CtvAttribution.Library.Session

/-! Sessions over a shared store that serves every request atomically: several of them
interleaved, any of which may stop for good, and one of them attempted again and again. -/
namespace CtvAttribution.Library
variable {Req : Type} {Ans : Req → Type} {ε α σ : Type}

/-- The next thing to happen: a session's request is served, or it stops. -/
inductive Move where
  | go (i : Nat)
  | stop (i : Nat)

section moves
variable (serve : (r : Req) → σ → Ans r × σ)

def move : Move → List (Session Req Ans ε α) × σ → List (Session Req Ans ε α) × σ
  | .go i, (running, s) =>
    match running[i]? with
    | some (.ask r k) => (running.set i (k (serve r s).1), (serve r s).2)
    | _ => (running, s)
  | .stop i, (running, s) => (running.eraseIdx i, s)

def moves (ms : List Move) (c : List (Session Req Ans ε α) × σ) : List (Session Req Ans ε α) × σ :=
  ms.foldl (fun c m => move serve m c) c

/-- The request a move serves, beside the sessions that are running still. -/
def serves : Move → List (Session Req Ans ε α) × σ → Option (List (Session Req Ans ε α) × Req)
  | .go i, (running, _) => (running[i]?.bind Session.next?).map fun r => (running.eraseIdx i, r)
  | .stop _, _ => none

/-- A party that goes on does nothing, or has the request it waits on served. -/
theorem move_go (running : List (Session Req Ans ε α)) (s : σ) (i : Nat) :
    move serve (.go i) (running, s) = (running, s) ∨ ∃ r k, running[i]? = some (.ask r k) ∧
      serves (.go i) (running, s) = some (running.eraseIdx i, r) ∧
      move serve (.go i) (running, s) = (running.set i (k (serve r s).1), (serve r s).2) := by
  cases hget : running[i]? with
  | none => exact Or.inl (by simp [move, hget])
  | some p =>
    cases p with
    | done a => exact Or.inl (by simp [move, hget])
    | fail e => exact Or.inl (by simp [move, hget])
    | ask r k => exact Or.inr ⟨r, k, rfl, by simp [serves, hget, Session.next?], by simp [move, hget]⟩

/-- Every request is served in a state that allows it beside the others. -/
def Guarded (allowed : List (Session Req Ans ε α) → σ → Req → Prop) :
    List Move → List (Session Req Ans ε α) × σ → Prop
  | [], _ => True
  | m :: ms, c => (∀ x ∈ serves m c, allowed x.1 c.2 x.2) ∧ Guarded allowed ms (move serve m c)

instance decidableGuarded {allowed : List (Session Req Ans ε α) → σ → Req → Prop}
    [∀ others s r, Decidable (allowed others s r)] (ms : List Move) (c : List (Session Req Ans ε α) × σ) :
    Decidable (Guarded serve allowed ms c) :=
  match ms with
  | [] => inferInstanceAs (Decidable True)
  | m :: ms =>
    @instDecidableAnd _ _ (Option.decidableForallMem (p := fun x => allowed x.1 c.2 x.2) (serves m c))
      (decidableGuarded ms (move serve m c))

theorem eq_or_mem_eraseIdx_of_mem_set {p q : Session Req Ans ε α} {running : List (Session Req Ans ε α)} {i : Nat}
    (h : q ∈ running.set i p) : q = p ∨ q ∈ running.eraseIdx i := by
  induction running generalizing i with
  | nil => cases h
  | cons a running ih =>
    cases i with
    | zero => exact List.mem_cons.mp h
    | succ i =>
      rcases List.mem_cons.mp h with rfl | h
      · exact Or.inr List.mem_cons_self
      · exact (ih h).imp_right (List.mem_cons_of_mem a)

/-- What holds of the store and of each session beside it, kept by every allowed request. -/
structure PartiesInvariant (allowed : List (Session Req Ans ε α) → σ → Req → Prop) (I : σ → Prop)
    (T : σ → Session Req Ans ε α → Prop) : Prop where
  store : ∀ s r k others, I s → T s (.ask r k) → allowed others s r → I (serve r s).2
  next : ∀ s r k others, I s → T s (.ask r k) → allowed others s r → T (serve r s).2 (k (serve r s).1)
  other : ∀ s r k others q, I s → T s (.ask r k) → allowed others s r → q ∈ others → T s q → T (serve r s).2 q

variable {serve}

theorem PartiesInvariant.of_move {allowed : List (Session Req Ans ε α) → σ → Req → Prop} {I : σ → Prop}
    {T : σ → Session Req Ans ε α → Prop} (hI : PartiesInvariant serve allowed I T) {m : Move}
    {c : List (Session Req Ans ε α) × σ} (hstore : I c.2) (hrunning : ∀ p ∈ c.1, T c.2 p)
    (hallowed : ∀ x ∈ serves m c, allowed x.1 c.2 x.2) :
    I (move serve m c).2 ∧ ∀ p ∈ (move serve m c).1, T (move serve m c).2 p := by
  obtain ⟨running, s⟩ := c
  cases m with
  | stop i => exact ⟨hstore, fun p hp => hrunning p (List.mem_of_mem_eraseIdx hp)⟩
  | go i =>
    obtain hsame | ⟨r, k, hget, hserves, hmove⟩ := move_go serve running s i
    · rw [hsame]
      exact ⟨hstore, hrunning⟩
    · have hp : T s (.ask r k) := hrunning _ (List.mem_of_getElem? hget)
      have hr : allowed (running.eraseIdx i) s r := hallowed (running.eraseIdx i, r) hserves
      rw [hmove]
      refine ⟨hI.store s r k _ hstore hp hr, fun q hq => ?_⟩
      rcases eq_or_mem_eraseIdx_of_mem_set hq with rfl | hq
      · exact hI.next s r k _ hstore hp hr
      · exact hI.other s r k _ q hstore hp hr hq (hrunning q (List.mem_of_mem_eraseIdx hq))

/-- An invariant of the parties holds after any guarded moves. -/
theorem PartiesInvariant.of_moves {allowed : List (Session Req Ans ε α) → σ → Req → Prop} {I : σ → Prop}
    {T : σ → Session Req Ans ε α → Prop} (hI : PartiesInvariant serve allowed I T) {ms : List Move}
    {c : List (Session Req Ans ε α) × σ} (hstore : I c.2) (hrunning : ∀ p ∈ c.1, T c.2 p)
    (hg : Guarded serve allowed ms c) : I (moves serve ms c).2 := by
  induction ms generalizing c with
  | nil => exact hstore
  | cons m ms ih =>
    obtain ⟨hstore', hrunning'⟩ := hI.of_move hstore hrunning hg.1
    exact ih hstore' hrunning' hg.2

end moves

/-- What a session may have come to when it is stopped, the store settling on its own at
any time: the requests it made, and what is left of it. -/
inductive Reaches (serve : (r : Req) → σ → Ans r × σ) (settles : σ → σ → Prop) (p : Session Req Ans ε α)
    (s : σ) : List Req → Session Req Ans ε α → σ → Prop where
  | start : Reaches serve settles p s [] p s
  | ask {made : List Req} {r : Req} {k : Ans r → Session Req Ans ε α} {t : σ} :
      Reaches serve settles p s made (.ask r k) t →
      Reaches serve settles p s (made ++ [r]) (k (serve r t).1) (serve r t).2
  | settle {made : List Req} {q : Session Req Ans ε α} {t t' : σ} :
      Reaches serve settles p s made q t → settles t t' → Reaches serve settles p s made q t'

/-- Attempts at one session, each stopped somewhere before the next one starts over. -/
inductive Restarts (serve : (r : Req) → σ → Ans r × σ) (settles : σ → σ → Prop) (p : Session Req Ans ε α)
    (init : σ) : List (Session Req Ans ε α) → σ → Prop where
  | none : Restarts serve settles p init [] init
  | next {earlier : List (Session Req Ans ε α)} {s t : σ} {made : List Req} {q : Session Req Ans ε α} :
      Restarts serve settles p init earlier s → Reaches serve settles p s made q t →
      Restarts serve settles p init (earlier ++ [q]) t

/-- A session served alone, and stopped after `n` requests. -/
def served (serve : (r : Req) → σ → Ans r × σ) :
    Nat → Session Req Ans ε α → σ → List Req × Session Req Ans ε α × σ
  | n + 1, .ask r k, s =>
    let rest := served serve n (k (serve r s).1) (serve r s).2
    (r :: rest.1, rest.2)
  | _, p, s => ([], p, s)

section reaches
variable {serve : (r : Req) → σ → Ans r × σ} {settles : σ → σ → Prop}

theorem Reaches.trans {p q u : Session Req Ans ε α} {s t w : σ} {made made' : List Req}
    (h : Reaches serve settles p s made q t) (h' : Reaches serve settles q t made' u w) :
    Reaches serve settles p s (made ++ made') u w := by
  induction h' with
  | start => rwa [List.append_nil]
  | ask _ ih =>
    rw [← List.append_assoc]
    exact ih.ask
  | settle _ hs ih => exact ih.settle hs

theorem reaches_served (n : Nat) (p : Session Req Ans ε α) (s : σ) :
    Reaches serve settles p s (served serve n p s).1 (served serve n p s).2.1 (served serve n p s).2.2 := by
  induction n generalizing p s with
  | zero => exact .start
  | succ n ih =>
    cases p with
    | done a => exact .start
    | fail e => exact .start
    | ask r k => exact (Reaches.start.ask).trans (ih _ _)

end reaches
end CtvAttribution.Library
