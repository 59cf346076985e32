import CtvAttribution.AgentLoop

/-! What a turn of the agent amounts to: which results it gathers, which probes count as
executed, and the five ways in which a round goes on. -/
namespace CtvAttribution
open Library

/-- What the loop exchanged with the model and the database. -/
abbrev Dialogue (Cell : Type) : Type := List (Exchanged (AgentAnswer Cell))

section dialogue
variable {Cell : Type}

/-- The transcripts the model was called with. -/
def calls (d : Dialogue Cell) : List (List Message) :=
  d.filterMap fun x => match x with
    | ⟨.create messages, _⟩ => some messages
    | ⟨.query _ _, _⟩ => none

/-- The turns it answered with. -/
def responses (d : Dialogue Cell) : List Response :=
  d.filterMap fun x => match x with
    | ⟨.create _, response⟩ => some response
    | ⟨.query _ _, _⟩ => none

variable (py : Pydantic Cell)

/-- The probe a query executed: its rows came, and were read. -/
def successOf (sql : ProbeSql) : Except PyException (QueryResult Cell) → Option String
  | .error _ => none
  | .ok result => sql.probe?.bind fun p => if (p.readRows py result).isOk then some p.name else none

/-- The probes executed, one entry for each time. -/
def successes (d : Dialogue Cell) : List String :=
  d.filterMap fun x => match x with
    | ⟨.create _, _⟩ => none
    | ⟨.query sql _, answer⟩ => successOf py sql answer

@[simp] theorem calls_nil : calls ([] : Dialogue Cell) = [] := rfl
@[simp] theorem responses_nil : responses ([] : Dialogue Cell) = [] := rfl
@[simp] theorem successes_nil : successes py ([] : Dialogue Cell) = [] := rfl

@[simp] theorem calls_create (messages : List Message) (response : Response) (d : Dialogue Cell) :
    calls (⟨.create messages, response⟩ :: d) = messages :: calls d := rfl

@[simp] theorem responses_create (messages : List Message) (response : Response) (d : Dialogue Cell) :
    responses (⟨.create messages, response⟩ :: d) = response :: responses d := rfl

@[simp] theorem successes_create (messages : List Message) (response : Response) (d : Dialogue Cell) :
    successes py (⟨.create messages, response⟩ :: d) = successes py d := rfl

private theorem successes_query (sql : ProbeSql) (parameters : List (String × String))
    (answer : Except PyException (QueryResult Cell)) :
    successes py [⟨.query sql parameters, answer⟩] = (successOf py sql answer).toList := by
  cases h : successOf py sql answer <;> simp [successes, h]

@[simp] theorem calls_append (d e : Dialogue Cell) : calls (d ++ e) = calls d ++ calls e :=
  List.filterMap_append

@[simp] theorem responses_append (d e : Dialogue Cell) : responses (d ++ e) = responses d ++ responses e :=
  List.filterMap_append

@[simp] theorem successes_append (d e : Dialogue Cell) :
    successes py (d ++ e) = successes py d ++ successes py e := List.filterMap_append

end dialogue

def isSubmit (block : ToolUse) : Bool := block.name = submitFinding

/-- The submissions of a turn. -/
def submits (blocks : List ToolUse) : List ToolUse := blocks.filter isSubmit

/-- Its other calls, which get a result each. -/
def otherCalls (blocks : List ToolUse) : List ToolUse := blocks.filter fun b => !isSubmit b

/-- What the tool calls of a turn leave in its variables. -/
structure Turn {Cell : Type} (py : Pydantic Cell) (executed : List String) (blocks : List ToolUse)
    (turn : TurnVars) (d : Dialogue Cell) : Prop where
  results : turn.results.map ToolResult.toolUseId = (otherCalls blocks).map ToolUse.id
  submitBlock : turn.submitBlock = (submits blocks).getLast?
  executed : turn.executed = executed ++ successes py d
  calls : calls d = []
  responses : responses d = []

section turn
variable {Cell : Type} {py : Pydantic Cell} {text : Rendering} {d : Dialogue Cell}

private theorem runs_clientQuery {sql : ProbeSql} {parameters : List (String × String)}
    {out : Except PyException (QueryResult Cell)} (h : (clientQuery sql parameters).Runs d out) :
    d = [⟨.query sql parameters, out⟩] := by
  rcases Session.runs_bind.mp h with ⟨answer, d₁, d₂, h₁, h₂, rfl⟩ | ⟨e, he, _⟩
  · obtain ⟨x, rfl, hx⟩ := Session.runs_request.mp h₁
    obtain ⟨rfl, rfl⟩ := Session.runs_ofExcept.mp h₂
    cases hx
    rfl
  · obtain ⟨_, _, hx⟩ := Session.runs_request.mp he
    cases hx

/-- A probe either raises, executing nothing, or its name is the one success. -/
theorem runs_probes_run {name : String} {params : JsonObject} {out : Except PyException (List ResultRow)}
    (h : (Probes.run py name params).Runs d out) : calls d = [] ∧ responses d = [] ∧
      ((∃ exc, out = .error exc ∧ successes py d = []) ∨ ∃ rows, out = .ok rows ∧ successes py d = [name]) := by
  unfold Probes.run at h
  cases hp : probeNamed name with
  | none =>
    rw [hp] at h
    obtain ⟨rfl, rfl⟩ := Session.runs_fail.mp h
    exact ⟨rfl, rfl, Or.inl ⟨_, rfl, rfl⟩⟩
  | some probe =>
    rw [hp] at h
    obtain ⟨hmem, rfl⟩ := probeNamed_eq_some hp
    rcases Session.runs_bind.mp h with ⟨validated, d₁, d₂, h₁, h₂, rfl⟩ | ⟨e, he, rfl⟩
    · obtain ⟨rfl, _⟩ := Session.runs_ofExcept.mp h₁
      rcases Session.runs_bind.mp h₂ with ⟨result, e₁, e₂, g₁, g₂, rfl⟩ | ⟨e, he, rfl⟩
      · obtain rfl := runs_clientQuery g₁
        obtain ⟨rfl, rfl⟩ := Session.runs_ofExcept.mp g₂
        refine ⟨rfl, rfl, ?_⟩
        rw [List.append_nil, List.nil_append, successes_query, successOf, probe?_sql_of_mem hmem, Option.bind_some]
        cases probe.readRows py result with
        | error exc => exact Or.inl ⟨exc, rfl, rfl⟩
        | ok rows => exact Or.inr ⟨rows, rfl, rfl⟩
      · obtain rfl := runs_clientQuery he
        exact ⟨rfl, rfl, Or.inl ⟨e, rfl, rfl⟩⟩
    · obtain ⟨rfl, _⟩ := Session.runs_ofExcept.mp he
      exact ⟨rfl, rfl, Or.inl ⟨e, rfl, rfl⟩⟩

/-- Both nets of a probe's call give its block a result, and keep the loop going. -/
theorem runs_runProbe {block : ToolUse} {executed : List String}
    {out : Except PyException (ToolResult × List String)}
    (h : (runProbe py text block executed).Runs d out) : calls d = [] ∧ responses d = [] ∧
      ∃ result, out = .ok (result, executed ++ successes py d) ∧ result.toolUseId = block.id := by
  rcases Session.runs_bind.mp h with ⟨caught, d₁, d₂, h₁, h₂, rfl⟩ | ⟨e, he, _⟩
  · obtain ⟨x, hrun, hx⟩ := Session.runs_attempt.mp h₁
    cases hx
    obtain ⟨hcalls, hresp, ⟨exc, rfl, hs⟩ | ⟨rows, rfl, hs⟩⟩ := runs_probes_run hrun
    · obtain ⟨rfl, rfl⟩ := Session.runs_pure.mp h₂
      rw [List.append_nil, hs, List.append_nil]
      exact ⟨hcalls, hresp, _, rfl, rfl⟩
    · obtain ⟨rfl, rfl⟩ := Session.runs_pure.mp h₂
      rw [List.append_nil, hs]
      exact ⟨hcalls, hresp, _, rfl, rfl⟩
  · obtain ⟨_, _, hx⟩ := Session.runs_attempt.mp he
    cases hx

section calls
variable {executed : List String} {seen : List ToolUse} {v : TurnVars} {d' : Dialogue Cell} {block : ToolUse}

theorem Turn.submitted (ht : Turn py executed seen v d) (hsub : isSubmit block = true) :
    Turn py executed (seen ++ [block]) { v with submitBlock := some block } d where
  results := by simp [otherCalls, hsub, ht.results]
  submitBlock := by simp [submits, hsub]
  executed := ht.executed
  calls := ht.calls
  responses := ht.responses

/-- A call other than a submission is answered by one result, whatever it queried. -/
theorem Turn.answered (ht : Turn py executed seen v d) (hsub : isSubmit block = false) {result : ToolResult}
    (hid : result.toolUseId = block.id) (hcalls : CtvAttribution.calls d' = [])
    (hresp : CtvAttribution.responses d' = []) :
    Turn py executed (seen ++ [block])
      { v with results := v.results ++ [result], executed := v.executed ++ successes py d' } (d ++ d') where
  results := by simp [otherCalls, hsub, ht.results, hid]
  submitBlock := by simp [submits, hsub, ht.submitBlock]
  executed := by rw [successes_append, ← List.append_assoc, ht.executed]
  calls := by rw [calls_append, ht.calls, hcalls, List.append_nil]
  responses := by rw [responses_append, ht.responses, hresp, List.append_nil]

/-- One more tool call of a turn. -/
theorem runs_answerBlock {out : Except PyException TurnVars} (ht : Turn py executed seen v d)
    (h : (answerBlock py text v block).Runs d' out) :
    ∃ v', out = .ok v' ∧ Turn py executed (seen ++ [block]) v' (d ++ d') := by
  unfold answerBlock at h
  split at h
  · rename_i hs
    obtain ⟨rfl, rfl⟩ := Session.runs_pure.mp h
    rw [List.append_nil]
    exact ⟨_, rfl, ht.submitted (decide_eq_true hs)⟩
  rename_i hs
  have hsub : isSubmit block = false := decide_eq_false hs
  split at h
  · rcases Session.runs_bind.mp h with ⟨⟨result, executed'⟩, d₁, d₂, h₁, h₂, rfl⟩ | ⟨e, he, rfl⟩
    · obtain ⟨rfl, rfl⟩ := Session.runs_pure.mp h₂
      obtain ⟨hcalls, hresp, result', hout, hid⟩ := runs_runProbe h₁
      cases hout
      rw [List.append_nil]
      exact ⟨_, rfl, ht.answered hsub hid hcalls hresp⟩
    · obtain ⟨_, _, _, hout, _⟩ := runs_runProbe he
      cases hout
  · obtain ⟨rfl, rfl⟩ := Session.runs_pure.mp h
    have hid : (ToolResult.mk block.id ("unknown tool: " ++ block.name) true).toolUseId = block.id := rfl
    have hnext := ht.answered hsub hid calls_nil responses_nil
    rw [successes_nil, List.append_nil] at hnext
    exact ⟨_, rfl, hnext⟩

end calls

/-- All tool calls of a turn. -/
theorem runs_turn {executed : List String} {blocks : List ToolUse} {out : Except PyException TurnVars}
    (h : (blocks.foldlM (answerBlock py text) ⟨[], none, executed⟩).Runs d out) :
    ∃ turn, out = .ok turn ∧ Turn py executed blocks turn d := by
  refine Session.runs_foldlM (I := fun seen v d => Turn py executed seen v d) ?_ ?_ h
  · intro seen v d block d' out ht h
    exact runs_answerBlock ht h
  · exact ⟨rfl, rfl, (List.append_nil _).symm, rfl, rfl⟩

end turn

/-- The ways in which a round over the answer `response` goes on, and what it exchanges then. -/
inductive Round {Cell : Type} (py : Pydantic Cell) (text : Rendering) (ctx : AttributionContext)
    (maxRounds left : Nat) (v : LoopVars) (response : Response) :
    Dialogue Cell → Except PyException AgentRun → Prop where
  | stopped (hnone : toolUses response.content = []) :
      Round py text ctx maxRounds left v response []
        (.ok ⟨escalation ctx.profile "model ended without submitting a finding" v.executed,
          v.usages ++ [response.usage], v.executed⟩)
  | unsubmitted {turn : TurnVars} {d d' : Dialogue Cell} {out : Except PyException AgentRun}
      (ht : Turn py v.executed (toolUses response.content) turn d) (hsubmit : turn.submitBlock = none)
      (hrest : (rounds py text ctx maxRounds left ⟨v.messages ++ [.assistant response.content] ++
        [.results turn.results], v.usages ++ [response.usage], turn.executed, v.rejectedEmptyOnce⟩).Runs d' out) :
      Round py text ctx maxRounds left v response (d ++ d') out
  | rejected {turn : TurnVars} {block : ToolUse} {d d' : Dialogue Cell} {out : Except PyException AgentRun}
      (ht : Turn py v.executed (toolUses response.content) turn d) (hsubmit : turn.submitBlock = some block)
      (hempty : turn.executed = []) (honce : v.rejectedEmptyOnce = false)
      (hrest : (rounds py text ctx maxRounds left ⟨v.messages ++ [.assistant response.content] ++
        [.results (turn.results ++ [rejection block])], v.usages ++ [response.usage], turn.executed, true⟩).Runs d' out) :
      Round py text ctx maxRounds left v response (d ++ d') out
  | rejectedTwice {turn : TurnVars} {block : ToolUse} {d : Dialogue Cell}
      (ht : Turn py v.executed (toolUses response.content) turn d) (hsubmit : turn.submitBlock = some block)
      (hempty : turn.executed = []) :
      Round py text ctx maxRounds left v response d
        (.ok ⟨escalation ctx.profile "finding submitted twice with no confirming probe run" turn.executed,
          v.usages ++ [response.usage], turn.executed⟩)
  | finalized {turn : TurnVars} {block : ToolUse} {d : Dialogue Cell}
      (ht : Turn py v.executed (toolUses response.content) turn d) (hsubmit : turn.submitBlock = some block)
      (hexec : turn.executed ≠ []) :
      Round py text ctx maxRounds left v response d
        (.ok ⟨finalizeFinding py text ctx block turn.executed, v.usages ++ [response.usage], turn.executed⟩)

/-- A round asks the model once, and goes on in one of these ways. -/
theorem runs_rounds_succ {Cell : Type} {py : Pydantic Cell} {text : Rendering} {ctx : AttributionContext}
    {maxRounds left : Nat} {v : LoopVars} {d : Dialogue Cell} {out : Except PyException AgentRun}
    (h : (rounds py text ctx maxRounds (left + 1) v).Runs d out) :
    ∃ response d', d = ⟨.create v.messages, response⟩ :: d' ∧
      Round py text ctx maxRounds left v response d' out := by
  rw [rounds] at h
  rcases Session.runs_bind.mp h with ⟨response, d₁, d', h₁, h₂, rfl⟩ | ⟨e, he, _⟩
  · obtain ⟨_, rfl, hx⟩ := Session.runs_request.mp h₁
    cases hx
    refine ⟨response, d', rfl, ?_⟩
    split at h₂
    · rename_i hnone
      obtain ⟨rfl, rfl⟩ := Session.runs_pure.mp h₂
      exact .stopped hnone
    rcases Session.runs_bind.mp h₂ with ⟨turn, e₁, e₂, g₁, g₂, rfl⟩ | ⟨e, he, _⟩
    · obtain ⟨_, hturn, ht⟩ := runs_turn g₁
      cases hturn
      split at g₂
      · rename_i hsubmit
        exact .unsubmitted ht hsubmit g₂
      rename_i block hsubmit
      split at g₂
      · rename_i hempty
        split at g₂
        · obtain ⟨rfl, rfl⟩ := Session.runs_pure.mp g₂
          rw [List.append_nil]
          exact .rejectedTwice ht hsubmit hempty
        · rename_i honce
          exact .rejected ht hsubmit hempty (by simpa using honce) g₂
      · rename_i hexec
        obtain ⟨rfl, rfl⟩ := Session.runs_pure.mp g₂
        rw [List.append_nil]
        exact .finalized ht hsubmit hexec
    · obtain ⟨_, hturn, _⟩ := runs_turn he
      cases hturn
  · obtain ⟨_, _, hx⟩ := Session.runs_request.mp he
    cases hx

/-- With no round left nothing more is asked; otherwise the transcript is sent at once. -/
theorem calls_of_runs_rounds {Cell : Type} {py : Pydantic Cell} {text : Rendering} {ctx : AttributionContext}
    {maxRounds left : Nat} {v : LoopVars} {d : Dialogue Cell} {out : Except PyException AgentRun}
    (h : (rounds py text ctx maxRounds left v).Runs d out) :
    d = [] ∨ ∃ response sent answered, calls d = v.messages :: sent ∧ responses d = response :: answered := by
  cases left with
  | zero => exact Or.inl (Session.runs_pure.mp h).1
  | succ left =>
    obtain ⟨response, d', rfl, _⟩ := runs_rounds_succ h
    exact Or.inr ⟨response, calls d', responses d', rfl, rfl⟩

/-- What a run of the agent exchanges with its environment. -/
def conversation {Cell σ : Type} (py : Pydantic Cell) (text : Rendering) (ctx : AttributionContext)
    (maxRounds : Nat) (serve : (r : AgentRequest) → σ → AgentAnswer Cell r × σ) (s : σ) : Dialogue Cell :=
  ((runAgent py text ctx maxRounds).converse serve s).1

end CtvAttribution
