import CtvAttribution.AgentTurns

/-! The tool-use protocol of the agent's transcripts: every tool call of an assistant turn
is answered by one result in the message that follows, unless a rejected turn submitted
more than once. -/
namespace CtvAttribution
open Library

/-- One result for every tool call of a turn, and no other. -/
def AnswersAll (content : List ContentBlock) (results : List ToolResult) : Prop :=
  (∀ b ∈ toolUses content, (results.filter (·.toolUseId = b.id)).length = 1) ∧
    ∀ r ∈ results, ∃ b ∈ toolUses content, b.id = r.toolUseId

/-- Every assistant message is followed by the results of its tool calls. -/
def WellFormed (messages : List Message) : Prop :=
  ∀ i content, messages[i]? = some (.assistant content) →
    ∃ results, messages[i + 1]? = some (.results results) ∧ AnswersAll content results

/-- The block ids of a turn are distinct. -/
def DistinctIds (response : Response) : Prop := ((toolUses response.content).map ToolUse.id).Nodup

/-- At most one submission in a turn. -/
def SubmitsOnce (response : Response) : Prop := (submits (toolUses response.content)).length ≤ 1

instance (response : Response) : Decidable (DistinctIds response) := by
  unfold DistinctIds
  exact inferInstance

section answers
variable {content : List ContentBlock} {results : List ToolResult}

private theorem count_toolUseId (id : String) :
    (results.filter (·.toolUseId = id)).length = (results.map ToolResult.toolUseId).count id := by
  rw [List.count, List.countP_map, List.countP_eq_length_filter]
  rfl

/-- With distinct ids the results answer the calls exactly when they pair up. -/
theorem answersAll_iff_perm (hn : ((toolUses content).map ToolUse.id).Nodup) : AnswersAll content results ↔
    (results.map ToolResult.toolUseId).Perm ((toolUses content).map ToolUse.id) := by
  rw [List.perm_iff_count]
  constructor
  · intro ⟨hone, hno⟩ id
    by_cases hid : id ∈ (toolUses content).map ToolUse.id
    · obtain ⟨b, hb, rfl⟩ := List.mem_map.mp hid
      rw [← count_toolUseId, hone b hb, List.count_eq_one_of_mem hn hid]
    · rw [List.count_eq_zero_of_not_mem hid, List.count_eq_zero]
      intro hin
      obtain ⟨r, hr, rfl⟩ := List.mem_map.mp hin
      obtain ⟨b, hb, he⟩ := hno r hr
      exact hid (he ▸ List.mem_map_of_mem hb)
  · intro h
    constructor
    · intro b hb
      rw [count_toolUseId, h, List.count_eq_one_of_mem hn (List.mem_map_of_mem hb)]
    · intro r hr
      have hcount : 0 < ((toolUses content).map ToolUse.id).count r.toolUseId := by
        rw [← h]
        exact List.count_pos_iff.mpr (List.mem_map_of_mem hr)
      obtain ⟨b, hb, he⟩ := List.mem_map.mp (List.count_pos_iff.mp hcount)
      exact ⟨b, hb, he⟩

private theorem submits_append_otherCalls_perm (blocks : List ToolUse) :
    (otherCalls blocks ++ submits blocks).Perm blocks :=
  List.perm_append_comm.trans (List.filter_append_perm isSubmit blocks)

variable {Cell : Type} {py : Pydantic Cell} {executed : List String} {turn : TurnVars} {d : Dialogue Cell}
  (hn : ((toolUses content).map ToolUse.id).Nodup) (ht : Turn py executed (toolUses content) turn d)
include hn ht

/-- A turn that submits nothing is answered as it is. -/
theorem answersAll_of_unsubmitted (hsubmit : turn.submitBlock = none) :
    AnswersAll content turn.results ∧ submits (toolUses content) = [] := by
  have hnone : submits (toolUses content) = [] := List.getLast?_eq_none_iff.mp (ht.submitBlock ▸ hsubmit)
  refine ⟨?_, hnone⟩
  rw [answersAll_iff_perm hn, ht.results]
  have hperm := (submits_append_otherCalls_perm (toolUses content)).map ToolUse.id
  rw [hnone, List.append_nil] at hperm
  exact hperm

/-- A rejected turn is answered in full only if it submitted once: no other submission
than the last gets a result. -/
theorem answersAll_rejection_iff {block : ToolUse} (hsubmit : turn.submitBlock = some block) :
    AnswersAll content (turn.results ++ [rejection block]) ↔ (submits (toolUses content)).length ≤ 1 := by
  have hlast : (submits (toolUses content)).getLast? = some block := ht.submitBlock ▸ hsubmit
  have hblocks := (submits_append_otherCalls_perm (toolUses content)).map ToolUse.id
  rw [List.map_append] at hblocks
  rw [answersAll_iff_perm hn, List.map_append, ht.results]
  constructor
  · intro h
    have hlen := (h.trans hblocks.symm).length_eq
    simp only [List.length_append, List.length_map, List.length_singleton] at hlen
    omega
  · intro hle
    have hone : submits (toolUses content) = [block] := by
      cases hs : submits (toolUses content) with
      | nil =>
        rw [hs] at hlast
        cases hlast
      | cons b rest =>
        have hrest : rest = [] := by
          rw [hs, List.length_cons] at hle
          exact List.length_eq_zero_iff.mp (by omega)
        rw [hs, hrest, List.getLast?_singleton] at hlast
        rw [hrest, Option.some.inj hlast]
    rw [hone] at hblocks
    exact hblocks

end answers

/-- A turn and its results extend a transcript. -/
theorem wellFormed_append {messages : List Message} {content : List ContentBlock} {results : List ToolResult} :
    WellFormed (messages ++ [.assistant content] ++ [.results results]) ↔
      WellFormed messages ∧ AnswersAll content results := by
  rw [List.append_assoc, List.singleton_append]
  constructor
  · intro h
    constructor
    · intro i c hi
      have hlt : i < messages.length := (List.getElem?_eq_some_iff.mp hi).1
      obtain ⟨rs, hrs, hall⟩ := h i c (by rw [List.getElem?_append_left hlt, hi])
      rcases Nat.lt_or_ge (i + 1) messages.length with hlt | hge
      · rw [List.getElem?_append_left hlt] at hrs
        exact ⟨rs, hrs, hall⟩
      · have hend : i + 1 = messages.length := by omega
        rw [List.getElem?_append_right hge, hend, Nat.sub_self] at hrs
        cases hrs
    · obtain ⟨rs, hrs, hall⟩ := h messages.length content (by simp)
      have hone : messages.length + 1 - messages.length = 1 := by omega
      rw [List.getElem?_append_right (by omega), hone] at hrs
      cases hrs
      exact hall
  · intro ⟨hwf, hall⟩ i c hi
    rcases Nat.lt_or_ge i messages.length with hlt | hge
    · rw [List.getElem?_append_left hlt] at hi
      obtain ⟨rs, hrs, hc⟩ := hwf i c hi
      exact ⟨rs, by rw [List.getElem?_append_left (List.getElem?_eq_some_iff.mp hrs).1, hrs], hc⟩
    · rw [List.getElem?_append_right hge] at hi
      have hzero : i - messages.length = 0 := by
        by_contra hne
        obtain ⟨k, hk⟩ := Nat.exists_eq_succ_of_ne_zero hne
        rw [hk] at hi
        cases k <;> cases hi
      rw [hzero] at hi
      cases hi
      refine ⟨results, ?_, hall⟩
      rw [List.getElem?_append_right (by omega), show i + 1 - messages.length = 1 by omega]
      rfl

section rounds
variable {Cell : Type} {py : Pydantic Cell} {text : Rendering} {ctx : AttributionContext}
  {maxRounds left : Nat} {v v' : LoopVars} {d : Dialogue Cell} {out : Except PyException AgentRun}

/-- A round that goes on with a transcript well formed exactly when its turn submitted once. -/
theorem wellFormed_iff_of_goes_on {response : Response} (hwf : WellFormed v.messages)
    (hnext : WellFormed v'.messages ↔ SubmitsOnce response)
    (h : (rounds py text ctx maxRounds left v').Runs d out)
    (ih : WellFormed v'.messages →
      ((∀ messages ∈ calls d, WellFormed messages) ↔ ∀ r ∈ (responses d).dropLast, SubmitsOnce r)) :
    (∀ messages ∈ v.messages :: calls d, WellFormed messages) ↔
      ∀ r ∈ (response :: responses d).dropLast, SubmitsOnce r := by
  rw [List.forall_mem_cons, and_iff_right hwf]
  rcases calls_of_runs_rounds h with rfl | ⟨response', sent, answered, hcalls, hresp⟩
  · simp
  · rw [hresp, List.dropLast_cons_of_ne_nil (List.cons_ne_nil _ _), List.forall_mem_cons, ← hresp]
    by_cases honce : SubmitsOnce response
    · rw [and_iff_right honce]
      exact ih (hnext.mpr honce)
    · refine iff_of_false ?_ fun hall => honce hall.1
      intro hall
      exact honce (hnext.mp (hall v'.messages (hcalls ▸ List.mem_cons_self)))

private theorem rounds_wellFormed_iff (hwf : WellFormed v.messages) (hids : ∀ r ∈ responses d, DistinctIds r)
    (h : (rounds py text ctx maxRounds left v).Runs d out) :
    (∀ messages ∈ calls d, WellFormed messages) ↔ ∀ r ∈ (responses d).dropLast, SubmitsOnce r := by
  induction left generalizing v d with
  | zero =>
    obtain ⟨rfl, _⟩ := Session.runs_pure.mp h
    simp
  | succ left ih =>
    obtain ⟨response, d', rfl, hround⟩ := runs_rounds_succ h
    rw [responses_create] at hids
    have hn : DistinctIds response := hids response List.mem_cons_self
    rw [calls_create, responses_create]
    cases hround with
    | stopped => simpa using hwf
    | unsubmitted ht hsubmit hrest =>
      rw [responses_append, ht.responses, List.nil_append] at hids ⊢
      rw [calls_append, ht.calls, List.nil_append]
      obtain ⟨hall, hnone⟩ := answersAll_of_unsubmitted hn ht hsubmit
      refine wellFormed_iff_of_goes_on hwf ?_ hrest fun hwf' => ih hwf' ?_ hrest
      · refine iff_of_true (wellFormed_append.mpr ⟨hwf, hall⟩) ?_
        rw [SubmitsOnce, hnone]
        exact Nat.zero_le 1
      · intro r hr
        exact hids r (List.mem_cons_of_mem _ hr)
    | rejected ht hsubmit hempty honce hrest =>
      rw [responses_append, ht.responses, List.nil_append] at hids ⊢
      rw [calls_append, ht.calls, List.nil_append]
      refine wellFormed_iff_of_goes_on hwf ?_ hrest fun hwf' => ih hwf' ?_ hrest
      · rw [wellFormed_append, and_iff_right hwf]
        exact answersAll_rejection_iff hn ht hsubmit
      · intro r hr
        exact hids r (List.mem_cons_of_mem _ hr)
    | rejectedTwice ht => simpa [ht.calls, ht.responses] using hwf
    | finalized ht => simpa [ht.calls, ht.responses] using hwf

end rounds

private theorem distinctIds_of_mem_responses {Cell σ : Type} {py : Pydantic Cell} {text : Rendering}
    {ctx : AttributionContext} {maxRounds : Nat} {serve : (r : AgentRequest) → σ → AgentAnswer Cell r × σ}
    {s : σ} (hids : ∀ messages s, DistinctIds (serve (.create messages) s).1) {r : Response}
    (h : r ∈ responses (conversation py text ctx maxRounds serve s)) : DistinctIds r := by
  obtain ⟨⟨request, answer⟩, hx, hr⟩ := List.mem_filterMap.mp h
  obtain ⟨s', hs'⟩ := Session.answered_of_mem_converse hx
  cases request with
  | create messages =>
    cases hr
    have hserved : r = (serve (.create messages) s').1 := hs'
    exact hserved ▸ hids messages s'
  | query sql parameters => cases hr

/-- Whatever the model and the database answer, all transcripts sent are well formed exactly
when no turn that is followed by another call submits twice. -/
theorem transcripts_wellFormed_iff {Cell σ : Type} (py : Pydantic Cell) (text : Rendering)
    (ctx : AttributionContext) (maxRounds : Nat)
    (serve : (r : AgentRequest) → σ → AgentAnswer Cell r × σ) (s : σ)
    (hids : ∀ messages s, DistinctIds (serve (.create messages) s).1) :
    (∀ messages ∈ calls (conversation py text ctx maxRounds serve s), WellFormed messages) ↔
      ∀ response ∈ (responses (conversation py text ctx maxRounds serve s)).dropLast,
        SubmitsOnce response := by
  have hwf : WellFormed [contextMessage ctx] := by
    intro i content hi
    cases i <;> cases hi
  exact rounds_wellFormed_iff hwf (fun r hr => distinctIds_of_mem_responses hids hr)
    (Session.runs_converse serve _ s)

section sample

def samplePydantic : Pydantic String where
  floatOfJson
    | .float x => some x
    | _ => none
  strOfCell := some
  intOfCell := String.toInt?
  floatOfCell _ := none
  isNone cell := cell.isEmpty
  invalidJson model _ := "validation error for " ++ model
  invalidCells model _ := "validation error for " ++ model

def sampleRendering : Rendering where
  reprJson _ := "\x7b...\x7d"
  reprFloat _ := "0.5"

def sampleSubmit (id : String) : ContentBlock := .toolUse ⟨id, submitFinding, []⟩

/-- A model that submits twice in every turn. -/
def submitsTwice : (r : AgentRequest) → Unit → AgentAnswer String r × Unit
  | .create _, s => (⟨[sampleSubmit "a", sampleSubmit "b"], []⟩, s)
  | .query _ _, s => (.ok ⟨[], []⟩, s)

/-- The second call carries a result for "b" only. -/
theorem rejected_turn_answered_in_part :
    ¬ ∀ (Cell σ : Type) (py : Pydantic Cell) (text : Rendering) (ctx : AttributionContext) (maxRounds : Nat)
      (serve : (r : AgentRequest) → σ → AgentAnswer Cell r × σ) (s : σ),
      (∀ messages s, DistinctIds (serve (.create messages) s).1) →
      ∀ messages ∈ calls (conversation py text ctx maxRounds serve s), WellFormed messages := by
  intro h
  have hcalls : calls (conversation samplePydantic sampleRendering ⟨"tiny", ""⟩ 2 submitsTwice ()) =
      [[contextMessage ⟨"tiny", ""⟩], [contextMessage ⟨"tiny", ""⟩,
        .assistant [sampleSubmit "a", sampleSubmit "b"], .results [rejection ⟨"b", submitFinding, []⟩]]] := rfl
  have hwf := h String Unit samplePydantic sampleRendering ⟨"tiny", ""⟩ 2 submitsTwice ()
    (fun _ _ => by change DistinctIds ⟨[sampleSubmit "a", sampleSubmit "b"], []⟩; decide)
  rw [hcalls] at hwf
  obtain ⟨results, hres, hone, _⟩ := hwf _ (List.mem_cons_of_mem _ (List.mem_singleton_self _)) 1 _ rfl
  cases hres
  have hnot := hone ⟨"a", submitFinding, []⟩ List.mem_cons_self
  revert hnot
  decide

theorem transcripts_wellFormed_iff_sample :
    (∀ messages ∈ calls (conversation samplePydantic sampleRendering ⟨"tiny", ""⟩ 2 submitsTwice ()),
      WellFormed messages) ↔
      ∀ response ∈ (responses (conversation samplePydantic sampleRendering ⟨"tiny", ""⟩ 2 submitsTwice ())).dropLast,
        SubmitsOnce response :=
  transcripts_wellFormed_iff samplePydantic sampleRendering ⟨"tiny", ""⟩ 2 submitsTwice ()
    fun _ _ => by change DistinctIds ⟨[sampleSubmit "a", sampleSubmit "b"], []⟩; decide

end sample
end CtvAttribution
