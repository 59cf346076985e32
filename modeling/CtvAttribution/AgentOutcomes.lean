import CtvAttribution.AgentTurns

/-! How a run of the agent ends: within its budget, without raising, and with a confident
finding only on the evidence of an executed probe. -/
namespace CtvAttribution
open Library

/-- What the finding of a run over the dialogue `d` is. -/
inductive Conclusion {Cell : Type} (py : Pydantic Cell) (text : Rendering) (ctx : AttributionContext)
    (d : Dialogue Cell) (executed : List String) (finding : AttributionFinding) : Prop where
  | finalized {response : Response} {block : ToolUse} (hlast : (responses d).getLast? = some response)
      (hsubmit : (submits (toolUses response.content)).getLast? = some block) (hexec : executed ≠ [])
      (hfinding : finding = finalizeFinding py text ctx block executed)
  | escalated (hverdict : finding.verdict = .ambiguousNeedsHuman)
      (hother : (∀ response, (responses d).getLast? = some response →
        submits (toolUses response.content) = []) ∨ executed = [])

section rounds
variable {Cell : Type} {py : Pydantic Cell} {text : Rendering} {ctx : AttributionContext}
  {maxRounds left : Nat} {v v' : LoopVars} {d : Dialogue Cell} {out : Except PyException AgentRun}

/-- What the rounds that are left may conclude over what was exchanged before them. -/
theorem Conclusion.of_goes_on {messages : List Message} {response : Response} {dt : Dialogue Cell}
    {executed : List String} {finding : AttributionFinding} (hdt : responses dt = [])
    (hrest : (rounds py text ctx maxRounds left v').Runs d out) (h : Conclusion py text ctx d executed finding)
    (hend : d = [] → submits (toolUses response.content) = [] ∨ executed = []) :
    Conclusion py text ctx (⟨.create messages, response⟩ :: (dt ++ d)) executed finding := by
  have hresp : responses (⟨.create messages, response⟩ :: (dt ++ d)) = response :: responses d := by
    rw [responses_create, responses_append, hdt, List.nil_append]
  rcases calls_of_runs_rounds hrest with rfl | ⟨first, _, answered, _, hd⟩
  · cases h with
    | finalized hlast => cases hlast
    | escalated hverdict =>
      refine .escalated hverdict ?_
      rw [hresp, responses_nil]
      rcases hend rfl with hs | he
      · refine Or.inl fun r hr => ?_
        cases hr
        exact hs
      · exact Or.inr he
  · have hlast : (responses (⟨.create messages, response⟩ :: (dt ++ d))).getLast? = (responses d).getLast? := by
      rw [hresp, hd, List.getLast?_cons_cons]
    cases h with
    | finalized hl hsubmit hexec hfinding => exact .finalized (hlast.trans hl) hsubmit hexec hfinding
    | escalated hverdict hother => exact .escalated hverdict (hlast ▸ hother)

/-- The rounds return within their number, the probes they executed added to those before. -/
theorem rounds_concludes (h : (rounds py text ctx maxRounds left v).Runs d out) :
    ∃ run, out = .ok run ∧ (calls d).length ≤ left ∧ run.probesRun = v.executed ++ successes py d ∧
      Conclusion py text ctx d run.probesRun run.finding := by
  induction left generalizing v d with
  | zero =>
    obtain ⟨rfl, rfl⟩ := Session.runs_pure.mp h
    exact ⟨_, rfl, Nat.le_refl 0, (List.append_nil _).symm, .escalated rfl (Or.inl nofun)⟩
  | succ left ih =>
    obtain ⟨response, d', rfl, hround⟩ := runs_rounds_succ h
    rw [calls_create, successes_create]
    cases hround with
    | stopped hnone =>
      refine ⟨_, rfl, Nat.succ_le_succ (Nat.zero_le left), (List.append_nil _).symm, .escalated rfl (Or.inl ?_)⟩
      intro r hr
      have hresp : response = r := Option.some.inj hr
      rw [← hresp, hnone]
      rfl
    | unsubmitted ht hsubmit hrest =>
      obtain ⟨run, rfl, hlen, hprobes, hc⟩ := ih hrest
      refine ⟨run, rfl, ?_, ?_, hc.of_goes_on ht.responses hrest fun _ => Or.inl ?_⟩
      · rw [calls_append, ht.calls]
        exact Nat.succ_le_succ hlen
      · rw [hprobes, ht.executed, successes_append, List.append_assoc]
      · exact List.getLast?_eq_none_iff.mp (ht.submitBlock ▸ hsubmit)
    | rejected ht hsubmit hempty honce hrest =>
      obtain ⟨run, rfl, hlen, hprobes, hc⟩ := ih hrest
      refine ⟨run, rfl, ?_, ?_, hc.of_goes_on ht.responses hrest fun hd => Or.inr ?_⟩
      · rw [calls_append, ht.calls]
        exact Nat.succ_le_succ hlen
      · rw [hprobes, ht.executed, successes_append, List.append_assoc]
      · rw [hprobes, hempty, hd]
        rfl
    | rejectedTwice ht hsubmit hempty =>
      refine ⟨_, rfl, ?_, ht.executed, .escalated rfl (Or.inr hempty)⟩
      rw [ht.calls]
      exact Nat.succ_le_succ (Nat.zero_le left)
    | finalized ht hsubmit hexec =>
      refine ⟨_, rfl, ?_, ht.executed, .finalized ?_ (ht.submitBlock ▸ hsubmit) hexec rfl⟩
      · rw [ht.calls]
        exact Nat.succ_le_succ (Nat.zero_le left)
      · rw [responses_create, ht.responses]
        rfl

end rounds

/-- The last turn's last submission validates, after a probe was executed. -/
structure Accepts {Cell : Type} (py : Pydantic Cell) (d : Dialogue Cell) (payload : AttributionFinding) : Prop where
  submitted : ∃ response block, (responses d).getLast? = some response ∧
    (submits (toolUses response.content)).getLast? = some block ∧
    AttributionFinding.modelValidate py block.input = some payload
  evidence : successes py d ≠ []

/-- A conclusion is the accepted payload, with the probes that were executed, or leaves the
decision to a human. -/
theorem Conclusion.finding_eq {Cell : Type} {py : Pydantic Cell} {text : Rendering} {ctx : AttributionContext}
    {d : Dialogue Cell} {finding : AttributionFinding}
    (h : Conclusion py text ctx d (successes py d) finding) :
    (∀ payload, Accepts py d payload → finding = { payload with probesRun := firstSeen (successes py d) }) ∧
      ((¬ ∃ payload, Accepts py d payload) → finding.verdict = .ambiguousNeedsHuman) := by
  cases h with
  | finalized hlast hsubmit hexec hfinding =>
    rename_i response block
    subst hfinding
    unfold finalizeFinding
    constructor
    · intro payload ⟨⟨response', block', hlast', hsubmit', hvalid⟩, _⟩
      cases hlast.symm.trans hlast'
      cases hsubmit.symm.trans hsubmit'
      rw [hvalid]
    · intro hno
      cases hvalid : AttributionFinding.modelValidate py block.input with
      | none => rfl
      | some payload => exact absurd ⟨payload, ⟨_, _, hlast, hsubmit, hvalid⟩, hexec⟩ hno
  | escalated hverdict hother =>
    refine ⟨fun payload ⟨⟨response, block, hlast, hsubmit, _⟩, hevidence⟩ => ?_, fun _ => hverdict⟩
    rcases hother with hnone | hempty
    · rw [hnone response hlast] at hsubmit
      cases hsubmit
    · exact absurd hempty hevidence

/-- Against any model and any database the agent returns within its budget of calls, without
raising. A confident finding is the submitted payload that validated, after some probe, and
names the probes executed in order; without one the verdict is left to a human. -/
theorem run_agent_concludes {Cell σ : Type} (py : Pydantic Cell) (text : Rendering)
    (ctx : AttributionContext) (maxRounds : Nat)
    (serve : (r : AgentRequest) → σ → AgentAnswer Cell r × σ) (s : σ) :
    ∃ run, ((runAgent py text ctx maxRounds).converse serve s).2 = .ok run ∧
      (calls (conversation py text ctx maxRounds serve s)).length ≤ maxRounds ∧
      run.probesRun = successes py (conversation py text ctx maxRounds serve s) ∧
      (run.finding.verdict = .confident →
        run.probesRun ≠ [] ∧ run.finding.probesRun = firstSeen run.probesRun ∧
          ∃ payload, Accepts py (conversation py text ctx maxRounds serve s) payload ∧
            run.finding = { payload with probesRun := firstSeen run.probesRun }) ∧
      ((¬ ∃ payload, Accepts py (conversation py text ctx maxRounds serve s) payload) →
        run.finding.verdict = .ambiguousNeedsHuman) := by
  obtain ⟨run, hrun, hlen, hprobes, hc⟩ := rounds_concludes
    (Session.runs_converse serve (runAgent py text ctx maxRounds) s)
  rw [List.nil_append] at hprobes
  rw [hprobes] at hc
  obtain ⟨haccept, hescape⟩ := hc.finding_eq
  refine ⟨run, hrun, hlen, hprobes, ?_, hescape⟩
  intro hconfident
  by_cases hex : ∃ payload, Accepts py (conversation py text ctx maxRounds serve s) payload
  · obtain ⟨payload, ha⟩ := hex
    have hfinding := haccept payload ha
    rw [hprobes]
    refine ⟨ha.evidence, ?_, payload, ha, hfinding⟩
    rw [hfinding]
  · rw [hescape hex] at hconfident
    cases hconfident

end CtvAttribution
