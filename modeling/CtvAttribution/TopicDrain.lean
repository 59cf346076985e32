import CtvAttribution.DeviceGraph
import CtvAttribution.Library.Fallible
import CtvAttribution.Library.PollLoop

/-! The batch drain of a topic. It ends when every partition of the metadata answer has
signalled the end of its log; an answer without partitions ends it before the first poll. -/
namespace CtvAttribution.Kafka
open Library

/-- `KafkaError._PARTITION_EOF`. -/
def partitionEof : Int := -191

/-- `_EMPTY_POLL_LIMIT`. -/
def emptyPollLimit : Nat := 50

/-- `text` is what `str` makes of it. -/
structure KafkaError where
  code : Int
  text : String
  deriving DecidableEq, Repr

/-- What a poll hands over. The value of a compacted topic's tombstone is absent. -/
structure Message where
  partition : Int
  value : Option (List UInt8)
  error : Option KafkaError
  deriving DecidableEq, Repr

/-- One entry of `list_topics(topic).topics`; the partitions are the keys of a dictionary. -/
structure TopicMetadata where
  error : Option KafkaError
  partitions : List Int
  nodup : partitions.Nodup

inductive DrainError where
  | keyError (key : String)
  | runtimeError (text : String)
  deriving DecidableEq, Repr

structure DrainState where
  pending : List Int
  messages : List Message
  empty : Nat
  deriving DecidableEq, Repr

def consumeError (topic : String) (err : KafkaError) : DrainError :=
  .runtimeError ("consume error on " ++ topic ++ ": " ++ err.text)

def stalledError (topic : String) (pending : List Int) : DrainError :=
  .runtimeError ("drain of " ++ topic ++ " stalled: " ++ toString pending.length ++
    " partition(s) never reached end-of-log within " ++ toString emptyPollLimit ++ " empty polls")

/-- The poll loop of `drain_messages`. -/
def drainLoop (topic : String) : PollLoop DrainState (Option Message) DrainError where
  running s := s.pending ≠ [] ∧ s.empty < emptyPollLimit
  step s
    | none => .ok { s with empty := s.empty + 1 }
    | some msg =>
      match msg.error with
      | some err =>
        if err.code = partitionEof then
          .ok { s with empty := 0, pending := s.pending.filter (· ≠ msg.partition) }
        else .error (consumeError topic err)
      | none => .ok { s with empty := 0, messages := s.messages ++ [msg] }

/-- What follows the loop: the stall check. -/
def drained (topic : String) (s : DrainState) : Except DrainError (List Message) :=
  if s.pending ≠ [] then .error (stalledError topic s.pending) else .ok s.messages

/-- `drain_messages`, over the metadata answer and the answers of the polls to come; `none`
while the loop still runs. -/
def drainMessages (topics : OrderedDict String TopicMetadata) (topic : String)
    (polls : Nat → Option Message) (fuel : Nat) : Option (Except DrainError (List Message)) :=
  match topics.get? topic with
  | none => some (.error (.keyError topic))
  | some info =>
    ((drainLoop topic).run polls fuel 0 ⟨info.partitions, [], 0⟩).map (· >>= drained topic)

/-- `drain`: the message values. -/
def drain (topics : OrderedDict String TopicMetadata) (topic : String)
    (polls : Nat → Option Message) (fuel : Nat) : Option (Except DrainError (List (Option (List UInt8)))) :=
  (drainMessages topics topic polls fuel).map (·.map (·.map Message.value))

/-- `load_graph_index`, over the decoder of a household. -/
def loadGraphIndex (modelValidateJson : Option (List UInt8) → Except DrainError Household)
    (topics : OrderedDict String TopicMetadata) (polls : Nat → Option Message) (fuel : Nat) :
    Option (Except DrainError GraphIndex) :=
  (drain topics "device_graph" polls fuel).map fun values => do
    return GraphIndex.fromHouseholds (← (← values).mapM modelValidateJson)

/-- Of a topic the broker does not know it makes an index of no household. -/
example : loadGraphIndex (fun _ => .error (.keyError "household_id"))
    (OrderedDict.empty.alter "device_graph" fun _ =>
      ⟨some ⟨3, "Broker: Unknown topic or partition"⟩, [], List.nodup_nil⟩) (fun _ => none) 1 =
    some (.ok (GraphIndex.fromHouseholds [])) := rfl

/-- An end-of-partition signal of partition `p`. -/
def Message.Ends (m : Message) (p : Int) : Prop :=
  m.partition = p ∧ ∃ err, m.error = some err ∧ err.code = partitionEof

/-- Any other error event. -/
def Message.Fails (m : Message) : Prop := ∃ err, m.error = some err ∧ err.code ≠ partitionEof

section events
variable (parts : List Int) (polls : Nat → Option Message)

/-- The non-error messages of the first `n` polls, in poll order. -/
def delivered (n : Nat) : List Message :=
  ((List.range n).filterMap polls).filter fun m => m.error.isNone

def SignalledBefore (n : Nat) (p : Int) : Prop := ∃ k < n, ∃ m, polls k = some m ∧ m.Ends p

def AllSignalled (n : Nat) : Prop := ∀ p ∈ parts, SignalledBefore polls n p

/-- The first poll count by which every partition has signalled. -/
def EndPoint (n : Nat) : Prop := AllSignalled parts polls n ∧ ∀ k < n, ¬ AllSignalled parts polls k

/-- How many polls before the `n`-th found nothing, back to the last that found something. -/
def emptyRun : Nat → Nat
  | 0 => 0
  | n + 1 => if (polls n).isNone then emptyRun n + 1 else 0

/-- From some poll on, no message is delivered. -/
def MessagesEnd : Prop := ∃ n, ∀ k ≥ n, ∀ m, polls k = some m → m.error ≠ none

/-- Signals come in for ever, never failing and never pausing for long, but not from every
partition, after the last message. -/
structure EndlessSignals : Prop where
  messagesEnd : MessagesEnd polls
  unsignalled : ∃ p ∈ parts, ∀ n, ¬ SignalledBefore polls n p
  noFailure : ∀ k m, polls k = some m → ¬ m.Fails
  noStall : ∀ k, ∃ j < emptyPollLimit, polls (k + j) ≠ none

end events

section loop
variable {topic : String} {parts : List Int} {polls : Nat → Option Message} {n k : Nat}
  {s s' : DrainState}

private theorem delivered_succ (n : Nat) : delivered polls (n + 1) =
    delivered polls n ++ (polls n).toList.filter fun m => m.error.isNone := by
  unfold delivered
  rw [List.range_succ, List.filterMap_append, List.filter_append]
  cases h : polls n <;> simp [h]

private theorem signalledBefore_succ {p : Int} : SignalledBefore polls (n + 1) p ↔
    SignalledBefore polls n p ∨ ∃ m, polls n = some m ∧ m.Ends p := by
  simp only [SignalledBefore, Nat.lt_succ_iff_lt_or_eq, or_and_right, exists_or, exists_eq_left]

theorem SignalledBefore.mono {p : Int} (h : SignalledBefore polls k p) (hle : k ≤ n) :
    SignalledBefore polls n p := by
  obtain ⟨j, hj, hm⟩ := h
  exact ⟨j, by omega, hm⟩

/-- A partition that never signals, when at no point all have. -/
theorem exists_unsignalled (h : ∀ n, ¬ AllSignalled parts polls n) :
    ∃ p ∈ parts, ∀ n, ¬ SignalledBefore polls n p := by
  by_contra hall
  push Not at hall
  have hend : ∃ n, AllSignalled parts polls n := by
    clear h
    induction parts with
    | nil => exact ⟨0, by simp [AllSignalled]⟩
    | cons p parts ih =>
      obtain ⟨a, ha⟩ := hall p List.mem_cons_self
      obtain ⟨b, hb⟩ := ih fun q hq => hall q (List.mem_cons_of_mem p hq)
      refine ⟨max a b, fun q hq => ?_⟩
      rcases List.mem_cons.mp hq with rfl | hq
      · exact ha.mono (Nat.le_max_left a b)
      · exact (hb q hq).mono (Nat.le_max_right a b)
  obtain ⟨n, hn⟩ := hend
  exact h n hn

/-- What the loop knows after `n` polls. -/
structure DrainedTo (parts : List Int) (polls : Nat → Option Message) (n : Nat) (s : DrainState) : Prop where
  pending : ∀ p, p ∈ s.pending ↔ p ∈ parts ∧ ¬ SignalledBefore polls n p
  messages : s.messages = delivered polls n
  empty : s.empty = emptyRun polls n
  noFailure : ∀ k < n, ∀ m, polls k = some m → ¬ m.Fails

private theorem DrainedTo.pending_eq_nil (h : DrainedTo parts polls n s) :
    s.pending = [] ↔ AllSignalled parts polls n := by
  rw [List.eq_nil_iff_forall_not_mem]
  simp only [h.pending, not_and, not_not, AllSignalled]

private theorem drainedTo_start : DrainedTo parts polls 0 ⟨parts, [], 0⟩ where
  pending p := by simp [SignalledBefore]
  messages := rfl
  empty := rfl
  noFailure k hk := absurd hk (Nat.not_lt_zero k)

/-- One poll of the loop. -/
theorem DrainedTo.step (h : DrainedTo parts polls n s) (hs : (drainLoop topic).step s (polls n) = .ok s') :
    DrainedTo parts polls (n + 1) s' := by
  have hfail : (∀ m, polls n = some m → ¬ m.Fails) →
      ∀ k < n + 1, ∀ m, polls k = some m → ¬ m.Fails := by
    intro hn k hk
    rcases Nat.lt_succ_iff_lt_or_eq.mp hk with hk | rfl
    · exact h.noFailure k hk
    · exact hn
  cases hp : polls n with
  | none =>
    rw [hp] at hs
    obtain rfl := Except.ok.inj hs
    exact
      { pending := fun p => by simp [signalledBefore_succ, hp, h.pending]
        messages := by simp [delivered_succ, hp, h.messages]
        empty := by simp [emptyRun, hp, h.empty]
        noFailure := hfail (by simp [hp]) }
  | some msg =>
    rw [hp] at hs
    cases he : msg.error with
    | none =>
      simp only [drainLoop, he] at hs
      obtain rfl := Except.ok.inj hs
      exact
        { pending := fun p => by simp [signalledBefore_succ, hp, h.pending, Message.Ends, he]
          messages := by simp [delivered_succ, hp, h.messages, he]
          empty := by simp [emptyRun, hp]
          noFailure := hfail (by simp [hp, Message.Fails, he]) }
    | some err =>
      simp only [drainLoop, he] at hs
      split at hs
      · next hcode =>
        obtain rfl := Except.ok.inj hs
        exact
          { pending := fun p => by
              simp only [signalledBefore_succ, hp, h.pending, Message.Ends, he, hcode, List.mem_filter,
                decide_eq_true_eq, Option.some.injEq, exists_eq_left', and_true, not_or, ne_eq]
              rw [and_assoc, eq_comm (a := p)]
            messages := by simp [delivered_succ, hp, h.messages, he]
            empty := by simp [emptyRun, hp]
            noFailure := hfail (by simp [hp, Message.Fails, he, hcode]) }
      · cases hs

private theorem drainedTo_of_reaches (h : (drainLoop topic).Reaches polls ⟨parts, [], 0⟩ n s) :
    DrainedTo parts polls n s :=
  h.invariant drainedTo_start fun _ _ _ hi _ hstep => hi.step hstep

/-- The counter looks back over polls that found nothing. -/
theorem emptyRun_spec (n : Nat) :
    emptyRun polls n ≤ n ∧ ∀ k, n - emptyRun polls n ≤ k → k < n → polls k = none := by
  induction n with
  | zero => exact ⟨Nat.le_refl 0, fun k _ hk => absurd hk (Nat.not_lt_zero k)⟩
  | succ n ih =>
    unfold emptyRun
    split
    · next hnone =>
      refine ⟨Nat.succ_le_succ ih.1, fun k hlo hhi => ?_⟩
      rcases Nat.lt_succ_iff_lt_or_eq.mp hhi with hlt | rfl
      · exact ih.2 k (by omega) hlt
      · exact Option.isNone_iff_eq_none.mp hnone
    · exact ⟨Nat.zero_le _, fun k hlo hhi => by omega⟩

private theorem le_emptyRun {d : Nat} (h : ∀ j < d, polls (k + j) = none) : d ≤ emptyRun polls (k + d) := by
  induction d with
  | zero => exact Nat.zero_le _
  | succ d ih =>
    have hlast := h d (Nat.lt_succ_self d)
    have := ih fun j hj => h j (Nat.lt_succ_of_lt hj)
    rw [← Nat.add_assoc, emptyRun, if_pos (by rw [hlast]; rfl)]
    omega

/-- The stall guard never trips exactly when something comes within every fifty polls. -/
theorem emptyRun_lt_iff : (∀ n, emptyRun polls n < emptyPollLimit) ↔
    ∀ k, ∃ j < emptyPollLimit, polls (k + j) ≠ none := by
  constructor
  · intro h k
    by_contra hno
    push Not at hno
    have hle := le_emptyRun hno
    have hlt := h (k + emptyPollLimit)
    omega
  · intro h n
    by_contra hge
    have hspec : emptyRun polls n ≤ n ∧ ∀ k, n - emptyRun polls n ≤ k → k < n → polls k = none :=
      emptyRun_spec n
    obtain ⟨j, hj, hsome⟩ := h (n - emptyPollLimit)
    exact hsome (hspec.2 _ (by omega) (by omega))

private theorem running_iff : (drainLoop topic).running s = true ↔ s.pending ≠ [] ∧ s.empty < emptyPollLimit := by
  simp [drainLoop]

/-- A poll that does not fail is taken in. -/
theorem step_of_not_fails (s : DrainState) (h : ∀ m, polls n = some m → ¬ m.Fails) :
    ∃ s', (drainLoop topic).step s (polls n) = .ok s' := by
  cases hp : polls n with
  | none => exact ⟨_, rfl⟩
  | some msg =>
    cases he : msg.error with
    | none => exact ⟨_, by simp only [drainLoop, he]; rfl⟩
    | some err =>
      have hcode : err.code = partitionEof := by
        by_contra hne
        exact h msg hp ⟨err, he, hne⟩
      exact ⟨_, by simp only [drainLoop, he, if_pos hcode]; rfl⟩

/-- The loop runs for ever exactly when it is never done, never fails and never stalls. -/
theorem runs_forever_iff : (∀ fuel, (drainLoop topic).run polls fuel 0 ⟨parts, [], 0⟩ = none) ↔
    (∀ n, ¬ AllSignalled parts polls n) ∧ (∀ k m, polls k = some m → ¬ m.Fails) ∧
      ∀ n, emptyRun polls n < emptyPollLimit := by
  rw [PollLoop.run_eq_none_iff]
  constructor
  · intro h
    have hat (n : Nat) : ∃ s, DrainedTo parts polls n s ∧ s.pending ≠ [] ∧ s.empty < emptyPollLimit := by
      obtain ⟨s, hr, hrun⟩ := h n
      exact ⟨s, drainedTo_of_reaches hr, running_iff.mp hrun⟩
    refine ⟨fun n hall => ?_, fun k m hm => ?_, fun n => ?_⟩
    · obtain ⟨s, hd, hne, _⟩ := hat n
      exact hne (hd.pending_eq_nil.mpr hall)
    · obtain ⟨s, hd, _⟩ := hat (k + 1)
      exact hd.noFailure k (Nat.lt_succ_self k) m hm
    · obtain ⟨s, hd, _, hlt⟩ := hat n
      rw [← hd.empty]
      exact hlt
  · rintro ⟨hnever, hfail, hstall⟩ n
    have hhead {n : Nat} {s : DrainState} (hr : (drainLoop topic).Reaches polls ⟨parts, [], 0⟩ n s) :
        (drainLoop topic).running s = true := by
      have hd := drainedTo_of_reaches hr
      rw [running_iff, hd.empty]
      exact ⟨fun hnil => hnever n (hd.pending_eq_nil.mp hnil), hstall n⟩
    have hreach : ∃ s, (drainLoop topic).Reaches polls ⟨parts, [], 0⟩ n s := by
      induction n with
      | zero => exact ⟨_, .start⟩
      | succ n ih =>
        obtain ⟨s, hr⟩ := ih
        obtain ⟨s', hs'⟩ : ∃ s', (drainLoop topic).step s (polls n) = .ok s' := step_of_not_fails s (hfail n)
        exact ⟨s', hr.turn (hhead hr) hs'⟩
    obtain ⟨s, hr⟩ := hreach
    exact ⟨s, hr, hhead hr⟩

/-- The first end point is the one the loop stops at. -/
theorem endPoint_of_reaches (hr : (drainLoop topic).Reaches polls ⟨parts, [], 0⟩ n s)
    (hend : s.pending = []) : EndPoint parts polls n := by
  refine ⟨(drainedTo_of_reaches hr).pending_eq_nil.mp hend, ?_⟩
  clear hend
  induction hr with
  | start => exact fun k hk => absurd hk (Nat.not_lt_zero k)
  | @turn n s s' hr hrun _ ih =>
    intro k hk
    rcases Nat.lt_succ_iff_lt_or_eq.mp hk with hk | rfl
    · exact ih k hk
    · rw [← (drainedTo_of_reaches hr).pending_eq_nil]
      exact (running_iff.mp hrun).1

end loop

section drainMessages
variable {topics : OrderedDict String TopicMetadata} {topic : String} {polls : Nat → Option Message}
  {fuel : Nat} {ms : List Message} {info : TopicMetadata}

private theorem drained_eq_ok_iff {s : DrainState} : drained topic s = .ok ms ↔ s.pending = [] ∧ s.messages = ms := by
  unfold drained
  by_cases h : s.pending = [] <;> simp [h]

/-- What a drain returns: the messages up to the first point where all partitions have signalled. -/
theorem drainMessages_returns (h : drainMessages topics topic polls fuel = some (.ok ms)) :
    ∃ info n, topics.get? topic = some info ∧ EndPoint info.partitions polls n ∧ ms = delivered polls n := by
  unfold drainMessages at h
  cases hinfo : topics.get? topic with
  | none => simp [hinfo] at h
  | some info =>
    simp only [hinfo, Option.map_eq_some_iff, bind_eq_ok_iff] at h
    obtain ⟨_, hrun, s, rfl, hs⟩ := h
    obtain ⟨n, _, hr, _⟩ := PollLoop.run_eq_ok_iff.mp hrun
    obtain ⟨hend, rfl⟩ := drained_eq_ok_iff.mp hs
    exact ⟨info, n, rfl, endPoint_of_reaches hr hend, (drainedTo_of_reaches hr).messages⟩

/-- A drain that never ends is fed signals for ever. -/
theorem drainMessages_runs_iff : (∀ fuel, drainMessages topics topic polls fuel = none) ↔
    ∃ info, topics.get? topic = some info ∧ (∀ n, ¬ AllSignalled info.partitions polls n) ∧
      (∀ k m, polls k = some m → ¬ m.Fails) ∧ ∀ n, emptyRun polls n < emptyPollLimit := by
  unfold drainMessages
  cases hinfo : topics.get? topic with
  | none => simp
  | some info => simp only [Option.map_eq_none_iff, runs_forever_iff, Option.some.injEq, exists_eq_left']

/-- No partition, nothing to wait for. -/
theorem drainMessages_no_partitions (hinfo : topics.get? topic = some info) (h : info.partitions = []) :
    drainMessages topics topic polls fuel = some (.ok []) := by
  have hstop : (drainLoop topic).running ⟨info.partitions, [], 0⟩ = false := by
    simp [drainLoop, h]
  simp only [drainMessages, hinfo, PollLoop.run_stopped hstop, Option.map_some]
  simp [drained, h, bind, Except.bind]

/-- What is asked of a drain: it returns only at an end point of a topic with partitions,
with exactly what was delivered; otherwise it raises; and it ends once the messages do. -/
structure DrainComplete (topics : OrderedDict String TopicMetadata) (topic : String)
    (polls : Nat → Option Message) : Prop where
  returns : ∀ fuel ms, drainMessages topics topic polls fuel = some (.ok ms) →
    ∃ info n, topics.get? topic = some info ∧ info.partitions ≠ [] ∧
      EndPoint info.partitions polls n ∧ ms = delivered polls n
  raises : ∀ fuel result, drainMessages topics topic polls fuel = some result →
    (¬ ∃ info n, topics.get? topic = some info ∧ info.partitions ≠ [] ∧ EndPoint info.partitions polls n) →
    ∃ err, result = .error err
  terminates : MessagesEnd polls → ∃ fuel result, drainMessages topics topic polls fuel = some result

private theorem drainMessages_terminates_iff (hinfo : topics.get? topic = some info) :
    (MessagesEnd polls → ∃ fuel result, drainMessages topics topic polls fuel = some result) ↔
      ¬ EndlessSignals info.partitions polls := by
  have hforever : (¬ ∃ fuel result, drainMessages topics topic polls fuel = some result) ↔
      ∀ fuel, drainMessages topics topic polls fuel = none := by
    push Not
    simp only [Option.eq_none_iff_forall_ne_some, ne_eq]
  constructor
  · intro h hendless
    refine absurd (h hendless.messagesEnd) (hforever.mpr (drainMessages_runs_iff.mpr ⟨info, hinfo, ?_⟩))
    obtain ⟨p, hp, hno⟩ := hendless.unsignalled
    exact ⟨fun n hall => hno n (hall p hp), hendless.noFailure, emptyRun_lt_iff.mpr hendless.noStall⟩
  · intro hnot hmessages
    by_contra hno
    obtain ⟨info', hinfo', hnever, hfail, hstall⟩ := drainMessages_runs_iff.mp (hforever.mp hno)
    obtain rfl : info = info' := Option.some.inj (hinfo.symm.trans hinfo')
    exact hnot ⟨hmessages, exists_unsignalled hnever, hfail, emptyRun_lt_iff.mp hstall⟩

/-- A drain is complete or raises exactly when the metadata answer for its topic has a
partition and no endless signals come in. -/
theorem drainMessages_complete_iff (topics : OrderedDict String TopicMetadata) (topic : String)
    (polls : Nat → Option Message) : DrainComplete topics topic polls ↔
      ∀ info, topics.get? topic = some info →
        info.partitions ≠ [] ∧ ¬ EndlessSignals info.partitions polls := by
  constructor
  · intro h info hinfo
    refine ⟨fun hnil => ?_, (drainMessages_terminates_iff hinfo).mp h.terminates⟩
    obtain ⟨info', _, hinfo', hne, _⟩ := h.returns 0 [] (drainMessages_no_partitions hinfo hnil)
    obtain rfl : info = info' := Option.some.inj (hinfo.symm.trans hinfo')
    exact hne hnil
  · intro h
    have hreturns : ∀ fuel ms, drainMessages topics topic polls fuel = some (.ok ms) →
        ∃ info n, topics.get? topic = some info ∧ info.partitions ≠ [] ∧
          EndPoint info.partitions polls n ∧ ms = delivered polls n := by
      intro fuel ms hms
      obtain ⟨info, n, hinfo, hend, hdel⟩ := drainMessages_returns hms
      exact ⟨info, n, hinfo, (h info hinfo).1, hend, hdel⟩
    refine ⟨hreturns, fun fuel result hres hno => ?_, ?_⟩
    · cases result with
      | error err => exact ⟨err, rfl⟩
      | ok ms =>
        obtain ⟨info, n, hinfo, hne, hend, _⟩ := hreturns fuel ms hres
        exact absurd ⟨info, n, hinfo, hne, hend⟩ hno
    · cases hinfo : topics.get? topic with
      | none => exact fun _ => ⟨0, .error (.keyError topic), by simp [drainMessages, hinfo]⟩
      | some info => exact (drainMessages_terminates_iff hinfo).mpr (h info hinfo).2

/-- The answer for a topic the broker does not know: an entry with an error and no partitions. -/
def unknownTopic : OrderedDict String TopicMetadata :=
  OrderedDict.empty.alter "device_graph" fun _ => ⟨some ⟨3, "Broker: Unknown topic or partition"⟩, [], List.nodup_nil⟩

theorem drainMessages_unknownTopic :
    ¬ DrainComplete unknownTopic "device_graph" fun _ => none := by
  intro h
  have hinfo : (unknownTopic.get? "device_graph").isSome := by decide
  obtain ⟨info, hget⟩ := Option.isSome_iff_exists.mp hinfo
  have hnil : info.partitions = [] := by
    cases hget
    rfl
  exact ((drainMessages_complete_iff _ _ _).mp h info hget).1 hnil

end drainMessages
end CtvAttribution.Kafka
