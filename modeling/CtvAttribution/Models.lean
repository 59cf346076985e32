import CtvAttribution.Library.OrderedDict
import CtvAttribution.Library.SortedBy
import Mathlib.Data.String.Basic

/-! Row and message schemas of the pipeline. Instants and durations are integers in
microseconds on the UTC axis; money counts the 10⁻⁴ units of `Decimal64(4)`. -/
namespace CtvAttribution
open Library

abbrev Money := Nat

def Time.millisecond : Int := 1000
def Time.second : Int := 1000 * Time.millisecond
def Time.minute : Int := 60 * Time.second
def Time.hour : Int := 60 * Time.minute
def Time.day : Int := 24 * Time.hour

structure Exposure where
  exposureId : String
  eventTime : Int
  ingestTime : Int
  campaignId : String
  householdId : String
  ip : String
  appId : String
  programGenre : String
  spend : Money
  deriving DecidableEq, Repr

inductive ConversionType where
  | siteVisit
  | purchase
  deriving DecidableEq, Repr

structure Conversion where
  conversionId : String
  eventTime : Int
  ingestTime : Int
  deviceId : String
  ip : String
  conversionType : ConversionType
  revenue : Money
  orderId : Option String
  deriving DecidableEq, Repr

inductive Resolution where
  | device
  | ip
  deriving DecidableEq, Repr

structure ResolvedConversion extends Conversion where
  householdId : String
  resolution : Resolution
  ambiguous : Bool
  candidateCount : Nat
  candidateCount_pos : 1 ≤ candidateCount := by decide
  deriving DecidableEq, Repr

inductive Path where
  | hot
  | reconciled
  deriving DecidableEq, Repr

/-- The column is a string; 'reconciled' sorts above 'hot'. -/
def Path.text : Path → String
  | .hot => "hot"
  | .reconciled => "reconciled"

inductive Reason where
  | ambiguousIp
  | stateMiss
  deriving DecidableEq, Repr

def Reason.text : Reason → String
  | .ambiguousIp => "ambiguous_ip"
  | .stateMiss => "state_miss"

/-- A certain row persists no candidate set; an ambiguous one persists its sorted
distinct candidates, its own household among them. -/
def CandidateSetMatchesCount (candidateCount : Nat) (householdId : String)
    (candidateHouseholds : List String) : Prop :=
  if candidateCount = 1 then candidateHouseholds = []
  else (candidateHouseholds.length = candidateCount ∧ candidateHouseholds = sortedSet candidateHouseholds) ∧
    householdId ∈ candidateHouseholds

instance (n : Nat) (h : String) (hhs : List String) : Decidable (CandidateSetMatchesCount n h hhs) := by
  unfold CandidateSetMatchesCount
  exact inferInstance

structure AttributedConversion extends ResolvedConversion where
  exposureId : Option String
  assists : List String
  attributed : Bool
  path : Path
  processedAt : Int
  reason : Option Reason
  candidateHouseholds : List String
  candidateSetMatchesCount :
    CandidateSetMatchesCount candidateCount householdId candidateHouseholds := by decide
  deriving DecidableEq, Repr

/-- The refusals raised as `ValueError` by the models and the pure functions. -/
inductive ValueError where
  | candidatesNotEmpty (conversionId : String) (hhs : List String)
  | candidatesMismatch (conversionId : String) (candidateCount : Nat) (hhs : List String)
  | householdNotCandidate (conversionId householdId : String) (hhs : List String)
  | noCandidatesSupplied (conversionId : String) (candidateCount : Nat)
  | notExpanded (conversionId : String)
  | reasonDisagrees (conversionId : String) (reason : Reason) (candidateCount : Nat)
  deriving DecidableEq, Repr

/-- A character between the quotes of a `repr`; one outside ASCII is taken to be printable. -/
def reprChar (quote c : Char) : List Char :=
  if c = quote ∨ c = '\\' then ['\\', c]
  else if c = '\n' then ['\\', 'n']
  else if c = '\r' then ['\\', 'r']
  else if c = '\t' then ['\\', 't']
  else if c < ' ' ∨ c = '\x7f' then ['\\', 'x', Nat.digitChar (c.toNat / 16), Nat.digitChar (c.toNat % 16)]
  else [c]

/-- `repr` of a string: in double quotes when only single ones stand in it. -/
def quoted (s : String) : String :=
  let quote := if '\'' ∈ s.toList ∧ '"' ∉ s.toList then '"' else '\''
  String.ofList (quote :: s.toList.flatMap (reprChar quote) ++ [quote])

/-- `repr` of a list of strings. -/
def quotedList (l : List String) : String := "[" ++ ", ".intercalate (l.map quoted) ++ "]"

def ValueError.message : ValueError → String
  | .candidatesNotEmpty cid hhs =>
    s!"{cid}: candidate_households must be empty when candidate_count == 1, got {quotedList hhs}"
  | .candidatesMismatch cid n hhs =>
    s!"{cid}: candidate_households must be the {n} sorted distinct candidates, got {quotedList hhs} " ++
    "(fewer candidates than candidate_count usually means MIXED " ++
    "profiles under shared conversion_ids — a topic seeded twice, or " ++
    "a lake carried over — so dedup collapsed a fan-out pair; start " ++
    "clean: make down && make lake-reset PROFILE=<p> CONFIRM=yes && " ++
    "make up && make seed PROFILE=<p>)"
  | .householdNotCandidate cid h hhs =>
    s!"{cid}: household_id {quoted h} is not one of candidate_households {quotedList hhs}"
  | .noCandidatesSupplied cid n =>
    s!"{cid}: ambiguous (candidate_count={n}) but no candidate_households were supplied"
  | .notExpanded cid =>
    s!"{cid}: ambiguous_ip candidate not expanded — call expand_candidates(candidates) first"
  | .reasonDisagrees cid reason n =>
    s!"{cid}: reason={quoted reason.text} disagrees with candidate_count={n}"

/-- Build a row through the model's validator. -/
def AttributedConversion.validate (conv : ResolvedConversion) (exposureId : Option String)
    (assists : List String) (attributed : Bool) (path : Path) (processedAt : Int)
    (reason : Option Reason) (hhs : List String) : Except ValueError AttributedConversion :=
  if h : CandidateSetMatchesCount conv.candidateCount conv.householdId hhs then
    .ok { conv with exposureId, assists, attributed, path, processedAt, reason,
                    candidateHouseholds := hhs, candidateSetMatchesCount := h }
  else if conv.candidateCount = 1 then .error (.candidatesNotEmpty conv.conversionId hhs)
  else if hhs.length ≠ conv.candidateCount ∨ hhs ≠ sortedSet hhs then
    .error (.candidatesMismatch conv.conversionId conv.candidateCount hhs)
  else .error (.householdNotCandidate conv.conversionId conv.householdId hhs)

namespace AttributedConversion
variable (r : AttributedConversion)

/-- The sorted set a reconcile pass explodes an ambiguous row over. -/
theorem candidateHouseholds_strict : r.candidateHouseholds.Pairwise (· < ·) := by
  have h := r.candidateSetMatchesCount
  unfold CandidateSetMatchesCount at h
  split at h
  · rw [h]
    exact List.Pairwise.nil
  · rw [h.1.2]
    exact sortedSet_strict _

theorem candidateHouseholds_eq_nil_iff : r.candidateHouseholds = [] ↔ r.candidateCount = 1 := by
  have h := r.candidateSetMatchesCount
  unfold CandidateSetMatchesCount at h
  split at h
  · rename_i hc
    exact ⟨fun _ => hc, fun _ => h⟩
  · rename_i hc
    exact ⟨fun he => absurd (he ▸ h.2) List.not_mem_nil, fun he => absurd he hc⟩

theorem length_candidateHouseholds (h : r.candidateCount ≠ 1) :
    r.candidateHouseholds.length = r.candidateCount := by
  have hm := r.candidateSetMatchesCount
  rw [CandidateSetMatchesCount, if_neg h] at hm
  exact hm.1.1

theorem householdId_mem (h : r.candidateCount ≠ 1) : r.householdId ∈ r.candidateHouseholds := by
  have hm := r.candidateSetMatchesCount
  rw [CandidateSetMatchesCount, if_neg h] at hm
  exact hm.2

end AttributedConversion

inductive DeviceKind where
  | tv
  | phone
  | laptop
  | tablet
  deriving DecidableEq, Repr

structure Device where
  deviceId : String
  kind : DeviceKind
  deriving DecidableEq, Repr

structure Household where
  householdId : String
  devices : List Device
  ips : List String
  deriving DecidableEq, Repr

end CtvAttribution
