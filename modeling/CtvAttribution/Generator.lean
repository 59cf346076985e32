import CtvAttribution.Library.Decimals
import CtvAttribution.Library.Drawing
import CtvAttribution.Resolver
import Mathlib.Data.Rat.Floor
import Mathlib.Tactic.NormNum

/-! The seeded event generator. Knobs and draws are exact rationals; a profile carries the
checks of its schema. -/
namespace CtvAttribution
open Library Drawing

structure GraphConfig where
  nHouseholds : Nat
  devicesPerHousehold : Int × Int
  ipsPerHousehold : Int × Int
  sharedIpFraction : ℚ
  nHouseholds_pos : 0 < nHouseholds := by norm_num
  devices_ordered : devicesPerHousehold.1 ≤ devicesPerHousehold.2 := by norm_num
  ips_ordered : ipsPerHousehold.1 ≤ ipsPerHousehold.2 := by norm_num
  fraction_mem : 0 ≤ sharedIpFraction ∧ sharedIpFraction ≤ 1 := by norm_num

structure LateConfig where
  fraction : ℚ
  minMinutes : ℚ
  maxMinutes : ℚ
  fraction_mem : 0 ≤ fraction ∧ fraction ≤ 1 := by norm_num
  minutes_nonneg : 0 ≤ minMinutes ∧ 0 ≤ maxMinutes := by norm_num
  minutes_ordered : minMinutes ≤ maxMinutes := by norm_num

structure EventsConfig where
  nExposures : Nat
  eventsPerHour : ℚ
  causedConversionRate : ℚ
  organicConversions : Nat
  conversionDelayMinutes : ℚ × ℚ
  purchaseFraction : ℚ
  revenueRange : ℚ × ℚ
  late : LateConfig
  duplicateFraction : ℚ
  unknownDeviceFraction : ℚ
  coViewMultiplier : OrderedDict String ℚ
  nExposures_pos : 0 < nExposures := by norm_num
  eventsPerHour_pos : 0 < eventsPerHour := by norm_num
  rate_mem : 0 ≤ causedConversionRate ∧ causedConversionRate ≤ 1 := by norm_num
  delay_ordered : conversionDelayMinutes.1 ≤ conversionDelayMinutes.2 := by norm_num
  purchase_mem : 0 ≤ purchaseFraction ∧ purchaseFraction ≤ 1 := by norm_num
  revenue_ordered : revenueRange.1 ≤ revenueRange.2 := by norm_num
  duplicate_mem : 0 ≤ duplicateFraction ∧ duplicateFraction ≤ 1 := by norm_num
  unknown_mem : 0 ≤ unknownDeviceFraction ∧ unknownDeviceFraction ≤ 1 := by norm_num

structure Profile where
  simStart : Int
  nCampaigns : Nat
  spendRange : ℚ × ℚ
  appIds : List String
  genres : List String
  graph : GraphConfig
  events : EventsConfig
  nCampaigns_pos : 0 < nCampaigns := by norm_num
  spend_ordered : spendRange.1 ≤ spendRange.2 := by norm_num

structure TruthLink where
  conversionId : String
  truthExposureId : String
  deriving DecidableEq, Repr

/-- Why a generation does not complete. -/
inductive GenerateError where
  | outOfDraws
  | emptySequence
  | negativeMoney
  | unknownHousehold (householdId : String)
  deriving DecidableEq, Repr

abbrev Generator := Drawing GenerateError

section rng

/-- `rng.random()`: 53 random bits. -/
def random : Generator ℚ := do return ((← draw .outOfDraws) % 2 ^ 53 : Nat) / 2 ^ 53

/-- `rng.uniform(a, b)`. -/
def uniform (a b : ℚ) : Generator ℚ := do return a + (b - a) * (← random)

/-- `rng.randint(a, b)` for `a ≤ b`. -/
def randint (a b : Int) : Generator Int := do return a + (← draw .outOfDraws) % (b - a + 1)

/-- `rng.randrange(n)` for `0 < n`. -/
def randrange (n : Nat) : Generator Nat := do return (← draw .outOfDraws) % n

/-- `rng.choice(xs)`. -/
def choice {α : Type} (xs : List α) : Generator α := choose .outOfDraws .emptySequence xs

/-- `rng.random() < fraction`. -/
def chance (fraction : ℚ) : Generator Bool := do return decide ((← random) < fraction)

/-- `fraction > 0 and rng.random() < fraction`: no draw for a zero fraction. -/
def chanceIfAny (fraction : ℚ) : Generator Bool := if 0 < fraction then chance fraction else return false

end rng

/-- `round(x)`, ties to even. -/
def roundHalfEven (x : ℚ) : Int :=
  let below := ⌊x⌋
  if x - below < 1 / 2 then below
  else if 1 / 2 < x - below then below + 1
  else if below % 2 = 0 then below else below + 1

/-- `timedelta(seconds=round(x, 3))`. -/
def roundedSeconds (x : ℚ) : Int := roundHalfEven (x * 1000) * Time.millisecond

/-- `timedelta(seconds=x)`. -/
def seconds (x : ℚ) : Int := roundHalfEven (x * 1000000)

/-- `round(x, 2)` into a field that is checked to be non-negative. -/
def roundedMoney (x : ℚ) : Generator Money := do
  let cents := roundHalfEven (x * 100)
  if cents < 0 then throw .negativeMoney
  return cents.toNat * 100

/-- `f"h-{i:04d}"` and the other identifiers. -/
def householdIdOf (i : Nat) : String := "h-" ++ String.ofList (padded 4 i)
def deviceIdOf (i j : Nat) : String := "d-" ++ String.ofList (padded 4 i ++ '-' :: padded 0 j)
def unknownDeviceIdOf (i : Nat) : String := "u-" ++ String.ofList (padded 6 i)
def exposureIdOf (i : Nat) : String := "e-" ++ String.ofList (padded 6 i)
def conversionIdOf (i : Nat) : String := "c-" ++ String.ofList (padded 6 i)
def campaignIdOf (i : Nat) : String := "camp-" ++ String.ofList (padded 2 i)

section graph
variable (cfg : GraphConfig)

def personalKinds : List DeviceKind := [.phone, .laptop, .tablet]

/-- The CGNAT-style pool. -/
def sharedPool : List String :=
  let poolSize := max 1 (roundHalfEven (cfg.nHouseholds * cfg.sharedIpFraction))
  (List.range poolSize.toNat).map fun i => "100.64.0." ++ toString (i + 1)

/-- The next address outside the pool; the counter wraps at three octets. -/
def uniqueIp (uniqueCounter : Nat) : String :=
  "10." ++ toString (uniqueCounter / 65536 % 256) ++ "." ++ toString (uniqueCounter / 256 % 256) ++ "." ++
    toString (uniqueCounter % 256)

/-- The first device is the TV. -/
def drawKind (j : Nat) : Generator DeviceKind := if j = 0 then return .tv else choice personalKinds

def drawDevice (i j : Nat) : Generator Device := do
  return { deviceId := deviceIdOf i j, kind := ← drawKind j }

/-- One slot of a household's addresses. -/
def drawIp (vars : List String × Nat) : Generator (List String × Nat) := do
  let (ips, uniqueCounter) := vars
  if ← chanceIfAny cfg.sharedIpFraction then
    let ip ← choice (sharedPool cfg)
    return (if ip ∈ ips then ips else ips ++ [ip], uniqueCounter)
  else
    let ip := uniqueIp (uniqueCounter + 1)
    return (if ip ∈ ips then ips else ips ++ [ip], uniqueCounter + 1)

/-- One round of the household loop. -/
def drawHousehold (vars : List Household × Nat) (i : Nat) : Generator (List Household × Nat) := do
  let nDevices ← randint cfg.devicesPerHousehold.1 cfg.devicesPerHousehold.2
  let devices ← (List.range nDevices.toNat).mapM (drawDevice i)
  let nIps ← randint cfg.ipsPerHousehold.1 cfg.ipsPerHousehold.2
  let (ips, uniqueCounter) ← (List.range nIps.toNat).foldlM (fun vars _ => drawIp cfg vars) ([], vars.2)
  return (vars.1 ++ [{ householdId := householdIdOf i, devices, ips }], uniqueCounter)

/-- `build_graph`. -/
def buildGraph : Generator (List Household) := do
  return (← (List.range cfg.nHouseholds).foldlM (drawHousehold cfg) ([], 0)).1

end graph

/-- `_ingest_time`. -/
def ingestTimeOf (late : LateConfig) (eventTime : Int) : Generator Int := do
  let delay ← if ← chanceIfAny late.fraction then uniform (late.minMinutes * 60) (late.maxMinutes * 60) else uniform 1 60
  return eventTime + roundedSeconds delay

/-- `_conversion_device`. -/
def conversionDevice (household : Household) : Generator Device :=
  let personal := household.devices.filter fun d => d.kind ≠ .tv
  choice (if personal = [] then household.devices else personal)

/-- `_with_duplicates`: a re-send has its own arrival slot, the same payload. -/
def withDuplicates {α : Type} (ingestTime : α → Int) (eventId : α → String) (events : List α) (fraction : ℚ) :
    Generator (List α) := do
  let arrivals ← events.foldlM (fun (arrivals : List (Int × Nat × α)) e => do
    if ← chanceIfAny fraction then
      return arrivals ++ [(ingestTime e + seconds (← uniform 10 300), 1, e)]
    else return arrivals) (events.map fun e => (ingestTime e, 0, e))
  let arrivalSlot (t : Int × Nat × α) : Int ×ₗ String ×ₗ Nat := toLex (t.1, toLex (eventId t.2.2, t.2.1))
  return (sortedBy arrivalSlot arrivals).map fun t => t.2.2

section events
variable (profile : Profile)

/-- One round of the exposure loop. -/
def drawExposure (households : List Household) (i : Nat) : Generator Exposure := do
  let household ← choice households
  let eventTime := profile.simStart + roundedSeconds (i * (3600 / profile.events.eventsPerHour))
  let ingestTime ← ingestTimeOf profile.events.late eventTime
  let campaign ← randrange profile.nCampaigns
  let ip ← choice household.ips
  let appId ← choice profile.appIds
  let programGenre ← choice profile.genres
  let spend ← roundedMoney (← uniform profile.spendRange.1 profile.spendRange.2)
  return { exposureId := exposureIdOf i, eventTime, ingestTime, campaignId := campaignIdOf campaign,
           householdId := household.householdId, ip, appId, programGenre, spend }

/-- What the conversion loops build up. -/
structure Made where
  conversions : List Conversion
  truthLinks : List TruthLink
  unknownDeviceCount : Nat

/-- The device a conversion fires from: one of the household's, or one the graph never learned. -/
def drawDeviceId (household : Household) (unknownDeviceCount : Nat) : Generator (String × Nat) := do
  if ← chance profile.events.unknownDeviceFraction then
    return (unknownDeviceIdOf unknownDeviceCount, unknownDeviceCount + 1)
  else
    let device ← conversionDevice household
    return (device.deviceId, unknownDeviceCount)

def drawRevenue (purchase : Bool) : Generator Money := do
  if purchase then
    let revenue ← uniform profile.events.revenueRange.1 profile.events.revenueRange.2
    roundedMoney revenue
  else return 0

/-- `make_conversion`. -/
def makeConversion (made : Made) (household : Household) (eventTime : Int) (causedBy : Option String) : Generator Made := do
  let cid := conversionIdOf made.conversions.length
  let purchase ← chance profile.events.purchaseFraction
  let (deviceId, unknownDeviceCount) ← drawDeviceId profile household made.unknownDeviceCount
  let ingestTime ← ingestTimeOf profile.events.late eventTime
  let ip ← choice household.ips
  let revenue ← drawRevenue profile purchase
  let conversion : Conversion :=
    { conversionId := cid, eventTime, ingestTime, deviceId, ip
      conversionType := if purchase then .purchase else .siteVisit, revenue
      orderId := if purchase then some ("o-" ++ cid) else none }
  return { conversions := made.conversions ++ [conversion]
           truthLinks := made.truthLinks ++ (causedBy.map fun e => ⟨cid, e⟩).toList, unknownDeviceCount }

/-- One round of the loop over the exposures: some cause a conversion. -/
def drawCaused (households : List Household) (made : Made) (exp : Exposure) : Generator Made := do
  let ev := profile.events
  let rate := ev.causedConversionRate * (ev.coViewMultiplier.get? exp.programGenre).getD 1
  if ← chance (min 1 rate) then
    let delay ← uniform (ev.conversionDelayMinutes.1 * 60) (ev.conversionDelayMinutes.2 * 60)
    let householdsById := OrderedDict.collect Household.householdId (fun h _ => h) households
    match householdsById.get? exp.householdId with
    | some household => makeConversion profile made household (exp.eventTime + roundedSeconds delay) (some exp.exposureId)
    | none => throw (.unknownHousehold exp.householdId)
  else return made

/-- One round of the organic loop. -/
def drawOrganic (households : List Household) (made : Made) : Generator Made := do
  let household ← choice households
  let span := profile.events.nExposures * (3600 / profile.events.eventsPerHour)
  let eventTime := profile.simStart + roundedSeconds (← uniform 0 span)
  makeConversion profile made household eventTime none

structure GeneratedStream where
  graph : List Household
  exposures : List Exposure
  conversions : List Conversion
  truthLinks : List TruthLink

/-- `generate`, over the draws its seed gives. -/
def generate : Generator GeneratedStream := do
  let graph ← buildGraph profile.graph
  let exposures ← (List.range profile.events.nExposures).mapM (drawExposure profile graph)
  let made ← exposures.foldlM (drawCaused profile graph) ⟨[], [], 0⟩
  let made ← (List.range profile.events.organicConversions).foldlM (fun made _ => drawOrganic profile graph made) made
  return {
    graph
    exposures := ← withDuplicates Exposure.ingestTime Exposure.exposureId exposures profile.events.duplicateFraction
    conversions :=
      ← withDuplicates Conversion.ingestTime Conversion.conversionId made.conversions profile.events.duplicateFraction
    truthLinks := made.truthLinks }

end events
end CtvAttribution
