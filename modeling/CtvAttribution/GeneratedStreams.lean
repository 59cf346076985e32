import CtvAttribution.Generator

/-! What every generated stream satisfies, whatever the profile and the draws: identifiers
name one thing, and a truth link ties a conversion to an exposure of its own household. -/
namespace CtvAttribution
open Library Drawing

section identifiers
variable {tag : String} {l l' : List Char} {i j i' j' n : Nat}

private theorem tagged_injective (h : tag ++ String.ofList l = tag ++ String.ofList l') : l = l' := by
  have hchars := congrArg String.toList h
  simp only [String.toList_append, String.toList_ofList] at hchars
  exact List.append_cancel_left hchars

theorem householdIdOf_injective (h : householdIdOf i = householdIdOf j) : i = j := padded_injective (tagged_injective h)
private theorem exposureIdOf_injective (h : exposureIdOf i = exposureIdOf j) :
    i = j := padded_injective (tagged_injective h)
private theorem conversionIdOf_injective (h : conversionIdOf i = conversionIdOf j) : i = j :=
  padded_injective (tagged_injective h)

/-- A device's id tells its household. -/
theorem deviceIdOf_household (h : deviceIdOf i j = deviceIdOf i' j') : i = i' :=
  padded_append_cancel (by decide) (tagged_injective h)

/-- The unknown devices have names of their own. -/
theorem unknownDeviceIdOf_ne : unknownDeviceIdOf n ≠ deviceIdOf i j := by
  intro h
  have hchars := congrArg String.toList h
  simp [unknownDeviceIdOf, deviceIdOf, String.toList_append] at hchars

end identifiers

/-- The household of a number, whose devices carry the number too. -/
structure BuiltHousehold (i : Nat) (h : Household) : Prop where
  householdId : h.householdId = householdIdOf i
  devices : ∀ d ∈ h.devices, ∃ j, d.deviceId = deviceIdOf i j

/-- A conversion fired in a household: behind one of its addresses, from one of its devices
or from one the graph never learned. -/
structure FiredIn (h : Household) (c : Conversion) : Prop where
  ip : c.ip ∈ h.ips
  device : c.deviceId ∈ h.devices.map Device.deviceId ∨ ∃ n, c.deviceId = unknownDeviceIdOf n

/-- A link from a conversion to an exposure of the household it was fired in. -/
def TrueLink (households : List Household) (exposures : List Exposure) (conversions : List Conversion)
    (link : TruthLink) : Prop :=
  ∃ c ∈ conversions, ∃ e ∈ exposures, ∃ h ∈ households, c.conversionId = link.conversionId ∧
    e.exposureId = link.truthExposureId ∧ h.householdId = e.householdId ∧ FiredIn h c

/-- What the conversion loops have built up at any round. -/
structure MadeFrom (households : List Household) (exposures : List Exposure) (made : Made) : Prop where
  ids : made.conversions.map Conversion.conversionId = (List.range made.conversions.length).map conversionIdOf
  links : ∀ link ∈ made.truthLinks, TrueLink households exposures made.conversions link

/-- A generated stream: numbered households, events one per id up to re-sends, true links. -/
structure GeneratedFrom (stream : GeneratedStream) : Prop where
  graph : ∃ n, List.Forall₂ BuiltHousehold (List.range n) stream.graph
  exposures : Keyed Exposure.exposureId stream.exposures
  conversions : Keyed Conversion.conversionId stream.conversions
  links : ∀ link ∈ stream.truthLinks, TrueLink stream.graph stream.exposures stream.conversions link

section graph
variable {cfg : GraphConfig}

private theorem yields_drawDevice (i j : Nat) : Yields (fun d => ∃ j, d.deviceId = deviceIdOf i j) (drawDevice i j) :=
  yields_then fun _ => yields_pure ⟨j, rfl⟩

private theorem yields_drawHousehold {done : List Nat} {vars : List Household × Nat} (i : Nat)
    (h : List.Forall₂ BuiltHousehold done vars.1) :
    Yields (fun vars => List.Forall₂ BuiltHousehold (done ++ [i]) vars.1) (drawHousehold cfg vars i) := by
  refine yields_then fun nDevices => ?_
  refine yields_bind (yields_mapM_forall fun j _ => yields_drawDevice i j) fun devices hdevices => ?_
  refine yields_then fun nIps => yields_then fun ips => yields_pure ?_
  exact List.rel_append h (.cons ⟨rfl, hdevices⟩ .nil)

/-- The graph's households are numbered in order. -/
theorem yields_buildGraph (cfg : GraphConfig) :
    Yields (List.Forall₂ BuiltHousehold (List.range cfg.nHouseholds)) (buildGraph cfg) := by
  have hloop : Yields (fun vars => List.Forall₂ BuiltHousehold (List.range cfg.nHouseholds) vars.1)
      ((List.range cfg.nHouseholds).foldlM (drawHousehold cfg) ([], 0)) :=
    yields_foldlM (I := fun done (vars : List Household × Nat) => List.Forall₂ BuiltHousehold done vars.1)
      (fun _ _ i _ h => yields_drawHousehold i h) .nil
  exact yields_bind hloop fun vars hvars => yields_pure hvars

end graph

section events
variable {profile : Profile} {households : List Household} {exposures : List Exposure}

/-- The i-th exposure is shown in a household of the graph. -/
def ShownIn (households : List Household) (i : Nat) (e : Exposure) : Prop :=
  e.exposureId = exposureIdOf i ∧ ∃ h ∈ households, h.householdId = e.householdId

private theorem yields_drawExposure (i : Nat) : Yields (ShownIn households i) (drawExposure profile households i) := by
  refine yields_bind (yields_choose _ _ households) fun household hmem => ?_
  refine yields_then fun ingestTime => yields_then fun campaign => yields_then fun ip => ?_
  refine yields_then fun appId => yields_then fun programGenre => yields_then fun spend => yields_then fun money => ?_
  exact yields_pure ⟨rfl, household, hmem, rfl⟩

private theorem exposureIds_of_shown {numbers : List Nat} (h : List.Forall₂ (ShownIn households) numbers exposures) :
    exposures.map Exposure.exposureId = numbers.map exposureIdOf := by
  induction h with
  | nil => rfl
  | cons h _ ih => rw [List.map_cons, List.map_cons, h.1, ih]

private theorem yields_conversionDevice (household : Household) :
    Yields (· ∈ household.devices) (conversionDevice household) := by
  refine (yields_choose _ _ _).mono fun d hd => ?_
  split at hd
  · exact hd
  · exact (List.mem_filter.mp hd).1

private theorem yields_drawDeviceId (household : Household) (n : Nat) :
    Yields (fun p => p.1 ∈ household.devices.map Device.deviceId ∨ ∃ n, p.1 = unknownDeviceIdOf n)
      (drawDeviceId profile household n) := by
  refine yields_then fun unknown => yields_ite (fun _ => ?_) fun _ => ?_
  · exact yields_pure (.inr ⟨n, rfl⟩)
  · refine yields_bind (yields_conversionDevice household) fun d hd => ?_
    exact yields_pure (.inl (List.mem_map_of_mem hd))

theorem TrueLink.mono {conversions conversions' : List Conversion} {exposures' : List Exposure} {link : TruthLink}
    (h : TrueLink households exposures conversions link) (he : ∀ e ∈ exposures, e ∈ exposures')
    (hc : ∀ c ∈ conversions, c ∈ conversions') : TrueLink households exposures' conversions' link := by
  obtain ⟨c, hmem, e, hexp, h, hh, rest⟩ := h
  exact ⟨c, hc c hmem, e, he e hexp, h, hh, rest⟩

/-- One more conversion, of a household and with the exposure of that household that caused it. -/
theorem yields_makeConversion {made : Made} (hmade : MadeFrom households exposures made) {household : Household}
    (hmem : household ∈ households) (eventTime : Int) {causedBy : Option String}
    (hcause : ∀ id ∈ causedBy, ∃ e ∈ exposures, e.exposureId = id ∧ household.householdId = e.householdId) :
    Yields (MadeFrom households exposures) (makeConversion profile made household eventTime causedBy) := by
  refine yields_then fun purchase => ?_
  refine yields_bind (yields_drawDeviceId household made.unknownDeviceCount) fun device hdevice => ?_
  refine yields_then fun ingestTime => ?_
  refine yields_bind (yields_choose _ _ household.ips) fun ip hip => ?_
  refine yields_then fun revenue => yields_pure ⟨?_, ?_⟩
  · simp only [List.map_append, hmade.ids, List.length_append, List.map_cons, List.map_nil, List.length_singleton,
      List.range_succ]
  · intro link hlink
    rcases List.mem_append.mp hlink with hlink | hlink
    · exact (hmade.links link hlink).mono (fun _ he => he) fun _ hc => List.mem_append_left _ hc
    · obtain ⟨id, hid, rfl⟩ := Option.map_eq_some_iff.mp (Option.mem_toList.mp hlink)
      obtain ⟨e, he, heid, hhh⟩ := hcause id hid
      exact ⟨_, List.mem_append_right _ (List.mem_singleton_self _), e, he, household, hmem, rfl, heid, hhh,
        ⟨hip, hdevice⟩⟩

private theorem yields_drawCaused {made : Made} (hmade : MadeFrom households exposures made) {exp : Exposure}
    (hexp : exp ∈ exposures) : Yields (MadeFrom households exposures) (drawCaused profile households made exp) := by
  refine yields_then fun caused => yields_ite (fun _ => ?_) fun _ => yields_pure hmade
  refine yields_then fun delay => ?_
  dsimp only
  split
  · rename_i household hget
    rw [OrderedDict.get?_collect_last Household.householdId fun h => h, Option.map_id'] at hget
    obtain ⟨hmem, hid⟩ := List.mem_filter.mp (List.mem_of_getLast? hget)
    refine yields_makeConversion hmade hmem _ fun id hcause => ?_
    cases hcause
    exact ⟨exp, hexp, rfl, of_decide_eq_true hid⟩
  · exact yields_throw _

private theorem yields_drawOrganic {made : Made} (hmade : MadeFrom households exposures made) :
    Yields (MadeFrom households exposures) (drawOrganic profile households made) := by
  refine yields_bind (yields_choose _ _ households) fun household hmem => yields_then fun delay => ?_
  exact yields_makeConversion hmade hmem _ fun id hcause => absurd hcause (by simp)

/-- Duplicates re-send what is there. -/
theorem yields_withDuplicates {α : Type} (ingestTime : α → Int) (eventId : α → String) (events : List α)
    (fraction : ℚ) :
    Yields (fun sent => ∀ x, x ∈ sent ↔ x ∈ events) (withDuplicates ingestTime eventId events fraction) := by
  have hloop : Yields (fun arrivals : List (Int × Nat × α) => ∀ x, x ∈ arrivals.map (fun t => t.2.2) ↔ x ∈ events)
      (events.foldlM (fun (arrivals : List (Int × Nat × α)) e => do
        if ← chanceIfAny fraction then
          return arrivals ++ [(ingestTime e + seconds (← uniform 10 300), 1, e)]
        else return arrivals) (events.map fun e => (ingestTime e, 0, e))) := by
    refine yields_foldlM (I := fun _ (arrivals : List (Int × Nat × α)) =>
      ∀ x, x ∈ arrivals.map (fun t => t.2.2) ↔ x ∈ events) ?_ ?_
    swap
    · intro x
      rw [List.map_map]
      exact iff_of_eq (congrArg (x ∈ ·) (List.map_id events))
    intro _ arrivals e he harrivals
    refine yields_then fun again => yields_ite (fun _ => ?_) fun _ => yields_pure harrivals
    refine yields_then fun delay => yields_pure fun x => ?_
    rw [List.map_append, List.mem_append, harrivals, List.map_singleton, List.mem_singleton]
    constructor
    · intro hx
      rcases hx with hx | rfl
      · exact hx
      · exact he
    · exact .inl
  refine yields_bind hloop fun arrivals harrivals => yields_pure fun x => ?_
  rw [((sortedBy_perm _ arrivals).map _).mem_iff, harrivals]

/-- Identifiers by number name one thing. -/
theorem keyed_of_numbered {α : Type} {key : α → String} {idOf : Nat → String} {l : List α} {n : Nat}
    (hid : ∀ i j, idOf i = idOf j → i = j) (h : l.map key = (List.range n).map idOf) : Keyed key l := by
  apply keyed_of_nodup
  rw [h]
  exact List.nodup_range.map fun i j he => hid i j he

/-- Every stream that a generation completes with. -/
theorem yields_generate (profile : Profile) : Yields GeneratedFrom (generate profile) := by
  refine yields_bind (yields_buildGraph profile.graph) fun households hgraph => ?_
  refine yields_bind (yields_mapM fun i _ => yields_drawExposure i) fun exposures hexposures => ?_
  have hids := exposureIds_of_shown hexposures
  have hstart : MadeFrom households exposures ⟨[], [], 0⟩ := ⟨rfl, fun _ h => absurd h List.not_mem_nil⟩
  refine yields_bind (yields_foldlM (I := fun _ made => MadeFrom households exposures made)
    (fun _ _ exp hexp hmade => yields_drawCaused hmade hexp) hstart) fun made hmade => ?_
  refine yields_bind (yields_foldlM (I := fun _ made => MadeFrom households exposures made)
    (fun _ _ _ _ hmade => yields_drawOrganic hmade) hmade) fun made hmade => ?_
  refine yields_bind (yields_withDuplicates _ _ exposures _) fun sent hsent => ?_
  refine yields_bind (yields_withDuplicates _ _ made.conversions _) fun sent' hsent' => yields_pure ?_
  exact {
    graph := ⟨_, hgraph⟩
    exposures := (keyed_of_numbered (fun _ _ => exposureIdOf_injective) hids).mono fun e he => (hsent e).mp he
    conversions := (keyed_of_numbered (fun _ _ => conversionIdOf_injective) hmade.ids).mono fun c hc => (hsent' c).mp hc
    links := fun link hlink => (hmade.links link hlink).mono (fun e he => (hsent e).mpr he) fun c hc => (hsent' c).mpr hc }

end events
end CtvAttribution
