import Mathlib.Data.Int.Init
import Mathlib.Logic.Basic

/-! Wall-clock times of the calendar of years 1 to 9999, with or without an offset from
UTC. Times count microseconds from 1970-01-01, and arithmetic that leaves the calendar raises. -/
namespace CtvAttribution.Library

def microsPerDay : Int := 86400000000

/-- 0001-01-01 and the day after 9999-12-31, in days from 1970-01-01. -/
def firstDay : Int := -719162
def endDay : Int := 2932897

def InCalendar (t : Int) : Prop := firstDay * microsPerDay ≤ t ∧ t < endDay * microsPerDay

instance (t : Int) : Decidable (InCalendar t) := inferInstanceAs (Decidable (_ ∧ _))

theorem inCalendar_iff {t : Int} :
    InCalendar t ↔ -62135596800000000 ≤ t ∧ t < 253402300800000000 := Iff.rfl

/-- "date value out of range". -/
structure OverflowError where
  deriving DecidableEq, Repr

/-- The difference of a zone's wall clock from UTC, less than a day either way. -/
structure UtcOffset where
  micros : Int
  lt_day : -microsPerDay < micros ∧ micros < microsPerDay
  deriving DecidableEq, Repr

def UtcOffset.utc : UtcOffset := ⟨0, by decide⟩

@[ext] structure DateTime where
  wall : Int
  tzinfo : Option UtcOffset
  inCalendar : InCalendar wall
  deriving DecidableEq, Repr

/-- A day of the calendar. -/
@[ext] structure Date where
  day : Int
  inCalendar : firstDay ≤ day ∧ day < endDay
  deriving DecidableEq, Repr

namespace DateTime

/-- The instant on the UTC axis. A naive time counts as UTC. -/
def instant (t : DateTime) : Int := t.wall - (t.tzinfo.map UtcOffset.micros).getD 0

def replaceTzinfo (t : DateTime) (zone : Option UtcOffset) : DateTime := { t with tzinfo := zone }

/-- Adding a duration moves the wall clock. -/
def add (t : DateTime) (micros : Int) : Except OverflowError DateTime :=
  if h : InCalendar (t.wall + micros) then .ok { t with wall := t.wall + micros, inCalendar := h }
  else .error ⟨⟩

/-- `astimezone(UTC)` of a time at the given offset. -/
def astimezone (t : DateTime) (offset : UtcOffset) : Except OverflowError DateTime := do
  let u ← t.add (-offset.micros)
  return u.replaceTzinfo (some .utc)

/-- The UTC reading: an aware time is converted, a naive one is taken to be UTC already. -/
def toUtc (t : DateTime) : Except OverflowError DateTime :=
  match t.tzinfo with
  | some offset => t.astimezone offset
  | none => .ok (t.replaceTzinfo (some .utc))

def microsecond (t : DateTime) : Fin 1000000 := ⟨(t.wall % 1000000).toNat, by omega⟩

def replaceMicrosecond (t : DateTime) (m : Fin 1000000) : DateTime where
  wall := t.wall - t.microsecond + m
  tzinfo := t.tzinfo
  inCalendar := by
    have h := inCalendar_iff.mp t.inCalendar
    have hm := m.isLt
    have hw : ((t.microsecond : Nat) : Int) = t.wall % 1000000 := by
      simp only [microsecond]
      omega
    rw [inCalendar_iff, hw]
    omega

def date (t : DateTime) : Date where
  day := t.wall / microsPerDay
  inCalendar := by
    have h := inCalendar_iff.mp t.inCalendar
    simp only [firstDay, endDay, microsPerDay]
    omega

end DateTime

/-- The first moment of the day, naive. -/
def Date.midnight (d : Date) : DateTime where
  wall := d.day * microsPerDay
  tzinfo := none
  inCalendar := by
    have h := d.inCalendar
    simp only [firstDay, endDay] at h
    rw [inCalendar_iff, microsPerDay]
    omega

/-- 9999-12-31. -/
def Date.last : Date := ⟨endDay - 1, by decide⟩

section readings
variable {t u : DateTime}

theorem instant_eq_wall (h : t.tzinfo = none ∨ t.tzinfo = some .utc) : t.instant = t.wall := by
  rcases h with h | h <;> simp [DateTime.instant, h, UtcOffset.utc]

theorem add_isOk_iff {d : Int} : (∃ u, t.add d = .ok u) ↔ InCalendar (t.wall + d) := by
  unfold DateTime.add
  split
  · rename_i h
    exact ⟨fun _ => h, fun _ => ⟨_, rfl⟩⟩
  · rename_i h
    constructor
    · intro hu
      obtain ⟨u, hu⟩ := hu
      cases hu
    · intro hc
      exact absurd hc h

theorem wall_of_add {d : Int} (h : t.add d = .ok u) : u.wall = t.wall + d := by
  unfold DateTime.add at h
  split at h
  · cases h
    rfl
  · cases h

theorem tzinfo_of_add {d : Int} (h : t.add d = .ok u) : u.tzinfo = t.tzinfo := by
  unfold DateTime.add at h
  split at h
  · cases h
    rfl
  · cases h

/-- The wall clock of the UTC reading shows the instant. -/
theorem toUtc_eq_ok_iff : t.toUtc = .ok u ↔ u.wall = t.instant ∧ u.tzinfo = some .utc := by
  unfold DateTime.toUtc
  cases hz : t.tzinfo with
  | none =>
    have hw : t.instant = t.wall := instant_eq_wall (.inl hz)
    constructor
    · intro h
      cases h
      exact ⟨hw.symm, rfl⟩
    · intro h
      exact congrArg Except.ok (DateTime.ext (h.1.trans hw).symm h.2.symm)
  | some offset =>
    have hi : t.instant = t.wall + -offset.micros := by
      rw [DateTime.instant, hz, Option.map_some, Option.getD_some, Int.sub_eq_add_neg]
    constructor
    · intro h
      change (t.add (-offset.micros) >>= fun v => pure (v.replaceTzinfo (some .utc))) = _ at h
      cases hv : t.add (-offset.micros) with
      | error e =>
        rw [hv] at h
        cases h
      | ok v =>
        rw [hv] at h
        cases h
        exact ⟨(wall_of_add hv).trans hi.symm, rfl⟩
    · intro h
      have hc : InCalendar (t.wall + -offset.micros) := by
        rw [← hi, ← h.1]
        exact u.inCalendar
      obtain ⟨v, hv⟩ := add_isOk_iff.mpr hc
      change (t.add (-offset.micros) >>= fun v => pure (v.replaceTzinfo (some .utc))) = _
      rw [hv]
      have hwall : v.wall = u.wall := by rw [wall_of_add hv, ← hi, h.1]
      exact congrArg Except.ok (DateTime.ext hwall h.2.symm)

theorem instant_midnight (d : Date) :
    (d.midnight.replaceTzinfo (some .utc)).instant = d.day * microsPerDay := by
  rw [instant_eq_wall (.inr rfl)]
  rfl

/-- Every day has a next one but the last. -/
theorem exists_next_midnight_iff (d : Date) :
    (∃ u, (d.midnight.replaceTzinfo (some .utc)).add microsPerDay = .ok u) ↔ d ≠ .last := by
  have hd := d.inCalendar
  have hday : d = .last ↔ d.day = endDay - 1 := Date.ext_iff
  have hwall : (d.midnight.replaceTzinfo (some .utc)).wall = d.day * microsPerDay := rfl
  simp only [firstDay, endDay] at hd hday
  rw [add_isOk_iff, hwall, inCalendar_iff, ne_eq, hday, microsPerDay]
  omega

theorem microsecond_eq (t : DateTime) : ((t.microsecond : Nat) : Int) = t.wall % 1000000 := by
  simp only [DateTime.microsecond]
  omega

end readings

end CtvAttribution.Library
