import Paywall.Time.Date

/-!
# Instants

An instant is a time in UTC with nanoseconds. Instants are ordered by time. A leap second is the
second 59 of its minute with a fraction of one second or more, so it comes after every other instant
of that second and before the next minute.
-/

namespace Paywall

/-- Nanoseconds in a second. -/
def nanosPerSecond : Nat := 1000000000

/-- Seconds in a day. -/
def secondsPerDay : Nat := 86400

/-- A time in UTC. -/
structure Instant where
  /-- Whole seconds from 1970-01-01, leap seconds not counted. -/
  seconds : Int
  /-- The fraction in nanoseconds, a second or more only within a leap second. -/
  nanos : Nat
deriving DecidableEq, Repr

namespace Instant

instance : Inhabited Instant := ⟨⟨0, 0⟩⟩

/-- `a` is not after `b`. -/
protected def le (a b : Instant) : Prop :=
  a.seconds < b.seconds ∨ a.seconds = b.seconds ∧ a.nanos ≤ b.nanos

/-- `a` is before `b`. -/
protected def lt (a b : Instant) : Prop :=
  a.seconds < b.seconds ∨ a.seconds = b.seconds ∧ a.nanos < b.nanos

instance : LE Instant := ⟨Instant.le⟩
instance : LT Instant := ⟨Instant.lt⟩
instance (a b : Instant) : Decidable (a ≤ b) := inferInstanceAs (Decidable (_ ∨ _))
instance (a b : Instant) : Decidable (a < b) := inferInstanceAs (Decidable (_ ∨ _))

/-- The instant that many nanoseconds after 1970-01-01, leap seconds not counted. -/
def ofNanoseconds (n : Int) : Instant := ⟨n / nanosPerSecond, (n % nanosPerSecond).toNat⟩

/-- The number of the day. -/
def dayNumber (t : Instant) : Int := t.seconds / secondsPerDay

/-- Seconds from the start of the day. -/
def secondOfDay (t : Instant) : Int := t.seconds % secondsPerDay

/-- The calendar date. -/
def date (t : Instant) : Date := .ofDayNumber t.dayNumber

/-- Whether the instant lies in a leap second. -/
def inLeapSecond (t : Instant) : Bool := nanosPerSecond ≤ t.nanos

/-- The instant a positive number of seconds earlier. From within a leap second the count starts at
the minute that follows. -/
def back (t : Instant) (seconds : Nat) : Instant :=
  if t.inLeapSecond then ⟨t.seconds + 1 - seconds, t.nanos - nanosPerSecond⟩
  else ⟨t.seconds - seconds, t.nanos⟩

/-- The start of the day. -/
def midnight (t : Instant) : Instant := ⟨t.dayNumber * secondsPerDay, 0⟩

/-- The leap second to be counted between two instants, seen from their times of day: one if the
earlier time of day lies in a leap second. -/
def leapBetween (a b : Instant) : Int :=
  if a.secondOfDay < b.secondOfDay ∧ a.inLeapSecond then nanosPerSecond
  else if b.secondOfDay < a.secondOfDay ∧ b.inLeapSecond then -nanosPerSecond
  else 0

/-- Nanoseconds from `a` to `b`, negative if `b` is earlier. -/
def elapsed (a b : Instant) : Int :=
  (b.seconds - a.seconds) * nanosPerSecond + (b.nanos - a.nanos) + leapBetween a b

end Instant

end Paywall
