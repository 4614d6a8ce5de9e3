import Paywall.Time.Instant

/-!
# Time since an event

A rule may ask how many whole units of time have passed since an event was last seen. Minutes, hours
and days are of fixed length and counted toward zero. Months are calendar months: one has passed
when day and time of day are reached again. A year is twelve of them.
-/

namespace Paywall

/-- A unit of elapsed time. -/
inductive TimeUnit where
  | minutes
  | hours
  | days
  | months
  | years
deriving DecidableEq, Repr

/-- Whether `a` comes before `b` within a month: by its day, then by the time of day. -/
def Instant.earlierInMonth (a b : Instant) : Bool :=
  a.date.day < b.date.day ||
    a.date.day == b.date.day &&
      (a.secondOfDay < b.secondOfDay || a.secondOfDay == b.secondOfDay && a.nanos < b.nanos)

/-- Whole months from `a` to a later instant `b`. -/
def Instant.monthsUntil (a b : Instant) : Int :=
  let months := (b.date.year - a.date.year) * 12 + ((b.date.month : Int) - a.date.month)
  if 0 < months ∧ b.earlierInMonth a then months - 1 else months

/-- Whole months from `a` to `b`, negative if `b` is earlier. -/
def Instant.months (a b : Instant) : Int :=
  if b < a then -(b.monthsUntil a) else a.monthsUntil b

/-- Whole units from `a` to `b`, negative if `b` is earlier. -/
def TimeUnit.elapsed (u : TimeUnit) (a b : Instant) : Int :=
  match u with
  | .minutes => (a.elapsed b).tdiv (60 * nanosPerSecond)
  | .hours => (a.elapsed b).tdiv (3600 * nanosPerSecond)
  | .days => (a.elapsed b).tdiv (secondsPerDay * nanosPerSecond)
  | .months => a.months b
  | .years => (a.months b).tdiv 12

/-- How a variable of the unit begins. -/
def TimeUnit.variableStem : TimeUnit → String
  | .minutes => "minutesSince_"
  | .hours => "hoursSince_"
  | .days => "daysSince_"
  | .months => "monthsSince_"
  | .years => "yearsSince_"

/-- A question for the time since an event. -/
structure ElapsedRequest where
  unit : TimeUnit
  eventName : String
deriving DecidableEq, Repr

/-- The variable that holds the answer. -/
def ElapsedRequest.variableName (r : ElapsedRequest) : String :=
  r.unit.variableStem ++ r.eventName

end Paywall
