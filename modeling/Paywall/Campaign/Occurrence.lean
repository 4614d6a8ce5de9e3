import Paywall.Time.Instant

/-!
# Throttles

A throttled rule matches at most a number of times within a window of time. The windows end now;
`Window.start` says where they begin.
-/

namespace Paywall

/-- A stretch of time that ends now. -/
inductive Window where
  | sinceInstall
  | last30Days
  | last7Days
  | last24Hours
  | currentSession
  | today
deriving DecidableEq, Repr

/-- The earliest instant in the window, `none` if it has no beginning. A session that is not known
begins now. -/
def Window.start (w : Window) (now : Instant) (sessionStart : Option Instant) : Option Instant :=
  match w with
  | .sinceInstall => none
  | .last30Days => some (now.back (30 * secondsPerDay))
  | .last7Days => some (now.back (7 * secondsPerDay))
  | .last24Hours => some (now.back secondsPerDay)
  | .currentSession => some (sessionStart.getD now)
  | .today => some now.midnight

/-- A limit on how often a rule may match. -/
structure Occurrence where
  /-- The name under which firings are counted. -/
  key : String
  maxCount : UInt32
  window : Window
deriving DecidableEq, Repr

end Paywall
