import Paywall.Assignment.Store

/-!
# Errors of a decision

What can keep a paywall from being presented. The errors of the parts turn into one type, which
loses no more than the wording needs.
-/

namespace Paywall

/-- Why a request to the decision core fails. -/
inductive PaywallError where
  | config (reason : String)
  | configUnavailable
  | assignment (reason : String)
  | persistence (reason : String)
  | transientFetch (key message : String)
  | paywallNotFound (identifier : String)
  | abandoned (key : String)
  | serialization (reason : String)
  | io (reason : String)
deriving DecidableEq, Repr

/-- The wording of an error. -/
def PaywallError.message : PaywallError → String
  | .config reason => "Configuration error: " ++ reason
  | .configUnavailable => "Config unavailable: no campaign model has been loaded"
  | .assignment reason => "Assignment error: " ++ reason
  | .persistence reason => "Assignment persistence error: " ++ reason
  | .transientFetch key message => "Paywall fetch failed for " ++ key ++ ": " ++ message
  | .paywallNotFound identifier => "Paywall not found: " ++ identifier
  | .abandoned key => "Request abandoned: " ++ key
  | .serialization reason => "Serialization error: " ++ reason
  | .io reason => "IO error: " ++ reason

/-- Why a paywall cannot be fetched. -/
inductive FetchError where
  | notFound (identifier : String)
  | configUnavailable
  | transient (key message : String)
deriving DecidableEq, Repr

/-- The wording of an error. -/
def FetchError.message : FetchError → String
  | .notFound identifier => "paywall " ++ identifier ++ " does not exist"
  | .configUnavailable => "no campaign config loaded"
  | .transient key message => "transient failure fetching " ++ key ++ ": " ++ message

/-- Why a caller of the cache gets no result. -/
inductive CacheError where
  | abandoned (key : String)
deriving DecidableEq, Repr

/-- The wording of an error. -/
def CacheError.message : CacheError → String
  | .abandoned key => "in-flight fetch for " ++ key ++ " ended without a result"

namespace PaywallError

/-- A failure of the assignment store. -/
def ofAssignment : AssignmentError → PaywallError
  | .persistence reason => .persistence reason
  | e => .assignment e.message

/-- A failure to fetch. -/
def ofFetch : FetchError → PaywallError
  | .notFound identifier => .paywallNotFound identifier
  | .configUnavailable => .configUnavailable
  | .transient key message => .transientFetch key message

/-- A failure of the cache. -/
def ofCache : CacheError → PaywallError
  | .abandoned key => .abandoned key

end PaywallError

end Paywall
