/-!
# Cache keys

A paywall is cached under what was asked for and the locale.
-/

namespace Paywall

/-- Stands for a request that names neither a paywall nor an event. -/
def calledManually : String := "$called_manually"

/-- The key of a request: the identifier of the paywall, else the name of the event, with the
locale. -/
def requestKey (identifier eventName : Option String) (locale : String) : String :=
  (identifier <|> eventName).getD calledManually ++ "_" ++ locale

end Paywall
