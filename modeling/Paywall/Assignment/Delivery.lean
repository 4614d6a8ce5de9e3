import Paywall.Assignment.Session

/-!
# Delivering confirmations

What a call has confirmed is handed to a postback, one confirmation after the other, as soon as the
call is done. No store waits for that, and none learns whether it went well.
-/

namespace Paywall

/-- What takes a confirmation to the server. -/
abbrev Postback := ConfirmableAssignment → Except PostError Unit

/-- A step of a session, with what is seen of it. -/
structure Exchange where
  /-- The session that the step was taken in. -/
  before : StoreSession
  step : StoreStep
  answer : Option StoreAnswer
  /-- The confirmations that were handed over, and what became of them. -/
  posts : List (ConfirmableAssignment × Except PostError Unit)

namespace StoreSession

/-- Hands over what waits in the outbox. -/
def deliver (t : StoreSession) (post : Postback) :
    List (ConfirmableAssignment × Except PostError Unit) × StoreSession :=
  match t with
  | .opened s =>
    let (waiting, s) := s.takeOutbox
    (waiting.map fun a => (a, post a), .opened s)
  | .closed record => ([], .closed record)

/-- Takes a step and delivers what it has confirmed. -/
def exchange (t : StoreSession) (step : StoreStep) (post : Postback) : Exchange × StoreSession :=
  let (answer, u) := t.perform step
  let (posts, u) := u.deliver post
  (⟨t, step, answer, posts⟩, u)

/-- Takes the steps of a list, each with the postback that it finds. -/
def converse (t : StoreSession) : List (StoreStep × Postback) → List Exchange × StoreSession
  | [] => ([], t)
  | (step, post) :: steps =>
    let (x, u) := t.exchange step post
    let (xs, u) := u.converse steps
    (x :: xs, u)

end StoreSession

end Paywall
