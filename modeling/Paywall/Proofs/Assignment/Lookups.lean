import Paywall.Proofs.Assignment.Store
import Paywall.Assignment.Session

/-!
# Looking up an assignment is free

As long as an experiment has an assignment, to resolve it is a look-up: it gives the assignment and
leaves the store as it is, down to the generator. So resolves of that kind may be put into a run
anywhere, as many as one likes, and the steps of the run itself do not notice: each gives the same
answer and leaves the same session behind.
-/

namespace Paywall

/-- A step of a run, or a resolve that was put into it. -/
inductive MarkedStep where
  | own (step : StoreStep)
  | extra (e : Experiment)

namespace MarkedStep

/-- The step that is taken. -/
def step : MarkedStep → StoreStep
  | .own step => step
  | .extra e => .call (.resolve e)

/-- Of what is listed for some steps, that for the steps of the run itself. -/
def ownPart {α : Type} : List MarkedStep → List α → List α
  | .own _ :: xs, y :: ys => y :: ownPart xs ys
  | .extra _ :: xs, _ :: ys => ownPart xs ys
  | _, _ => []

/-- All steps. -/
def padded (xs : List MarkedStep) : List StoreStep := xs.map step

/-- The steps of the run itself. -/
def plain (xs : List MarkedStep) : List StoreStep := ownPart xs (padded xs)

end MarkedStep

namespace StoreSession

open MarkedStep (ownPart padded plain)

variable {t : StoreSession}

/-- The variant that is held of an experiment, if a store is open. -/
def held? (t : StoreSession) (id : String) : Option Variant :=
  match t with
  | .opened s => s.held? id
  | .closed _ => none

/-- The answers of a run, each with the session behind it. -/
def trace (t : StoreSession) : List StoreStep → List (Option StoreAnswer × StoreSession)
  | [] => []
  | step :: steps => t.perform step :: (t.perform step).2.trace steps

/-- Whether resolves are put into a run only where their experiments have an assignment. -/
def Admits (t : StoreSession) : List MarkedStep → Prop
  | [] => True
  | .own step :: xs => (t.perform step).2.Admits xs
  | .extra e :: xs => (t.held? e.id).isSome ∧ t.Admits xs

theorem perform_resolve_held {s : AssignmentStore} {e : Experiment} {v : Variant}
    (h : s.held? e.id = some v) :
    (opened s).perform (.call (.resolve e)) =
      (some (.resolved (.ok ⟨v, (s.confirmed.get? e.id).isNone⟩)), .opened s) := by
  simp only [perform, AssignmentStore.perform]
  rw [AssignmentStore.resolve_held h]
  rfl

/-- A resolve of an experiment with an assignment changes nothing in the session. -/
theorem perform_resolve_snd {e : Experiment} (h : (t.held? e.id).isSome) :
    (t.perform (.call (.resolve e))).2 = t := by
  obtain ⟨v, hv⟩ := Option.isSome_iff_exists.mp h
  cases t with
  | closed record => cases hv
  | opened s => rw [perform_resolve_held hv]

/-- The steps of the run itself answer as they would without the rest, and leave the same behind. -/
theorem ownPart_trace {xs : List MarkedStep} (h : t.Admits xs) :
    ownPart xs (t.trace (padded xs)) = t.trace (plain xs) := by
  induction xs generalizing t with
  | nil => rfl
  | cons x xs ih =>
    cases x with
    | own step => exact congrArg (t.perform step :: ·) (ih h)
    | extra e =>
      obtain ⟨hheld, hrest⟩ := h
      change ownPart xs ((t.perform (.call (.resolve e))).2.trace (padded xs)) = t.trace (plain xs)
      rw [perform_resolve_snd hheld]
      exact ih hrest

theorem run_padded {xs : List MarkedStep} (h : t.Admits xs) :
    t.run (padded xs) = t.run (plain xs) := by
  induction xs generalizing t with
  | nil => rfl
  | cons x xs ih =>
    cases x with
    | own step => exact ih h
    | extra e =>
      obtain ⟨hheld, hrest⟩ := h
      change (t.perform (.call (.resolve e))).2.run (padded xs) = t.run (plain xs)
      rw [perform_resolve_snd hheld]
      exact ih hrest

/-- At any point of any run: an experiment with an assignment resolves to it, the confirmed one if it
has both, whatever variants come with the call, and maps, record and generator are left as they are.
So resolves of that kind may be put into a run anywhere without any change for its own steps: every
one gives the same answer and leaves the same maps, record and generator behind. -/
theorem resolves_are_free (t : StoreSession) :
    (∀ s e v, t = .opened s → s.held? e.id = some v →
      t.perform (.call (.resolve e)) =
        (some (.resolved (.ok ⟨v, (s.confirmed.get? e.id).isNone⟩)), t)) ∧
    (∀ xs, t.Admits xs →
      ownPart xs (t.trace (padded xs)) = t.trace (plain xs) ∧
        t.run (padded xs) = t.run (plain xs)) := by
  constructor
  · rintro s e v rfl hv
    exact perform_resolve_held hv
  · intro xs hxs
    exact ⟨ownPart_trace hxs, run_padded hxs⟩

/-- A run that draws a variant, confirms it and draws once more. After the draw and after the
confirmation the experiment is resolved again, with another variant and with none. -/
def interrupted : List MarkedStep :=
  let v : VariantOption := ⟨"v", 1.0, .treatment, some "p"⟩
  let w : VariantOption := ⟨"w", 2.0, .holdout, none⟩
  [.own (.reopen 1), .own (.call (.resolve ⟨"e", "g", [v]⟩)), .extra ⟨"e", "other", [w]⟩,
    .own (.call (.confirm ⟨"e", v.toVariant⟩)), .extra ⟨"e", "g", []⟩, .extra ⟨"e", "g", [v, w]⟩,
    .own (.call (.resolve ⟨"f", "g", [v, w]⟩))]

/-- The general theorem at this run, and at the point where the variant is drawn. -/
theorem resolves_are_free_interrupted :
    let t := closed (.ofStored ∅)
    (∃ s, t.run ((plain interrupted).take 2) = .opened s ∧
      s.held? "e" = some ⟨"v", .treatment, some "p"⟩ ∧
      (opened s).perform (.call (.resolve ⟨"e", "other", []⟩)) =
        (some (.resolved (.ok ⟨⟨"v", .treatment, some "p"⟩, true⟩)), .opened s)) ∧
    t.Admits interrupted ∧
      ownPart interrupted (t.trace (padded interrupted)) = t.trace (plain interrupted) ∧
      t.run (padded interrupted) = t.run (plain interrupted) := by
  intro t
  have hadmits : t.Admits interrupted := And.intro rfl (And.intro rfl (And.intro rfl trivial))
  refine ⟨⟨_, rfl, rfl, ?_⟩, hadmits, (resolves_are_free t).2 interrupted hadmits⟩
  exact (resolves_are_free _).1 _ ⟨"e", "other", []⟩ _ rfl rfl

end StoreSession

end Paywall
