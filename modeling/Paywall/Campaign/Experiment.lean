import Paywall.Table

/-!
# Experiments

An experiment offers variants with weights; a user is assigned to one of them. A treatment shows a
paywall, a holdout shows nothing.
-/

namespace Paywall

/-- Whether a variant shows a paywall. -/
inductive VariantKind where
  | treatment
  | holdout
deriving DecidableEq, Repr

/-- A variant that a user is assigned to. -/
structure Variant where
  id : String
  kind : VariantKind
  /-- The paywall that a treatment shows. -/
  paywallId : Option String
deriving DecidableEq, Repr

/-- A variant as it is offered. -/
structure VariantOption where
  id : String
  /-- How likely the variant is drawn, relative to the others. -/
  weight : Float
  kind : VariantKind
  paywallId : Option String

/-- The variant without its weight. -/
def VariantOption.toVariant (o : VariantOption) : Variant := ⟨o.id, o.kind, o.paywallId⟩

/-- A choice between variants. -/
structure Experiment where
  id : String
  groupId : String
  variants : List VariantOption

/-- Whether a variant of that name is offered. -/
def Experiment.hasVariant (e : Experiment) (variantId : String) : Bool :=
  e.variants.any fun v => v.id == variantId

/-- An experiment with the variant of this user. -/
structure AssignedExperiment where
  id : String
  groupId : String
  variant : Variant
deriving DecidableEq, Repr

/-- An assignment that can be confirmed. -/
structure ConfirmableAssignment where
  experimentId : String
  variant : Variant
deriving DecidableEq, Repr

/-- An assignment that the server knows about. -/
structure ServerAssignment where
  experimentId : String
  variantId : String
deriving DecidableEq, Repr

/-- Variants by experiment. -/
abbrev Assignments := Table Variant

end Paywall
