import Paywall.Proofs.Expression.Evaluation

/-!
# Faults come from the text

An expression may also be answered in one pass over its clauses: each is read and answered before
the next one is read, and none is left out because the result is decided already. The pass gives the
same answers. A scope has no part in the faults: in every scope an expression has the fault of its
first clause that cannot be read, and an answer if there is no such clause.
-/

namespace Paywall.Expression

/-! ## Answers in one pass -/

/-- The texts of the clauses, in the alternatives of an expression. -/
def alternativesOf (text : String) : List (List (List Char)) :=
  (Connective.or.split text.toList).map Connective.and.split

/-- Reads a clause and answers it. -/
def Clause.answer (scope : Scope) (cs : List Char) : Except Fault Bool := do
  let clause ← parse cs
  return clause.holds scope

/-- Answers all clauses of an alternative, also those behind one that does not hold. -/
def answerAll (scope : Scope) (clauses : List (List Char)) : Except Fault Bool :=
  clauses.foldlM (fun all cs => do
    let b ← Clause.answer scope cs
    return all && b) true

/-- Answers all alternatives, also those behind one that holds. -/
def answerAny (scope : Scope) (alternatives : List (List (List Char))) : Except Fault Bool :=
  alternatives.foldlM (fun any clauses => do
    let b ← answerAll scope clauses
    return any || b) false

/-- Reading one after the other and then answering is the same as doing both in turn. -/
theorem foldlM_eq_map_mapM {ε α β : Type} {f : α → Except ε β} {answer : α → Except ε Bool}
    {holds : β → Bool} (op : Bool → Bool → Bool) (h : ∀ x, answer x = (f x).map holds)
    (xs : List α) (b : Bool) :
    xs.foldlM (fun b x => do
        let c ← answer x
        return op b c) b =
      (xs.mapM f).map fun ys => (ys.map holds).foldl op b := by
  induction xs generalizing b with
  | nil => rfl
  | cons x xs ih =>
    rw [List.foldlM_cons, List.mapM_cons, h]
    cases hx : f x with
    | error e => rfl
    | ok y =>
      show xs.foldlM _ (op b (holds y)) = _
      rw [ih]
      cases hxs : xs.mapM f <;> rfl

theorem foldl_and (bs : List Bool) (b : Bool) : bs.foldl (· && ·) b = (b && bs.all id) := by
  induction bs generalizing b with
  | nil => simp
  | cons c bs ih => rw [List.foldl_cons, ih, List.all_cons, Bool.and_assoc, id]

theorem foldl_or (bs : List Bool) (b : Bool) : bs.foldl (· || ·) b = (b || bs.any id) := by
  induction bs generalizing b with
  | nil => simp
  | cons c bs ih => rw [List.foldl_cons, ih, List.any_cons, Bool.or_assoc, id]

theorem answerAll_eq (scope : Scope) (clauses : List (List Char)) :
    answerAll scope clauses =
      (clauses.mapM Clause.parse).map fun row => row.all fun c => c.holds scope := by
  have hanswer : ∀ cs, Clause.answer scope cs = (Clause.parse cs).map (Clause.holds scope) := by
    intro cs
    unfold Clause.answer
    cases Clause.parse cs <;> rfl
  unfold answerAll
  rw [foldlM_eq_map_mapM (· && ·) hanswer]
  simp [foldl_and]

/-- One pass gives the answer that is given after the whole text has been read. -/
theorem evaluate_eq_answerAny (text : String) (scope : Scope) :
    evaluate text scope =
      (answerAny scope (alternativesOf text)).mapError fun fault => .parse text fault.message := by
  have hparse : parse text.toList =
      (alternativesOf text).mapM fun clauses => clauses.mapM Clause.parse := by
    rw [alternativesOf, List.mapM_map]
    rfl
  have hpass : answerAny scope (alternativesOf text) =
      (parse text.toList).map fun formula => formula.holds scope := by
    unfold answerAny
    rw [foldlM_eq_map_mapM (· || ·) (answerAll_eq scope), ← hparse]
    simp [foldl_or, Formula.holds]
  rw [hpass, evaluate]
  cases parse text.toList <;> rfl

/-! ## Faults -/

/-- Why a computation gives no result. -/
def failure? {ε α : Type} : Except ε α → Option ε
  | .ok _ => none
  | .error e => some e

/-- If every step has a failure of its own, a run fails by the first of them. -/
theorem failure?_foldlM {ε α β : Type} {step : β → α → Except ε β} {own? : α → Option ε}
    (h : ∀ b x, failure? (step b x) = own? x) (xs : List α) (b : β) :
    failure? (xs.foldlM step b) = xs.findSome? own? := by
  induction xs generalizing b with
  | nil => rfl
  | cons x xs ih =>
    have hx := h b x
    rw [List.foldlM_cons, List.findSome?_cons, ← hx]
    cases step b x with
    | error e => rfl
    | ok c => exact ih c

/-- Why a text is not a clause. -/
def Clause.fault? (cs : List Char) : Option Fault := failure? (parse cs)

theorem failure?_answerAll (scope : Scope) (clauses : List (List Char)) :
    failure? (answerAll scope clauses) = clauses.findSome? Clause.fault? := by
  refine failure?_foldlM (fun b cs => ?_) clauses true
  unfold Clause.answer Clause.fault?
  cases Clause.parse cs <;> rfl

theorem failure?_answerAny (scope : Scope) (alternatives : List (List (List Char))) :
    failure? (answerAny scope alternatives) =
      alternatives.findSome? fun clauses => clauses.findSome? Clause.fault? := by
  refine failure?_foldlM (fun b clauses => ?_) alternatives false
  rw [← failure?_answerAll scope]
  cases answerAll scope clauses <;> rfl

/-- The texts of all clauses, in the order of the expression. -/
def clausesOf (text : String) : List (List Char) := (alternativesOf text).flatten

theorem findSome?_flatten {α β : Type} (f : α → Option β) (xss : List (List α)) :
    xss.flatten.findSome? f = xss.findSome? fun xs => xs.findSome? f := by
  induction xss with
  | nil => rfl
  | cons xs xss ih =>
    rw [List.flatten_cons, List.findSome?_append, ih, List.findSome?_cons]
    cases xs.findSome? f <;> rfl

/-- The scope stands on one side only. -/
theorem failure?_evaluate (text : String) (scope : Scope) :
    failure? (evaluate text scope) =
      ((clausesOf text).findSome? Clause.fault?).map fun fault => .parse text fault.message := by
  rw [evaluate_eq_answerAny, clausesOf, findSome?_flatten, ← failure?_answerAny scope]
  cases answerAny scope (alternativesOf text) <;> rfl

theorem failure?_eq_some_iff {ε α : Type} {x : Except ε α} {e : ε} :
    failure? x = some e ↔ x = .error e := by
  cases x <;> simp [failure?]

theorem failure?_eq_none_iff {ε α : Type} {x : Except ε α} :
    failure? x = none ↔ ∃ a, x = .ok a := by
  cases x <;> simp [failure?]

/-- An expression has an answer in every scope or in none, and then the same error in all of them:
it names the fault of the first clause that cannot be read. One such clause is enough, whatever the
clauses in front of it have decided. -/
theorem evaluate_answered_or_same_error (text : String) (s t : Scope) :
    ((∃ a b, evaluate text s = .ok a ∧ evaluate text t = .ok b) ∨
      ∃ e, evaluate text s = .error e ∧ evaluate text t = .error e) ∧
    ((∃ e, evaluate text s = .error e) ↔
      ∃ c ∈ clausesOf text, ∃ fault, Clause.parse c = .error fault) ∧
    ∀ e, evaluate text s = .error e ↔
      ∃ before c after fault, clausesOf text = before ++ c :: after ∧
        (∀ d ∈ before, ∃ clause, Clause.parse d = .ok clause) ∧
        Clause.parse c = .error fault ∧ e = .parse text fault.message := by
  have hs := failure?_evaluate text s
  have ht := failure?_evaluate text t
  refine ⟨?_, ?_, fun e => ?_⟩
  · cases hfirst : (clausesOf text).findSome? Clause.fault? with
    | none =>
      rw [hfirst] at hs ht
      obtain ⟨a, ha⟩ := failure?_eq_none_iff.mp hs
      obtain ⟨b, hb⟩ := failure?_eq_none_iff.mp ht
      exact .inl ⟨a, b, ha, hb⟩
    | some fault =>
      rw [hfirst] at hs ht
      exact .inr ⟨_, failure?_eq_some_iff.mp hs, failure?_eq_some_iff.mp ht⟩
  · simp only [← failure?_eq_some_iff, hs, ← Option.isSome_iff_exists, Option.isSome_map,
      List.findSome?_isSome_iff]
    rfl
  · rw [← failure?_eq_some_iff, hs, Option.map_eq_some_iff]
    simp only [List.findSome?_eq_some_iff, Clause.fault?, failure?_eq_some_iff,
      failure?_eq_none_iff]
    constructor
    · rintro ⟨fault, ⟨before, c, after, hsplit, hc, hbefore⟩, rfl⟩
      exact ⟨before, c, after, fault, hsplit, hbefore, hc, rfl⟩
    · rintro ⟨before, c, after, fault, hsplit, hbefore, hc, rfl⟩
      exact ⟨fault, ⟨before, c, after, hsplit, hc, hbefore⟩, rfl⟩

example (scope : Scope) : evaluate "true || user.level >" scope =
    .error (.parse "true || user.level >" "comparison is missing an operand") := rfl

end Paywall.Expression
