import Mathlib.Data.List.Forall2
import Paywall.Expression
import Paywall.Proofs.Expression.Connective

/-!
# An expression says what its clauses say

Clauses are joined by `&&` to alternatives and these by `||` to an expression. If the clauses keep
connectives inside quotes, and close these, the expression holds if all clauses of some alternative
hold by themselves, and otherwise it has the fault of the first clause that has one.
-/

namespace Paywall.Expression

/-! ## Reading one after the other -/

section

variable {ε α β : Type} {f : α → Except ε β}

theorem forall₂_of_mapM_eq_ok {xs : List α} {ys : List β} (h : xs.mapM f = .ok ys) :
    List.Forall₂ (fun x y => f x = .ok y) xs ys := by
  induction xs generalizing ys with
  | nil =>
    cases h
    exact .nil
  | cons x xs ih =>
    rw [List.mapM_cons] at h
    cases hx : f x with
    | error e =>
      rw [hx] at h
      cases h
    | ok y =>
      cases hxs : xs.mapM f with
      | error e =>
        rw [hx, hxs] at h
        cases h
      | ok rest =>
        rw [hx, hxs] at h
        cases h
        exact .cons hx (ih hxs)

theorem exists_of_mapM_eq_ok {xs : List α} {ys : List β} (h : xs.mapM f = .ok ys) :
    ∀ x ∈ xs, ∃ y, f x = .ok y := by
  have hall : List.Forall₂ (fun x y => (∃ z, f x = .ok z) ∧ f x = .ok y) xs ys :=
    (forall₂_of_mapM_eq_ok h).imp fun _ y hxy => ⟨⟨y, hxy⟩, hxy⟩
  exact ((List.forall₂_and_left _ _).mp hall).1

/-- The first error is reported. -/
theorem exists_of_mapM_eq_error {xs : List α} {e : ε} (h : xs.mapM f = .error e) :
    ∃ before x after, xs = before ++ x :: after ∧ (∀ y ∈ before, ∃ b, f y = .ok b) ∧
      f x = .error e := by
  induction xs with
  | nil => cases h
  | cons x xs ih =>
    rw [List.mapM_cons] at h
    cases hx : f x with
    | error e' =>
      rw [hx] at h
      cases h
      exact ⟨[], x, xs, rfl, List.forall_mem_nil _, hx⟩
    | ok y =>
      cases hxs : xs.mapM f with
      | ok rest =>
        rw [hx, hxs] at h
        cases h
      | error e' =>
        rw [hx, hxs] at h
        cases h
        obtain ⟨before, z, after, rfl, hbefore, hz⟩ := ih hxs
        exact ⟨x :: before, z, after, rfl, List.forall_mem_cons.mpr ⟨⟨y, hx⟩, hbefore⟩, hz⟩

end

/-! ## Single clauses -/

/-- The characters of connectives. -/
def connectiveMarks : List Char := ['&', '|']

theorem mark_mem_connectiveMarks (k : Connective) : k.mark ∈ connectiveMarks := by
  cases k <;> decide

/-- A text without a connective is one clause. -/
theorem parse_of_enclosed {cs : List Char} (h : Enclosed connectiveMarks cs) :
    parse cs = (Clause.parse cs).map fun clause => [[clause]] := by
  rw [parse, Connective.split_of_enclosed (mark_mem_connectiveMarks .or) h, List.mapM_cons,
    Connective.split_of_enclosed (mark_mem_connectiveMarks .and) h, List.mapM_cons]
  cases Clause.parse cs <;> rfl

theorem evaluate_of_parse {text : String} {clause : Clause}
    (h : parse text.toList = .ok [[clause]]) (scope : Scope) :
    evaluate text scope = .ok (clause.holds scope) := by
  unfold evaluate
  rw [h]
  simp [Formula.holds]

theorem evaluate_of_enclosed {text : String} (h : Enclosed connectiveMarks text.toList)
    (scope : Scope) :
    evaluate text scope = match Clause.parse text.toList with
      | .ok clause => .ok (clause.holds scope)
      | .error fault => .error (.parse text fault.message) := by
  have hparse := parse_of_enclosed h
  cases hclause : Clause.parse text.toList with
  | error fault =>
    rw [hclause] at hparse
    simp only [evaluate, hparse, Except.map]
  | ok clause =>
    rw [hclause] at hparse
    exact evaluate_of_parse hparse scope

theorem evaluate_eq_ok_iff {text : String} (h : Enclosed connectiveMarks text.toList)
    {scope : Scope} {b : Bool} :
    evaluate text scope = .ok b ↔
      ∃ clause, Clause.parse text.toList = .ok clause ∧ clause.holds scope = b := by
  rw [evaluate_of_enclosed h]
  cases Clause.parse text.toList <;> simp

/-! ## Alternatives of clauses -/

/-- The text of alternatives. -/
def joined (alternatives : List (List String)) : String :=
  "||".intercalate (alternatives.map fun clauses => "&&".intercalate clauses)

/-- Whether texts can be joined and found again: there are some in each alternative, and they have
connectives only inside quotes. -/
structure Joinable (alternatives : List (List String)) : Prop where
  alternatives_ne_nil : alternatives ≠ []
  clauses_ne_nil : ∀ clauses ∈ alternatives, clauses ≠ []
  enclosed : ∀ clauses ∈ alternatives, ∀ c ∈ clauses, Enclosed connectiveMarks c.toList

instance : DecidablePred Joinable := fun alternatives =>
  decidable_of_iff
    (alternatives ≠ [] ∧ (∀ clauses ∈ alternatives, clauses ≠ []) ∧
      ∀ clauses ∈ alternatives, ∀ c ∈ clauses, Enclosed connectiveMarks c.toList)
    ⟨fun ⟨hne, hclauses, henclosed⟩ => ⟨hne, hclauses, henclosed⟩,
      fun h => ⟨h.alternatives_ne_nil, h.clauses_ne_nil, h.enclosed⟩⟩

variable {alternatives : List (List String)} {scope : Scope}

theorem toList_joined (alternatives : List (List String)) :
    (joined alternatives).toList = ['|', '|'].intercalate
      (alternatives.map fun clauses => ['&', '&'].intercalate (clauses.map String.toList)) := by
  unfold joined
  rw [String.toList_intercalate, List.map_map]
  refine congrArg _ (List.map_congr_left fun clauses _ => ?_)
  exact String.toList_intercalate

/-- The texts are found again. -/
theorem parts_joined (h : Joinable alternatives) :
    (Connective.or.split (joined alternatives).toList).map Connective.and.split =
      alternatives.map fun clauses => clauses.map String.toList := by
  have hclauses : ∀ clauses ∈ alternatives, ∀ part ∈ clauses.map String.toList,
      Enclosed connectiveMarks part := by
    intro clauses hmem
    exact List.forall_mem_map.mpr (h.enclosed clauses hmem)
  have halternatives : ∀ part ∈ alternatives.map fun clauses =>
      ['&', '&'].intercalate (clauses.map String.toList), Enclosed ['|'] part := by
    refine List.forall_mem_map.mpr fun clauses hmem => ?_
    have hands : Enclosed ['|'] ['&', '&'] :=
      .plain rfl (by decide) (.plain rfl (by decide) .nil)
    exact hands.intercalate fun part hpart =>
      (hclauses clauses hmem part hpart).of_subset (by decide)
  have hor := Connective.split_intercalate (k := .or) (by decide)
    (List.map_eq_nil_iff.not.mpr h.alternatives_ne_nil) halternatives
  rw [toList_joined]
  refine (congrArg (List.map Connective.and.split) hor).trans ?_
  rw [List.map_map]
  refine List.map_congr_left fun clauses hmem => ?_
  exact Connective.split_intercalate (k := .and) (mark_mem_connectiveMarks .and)
    (List.map_eq_nil_iff.not.mpr (h.clauses_ne_nil clauses hmem)) (hclauses clauses hmem)

theorem parse_joined (h : Joinable alternatives) :
    parse (joined alternatives).toList =
      alternatives.mapM fun clauses => clauses.mapM fun c => Clause.parse c.toList := by
  have hparse : parse (joined alternatives).toList =
      ((Connective.or.split (joined alternatives).toList).map Connective.and.split).mapM
        fun clauses => clauses.mapM Clause.parse := by
    rw [List.mapM_map]
    rfl
  rw [hparse, parts_joined h, List.mapM_map]
  simp only [Function.comp_def, List.mapM_map]

/-! ## What holds and what is at fault -/

theorem forall_holds_iff {clauses : List String} {row : List Clause}
    (henclosed : ∀ c ∈ clauses, Enclosed connectiveMarks c.toList)
    (h : List.Forall₂ (fun c clause => Clause.parse c.toList = .ok clause) clauses row) :
    row.all (fun clause => clause.holds scope) = true ↔
      ∀ c ∈ clauses, evaluate c scope = .ok true := by
  induction h with
  | nil => simp
  | @cons c clause _ _ hc _ ih =>
    obtain ⟨hhead, hrest⟩ := List.forall_mem_cons.mp henclosed
    have hclause : clause.holds scope = true ↔ evaluate c scope = .ok true := by
      rw [evaluate_of_enclosed hhead, hc, Except.ok.injEq]
    rw [List.all_cons, Bool.and_eq_true, hclause, ih hrest, List.forall_mem_cons]

theorem holds_iff {formula : Formula}
    (henclosed : ∀ clauses ∈ alternatives, ∀ c ∈ clauses, Enclosed connectiveMarks c.toList)
    (h : List.Forall₂
      (List.Forall₂ fun c clause => Clause.parse c.toList = .ok clause) alternatives formula) :
    formula.holds scope = true ↔
      ∃ clauses ∈ alternatives, ∀ c ∈ clauses, evaluate c scope = .ok true := by
  unfold Formula.holds
  induction h with
  | nil => simp
  | cons hrow _ ih =>
    obtain ⟨hhead, hrest⟩ := List.forall_mem_cons.mp henclosed
    rw [List.any_cons, Bool.or_eq_true, forall_holds_iff hhead hrow, ih hrest,
      List.exists_mem_cons_iff]

/-- If an expression can be read, so can its clauses. -/
theorem evaluate_ok_of_parse_joined (h : Joinable alternatives) (scope : Scope)
    {formula : Formula} (hparse : parse (joined alternatives).toList = .ok formula) :
    ∀ clauses ∈ alternatives, ∀ c ∈ clauses, ∃ b, evaluate c scope = .ok b := by
  rw [parse_joined h] at hparse
  intro clauses hclauses c hc
  obtain ⟨row, hrow⟩ := exists_of_mapM_eq_ok hparse clauses hclauses
  obtain ⟨clause, hclause⟩ := exists_of_mapM_eq_ok hrow c hc
  exact ⟨_, (evaluate_eq_ok_iff (h.enclosed clauses hclauses c hc)).mpr ⟨clause, hclause, rfl⟩⟩

/-- If joined clauses cannot be read, that is the fault of the first clause that cannot. -/
theorem exists_fault_of_parse_joined (h : Joinable alternatives) (scope : Scope) {fault : Fault}
    (hparse : parse (joined alternatives).toList = .error fault) :
    ∃ before c after, alternatives.flatten = before ++ c :: after ∧
      (∀ d ∈ before, ∃ b, evaluate d scope = .ok b) ∧
      evaluate c scope = .error (.parse c fault.message) := by
  rw [parse_joined h] at hparse
  obtain ⟨earlier, clauses, later, hsplit, hearlier, hclauses⟩ := exists_of_mapM_eq_error hparse
  obtain ⟨before, c, after, rfl, hbefore, hc⟩ := exists_of_mapM_eq_error hclauses
  have henclosed := h.enclosed
  rw [hsplit, List.forall_mem_append, List.forall_mem_cons, List.forall_mem_append,
    List.forall_mem_cons] at henclosed
  obtain ⟨hearlierEnclosed, ⟨hbeforeEnclosed, hcEnclosed, -⟩, -⟩ := henclosed
  refine ⟨earlier.flatten ++ before, c, after ++ later.flatten, ?_, ?_, ?_⟩
  · rw [hsplit]
    simp
  · refine List.forall_mem_append.mpr ⟨fun d hd => ?_, fun d hd => ?_⟩
    · obtain ⟨row, hrow, hd⟩ := List.mem_flatten.mp hd
      obtain ⟨parsed, hparsed⟩ := hearlier row hrow
      obtain ⟨clause, hclause⟩ := exists_of_mapM_eq_ok hparsed d hd
      exact ⟨_, (evaluate_eq_ok_iff (hearlierEnclosed row hrow d hd)).mpr ⟨clause, hclause, rfl⟩⟩
    · obtain ⟨clause, hclause⟩ := hbefore d hd
      exact ⟨_, (evaluate_eq_ok_iff (hbeforeEnclosed d hd)).mpr ⟨clause, hclause, rfl⟩⟩
  · rw [evaluate_of_enclosed hcEnclosed, hc]

/-- If every clause has an answer by itself, the expression holds exactly if all clauses of some
alternative hold. Otherwise the expression has the fault of the first clause without an answer. -/
theorem evaluate_joined (h : Joinable alternatives) (scope : Scope) :
    ((∀ clauses ∈ alternatives, ∀ c ∈ clauses, ∃ b, evaluate c scope = .ok b) →
      ∃ b, evaluate (joined alternatives) scope = .ok b ∧
        (b = true ↔ ∃ clauses ∈ alternatives, ∀ c ∈ clauses, evaluate c scope = .ok true)) ∧
    ((∃ clauses ∈ alternatives, ∃ c ∈ clauses, ∃ e, evaluate c scope = .error e) →
      ∃ before c after reason, alternatives.flatten = before ++ c :: after ∧
        (∀ d ∈ before, ∃ b, evaluate d scope = .ok b) ∧
        evaluate c scope = .error (.parse c reason) ∧
        evaluate (joined alternatives) scope = .error (.parse (joined alternatives) reason)) := by
  cases hparse : parse (joined alternatives).toList with
  | ok formula =>
    have hall := evaluate_ok_of_parse_joined h scope hparse
    have hformula := parse_joined h ▸ hparse
    have hrows := (forall₂_of_mapM_eq_ok hformula).imp fun _ _ hrow => forall₂_of_mapM_eq_ok hrow
    constructor
    · intro _
      refine ⟨formula.holds scope, ?_, holds_iff h.enclosed hrows⟩
      simp only [evaluate, hparse]
    · rintro ⟨clauses, hclauses, c, hc, e, he⟩
      obtain ⟨b, hb⟩ := hall clauses hclauses c hc
      rw [he] at hb
      cases hb
  | error fault =>
    obtain ⟨before, c, after, hflatten, hbefore, hc⟩ :=
      exists_fault_of_parse_joined h scope hparse
    constructor
    · intro hall
      have hmem : c ∈ alternatives.flatten := by simp [hflatten]
      obtain ⟨clauses, hclauses, hcmem⟩ := List.mem_flatten.mp hmem
      obtain ⟨b, hb⟩ := hall clauses hclauses c hcmem
      rw [hc] at hb
      cases hb
    · intro _
      refine ⟨before, c, after, fault.message, hflatten, hbefore, hc, ?_⟩
      simp only [evaluate, hparse]

/-- Clauses with connectives and with the other quote inside their quotes. -/
def quotedClauses : List (List String) :=
  [["params.plan == 'pro || \"trial\"'", " user.beta "], ["user.name != \"it's && so\"", "true"]]

/-- Clauses of which the second and the last cannot be read. -/
def spoiledClauses : List (List String) := [["user.beta", "user.level >= "], ["true", ""]]

/-- The first clauses together hold as they do by themselves; of the others the second is at
fault. -/
theorem evaluate_joined_quotedClauses :
    let scope : Scope := ⟨Table.empty.insert "beta" (.bool true), ∅, ∅⟩
    Joinable quotedClauses ∧
      (∀ clauses ∈ quotedClauses, ∀ c ∈ clauses, ∃ b, evaluate c scope = .ok b) ∧
      (∃ b, evaluate (joined quotedClauses) scope = .ok b ∧
        (b = true ↔ ∃ clauses ∈ quotedClauses, ∀ c ∈ clauses, evaluate c scope = .ok true)) ∧
      Joinable spoiledClauses ∧
      (∃ clauses ∈ spoiledClauses, ∃ c ∈ clauses, ∃ e, evaluate c scope = .error e) ∧
      ∃ before c after reason, spoiledClauses.flatten = before ++ c :: after ∧
        (∀ d ∈ before, ∃ b, evaluate d scope = .ok b) ∧
        evaluate c scope = .error (.parse c reason) ∧
        evaluate (joined spoiledClauses) scope =
          .error (.parse (joined spoiledClauses) reason) := by
  intro scope
  have hquoted : Joinable quotedClauses := by decide +kernel
  have hspoiled : Joinable spoiledClauses := by decide +kernel
  have hanswers : ∀ clauses ∈ quotedClauses, ∀ c ∈ clauses, ∃ b, evaluate c scope = .ok b := by
    simp only [quotedClauses, List.forall_mem_cons]
    exact ⟨⟨⟨_, rfl⟩, ⟨_, rfl⟩, List.forall_mem_nil _⟩,
      ⟨⟨_, rfl⟩, ⟨_, rfl⟩, List.forall_mem_nil _⟩, List.forall_mem_nil _⟩
  have hfault : ∃ clauses ∈ spoiledClauses, ∃ c ∈ clauses, ∃ e, evaluate c scope = .error e :=
    ⟨_, List.mem_cons_self .., _, List.mem_cons_of_mem _ (List.mem_cons_self ..), _, rfl⟩
  exact ⟨hquoted, hanswers, (evaluate_joined hquoted scope).1 hanswers, hspoiled, hfault,
    (evaluate_joined hspoiled scope).2 hfault⟩

end Paywall.Expression
