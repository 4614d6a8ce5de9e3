import Paywall.Json.Reader
import Paywall.Proofs.Json.Decode
import Paywall.Proofs.Json.Quote

/-!
# Reading written text

A value without numbers, over several lines, is read back as it was written, if its containers are
not nested more deeply than the reader allows. Writer and reader meet at the tokens of the value:
the text is cut into them, and the reader puts the value together from them.
-/

namespace Paywall.Json

/-- Made of texts, truth values and nulls, in containers nested at most `depth` levels deep. -/
inductive Verbal : Nat → Json → Prop where
  | null {depth : Nat} : Verbal depth .null
  | bool {depth : Nat} (b : Bool) : Verbal depth (.bool b)
  | string {depth : Nat} (s : String) : Verbal depth (.string s)
  | array {depth : Nat} {items : List Json} (hitems : ∀ j ∈ items, Verbal depth j) :
      Verbal (depth + 1) (.array items)
  | object {depth : Nat} {members : List (String × Json)}
      (hmembers : ∀ m ∈ members, Verbal depth m.2) : Verbal (depth + 1) (.object members)

mutual

/-- The tokens that a value is written with. -/
def tokens : Json → List Token
  | .array items => .openArray :: itemTokens items ++ [.closeArray]
  | .object members => .openObject :: memberTokens members ++ [.closeObject]
  | .string s => [.string (some s)]
  | j => [.scalar j]

/-- Items with commas between them. -/
def itemTokens : List Json → List Token
  | [] => []
  | [j] => tokens j
  | j :: rest => tokens j ++ .comma :: itemTokens rest

/-- Members with commas between them. -/
def memberTokens : List (String × Json) → List Token
  | [] => []
  | [(k, j)] => .string (some k) :: .colon :: tokens j
  | (k, j) :: rest => .string (some k) :: .colon :: tokens j ++ .comma :: memberTokens rest

end

/-! ## Cutting the text into tokens -/

/-- The tokens of a text, found in as many rounds as it has characters or more. -/
def Scans (cs : List Char) (ts : List Token) : Prop :=
  ∀ rounds, cs.length ≤ rounds → Token.scan.go rounds cs = some ts

namespace Scans

variable {cs rest : List Char} {c : Char} {t : Token} {ts : List Token}

theorem nil : Scans [] [] := by
  intro rounds _
  unfold Token.scan.go
  rfl

theorem space (hc : Token.isSpace c) (hcs : Scans cs ts) : Scans (c :: cs) ts := by
  intro rounds hrounds
  have hskip : (c :: cs).dropWhile Token.isSpace = cs.dropWhile Token.isSpace :=
    List.dropWhile_cons_of_pos hc
  have hgo := hcs rounds (Nat.le_of_succ_le hrounds)
  unfold Token.scan.go at hgo ⊢
  rwa [hskip]

/-- One token in front, and what is left is no longer than what stood behind its first character. -/
theorem token (hnext : Token.next? (c :: cs) = some (t, rest)) (hc : ¬ Token.isSpace c)
    (hshort : rest.length ≤ cs.length) (hrest : Scans rest ts) : Scans (c :: cs) (t :: ts) := by
  intro rounds hrounds
  have hkeep : (c :: cs).dropWhile Token.isSpace = c :: cs := List.dropWhile_cons_of_neg hc
  rw [List.length_cons] at hrounds
  obtain ⟨left, rfl⟩ : ∃ left, rounds = left + 1 := ⟨rounds - 1, by omega⟩
  have hgo := hrest left (by omega)
  unfold Token.scan.go
  simp only [hkeep, hnext, hgo, Option.bind_eq_bind, Option.bind_some]

theorem newline (depth : Nat) (hcs : Scans cs ts) : Scans (newline depth ++ cs) ts := by
  refine space rfl ?_
  induction 2 * depth with
  | zero => exact hcs
  | succ n ih => exact space rfl ih

theorem quote (s : String) (hcs : Scans cs ts) :
    Scans (quote s ++ cs) (.string (some s) :: ts) := by
  refine token (next?_quote s cs) (by decide) ?_ hcs
  simp
  omega

end Scans

/-- Wherever the value is written, it is cut into its tokens. -/
def Legible (j : Json) : Prop :=
  ∀ (depth : Nat) (cs : List Char) (ts : List Token), Scans cs ts →
    Scans (prettyChars depth j ++ cs) (tokens j ++ ts)

section

variable (depth : Nat) {cs : List Char} {ts : List Token} (hcs : Scans cs ts)

include hcs

theorem scans_items {items : List Json} (hitems : ∀ j ∈ items, Legible j) :
    Scans (prettyItems depth items ++ cs) (itemTokens items ++ ts) := by
  induction items with
  | nil => exact hcs
  | cons j rest ih =>
    have hj := hitems j (.head _)
    cases rest with
    | nil =>
      rw [prettyItems, itemTokens, List.append_assoc]
      exact (hj depth cs ts hcs).newline depth
    | cons k rest =>
      have hrest := ih fun i hi => hitems i (.tail _ hi)
      have hcomma : Scans (',' :: (prettyItems depth (k :: rest) ++ cs))
          (.comma :: (itemTokens (k :: rest) ++ ts)) :=
        hrest.token rfl (by decide) (Nat.le_refl _)
      simp only [prettyItems, itemTokens, List.append_assoc, List.cons_append]
      exact (hj depth _ _ hcomma).newline depth

theorem scans_member (k : String) {j : Json} (hj : Legible j) :
    Scans (newline depth ++ quote k ++ [':', ' '] ++ prettyChars depth j ++ cs)
      (.string (some k) :: .colon :: tokens j ++ ts) := by
  have hvalue : Scans (' ' :: (prettyChars depth j ++ cs)) (tokens j ++ ts) :=
    (hj depth cs ts hcs).space rfl
  have hcolon : Scans (':' :: ' ' :: (prettyChars depth j ++ cs)) (.colon :: (tokens j ++ ts)) :=
    hvalue.token rfl (by decide) (Nat.le_refl _)
  simp only [List.append_assoc, List.cons_append, List.nil_append]
  exact (hcolon.quote k).newline depth

theorem scans_members {members : List (String × Json)} (hmembers : ∀ m ∈ members, Legible m.2) :
    Scans (prettyMembers depth members ++ cs) (memberTokens members ++ ts) := by
  induction members with
  | nil => exact hcs
  | cons m rest ih =>
    obtain ⟨k, j⟩ := m
    have hj := hmembers (k, j) (.head _)
    cases rest with
    | nil => exact scans_member depth hcs k hj
    | cons n rest =>
      have hrest := ih fun i hi => hmembers i (.tail _ hi)
      have hcomma : Scans (',' :: (prettyMembers depth (n :: rest) ++ cs))
          (.comma :: (memberTokens (n :: rest) ++ ts)) :=
        hrest.token rfl (by decide) (Nat.le_refl _)
      have hmember := scans_member depth hcomma k hj
      simpa only [prettyMembers, memberTokens, List.append_assoc, List.cons_append] using hmember

end

theorem Verbal.legible {room : Nat} {j : Json} (hj : Verbal room j) : Legible j := by
  induction hj with
  | null =>
    intro depth cs ts hcs
    exact hcs.token (c := 'n') rfl (by decide) (by simp; omega)
  | bool b =>
    intro depth cs ts hcs
    cases b with
    | true => exact hcs.token (c := 't') rfl (by decide) (by simp; omega)
    | false => exact hcs.token (c := 'f') rfl (by decide) (by simp; omega)
  | string s =>
    intro depth cs ts hcs
    exact hcs.quote s
  | @array _ items _ ih =>
    intro depth cs ts hcs
    have hclose : Scans (']' :: cs) (.closeArray :: ts) :=
      hcs.token rfl (by decide) (Nat.le_refl _)
    cases items with
    | nil => exact hclose.token rfl (by decide) (Nat.le_refl _)
    | cons j rest =>
      have hitems := scans_items (depth + 1) (hclose.newline depth) ih
      simp only [prettyChars, tokens, List.append_assoc, List.cons_append, List.nil_append]
      exact hitems.token rfl (by decide) (Nat.le_refl _)
  | @object _ members _ ih =>
    intro depth cs ts hcs
    have hclose : Scans ('\x7d' :: cs) (.closeObject :: ts) :=
      hcs.token rfl (by decide) (Nat.le_refl _)
    cases members with
    | nil => exact hclose.token rfl (by decide) (Nat.le_refl _)
    | cons m rest =>
      have hmembers := scans_members (depth + 1) (hclose.newline depth) ih
      simp only [prettyChars, tokens, List.append_assoc, List.cons_append, List.nil_append]
      exact hmembers.token rfl (by decide) (Nat.le_refl _)

theorem scan_pretty {room : Nat} {j : Json} (hj : Verbal room j) :
    Token.scan j.pretty.toList = some (tokens j) := by
  have hscans := hj.legible 0 [] [] Scans.nil
  rw [List.append_nil, List.append_nil] at hscans
  rw [pretty, String.toList_ofList]
  exact hscans _ (Nat.le_refl _)

/-! ## Putting the value together -/

namespace Reading

/-- Whether a value may come next. -/
def ExpectsValue (r : Reading) : Prop := r.expect = .value ∨ r.expect = .valueOrEnd

theorem step_of_expectsValue {r : Reading} (hr : r.ExpectsValue) {t : Token}
    (ht : t ≠ .closeArray) : r.step t = r.takeValue t := by
  unfold step
  rcases hr with hr | hr
  · rw [hr]
  · rw [hr]
    cases t with
    | closeArray => exact absurd rfl ht
    | _ => rfl

/-- Where a value goes depends on what is open only. -/
theorem put_congr {r s : Reading} (h : r.stack = s.stack) (j : Json) : r.put j = s.put j := by
  rw [put, put, h]

/-- A container that ends is put where it was opened. -/
theorem pop_open (r : Reading) (f : Frame) (expect : Expectation)
    (hroom : r.stack.length + 1 ≤ depthLimit) :
    pop ⟨f :: r.stack, expect, none⟩ = some (r.put f.close) := by
  have hlength : (f :: r.stack).length ≤ depthLimit := hroom
  simp only [pop, if_pos hlength]
  exact congrArg some (put_congr rfl _)

end Reading

/-- Read where a value may come, with `room` levels left, the tokens of the value put it there. -/
def Rebuilt (room : Nat) (j : Json) : Prop :=
  ∀ r : Reading, r.ExpectsValue → r.stack.length + room ≤ depthLimit →
    (tokens j).foldlM Reading.step r = some (r.put j)

/-- The members of an object as they are kept while it is open. -/
def keyed (members : List (String × Json)) : List (Option String × Json) :=
  members.map fun m => (some m.1, m.2)

theorem close_keyed (members : List (String × Json)) (key : Option String) :
    Frame.close (.object (keyed members).reverse key) = .object members := by
  have hmembers : (keyed members).mapM (fun m => m.1.map fun k => (k, m.2)) = some members :=
    mapM_map_eq_some fun _ _ => rfl
  rw [Frame.close, List.reverse_reverse, hmembers]

section

variable {room : Nat} {stack : List Frame} (hroom : stack.length + 1 + room ≤ depthLimit)

include hroom

/-- The items of an array join those that are there already. -/
theorem foldlM_itemTokens {items : List Json} (done : List Json) {expect : Expectation}
    (hexpect : expect = .value ∨ expect = .valueOrEnd) (hne : items ≠ [])
    (hitems : ∀ j ∈ items, Rebuilt room j) :
    (itemTokens items).foldlM Reading.step ⟨.array done :: stack, expect, none⟩ =
      some ⟨.array (items.reverse ++ done) :: stack, .separator, none⟩ := by
  induction items generalizing done expect with
  | nil => exact absurd rfl hne
  | cons j rest ih =>
    have hj := hitems j (.head _) ⟨.array done :: stack, expect, none⟩ hexpect hroom
    cases rest with
    | nil => exact hj
    | cons k rest =>
      have hrest : (itemTokens (k :: rest)).foldlM Reading.step
          ⟨.array (j :: done) :: stack, .value, none⟩ =
            some ⟨.array ((k :: rest).reverse ++ j :: done) :: stack, .separator, none⟩ :=
        ih _ (.inl rfl) (List.cons_ne_nil _ _) fun i hi => hitems i (.tail _ hi)
      rw [itemTokens, List.foldlM_append, hj, List.reverse_cons, List.append_assoc]
      · exact hrest
      · exact List.cons_ne_nil k rest

theorem foldlM_member (done : List (Option String × Json)) {expect : Expectation}
    (hexpect : expect = .key ∨ expect = .keyOrEnd) (k : String) {j : Json} (hj : Rebuilt room j) :
    (.string (some k) :: .colon :: tokens j).foldlM Reading.step
        ⟨.object done none :: stack, expect, none⟩ =
      some ⟨.object ((some k, j) :: done) none :: stack, .separator, none⟩ := by
  have hvalue := hj ⟨.object done (some k) :: stack, .value, none⟩ (.inl rfl) hroom
  rcases hexpect with rfl | rfl
  · exact hvalue
  · exact hvalue

/-- The members of an object join those that are there already. -/
theorem foldlM_memberTokens {members : List (String × Json)}
    (done : List (Option String × Json)) {expect : Expectation}
    (hexpect : expect = .key ∨ expect = .keyOrEnd) (hne : members ≠ [])
    (hmembers : ∀ m ∈ members, Rebuilt room m.2) :
    (memberTokens members).foldlM Reading.step ⟨.object done none :: stack, expect, none⟩ =
      some ⟨.object ((keyed members).reverse ++ done) none :: stack, .separator, none⟩ := by
  induction members generalizing done expect with
  | nil => exact absurd rfl hne
  | cons m rest ih =>
    obtain ⟨k, j⟩ := m
    have hj := foldlM_member hroom done hexpect k (hmembers (k, j) (.head _))
    cases rest with
    | nil => exact hj
    | cons n rest =>
      have hrest : (memberTokens (n :: rest)).foldlM Reading.step
          ⟨.object ((some k, j) :: done) none :: stack, .key, none⟩ =
            some ⟨.object ((keyed (n :: rest)).reverse ++ (some k, j) :: done) none :: stack,
              .separator, none⟩ :=
        ih _ (.inl rfl) (List.cons_ne_nil _ _) fun i hi => hmembers i (.tail _ hi)
      rw [memberTokens, List.foldlM_append, hj, keyed, List.map_cons, List.reverse_cons,
        List.append_assoc]
      · exact hrest
      · exact List.cons_ne_nil n rest

end

/-- An array ends behind an item, or at once. -/
theorem step_closeArray {r : Reading} (hroom : r.stack.length + 1 ≤ depthLimit) (items : List Json)
    {expect : Expectation} (hexpect : expect = .valueOrEnd ∨ expect = .separator) :
    Reading.step ⟨.array items.reverse :: r.stack, expect, none⟩ .closeArray =
      some (r.put (.array items)) := by
  have hpop := r.pop_open (.array items.reverse) expect hroom
  rw [Frame.close, List.reverse_reverse] at hpop
  rcases hexpect with rfl | rfl
  · exact hpop
  · exact hpop

/-- An object ends behind a member, or at once. -/
theorem step_closeObject {r : Reading} (hroom : r.stack.length + 1 ≤ depthLimit)
    (members : List (String × Json)) {expect : Expectation}
    (hexpect : expect = .keyOrEnd ∨ expect = .separator) :
    Reading.step ⟨.object (keyed members).reverse none :: r.stack, expect, none⟩ .closeObject =
      some (r.put (.object members)) := by
  have hpop := r.pop_open (.object (keyed members).reverse none) expect hroom
  rw [close_keyed] at hpop
  rcases hexpect with rfl | rfl
  · exact hpop
  · exact hpop

theorem foldlM_single {r s : Reading} {t : Token} (h : r.step t = some s) :
    [t].foldlM Reading.step r = some s := by
  rw [List.foldlM_cons, h]
  rfl

theorem rebuilt_of_takeValue {room : Nat} {t : Token} {j : Json} (htokens : tokens j = [t])
    (ht : t ≠ .closeArray) (hvalue : ∀ r : Reading, r.takeValue t = some (r.put j)) :
    Rebuilt room j := by
  intro r hr _
  have hstep : r.step t = some (r.put j) := (r.step_of_expectsValue hr ht).trans (hvalue r)
  rw [htokens, foldlM_single hstep]

theorem Verbal.rebuilt {room : Nat} {j : Json} (hj : Verbal room j) : Rebuilt room j := by
  induction hj with
  | null => exact rebuilt_of_takeValue rfl Token.noConfusion fun _ => rfl
  | bool b => exact rebuilt_of_takeValue rfl Token.noConfusion fun _ => rfl
  | string s => exact rebuilt_of_takeValue rfl Token.noConfusion fun _ => rfl
  | @array room items _ ih =>
    intro r hr hroom
    have hinside : r.stack.length + 1 + room ≤ depthLimit := by omega
    have hopen : r.step .openArray = some ⟨.array [] :: r.stack, .valueOrEnd, none⟩ :=
      r.step_of_expectsValue hr Token.noConfusion
    rw [tokens, List.cons_append, List.foldlM_cons, hopen]
    cases items with
    | nil => exact foldlM_single (step_closeArray (by omega) [] (.inl rfl))
    | cons j rest =>
      have hitems := foldlM_itemTokens hinside [] (.inr rfl) (List.cons_ne_nil j rest) ih
      rw [Option.bind_eq_bind, Option.bind_some, List.foldlM_append, hitems, List.append_nil]
      exact foldlM_single (step_closeArray (by omega) (j :: rest) (.inr rfl))
  | @object room members _ ih =>
    intro r hr hroom
    have hinside : r.stack.length + 1 + room ≤ depthLimit := by omega
    have hopen : r.step .openObject = some ⟨.object [] none :: r.stack, .keyOrEnd, none⟩ :=
      r.step_of_expectsValue hr Token.noConfusion
    rw [tokens, List.cons_append, List.foldlM_cons, hopen]
    cases members with
    | nil => exact foldlM_single (step_closeObject (by omega) [] (.inl rfl))
    | cons m rest =>
      have hmembers := foldlM_memberTokens hinside [] (.inr rfl) (List.cons_ne_nil m rest) ih
      rw [Option.bind_eq_bind, Option.bind_some, List.foldlM_append, hmembers, List.append_nil]
      exact foldlM_single (step_closeObject (by omega) (m :: rest) (.inr rfl))

/-- What has been written over several lines is read back. -/
theorem parse?_pretty {room : Nat} {j : Json} (hj : Verbal room j) (hroom : room ≤ depthLimit) :
    parse? j.pretty = some j := by
  have hstart : Reading.start.stack.length + room ≤ depthLimit := by
    rw [Reading.start, List.length_nil]
    omega
  rw [parse?, scan_pretty hj, Option.bind_eq_bind, Option.bind_some,
    hj.rebuilt .start (.inl rfl) hstart]
  rfl

end Paywall.Json
