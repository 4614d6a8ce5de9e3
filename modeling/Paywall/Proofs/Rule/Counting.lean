import Mathlib.Data.List.Perm.Basic
import Paywall.Proofs.Campaign.Advance
import Paywall.Proofs.Rule.Matching

/-!
# What a history remembers

A history that has made notes of firings and events answers by which notes these are, and not by
their order: a count is the number of firings of the key in the window, and an event was last seen at
the latest of its times. Of two windows of which one holds what the other holds, the first counts no
less. The windows that go back from now are so ordered, and the day that has begun lies within the
last 24 hours, since a clock skips leap seconds.
-/

namespace Paywall

/-! ## Notes -/

/-- What a history can make a note of. -/
inductive HistoryNote where
  | firing (key : String) (time : Instant)
  | event (name : String) (time : Instant)
deriving DecidableEq

namespace HistoryNote

/-- The time of a firing of a key. -/
def firingOf? (key : String) : HistoryNote → Option Instant
  | .firing k time => if k = key then some time else none
  | .event _ _ => none

/-- The time of an event of a name. -/
def eventOf? (name : String) : HistoryNote → Option Instant
  | .firing _ _ => none
  | .event n time => if n = name then some time else none

end HistoryNote

/-- Whether a time is the latest of some, if there are any. -/
def IsLatest : Option Instant → List Instant → Prop
  | none, times => times = []
  | some t, times => t ∈ times ∧ ∀ s ∈ times, s ≤ t

theorem IsLatest.unique {t u : Option Instant} {times others : List Instant}
    (ht : IsLatest t times) (hu : IsLatest u others) (h : times.Perm others) : t = u := by
  cases t with
  | none =>
    cases u with
    | none => rfl
    | some u =>
      have hnil : times = [] := ht
      have hmem : u ∈ times := h.mem_iff.mpr hu.1
      rw [hnil] at hmem
      cases hmem
  | some t =>
    cases u with
    | none =>
      have hnil : others = [] := hu
      have hmem : t ∈ others := h.mem_iff.mp ht.1
      rw [hnil] at hmem
      cases hmem
    | some u =>
      have htu := hu.2 t (h.mem_iff.mp ht.1)
      have hut := ht.2 u (h.mem_iff.mpr hu.1)
      exact congrArg some (Instant.le_antisymm htu hut)

namespace History

variable {h : History} {notes others : List HistoryNote}

/-- Makes a note. -/
def note (h : History) : HistoryNote → History
  | .firing key time => h.recordAt key time
  | .event name time => h.recordEvent name time

/-- Makes notes, one after the other. -/
def noteAll (h : History) (notes : List HistoryNote) : History := notes.foldl History.note h

theorem sessionStart_note (h : History) (note : HistoryNote) :
    (h.note note).sessionStart = h.sessionStart := by
  cases note with
  | firing key time => rfl
  | event name time =>
    show (h.recordEvent name time).sessionStart = _
    rw [recordEvent_eq]

theorem sessionStart_noteAll (h : History) (notes : List HistoryNote) :
    (h.noteAll notes).sessionStart = h.sessionStart := by
  induction notes generalizing h with
  | nil => rfl
  | cons note notes ih => exact (ih (h.note note)).trans (sessionStart_note h note)

/-! ## Firings -/

theorem firingsOf_note (h : History) (note : HistoryNote) (key : String) :
    (h.note note).firingsOf key = h.firingsOf key ++ (note.firingOf? key).toList := by
  cases note with
  | firing k time =>
    show (h.recordAt k time).firingsOf key = _
    rw [firingsOf_recordAt, HistoryNote.firingOf?]
    by_cases hk : k = key
    · rw [if_pos hk, if_pos hk.symm]
      rfl
    · rw [if_neg hk, if_neg (Ne.symm hk)]
      rfl
  | event name time =>
    show ((h.recordEvent name time).firings.get? key).getD [] = _
    rw [firings_recordEvent]
    exact (List.append_nil _).symm

theorem firingsOf_noteAll (h : History) (notes : List HistoryNote) (key : String) :
    (h.noteAll notes).firingsOf key =
      h.firingsOf key ++ notes.filterMap (HistoryNote.firingOf? key) := by
  induction notes generalizing h with
  | nil => exact (List.append_nil _).symm
  | cons note notes ih =>
    show ((h.note note).noteAll notes).firingsOf key = _
    rw [ih, firingsOf_note, List.append_assoc, List.filterMap_cons]
    cases note.firingOf? key with
    | none => rfl
    | some time => rfl

/-! ## Events -/

theorem isLatest_recordEvent {times : List Instant} {name : String}
    (hlatest : IsLatest (h.events.get? name) times) (time : Instant) :
    IsLatest ((h.recordEvent name time).events.get? name) (times ++ [time]) := by
  unfold recordEvent
  cases hlast : h.events.get? name with
  | none =>
    rw [hlast] at hlatest
    have hnil : times = [] := hlatest
    rw [Table.get?_insert, if_pos rfl, hnil]
    refine ⟨List.mem_singleton.mpr rfl, fun s hs => ?_⟩
    rw [List.mem_singleton.mp hs]
    exact (Instant.passes_refl time).1
  | some last =>
    rw [hlast] at hlatest
    obtain ⟨hmem, hbound⟩ := hlatest
    dsimp only
    split
    · next hlt =>
      rw [Table.get?_insert, if_pos rfl]
      refine ⟨List.mem_append_right _ (List.mem_singleton.mpr rfl), fun s hs => ?_⟩
      rcases List.mem_append.mp hs with hs | hs
      · exact Instant.le_trans (hbound s hs) (Instant.le_of_lt hlt)
      · rw [List.mem_singleton.mp hs]
        exact (Instant.passes_refl time).1
    · next hge =>
      rw [hlast]
      refine ⟨List.mem_append_left _ hmem, fun s hs => ?_⟩
      rcases List.mem_append.mp hs with hs | hs
      · exact hbound s hs
      · rw [List.mem_singleton.mp hs]
        exact (Instant.le_or_lt time last).resolve_right hge

theorem isLatest_note {times : List Instant} {name : String}
    (hlatest : IsLatest (h.events.get? name) times) (note : HistoryNote) :
    IsLatest ((h.note note).events.get? name) (times ++ (note.eventOf? name).toList) := by
  cases note with
  | firing key time =>
    show IsLatest (h.events.get? name) (times ++ [])
    rwa [List.append_nil]
  | event n time =>
    show IsLatest ((h.recordEvent n time).events.get? name) _
    by_cases hname : n = name
    · rw [HistoryNote.eventOf?, if_pos hname, hname]
      exact isLatest_recordEvent hlatest time
    · rw [HistoryNote.eventOf?, if_neg hname, events_recordEvent_of_ne (Ne.symm hname)]
      rwa [Option.toList_none, List.append_nil]

theorem isLatest_noteAll {times : List Instant} {name : String}
    (hlatest : IsLatest (h.events.get? name) times) (notes : List HistoryNote) :
    IsLatest ((h.noteAll notes).events.get? name)
      (times ++ notes.filterMap (HistoryNote.eventOf? name)) := by
  induction notes generalizing h times with
  | nil => rwa [List.filterMap_nil, List.append_nil]
  | cons note notes ih =>
    have hnext := ih (isLatest_note hlatest note)
    rw [List.filterMap_cons]
    cases hevent : note.eventOf? name with
    | none =>
      rw [hevent, Option.toList_none, List.append_nil] at hnext
      exact hnext
    | some time =>
      rw [hevent, Option.toList_some, List.append_assoc] at hnext
      exact hnext

/-! ## Notes in another order -/

theorem count_noteAll (sessionStart now : Instant) (notes : List HistoryNote) (o : Occurrence) :
    ((start sessionStart).noteAll notes).count o now =
      .ofNat ((notes.filterMap (HistoryNote.firingOf? o.key)).countP
        (o.window.holds now sessionStart)) := by
  rw [count_eq, firingsOf_noteAll, sessionStart_noteAll]
  rfl

theorem isLatest_events_noteAll (sessionStart : Instant) (notes : List HistoryNote)
    (name : String) : IsLatest (((start sessionStart).noteAll notes).events.get? name)
      (notes.filterMap (HistoryNote.eventOf? name)) := by
  have hnone : IsLatest ((start sessionStart).events.get? name) [] := rfl
  exact isLatest_noteAll hnone notes

theorem counter_congr_of_perm (hperm : notes.Perm others) (sessionStart now : Instant) :
    ((start sessionStart).noteAll notes).counter now =
      ((start sessionStart).noteAll others).counter now := by
  unfold counter
  congr 1
  · funext o
    rw [count_noteAll, count_noteAll, (hperm.filterMap _).countP_eq]
  · funext name
    rw [(isLatest_events_noteAll sessionStart notes name).unique
      (isLatest_events_noteAll sessionStart others name) (hperm.filterMap _)]

end History

/-! ## Windows within windows -/

namespace Instant

theorem back_le_back_of_le (t : Instant) {m n : Nat} (h : m ≤ n) : t.back n ≤ t.back m := by
  rw [back_eq t m, back_eq t n, le_iff]
  show (t.back 0).seconds - (n : Int) < (t.back 0).seconds - m ∨
    (t.back 0).seconds - (n : Int) = (t.back 0).seconds - m ∧ (t.back 0).nanos ≤ (t.back 0).nanos
  omega

theorem back_day_le_midnight {t : Instant} (h : t.inLeapSecond = false) :
    t.back secondsPerDay ≤ t.midnight := by
  have hback : t.back secondsPerDay = ⟨t.seconds - secondsPerDay, t.nanos⟩ := by
    unfold back
    rw [h]
    rfl
  rw [hback, le_iff]
  unfold midnight dayNumber secondsPerDay
  dsimp only
  omega

end Instant

theorem Window.holds_mono {w w' : Window} {now sessionStart t : Instant}
    (h : ∀ s', w'.start now (some sessionStart) = some s' →
      ∃ s, w.start now (some sessionStart) = some s ∧ s' ≤ s)
    (ht : w.holds now sessionStart t) : w'.holds now sessionStart t := by
  unfold holds at *
  cases hstart : w'.start now (some sessionStart) with
  | none => rfl
  | some s' =>
    obtain ⟨s, hs, hle⟩ := h s' hstart
    rw [hs] at ht
    exact decide_eq_true (Instant.le_trans hle (of_decide_eq_true ht))

namespace History

variable {h : History} {o : Occurrence}

/-- A window that begins no later counts no less. -/
theorem count_mono {w w' : Window} {now : Instant}
    (hfew : (h.firingsOf o.key).length < UInt32.size)
    (hstart : ∀ s', w'.start now (some h.sessionStart) = some s' →
      ∃ s, w.start now (some h.sessionStart) = some s ∧ s' ≤ s) :
    h.count { o with window := w } now ≤ h.count { o with window := w' } now := by
  have hle : (h.firingsOf o.key).countP (w.holds now h.sessionStart) ≤
      (h.firingsOf o.key).countP (w'.holds now h.sessionStart) :=
    List.countP_mono_left fun t _ ht => Window.holds_mono hstart ht
  have hbound := List.countP_le_length (l := h.firingsOf o.key) (p := w'.holds now h.sessionStart)
  rw [count_eq, count_eq, UInt32.le_iff_toNat_le,
    UInt32.toNat_ofNat_of_lt' (by exact Nat.lt_of_le_of_lt (Nat.le_trans hle hbound) hfew),
    UInt32.toNat_ofNat_of_lt' (by exact Nat.lt_of_le_of_lt hbound hfew)]
  exact hle

/-- Whether the counts of a key are in the order of the windows: of those that go back from now, the
day that has begun among them, the longer hold the more, and all time holds the most. -/
structure CountsInOrder (h : History) (o : Occurrence) (now : Instant) : Prop where
  today :
    h.count { o with window := .today } now ≤ h.count { o with window := .last24Hours } now
  last24Hours :
    h.count { o with window := .last24Hours } now ≤ h.count { o with window := .last7Days } now
  last7Days :
    h.count { o with window := .last7Days } now ≤ h.count { o with window := .last30Days } now
  last30Days :
    h.count { o with window := .last30Days } now ≤ h.count { o with window := .sinceInstall } now
  currentSession :
    h.count { o with window := .currentSession } now ≤
      h.count { o with window := .sinceInstall } now

theorem countsInOrder (hfew : (h.firingsOf o.key).length < UInt32.size) {now : Instant}
    (hnow : now.inLeapSecond = false) : h.CountsInOrder o now := by
  have hback {v w : Window} {m n : Nat} (hmn : m ≤ n)
      (hv : v.start now (some h.sessionStart) = some (now.back m))
      (hw : w.start now (some h.sessionStart) = some (now.back n)) :
      h.count { o with window := v } now ≤ h.count { o with window := w } now := by
    refine count_mono hfew fun s hs => ⟨_, hv, ?_⟩
    rw [hw] at hs
    cases hs
    exact now.back_le_back_of_le hmn
  have hall (w : Window) :
      h.count { o with window := w } now ≤ h.count { o with window := .sinceInstall } now :=
    count_mono hfew fun s' hs' => by cases hs'
  constructor
  · refine count_mono hfew fun s' hs' => ⟨_, rfl, ?_⟩
    cases hs'
    exact Instant.back_day_le_midnight hnow
  · exact hback (v := .last24Hours) (w := .last7Days) (by decide) rfl rfl
  · exact hback (v := .last7Days) (w := .last30Days) (by decide) rfl rfl
  · exact hall _
  · exact hall _

/-! ## What counts -/

/-- What rules see of a history is what it has made notes of, in whatever order: the number of
firings of a key in a window and the latest time of an event. And at every time a clock can show,
none of which is in a leap second, every history counts in the order of the windows. -/
theorem counter_by_content (sessionStart : Instant) (hperm : notes.Perm others) :
    (∀ now, ((start sessionStart).noteAll notes).counter now =
      ((start sessionStart).noteAll others).counter now) ∧
    (∀ now o, (notes.filterMap (HistoryNote.firingOf? o.key)).length < UInt32.size →
      ∃ n, (((start sessionStart).noteAll notes).counter now).count o = .ok n ∧
        n.toNat = (notes.filterMap (HistoryNote.firingOf? o.key)).countP
          (o.window.holds now sessionStart)) ∧
    (∀ now name, ∃ last, (((start sessionStart).noteAll notes).counter now).lastEvent name =
      .ok last ∧ IsLatest last (notes.filterMap (HistoryNote.eventOf? name))) ∧
    ∀ (h : History) (o : Occurrence) (now : Instant),
      now.inLeapSecond = false → (h.firingsOf o.key).length < UInt32.size →
      h.CountsInOrder o now := by
  refine ⟨counter_congr_of_perm hperm sessionStart, fun now o hfew => ⟨_, rfl, ?_⟩,
    fun now name => ⟨_, rfl, isLatest_events_noteAll sessionStart notes name⟩,
    fun h o now hnow hfew => countsInOrder hfew hnow⟩
  rw [count_noteAll]
  exact UInt32.toNat_ofNat_of_lt' (Nat.lt_of_le_of_lt List.countP_le_length hfew)

/-- Two firings and two events, noted in two orders. -/
theorem counter_by_content_late :
    let noon : Instant := ⟨1715342400, 0⟩
    let later : Instant := ⟨1715346000, 0⟩
    let notes : List HistoryNote :=
      [.firing "k" noon, .event "open" noon, .firing "k" later, .event "open" later]
    let o : Occurrence := ⟨"k", 3, .last24Hours⟩
    notes.Perm notes.reverse ∧
      ((start noon).noteAll notes).counter later =
        ((start noon).noteAll notes.reverse).counter later ∧
      (∃ n, (((start noon).noteAll notes).counter later).count o = .ok n ∧ n.toNat = 2) ∧
      (∃ last, (((start noon).noteAll notes).counter later).lastEvent "open" = .ok last ∧
        IsLatest last [noon, later]) ∧
      ((start noon).noteAll notes).CountsInOrder o later := by
  have h := counter_by_content ⟨1715342400, 0⟩ (List.reverse_perm [.firing "k" ⟨1715342400, 0⟩,
    .event "open" ⟨1715342400, 0⟩, .firing "k" ⟨1715346000, 0⟩,
    .event "open" ⟨1715346000, 0⟩]).symm
  obtain ⟨hsame, hcount, hevent, hwindows⟩ := h
  exact ⟨(List.reverse_perm _).symm, hsame _,
    hcount ⟨1715346000, 0⟩ ⟨"k", 3, .last24Hours⟩ (by decide), hevent ⟨1715346000, 0⟩ "open",
    hwindows _ ⟨"k", 3, .last24Hours⟩ ⟨1715346000, 0⟩ (by decide) (by decide)⟩

end History

end Paywall
