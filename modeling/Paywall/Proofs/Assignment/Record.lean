import Paywall.Assignment.Record
import Paywall.Proofs.Campaign.Codec
import Paywall.Proofs.Json.Reader

/-!
# The record as a file

A record of confirmed assignments is loaded from its text as it was saved, whatever the texts in it
are, and it is written the same way in whatever order its assignments are gone through.
-/

namespace Paywall

/-- What has been put into a folder is read from there. -/
theorem Folder.read_of_replace {folder written : Folder} {path text : String}
    (h : folder.replace path text = (true, written)) : written.read path = .text text := by
  unfold Folder.replace at h
  split at h
  · split at h
    · next temporary _ name hname =>
      cases h
      simp only [Folder.read, hname, Table.get?_insert, if_pos]
    · cases h
  · cases h

namespace Record

/-! ## The JSON form -/

theorem verbal_variant (v : Variant) : v.toJson.Verbal 1 := by
  refine .object ?_
  simp only [List.forall_mem_cons]
  refine ⟨.string _, .string _, ?_, List.forall_mem_nil _⟩
  cases v.paywallId with
  | none => exact .null
  | some s => exact .string s

theorem verbal_assignments (a : Assignments) : (Assignments.toJson a).Verbal 2 := by
  refine .object fun m hm => ?_
  obtain ⟨e, -, rfl⟩ := List.mem_map.mp hm
  exact verbal_variant e.2

theorem read?_text (a : Assignments) : read? (text a) = some a := by
  rw [read?, text, Json.parse?_pretty (verbal_assignments a) (by decide), Option.bind_some,
    Assignments.ofJson?_toJson]

theorem load_ofContent_text (a : Assignments) : (ofContent (.text (text a))).load = .ok a := by
  have hcontent : ofContent? (.text (text a)) = some a := read?_text a
  simp [load, ofContent, hcontent]

/-! ## The file -/

/-- A record comes back from its text, also through a folder, and the text does not show in which
order the assignments were gone through. -/
theorem saved_record_loads (a : Assignments) :
    (ofContent (.text (text a))).load = .ok a ∧
      (∀ (folder written : Folder) (path : String), folder.replace path (text a) = (true, written) →
        (ofContent (written.read path)).load = .ok a) ∧
      ∀ es : Entries Variant, es.Perm a.entries → text (.ofList es) = text a := by
  refine ⟨load_ofContent_text a, ?_, ?_⟩
  · intro folder written path h
    rw [Folder.read_of_replace h]
    exact load_ofContent_text a
  · intro es hes
    rw [Table.ofList_of_perm hes]

/-- Two assignments with texts that need escapes. -/
def awkward : Assignments :=
  .ofList [("", ⟨"quote \" and \\", .treatment, some "\n\x01"⟩), ("é", ⟨"", .holdout, none⟩)]

theorem saved_record_loads_awkward :
    (ofContent (.text (text awkward))).load = .ok awkward ∧
      (ofContent (((∅ : Folder).replace "record.json" (text awkward)).2.read "record.json")).load =
        .ok awkward ∧
      text (.ofList awkward.entries.reverse) = text awkward := by
  have hreplace : (∅ : Folder).replace "record.json" (text awkward) =
      (true, ((∅ : Folder).replace "record.json" (text awkward)).2) :=
    Prod.ext rfl rfl
  exact ⟨(saved_record_loads awkward).1, (saved_record_loads awkward).2.1 _ _ _ hreplace,
    (saved_record_loads awkward).2.2 _ (List.reverse_perm _)⟩

end Record

end Paywall
