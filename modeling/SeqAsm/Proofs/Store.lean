import Mathlib.Data.List.Nodup
import Mathlib.Data.List.Perm.Subperm
import SeqAsm.Proofs.Text.Decimal
import SeqAsm.Store

/-!
How many programs a store holds.

Ids for which a store has a text are no more than its bound. In memory each is a key; in a
directory each has a file, and different ids have different files because the name of a file
tells the id.
-/

namespace SeqAsm

lemma programFile_injective : Function.Injective programFile := by
  intro n m h
  unfold programFile programName at h
  exact Text.padded_injective 6 (String.append_right_inj _ |>.1 (String.append_left_inj _ |>.1 h))

lemma Files.mem_of_read? {f : Files} {top text : String} {path : List String}
    (h : f.read? top path = .ok (some text)) : path ∈ f.entries.map Prod.fst := by
  unfold Files.read? Files.entry at h
  rcases hl : f.entries.lookup path with _ | content
  · rw [hl] at h
    dsimp only at h
    split at h
    · rename_i he
      split at he
      · cases he
      · split at he <;> cases he
    · cases h
    · cases h
    · cases h
  · obtain ⟨before, after, he, -⟩ := List.lookup_eq_some_iff.1 hl
    rw [he]
    simp

lemma Directory.pathFor_injective : Function.Injective Directory.pathFor := by
  intro n m h
  unfold Directory.pathFor at h
  simp only [List.cons.injEq, and_true] at h
  exact programFile_injective h.2

namespace Store

/-- Different ids with a text are at most as many as the bound of the store. -/
theorem length_le_bound (s : Store) {ids : List Int} (nodup : ids.Nodup)
    (h : ∀ id ∈ ids, ∃ text, s.text? id = .ok (some text)) : ids.length ≤ s.bound := by
  cases s with
  | memory programs =>
    have keys : ids ⊆ programs.keys := by
      intro id hid
      obtain ⟨text, ht⟩ := h id hid
      rw [Std.ExtTreeMap.mem_keys]
      refine Std.ExtTreeMap.mem_iff_isSome_getElem?.2 ?_
      rw [Except.ok.inj ht]
      rfl
    have := (List.subperm_of_subset nodup keys).length_le
    rwa [Std.ExtTreeMap.length_keys] at this
  | directory d =>
    have distinct : (ids.map fun id => d.path ++ Directory.pathFor id).Nodup :=
      nodup.map fun _ _ h => Directory.pathFor_injective (List.append_cancel_left h)
    have files : ids.map (fun id => d.path ++ Directory.pathFor id) ⊆
        d.files.entries.map Prod.fst := by
      intro path hp
      obtain ⟨id, hid, rfl⟩ := List.mem_map.1 hp
      obtain ⟨text, ht⟩ := h id hid
      exact Files.mem_of_read? ht
    have := (List.subperm_of_subset distinct files).length_le
    rwa [List.length_map, List.length_map] at this

end Store

end SeqAsm
