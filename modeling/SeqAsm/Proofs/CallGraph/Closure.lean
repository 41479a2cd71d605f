import Mathlib.Algebra.Order.BigOperators.Group.Finset
import Mathlib.Data.Finset.SDiff
import Mathlib.Logic.Relation
import SeqAsm.CallGraph.Closure

/-!
Closures of call graphs.

What is reached leads only to what is reached or to what a waiting node leads to; so when no node
waits any more, exactly that is reached which the nodes at the start lead to. Fuel is enough for
the nodes that wait and for what is next to the nodes that are still new.
-/

namespace SeqAsm.CallGraph

/-- Steps lead from a node to another, or the two are the same. -/
abbrev Leads (next : Int → List Int) : Int → Int → Prop :=
  Relation.ReflTransGen fun u v => v ∈ next u

/-- Each of two nodes leads to the other. -/
def Together (next : Int → List Int) (u v : Int) : Prop := Leads next u v ∧ Leads next v u

/-! ### What new nodes cost -/

/-- What those of some nodes cost that are not seen yet: each one for itself, and one for each step
from it. -/
def unseenCost (nodes seen : List Int) (next : Int → List Int) : ℕ :=
  ∑ v ∈ nodes.toFinset \ seen.toFinset, ((next v).length + 1)

section

variable {nodes seen : List Int} {v : Int}

lemma unseenCost_cons (next : Int → List Int) (hv : v ∈ nodes) (new : v ∉ seen) :
    unseenCost nodes (v :: seen) next + ((next v).length + 1) = unseenCost nodes seen next := by
  have mem : v ∈ nodes.toFinset \ seen.toFinset := by simp [hv, new]
  rw [unseenCost, List.toFinset_cons, Finset.sdiff_insert]
  exact Finset.sum_erase_add _ (fun v => (next v).length + 1) mem

lemma unseenCost_le {g : CallGraph} (nodup : g.ids.Nodup) (seen : List Int)
    (next : Int → List Int) : unseenCost g.ids seen next ≤ g.size next := by
  have all : ∑ v ∈ g.ids.toFinset, ((next v).length + 1) = g.size next := by
    rw [Finset.sum_add_distrib, List.sum_toFinset _ nodup, ← List.length_flatMap,
      ← Finset.card_eq_sum_ones, List.toFinset_card_of_nodup nodup, size, add_comm]
  exact (Finset.sum_le_sum_of_subset Finset.sdiff_subset).trans_eq all

end

/-! ### Gathering -/

section

variable {next : Int → List Int} {nodes waiting reached : List Int} {v x : Int}

/-- A path from what is reached stays there, or comes through a waiting node. -/
lemma Leads.within (closed : ∀ u ∈ reached, ∀ w ∈ next u, w ∈ reached ∨ w ∈ waiting)
    (hv : v ∈ reached) (path : Leads next v x) :
    x ∈ reached ∨ ∃ w ∈ waiting, Leads next w x := by
  induction path with
  | refl => exact .inl hv
  | tail _ step ih =>
    rcases ih with hy | ⟨w, hw, path⟩
    · exact (closed _ hy _ step).imp_right fun hz => ⟨_, hz, .refl⟩
    · exact .inr ⟨w, hw, path.tail step⟩

lemma mem_gather (inside : ∀ v ∈ nodes, next v ⊆ nodes) (fuel : ℕ) (sub : waiting ⊆ nodes)
    (closed : ∀ u ∈ reached, ∀ w ∈ next u, w ∈ reached ∨ w ∈ waiting)
    (enough : waiting.length + unseenCost nodes reached next ≤ fuel) :
    x ∈ gather next fuel waiting reached ↔
      x ∈ reached ∨ ∃ w ∈ waiting, Leads next w x := by
  induction fuel generalizing waiting reached with
  | zero =>
    obtain rfl : waiting = [] := List.length_eq_zero_iff.1 (by omega)
    simp [gather]
  | succ fuel ih =>
    rcases waiting with _ | ⟨v, waiting⟩
    · simp [gather]
    rw [List.length_cons] at enough
    have rest : waiting ⊆ nodes := fun w hw => sub (List.mem_cons_of_mem v hw)
    unfold gather
    by_cases hv : v ∈ reached
    · have closed' : ∀ u ∈ reached, ∀ w ∈ next u, w ∈ reached ∨ w ∈ waiting := by
        intro u hu w hw
        rcases closed u hu w hw with hw | hw
        · exact .inl hw
        rcases List.mem_cons.1 hw with rfl | hw
        · exact .inl hv
        · exact .inr hw
      rw [if_pos (List.contains_iff_mem.2 hv), ih rest closed' (by omega)]
      constructor
      · exact Or.imp_right fun ⟨w, hw, path⟩ => ⟨w, List.mem_cons_of_mem v hw, path⟩
      · rintro (hx | ⟨w, hw, path⟩)
        · exact .inl hx
        rcases List.mem_cons.1 hw with rfl | hw
        · exact path.within closed' hv
        · exact .inr ⟨w, hw, path⟩
    · have hn : v ∈ nodes := sub List.mem_cons_self
      have cost := unseenCost_cons next hn hv
      rw [if_neg (by simpa using hv), ih]
      · constructor
        · rintro (hx | ⟨w, hw, path⟩)
          · rcases List.mem_cons.1 hx with rfl | hx
            · exact .inr ⟨x, List.mem_cons_self, .refl⟩
            · exact .inl hx
          rcases List.mem_append.1 hw with hw | hw
          · exact .inr ⟨v, List.mem_cons_self, path.head (List.mem_reverse.1 hw)⟩
          · exact .inr ⟨w, List.mem_cons_of_mem v hw, path⟩
        · rintro (hx | ⟨w, hw, path⟩)
          · exact .inl (List.mem_cons_of_mem v hx)
          rcases List.mem_cons.1 hw with rfl | hw
          · rcases Relation.ReflTransGen.cases_head path with rfl | ⟨y, step, path⟩
            · exact .inl List.mem_cons_self
            · exact .inr ⟨y, List.mem_append_left waiting (List.mem_reverse.2 step), path⟩
          · exact .inr ⟨w, List.mem_append_right _ hw, path⟩
      · exact List.append_subset.2 ⟨fun w hw => inside v hn (List.mem_reverse.1 hw), rest⟩
      · intro u hu w hw
        rcases List.mem_cons.1 hu with rfl | hu
        · exact .inr (List.mem_append_left waiting (List.mem_reverse.2 hw))
        rcases closed u hu w hw with hw | hw
        · exact .inl (List.mem_cons_of_mem v hw)
        rcases List.mem_cons.1 hw with rfl | hw
        · exact .inl List.mem_cons_self
        · exact .inr (List.mem_append_right _ hw)
      · simp only [List.length_append, List.length_reverse]
        omega

end

end SeqAsm.CallGraph
