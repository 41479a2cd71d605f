import SeqAsm.Proofs.CallGraph.Built
import SeqAsm.Proofs.CallGraph.Tarjan

/-!
The search for components, step by step.

A step follows a call to a new node, follows a call to a node that is discovered, or ends with a
node. Each keeps what holds of the stack, of the nodes under way and of the components found, and
each brings the search nearer to its end: a node costs one step and one for each of its calls. So
a search that starts from a node runs until no node is under way, and then none is on the stack.
-/

namespace SeqAsm.CallGraph

namespace Tarjan

variable {g : CallGraph} {s : Tarjan} {v w x : Int} {pending above stack : List Int} {low : ℕ}
  {work : List Frame}

def seen (s : Tarjan) : List Int := s.index.map (·.1)

def number (s : Tarjan) (v : Int) : ℕ := (s.index.lookup v).getD 0

lemma lookup_eq_none : s.index.lookup v = none ↔ v ∉ s.seen := by
  simp only [seen, List.lookup_eq_none_iff, List.mem_map, bne_iff_ne, not_exists, not_and]
  exact forall₂_congr fun _ _ => ne_comm

lemma lookup_of_mem (hv : v ∈ s.seen) : s.index.lookup v = some (s.number v) := by
  cases h : s.index.lookup v with
  | none => exact absurd hv (lookup_eq_none.1 h)
  | some n => simp [number, h]

lemma number_visit (hx : x ≠ v) : (s.visit g v).number x = s.number x := by
  simp [number, visit, List.lookup_cons, beq_false_of_ne hx]

lemma number_visit_self : (s.visit g v).number v = s.index.length := by
  simp [number, visit]

lemma popTo_append (hv : v ∉ above) : popTo v (above ++ v :: stack) = (above ++ [v], stack) := by
  induction above with
  | nil => simp [popTo]
  | cons x above ih =>
    rw [List.mem_cons, not_or] at hv
    simp [popTo, Ne.symm hv.1, ih hv.2]

/-- What a step can do, while a node is under way. -/
inductive Turn (g : CallGraph) (s : Tarjan) : Tarjan → Prop
  | fresh {v w : Int} {pending : List Int} {low : ℕ} {work : List Frame}
      (hs : s.work = ⟨v, w :: pending, low⟩ :: work) (new : w ∉ s.seen) :
      Turn g s ({ s with work := ⟨v, pending, low⟩ :: work }.visit g w)
  | known {v w : Int} {pending : List Int} {low : ℕ} {work : List Frame}
      (hs : s.work = ⟨v, w :: pending, low⟩ :: work) (old : w ∈ s.seen) :
      Turn g s { s with work :=
        ⟨v, pending, if w ∈ s.stack then min low (s.number w) else low⟩ :: work }
  | leave {v : Int} {low : ℕ} {work : List Frame} (hs : s.work = ⟨v, [], low⟩ :: work)
      (other : s.number v ≠ low) : Turn g s { s with work := lower low work }
  | complete {v : Int} {work : List Frame} (hs : s.work = ⟨v, [], s.number v⟩ :: work) :
      Turn g s ({ s with work := lower (s.number v) work }.complete v)

lemma turn_step (busy : s.work ≠ []) (under : ∀ f ∈ s.work, f.node ∈ s.seen) :
    Turn g s (s.step g) := by
  obtain ⟨⟨v, pending, low⟩, work, hs⟩ := List.exists_cons_of_ne_nil busy
  rcases pending with _ | ⟨w, pending⟩
  · have hv : v ∈ s.seen := under ⟨v, [], low⟩ (hs ▸ List.mem_cons_self)
    simp only [step, hs, lookup_of_mem hv, Option.some.injEq]
    split
    · rename_i own
      subst own
      exact .complete hs
    · rename_i other
      exact .leave hs other
  · by_cases known : w ∈ s.seen
    · simp only [step, hs, lookup_of_mem known, List.contains_iff_mem]
      exact .known hs known
    · simp only [step, hs, lookup_eq_none.2 known]
      exact .fresh hs known

/-- What holds of a search: the nodes discovered are on the stack or in a component, and numbered
below the next number. -/
structure Good (g : CallGraph) (s : Tarjan) : Prop where
  seen {v : Int} : v ∈ s.seen ↔ v ∈ s.stack ∨ v ∈ s.found.flatten
  apart {v : Int} : v ∈ s.stack → v ∉ s.found.flatten
  less {v : Int} : v ∈ s.seen → s.number v < s.index.length
  nodes : s.seen ⊆ g.ids
  linked : Linked g s.number s.stack (s.work.map (·.node))
  frames : Frames g s.number s.stack s.found s.work
  complete : Complete g s.found

/-- How many steps the nodes under way need yet: one for each call to follow, and one to leave. -/
def workCost : List Frame → ℕ
  | [] => 0
  | f :: work => f.pending.length + 1 + workCost work

lemma workCost_lower (n : ℕ) : workCost (lower n work) = workCost work := by
  cases work with
  | nil => rfl
  | cons f work => rfl

/-- How many steps a search needs yet, if it starts from all nodes. -/
def left (g : CallGraph) (s : Tarjan) : ℕ :=
  workCost s.work + unseenCost g.ids s.seen g.callees

namespace Good

lemma empty : Good g {} where
  seen := by simp [Tarjan.seen]
  apart := nofun
  less := nofun
  nodes := List.nil_subset _
  linked := .nil
  frames := .nil
  complete := .nil

/-- The nodes under way stay, but what they have yet to follow, or know, changes. -/
lemma withWork (h : Good g s) (work' : List Frame)
    (same : work'.map (·.node) = s.work.map (·.node))
    (frames : Frames g s.number s.stack s.found work') : Good g { s with work := work' } :=
  ⟨h.seen, h.apart, h.less, h.nodes, same ▸ h.linked, frames, h.complete⟩

lemma visit (h : Good g s) (hw : w ∈ g.ids) (fresh : w ∉ s.seen)
    (leads : ∀ x ∈ s.stack, Leads g.callees x w) : Good g (s.visit g w) := by
  have old {x : Int} (hx : x ∈ s.seen) : (s.visit g w).number x = s.number x :=
    number_visit fun same => fresh (same ▸ hx)
  have same (x : Int) (hx : x ∈ s.stack) : (s.visit g w).number x = s.number x :=
    old (h.seen.2 (.inl hx))
  have less (x : Int) (hx : x ∈ s.stack) : (s.visit g w).number x < (s.visit g w).number w := by
    rw [same x hx, number_visit_self]
    exact h.less (h.seen.2 (.inl hx))
  have frames := (h.frames.congr h.linked.sub same).push less
  rw [number_visit_self] at frames
  refine ⟨fun {x} => ?_, fun {x} hx => ?_, fun {x} hx => ?_, ?_, ?_, frames, h.complete⟩
  · change x ∈ w :: s.seen ↔ x ∈ w :: s.stack ∨ x ∈ s.found.flatten
    rw [List.mem_cons, List.mem_cons, h.seen, or_assoc]
  · rcases List.mem_cons.1 hx with rfl | hx
    · exact fun done => fresh (h.seen.2 (.inr done))
    · exact h.apart hx
  · rcases List.mem_cons.1 hx with rfl | hx
    · rw [number_visit_self]
      exact Nat.lt_succ_self _
    · rw [old hx]
      exact (h.less hx).trans (Nat.lt_succ_self _)
  · exact List.cons_subset.2 ⟨hw, h.nodes⟩
  · exact (h.linked.congr same).push leads less

variable (h : Good g s)

include h

lemma mem_ids_of_pending (wf : g.WellFormed) {f : Frame} (hf : f ∈ s.work) (hw : w ∈ f.pending) :
    w ∈ g.ids := by
  have on : f.node ∈ s.stack := h.linked.sub (List.mem_map_of_mem hf)
  exact wf.callees_sub f.node (h.nodes (h.seen.2 (.inl on))) (h.frames.pending hf hw)

lemma fresh (hs : s.work = ⟨v, w :: pending, low⟩ :: work) (hw : w ∈ g.ids) (new : w ∉ s.seen) :
    Good g ({ s with work := ⟨v, pending, low⟩ :: work }.visit g w) := by
  have L := h.linked
  have F := h.frames
  rw [hs] at L F
  have call : w ∈ g.callees v := F.pending List.mem_cons_self List.mem_cons_self
  have h' := h.visit hw new fun x hx => (L.leads_latest hx).tail call
  have up := (List.pairwise_cons.1 h'.linked.sorted).1 v (L.sub List.mem_cons_self)
  have F' := h'.frames
  simp only [Tarjan.visit, hs] at F'
  refine h'.withWork (⟨w, g.callees w, s.index.length⟩ :: ⟨v, pending, low⟩ :: work)
    (by simp [Tarjan.visit, hs]) ?_
  exact F'.follow_up [_] List.mem_cons_self up.le

lemma known (hs : s.work = ⟨v, w :: pending, low⟩ :: work) (old : w ∈ s.seen) :
    Good g { s with work :=
      ⟨v, pending, if w ∈ s.stack then min low (s.number w) else low⟩ :: work } := by
  have L := h.linked
  have F := h.frames
  rw [hs] at L F
  have call : w ∈ g.callees v := F.pending List.mem_cons_self List.mem_cons_self
  refine h.withWork _ (by rw [hs]; rfl) ?_
  by_cases on : w ∈ s.stack
  · rw [if_pos on]
    refine F.follow [] (min_le_left _ _) ?_ (.noted on (.inl (min_le_right _ _)))
    rcases min_choice low (s.number w) with own | less
    · rw [own]
      exact F.low List.mem_cons_self
    · exact ⟨w, on, less.symm, .single call⟩
  · rw [if_neg on]
    exact F.follow [] le_rfl (F.low List.mem_cons_self)
      (.complete ((h.seen.1 old).resolve_left on))

lemma leave (hs : s.work = ⟨v, [], low⟩ :: work) (other : s.number v ≠ low) :
    Good g { s with work := lower low work } := by
  have L := h.linked
  have F := h.frames
  rw [hs] at L F
  obtain ⟨z, hz, at_, leads⟩ := F.low List.mem_cons_self
  have le := F.low_le List.mem_cons_self
  have L' := L.leave hz (at_.trans_lt (lt_of_le_of_ne le other.symm)) leads
  rw [← map_node_lower low] at L'
  exact ⟨h.seen, h.apart, h.less, h.nodes, L', F.leave L, h.complete⟩

lemma leave_complete (hs : s.work = ⟨v, [], s.number v⟩ :: work) :
    Good g ({ s with work := lower (s.number v) work }.complete v) := by
  have L := h.linked
  have F := h.frames
  rw [hs] at L F
  have on : v ∈ s.stack := L.sub List.mem_cons_self
  obtain ⟨above, stack, split⟩ := List.append_of_mem on
  rw [split] at L F
  have outside : v ∉ above := fun hv =>
    ((List.pairwise_append.1 L.sorted).2.2 v hv v List.mem_cons_self).false
  have L' := L
  rw [List.map_cons, ← map_node_lower (s.number v)] at L'
  have done : ({ s with work := lower (s.number v) work }.complete v) =
      { s with
        stack := stack
        work := lower (s.number v) work
        found := (above ++ [v]) :: s.found } := by
    simp only [Tarjan.complete, split, popTo_append outside]
  rw [done]
  refine ⟨fun {x} => ?_, fun {x} hx => ?_, h.less, h.nodes, L'.complete, (F.leave L).complete L',
    .cons (by simp) ?_ (fun x hx y hy => L.joined hx hy) (fun x hx y hy => F.closed L hx hy) ?_
      h.complete⟩
  · change x ∈ s.seen ↔ x ∈ stack ∨ x ∈ (above ++ [v]) ++ s.found.flatten
    rw [h.seen, split, List.append_cons]
    simp only [List.mem_append]
    tauto
  · rw [List.flatten_cons, List.mem_append, not_or]
    exact ⟨fun own => (L.lt_of_mem hx).not_ge (L.le_of_mem own),
      h.apart (split ▸ List.mem_append_right above (List.mem_cons_of_mem v hx))⟩
  · have nodup : (above ++ v :: stack).Nodup :=
      L.sorted.imp fun less same => less.ne (congrArg s.number same.symm)
    rw [List.append_cons] at nodup
    exact (List.nodup_append.1 nodup).1
  · intro x hx
    exact h.apart (split ▸ mem_of_mem_above hx)

/-- **A step keeps what holds of a search.** -/
lemma turn (wf : g.WellFormed) {s' : Tarjan} (turn : Turn g s s') : Good g s' := by
  cases turn with
  | fresh hs new =>
    exact h.fresh hs (h.mem_ids_of_pending wf (hs ▸ List.mem_cons_self) List.mem_cons_self) new
  | known hs old => exact h.known hs old
  | leave hs other => exact h.leave hs other
  | complete hs => exact h.leave_complete hs

end Good

lemma Turn.seen_sub {s' : Tarjan} (turn : Turn g s s') : s.seen ⊆ s'.seen := by
  cases turn with
  | fresh hs new => exact List.subset_cons_self _ _
  | known hs old => exact List.Subset.refl _
  | leave hs other => exact List.Subset.refl _
  | complete hs => exact List.Subset.refl _

/-- A step brings the end of the search nearer. -/
lemma Turn.left_lt {s' : Tarjan} (turn : Turn g s s') (h : Good g s) (wf : g.WellFormed) :
    s'.left g < s.left g := by
  unfold left
  cases turn with
  | @fresh v w pending low work hs new =>
    have hw := h.mem_ids_of_pending wf (hs ▸ List.mem_cons_self) (List.mem_cons_self (a := w))
    have cost := unseenCost_cons g.callees hw new
    change (g.callees w).length + 1 + (pending.length + 1 + workCost work) +
      unseenCost g.ids (w :: s.seen) g.callees < _
    rw [hs, workCost, List.length_cons]
    omega
  | known hs old =>
    rw [hs]
    simp [workCost, Tarjan.seen]
  | leave hs other =>
    rw [hs]
    simp [workCost, workCost_lower, Tarjan.seen]
  | complete hs =>
    rw [hs]
    simp [workCost, workCost_lower, Tarjan.seen, Tarjan.complete]

/-! ### Runs -/

lemma Good.stack_eq_nil (h : Good g s) (idle : s.work = []) : s.stack = [] := by
  refine List.eq_nil_iff_forall_not_mem.2 fun x hx => ?_
  obtain ⟨y, hy, -⟩ := h.linked.down hx
  rw [idle] at hy
  cases hy

/-- **A search ends** with no node under way. -/
lemma Good.run (wf : g.WellFormed) (fuel : ℕ) (h : Good g s) (enough : s.left g ≤ fuel) :
    Good g (s.run g fuel) ∧ (s.run g fuel).work = [] ∧ s.seen ⊆ (s.run g fuel).seen := by
  induction fuel generalizing s with
  | zero =>
    refine ⟨h, ?_, List.Subset.refl _⟩
    rcases hs : s.work with _ | ⟨f, work⟩
    · exact hs
    · simp [left, hs, workCost] at enough
  | succ fuel ih =>
    unfold Tarjan.run
    split
    · rename_i idle
      exact ⟨h, List.isEmpty_iff.1 idle, List.Subset.refl _⟩
    · rename_i busy
      have turn : Turn g s (s.step g) := turn_step (fun idle => busy (List.isEmpty_iff.2 idle))
        fun f hf => h.seen.2 (.inl (h.linked.sub (List.mem_map_of_mem hf)))
      obtain ⟨good, idle, sub⟩ := ih (h.turn wf turn)
        (Nat.le_of_lt_succ ((turn.left_lt h wf).trans_le enough))
      exact ⟨good, idle, fun x hx => sub (turn.seen_sub hx)⟩

lemma Good.start (wf : g.WellFormed) (h : Good g s) (idle : s.work = []) (hv : v ∈ g.ids) :
    Good g (s.start g v) ∧ (s.start g v).work = [] ∧ v ∈ (s.start g v).seen ∧
      s.seen ⊆ (s.start g v).seen := by
  unfold Tarjan.start
  by_cases known : v ∈ s.seen
  · rw [if_pos (by rw [lookup_of_mem known]; rfl)]
    exact ⟨h, idle, known, List.Subset.refl _⟩
  rw [if_neg (by rw [lookup_eq_none.2 known]; exact Bool.false_ne_true)]
  have empty := h.stack_eq_nil idle
  have visited : Good g (s.visit g v) := h.visit hv known fun x hx => by
    rw [empty] at hx
    cases hx
  have cost := unseenCost_cons g.callees hv known
  have total := unseenCost_le wf.nodup s.seen g.callees
  have enough : (s.visit g v).left g ≤ g.size g.callees := by
    change (g.callees v).length + 1 + workCost s.work +
      unseenCost g.ids (v :: s.seen) g.callees ≤ _
    rw [idle, workCost]
    omega
  obtain ⟨good, idle, sub⟩ := visited.run wf _ enough
  exact ⟨good, idle, sub List.mem_cons_self, fun x hx => sub (List.mem_cons_of_mem v hx)⟩

lemma Good.starts (wf : g.WellFormed) {nodes : List Int} (sub : nodes ⊆ g.ids) (h : Good g s)
    (idle : s.work = []) : Good g (nodes.foldl (Tarjan.start g) s) ∧
      (nodes.foldl (Tarjan.start g) s).work = [] ∧
      nodes ++ s.seen ⊆ (nodes.foldl (Tarjan.start g) s).seen := by
  induction nodes generalizing s with
  | nil => exact ⟨h, idle, List.Subset.refl _⟩
  | cons v nodes ih =>
    obtain ⟨good, idle', own, kept⟩ := h.start wf idle (sub List.mem_cons_self)
    obtain ⟨good', idle'', rest⟩ := ih (fun x hx => sub (List.mem_cons_of_mem v hx)) good idle'
    refine ⟨good', idle'', fun x hx => rest ?_⟩
    rw [List.cons_append, List.mem_cons, List.mem_append] at hx
    rcases hx with rfl | hx | hx
    · exact List.mem_append_right nodes own
    · exact List.mem_append_left _ hx
    · exact List.mem_append_right nodes (kept hx)

end Tarjan

/-- **The components are complete**, and every node is in one. -/
theorem WellFormed.complete_components {g : CallGraph} (wf : g.WellFormed) :
    ∃ found, g.components = found.reverse ∧ Complete g found ∧
      ∀ v, v ∈ found.flatten ↔ v ∈ g.ids := by
  obtain ⟨good, idle, seen⟩ := Tarjan.Good.starts wf (List.Subset.refl g.ids) .empty rfl
  refine ⟨_, rfl, good.complete, fun v => ⟨fun hv => ?_, fun hv => ?_⟩⟩
  · exact good.nodes (good.seen.2 (.inr hv))
  rcases good.seen.1 (seen (List.mem_append_left _ hv)) with on | done
  · rw [good.stack_eq_nil idle] at on
    cases on
  · exact done

end SeqAsm.CallGraph
