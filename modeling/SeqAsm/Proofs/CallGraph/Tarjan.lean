import SeqAsm.CallGraph.Components
import SeqAsm.Proofs.CallGraph.Closure

/-!
What holds while components are searched for.

Three things carry the search. A node on the stack leads to all that stand above it, and to one
under way that does not stand above it. A low number is the number of a node on the stack that its
node leads to. And when a call that ends on the stack has been followed, the number of its end is
no less than the low number of some node under way, which is handed down as nodes leave. So a node
whose low number is its own leaves with a component: the nodes above it lead to it, it leads to
them, and none of their calls ends further down.
-/

namespace SeqAsm.CallGraph

variable {g : CallGraph} {u v w x y z : Int}

/-- Components as they are completed, the latest first: the nodes of each lead to one another, and
their calls stay in it or end in one completed before. -/
inductive Complete (g : CallGraph) : List (List Int) → Prop
  | nil : Complete g []
  | cons {c : List Int} {found : List (List Int)} (inhabited : c ≠ []) (nodup : c.Nodup)
      (joined : ∀ u ∈ c, ∀ v ∈ c, Leads g.callees u v)
      (closed : ∀ u ∈ c, ∀ v ∈ g.callees u, v ∈ c ∨ v ∈ found.flatten)
      (apart : ∀ u ∈ c, u ∉ found.flatten) (before : Complete g found) : Complete g (c :: found)

namespace Complete

variable {c : List Int} {found : List (List Int)}

lemma call (h : Complete g found) (hu : u ∈ found.flatten) (call : v ∈ g.callees u) :
    v ∈ found.flatten := by
  induction h with
  | nil => exact absurd hu List.not_mem_nil
  | cons _ _ _ closed _ _ ih =>
    rw [List.flatten_cons, List.mem_append] at hu ⊢
    exact hu.elim (fun hu => closed u hu v call) fun hu => .inr (ih hu)

/-- Complete components lead to no other nodes. -/
lemma leads (h : Complete g found) (hu : u ∈ found.flatten) (path : Leads g.callees u v) :
    v ∈ found.flatten := by
  induction path with
  | refl => exact hu
  | tail _ step ih => exact h.call ih step

/-- No component leads to one completed later. -/
lemma apart (h : Complete g found) :
    found.Pairwise fun c d => ∀ v ∈ d, ∀ u ∈ c, ¬ Leads g.callees v u := by
  induction h with
  | nil => exact .nil
  | cons _ _ _ _ apart before ih =>
    refine List.pairwise_cons.2 ⟨fun d hd v hv u hu path => apart u hu ?_, ih⟩
    exact before.leads (List.mem_flatten.2 ⟨d, hd, hv⟩) path

/-- A component holds just the nodes that are together with one of its own. -/
lemma mem_iff (h : Complete g found) (hc : c ∈ found) (hu : u ∈ c) :
    v ∈ c ↔ Together g.callees u v := by
  induction h with
  | nil => cases hc
  | @cons c' found inhabited nodup joined closed apart before ih =>
    rcases List.mem_cons.1 hc with rfl | hc
    · refine ⟨fun hv => ⟨joined u hu v hv, joined v hv u hu⟩, fun together => ?_⟩
      have whole := Complete.cons inhabited nodup joined closed apart before
      have hv := whole.leads (List.mem_append_left found.flatten hu) together.1
      refine (List.mem_append.1 hv).resolve_right fun earlier => apart u hu ?_
      exact before.leads earlier together.2
    · exact ih hc

lemma nodup (h : Complete g found) (hc : c ∈ found) : c.Nodup := by
  induction h with
  | nil => cases hc
  | cons _ nodup _ _ _ _ ih =>
    rcases List.mem_cons.1 hc with rfl | hc
    · exact nodup
    · exact ih hc

lemma ne_nil (h : Complete g found) (hc : c ∈ found) : c ≠ [] := by
  induction h with
  | nil => cases hc
  | cons inhabited _ _ _ _ _ ih =>
    rcases List.mem_cons.1 hc with rfl | hc
    · exact inhabited
    · exact ih hc

end Complete

namespace Tarjan

/-! ### The stack -/

section

variable {number number' : Int → ℕ} {stack above path : List Int}

lemma mem_of_mem_above (hx : x ∈ above ++ [v]) : x ∈ above ++ v :: stack := by
  rw [List.append_cons]
  exact List.mem_append_left stack hx

/-- The stack, and the nodes under way on it. Numbers fall from the top. A node leads to those of
greater number, and to one under way of no greater number. -/
structure Linked (g : CallGraph) (number : Int → ℕ) (stack path : List Int) : Prop where
  sorted : stack.Pairwise fun x y => number y < number x
  order : path.Pairwise fun x y => number y < number x
  sub : path ⊆ stack
  up {x y : Int} : x ∈ stack → y ∈ stack → number x ≤ number y → Leads g.callees x y
  down {y : Int} : y ∈ stack → ∃ x ∈ path, number x ≤ number y ∧ Leads g.callees y x

namespace Linked

lemma nil : Linked g number [] [] := ⟨.nil, .nil, List.nil_subset [], nofun, nofun⟩

lemma congr (L : Linked g number stack path) (same : ∀ x ∈ stack, number' x = number x) :
    Linked g number' stack path where
  sorted := L.sorted.imp_of_mem fun hx hy less => by rwa [same _ hx, same _ hy]
  order := L.order.imp_of_mem fun hx hy less => by rwa [same _ (L.sub hx), same _ (L.sub hy)]
  sub := L.sub
  up hx hy le := L.up hx hy (by rwa [same _ hx, same _ hy] at le)
  down hy := by
    obtain ⟨x, hx, le, leads⟩ := L.down hy
    exact ⟨x, hx, by rwa [same _ (L.sub hx), same _ hy], leads⟩

lemma lt_of_mem_path (L : Linked g number stack (v :: path)) (hx : x ∈ path) :
    number x < number v :=
  (List.pairwise_cons.1 L.order).1 x hx

/-- All nodes on the stack lead to the latest under way. -/
lemma leads_latest (L : Linked g number stack (v :: path)) (hx : x ∈ stack) :
    Leads g.callees x v := by
  obtain ⟨y, hy, -, leads⟩ := L.down hx
  refine leads.trans (L.up (L.sub hy) (L.sub List.mem_cons_self) ?_)
  rcases List.mem_cons.1 hy with rfl | hy
  · exact le_rfl
  · exact (L.lt_of_mem_path hy).le

lemma push (L : Linked g number stack path) (leads : ∀ x ∈ stack, Leads g.callees x w)
    (less : ∀ x ∈ stack, number x < number w) : Linked g number (w :: stack) (w :: path) where
  sorted := List.pairwise_cons.2 ⟨less, L.sorted⟩
  order := List.pairwise_cons.2 ⟨fun x hx => less x (L.sub hx), L.order⟩
  sub := List.cons_subset_cons w L.sub
  up {x y} hx hy le := by
    rcases List.mem_cons.1 hx with rfl | old
    · rcases List.mem_cons.1 hy with rfl | old
      · exact .refl
      · exact absurd le (less y old).not_ge
    · rcases List.mem_cons.1 hy with rfl | old'
      · exact leads x old
      · exact L.up old old' le
  down {y} hy := by
    rcases List.mem_cons.1 hy with rfl | hy
    · exact ⟨y, List.mem_cons_self, le_rfl, .refl⟩
    · obtain ⟨x, hx, h⟩ := L.down hy
      exact ⟨x, List.mem_cons_of_mem w hx, h⟩

lemma leave (L : Linked g number stack (v :: path)) (hz : z ∈ stack) (less : number z < number v)
    (leads : Leads g.callees v z) : Linked g number stack path where
  sorted := L.sorted
  order := (List.pairwise_cons.1 L.order).2
  sub := fun _ hx => L.sub (List.mem_cons_of_mem v hx)
  up := L.up
  down {y} hy := by
    obtain ⟨x, hx, le, forth⟩ := L.down hy
    rcases List.mem_cons.1 hx with rfl | hx
    · -- what came down to `v` comes down further, past `z`
      obtain ⟨x', hx', le', forth'⟩ := L.down hz
      rcases List.mem_cons.1 hx' with rfl | hx'
      · omega
      · exact ⟨x', hx', by omega, forth.trans (leads.trans forth')⟩
    · exact ⟨x, hx, le, forth⟩

section

variable (L : Linked g number (above ++ v :: stack) (v :: path))

include L

lemma lt_of_mem (hx : x ∈ stack) : number x < number v :=
  (List.pairwise_cons.1 (List.pairwise_append.1 L.sorted).2.1).1 x hx

lemma le_of_mem (hx : x ∈ above ++ [v]) : number v ≤ number x := by
  rcases List.mem_append.1 hx with hx | hx
  · exact ((List.pairwise_append.1 L.sorted).2.2 x hx v List.mem_cons_self).le
  · exact (congrArg number (List.mem_singleton.1 hx)).ge

/-- On a stack, a node stands below another when its number is less. -/
lemma mem_of_lt (hx : x ∈ above ++ v :: stack) (less : number x < number v) : x ∈ stack := by
  rw [List.append_cons] at hx
  exact (List.mem_append.1 hx).resolve_left fun hx => (L.le_of_mem hx).not_gt less

lemma mem_of_le (hx : x ∈ above ++ v :: stack) (le : number v ≤ number x) : x ∈ above ++ [v] := by
  rw [List.append_cons] at hx
  exact (List.mem_append.1 hx).resolve_right fun hx => (L.lt_of_mem hx).not_ge le

/-- The latest node under way and those above it lead to one another. -/
lemma joined (hx : x ∈ above ++ [v]) (hy : y ∈ above ++ [v]) : Leads g.callees x y :=
  (L.leads_latest (mem_of_mem_above hx)).trans
    (L.up (L.sub List.mem_cons_self) (mem_of_mem_above hy) (L.le_of_mem hy))

lemma complete : Linked g number stack path where
  sorted := (List.pairwise_cons.1 (List.pairwise_append.1 L.sorted).2.1).2
  order := (List.pairwise_cons.1 L.order).2
  sub := fun _ hx => L.mem_of_lt (L.sub (List.mem_cons_of_mem v hx)) (L.lt_of_mem_path hx)
  up hx hy := L.up (List.mem_append_right above (List.mem_cons_of_mem v hx))
    (List.mem_append_right above (List.mem_cons_of_mem v hy))
  down {y} hy := by
    obtain ⟨x, hx, le, leads⟩ := L.down (List.mem_append_right above (List.mem_cons_of_mem v hy))
    rcases List.mem_cons.1 hx with rfl | hx
    · exact absurd (L.lt_of_mem hy) le.not_gt
    · exact ⟨x, hx, le, leads⟩

end

end Linked

end

/-! ### Nodes under way -/

section

variable {number number' : Int → ℕ} {stack above pending : List Int} {found : List (List Int)}
  {work : List Frame} {low low' : ℕ}

/-- A call from `u` to `w` is known: of the nodes under way, from the latest down to the first that
stands no higher than `u`, one has a low number that is no greater than the number of `w`. -/
def Noted (number : Int → ℕ) (u w : Int) : List Frame → Prop
  | [] => True
  | f :: work => f.low ≤ number w ∨ number u < number f.node ∧ Noted number u w work

/-- What has become of a call. -/
inductive Call (number : Int → ℕ) (stack : List Int) (found : List (List Int)) (work : List Frame)
    (u w : Int) : Prop
  | pending {f : Frame} (under : f ∈ work) (caller : f.node = u) (waits : w ∈ f.pending)
  | complete (done : w ∈ found.flatten)
  | noted (on : w ∈ stack) (known : Noted number u w work)

/-- The nodes under way, and the calls of the nodes on the stack. -/
structure Frames (g : CallGraph) (number : Int → ℕ) (stack : List Int) (found : List (List Int))
    (work : List Frame) : Prop where
  pending {f : Frame} : f ∈ work → f.pending ⊆ g.callees f.node
  low_le {f : Frame} : f ∈ work → f.low ≤ number f.node
  low {f : Frame} : f ∈ work → ∃ z ∈ stack, number z = f.low ∧ Leads g.callees f.node z
  call {u w : Int} : u ∈ stack → w ∈ g.callees u → Call number stack found work u w

lemma Noted.congr (h : Noted number u w work) (nodes : ∀ f ∈ work, number' f.node = number f.node)
    (hu : number' u = number u) (hw : number' w = number w) : Noted number' u w work := by
  induction work with
  | nil => trivial
  | cons f work ih =>
    unfold Noted at h ⊢
    rw [hu, hw, nodes f List.mem_cons_self]
    exact h.imp_right (And.imp_right fun h => ih h fun f hf => nodes f (List.mem_cons_of_mem _ hf))

/-- Nothing has to be known of a call to a node that stands higher. -/
lemma Noted.of_le (lows : ∀ f ∈ work, f.low ≤ number f.node) (le : number u ≤ number w) :
    Noted number u w work := by
  induction work with
  | nil => trivial
  | cons f work ih =>
    have own := lows f List.mem_cons_self
    rcases Nat.lt_or_ge (number u) (number f.node) with less | above
    · exact .inr ⟨less, ih fun f hf => lows f (List.mem_cons_of_mem _ hf)⟩
    · exact .inl (own.trans (above.trans le))

lemma Noted.follow {front : List Frame} (le : low' ≤ low)
    (h : Noted number u x (front ++ ⟨v, w :: pending, low⟩ :: work)) :
    Noted number u x (front ++ ⟨v, pending, low'⟩ :: work) := by
  induction front with
  | nil => exact h.imp_left le.trans
  | cons f front ih => exact h.imp_right (And.imp_right ih)

/-- What a node under way knows is handed down when it leaves. -/
lemma Noted.leave {f : Frame} (h : Noted number u w (f :: work)) :
    Noted number u w (lower f.low work) := by
  rcases work with _ | ⟨f', work⟩
  · trivial
  rcases h with known | ⟨-, known | h⟩
  · exact .inl ((min_le_right _ _).trans known)
  · exact .inl ((min_le_left _ _).trans known)
  · exact .inr h

lemma mem_lower {f : Frame} {n : ℕ} (hf : f ∈ lower n work) : ∃ f' ∈ work, f.node = f'.node ∧
    f.pending = f'.pending ∧ f.low ≤ f'.low ∧ (f.low = f'.low ∨ f.low = n) := by
  rcases work with _ | ⟨f', work⟩
  · cases hf
  rcases List.mem_cons.1 hf with rfl | hf
  · exact ⟨f', List.mem_cons_self, rfl, rfl, min_le_left _ _, min_choice _ _⟩
  · exact ⟨f, List.mem_cons_of_mem f' hf, rfl, rfl, le_rfl, .inl rfl⟩

lemma lower_mem {f : Frame} {n : ℕ} (hf : f ∈ work) :
    ∃ f' ∈ lower n work, f'.node = f.node ∧ f'.pending = f.pending := by
  rcases work with _ | ⟨f', work⟩
  · cases hf
  rcases List.mem_cons.1 hf with rfl | hf
  · exact ⟨_, List.mem_cons_self, rfl, rfl⟩
  · exact ⟨f, List.mem_cons_of_mem _ hf, rfl, rfl⟩

lemma map_node_lower (n : ℕ) : (lower n work).map (·.node) = work.map (·.node) := by
  cases work with
  | nil => rfl
  | cons f work => rfl

namespace Frames

lemma nil : Frames g number [] found [] := ⟨nofun, nofun, nofun, nofun⟩

lemma congr (F : Frames g number stack found work) (sub : work.map (·.node) ⊆ stack)
    (same : ∀ x ∈ stack, number' x = number x) : Frames g number' stack found work where
  pending := F.pending
  low_le {f} hf := by
    rw [same _ (sub (List.mem_map_of_mem hf))]
    exact F.low_le hf
  low {f} hf := by
    obtain ⟨z, hz, at_, leads⟩ := F.low hf
    exact ⟨z, hz, by rwa [same z hz], leads⟩
  call {u w} hu hw := by
    rcases F.call hu hw with ⟨under, caller, waits⟩ | done | ⟨on, known⟩
    · exact .pending under caller waits
    · exact .complete done
    · exact .noted on (known.congr (fun f hf => same _ (sub (List.mem_map_of_mem hf)))
        (same u hu) (same w on))

lemma push (F : Frames g number stack found work) (less : ∀ x ∈ stack, number x < number w) :
    Frames g number (w :: stack) found (⟨w, g.callees w, number w⟩ :: work) where
  pending {f} hf := by
    rcases List.mem_cons.1 hf with rfl | hf
    · exact List.Subset.refl _
    · exact F.pending hf
  low_le {f} hf := by
    rcases List.mem_cons.1 hf with rfl | hf
    · exact le_rfl
    · exact F.low_le hf
  low {f} hf := by
    rcases List.mem_cons.1 hf with rfl | hf
    · exact ⟨w, List.mem_cons_self, rfl, .refl⟩
    · obtain ⟨z, hz, h⟩ := F.low hf
      exact ⟨z, List.mem_cons_of_mem w hz, h⟩
  call {u x} hu hx := by
    rcases List.mem_cons.1 hu with rfl | old
    · exact .pending List.mem_cons_self rfl hx
    rcases F.call old hx with ⟨under, caller, waits⟩ | done | ⟨on, known⟩
    · exact .pending (List.mem_cons_of_mem _ under) caller waits
    · exact .complete done
    · exact .noted (List.mem_cons_of_mem w on) (.inr ⟨less u old, known⟩)

/-- A call of a node under way is followed, and its low number may fall. -/
lemma follow (front : List Frame)
    (F : Frames g number stack found (front ++ ⟨v, w :: pending, low⟩ :: work)) (le : low' ≤ low)
    (leads : ∃ z ∈ stack, number z = low' ∧ Leads g.callees v z)
    (call : Call number stack found (front ++ ⟨v, pending, low'⟩ :: work) v w) :
    Frames g number stack found (front ++ ⟨v, pending, low'⟩ :: work) := by
  have mid : ⟨v, w :: pending, low⟩ ∈ front ++ ⟨v, w :: pending, low⟩ :: work :=
    List.mem_append_right front List.mem_cons_self
  have mid' : ⟨v, pending, low'⟩ ∈ front ++ ⟨v, pending, low'⟩ :: work :=
    List.mem_append_right front List.mem_cons_self
  have other {f f₁ f₂ : Frame} (hf : f ∈ front ++ f₁ :: work) :
      f = f₁ ∨ f ∈ front ++ f₂ :: work := by
    simp only [List.mem_append, List.mem_cons] at hf ⊢
    tauto
  refine ⟨fun {f} hf => ?_, fun {f} hf => ?_, fun {f} hf => ?_, fun {u x} hu hx => ?_⟩
  · rcases other hf with rfl | hf
    · exact fun x hx => F.pending mid (List.mem_cons_of_mem w hx)
    · exact F.pending hf
  · rcases other hf with rfl | hf
    · exact le.trans (F.low_le mid)
    · exact F.low_le hf
  · rcases other hf with rfl | hf
    · exact leads
    · exact F.low hf
  · rcases F.call hu hx with ⟨under, caller, waits⟩ | done | ⟨on, known⟩
    · rcases other under with rfl | under
      · obtain rfl := caller
        rcases List.mem_cons.1 waits with rfl | waits
        · exact call
        · exact .pending mid' rfl waits
      · exact .pending under caller waits
    · exact .complete done
    · exact .noted on (known.follow le)

lemma follow_up (front : List Frame)
    (F : Frames g number stack found (front ++ ⟨v, w :: pending, low⟩ :: work)) (on : w ∈ stack)
    (up : number v ≤ number w) :
    Frames g number stack found (front ++ ⟨v, pending, low⟩ :: work) :=
  F.follow front le_rfl (F.low (List.mem_append_right front List.mem_cons_self))
    (.noted on (.follow le_rfl (.of_le (fun _ hf => F.low_le hf) up)))

lemma leave (F : Frames g number stack found (⟨v, [], low⟩ :: work))
    (L : Linked g number stack (v :: work.map (·.node))) :
    Frames g number stack found (lower low work) where
  pending {f} hf := by
    obtain ⟨f', hf', node, pending, -⟩ := mem_lower hf
    rw [node, pending]
    exact F.pending (List.mem_cons_of_mem _ hf')
  low_le {f} hf := by
    obtain ⟨f', hf', node, -, le, -⟩ := mem_lower hf
    rw [node]
    exact le.trans (F.low_le (List.mem_cons_of_mem _ hf'))
  low {f} hf := by
    obtain ⟨f', hf', node, -, -, own | given⟩ := mem_lower hf
    · rw [node, own]
      exact F.low (List.mem_cons_of_mem _ hf')
    · have under : f'.node ∈ work.map (·.node) := List.mem_map_of_mem hf'
      obtain ⟨z, hz, at_, leads⟩ := F.low List.mem_cons_self
      have forth := L.up (L.sub (List.mem_cons_of_mem v under)) (L.sub List.mem_cons_self)
        (L.lt_of_mem_path under).le
      rw [node, given]
      exact ⟨z, hz, at_, forth.trans leads⟩
  call {u w} hu hw := by
    rcases F.call hu hw with ⟨under, caller, waits⟩ | done | ⟨on, known⟩
    · rcases List.mem_cons.1 under with rfl | under
      · cases waits
      · obtain ⟨f', hf', node, pending⟩ := lower_mem (n := low) under
        exact .pending hf' (node.trans caller) (pending ▸ waits)
    · exact .complete done
    · exact .noted on known.leave

lemma complete (F : Frames g number (above ++ v :: stack) found work)
    (L : Linked g number (above ++ v :: stack) (v :: work.map (·.node))) :
    Frames g number stack ((above ++ [v]) :: found) work where
  pending := F.pending
  low_le := F.low_le
  low {f} hf := by
    obtain ⟨z, hz, at_, leads⟩ := F.low hf
    have less := L.lt_of_mem_path (List.mem_map_of_mem hf)
    exact ⟨z, L.mem_of_lt hz (at_.trans_lt ((F.low_le hf).trans_lt less)), at_, leads⟩
  call {u w} hu hw := by
    rcases F.call (List.mem_append_right above (List.mem_cons_of_mem v hu)) hw with
      ⟨under, caller, waits⟩ | done | ⟨on, known⟩
    · exact .pending under caller waits
    · exact .complete (List.mem_append_right (above ++ [v]) done)
    · rcases Nat.lt_or_ge (number w) (number v) with less | le
      · exact .noted (L.mem_of_lt on less) known
      · exact .complete (List.mem_append_left found.flatten (L.mem_of_le on le))

/-- **A component is closed.** When the low number of a node that leaves is its own, the calls of
the nodes that stand above it end there or in components completed before. -/
lemma closed (F : Frames g number (above ++ v :: stack) found (⟨v, [], number v⟩ :: work))
    (L : Linked g number (above ++ v :: stack) (v :: work.map (·.node))) (hu : u ∈ above ++ [v])
    (hw : w ∈ g.callees u) : w ∈ above ++ [v] ∨ w ∈ found.flatten := by
  have le := L.le_of_mem hu
  rcases F.call (mem_of_mem_above hu) hw with
    ⟨under, caller, waits⟩ | done | ⟨on, known | ⟨less, -⟩⟩
  · -- `v` has no call left, and the others under way stand below it
    rcases List.mem_cons.1 under with rfl | under
    · cases waits
    · have less := L.lt_of_mem_path (List.mem_map_of_mem under)
      rw [caller] at less
      exact absurd le less.not_ge
  · exact .inr done
  · exact .inl (L.mem_of_le on known)
  · exact absurd le less.not_ge

end Frames

end

end Tarjan

end SeqAsm.CallGraph
