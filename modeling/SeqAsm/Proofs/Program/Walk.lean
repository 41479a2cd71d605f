import SeqAsm.Proofs.Program.Matching

/-!
Meeting every node of a program once.

The address of a node says at which place of the body it stands, or inside the loop at which place,
and so on. The nodes in source order are those at the addresses of the program in ascending order,
and an iteration that keeps what is left of each open body on a stack meets them in that order. A
loop has two steps and every other node has one, so the nodes also tell how many steps there are.
-/

namespace SeqAsm

namespace Block

/-! ### Addresses -/

/-- The node at an address: its place in the block, or the place of a loop followed by an address in
its body. -/
def node? : Block → List ℕ → Option Node
  | _, [] | nil, _ :: _ => none
  | instr i line _, [0] => some (.instr i line)
  | instr _ _ _, 0 :: _ :: _ => none
  | loop h line _ _, [0] => some (.loop h line)
  | loop _ _ body _, 0 :: k :: a => body.node? (k :: a)
  | instr _ _ rest, (k + 1) :: a | loop _ _ _ rest, (k + 1) :: a => rest.node? (k :: a)

/-- The same address behind one more node. -/
def next : List ℕ → List ℕ
  | [] => []
  | k :: a => (k + 1) :: a

/-- The addresses of the nodes in source order. -/
def addresses : Block → List (List ℕ)
  | nil => []
  | instr _ _ rest => [0] :: rest.addresses.map next
  | loop _ _ body rest => [0] :: (body.addresses.map (0 :: ·) ++ rest.addresses.map next)

variable {b : Block} {a : List ℕ}

@[simp] lemma node?_nil (b : Block) : b.node? [] = none := by
  cases b <;> rfl

@[simp] lemma node?_next_instr (i : Instruction) (line : ℕ) (rest : Block) (a : List ℕ) :
    (instr i line rest).node? (next a) = rest.node? a := by
  cases a with
  | nil => simp [next]
  | cons k a => rfl

@[simp] lemma node?_next_loop (h : LoopHeader) (line : ℕ) (body rest : Block) (a : List ℕ) :
    (loop h line body rest).node? (next a) = rest.node? a := by
  cases a with
  | nil => simp [next]
  | cons k a => rfl

lemma node?_inside (h : LoopHeader) (line : ℕ) (body rest : Block) (ha : a ≠ []) :
    (loop h line body rest).node? (0 :: a) = body.node? a := by
  obtain ⟨k, a, rfl⟩ := List.exists_cons_of_ne_nil ha
  rfl

lemma next_ne_nil (ha : a ≠ []) : next a ≠ [] := by
  obtain ⟨k, a, rfl⟩ := List.exists_cons_of_ne_nil ha
  exact List.cons_ne_nil _ _

lemma ne_nil_of_mem_addresses (h : a ∈ b.addresses) : a ≠ [] := by
  induction b generalizing a with
  | nil => cases h
  | instr i line rest ih =>
    rcases List.mem_cons.1 h with rfl | h
    · exact List.cons_ne_nil 0 []
    · obtain ⟨a, ha, rfl⟩ := List.mem_map.1 h
      exact next_ne_nil (ih ha)
  | loop g line body rest _ ih =>
    rcases List.mem_cons.1 h with rfl | h
    · exact List.cons_ne_nil 0 []
    rcases List.mem_append.1 h with h | h
    · obtain ⟨a, -, rfl⟩ := List.mem_map.1 h
      exact List.cons_ne_nil 0 a
    · obtain ⟨a, ha, rfl⟩ := List.mem_map.1 h
      exact next_ne_nil (ih ha)

/-- The nodes are those at the addresses, in the same order. -/
lemma map_node?_addresses (b : Block) : b.addresses.map b.node? = b.nodes.map some := by
  induction b with
  | nil => rfl
  | instr i line rest ih =>
    have behind : (rest.addresses.map next).map (instr i line rest).node? =
        rest.nodes.map some := by
      rw [← ih, List.map_map]
      exact List.map_congr_left fun a _ => node?_next_instr i line rest a
    rw [addresses, List.map_cons, behind]
    rfl
  | loop h line body rest body_ih rest_ih =>
    have inside : (body.addresses.map (0 :: ·)).map (loop h line body rest).node? =
        body.nodes.map some := by
      rw [← body_ih, List.map_map]
      exact List.map_congr_left fun a ha =>
        node?_inside h line body rest (ne_nil_of_mem_addresses ha)
    have behind : (rest.addresses.map next).map (loop h line body rest).node? =
        rest.nodes.map some := by
      rw [← rest_ih, List.map_map]
      exact List.map_congr_left fun a _ => node?_next_loop h line body rest a
    rw [addresses, List.map_cons, List.map_append, inside, behind, nodes, List.map_cons,
      List.map_append]
    rfl

section

variable {l : List (List ℕ)} {k : ℕ}

@[simp] lemma succ_mem_map_next : (k + 1) :: a ∈ l.map next ↔ k :: a ∈ l := by
  rw [List.mem_map]
  constructor
  · rintro ⟨c, hc, he⟩
    cases c with
    | nil => cases he
    | cons j c =>
      obtain ⟨rfl, rfl⟩ : j = k ∧ c = a := by simpa [next] using he
      exact hc
  · exact fun h => ⟨k :: a, h, rfl⟩

@[simp] lemma zero_not_mem_map_next : 0 :: a ∉ l.map next := by
  rw [List.mem_map]
  rintro ⟨_ | ⟨j, c⟩, -, he⟩ <;> cases he

@[simp] lemma succ_not_mem_map_zero : (k + 1) :: a ∉ l.map (0 :: ·) := by simp

end

lemma mem_addresses : a ∈ b.addresses ↔ (b.node? a).isSome := by
  rcases a with _ | ⟨k, a⟩
  · simpa using fun h => ne_nil_of_mem_addresses h rfl
  induction b generalizing k a with
  | nil => exact iff_of_false List.not_mem_nil nofun
  | instr i line rest ih =>
    rcases k with _ | k
    · cases a <;> simp [addresses, node?]
    · simpa [addresses, node?] using ih k a
  | loop h line body rest body_ih rest_ih =>
    rcases k with _ | k
    · rcases a with _ | ⟨j, a⟩
      · simp [addresses, node?]
      · simpa [addresses, node?] using body_ih j a
    · simpa [addresses, node?] using rest_ih k a

lemma next_lt_next {a c : List ℕ} (h : a < c) : next a < next c := by
  cases c with
  | nil => exact absurd h (List.not_lt_nil a)
  | cons j c =>
    cases a with
    | nil => exact List.nil_lt_cons (j + 1) c
    | cons k a =>
      rw [List.cons_lt_cons_iff] at h
      rw [next, next, List.cons_lt_cons_iff]
      exact h.imp (fun h => Nat.succ_lt_succ h) fun h => ⟨congrArg Nat.succ h.1, h.2⟩

/-- All addresses inside the first node stand before those behind it. -/
lemma zero_cons_lt_next {a c : List ℕ} (hc : c ≠ []) : 0 :: a < next c := by
  obtain ⟨k, c, rfl⟩ := List.exists_cons_of_ne_nil hc
  exact List.cons_lt_cons_iff.2 (.inl k.succ_pos)

/-- **Nodes in source order.** Addresses are listed in ascending order, which puts a loop before
what is inside it, and that before what is behind the loop. -/
lemma pairwise_addresses (b : Block) : b.addresses.Pairwise (· < ·) := by
  induction b with
  | nil => exact .nil
  | instr i line rest ih =>
    refine List.pairwise_cons.2 ⟨fun a ha => ?_, ih.map next fun _ _ => next_lt_next⟩
    obtain ⟨c, hc, rfl⟩ := List.mem_map.1 ha
    exact zero_cons_lt_next (ne_nil_of_mem_addresses hc)
  | loop h line body rest body_ih rest_ih =>
    have inside : (body.addresses.map (0 :: ·)).Pairwise (· < ·) :=
      body_ih.map _ fun _ _ h => List.cons_lt_cons_iff.2 (.inr ⟨rfl, h⟩)
    have behind : (rest.addresses.map next).Pairwise (· < ·) :=
      rest_ih.map next fun _ _ => next_lt_next
    refine List.pairwise_cons.2 ⟨fun a ha => ?_, List.pairwise_append.2 ⟨inside, behind, ?_⟩⟩
    · rcases List.mem_append.1 ha with ha | ha
      · obtain ⟨c, hc, rfl⟩ := List.mem_map.1 ha
        obtain ⟨k, c, rfl⟩ := List.exists_cons_of_ne_nil (ne_nil_of_mem_addresses hc)
        exact List.cons_lt_cons_iff.2 (.inr ⟨rfl, List.nil_lt_cons k c⟩)
      · obtain ⟨c, hc, rfl⟩ := List.mem_map.1 ha
        exact zero_cons_lt_next (ne_nil_of_mem_addresses hc)
    · intro a ha c hc
      obtain ⟨a, -, rfl⟩ := List.mem_map.1 ha
      obtain ⟨c, hc', rfl⟩ := List.mem_map.1 hc
      exact zero_cons_lt_next (ne_nil_of_mem_addresses hc')

/-! ### Iterating with a stack -/

/-- The nodes that an iteration meets which keeps on a stack what is left of each open body, the
innermost first. It goes on with the innermost body, takes that off the stack when nothing is left
of it, and puts the body of a loop on the stack when it meets the loop. -/
def walk : List Block → List Node
  | [] => []
  | nil :: stack => walk stack
  | instr i line rest :: stack => .instr i line :: walk (rest :: stack)
  | loop h line body rest :: stack => .loop h line :: walk (body :: rest :: stack)
termination_by stack => 2 * (stack.flatMap nodes).length + stack.length
decreasing_by
  all_goals
    simp only [List.flatMap_cons, List.length_append, List.length_cons, nodes]
    omega

/-- What an iteration still meets are the nodes on its stack. -/
lemma walk_eq_flatMap (stack : List Block) : walk stack = stack.flatMap nodes := by
  fun_induction walk stack with
  | case1 => rfl
  | case2 stack ih => exact ih
  | case3 stack i line rest ih => rw [ih]; rfl
  | case4 stack h line body rest ih =>
    rw [ih]
    simp [nodes]

lemma walk_singleton (b : Block) : walk [b] = b.nodes := by
  rw [walk_eq_flatMap, List.flatMap_singleton]

/-! ### Counting -/

/-- The lines of the nodes are those of the steps that have one. -/
lemma filterMap_line?_steps (b : Block) : b.steps.filterMap Step.line? = b.nodes.map Node.line := by
  induction b with
  | nil => rfl
  | instr i line rest ih =>
    rw [steps, nodes, List.map_cons, ← ih]
    rfl
  | loop h line body rest body_ih rest_ih =>
    rw [steps, nodes, List.map_cons, List.map_append, ← body_ih, ← rest_ih]
    have closing : (Step.closing :: rest.steps).filterMap Step.line? =
        rest.steps.filterMap Step.line? := rfl
    rw [← closing, ← List.filterMap_append]
    rfl

/-- A loop has two steps, any other node has one. -/
lemma sum_weight (b : Block) : (b.nodes.map Node.weight).sum = b.steps.length := by
  induction b with
  | nil => rfl
  | instr i line rest ih =>
    rw [nodes, steps, List.map_cons, List.sum_cons, List.length_cons, ih, Node.weight, Nat.add_comm]
  | loop h line body rest body_ih rest_ih =>
    rw [nodes, steps, List.map_cons, List.map_append, List.sum_cons, List.sum_append, body_ih,
      rest_ih, List.length_cons, List.length_append, List.length_cons, Node.weight]
    omega

lemma length_lines (b : Block) (d : ℕ) : (b.lines d).length = b.steps.length := by
  induction b generalizing d with
  | nil => rfl
  | instr i line rest ih => rw [lines, steps, List.length_cons, List.length_cons, ih]
  | loop h line body rest body_ih rest_ih =>
    rw [lines, steps, List.length_cons, List.length_append, List.length_cons, body_ih, rest_ih,
      List.length_cons, List.length_append, List.length_cons]

end Block

namespace Program

lemma size_eq (p : Program) : p.size = p.body.steps.length := p.body.sum_weight

def walk (p : Program) : List Node := Block.walk [p.body]

/-- An iteration meets the nodes in source order. -/
lemma walk_eq_nodes (p : Program) : p.walk = p.nodes := p.body.walk_singleton

/-- **An iteration meets every node once**, each loop before its body: it meets the nodes at all
addresses, in ascending order. -/
theorem walk_spec (p : Program) :
    p.body.addresses.Pairwise (· < ·) ∧ (∀ a, a ∈ p.body.addresses ↔ (p.body.node? a).isSome) ∧
      p.body.addresses.map p.body.node? = p.walk.map some := by
  refine ⟨p.body.pairwise_addresses, fun a => Block.mem_addresses, ?_⟩
  rw [walk_eq_nodes]
  exact p.body.map_node?_addresses

end Program

end SeqAsm
