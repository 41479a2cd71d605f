import SeqAsm.Proofs.Program.WellFormed

/-!
The calls of a program.

A call is found where it stands, whether in a loop or not, and the dependencies of a program are what
its calls name. Only a call that lacks operands keeps them from being found, and no text says one.
-/

namespace SeqAsm

namespace Node

def call? : Node → Option CallSite
  | .instr ⟨code, _ :: .const callee :: _⟩ line =>
    if code.isCall then some ⟨callee, code, line⟩ else none
  | _ => none

/-- Calls have a target and a source. -/
def Complete : Node → Prop
  | .instr i _ => i.opcode.isCall = true → 2 ≤ i.operands.length
  | .loop .. => True

lemma WellFormed.complete {n : Node} (h : n.WellFormed) : n.Complete := by
  cases n with
  | instr i line =>
    obtain ⟨_, _, _, _⟩ := h
    exact fun _ => Nat.le_refl 2
  | loop g line => trivial

end Node

/-- An instruction lacks the operand that names what it calls, calls nothing, or makes a call. -/
lemma Instruction.callee_cases (i : Instruction) (line : ℕ) :
    (∃ c, i.callee = .error c ∧ ¬ (Node.instr i line).Complete) ∨
    (i.callee = .ok none ∧ (Node.instr i line).Complete ∧ (Node.instr i line).call? = none) ∨
    ∃ id, i.callee = .ok (some id) ∧ (Node.instr i line).Complete ∧
      (Node.instr i line).call? = some ⟨id, i.opcode, line⟩ := by
  obtain ⟨code, operands⟩ := i
  by_cases call : code.isCall = true
  · rcases operands with _ | ⟨target, _ | ⟨id | j | j, rest⟩⟩ <;>
      simp [callee, Node.Complete, Node.call?, call]
  · rcases operands with _ | ⟨target, _ | ⟨id | j | j, rest⟩⟩ <;>
      simp [callee, Node.Complete, Node.call?, call]

lemma Node.call?_of_callee {i : Instruction} {id : Int} (h : i.callee = .ok (some id)) (line : ℕ) :
    (Node.instr i line).call? = some ⟨id, i.opcode, line⟩ := by
  rcases i.callee_cases line with ⟨c, hc, -⟩ | ⟨hc, -⟩ | ⟨id', hc, -, call⟩
  · cases h.symm.trans hc
  · cases h.symm.trans hc
  · cases h.symm.trans hc
    exact call

/-- All calls are found when none lacks operands, in source order. -/
lemma Block.leadingCalls_eq_iff {ns : List Node} {sites : List CallSite} :
    leadingCalls ns = (sites, none) ↔
      (∀ n ∈ ns, n.Complete) ∧ ns.filterMap Node.call? = sites := by
  induction ns generalizing sites with
  | nil => simp [leadingCalls]
  | cons n ns ih =>
    rw [List.forall_mem_cons]
    cases n with
    | loop g line => exact ih.trans (and_congr_left' (and_iff_right trivial).symm)
    | instr i line =>
      unfold leadingCalls
      rcases i.callee_cases line with ⟨c, hc, lacks⟩ | ⟨hc, complete, none⟩ | ⟨id, hc, complete, some⟩
      · rw [hc]
        exact iff_of_false (fun h => nomatch h) fun h => lacks h.1.1
      · rw [hc, List.filterMap_cons_none none]
        exact ih.trans (and_congr_left' (and_iff_right complete).symm)
      · rw [hc, List.filterMap_cons_some some]
        dsimp only
        constructor
        · intro h
          obtain ⟨rfl, fine⟩ := Prod.mk.inj h
          obtain ⟨all, sites⟩ := ih.1 (Prod.ext rfl fine)
          exact ⟨⟨complete, all⟩, congrArg _ sites⟩
        · rintro ⟨⟨-, all⟩, rfl⟩
          rw [ih.2 ⟨all, rfl⟩]

namespace Program

variable {p : Program} {ids : List Int} {v : Int}

@[simp] lemma nodes_withId (p : Program) (id : Option Int) : (p.withId id).nodes = p.nodes :=
  rfl

/-- The dependencies of a program are those of its calls, if all of these are found. -/
lemma dependencies_eq_ok : p.dependencies = .ok ids ↔
    ∃ sites, Block.leadingCalls p.nodes = (sites, none) ∧
      Ids.ofList (sites.map (·.callee)) = ids := by
  unfold dependencies callees callSites Block.callSites nodes
  rcases Block.leadingCalls p.body.nodes with ⟨sites, _ | c⟩
  · refine ⟨fun h => ⟨sites, rfl, Except.ok.inj h⟩, fun ⟨_, hs, h⟩ => ?_⟩
    cases hs
    exact congrArg _ h
  · exact ⟨nofun, fun ⟨_, hs, _⟩ => nomatch hs⟩

/-- The dependencies of a program are those of its calls, if none of these lacks operands. -/
lemma dependencies_iff : p.dependencies = .ok ids ↔
    (∀ n ∈ p.nodes, n.Complete) ∧
      Ids.ofList ((p.nodes.filterMap Node.call?).map (·.callee)) = ids := by
  rw [dependencies_eq_ok]
  simp only [Block.leadingCalls_eq_iff]
  exact ⟨fun ⟨_, ⟨all, rfl⟩, h⟩ => ⟨all, h⟩, fun ⟨all, h⟩ => ⟨_, ⟨all, rfl⟩, h⟩⟩

lemma mem_dependencies (h : p.dependencies = .ok ids) :
    v ∈ ids ↔ ∃ n ∈ p.nodes, ∃ s, n.call? = some s ∧ s.callee = v := by
  obtain ⟨-, rfl⟩ := dependencies_iff.1 h
  rw [Ids.mem_ofList, List.mem_map]
  simp only [List.mem_filterMap]
  exact ⟨fun ⟨s, ⟨n, hn, hs⟩, hv⟩ => ⟨n, hn, s, hs, hv⟩,
    fun ⟨n, hn, s, hs, hv⟩ => ⟨s, ⟨n, hn, hs⟩, hv⟩⟩

end Program

end SeqAsm
