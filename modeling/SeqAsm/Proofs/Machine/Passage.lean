import SeqAsm.Proofs.Machine.Loops

/-!
The states that a run passes through.

A run passes through the state in which a node begins and the one in which it ends or fails, and
where the node is a loop, through those of its body in each iteration. What instructions keep of the
registers, loops keep too: a loop that ends gives back registers that the run has had. So it holds
in every state that a run passes through, and in the one that it leaves.
-/

namespace SeqAsm

namespace Block

/-- Every instruction in a block has a property. -/
def Each (P : Instruction → Prop) : Block → Prop
  | nil => True
  | instr i _ rest => P i ∧ rest.Each P
  | loop _ _ body rest => body.Each P ∧ rest.Each P

lemma each_of_nodes {P : Instruction → Prop} :
    ∀ {b : Block}, (∀ i line, Node.instr i line ∈ b.nodes → P i) → b.Each P
  | nil, _ => trivial
  | instr i line _, h =>
    ⟨h i line List.mem_cons_self, each_of_nodes fun j l hj => h j l (List.mem_cons_of_mem _ hj)⟩
  | loop _ _ _ _, h =>
    ⟨each_of_nodes fun j l hj => h j l (List.mem_cons_of_mem _ (List.mem_append_left _ hj)),
      each_of_nodes fun j l hj => h j l (List.mem_cons_of_mem _ (List.mem_append_right _ hj))⟩

end Block

namespace Machine

variable {σ α β : Type}

/-! ### States on the way -/

/-- The states in which the body of a loop begins, in one of the iterations from a state on. -/
inductive Begins (env : Env σ) (h : LoopHeader) (line : ℕ) (body : Exec σ Unit) :
    (shortest done : ℕ) → State σ → State σ → Prop
  | now {m done : ℕ} {s s' : State σ} : (charge env 1).run s = (.ok (), s') →
      Begins env h line body m done s s'
  | later {m done length : ℕ} {start : Int} {s s' u : State σ} :
      Pass env h body s s' start length →
      verdict env line s.registers start (min length m) done s' = none →
      Begins env h line body (min length m) (done + 1) s' u → Begins env h line body m done s u

/-- The states that a block passes through from a state on. -/
inductive Passes (env : Env σ) : Block → State σ → State σ → Prop
  | here (b : Block) (s : State σ) : Passes env b s s
  | instr (i : Instruction) (line : ℕ) (rest : Block) (s : State σ) :
      Passes env (.instr i line rest) s ((execute env i).run s).2
  | afterInstr {i : Instruction} {line : ℕ} {rest : Block} {s s' u : State σ} :
      (execute env i).run s = (.ok (), s') → Passes env rest s' u →
      Passes env (.instr i line rest) s u
  | inside {h : LoopHeader} {line length : ℕ} {body rest : Block} {s s' u : State σ} :
      (rangeLength env h).run s = (.ok length, s) →
      Begins env h line (runBlock env body) length 0 s s' → Passes env body s' u →
      Passes env (.loop h line body rest) s u
  | loop (h : LoopHeader) (line : ℕ) (body rest : Block) (s : State σ) :
      Passes env (.loop h line body rest) s ((repeatBody env h line (runBlock env body)).run s).2
  | afterLoop {h : LoopHeader} {line : ℕ} {body rest : Block} {s s' u : State σ} :
      (repeatBody env h line (runBlock env body)).run s = (.ok (), s') → Passes env rest s' u →
      Passes env (.loop h line body rest) s u

/-- The states that a run passes through, from before it takes its input. -/
def Reaches (limits : Limits) (host : Option (Host σ)) (p : Program) (input : Int) (world : σ)
    (u : State σ) : Prop :=
  u = start limits world ∨ ∃ s, (change (·.set 0 input)).run (start limits world) = (.ok (), s) ∧
    Passes ⟨limits, p.id, host⟩ p.body s u

variable {env : Env σ}

/-- The state that a block leaves, also when it fails, is one that it passes through. -/
lemma passes_runBlock (env : Env σ) (b : Block) (s : State σ) :
    Passes env b s ((runBlock env b).run s).2 := by
  induction b generalizing s with
  | nil => exact .here _ s
  | instr i line rest ih =>
    rw [runBlock, run_bind, run_visit]
    rcases hx : (execute env i).run s with ⟨e | _, s'⟩
    · have last : Passes env _ s _ := .instr i line rest s
      rw [hx] at last
      exact last
    · exact .afterInstr hx (ih s')
  | loop h line body rest _ ih =>
    rw [runBlock, run_bind, run_visit]
    rcases hx : (repeatBody env h line (runBlock env body)).run s with ⟨e | _, s'⟩
    · have last : Passes env _ s _ := .loop h line body rest s
      rw [hx] at last
      exact last
    · exact .afterLoop hx (ih s')

lemma reaches_run (limits : Limits) (host : Option (Host σ)) (p : Program) (input : Int)
    (world : σ) :
    Reaches limits host p input world (run limits host p input world).2 := by
  rcases taken : (change (·.set 0 input)).run (start limits world) with ⟨e | _, s⟩
  · left
    rw [run, exec, run_bind, taken]
    rw [run_change] at taken
    split at taken
    · cases taken
    · exact (congrArg Prod.snd taken).symm
  · right
    refine ⟨s, taken, ?_⟩
    have last := passes_runBlock ⟨limits, p.id, host⟩ p.body s
    rw [run, exec, run_bind, taken]
    dsimp only
    rw [run_bind]
    rcases hb : (runBlock ⟨limits, p.id, host⟩ p.body).run s with ⟨e | _, s'⟩ <;> rw [hb] at last
    · exact last
    dsimp only
    rw [run_bind, run_ask]
    rcases s'.registers.get 0 with e | value
    · exact last
    · exact last

/-! ### What computations keep -/

/-- A property of registers and one of worlds, of a state. -/
structure Holds (R : Registers → Prop) (W : σ → Prop) (s : State σ) : Prop where
  registers : R s.registers
  world : W s.world

/-- From states with a property, a computation leads to such states, also when it fails, and the
values that it returns have a property of their own. -/
structure Keeps (I : State σ → Prop) (x : Exec σ α) (Q : α → Prop) : Prop where
  state {s : State σ} : I s → I (x.run s).2
  value {s : State σ} {a : α} : I s → (x.run s).1 = .ok a → Q a

section

variable {I : State σ → Prop} {P Q : α → Prop}

lemma keeps_pure {a : α} (h : Q a) : Keeps I (pure a) Q :=
  ⟨id, fun _ ha => Except.ok.inj ha ▸ h⟩

lemma keeps_throw (e : Failure) : Keeps I (throw e : Exec σ α) Q := ⟨id, nofun⟩

lemma keeps_get : Keeps I (get : Exec σ (State σ)) I := ⟨id, fun hs ha => Except.ok.inj ha ▸ hs⟩

lemma Keeps.bind {x : Exec σ α} {f : α → Exec σ β} {Q : β → Prop} (hx : Keeps I x P)
    (hf : ∀ a, P a → Keeps I (f a) Q) : Keeps I (x >>= f) Q := by
  have split (s : State σ) (hs : I s) :
      I ((x >>= f).run s).2 ∧ ∀ b, ((x >>= f).run s).1 = .ok b → Q b := by
    have kept := hx.state hs
    rw [run_bind]
    rcases hr : x.run s with ⟨e | a, s'⟩ <;> rw [hr] at kept
    · exact ⟨kept, nofun⟩
    · have rest := hf a (hx.value hs (congrArg Prod.fst hr))
      exact ⟨rest.state kept, fun _ => rest.value kept⟩
  exact ⟨fun hs => (split _ hs).1, fun hs => (split _ hs).2 _⟩

lemma Looks.keeps {x : Exec σ α} (hx : Looks x) : Keeps I x fun _ => True :=
  ⟨fun {s} hs => (hx s).symm ▸ hs, fun _ _ => trivial⟩

lemma Keeps.visit {x : Exec σ Unit} (hx : Keeps I x fun _ => True) (env : Env σ) (n : Node) :
    Keeps I (visit env n x) fun _ => True := by
  refine ⟨fun {s} hs => ?_, fun _ _ => trivial⟩
  have kept := hx.state hs
  rw [run_visit]
  rcases hr : x.run s with ⟨e | _, s'⟩ <;> rw [hr] at kept
  · exact kept
  · exact kept

end

section

variable {R : Registers → Prop} {W : σ → Prop}

lemma keeps_ask {f : Registers → Except Failure α} {Q : α → Prop}
    (h : ∀ r a, R r → f r = .ok a → Q a) : Keeps (Holds R W) (ask f) Q := by
  refine ⟨fun hs => ?_, fun hs ha => ?_⟩
  · rw [run_ask]
    exact hs
  · rw [run_ask] at ha
    exact h _ _ hs.registers ha

lemma keeps_change {f : Registers → Except Failure Registers}
    (h : ∀ r r', R r → f r = .ok r' → R r') :
    Keeps (Holds R W) (change f) fun _ => True := by
  refine ⟨fun {s} hs => ?_, fun _ _ => trivial⟩
  rw [run_change]
  rcases hf : f s.registers with e | r
  · exact hs
  · exact ⟨h _ _ hs.registers hf, hs.world⟩

lemma keeps_charge (env : Env σ) (n : ℕ) :
    Keeps (Holds R W) (charge env n) fun _ => True := by
  refine ⟨fun {s} hs => ?_, fun _ _ => trivial⟩
  rw [run_charge]
  split
  · exact ⟨hs.registers, hs.world⟩
  · exact ⟨hs.registers, hs.world⟩

/-- The host takes note of loops without losing a property of its worlds. -/
def Notes (W : σ → Prop) (host : Option (Host σ)) : Prop :=
  ∀ h, host = some h → ∀ line iterations w, W w → W (h.stalled line iterations w)

variable {h : LoopHeader} {line : ℕ} {body : Exec σ Unit}

lemma keeps_judge (notes : Notes W env.host) {before : Registers} (hb : R before) (start : Int)
    (length done : ℕ) {again : Exec σ Unit} (ha : Keeps (Holds R W) again fun _ => True) :
    Keeps (Holds R W) (judge env line before start length done again) fun _ => True := by
  refine ⟨fun {s} hs => ?_, fun _ _ => trivial⟩
  unfold judge
  rw [run_bind, run_get]
  dsimp only
  split
  · split
    · split
      · exact hs
      · exact ha.state hs
    · exact ha.state hs
  · split
    · rcases hh : env.host with _ | host
      · exact hs
      · exact ⟨hs.registers, notes host hh line done _ hs.world⟩
    · exact ⟨hb, hs.world⟩

/-- A loop gives back registers that there have been. -/
lemma keeps_iterate (notes : Notes W env.host) (hb : Keeps (Holds R W) body fun _ => True)
    (fuel shortest done : ℕ) :
    Keeps (Holds R W) (iterate env h line body fuel shortest done) fun _ => True := by
  induction fuel generalizing shortest done with
  | zero => exact keeps_charge env 1
  | succ fuel ih =>
    rw [iterate_succ]
    refine keeps_get.bind fun s hs => (keeps_charge env 1).bind fun _ _ => hb.bind fun _ _ =>
      (looks_address h.target).keeps.bind fun start _ =>
        (looks_rangeLength env h).keeps.bind fun length _ => ?_
    exact keeps_judge notes hs.registers start _ done (ih _ (done + 1))

lemma keeps_repeatBody (notes : Notes W env.host) (hb : Keeps (Holds R W) body fun _ => True)
    (h : LoopHeader) (line : ℕ) :
    Keeps (Holds R W) (repeatBody env h line body) fun _ => True :=
  (looks_rangeLength env h).keeps.bind fun _ _ => keeps_get.bind fun _ _ =>
    keeps_iterate notes hb _ _ 0

/-- **Blocks keep what their instructions keep.** -/
lemma keeps_runBlock (notes : Notes W env.host) : ∀ {b : Block},
    (b.Each fun i => Keeps (Holds R W) (execute env i) fun _ => True) →
      Keeps (Holds R W) (runBlock env b) fun _ => True
  | .nil, _ => keeps_pure trivial
  | .instr _ _ _, hi => (hi.1.visit env _).bind fun _ _ => keeps_runBlock notes hi.2
  | .loop h line _ _, hi =>
    ((keeps_repeatBody notes (keeps_runBlock notes hi.1) h line).visit env _).bind fun _ _ =>
      keeps_runBlock notes hi.2

/-- What a body keeps holds whenever it begins. -/
lemma Begins.holds {m done : ℕ} {s u : State σ} (hb : Keeps (Holds R W) body fun _ => True)
    (begins : Begins env h line body m done s u) (hs : Holds R W s) : Holds R W u := by
  induction begins with
  | now paid =>
    have kept := (keeps_charge env 1).state hs
    rwa [paid] at kept
  | @later _ _ _ _ s _ _ p _ _ ih =>
    have kept := hb.state (s := { s with steps := s.steps + 1 }) ⟨hs.registers, hs.world⟩
    rw [p.body] at kept
    exact ih kept

/-- **What instructions keep holds in every state on the way.** -/
theorem Passes.holds (notes : Notes W env.host) {b : Block} {s u : State σ}
    (passes : Passes env b s u)
    (hi : b.Each fun i => Keeps (Holds R W) (execute env i) fun _ => True)
    (hs : Holds R W s) : Holds R W u := by
  induction passes with
  | here => exact hs
  | instr => exact hi.1.state hs
  | afterInstr ok _ ih =>
    have kept := hi.1.state hs
    rw [ok] at kept
    exact ih hi.2 kept
  | inside _ begins _ ih => exact ih hi.1 (begins.holds (keeps_runBlock notes hi.1) hs)
  | loop h line => exact (keeps_repeatBody notes (keeps_runBlock notes hi.1) h line).state hs
  | @afterLoop h line _ _ _ _ _ ok _ ih =>
    have kept := (keeps_repeatBody notes (keeps_runBlock notes hi.1) h line).state hs
    rw [ok] at kept
    exact ih hi.2 kept

end

end Machine

end SeqAsm
