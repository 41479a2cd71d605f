import SeqAsm.Proofs.Machine.Hosts
import SeqAsm.Proofs.Machine.Limits

/-!
The trail of a run.

A traced machine keeps the nodes that are being executed on a trail, the innermost first. A node
comes on the trail before it does anything and goes when it has done everything; when it fails, it
stays. So a failure leaves the trail as it was at the moment when the failure arose. Nothing else
changes.

A failure that arises in a node has no place yet, and is given that of the node, whose line has a
number. From then on it has a place and keeps it, through all loops and calls that it ends.
-/

namespace SeqAsm

/-- The failure of a run that a diagnostic describes. -/
def Failure.IsEvaluation : Failure → Prop
  | .diagnostic d => d.cause.isEvaluation = true
  | .crash _ => False

lemma Cause.context_of_isEvaluation {c : Cause} (h : c.isEvaluation = true) : c.context = [] := by
  cases c with
  | unresolvedDependency p r => cases h
  | cyclicDependency c => cases h
  | _ => rfl

/-- A node that is being executed, and the program that it is a node of. -/
structure Frame where
  program : Program
  node : Node

namespace Diagnostic

/-- A diagnostic has the place and the text of a node, and names the program if that has an id. -/
structure PointsAt (d : Diagnostic) (f : Frame) : Prop where
  numbered : 0 < f.node.line
  span : d.span = { file := f.program.id.elim "<input>" programFile, line := f.node.line }
  sourceLine : d.sourceLine = f.node.text
  program : ∀ id, f.program.id = some id → d.context.lookup "program_id" = some (.int id)

/-- A diagnostic that has no place yet. If it says which program is running, it says so rightly. -/
structure Fresh (program : Option Int) (d : Diagnostic) : Prop where
  unlocated : d.isLocated = false
  program : d.context.lookup "program_id" = none ∨
    d.context.lookup "program_id" = some (program.elim .null .int)

/-- The innermost node on a trail is a node of a program that is known, and a diagnostic points at
it. -/
def Pinned (known : Program → Prop) (trail : List Frame) (d : Diagnostic) : Prop :=
  ∃ f outer, trail = f :: outer ∧ known f.program ∧ f.node ∈ f.program.nodes ∧ d.PointsAt f

variable {d : Diagnostic} {f : Frame} {known : Program → Prop} {trail : List Frame}

lemma PointsAt.isLocated (h : d.PointsAt f) : d.isLocated = true := by
  rw [Diagnostic.isLocated, h.span, decide_eq_true_iff]
  exact Int.natCast_pos.2 h.numbered

lemma Pinned.isLocated (h : d.Pinned known trail) : d.isLocated = true := by
  obtain ⟨f, outer, -, -, -, points⟩ := h
  exact points.isLocated

lemma span_addDetail (d : Diagnostic) (name : String) (value : Datum) :
    (d.addDetail name value).span = d.span := by
  unfold addDetail
  split <;> rfl

lemma sourceLine_addDetail (d : Diagnostic) (name : String) (value : Datum) :
    (d.addDetail name value).sourceLine = d.sourceLine := by
  unfold addDetail
  split <;> rfl

lemma lookup_addDetail (d : Diagnostic) (name : String) (value : Datum) :
    (d.addDetail name value).context.lookup name =
      some ((d.context.lookup name).getD value) := by
  unfold addDetail
  split
  · rename_i h
    obtain ⟨v, hv⟩ := Option.isSome_iff_exists.1 h
    rw [hv, Option.getD_some]
  · rename_i h
    have missing : d.context.lookup name = none := Option.not_isSome_iff_eq_none.1 h
    have more : context { d with details := d.details ++ [(name, value)] } =
        d.context ++ [(name, value)] := (List.append_assoc _ _ _).symm
    rw [more, List.lookup_append, missing, Option.none_or, List.lookup_cons_self, Option.getD_none]

/-- The place that a fresh diagnostic is given makes it point there. -/
lemma pointsAt_locate {p : Program} {n : Node} (fresh : d.Fresh p.id) (numbered : 0 < n.line) :
    (d.locate { file := p.id.elim "<input>" programFile, line := n.line } n.text p.id).PointsAt
      ⟨p, n⟩ := by
  unfold locate
  rw [fresh.unlocated, if_neg Bool.false_ne_true]
  rcases hid : p.id with _ | id
  · exact ⟨numbered, by rw [hid], rfl, fun id h => nomatch hid.symm.trans h⟩
  refine ⟨numbered, by rw [span_addDetail, hid], sourceLine_addDetail _ _ _, fun id' h => ?_⟩
  obtain rfl : id = id' := Option.some.inj (hid.symm.trans h)
  rw [lookup_addDetail]
  have named := fresh.program
  rw [hid] at named
  change some ((d.context.lookup "program_id").getD _) = _
  rcases named with h | h <;> rw [h] <;> rfl

end Diagnostic

namespace Failure

/-- A failure of a run points at the innermost node on a trail. -/
def Blames (known : Program → Prop) (trail : List Frame) : Failure → Prop
  | .diagnostic d => d.cause.isEvaluation = true → d.Pinned known trail
  | .crash _ => True

/-- A failure of a run points at the innermost node on a trail, unless it has arisen in a node that
has not given it a place yet, with a given trail. -/
def Arises (known : Program → Prop) (program : Option Int) (here trail : List Frame) :
    Failure → Prop
  | .diagnostic d => d.cause.isEvaluation = true →
    d.Fresh program ∧ trail = here ∨ d.Pinned known trail
  | .crash _ => True

variable {e : Failure} {known : Program → Prop} {program : Option Int} {here trail : List Frame}

lemma Blames.arises (h : e.Blames known trail) : e.Arises known program here trail := by
  cases e with
  | diagnostic d => exact fun evaluation => .inr (h evaluation)
  | crash c => trivial

lemma blames_of_not_isEvaluation (h : ¬ e.IsEvaluation) : e.Blames known trail := by
  cases e with
  | diagnostic d => exact fun evaluation => absurd evaluation h
  | crash c => trivial

end Failure

namespace Machine

variable {σ τ : Type} {known : Program → Prop} {e : Failure} {l l' : List Frame}

lemma Raised.arises {env : Env σ} (h : Raised env e) : e.Arises known env.program l l := by
  cases h with
  | crash c => trivial
  | bare c =>
    refine fun evaluation => .inl ⟨⟨rfl, .inl ?_⟩, rfl⟩
    rw [Diagnostic.context, Cause.context_of_isEvaluation evaluation]
    rfl
  | running c =>
    refine fun evaluation => .inl ⟨⟨rfl, .inr ?_⟩, rfl⟩
    rw [Diagnostic.context, Cause.context_of_isEvaluation evaluation]
    rfl

/-- What has arisen in a node points at it once the node has given it a place. -/
lemma blames_locate {limits : Limits} {host : Option (Host σ)} {p : Program} {n : Node}
    (hk : known p) (hn : n ∈ p.nodes) (numbered : 0 < n.line)
    (h : e.Arises known p.id (⟨p, n⟩ :: l) l') :
    (locate ⟨limits, p.id, host⟩ n e).Blames known l' := by
  cases e with
  | crash c => trivial
  | diagnostic d =>
    unfold locate place
    dsimp only
    split
    · rename_i evaluation
      intro _
      rcases h evaluation with ⟨fresh, rfl⟩ | pinned
      · exact ⟨⟨p, n⟩, l, rfl, hk, hn, Diagnostic.pointsAt_locate fresh numbered⟩
      · rwa [Diagnostic.locate_of_isLocated pinned.isLocated]
    · exact fun evaluation => absurd evaluation ‹_›

/-! ### The traced machine -/

def State.enter (s : State (σ × List Frame)) (f : Frame) : State (σ × List Frame) :=
  { s with world := (s.world.1, f :: s.world.2) }

def State.leave (s : State (σ × List Frame)) : State (σ × List Frame) :=
  { s with world := (s.world.1, s.world.2.tail) }

/-- Does what a node does, with the node on the trail; after a failure it is still there. -/
def track (f : Frame) (act : Exec (σ × List Frame) Unit) : Exec (σ × List Frame) Unit := do
  modify (·.enter f)
  act
  modify (·.leave)

def traceBlock (env : Env (σ × List Frame)) (p : Program) :
    Block → Exec (σ × List Frame) Unit
  | .nil => pure ()
  | .instr i line rest => do
    visit env (.instr i line) (track ⟨p, .instr i line⟩ (execute env i))
    traceBlock env p rest
  | .loop h line body rest => do
    visit env (.loop h line)
      (track ⟨p, .loop h line⟩ (repeatBody env h line (traceBlock env p body)))
    traceBlock env p rest

def traceExec (env : Env (σ × List Frame)) (p : Program) (input : Int) :
    Exec (σ × List Frame) Result := do
  change (·.set 0 input)
  traceBlock env p p.body
  let value ← ask (·.get 0)
  return ⟨value, (← get).steps⟩

def trace (limits : Limits) (host : Option (Host (σ × List Frame))) (p : Program) (input : Int)
    (world : σ × List Frame) : Except Failure Result × State (σ × List Frame) :=
  (traceExec ⟨limits, p.id, host⟩ p input).run (start limits world)

lemma run_track (f : Frame) (act : Exec (σ × List Frame) Unit) (s : State (σ × List Frame)) :
    (track f act).run s = match act.run (s.enter f) with
      | (.ok (), s') => (.ok (), s'.leave)
      | (.error e, s') => (.error e, s') := by
  rw [track, run_bind, run_modify]
  dsimp only
  rw [run_bind]
  rcases act.run (s.enter f) with ⟨_ | _, _⟩ <;> rfl

lemma rising_track {act : Exec (σ × List Frame) Unit} (h : Rising act) : Rising (track f act) :=
  Rising.bind (fun _ => le_rfl) fun _ => h.bind fun _ => fun _ => le_rfl

/-! ### Tracing changes nothing, and failures point where the trail ends -/

section

variable (known) (R : σ → τ → Prop)

/-- Related states, and a given trail. -/
def On (l : List Frame) (w : σ × List Frame) (v : τ) : Prop := R w.1 v ∧ w.2 = l

/-- Related states, and a failure that points at the innermost node. -/
def Blaming (e : Failure) (w : σ × List Frame) (v : τ) : Prop := R w.1 v ∧ e.Blames known w.2

/-- Related states, and a failure that points at the innermost node or has arisen in it. -/
def Arising (program : Option Int) (l : List Frame) (e : Failure) (w : σ × List Frame) (v : τ) :
    Prop := R w.1 v ∧ e.Arises known program l w.2

end

variable {R : σ → τ → Prop} {calls : Int → Prop} {capacity : Int} {limits : Limits} {p : Program}
  {h : Host (σ × List Frame)} {k : Host τ}

/-- What points at the innermost node may be taken to have arisen in it. -/
lemma together_arising (program : Option Int) {x : Exec (σ × List Frame) Unit} {y : Exec τ Unit}
    (hxy : (together capacity (On R l) (Blaming known R)).Couples x y) :
    (together capacity (On R l) (Arising known R program l)).Couples x y :=
  Together.mono (fun _ _ _ h => ⟨h.1, h.2.arises⟩) hxy

/-- A node that is tracked does what it does otherwise; what arises in it is pinned to it. -/
lemma together_node {n : Node} (hk : known p) (hn : n ∈ p.nodes) (numbered : 0 < n.line)
    {x : Exec (σ × List Frame) Unit} {y : Exec τ Unit}
    (hxy : (together capacity (On R (⟨p, n⟩ :: l)) (Arising known R p.id (⟨p, n⟩ :: l))).Couples
      x y) :
    (together capacity (On R l) (Blaming known R)).Couples
      (visit ⟨limits, p.id, some h⟩ n (track ⟨p, n⟩ x)) (visit ⟨limits, p.id, some k⟩ n y) := by
  refine ⟨(rising_track hxy.left).visit _ _, hxy.right.visit _ _, fun s t hst => ?_⟩
  obtain ⟨⟨registers, steps, related, on⟩, hc⟩ := together_states.1 hst
  have entered : Matching (On R (⟨p, n⟩ :: l)) (s.enter ⟨p, n⟩) t :=
    ⟨registers, steps, related, congrArg _ on⟩
  have out := hxy.out (s.enter ⟨p, n⟩) t (together_states.2 ⟨entered, hc⟩)
  rw [run_visit, run_visit, run_track]
  rcases hx : x.run (s.enter ⟨p, n⟩) with ⟨e | _, s'⟩ <;> rcases hy : y.run t with ⟨e' | _, t'⟩ <;>
    rw [hx, hy] at out
  · obtain ⟨rfl, registers, steps, related, arises⟩ := out
    exact ⟨rfl, registers, steps, related, blames_locate hk hn numbered arises⟩
  · exact out.elim
  · exact out.elim
  · obtain ⟨⟨registers, steps, related, on⟩, hc⟩ := together_states.1 out.2
    exact ⟨rfl, together_states.2 ⟨⟨registers, steps, related, congrArg List.tail on⟩, hc⟩⟩

/-- **Blocks keep their trail**, and what fails in them is pinned to the innermost node. -/
theorem together_traceBlock
    (A : ∀ l, Agree ⟨limits, p.id, some h⟩ (On R l) (Arising known R p.id l) calls h k)
    (hk : known p) (numbered : ∀ n ∈ p.nodes, 0 < n.line) {b : Block} (hb : b.CallsIn calls)
    (hn : ∀ n ∈ b.nodes, n ∈ p.nodes) (l : List Frame) :
    (together capacity (On R l) (Blaming known R)).Couples
      (traceBlock ⟨limits, p.id, some h⟩ p b) (runBlock ⟨limits, p.id, some k⟩ b) := by
  have L (l : List Frame) : Tandem (together capacity (On R l) (Arising known R p.id l))
      ⟨limits, p.id, some h⟩ ⟨limits, p.id, some k⟩ calls := tandem_of_agree (A l)
  induction b generalizing l with
  | nil => exact .pure ()
  | instr i line rest ih =>
    obtain ⟨hn, hrest⟩ := List.forall_mem_cons.1 hn
    have inside := (L (⟨p, .instr i line⟩ :: l)).execute i hb.1
    exact (together_node hk hn (numbered _ hn) inside).bind fun _ => ih hb.2 hrest l
  | loop g line body rest ihb ihr =>
    obtain ⟨hn, hrest⟩ := List.forall_mem_cons.1 hn
    obtain ⟨hbody, hrest⟩ := List.forall_mem_append.1 hrest
    have once := together_arising p.id (ihb hb.1 hbody (⟨p, .loop g line⟩ :: l))
    have inside := (L (⟨p, .loop g line⟩ :: l)).repeatBody g line once
    exact (together_node hk hn (numbered _ hn) inside).bind fun _ => ihr hb.2 hrest l

variable {input : Int} {w : σ} {v : τ}

/-- **Tracing changes nothing.** A traced run gives what the run gives, and related states stay
related. A result leaves the trail as it was; a failure of a run points at the innermost node. -/
theorem trace_spec
    (A : ∀ l, Agree ⟨limits, p.id, some h⟩ (On R l) (Arising known R p.id l) calls h k)
    (hc : 0 < limits.capacity) (hk : known p) (numbered : ∀ n ∈ p.nodes, 0 < n.line)
    (hp : p.body.CallsIn calls) (input : Int) (hR : R w v) (l : List Frame) :
    (trace limits (some h) p input (w, l)).1 = (run limits (some k) p input v).1 ∧
      R (trace limits (some h) p input (w, l)).2.world.1 (run limits (some k) p input v).2.world ∧
      (∀ a, (trace limits (some h) p input (w, l)).1 = .ok a →
        (trace limits (some h) p input (w, l)).2.world.2 = l) ∧
      ∀ e, (trace limits (some h) p input (w, l)).1 = .error e →
        e.Blames known (trace limits (some h) p input (w, l)).2.world.2 := by
  -- there is a register zero, so its input and its value are never refused
  have zero {r : Registers} (hr : r.capacity = limits.capacity) : (0 : Int) ≤ 0 ∧ 0 < r.capacity :=
    ⟨Int.le_refl 0, hr ▸ hc⟩
  have taken : (together limits.capacity (On R l) (Blaming known R)).Couples
      (change (·.set 0 input)) (change (·.set 0 input)) := by
    refine together_change (fun r e hr he => ?_) fun _ _ => Registers.capacity_of_set
    rw [Registers.set, dif_pos (zero hr)] at he
    cases he
  have given : (together limits.capacity (On R l) (Blaming known R)).Couples
      (ask (·.get 0)) (ask (·.get 0)) := by
    refine together_ask fun r e hr he => ?_
    rw [Registers.get, Registers.check, if_pos (zero hr)] at he
    cases he
  have body : (together limits.capacity (On R l) (Blaming known R)).Couples _ _ :=
    together_traceBlock A hk numbered hp (fun _ hn => hn) l
  have whole : (together limits.capacity (On R l) (Blaming known R)).Couples
      (traceExec ⟨limits, p.id, some h⟩ p input) (exec ⟨limits, p.id, some k⟩ p.body input) := by
    refine taken.bind fun _ => body.bind fun _ => given.bind fun value =>
      .look (fun _ => rising_pure _) (fun _ => rising_pure _) fun s t hst => ?_
    exact ⟨congrArg (Result.mk value) hst.same, hst⟩
  have out := whole.out (start limits (w, l)) (start limits v) ⟨⟨rfl, rfl⟩, rfl, trivial, hR, rfl⟩
  obtain ⟨same, ok, failed⟩ := together_outcome.1 out
  refine ⟨same, ?_⟩
  rcases hu : (trace limits (some h) p input (w, l)).1 with e | a
  · obtain ⟨related, blames⟩ := (failed e hu).world
    exact ⟨related, fun _ ha => (nomatch ha), fun e' he => Except.error.inj he ▸ blames⟩
  · obtain ⟨related, on⟩ := (ok a hu).1.world
    exact ⟨related, fun _ _ => on, fun _ he => nomatch he⟩

end Machine

end SeqAsm
