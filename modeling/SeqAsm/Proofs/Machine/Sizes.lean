import Mathlib
import SeqAsm.Proofs.Machine.Passage
import SeqAsm.Proofs.Machine.Limits

/-!
A limit on sizes bounds every register.

Only four things put a value into a register: the input of a run, an operation, the result of a
call, and a loop that gives back the registers of an earlier state. The results of all operations
but a plain move stay below the limit. A move takes its value from a register, or writes a constant
of the program. So if the input, these constants and the results of calls are small, then all values
are, in every state that a run passes through.
-/

namespace SeqAsm

open Arith (bitLength)

/-- All registers hold values of fewer bits than a limit. -/
def Registers.Below (limit : Int) (r : Registers) : Prop := ∀ i, bitLength (r.peek i) < limit

/-- If an instruction moves a constant, then that has fewer bits than a limit. -/
def Instruction.MovesBelow (limit : Int) (i : Instruction) : Prop :=
  i.opcode = .op .mov → ∀ value, i.operands[1]? = some (.const value) → bitLength value < limit

/-- In worlds of a kind that it never leaves, a host gives values of fewer bits than a limit. -/
structure Host.Below {σ : Type} (limit : Int) (W : σ → Prop) (host : Host σ) : Prop where
  value {id argument : Int} {w : σ} {r : Result} : W w →
    (host.call id argument w).1 = .ok r → bitLength r.value < limit
  call (id argument : Int) {w : σ} : W w → W (host.call id argument w).2
  stalled (line iterations : ℕ) {w : σ} : W w → W (host.stalled line iterations w)

namespace Registers

variable {limit i v count : Int} {r r' : Registers}

lemma bitLength_zero_lt (positive : 1 ≤ limit) : (bitLength 0 : Int) < limit := by
  have none : bitLength 0 = 0 := rfl
  omega

lemma below_empty (positive : 1 ≤ limit) (capacity : Int) : (empty capacity).Below limit := by
  intro i
  rw [peek_empty]
  exact bitLength_zero_lt positive

lemma Below.get (h : r.Below limit) (hv : r.get i = .ok v) : bitLength v < limit := by
  obtain ⟨_, -, hv⟩ := bind_eq_ok.1 hv
  obtain rfl := Except.ok.inj hv
  exact h i

lemma Below.set (h : r.Below limit) (hv : bitLength v < limit) (hr : r.set i v = .ok r') :
    r'.Below limit := by
  unfold Registers.set at hr
  split at hr
  · obtain rfl := Except.ok.inj hr
    intro j
    rw [peek_put]
    split
    · exact hv
    · exact h j
  · cases hr

lemma Below.clearRange (positive : 1 ≤ limit) (h : r.Below limit)
    (hr : r.clearRange i count = .ok r') : r'.Below limit := by
  rw [Registers.clearRange_eq] at hr
  split at hr
  · obtain rfl := Except.ok.inj hr
    exact h
  · obtain ⟨_, -, hr⟩ := bind_eq_ok.1 hr
    obtain ⟨_, -, hr⟩ := bind_eq_ok.1 hr
    obtain rfl := Except.ok.inj hr
    intro j
    rw [peek_erase]
    split
    · exact bitLength_zero_lt positive
    · exact h j

end Registers

namespace Machine

variable {σ : Type} {W : σ → Prop} {env : Env σ} {limit : Int}

lemma keeps_read {source : Operand} {P : Int → Prop} (const : ∀ v, source = .const v → P v)
    (register : ∀ v, bitLength v < limit → P v) :
    Keeps (Holds (Registers.Below limit) W) (read source) P := by
  have indirect (o : Operand) : Keeps (Holds (Registers.Below limit) W)
      (address o >>= fun a => ask (·.get a)) P :=
    (looks_address o).keeps.bind fun _ _ => keeps_ask fun r v hr hv => register v (hr.get hv)
  cases source with
  | const v => exact keeps_pure (const v rfl)
  | reg i => exact indirect (.reg i)
  | ind i => exact indirect (.ind i)

lemma keeps_set {v : Int} (hv : bitLength v < limit) (target : Int) :
    Keeps (Holds (Registers.Below limit) W) (change (·.set target v)) fun _ => True :=
  keeps_change fun _ _ hr => hr.set hv

lemma keeps_serve (small : ∀ host, env.host = some host → host.Below limit W)
    (target id argument : Int) :
    Keeps (Holds (Registers.Below limit) W) (serve env target id argument) fun _ => True := by
  refine ⟨fun {s} hs => ?_, fun _ _ => trivial⟩
  rcases hh : env.host with _ | host
  · unfold serve
    rw [hh]
    exact hs
  rw [run_serve env hh]
  have answered : Holds (Registers.Below limit) W
      { s with world := (host.call id argument s.world).2 } :=
    ⟨hs.registers, (small host hh).call id argument hs.world⟩
  rcases hr : (host.call id argument s.world).1 with e | result
  · exact answered
  · have value := (small host hh).value hs.world hr
    have taken : Keeps (Holds (Registers.Below limit) W) (take env target (.ok result))
        fun _ => True :=
      (keeps_set value target).bind fun _ _ => keeps_charge env result.steps
    exact taken.state answered

lemma keeps_follow (small : ∀ host, env.host = some host → host.Below limit W) (target : Int)
    (callee : Except Crash (Option Int)) :
    Keeps (Holds (Registers.Below limit) W) (follow env target callee) fun _ => True := by
  rcases callee with c | _ | id
  · exact keeps_throw _
  · exact keeps_throw _
  · change Keeps _ (call env target id) _
    rw [call_eq]
    refine (looks_ask _).keeps.bind fun argument _ => ?_
    split
    · exact keeps_throw _
    · exact keeps_serve small target id argument

lemma keeps_execute (positive : 1 ≤ limit) (limited : env.limits.maxValueBits = some limit)
    (small : ∀ host, env.host = some host → host.Below limit W) {i : Instruction}
    (moves : i.MovesBelow limit) :
    Keeps (Holds (Registers.Below limit) W) (execute env i) fun _ => True := by
  obtain ⟨code, operands⟩ := i
  refine (keeps_charge env 1).bind fun _ _ => ?_
  rcases operands with _ | ⟨t, sources⟩
  · exact keeps_throw _
  refine (looks_address t).keeps.bind fun target _ => ?_
  cases code with
  | seq => exact keeps_follow small target (Instruction.callee ⟨.seq, t :: sources⟩)
  | cal => exact keeps_follow small target (Instruction.callee ⟨.cal, t :: sources⟩)
  | clr =>
    rcases sources with _ | ⟨s, _⟩
    · exact keeps_throw _
    · exact (looks_read s).keeps.bind fun _ _ => keeps_change fun _ _ hr => hr.clearRange positive
  | op o =>
    rcases sources with _ | ⟨s, _⟩
    · exact keeps_throw _
    -- what a move reads is small
    have operand : Keeps (Holds (Registers.Below limit) W) (read s)
        fun v => o = .mov → bitLength v < limit := by
      refine keeps_read (fun v hv ho => ?_) fun v hv _ => hv
      subst ho hv
      exact moves rfl v rfl
    refine operand.bind fun source hs => (looks_ask _).keeps.bind fun old _ => ?_
    rw [limited]
    rcases hc : Arith.compute (some limit) o old source with f | v
    · exact keeps_throw _
    · rcases Arith.bitLength_of_compute hc with ⟨ho, rfl⟩ | hv
      · exact keeps_set (hs ho) target
      · exact keeps_set hv target

/-- **A limit on sizes bounds every register.** If the input, the constants that a program moves
and the results of calls have fewer bits than the limit, then so have all registers in every state
that a run passes through and in the one that it leaves, also when it fails, and so has its
value. -/
theorem below_of_reaches {limits : Limits} (positive : 1 ≤ limit)
    (limited : limits.maxValueBits = some limit) {host : Option (Host σ)}
    (small : ∀ h, host = some h → h.Below limit W) {p : Program}
    (moves : ∀ i line, Node.instr i line ∈ p.nodes → i.MovesBelow limit) {input : Int}
    (hi : bitLength input < limit) {world : σ} (hw : W world) :
    (∀ u, Reaches limits host p input world u → u.registers.Below limit) ∧
      (run limits host p input world).2.registers.Below limit ∧
        ∀ r, (run limits host p input world).1 = .ok r → bitLength r.value < limit := by
  have notes : Notes W host := fun h hh line iterations _ => (small h hh).stalled line iterations
  have instructions : p.body.Each fun i => Keeps (Holds (Registers.Below limit) W)
      (execute ⟨limits, p.id, host⟩ i) fun _ => True :=
    Block.each_of_nodes fun i line hn => keeps_execute positive limited small (moves i line hn)
  have begins : Holds (Registers.Below limit) W (start limits world) :=
    ⟨Registers.below_empty positive limits.capacity, hw⟩
  have taken : Keeps (Holds (Registers.Below limit) W) (change (·.set 0 input)) fun _ => True :=
    keeps_set hi 0
  have passed (u : State σ) (hu : Reaches limits host p input world u) :
      u.registers.Below limit := by
    rcases hu with rfl | ⟨s, hs, passes⟩
    · exact begins.registers
    · have entered := taken.state begins
      rw [hs] at entered
      exact (passes.holds notes instructions entered).registers
  have whole : Keeps (Holds (Registers.Below limit) W) (exec ⟨limits, p.id, host⟩ p.body input)
      fun r => bitLength r.value < limit :=
    taken.bind fun _ _ => (keeps_runBlock notes instructions).bind fun _ _ =>
      (keeps_ask fun _ _ hr hv => hr.get hv).bind fun _ hv =>
        keeps_get.bind fun _ _ => keeps_pure hv
  exact ⟨passed, passed _ (reaches_run limits host p input world),
    fun r hr => whole.value begins hr⟩

/-- A host that gives the values in a list, one after the other. -/
def dealer : Host (List Int) where
  call _ _ values := (.ok ⟨values.headD 0, 1⟩, values.tail)
  stalled _ _ values := values

def SmallValues (values : List Int) : Prop := ∀ v ∈ values, bitLength v < 8

lemma below_dealer : dealer.Below 8 SmallValues where
  value {_ _ values _} small hr := by
    obtain rfl := Except.ok.inj hr
    rcases values with _ | ⟨v, _⟩
    · decide
    · exact Int.ofNat_lt.2 (small v List.mem_cons_self)
  call _ _ {_} small v hv := small v (List.mem_of_mem_tail hv)
  stalled _ _ {_} small := small

/-- Squares the values of calls, which come to more than eight bits in the end. -/
def squares : Program where
  body :=
    .instr ⟨.op .mov, [.reg 1, .const 12]⟩ 1
      (.loop ⟨.reg 0, .const 1⟩ 2
        (.instr ⟨.op .sub, [.reg 0, .const 1]⟩ 3
          (.instr ⟨.seq, [.reg 1, .const 45]⟩ 4 (.instr ⟨.op .pow, [.reg 1, .const 2]⟩ 5 .nil)))
        .nil)

lemma moves_squares {i : Instruction} {line : ℕ} (h : Node.instr i line ∈ squares.nodes) :
    i.MovesBelow 8 := by
  rintro ho value hv
  have listed : Node.instr i line ∈ [Node.instr ⟨.op .mov, [.reg 1, .const 12]⟩ 1,
      .loop ⟨.reg 0, .const 1⟩ 2, .instr ⟨.op .sub, [.reg 0, .const 1]⟩ 3,
      .instr ⟨.seq, [.reg 1, .const 45]⟩ 4, .instr ⟨.op .pow, [.reg 1, .const 2]⟩ 5] := h
  simp only [List.mem_cons, Node.instr.injEq, reduceCtorEq, List.not_mem_nil, or_false,
    false_or] at listed
  rcases listed with ⟨rfl, -⟩ | ⟨rfl, -⟩ | ⟨rfl, -⟩ | ⟨rfl, -⟩
  · obtain rfl : 12 = value := Operand.const.inj (Option.some.inj hv)
    decide
  all_goals cases ho

theorem below_of_reaches_squares :
    SmallValues [3, 9, 100] ∧ dealer.Below 8 SmallValues ∧
      (∀ i line, Node.instr i line ∈ squares.nodes → i.MovesBelow 8) ∧
        (∃ e, (run { maxValueBits := some 8, stepBudget := 100 } (some dealer) squares 3
          [3, 9, 100]).1 = .error e) ∧
        ∀ u, Reaches { maxValueBits := some 8, stepBudget := 100 } (some dealer) squares 3
          [3, 9, 100] u → u.registers.Below 8 := by
  have values : SmallValues [3, 9, 100] := by
    unfold SmallValues
    decide
  refine ⟨values, below_dealer, fun _ _ => moves_squares, ⟨_, by cbv⟩, ?_⟩
  exact (below_of_reaches (by decide) rfl (fun _ hh => Option.some.inj hh ▸ below_dealer)
    (fun _ _ => moves_squares) (by decide) values).1

end Machine

end SeqAsm
