import Std.Data.ExtTreeMap
import SeqAsm.Diagnostic.Basic

/-!
The register file. Registers have the indices from zero up to a capacity and hold integers,
initially zero. Only the registers that are not zero are stored, so two files of one capacity
are equal exactly when all their registers are.
-/

namespace SeqAsm

structure Registers where
  capacity : Int
  cells : Std.ExtTreeMap Int Int
  nonzero : ∀ i : Int, cells[i]? ≠ some 0
  bounded : ∀ i : Int, i ∈ cells → 0 ≤ i ∧ i < capacity

namespace Registers

instance : DecidableEq Registers := fun a b =>
  if h : a.capacity = b.capacity ∧ a.cells = b.cells then
    isTrue (by
      cases a
      cases b
      obtain ⟨rfl, rfl⟩ := h
      rfl)
  else isFalse fun e => h (by simp [e])

def empty (capacity : Int) : Registers where
  capacity
  cells := ∅
  nonzero i := by simp
  bounded i h := by simp at h

/-- The value at any index, zero where there is no register. -/
def peek (r : Registers) (i : Int) : Int := r.cells[i]?.getD 0

def check (r : Registers) (i : Int) : Except Failure Unit :=
  if 0 ≤ i ∧ i < r.capacity then .ok () else .error (.of (.registerAddress i r.capacity) [])

def get (r : Registers) (i : Int) : Except Failure Int := do
  r.check i
  return r.peek i

def put (r : Registers) (i v : Int) (h : 0 ≤ i ∧ i < r.capacity) : Registers where
  capacity := r.capacity
  cells := if v = 0 then r.cells.erase i else r.cells.insert i v
  nonzero j := by
    have := r.nonzero j
    by_cases hv : v = 0
    · simp only [hv, if_true, Std.ExtTreeMap.getElem?_erase]
      split <;> simp_all
    · simp only [hv, if_false, Std.ExtTreeMap.getElem?_insert]
      split <;> simp_all
  bounded j := by
    have := r.bounded j
    by_cases hv : v = 0
    · simp only [hv, if_true, Std.ExtTreeMap.mem_erase]
      exact fun hj => this hj.2
    · simp only [hv, if_false, Std.ExtTreeMap.mem_insert, Std.compare_eq_iff_eq]
      rintro (rfl | hj)
      · exact h
      · exact this hj

def set (r : Registers) (i v : Int) : Except Failure Registers :=
  if h : 0 ≤ i ∧ i < r.capacity then .ok (r.put i v h)
  else .error (.of (.registerAddress i r.capacity) [])

/-- The file with zeros from `start` on for `count` registers. -/
def erase (r : Registers) (start count : Int) : Registers where
  capacity := r.capacity
  cells := r.cells.filter fun i _ => !(start ≤ i && i < start + count)
  nonzero j := by
    have := r.nonzero j
    rw [Std.ExtTreeMap.getElem?_filter']
    cases h : r.cells[j]? with
    | none => simp
    | some v =>
      rw [h] at this
      simp only [Option.filter_some]
      split <;> simp_all
  bounded j h := r.bounded j (Std.ExtTreeMap.mem_of_mem_filter h)

def drop (r : Registers) (i : Int) : Registers where
  capacity := r.capacity
  cells := r.cells.erase i
  nonzero j := by
    have := r.nonzero j
    rw [Std.ExtTreeMap.getElem?_erase]
    split <;> simp_all
  bounded j h := r.bounded j (Std.ExtTreeMap.mem_erase.1 h).2

/-- The file with zeros from `start` on for `count` registers, put one by one. -/
def eraseEach (r : Registers) (start : Int) : Nat → Registers
  | 0 => r
  | count + 1 => (r.drop start).eraseEach (start + 1) count

def size (r : Registers) : Nat := r.cells.size

/-- Sets `count` registers from `start` on to zero. A count that is not positive asks for
nothing. When more registers are stored than are asked for, those asked for are gone through, and
otherwise those stored. -/
def clearRange (r : Registers) (start count : Int) : Except Failure Registers :=
  if count ≤ 0 then .ok r
  else do
    r.check start
    r.check (start + count - 1)
    return if count < r.size then r.eraseEach start count.toNat else r.erase start count

def same (a b : Registers) : Bool := a.cells = b.cells

/-- Compares `count` registers from `i` on with those of an earlier file, from the first
upwards: the first difference decides, and a negative value decides against. -/
def isLess (r old : Registers) (i : Int) : Nat → Bool
  | 0 => false
  | count + 1 =>
    if r.peek i < 0 then false
    else if r.peek i < old.peek i then true
    else if old.peek i < r.peek i then false
    else r.isLess old (i + 1) count

def anyFrom (r : Registers) (test : Int → Bool) (i : Int) : Nat → Bool
  | 0 => false
  | count + 1 => test (r.peek i) || r.anyFrom test (i + 1) count

def hasNegative (r : Registers) (start : Int) (count : Nat) : Bool :=
  r.anyFrom (· < 0) start count

def hasPositive (r : Registers) (start : Int) (count : Nat) : Bool :=
  r.anyFrom (0 < ·) start count

def highest? (r : Registers) : Option Int := r.cells.maxKey?

def toList (r : Registers) : List (Int × Int) := r.cells.toList

def text (r : Registers) : String :=
  "[" ++ ",".intercalate (r.toList.map fun c => toString c.1 ++ ":" ++ toString c.2) ++ "]"

@[simp] theorem peek_empty (capacity i : Int) : (empty capacity).peek i = 0 := by
  simp [peek, empty]

theorem peek_put (r : Registers) (i v : Int) (h : 0 ≤ i ∧ i < r.capacity) (j : Int) :
    (r.put i v h).peek j = if i = j then v else r.peek j := by
  by_cases hv : v = 0
  · simp only [peek, put, hv, if_true, Std.ExtTreeMap.getElem?_erase, Std.compare_eq_iff_eq]
    split <;> simp
  · simp only [peek, put, hv, if_false, Std.ExtTreeMap.getElem?_insert, Std.compare_eq_iff_eq]
    split <;> simp

theorem peek_erase (r : Registers) (start count j : Int) :
    (r.erase start count).peek j = if start ≤ j ∧ j < start + count then 0 else r.peek j := by
  simp only [peek, erase, Std.ExtTreeMap.getElem?_filter']
  cases r.cells[j]? with
  | none => simp
  | some v =>
    simp only [Option.filter_some]
    split <;> split <;> simp_all

theorem cells_ext {a b : Registers} (h : ∀ i, a.peek i = b.peek i) : a.cells = b.cells := by
  apply Std.ExtTreeMap.ext_getElem?
  intro i
  have := h i
  have ha := a.nonzero i
  have hb := b.nonzero i
  unfold peek at this
  cases hx : a.cells[i]? <;> cases hy : b.cells[i]? <;> simp_all

/-- Files of one capacity with equal values are equal. -/
theorem ext_peek {a b : Registers} (hc : a.capacity = b.capacity) (h : ∀ i, a.peek i = b.peek i) :
    a = b := by
  have key := cells_ext h
  cases a
  cases b
  simp_all

theorem peek_drop (r : Registers) (i j : Int) :
    (r.drop i).peek j = if i = j then 0 else r.peek j := by
  simp only [peek, drop, Std.ExtTreeMap.getElem?_erase, Std.compare_eq_iff_eq]
  split <;> simp

theorem peek_eraseEach (r : Registers) (start : Int) (count : Nat) (j : Int) :
    (r.eraseEach start count).peek j = if start ≤ j ∧ j < start + count then 0 else r.peek j := by
  induction count generalizing r start with
  | zero => rw [if_neg (by omega), eraseEach]
  | succ count ih =>
    rw [eraseEach, ih, peek_drop]
    split
    · rw [if_pos (by omega)]
    · split
      · rw [if_pos (by omega)]
      · rw [if_neg (by omega)]

@[simp] theorem capacity_eraseEach (r : Registers) (start : Int) (count : Nat) :
    (r.eraseEach start count).capacity = r.capacity := by
  induction count generalizing r start with
  | zero => rfl
  | succ count ih => exact ih (r.drop start) (start + 1)

/-- It does not matter which registers are gone through. -/
theorem eraseEach_eq (r : Registers) (start : Int) (count : Nat) :
    r.eraseEach start count = r.erase start count := by
  refine ext_peek (capacity_eraseEach r start count) fun j => ?_
  rw [peek_eraseEach, peek_erase]

theorem clearRange_eq (r : Registers) (start count : Int) :
    r.clearRange start count = if count ≤ 0 then .ok r else do
      r.check start
      r.check (start + count - 1)
      return r.erase start count := by
  unfold clearRange
  split
  · rfl
  · rw [eraseEach_eq, Int.toNat_of_nonneg (by omega), ite_self]

end Registers

end SeqAsm
