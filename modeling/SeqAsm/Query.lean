import Std.Data.ExtTreeMap

/-!
A query asks for the result of one program on one input.
-/

namespace SeqAsm

structure Query where
  program : Int
  input : Int
  deriving DecidableEq, Repr

namespace Query

/-- The order of queries: by program, then by input. -/
def order : Query → Query → Ordering := compareLex (compareOn program) (compareOn input)

instance : Std.TransCmp order :=
  inferInstanceAs (Std.TransCmp (compareLex (compareOn program) (compareOn input)))

instance : Std.LawfulEqCmp order where
  eq_of_compare {a b} h := by
    cases a
    cases b
    simp only [order, compareLex_eq_eq, compareOn, Std.compare_eq_iff_eq] at h
    simp_all

end Query

abbrev QueryMap (β : Type) := Std.ExtTreeMap Query β Query.order

theorem QueryMap.erase_insert {β : Type} {m : QueryMap β} {q : Query} {b : β}
    (new : m[q]? = none) : (m.insert q b).erase q = m := by
  apply Std.ExtTreeMap.ext_getElem?
  intro k
  simp only [Std.ExtTreeMap.getElem?_erase, Std.ExtTreeMap.getElem?_insert,
    Std.LawfulEqCmp.compare_eq_iff_eq]
  split
  · subst k
    exact new.symm
  · rfl

end SeqAsm
