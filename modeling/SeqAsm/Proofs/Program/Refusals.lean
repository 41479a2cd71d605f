import Mathlib
import SeqAsm.Program.Form
import SeqAsm.Proofs.Running

/-!
Forms that are no programs.

A form that is no program is refused, and the refusal says what is wrong with it: each part of a
node is looked at before it is taken apart, at every depth. The value of a header is not; it is
taken as an integer at once. So one thing that is wrong with a form is not refused but ends the
reading with a fault of another kind, and the items are read from the left: this happens just when a
header has such a value and all items before it are in order.
-/

namespace SeqAsm

/-- The reader refuses the form. The other faults say that a text holds no form, or they come from
the value of a header. -/
def FormFault.isRefusal : FormFault → Bool
  | notProgram | notSymbol | notOperand | unknownTag | notNode | unknownInstruction
  | incompleteLoop => true
  | text _ | missingValue | notInteger | infiniteValue | notAtom => false

variable {f : FormFault} {x : Sexp} {xs : List Sexp}

/-! ### Nodes -/

lemma Sexp.isRefusal_of_name (h : x.name = .error f) : f.isRefusal = true := by
  cases x with
  | symbol s => cases h
  | _ =>
    obtain rfl := Except.error.inj h
    rfl

lemma Sexp.eq_symbol_of_name {word : String} (h : x.name = .ok word) : x = .symbol word := by
  cases x with
  | symbol s => exact congrArg symbol (Except.ok.inj h)
  | _ => cases h

lemma Sexp.isRefusal_of_toOperand (h : x.toOperand = .error f) : f.isRefusal = true := by
  unfold toOperand at h
  split at h
  · split at h
    · obtain rfl := Except.error.inj h
      rfl
    · rcases bind_eq_error.1 h with h | ⟨tag, -, h⟩
      · exact isRefusal_of_name h
      · split at h
        · cases h
        · obtain rfl := Except.error.inj h
          rfl
  · obtain rfl := Except.error.inj h
    rfl

/-- What fails for a list fails for a member. -/
lemma exists_mem_of_mapM_eq_error {α β ε : Type} {g : α → Except ε β} {e : ε} {l : List α}
    (h : l.mapM g = .error e) : ∃ a ∈ l, g a = .error e := by
  induction l with
  | nil => cases h
  | cons a l ih =>
    rw [List.mapM_cons] at h
    rcases bind_eq_error.1 h with h | ⟨b, -, h⟩
    · exact ⟨a, List.mem_cons_self, h⟩
    · rcases bind_eq_error.1 h with h | ⟨bs, -, h⟩
      · obtain ⟨a', ha, h⟩ := ih h
        exact ⟨a', List.mem_cons_of_mem a ha, h⟩
      · cases h

namespace Block

/-- The rest of a loop is forms again. -/
lemma isRefusal_of_node {head : Sexp} {args : List Sexp}
    (rest : ∀ target length body, args = target :: length :: body →
      ∀ f, ofForms body = .error f → f.isRefusal = true)
    (h : ofForm (.list (head :: args)) = .error f) : f.isRefusal = true := by
  unfold ofForm at h
  rcases bind_eq_error.1 h with h | ⟨word, -, h⟩
  · exact Sexp.isRefusal_of_name h
  split at h
  · rcases args with _ | ⟨target, _ | ⟨length, body⟩⟩
    · obtain rfl := Except.error.inj h
      rfl
    · obtain rfl := Except.error.inj h
      rfl
    · rcases bind_eq_error.1 h with h | ⟨_, -, h⟩
      · exact Sexp.isRefusal_of_toOperand h
      rcases bind_eq_error.1 h with h | ⟨_, -, h⟩
      · exact Sexp.isRefusal_of_toOperand h
      rcases bind_eq_error.1 h with h | ⟨_, -, h⟩
      · exact rest target length body rfl f h
      · cases h
  · split at h
    · rcases bind_eq_error.1 h with h | ⟨_, -, h⟩
      · obtain ⟨operand, -, h⟩ := exists_mem_of_mapM_eq_error h
        exact Sexp.isRefusal_of_toOperand h
      · cases h
    · obtain rfl := Except.error.inj h
      rfl

/-- Whatever is wrong with a node, at any depth, is refused. -/
lemma isRefusal_of_ofForm_and_ofForms :
    (∀ x f, ofForm x = .error f → f.isRefusal = true) ∧
      ∀ xs f, ofForms xs = .error f → f.isRefusal = true := by
  refine ofForm.mutual_induct _ _ ?node ?other ?nil ?cons
  case node =>
    intro head args ih f h
    refine isRefusal_of_node (fun target length body same => ?_) h
    subst same
    exact ih
  case other =>
    intro x other f h
    rw [ofForm] at h
    · obtain rfl := Except.error.inj h
      rfl
    · exact other
  case nil => exact fun f h => nomatch h
  case cons =>
    intro x xs node nodes f h
    rw [ofForms] at h
    rcases bind_eq_error.1 h with h | ⟨_, -, h⟩
    · exact node f h
    rcases bind_eq_error.1 h with h | ⟨_, -, h⟩
    · exact nodes f h
    · cases h

end Block

/-! ### Headers -/

namespace Program

/-- A header whose value is missing, or denotes no integer, and the fault that this is. -/
def SpoiltHeader (x : Sexp) (f : FormFault) : Prop :=
  ∃ word args, x = .list (.symbol word :: args) ∧ (word = "offset" ∨ word = "id") ∧
    headerValue args = .error f

lemma not_isRefusal_of_headerValue (h : headerValue xs = .error f) : f.isRefusal = false := by
  cases xs with
  | nil =>
    obtain rfl := Except.error.inj h
    rfl
  | cons x _ =>
    change x.toInteger = .error f at h
    unfold Sexp.toInteger at h
    repeat' split at h
    all_goals cases h
    all_goals rfl

def item : Sexp → Except FormFault (Items → Items)
  | .list (head :: args) => do
    let word ← head.name
    if word = "offset" then
      let n ← headerValue args
      return fun items => { items with offset := items.offset.or (some n) }
    else if word = "id" then
      let n ← headerValue args
      return fun items => { items with id := items.id.or (some n) }
    else
      let put ← Block.ofForm (.list (head :: args))
      return fun items => { items with body := put items.body }
  | _ => .error .notNode

lemma readItems_cons (x : Sexp) (xs : List Sexp) :
    readItems (x :: xs) = item x >>= fun add => readItems xs >>= fun items => pure (add items) := by
  cases x with
  | list args =>
    cases args with
    | nil => rfl
    | cons head args =>
      rw [readItems, item, bind_assoc]
      refine congrArg (head.name >>= ·) (funext fun word => ?_)
      dsimp only
      by_cases offset : word = "offset"
      · rw [if_pos offset, if_pos offset, bind_assoc]
        rfl
      by_cases id : word = "id"
      · rw [if_neg offset, if_neg offset, if_pos id, if_pos id, bind_assoc]
        rfl
      · rw [if_neg offset, if_neg offset, if_neg id, if_neg id, bind_assoc]
        rfl
  | _ => rfl

/-- The value of a header is the one thing about an item that is not refused. -/
lemma spoilt_of_item (h : item x = .error f) : f.isRefusal = true ∨ SpoiltHeader x f := by
  unfold item at h
  split at h
  · rename_i head args
    rcases bind_eq_error.1 h with h | ⟨word, hw, h⟩
    · exact .inl (Sexp.isRefusal_of_name h)
    obtain rfl := Sexp.eq_symbol_of_name hw
    split at h
    · rename_i offset
      rcases bind_eq_error.1 h with h | ⟨_, -, h⟩
      · exact .inr ⟨word, args, rfl, .inl offset, h⟩
      · cases h
    split at h
    · rename_i id
      rcases bind_eq_error.1 h with h | ⟨_, -, h⟩
      · exact .inr ⟨word, args, rfl, .inr id, h⟩
      · cases h
    · rcases bind_eq_error.1 h with h | ⟨_, -, h⟩
      · exact .inl (Block.isRefusal_of_ofForm_and_ofForms.1 _ f h)
      · cases h
  · obtain rfl := Except.error.inj h
    exact .inl rfl

lemma item_of_spoilt (h : SpoiltHeader x f) : item x = .error f := by
  obtain ⟨word, args, rfl, rfl | rfl, value⟩ := h
  · exact bind_eq_error.2 (.inr ⟨"offset", rfl, bind_eq_error.2 (.inl value)⟩)
  · exact bind_eq_error.2 (.inr ⟨"id", rfl, bind_eq_error.2 (.inl value)⟩)

/-- Items fail as the first of them that fails. -/
lemma readItems_eq_error_iff : readItems xs = .error f ↔
    ∃ before x after items, xs = before ++ x :: after ∧ readItems before = .ok items ∧
      item x = .error f := by
  induction xs with
  | nil =>
    refine ⟨nofun, ?_⟩
    rintro ⟨before, x, after, items, none, -⟩
    exact absurd none.symm (List.append_ne_nil_of_right_ne_nil before (List.cons_ne_nil x after))
  | cons x xs ih =>
    rw [readItems_cons, bind_eq_error]
    constructor
    · rintro (h | ⟨add, hx, h⟩)
      · exact ⟨[], x, xs, {}, rfl, rfl, h⟩
      rcases bind_eq_error.1 h with h | ⟨_, -, h⟩
      · obtain ⟨before, y, after, items, rfl, hb, hy⟩ := ih.1 h
        refine ⟨x :: before, y, after, add items, rfl, ?_, hy⟩
        rw [readItems_cons]
        exact bind_eq_ok.2 ⟨add, hx, bind_eq_ok.2 ⟨items, hb, rfl⟩⟩
      · cases h
    · rintro ⟨_ | ⟨x', before⟩, y, after, items, same, hb, hy⟩
      · obtain ⟨rfl, rfl⟩ := List.cons.inj same
        exact .inl hy
      · obtain ⟨rfl, rfl⟩ := List.cons.inj same
        rw [readItems_cons] at hb
        obtain ⟨add, hx, h⟩ := bind_eq_ok.1 hb
        obtain ⟨rest, hb, -⟩ := bind_eq_ok.1 h
        exact .inr ⟨add, hx, bind_eq_error.2 (.inl (ih.2 ⟨before, y, after, rest, rfl, hb, hy⟩))⟩

/-! ### Forms -/

lemma ofSexp_program (xs : List Sexp) : ofSexp (.list (.symbol "program" :: xs)) =
    readItems xs >>= fun items => pure ⟨items.body, items.offset.getD 0, items.id⟩ := rfl

/-- A form has a header with a value that cannot be used, and all before it would be a program. -/
def Spoilt (x : Sexp) (f : FormFault) : Prop :=
  ∃ before header after, x = .list (.symbol "program" :: (before ++ header :: after)) ∧
    (∃ p, ofSexp (.list (.symbol "program" :: before)) = .ok p) ∧ SpoiltHeader header f

lemma ofSexp_of_spoilt (h : Spoilt x f) : ofSexp x = .error f := by
  obtain ⟨before, header, after, rfl, ⟨p, hp⟩, spoilt⟩ := h
  rw [ofSexp_program] at hp ⊢
  obtain ⟨items, hb, -⟩ := bind_eq_ok.1 hp
  exact bind_eq_error.2 (.inl (readItems_eq_error_iff.2
    ⟨before, header, after, items, rfl, hb, item_of_spoilt spoilt⟩))

lemma spoilt_of_ofSexp (h : ofSexp x = .error f) : f.isRefusal = true ∨ Spoilt x f := by
  have shown := h
  unfold ofSexp at h
  split at h
  · rename_i head args
    rcases bind_eq_error.1 h with h | ⟨word, hw, h'⟩
    · exact .inl (Sexp.isRefusal_of_name h)
    obtain rfl := Sexp.eq_symbol_of_name hw
    split at h'
    · rename_i program
      subst program
      rw [ofSexp_program] at shown
      rcases bind_eq_error.1 shown with h | ⟨_, -, h⟩
      · obtain ⟨before, x, after, items, rfl, hb, hx⟩ := readItems_eq_error_iff.1 h
        refine (spoilt_of_item hx).imp_right fun spoilt => ⟨before, x, after, rfl, ?_, spoilt⟩
        rw [ofSexp_program]
        exact ⟨_, bind_eq_ok.2 ⟨items, hb, rfl⟩⟩
      · cases h
    · obtain rfl := Except.error.inj h'
      exact .inl rfl
  · obtain rfl := Except.error.inj h
    exact .inl rfl

/-- **Reading a form gives a program or is refused, unless a header is spoilt.** Of a text that
holds a form, whichever it is, the reader makes a program or a refusal; otherwise all items up to
some header make a program, but its value is missing or denotes no integer, and it is the fault of
that value that ends the reading. This is what happens to each such form. -/
theorem ofFormText_refused_or_spoilt {text : String} (h : Sexp.read text = .ok x) :
    ((∃ p, ofFormText text = .ok p) ∨
      ∃ f, ofFormText text = .error f ∧ (f.isRefusal = true ∨ Spoilt x f)) ∧
    ∀ f, Spoilt x f → ofFormText text = .error f ∧ f.isRefusal = false := by
  have read : ofFormText text = ofSexp x := by
    unfold ofFormText
    rw [h]
  rw [read]
  refine ⟨?_, fun f spoilt => ⟨ofSexp_of_spoilt spoilt, ?_⟩⟩
  · rcases hx : ofSexp x with f | p
    · exact .inr ⟨f, rfl, spoilt_of_ofSexp hx⟩
    · exact .inl ⟨p, rfl⟩
  · obtain ⟨_, _, _, -, -, _, _, -, -, value⟩ := spoilt
    exact not_isRefusal_of_headerValue value

/-- The second header of a kind is spoilt, before an item that would be refused. -/
theorem ofFormText_refused_or_spoilt_second :
    ∃ x, Sexp.read "(program (id 1_0) (clr) (id soon) (lpe))" = .ok x ∧ Spoilt x .notInteger ∧
      ofFormText "(program (id 1_0) (clr) (id soon) (lpe))" = .error .notInteger := by
  have read : Sexp.read "(program (id 1_0) (clr) (id soon) (lpe))" =
      .ok (.list [.symbol "program", .list [.symbol "id", .int 10], .list [.symbol "clr"],
        .list [.symbol "id", .symbol "soon"], .list [.symbol "lpe"]]) := by
    cbv
  have spoilt : Spoilt (.list [.symbol "program", .list [.symbol "id", .int 10],
      .list [.symbol "clr"], .list [.symbol "id", .symbol "soon"], .list [.symbol "lpe"]])
      .notInteger :=
    ⟨[.list [.symbol "id", .int 10], .list [.symbol "clr"]], _, _, rfl, ⟨_, rfl⟩,
      "id", _, rfl, .inr rfl, by cbv⟩
  exact ⟨_, read, spoilt, ((ofFormText_refused_or_spoilt read).2 _ spoilt).1⟩

/-- Not every form that is no program is refused: a header may lack its value. -/
theorem ofFormText_not_refused : ¬ ∀ (text : String) (x : Sexp), Sexp.read text = .ok x →
    (∃ p, ofFormText text = .ok p) ∨ ∃ f, ofFormText text = .error f ∧ f.isRefusal = true := by
  intro always
  have read : Sexp.read "(program (offset))" =
      .ok (.list [.symbol "program", .list [.symbol "offset"]]) := by
    cbv
  have fails : ofFormText "(program (offset))" = .error .missingValue := by
    unfold ofFormText
    rw [read]
    rfl
  rcases always _ _ read with ⟨p, hp⟩ | ⟨f, hf, refusal⟩
  · cases fails.symm.trans hp
  · obtain rfl := Except.error.inj (fails.symm.trans hf)
    cases refusal

end Program

end SeqAsm
