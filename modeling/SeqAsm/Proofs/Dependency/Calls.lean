import Mathlib.Data.List.Sort
import Mathlib.Logic.Relation
import SeqAsm.Dependency

/-!
The calls between stored programs.

A program is settled when all that it leads to can be loaded and lies on no cycle. Its
transitive dependencies are then the programs it leads to, and a list of them in ascending order
is the only one.
-/

namespace SeqAsm

namespace Ids

lemma ascending_insert {id : Int} {s : List Int} (h : s.Pairwise (· < ·)) :
    (insert id s).Pairwise (· < ·) := by
  induction s with
  | nil => simp [insert]
  | cons x xs ih =>
    obtain ⟨hx, hxs⟩ := List.pairwise_cons.1 h
    unfold insert
    split
    · rename_i hlt
      refine List.pairwise_cons.2 ⟨fun y hy => ?_, h⟩
      rcases List.mem_cons.1 hy with rfl | hy
      · exact hlt
      · exact hlt.trans (hx y hy)
    · split
      · exact h
      · refine List.pairwise_cons.2 ⟨fun y hy => ?_, ih hxs⟩
        rcases mem_insert.1 hy with rfl | hy
        · omega
        · exact hx y hy

lemma ascending_mergeHead {x : Int} {a : List Int} {mergeRest : List Int → List Int}
    (mem : ∀ b y, y ∈ mergeRest b ↔ y ∈ a ∨ y ∈ b)
    (rest : ∀ b, b.Pairwise (· < ·) → (mergeRest b).Pairwise (· < ·)) (hx : ∀ y ∈ a, x < y)
    {b : List Int} (hb : b.Pairwise (· < ·)) : (mergeHead x mergeRest b).Pairwise (· < ·) := by
  induction b with
  | nil =>
    refine List.pairwise_cons.2 ⟨fun y hy => ?_, rest [] hb⟩
    rcases (mem [] y).1 hy with hy | hy
    · exact hx y hy
    · cases hy
  | cons z zs ih =>
    obtain ⟨hz, hzs⟩ := List.pairwise_cons.1 hb
    unfold mergeHead
    split
    · rename_i hlt
      refine List.pairwise_cons.2 ⟨fun y hy => ?_, rest _ hb⟩
      rcases (mem _ y).1 hy with hy | hy
      · exact hx y hy
      · rcases List.mem_cons.1 hy with rfl | hy
        · exact hlt
        · exact hlt.trans (hz y hy)
    · split
      · subst z
        refine List.pairwise_cons.2 ⟨fun y hy => ?_, rest _ hzs⟩
        exact ((mem _ y).1 hy).elim (hx y) (hz y)
      · refine List.pairwise_cons.2 ⟨fun y hy => ?_, ih hzs⟩
        rcases (mem_mergeHead (fun b => mem b y) zs).1 hy with hy | hy
        · rcases List.mem_cons.1 hy with rfl | hy
          · omega
          · have := hx y hy
            omega
        · exact hz y hy

lemma ascending_union {a b : List Int} (ha : a.Pairwise (· < ·)) (hb : b.Pairwise (· < ·)) :
    (union a b).Pairwise (· < ·) := by
  induction a generalizing b with
  | nil => exact hb
  | cons x xs ih =>
    obtain ⟨hx, hxs⟩ := List.pairwise_cons.1 ha
    exact ascending_mergeHead (fun _ _ => mem_union) (fun _ hb => ih hxs hb) hx hb

end Ids

namespace Resolver

/-- Where programs are looked for. -/
abbrev Finder := Int → Except Failure (Option Program)

section

variable (find : Finder)

/-- A program that can be loaded calls certain programs. -/
def Links (id : Int) (ids : List Int) : Prop :=
  ∃ p, find id = .ok (some p) ∧ p.dependencies = .ok ids

def Calls (u v : Int) : Prop := ∃ ids, Links find u ids ∧ v ∈ ids

/-- One or more calls lead from a program to another. -/
abbrev Reaches : Int → Int → Prop := Relation.TransGen (Calls find)

/-- No calls or more lead from a program to another. -/
abbrev Leads : Int → Int → Prop := Relation.ReflTransGen (Calls find)

/-- A program is one of some programs or they lead to it. -/
def Within (top : List Int) (x : Int) : Prop := ∃ c ∈ top, Leads find c x

def Loadable (id : Int) : Prop := ∃ ids, Links find id ids

/-- Different loadable programs are at most `n`. -/
def Bounds (n : ℕ) : Prop :=
  ∀ ids : List Int, ids.Nodup → (∀ x ∈ ids, Loadable find x) → ids.length ≤ n

/-- All that a program leads to can be loaded, lies on no cycle and is in its closure. -/
structure Settled (id : Int) (closure : List Int) : Prop where
  mem (x : Int) : x ∈ closure ↔ Reaches find id x
  loadable {x : Int} : Leads find id x → Loadable find x
  acyclic {x : Int} : Leads find id x → ¬ Reaches find x x
  ascending : closure.Pairwise (· < ·)

end

variable {find : Finder} {id x : Int} {c d : List Int}

lemma Bounds.mono {n m : ℕ} (h : Bounds find n) (hnm : n ≤ m) : Bounds find m :=
  fun ids nodup hids => (h ids nodup hids).trans hnm

lemma Links.unique {ids ids' : List Int} (h : Links find id ids) (h' : Links find id ids') :
    ids = ids' := by
  obtain ⟨p, hp, hi⟩ := h
  obtain ⟨p', hp', hi'⟩ := h'
  obtain rfl : p = p' := Option.some.inj (Except.ok.inj (hp.symm.trans hp'))
  exact Except.ok.inj (hi.symm.trans hi')

lemma Links.reaches_iff {ids : List Int} (h : Links find id ids) :
    Reaches find id x ↔ Within find ids x := by
  refine Relation.TransGen.head'_iff.trans ⟨?_, ?_⟩
  · rintro ⟨v, ⟨ids', h', hv⟩, hx⟩
    obtain rfl := h.unique h'
    exact ⟨v, hv, hx⟩
  · rintro ⟨v, hv, hx⟩
    exact ⟨v, ⟨ids, h, hv⟩, hx⟩

lemma leads_iff : Leads find id x ↔ x = id ∨ Reaches find id x :=
  Relation.reflTransGen_iff_eq_or_transGen

lemma Within.trans {top : List Int} {y : Int} (h : Within find top x) (hxy : Leads find x y) :
    Within find top y := by
  obtain ⟨v, hv, hx⟩ := h
  exact ⟨v, hv, hx.trans hxy⟩

lemma within_of_mem {top : List Int} (h : x ∈ top) : Within find top x := ⟨x, h, .refl⟩

namespace Settled

lemma unique (h : Settled find id c) (h' : Settled find id d) : c = d :=
  h.ascending.eq_of_mem_iff h'.ascending fun x => by rw [h.mem, h'.mem]

lemma not_mem (h : Settled find id c) : id ∉ c := fun hm => h.acyclic .refl ((h.mem id).1 hm)

lemma links (h : Settled find id c) : ∃ ids, Links find id ids := h.loadable .refl

lemma subset (h : Settled find id c) (hd : Settled find x d) (hx : Leads find id x) {y : Int}
    (hy : y ∈ d) : y ∈ c :=
  (h.mem y).2 (Relation.TransGen.trans_right hx ((hd.mem y).1 hy))

lemma of_leads (h : Settled find id c) (hx : Leads find id x) : ∃ d, Settled find x d := by
  classical
  refine ⟨c.filter fun y => Reaches find x y, ?_, fun hy => h.loadable (hx.trans hy),
    fun hy => h.acyclic (hx.trans hy), h.ascending.filter _⟩
  intro y
  rw [List.mem_filter, decide_eq_true_iff, h.mem]
  exact and_iff_right_of_imp (Relation.TransGen.trans_right hx)

/-- Closures get shorter along calls. -/
lemma length_lt (h : Settled find id c) (hx : Reaches find id x) (hd : Settled find x d) :
    d.length < c.length := by
  have nodup : (x :: d).Nodup :=
    List.nodup_cons.2 ⟨hd.not_mem, hd.ascending.imp fun h => ne_of_lt h⟩
  have inside : x :: d ⊆ c := by
    intro y hy
    rcases List.mem_cons.1 hy with rfl | hy
    · exact (h.mem y).2 hx
    · exact h.subset hd hx.to_reflTransGen hy
  exact (List.subperm_of_subset nodup inside).length_le

/-- A closure holds no more than the programs that can be loaded. -/
lemma length_lt_of_bounds (h : Settled find id c) {n : ℕ} (hn : Bounds find n) :
    c.length < n := by
  have nodup : (id :: c).Nodup :=
    List.nodup_cons.2 ⟨h.not_mem, h.ascending.imp fun h => ne_of_lt h⟩
  refine hn _ nodup fun x hx => h.loadable (leads_iff.2 ?_)
  exact (List.mem_cons.1 hx).imp_right (h.mem x).1

lemma mono {find' : Finder} (h : Settled find id c)
    (more : ∀ id p, find id = .ok (some p) → find' id = .ok (some p)) : Settled find' id c := by
  have links {u : Int} {ids : List Int} : Links find u ids → Links find' u ids :=
    fun ⟨p, hp, hd⟩ => ⟨p, more u p hp, hd⟩
  have calls {u v : Int} : Calls find u v → Calls find' u v :=
    fun ⟨ids, hl, hv⟩ => ⟨ids, links hl, hv⟩
  have back {u v : Int} (hu : Leads find id u) (h' : Calls find' u v) : Calls find u v := by
    obtain ⟨ids', hl', hv⟩ := h'
    obtain ⟨ids, hl⟩ := h.loadable hu
    obtain rfl := (links hl).unique hl'
    exact ⟨ids, hl, hv⟩
  have leads {u v : Int} (hu : Leads find id u) (h' : Leads find' u v) : Leads find u v := by
    induction h' with
    | refl => exact .refl
    | tail _ hc ih => exact ih.tail (back (hu.trans ih) hc)
  have reaches {u v : Int} (hu : Leads find id u) : Reaches find' u v ↔ Reaches find u v := by
    refine ⟨fun h' => ?_, fun h' => Relation.TransGen.mono (fun _ _ => calls) _ _ h'⟩
    obtain ⟨w, hw, hc⟩ := Relation.TransGen.tail'_iff.1 h'
    exact .tail' (leads hu hw) (back (hu.trans (leads hu hw)) hc)
  refine ⟨fun x => by rw [h.mem, reaches .refl], fun hx => ?_, fun hx => ?_, h.ascending⟩
  · obtain ⟨ids, hl⟩ := h.loadable (leads .refl hx)
    exact ⟨ids, links hl⟩
  · rw [reaches (leads .refl hx)]
    exact h.acyclic (leads .refl hx)

end Settled

/-! ### Closures of callees -/

abbrev Closures := Std.ExtTreeMap Int (List Int)

variable {fin : Closures} {called : List Int}

lemma mem_closureOf : x ∈ closureOf fin called ↔
    ∃ v ∈ called, x = v ∨ x ∈ fin[v]?.getD [] := by
  suffices ∀ s, x ∈ called.foldl (fun s id => Ids.union (Ids.insert id s) (fin[id]?.getD [])) s ↔
      x ∈ s ∨ ∃ v ∈ called, x = v ∨ x ∈ fin[v]?.getD [] by
    simpa [closureOf] using this []
  induction called with
  | nil => simp
  | cons v vs ih =>
    intro s
    rw [List.foldl_cons, ih, Ids.mem_union, Ids.mem_insert]
    rw [List.exists_mem_cons_iff, or_comm (b := x ∈ s), or_assoc, or_assoc, or_assoc]

/-- Every callee is among the finished programs and settled. -/
def Covered (find : Finder) (fin : Closures) (called : List Int) : Prop :=
  ∀ v ∈ called, ∃ c, fin[v]? = some c ∧ Settled find v c

lemma Covered.mem (h : Covered find fin called) :
    x ∈ closureOf fin called ↔ Within find called x := by
  rw [mem_closureOf]
  refine exists_congr fun v => and_congr_right fun hv => ?_
  obtain ⟨c, hc, hs⟩ := h v hv
  rw [hc, leads_iff]
  exact or_congr Iff.rfl (hs.mem x)

lemma Covered.ascending (h : Covered find fin called) :
    (closureOf fin called).Pairwise (· < ·) := by
  suffices ∀ s : List Int, s.Pairwise (· < ·) →
      (called.foldl (fun s id => Ids.union (Ids.insert id s) (fin[id]?.getD [])) s).Pairwise
        (· < ·) from this [] .nil
  induction called with
  | nil => exact fun s hs => hs
  | cons v vs ih =>
    intro s hs
    obtain ⟨c, hc, hv⟩ := h v (List.mem_cons_self)
    refine ih (fun w hw => h w (List.mem_cons_of_mem _ hw)) _
      (Ids.ascending_union (Ids.ascending_insert hs) ?_)
    rw [hc]
    exact hv.ascending

/-- A program whose callees are settled and do not lead back to it is settled. -/
lemma Settled.of_callees (links : Links find id called) (h : Covered find fin called)
    (apart : id ∉ closureOf fin called) : Settled find id (closureOf fin called) where
  mem x := by rw [h.mem, links.reaches_iff]
  loadable hx := by
    rcases leads_iff.1 hx with rfl | hx
    · exact ⟨called, links⟩
    · obtain ⟨v, hv, hx⟩ := links.reaches_iff.1 hx
      obtain ⟨c, -, hs⟩ := h v hv
      exact hs.loadable hx
  acyclic hx := by
    rcases leads_iff.1 hx with rfl | hx
    · rwa [links.reaches_iff, ← h.mem]
    · obtain ⟨v, hv, hx⟩ := links.reaches_iff.1 hx
      obtain ⟨c, -, hs⟩ := h v hv
      exact hs.acyclic hx
  ascending := h.ascending

end Resolver

end SeqAsm
