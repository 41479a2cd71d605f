import Mathlib.Data.List.Nodup
import Mathlib.Logic.Function.Basic
import SeqAsm.Proofs.Machine.Coupling

/-!
Register files over time.

A register file stores the registers that are not zero in a map of its own, which it changes in
place; a snapshot, a copy and a file that is restored each get a new map. As long as no two files
have one map, and no file has that of a snapshot, what is done with a file shows in no other and in
no snapshot. So files can be followed as total functions, each by itself.
-/

namespace SeqAsm.Registers

/-! ### Files as total functions -/

/-- The values at all indices, with the capacity that says which indices have a register. -/
structure Total where
  capacity : Int
  value : Int → Int

def total (r : Registers) : Total := ⟨r.capacity, r.peek⟩

namespace Total

variable (t : Total)

def zero (capacity : Int) : Total := ⟨capacity, fun _ => 0⟩

abbrev Has (i : Int) : Prop := 0 ≤ i ∧ i < t.capacity

/-- The failure at an index that has no register. -/
def refusal (i : Int) : Failure := .of (.registerAddress i t.capacity) []

def get (i : Int) : Except Failure Int :=
  if t.Has i then .ok (t.value i) else .error (t.refusal i)

def set (i v : Int) : Except Failure Total :=
  if t.Has i then .ok { t with value := Function.update t.value i v } else .error (t.refusal i)

/-- Zeros for `count` registers from `start` on. The failure is at the first of them or, if that has
a register, at the last. -/
def clear (start count : Int) : Except Failure Total :=
  if count ≤ 0 then .ok t
  else if 0 ≤ start ∧ start + count ≤ t.capacity then
    .ok { t with value := fun i => if start ≤ i ∧ i < start + count then 0 else t.value i }
  else .error (t.refusal (if t.Has start then start + count - 1 else start))

end Total

variable {r : Registers} {i v start count capacity : Int}

lemma total_empty (capacity : Int) : (empty capacity).total = .zero capacity :=
  congrArg (Total.mk capacity) (funext (peek_empty capacity))

lemma total_put (h : 0 ≤ i ∧ i < r.capacity) :
    (r.put i v h).total = { r.total with value := Function.update r.total.value i v } := by
  refine congrArg (Total.mk r.capacity) (funext fun j => ?_)
  rw [peek_put, Function.update_apply]
  exact if_congr eq_comm rfl rfl

lemma total_erase : (r.erase start count).total = { r.total with
    value := fun i => if start ≤ i ∧ i < start + count then 0 else r.total.value i } :=
  congrArg (Total.mk r.capacity) (funext (peek_erase r start count))

lemma check_eq : r.check i = if r.total.Has i then .ok () else .error (r.total.refusal i) := rfl

lemma get_eq : r.get i = r.total.get i := by
  unfold get Total.get
  rw [check_eq]
  split
  · rfl
  · rfl

lemma map_set : (r.set i v).map total = r.total.set i v := by
  unfold set Total.set
  by_cases h : 0 ≤ i ∧ i < r.capacity
  · have has : r.total.Has i := h
    rw [dif_pos h, if_pos has, ← total_put h]
    rfl
  · have lacks : ¬ r.total.Has i := h
    rw [dif_neg h, if_neg lacks]
    rfl

lemma map_clearRange : (r.clearRange start count).map total = r.total.clear start count := by
  rw [clearRange_eq]
  unfold Total.clear
  split
  · rfl
  rw [check_eq, check_eq]
  by_cases first : r.total.Has start
  · rw [if_pos first, if_pos first]
    by_cases last : r.total.Has (start + count - 1)
    · rw [if_pos last, if_pos (by omega), ← total_erase]
      rfl
    · rw [if_neg last, if_neg (by omega)]
      rfl
  · have outside : ¬ (0 ≤ start ∧ start + count ≤ r.total.capacity) := by omega
    rw [if_neg first, if_neg first, if_neg outside]
    rfl

lemma same_iff {a b : Registers} : a.same b = true ↔ ∀ i, a.peek i = b.peek i := by
  unfold same
  rw [decide_eq_true_iff]
  exact ⟨fun h i => by rw [peek, peek, h], cells_ext⟩

/-! ### What is done with files -/

inductive Op where
  | get (i : Int)
  | set (i v : Int)
  | clear (start count : Int)
  | snapshot
  /-- Goes back to a snapshot, which must be one of the same file. -/
  | restore (snapshot : ℕ)
  | copy

/-- Something that is done with a file. Files and snapshots are numbered as they come into being. -/
structure Act where
  file : ℕ
  op : Op

/-- What an act answers: a value if one is read, and otherwise nothing. -/
abbrev Outcome := Except Failure (Option Int)

def run {σ : Type} (act : σ → Act → Outcome × σ) (s : σ) : List Act → List Outcome × σ
  | [] => ([], s)
  | a :: more =>
    let rest := run act (act s a).2 more
    ((act s a).1 :: rest.1, rest.2)

/-- Files with maps in a store, which are changed in place. -/
structure Desk where
  maps : ℕ → Registers
  /-- The first map that is not in use. -/
  free : ℕ
  /-- The map of each file. -/
  files : List ℕ
  /-- The map of each snapshot, with the file that it was taken from. -/
  snapshots : List (ℕ × ℕ)

namespace Desk

variable (d : Desk)

def new (capacity : Int) : Desk := ⟨fun _ => empty capacity, 1, [0], []⟩

def change (m : ℕ) : Except Failure Registers → Outcome × Desk
  | .ok r => (.ok none, { d with maps := Function.update d.maps m r })
  | .error e => (.error e, d)

/-- Puts a copy of a map where none is in use. -/
def duplicate (m : ℕ) : Desk :=
  { d with maps := Function.update d.maps d.free (d.maps m), free := d.free + 1 }

/-- Does something with a file. Nothing is done with a file or a snapshot that does not exist. -/
def act (a : Act) : Outcome × Desk :=
  match d.files[a.file]? with
  | none => (.ok none, d)
  | some m =>
    match a.op with
    | .get i => (((d.maps m).get i).map some, d)
    | .set i v => d.change m ((d.maps m).set i v)
    | .clear start count => d.change m ((d.maps m).clearRange start count)
    | .snapshot => (.ok none, { d.duplicate m with snapshots := d.snapshots ++ [(d.free, a.file)] })
    | .copy => (.ok none, { d.duplicate m with files := d.files ++ [d.free] })
    | .restore n =>
      match d.snapshots[n]? with
      | none => (.ok none, d)
      | some (m, owner) =>
        if owner = a.file then
          (.ok none, { d.duplicate m with files := d.files.set a.file d.free })
        else (.ok none, d)

end Desk

/-- Files as total functions, each with a value of its own. -/
structure Ledger where
  files : List Total
  snapshots : List (Total × ℕ)

namespace Ledger

variable (l : Ledger)

def new (capacity : Int) : Ledger := ⟨[.zero capacity], []⟩

def change (k : ℕ) : Except Failure Total → Outcome × Ledger
  | .ok t => (.ok none, { l with files := l.files.set k t })
  | .error e => (.error e, l)

def act (a : Act) : Outcome × Ledger :=
  match l.files[a.file]? with
  | none => (.ok none, l)
  | some t =>
    match a.op with
    | .get i => ((t.get i).map some, l)
    | .set i v => l.change a.file (t.set i v)
    | .clear start count => l.change a.file (t.clear start count)
    | .snapshot => (.ok none, { l with snapshots := l.snapshots ++ [(t, a.file)] })
    | .copy => (.ok none, { l with files := l.files ++ [t] })
    | .restore n =>
      match l.snapshots[n]? with
      | none => (.ok none, l)
      | some (t, owner) =>
        if owner = a.file then (.ok none, { l with files := l.files.set a.file t }) else (.ok none, l)

end Ledger

/-! ### Maps are not shared -/

namespace Desk

def ledger (d : Desk) : Ledger where
  files := d.files.map fun m => (d.maps m).total
  snapshots := d.snapshots.map fun s => ((d.maps s.1).total, s.2)

/-- No two files have one map, no file has that of a snapshot, and maps not in use are new. -/
structure Apart (d : Desk) : Prop where
  nodup : d.files.Nodup
  snapshot {s : ℕ × ℕ} : s ∈ d.snapshots → s.1 ∉ d.files
  file_lt {m : ℕ} : m ∈ d.files → m < d.free
  snapshot_lt {s : ℕ × ℕ} : s ∈ d.snapshots → s.1 < d.free

/-- All maps have one capacity. -/
def Level (capacity : Int) (d : Desk) : Prop := ∀ m, (d.maps m).capacity = capacity

variable {d : Desk} {k m : ℕ} {a : Act}

/-! ### What a change shows -/

section

variable {β : Type} {f : Registers → β} {maps : ℕ → Registers} {r : Registers}

/-- What changes in one map shows in the file that has it, and in no other. -/
lemma map_update {ms : List ℕ} (nodup : ms.Nodup) (hk : ms[k]? = some m) :
    ms.map (fun x => f (Function.update maps m r x)) = (ms.map fun x => f (maps x)).set k (f r) := by
  obtain ⟨hlt, rfl⟩ := List.getElem?_eq_some_iff.1 hk
  refine List.ext_getElem (by simp) fun j hj _ => ?_
  rw [List.length_map] at hj
  have same : ms[j] = ms[k] ↔ j = k := nodup.getElem_inj_iff
  rw [List.getElem_map, List.getElem_set, List.getElem_map, Function.update_apply]
  by_cases h : j = k
  · rw [if_pos (same.2 h), if_pos h.symm]
  · rw [if_neg (mt same.1 h), if_neg (Ne.symm h)]

lemma map_update_of_ne {α : Type} {xs : List α} {ref : α → ℕ} {g : α → Registers → β}
    (other : ∀ x ∈ xs, ref x ≠ m) :
    xs.map (fun x => g x (Function.update maps m r (ref x))) = xs.map fun x => g x (maps (ref x)) :=
  List.map_congr_left fun x hx => by rw [Function.update_of_ne (other x hx)]

end

lemma maps_duplicate (d : Desk) (m : ℕ) : (d.duplicate m).maps d.free = d.maps m :=
  Function.update_self ..

namespace Apart

variable (apart : d.Apart)

include apart

/-- A map that has not been in use shows nowhere. -/
lemma ledger_duplicate (m : ℕ) : (d.duplicate m).ledger = d.ledger := by
  refine congrArg₂ Ledger.mk ?_ ?_
  · exact map_update_of_ne (g := fun _ r => r.total) fun x hx => Nat.ne_of_lt (apart.file_lt hx)
  · exact map_update_of_ne (g := fun s r => (r.total, s.2)) fun s hs =>
      Nat.ne_of_lt (apart.snapshot_lt hs)

/-- A change shows in the file whose map it is. -/
lemma map_change (hk : d.files[k]? = some m) (x : Except Failure Registers) :
    (d.change m x).map id ledger = d.ledger.change k (x.map total) := by
  rcases x with e | r
  · rfl
  have own : ∀ s ∈ d.snapshots, s.1 ≠ m := fun s hs same =>
    apart.snapshot hs (same ▸ List.mem_of_getElem? hk)
  refine congrArg (Prod.mk _) (congrArg₂ Ledger.mk ?_ ?_)
  · exact map_update apart.nodup hk
  · exact map_update_of_ne (g := fun s r => (r.total, s.2)) own

/-- **An act shows as it does on total functions.** -/
lemma map_act (a : Act) : (d.act a).map id ledger = d.ledger.act a := by
  obtain ⟨k, op⟩ := a
  have file : d.ledger.files[k]? = d.files[k]?.map fun m => (d.maps m).total := List.getElem?_map
  unfold Desk.act Ledger.act
  dsimp only
  rw [file]
  rcases hk : d.files[k]? with _ | m
  · rfl
  have same := apart.ledger_duplicate m
  rw [Option.map_some]
  cases op with
  | get i => exact congrArg (fun x => (x.map some, d.ledger)) get_eq
  | set i v =>
    dsimp only
    rw [apart.map_change hk, map_set]
  | clear start count =>
    dsimp only
    rw [apart.map_change hk, map_clearRange]
  | snapshot =>
    refine congrArg (Prod.mk _) (congrArg₂ Ledger.mk (congrArg Ledger.files same) ?_)
    refine List.map_append.trans (congrArg₂ _ (congrArg Ledger.snapshots same) ?_)
    rw [List.map_singleton, maps_duplicate]
  | copy =>
    refine congrArg (Prod.mk _) (congrArg₂ Ledger.mk ?_ (congrArg Ledger.snapshots same))
    refine List.map_append.trans (congrArg₂ _ (congrArg Ledger.files same) ?_)
    rw [List.map_singleton, maps_duplicate]
  | restore n =>
    have snapshot : d.ledger.snapshots[n]? =
        d.snapshots[n]?.map fun s => ((d.maps s.1).total, s.2) := List.getElem?_map
    dsimp only
    rw [snapshot]
    rcases hn : d.snapshots[n]? with _ | ⟨m, owner⟩
    · rfl
    -- the file gets a copy of the map, and the snapshot keeps its own
    have same := apart.ledger_duplicate m
    rw [Option.map_some]
    dsimp only
    split
    · refine congrArg (Prod.mk _) (congrArg₂ Ledger.mk ?_ (congrArg Ledger.snapshots same))
      refine List.map_set.trans (congrArg₂ (List.set · k) (congrArg Ledger.files same) ?_)
      rw [maps_duplicate]
    · rfl

/-- A file may take a new map. -/
lemma duplicate (m : ℕ) {files : List ℕ} (nodup : files.Nodup)
    (files_sub : ∀ x ∈ files, x ∈ d.files ∨ x = d.free) :
    Apart { d.duplicate m with files } where
  nodup := nodup
  snapshot {s} hs hm := by
    rcases files_sub _ hm with old | new
    · exact apart.snapshot hs old
    · exact Nat.ne_of_lt (apart.snapshot_lt hs) new
  file_lt {x} hx := by
    rcases files_sub x hx with old | rfl
    · exact Nat.lt_succ_of_lt (apart.file_lt old)
    · exact Nat.lt_succ_self _
  snapshot_lt hs := Nat.lt_succ_of_lt (apart.snapshot_lt hs)

/-- **No act makes a map shared.** -/
lemma act (a : Act) : (d.act a).2.Apart := by
  have change (m : ℕ) (x : Except Failure Registers) : (d.change m x).2.Apart := by
    rcases x with e | r
    · exact apart
    · exact ⟨apart.nodup, apart.snapshot, apart.file_lt, apart.snapshot_lt⟩
  have vacant : d.free ∉ d.files := fun h => Nat.lt_irrefl _ (apart.file_lt h)
  unfold Desk.act
  split
  · exact apart
  rename_i m _
  split
  · exact apart
  · exact change ..
  · exact change ..
  · refine ⟨apart.nodup, fun {s} hs => ?_, fun h => Nat.lt_succ_of_lt (apart.file_lt h),
      fun {s} hs => ?_⟩
    · rcases List.mem_append.1 hs with hs | hs
      · exact apart.snapshot hs
      · rwa [List.mem_singleton.1 hs]
    · rcases List.mem_append.1 hs with hs | hs
      · exact Nat.lt_succ_of_lt (apart.snapshot_lt hs)
      · rw [List.mem_singleton.1 hs]
        exact Nat.lt_succ_self _
  · refine apart.duplicate m ?_ fun x hx => ?_
    · exact (List.perm_append_singleton _ _).nodup_iff.2 (apart.nodup.cons vacant)
    · exact (List.mem_append.1 hx).imp_right List.mem_singleton.1
  · split
    · exact apart
    · split
      · exact apart.duplicate _ (apart.nodup.set vacant) fun x hx => List.mem_or_eq_of_mem_set hx
      · exact apart

/-- Acts show as they do on total functions. -/
lemma map_run (acts : List Act) :
    (run Desk.act d acts).map id ledger = run Ledger.act d.ledger acts := by
  induction acts generalizing d with
  | nil => rfl
  | cons a more ih =>
    have first := apart.map_act a
    have rest := ih (apart.act a)
    rw [run, run, ← first]
    exact congrArg (fun x : List Outcome × Ledger => ((d.act a).1 :: x.1, x.2)) rest

lemma run (acts : List Act) : (run Desk.act d acts).2.Apart := by
  induction acts generalizing d with
  | nil => exact apart
  | cons a more ih => exact ih (apart.act a)

end Apart

lemma apart_new (capacity : Int) : (new capacity).Apart where
  nodup := List.nodup_singleton 0
  snapshot h := nomatch h
  file_lt h := by rw [List.mem_singleton.1 h]; exact Nat.one_pos
  snapshot_lt h := nomatch h

lemma act_of_error {e : Failure} (h : (d.act a).1 = .error e) : (d.act a).2 = d := by
  have change {m : ℕ} {x : Except Failure Registers} (h : (d.change m x).1 = .error e) :
      (d.change m x).2 = d := by
    rcases x with e | r
    · rfl
    · cases h
  unfold act at h ⊢
  split at h
  · cases h
  split at h
  · rfl
  · exact change h
  · exact change h
  · cases h
  · cases h
  · split at h
    · cases h
    · split at h
      · cases h
      · cases h

lemma Level.act (level : d.Level capacity) (a : Act) : (d.act a).2.Level capacity := by
  have put {m x : ℕ} {r : Registers} (hr : r.capacity = capacity) :
      (Function.update d.maps m r x).capacity = capacity := by
    rw [Function.update_apply]
    split
    · exact hr
    · exact level x
  have change {m : ℕ} {x : Except Failure Registers}
      (hx : ∀ r, x = .ok r → r.capacity = (d.maps m).capacity) :
      (d.change m x).2.Level capacity := by
    rcases x with e | r
    · exact level
    · exact fun _ => put ((hx r rfl).trans (level m))
  unfold Desk.act
  split
  · exact level
  rename_i m _
  split
  · exact level
  · exact change fun _ => capacity_of_set
  · exact change fun _ => capacity_of_clearRange
  · exact fun _ => put (level m)
  · exact fun _ => put (level m)
  · split
    · exact level
    · split
      · exact fun _ => put (level _)
      · exact level

lemma Level.run (level : d.Level capacity) (acts : List Act) :
    (run Desk.act d acts).2.Level capacity := by
  induction acts generalizing d with
  | nil => exact level
  | cons a more ih => exact ih (level.act a)

end Desk

/-! ### What later acts leave alone -/

namespace Ledger

variable {l : Ledger}

/-- All snapshots are still there, and all files that have not been touched. -/
def Keeps (touched : ℕ → Prop) (l l' : Ledger) : Prop :=
  l.snapshots <+: l'.snapshots ∧
    ∀ k t, l.files[k]? = some t → ¬ touched k → l'.files[k]? = some t

lemma Keeps.refl {touched : ℕ → Prop} (l : Ledger) : Keeps touched l l :=
  ⟨List.prefix_refl _, fun _ _ h _ => h⟩

/-- An act leaves all files but its own. -/
lemma keeps_act (a : Act) : Keeps (a.file = ·) l (l.act a).2 := by
  have put (t : Total) : Keeps (a.file = ·) l { l with files := l.files.set a.file t } :=
    ⟨List.prefix_refl _, fun k _ h other => (List.getElem?_set_ne other).trans h⟩
  have change (x : Except Failure Total) : Keeps (a.file = ·) l (l.change a.file x).2 := by
    rcases x with e | t
    · exact .refl l
    · exact put t
  unfold act
  split
  · exact .refl l
  split
  · exact .refl l
  · exact change _
  · exact change _
  · exact ⟨List.prefix_append _ _, fun _ _ h _ => h⟩
  · refine ⟨List.prefix_refl _, fun k t h _ => ?_⟩
    exact (List.getElem?_append_left (List.getElem?_eq_some_iff.1 h).1).trans h
  · split
    · exact .refl l
    · split
      · exact put _
      · exact .refl l

lemma keeps_run (acts : List Act) :
    Keeps (fun k => ∃ a ∈ acts, a.file = k) l (run act l acts).2 := by
  induction acts generalizing l with
  | nil => exact .refl l
  | cons a more ih =>
    obtain ⟨first, kept⟩ := keeps_act (l := l) a
    obtain ⟨later, keptLater⟩ := ih (l := (l.act a).2)
    refine ⟨first.trans later, fun k t h other => keptLater k t (kept k t h ?_) ?_⟩
    · exact fun here => other ⟨a, List.mem_cons_self, here⟩
    · exact fun ⟨b, hb, here⟩ => other ⟨b, List.mem_cons_of_mem a hb, here⟩

end Ledger

/-- **Register files are total functions.** Whatever is done with a file of zeros, with copies of it
and with snapshots, in whatever order and whether it fails or not, all answers and all values that
can be read are those of total functions that each file has to itself. No map holds a zero or an index
beyond the capacity, an act that fails changes nothing, and whatever is done later leaves the
snapshots alone, and all files but those that it is done with. Both ways to clear a range come to the
same, and files are the same just when they agree on every index. -/
theorem history_total (capacity : Int) (acts : List Act) :
    let d := (run Desk.act (.new capacity) acts).2
    (run Desk.act (.new capacity) acts).1 = (run Ledger.act (.new capacity) acts).1 ∧
    d.ledger = (run Ledger.act (.new capacity) acts).2 ∧
    (∀ m i v, (d.maps m).cells[i]? = some v → v ≠ 0 ∧ 0 ≤ i ∧ i < capacity) ∧
    (∀ a e, (d.act a).1 = .error e → (d.act a).2 = d) ∧
    (∀ more, Ledger.Keeps (fun k => ∃ a ∈ more, a.file = k) d.ledger (run Desk.act d more).2.ledger) ∧
    (∀ (r : Registers) (start : Int) (count : ℕ),
      r.eraseEach start count = r.erase start count) ∧
    ∀ a b : Registers, a.same b = true ↔ ∀ i, a.peek i = b.peek i := by
  intro d
  have fresh : (Desk.new capacity).ledger = .new capacity :=
    congrArg (fun t => Ledger.mk [t] []) (total_empty capacity)
  have start := Desk.apart_new capacity
  have level : (Desk.new capacity).Level capacity := fun _ => rfl
  have shown := start.map_run acts
  rw [fresh] at shown
  refine ⟨congrArg Prod.fst shown, congrArg Prod.snd shown, fun m i v hv => ?_,
    fun a e => Desk.act_of_error, fun more => ?_, eraseEach_eq, fun a b => same_iff⟩
  · have stored : i ∈ (d.maps m).cells :=
      Std.ExtTreeMap.mem_iff_isSome_getElem?.2 (by rw [hv]; rfl)
    have bounds := (d.maps m).bounded i stored
    rw [level.run acts m] at bounds
    refine ⟨?_, bounds⟩
    rintro rfl
    exact (d.maps m).nonzero i hv
  · have later : (run Desk.act d more).2.ledger = (run Ledger.act d.ledger more).2 :=
      congrArg Prod.snd ((start.run acts).map_run more)
    rw [later]
    exact Ledger.keeps_run more

/-- A copy goes its own way, and a file that is restored is as it was. -/
example : (run Desk.act (.new 10) [⟨0, .set 2 5⟩, ⟨0, .snapshot⟩, ⟨0, .copy⟩, ⟨0, .clear 0 10⟩,
    ⟨1, .set 2 7⟩, ⟨0, .restore 0⟩]).2.ledger.files.map (·.value 2) = [5, 7] := by cbv

end SeqAsm.Registers
