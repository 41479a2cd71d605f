import Mathlib
import SeqAsm.Proofs.Store
import SeqAsm.Proofs.Text.Decimal

/-!
What is written to a directory of programs is found there.

Programs that are written below a vacant path stand there as a shelf: one file for each, under
the path that its id gives it. A shelf answers a look-up like the list of programs it was made
from. The listing goes the other way, from names back to ids: it takes the folders of three
digits, so it has the ids from 0 to 999999, and no folder of an id outside that range has such
a name.
-/

namespace SeqAsm

/-! ### Names -/

namespace Text

lemma unifyFrom_eq (done : List Char) {cs : List Char} (h : '\r' ∉ cs) :
    unifyFrom done cs = done.reverse ++ cs := by
  induction cs generalizing done with
  | nil => rw [unifyFrom, List.append_nil]
  | cons c cs ih =>
    have hc : '\r' ≠ c := List.ne_of_not_mem_cons h
    have hcs : '\r' ∉ cs := List.not_mem_of_not_mem_cons h
    rw [unifyFrom, ih _ hcs, List.reverse_cons, List.append_assoc]
    · rfl
    · exact fun rest h _ => hc h.symm
    · exact fun h => hc h.symm

lemma unifyNewlines_eq {text : String} (h : '\r' ∉ text.toList) :
    unifyNewlines text = text := by
  rw [unifyNewlines, unifyFrom_eq [] h, List.reverse_nil, List.nil_append,
    String.ofList_toList]

end Text

namespace Directory

variable {id : Int}

/-- The folders of three digits are those of the numbers below a thousand. -/
lemma isFolderName_padded (m : Int) :
    isFolderName (Text.padded 3 m) = true ↔ 0 ≤ m ∧ m < 1000 := by
  unfold isFolderName
  dsimp only
  rw [Bool.and_eq_true, beq_iff_eq, List.all_eq_true]
  rcases Int.lt_or_le m 0 with neg | nonneg
  · refine iff_of_false ?_ (by omega)
    rintro ⟨-, all⟩
    have : ('-').isDigit = true := all '-' (Text.mem_padded_of_neg neg)
    exact absurd this (by decide)
  · obtain ⟨n, rfl⟩ := Int.eq_ofNat_of_zero_le nonneg
    have short : max 3 (Text.digits n).length = 3 ↔ n < 1000 := by
      rw [← Text.length_digits_le_three]
      omega
    rw [Text.length_padded_natCast, short]
    constructor
    · rintro ⟨h, -⟩
      omega
    · rintro ⟨-, h⟩
      refine ⟨by omega, fun c hc => ?_⟩
      rw [Text.toList_padded_natCast] at hc
      exact Text.isDigit_of_mem_places hc

/-- A program file tells the numeral of its program. -/
lemma idPart?_programFile (id : Int) :
    idPart? (programFile id) = some (Text.padded 6 id).toList := by
  have name : (programFile id).toList =
      'A' :: ((Text.padded 6 id).toList ++ ".asm".toList) := by
    unfold programFile programName
    rw [String.toList_append, String.toList_append]
    rfl
  unfold idPart?
  rw [name]
  change (if ".asm".toList.isSuffixOf ((Text.padded 6 id).toList ++ ".asm".toList) = true then
    some (List.take (((Text.padded 6 id).toList ++ ".asm".toList).length - 4) _) else none) = _
  rw [if_pos (List.isSuffixOf_iff_suffix.2 (List.suffix_append _ _)), List.length_append]
  have cut : (Text.padded 6 id).toList.length + ".asm".toList.length - 4 =
      (Text.padded 6 id).toList.length := by
    change _ + 4 - 4 = _
    omega
  rw [cut, List.take_left]

/-- The ids whose folder has three digits. -/
def Listed (id : Int) : Prop := 0 ≤ id ∧ id < 1000000

instance : DecidablePred Listed := fun id => inferInstanceAs (Decidable (0 ≤ id ∧ id < 1000000))

lemma isFolderName_folder (id : Int) :
    isFolderName (Text.padded 3 (id / 1000)) = decide (Listed id) := by
  rw [Bool.eq_iff_iff, isFolderName_padded, decide_eq_true_iff, Listed]
  omega

/-- The numeral of a program that is listed is one, and denotes the id. -/
lemma numeral_of_listed (h : Listed id) :
    let cs := (Text.padded 6 id).toList
    (!cs.isEmpty && cs.all Text.isDigitLike) = true ∧ cs.all Text.isDigit = true ∧
      (Text.natValue cs : Int) = id := by
  obtain ⟨n, rfl⟩ := Int.eq_ofNat_of_zero_le h.1
  dsimp only
  rw [Text.toList_padded_natCast]
  have digit : ∀ c ∈ Text.places (6 - (Text.digits n).length) n, c.isDigit = true :=
    fun c => Text.isDigit_of_mem_places
  refine ⟨?_, ?_, ?_⟩
  · rw [Bool.and_eq_true, Bool.not_eq_true', List.isEmpty_eq_false_iff, List.all_eq_true]
    refine ⟨Text.places_ne_nil _ _, fun c hc => ?_⟩
    rw [Text.isDigitLike, Text.isDigit_of_isDigit (digit c hc), Bool.true_or]
  · exact List.all_eq_true.2 fun c hc => Text.isDigit_of_isDigit (digit c hc)
  · rw [Text.natValue_eq digit, Text.ofDigitChars_places]

/-! ### Lists of programs -/

variable {ps : List (Int × String)}

lemma mem_of_lookup {text : String} (h : ps.lookup id = some text) : (id, text) ∈ ps := by
  obtain ⟨before, after, rfl, -⟩ := List.lookup_eq_some_iff.1 h
  simp

lemma lookup_eq_none_of_not_mem (h : id ∉ ps.map Prod.fst) : ps.lookup id = none := by
  refine List.lookup_eq_none_iff.2 fun p hp => ?_
  rw [bne_iff_ne]
  rintro rfl
  exact h (List.mem_map_of_mem hp)

lemma eraseDups_eq_self {α : Type} [BEq α] [LawfulBEq α] {l : List α} (h : l.Nodup) :
    l.eraseDups = l := by
  induction l with
  | nil => rfl
  | cons a l ih =>
    obtain ⟨ha, hl⟩ := List.nodup_cons.1 h
    have others : l.filter (fun b => !b == a) = l := by
      refine List.filter_eq_self.2 fun b hb => ?_
      have : b ≠ a := fun h => ha (h ▸ hb)
      simpa using this
    rw [List.eraseDups_cons, others, ih hl]

/-! ### A shelf of programs -/

/-- Writes programs below a path, each where its id puts it. -/
def saveAll (f : Files) (top : String) (root : List String) (ps : List (Int × String)) :
    Except Crash Files :=
  ps.foldlM (fun f p => f.save top (root ++ pathFor p.1) p.2) f

/-- Nothing is below a path, and it does not lead through a file. -/
structure Vacant (f : Files) (root : List String) : Prop where
  above : ∀ e ∈ f.entries, ¬ e.1 <+: root
  below : ∀ e ∈ f.entries, ¬ root <+: e.1
  folders : ∀ folder ∈ f.folders, root <+: folder → folder = root

/-- The files of programs below a path. -/
def shelf (root : List String) (ps : List (Int × String)) : List (List String × String) :=
  ps.map fun p => (root ++ pathFor p.1, p.2)

/-- Files with a shelf of programs added. -/
def stock (f : Files) (root : List String) (ps : List (Int × String)) : Files :=
  { f with entries := shelf root ps ++ f.entries }

variable {f : Files} {root : List String}

lemma lookup_shelf (root : List String) (ps : List (Int × String)) (id : Int) :
    (shelf root ps).lookup (root ++ pathFor id) = ps.lookup id := by
  induction ps with
  | nil => rfl
  | cons p ps ih =>
    obtain ⟨i, text⟩ := p
    have same : (root ++ pathFor id == root ++ pathFor i) = (id == i) := by
      rw [Bool.eq_iff_iff, beq_iff_eq, beq_iff_eq, List.append_right_inj]
      exact pathFor_injective.eq_iff
    rw [shelf, List.map_cons, List.lookup_cons, List.lookup_cons, same]
    split
    · rfl
    · exact ih

/-- A path that goes on below a vacant one, or ends there, meets no file. -/
lemma Vacant.not_leadsTo (vacant : Vacant f root) {e : List String × String} (he : e ∈ f.entries)
    (names : List String) :
    ¬ e.1 <+: root ++ names ∧ ¬ root ++ names <+: e.1 := by
  refine ⟨fun h => ?_, fun h => vacant.below e he ((List.prefix_append _ _).trans h)⟩
  rcases List.prefix_or_prefix_of_prefix h (List.prefix_append root names) with h | h
  · exact vacant.above e he h
  · exact vacant.below e he h

lemma Vacant.not_folder (vacant : Vacant f root) {folder : List String} (hf : folder ∈ f.folders)
    (name : String) (names : List String) : ¬ root ++ name :: names <+: folder := by
  intro h
  have same := vacant.folders folder hf ((List.prefix_append _ _).trans h)
  have := h.length_le
  rw [same, List.length_append, List.length_cons] at this
  omega

lemma Vacant.lookup_eq_none (vacant : Vacant f root) (names : List String) :
    f.entries.lookup (root ++ names) = none := by
  refine List.lookup_eq_none_iff.2 fun e he => ?_
  rw [bne_iff_ne]
  intro h
  exact (vacant.not_leadsTo he names).2 (h ▸ List.prefix_refl _)

lemma Vacant.lookup_stock (vacant : Vacant f root) (ps : List (Int × String)) (id : Int) :
    (stock f root ps).entries.lookup (root ++ pathFor id) = ps.lookup id := by
  rw [stock, List.lookup_append, lookup_shelf, vacant.lookup_eq_none, Option.or_none]

/-- One program file does not lead to another. -/
lemma eq_of_leadsTo_pathFor {i j : Int} (h : root ++ pathFor i <+: root ++ pathFor j) : i = j :=
  pathFor_injective (List.append_cancel_left (h.eq_of_length (by simp [pathFor])))

/-- **A shelf answers like the list it was made from.** -/
lemma entry_stock (vacant : Vacant f root) (ps : List (Int × String)) (id : Int) :
    (stock f root ps).entry (root ++ pathFor id) =
      match ps.lookup id with
      | some text => .file text
      | none => .absent := by
  unfold Files.entry
  rw [vacant.lookup_stock]
  rcases missing : ps.lookup id with _ | text
  · -- All files of the shelf are equally deep, so none of them is on the way to another.
    have other : ∀ e ∈ shelf root ps,
        ¬ e.1 <+: root ++ pathFor id ∧ ¬ root ++ pathFor id <+: e.1 := by
      intro e he
      obtain ⟨p, hp, rfl⟩ := List.mem_map.1 he
      have differ : id ≠ p.1 := by
        have := List.lookup_eq_none_iff.1 missing p hp
        exact bne_iff_ne.1 this
      exact ⟨fun h => differ (eq_of_leadsTo_pathFor h).symm,
        fun h => differ (eq_of_leadsTo_pathFor h)⟩
    have clear : ∀ e ∈ (stock f root ps).entries,
        ¬ e.1 <+: root ++ pathFor id ∧ ¬ root ++ pathFor id <+: e.1 := by
      intro e he
      rcases List.mem_append.1 he with he | he
      · exact other e he
      · exact vacant.not_leadsTo he _
    dsimp only
    rw [if_neg, if_neg]
    · rw [List.any_eq_true]
      rintro ⟨e, he, h⟩
      exact (clear e he).1 (List.isPrefixOf_iff_prefix.1 h)
    · rw [Bool.or_eq_true, Bool.or_eq_true, List.any_eq_true, List.any_eq_true]
      rintro ((h | ⟨folder, hf, h⟩) | ⟨e, he, h⟩)
      · simp [pathFor] at h
      · exact vacant.not_folder hf _ _ (List.isPrefixOf_iff_prefix.1 h)
      · exact (clear e he).2 (List.isPrefixOf_iff_prefix.1 h)
  · rfl

/-- The folder of a program is a directory or free to become one. -/
lemma entry_folder (vacant : Vacant f root) (ps : List (Int × String)) (name : String) :
    (stock f root ps).entry (root ++ [name]) = .directory ∨
      (stock f root ps).entry (root ++ [name]) = .absent := by
  have deeper : ∀ e ∈ shelf root ps, ¬ e.1 <+: root ++ [name] := by
    intro e he h
    obtain ⟨p, -, rfl⟩ := List.mem_map.1 he
    have := h.length_le
    simp only [pathFor, List.length_append, List.length_cons, List.length_nil] at this
    omega
  have clear : ∀ e ∈ (stock f root ps).entries, ¬ e.1 <+: root ++ [name] := by
    intro e he
    rcases List.mem_append.1 he with he | he
    · exact deeper e he
    · exact (vacant.not_leadsTo he _).1
  have free : (stock f root ps).entries.lookup (root ++ [name]) = none := by
    refine List.lookup_eq_none_iff.2 fun e he => ?_
    rw [bne_iff_ne]
    intro h
    exact clear e he (h ▸ List.prefix_refl _)
  unfold Files.entry
  rw [free]
  dsimp only
  split
  · exact .inl rfl
  · rw [if_neg]
    · exact .inr rfl
    · rw [List.any_eq_true]
      rintro ⟨e, he, h⟩
      exact clear e he (List.isPrefixOf_iff_prefix.1 h)

lemma save_stock (vacant : Vacant f root) (top text : String) (new : ps.lookup id = none) :
    (stock f root ps).save top (root ++ pathFor id) text =
      .ok (stock f root ((id, text) :: ps)) := by
  have parent : (root ++ pathFor id).dropLast = root ++ [Text.padded 3 (id / 1000)] := by
    rw [pathFor, List.dropLast_append_of_ne_nil (List.cons_ne_nil _ _)]
    rfl
  have absent : (stock f root ps).entry (root ++ pathFor id) = .absent := by
    rw [entry_stock vacant, new]
  have nothing : (stock f root ps).entries.filter (·.1 != root ++ pathFor id) =
      (stock f root ps).entries := by
    have free := (vacant.lookup_stock ps id).trans new
    refine List.filter_eq_self.2 fun e he => ?_
    rw [bne_iff_ne]
    exact (bne_iff_ne.1 (List.lookup_eq_none_iff.1 free e he)).symm
  have written : (stock f root ps).write (root ++ pathFor id) text =
      stock f root ((id, text) :: ps) := by
    unfold Files.write
    rw [nothing]
    rfl
  unfold Files.save
  dsimp only
  rw [parent, absent, written]
  rcases entry_folder vacant ps (Text.padded 3 (id / 1000)) with h | h <;> rw [h]

/-- Programs with different ids are written without fail, and then they are the shelf. -/
lemma saveAll_eq (vacant : Vacant f root) (top : String) (nodup : (ps.map Prod.fst).Nodup) :
    saveAll f top root ps = .ok (stock f root ps.reverse) := by
  -- `done` is on the shelf already, the latest program first.
  suffices ∀ done, ((ps ++ done).map Prod.fst).Nodup →
      saveAll (stock f root done) top root ps = .ok (stock f root (ps.reverse ++ done)) by
    have := this [] (by rwa [List.append_nil])
    rwa [List.append_nil] at this
  clear nodup
  induction ps with
  | nil => exact fun done _ => rfl
  | cons p ps ih =>
    obtain ⟨id, text⟩ := p
    intro done nodup
    rw [List.cons_append, List.map_cons, List.nodup_cons] at nodup
    have new : done.lookup id = none := by
      refine lookup_eq_none_of_not_mem fun h => nodup.1 ?_
      rw [List.map_append]
      exact List.mem_append_right _ h
    have rest := ih ((id, text) :: done) <|
      (List.perm_middle.map Prod.fst).nodup_iff.2 (by simpa using nodup)
    unfold saveAll at rest ⊢
    rw [List.foldlM_cons, save_stock vacant top text new, List.reverse_cons, List.append_assoc]
    exact rest

/-! ### Reading and listing -/

lemma read?_stock (vacant : Vacant f root) (top : String)
    (plain : ∀ p ∈ ps, '\r' ∉ p.2.toList) (id : Int) :
    (stock f root ps).read? top (root ++ pathFor id) = .ok (ps.lookup id) := by
  unfold Files.read?
  rw [entry_stock vacant]
  rcases h : ps.lookup id with _ | text
  · rfl
  · dsimp only
    rw [Text.unifyNewlines_eq (plain _ (mem_of_lookup h))]

/-- What is picked from the files is picked from the shelf, if nothing else is. -/
lemma filterMap_stock {β : Type} {pick : List String × String → Option β} {entry : Int → β}
    (outside : ∀ e ∈ f.entries, pick e = none)
    (inside : ∀ p : Int × String, pick (root ++ pathFor p.1, p.2) = some (entry p.1)) :
    (stock f root ps).entries.filterMap pick = (ps.map Prod.fst).map entry := by
  have added : (shelf root ps).filterMap pick = (ps.map Prod.fst).map entry := by
    rw [shelf, List.filterMap_map, List.map_map, ← List.filterMap_eq_map]
    exact List.filterMap_congr fun p _ => inside p
  rw [stock, List.filterMap_append, added, List.filterMap_eq_nil_iff.2 outside, List.append_nil]

/-- Below a vacant path there is the shelf and nothing else. -/
lemma grandchildren_stock (vacant : Vacant f root) (nodup : (ps.map Prod.fst).Nodup) :
    (stock f root ps).grandchildren root =
      (ps.map Prod.fst).map fun id => (Text.padded 3 (id / 1000), programFile id) := by
  unfold Files.grandchildren
  rw [filterMap_stock, eraseDups_eq_self]
  · exact nodup.map fun i j h => programFile_injective (Prod.mk.inj h).2
  · intro e he
    refine if_neg fun h => ?_
    exact vacant.below e he (List.isPrefixOf_iff_prefix.1 h)
  · intro p
    have leads : Files.leadsTo root (root ++ pathFor p.1) = true :=
      List.isPrefixOf_iff_prefix.2 (List.prefix_append _ _)
    rw [if_pos leads, List.drop_left]
    rfl

/-- **The listing has the ids below a million.** -/
lemma ids?_stock {d : Directory} (vacant : Vacant f d.path) (nodup : (ps.map Prod.fst).Nodup)
    (files : d.files = stock f d.path ps) :
    d.ids? = some (((ps.map Prod.fst).filter Listed).mergeSort (· ≤ ·)) := by
  have parts {pick : String × String → Option (List Char)}
      (picks : ∀ id, pick (Text.padded 3 (id / 1000), programFile id) =
        if Listed id then some (Text.padded 6 id).toList else none) :
      (d.files.grandchildren d.path).filterMap pick =
        ((ps.map Prod.fst).filter Listed).map fun id => (Text.padded 6 id).toList := by
    rw [files, grandchildren_stock vacant nodup, List.filterMap_map, ← List.filterMap_eq_filter,
      List.map_filterMap]
    refine List.filterMap_congr fun id _ => (picks id).trans ?_
    by_cases h : Listed id <;> simp [h, Option.guard]
  have picks (id : Int) : (if isFolderName (Text.padded 3 (id / 1000)) then
      idPart? (programFile id) else none) =
        if Listed id then some (Text.padded 6 id).toList else none := by
    simp only [isFolderName_folder, idPart?_programFile, decide_eq_true_eq]
  have listed : ∀ id ∈ (ps.map Prod.fst).filter Listed, Listed id := by
    intro id h
    exact of_decide_eq_true (List.mem_filter.1 h).2
  unfold ids?
  dsimp only
  rw [parts picks]
  generalize (ps.map Prod.fst).filter Listed = ids at listed
  have all : (ids.map fun id => (Text.padded 6 id).toList).filter
      (fun cs => !cs.isEmpty && cs.all Text.isDigitLike) =
      ids.map fun id => (Text.padded 6 id).toList := by
    refine List.filter_eq_self.2 fun cs hcs => ?_
    obtain ⟨id, hid, rfl⟩ := List.mem_map.1 hcs
    exact (numeral_of_listed (listed id hid)).1
  have read : (ids.map fun id => (Text.padded 6 id).toList).map
      (fun cs => (Text.natValue cs : Int)) = ids := by
    rw [List.map_map]
    have same : ∀ id ∈ ids, (Text.natValue (Text.padded 6 id).toList : Int) = id :=
      fun id hid => (numeral_of_listed (listed id hid)).2.2
    exact (List.map_congr_left same).trans (List.map_id' ids)
  rw [all, read, if_pos]
  refine List.all_eq_true.2 fun cs hcs => ?_
  obtain ⟨id, hid, rfl⟩ := List.mem_map.1 hcs
  exact (numeral_of_listed (listed id hid)).2.1

lemma mergeSort_eq {ids sorted : List Int} (perm : ids.Perm sorted)
    (ascending : sorted.Pairwise (· ≤ ·)) : ids.mergeSort (· ≤ ·) = sorted := by
  have result : (ids.mergeSort (· ≤ ·)).Pairwise (· ≤ ·) := by
    refine (List.pairwise_mergeSort ?_ ?_ ids).imp of_decide_eq_true
    · intro a b c
      simp only [decide_eq_true_eq]
      omega
    · intro a b
      simp only [Bool.or_eq_true, decide_eq_true_eq]
      omega
  have same : (ids.mergeSort (· ≤ ·)).Perm sorted := (List.mergeSort_perm ids _).trans perm
  exact same.eq_of_pairwise (fun _ _ _ _ => Int.le_antisymm) result ascending

/-- The order of the programs does not matter for a look-up. -/
lemma lookup_eq_getElem? {programs : Std.ExtTreeMap Int String} (order : ps.Perm programs.toList)
    (id : Int) : ps.lookup id = programs[id]? := by
  rcases h : ps.lookup id with _ | text
  · refine (Option.eq_none_iff_forall_ne_some.2 fun text ht => ?_).symm
    have : (id, text) ∈ ps :=
      order.mem_iff.2 (Std.ExtTreeMap.mem_toList_iff_getElem?_eq_some.2 ht)
    have := List.lookup_eq_none_iff.1 h _ this
    exact absurd rfl (bne_iff_ne.1 this)
  · have := order.mem_iff.1 (mem_of_lookup h)
    exact (Std.ExtTreeMap.mem_toList_iff_getElem?_eq_some.1 this).symm

/-- **Programs that are written to an empty directory are found again, in whatever order they
were written, and those below a million are listed.** -/
theorem load_and_ids?_of_saveAll {programs : Std.ExtTreeMap Int String} (vacant : Vacant f root)
    (order : ps.Perm programs.toList) (plain : ∀ p ∈ ps, '\r' ∉ p.2.toList) (top : String) :
    ∃ files, saveAll f top root ps = .ok files ∧
      ∀ d : Directory, d.files = files → d.top = top → d.path = root →
        (∀ id, ((Store.directory d).load id).answer = .ok programs[id]?) ∧
        d.ids? = some (programs.keys.filter Listed) := by
  have keys : (ps.map Prod.fst).Perm programs.keys := by
    rw [← Std.ExtTreeMap.map_fst_toList_eq_keys]
    exact order.map Prod.fst
  have ascending : programs.keys.Pairwise (· < ·) := by
    refine Std.ExtTreeMap.ordered_keys.imp fun h => ?_
    exact Std.compare_eq_lt.1 h
  have nodup : (ps.map Prod.fst).Nodup := keys.nodup_iff.2 (ascending.imp fun h => by omega)
  have reversed : (ps.reverse.map Prod.fst).Nodup := by
    rw [List.map_reverse]
    exact List.nodup_reverse.2 nodup
  refine ⟨stock f root ps.reverse, saveAll_eq vacant top nodup, ?_⟩
  rintro d files rfl rfl
  constructor
  · intro id
    have same := lookup_eq_getElem? ((List.reverse_perm ps).trans order) id
    have read := read?_stock vacant d.top (fun p hp => plain p (List.mem_reverse.1 hp)) id
    rw [← same, ← read, ← files]
    unfold Store.load Store.text?
    dsimp only
    rcases d.files.read? d.top (d.path ++ pathFor id) with _ | _ | _ <;> rfl
  · have listed : (programs.keys.filter Listed).Pairwise (· ≤ ·) :=
      (ascending.imp fun h => by omega).filter _
    have perm := (((List.reverse_perm ps).map Prod.fst).trans keys).filter fun id => Listed id
    rw [ids?_stock vacant reversed files, mergeSort_eq perm listed]

theorem load_and_ids?_of_saveAll_two :
    ∃ files, saveAll {} "" ["programs"] [(1234567, "mov $0,1\n"), (7, "add $0,2\n")] = .ok files ∧
      ∀ d : Directory, d.files = files → d.top = "" → d.path = ["programs"] →
        (∀ id, ((Store.directory d).load id).answer =
          .ok (((∅ : Std.ExtTreeMap Int String).insert 7 "add $0,2\n").insert 1234567
            "mov $0,1\n")[id]?) ∧
        d.ids? = some [7] :=
  load_and_ids?_of_saveAll ⟨by simp, by simp, by simp⟩ (by decide) (by decide) ""

/-- A program with a seven-digit id can be read, but is not listed. -/
theorem ids?_misses_million :
    ∃ files, saveAll {} "" [] [(1000000, "mov $0,1\n")] = .ok files ∧
      (Store.directory { files, top := "", path := [] }).text? 1000000 =
        .ok (some "mov $0,1\n") ∧
      Directory.ids? { files, top := "", path := [] } = some [] := by
  refine ⟨_, rfl, ?_, ?_⟩
  · cbv
  · cbv

end Directory

end SeqAsm
