import SeqAsm.Text.Numeral

/-!
Program ids. A program is known to others by an integer; its name is the letter A and the id
with at least six places. Sets of ids are lists in ascending order without repetition.
-/

namespace SeqAsm

def programName (id : Int) : String := "A" ++ Text.padded 6 id

def programFile (id : Int) : String := programName id ++ ".asm"

namespace Ids

def insert (id : Int) : List Int → List Int
  | [] => [id]
  | x :: xs =>
    if id < x then id :: x :: xs
    else if id = x then x :: xs
    else x :: insert id xs

/-- The ids of a list, ascending and each once. -/
def ofList (ids : List Int) : List Int := ids.foldl (fun s id => insert id s) []

/-- Merges a first element and a way to merge all others into an ascending list. -/
def mergeHead (x : Int) (mergeRest : List Int → List Int) : List Int → List Int
  | [] => x :: mergeRest []
  | y :: ys =>
    if x < y then x :: mergeRest (y :: ys)
    else if x = y then x :: mergeRest ys
    else y :: mergeHead x mergeRest ys

def union : List Int → List Int → List Int
  | [], b => b
  | x :: a, b => mergeHead x (union a) b

@[simp] theorem mem_insert {id x : Int} {s : List Int} : x ∈ insert id s ↔ x = id ∨ x ∈ s := by
  induction s with
  | nil => simp [insert]
  | cons y ys ih =>
    unfold insert
    split
    · simp
    · split
      · rename_i h
        simp [h]
      · simp only [List.mem_cons, ih]
        constructor
        · rintro (h | h | h) <;> simp [h]
        · rintro (h | h | h) <;> simp [h]

theorem mem_foldl_insert {x : Int} {ids s : List Int} :
    x ∈ ids.foldl (fun s id => insert id s) s ↔ x ∈ s ∨ x ∈ ids := by
  induction ids generalizing s with
  | nil => simp
  | cons y ys ih =>
    simp only [List.foldl_cons, ih, mem_insert, List.mem_cons]
    constructor
    · rintro ((h | h) | h) <;> simp [h]
    · rintro (h | h | h) <;> simp [h]

@[simp] theorem mem_ofList {x : Int} {ids : List Int} : x ∈ ofList ids ↔ x ∈ ids := by
  simp [ofList, mem_foldl_insert]

theorem mem_mergeHead {x y : Int} {a : List Int} {mergeRest : List Int → List Int}
    (rest : ∀ b, y ∈ mergeRest b ↔ y ∈ a ∨ y ∈ b) (b : List Int) :
    y ∈ mergeHead x mergeRest b ↔ y ∈ x :: a ∨ y ∈ b := by
  induction b with
  | nil => simp [mergeHead, rest]
  | cons z zs ih =>
    unfold mergeHead
    split
    · simp [rest, or_assoc]
    · split
      · rename_i _ h
        simp only [h, List.mem_cons, rest]
        grind
      · simp only [List.mem_cons, ih]
        grind

@[simp] theorem mem_union {x : Int} {a b : List Int} : x ∈ union a b ↔ x ∈ a ∨ x ∈ b := by
  induction a generalizing b with
  | nil => simp [union]
  | cons y ys ih => exact mem_mergeHead (fun c => ih) b

end Ids

end SeqAsm
