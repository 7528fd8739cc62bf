import ClassEdit.Cursor
import Mathlib.Data.List.Basic

/-!
# Searches find the nearest instruction

A search forwards looks at what is ahead of a cursor, a search backwards at what lies behind it. Of
the instructions there that satisfy its condition, the one takes the first and the other one the
last, and the cursor then stands on this instruction, with the remaining ones still ahead or behind.
So a search that is repeated goes through all of them, and then it finds nothing any more, since a
search that finds nothing does not move the cursor.

## Main definitions

* `Cursor.Occurs`, `Cursor.hits`: the instructions of a body that satisfy a condition.
* `Cursor.answer`: what a search finds when it is repeated.
* `Cursor.IsNext`, `Cursor.IsPrevious`: the nearest instruction after or before a position.
* `CursorSearch`, `CursorSearch.perform`: all the searches there are.

## Main results

* `Cursor.answer_next`, `Cursor.answer_previous`: a repeated search goes through all instructions
  ahead, or behind.
* `Cursor.next_spec`, `Cursor.previous_spec`: a single search finds what is nearest.
* `Cursor.searches_exact`: what searches find, and where they leave the cursor.
-/

namespace ClassEdit

namespace Cursor

variable {condition : Instruction → Bool} {code : List Instruction} {c : Cursor}
variable {found : Found} {before rest : List Found} {index n : Nat}

/-! ### Instructions that satisfy a condition -/

/-- An instruction stands at an index of a body and satisfies a condition. -/
def Occurs (code : List Instruction) (condition : Instruction → Bool) (found : Found) : Prop :=
  code[found.1]? = some found.2 ∧ condition found.2 = true

/-- The instructions satisfying a condition in a stretch of code that starts at an index. -/
def hits (condition : Instruction → Bool) (index : Nat) (code : List Instruction) : List Found :=
  ((code.zipIdx index).filter fun entry => condition entry.1).map Prod.swap

theorem hits_cons {insn : Instruction} : hits condition index (insn :: code) =
    (if condition insn then [(index, insn)] else []) ++ hits condition (index + 1) code := by
  rw [hits, List.zipIdx_cons, List.filter_cons]
  split <;> rfl

theorem mem_hits : found ∈ hits condition index code ↔
    index ≤ found.1 ∧ code[found.1 - index]? = some found.2 ∧ condition found.2 = true := by
  obtain ⟨i, insn⟩ := found
  have hentry : (insn, i) ∈ code.zipIdx index ↔ index ≤ i ∧ code[i - index]? = some insn :=
    List.mk_mem_zipIdx_iff_le_and_getElem?_sub
  simp [hits, hentry, and_assoc]

theorem mem_hits_zero : found ∈ hits condition 0 code ↔ Occurs code condition found := by
  simp [mem_hits, Occurs]

/-- Their indices increase. -/
theorem pairwise_hits : (hits condition index code).Pairwise fun a b => a.1 < b.1 := by
  have hindices : (code.zipIdx index).Pairwise fun a b => a.2 < b.2 := by
    rw [← List.pairwise_map (f := Prod.snd), List.zipIdx_map_snd]
    exact List.pairwise_lt_range'
  exact List.pairwise_map.2 (hindices.filter _)

theorem firstFrom_eq_head? :
    firstFrom condition index code = (hits condition index code).head? := by
  induction code generalizing index with
  | nil => rfl
  | cons insn code ih =>
    rw [firstFrom, hits_cons]
    split
    · rfl
    · exact ih

theorem lastFrom_eq_getLast? :
    lastFrom condition index code = (hits condition index code).getLast? := by
  induction code generalizing index with
  | nil => rfl
  | cons insn code ih =>
    rw [lastFrom, hits_cons, ih, List.getLast?_append]
    cases (hits condition (index + 1) code).getLast? with
    | some found => rfl
    | none => by_cases h : condition insn <;> simp [h]

/-- A hit parts the others into those before it and those behind it. -/
theorem hits_split (h : found ∈ hits condition index code) : hits condition index code =
    hits condition index (code.take (found.1 - index)) ++
      found :: hits condition (found.1 + 1) (code.drop (found.1 + 1 - index)) := by
  induction code generalizing index with
  | nil => cases h
  | cons insn code ih =>
    obtain ⟨hle, hget, hholds⟩ := mem_hits.1 h
    rcases Nat.eq_or_lt_of_le hle with rfl | hlt
    · -- the hit is the first instruction
      obtain rfl : insn = found.2 := by simpa using hget
      rw [hits_cons, if_pos hholds]
      simp [hits]
    · obtain ⟨d, hd⟩ := Nat.exists_eq_add_of_lt hlt
      have hafter : found.1 + 1 - index = found.1 + 1 - (index + 1) + 1 := by omega
      have hbefore : found.1 - index = found.1 - (index + 1) + 1 := by omega
      have hmem : found ∈ hits condition (index + 1) code := by
        rw [hbefore, List.getElem?_cons_succ] at hget
        exact mem_hits.2 ⟨hlt, hget, hholds⟩
      rw [hafter, hbefore, List.take_succ_cons, List.drop_succ_cons, hits_cons, hits_cons, ih hmem,
        List.append_assoc]

theorem notMem_hits_before : found ∉ hits condition index (code.take (found.1 - index)) := by
  intro h
  obtain ⟨-, hget, -⟩ := mem_hits.1 h
  rw [List.getElem?_take_eq_none (Nat.le_refl _)] at hget
  cases hget

theorem notMem_hits_after : found ∉ hits condition (found.1 + 1) code := fun h =>
  absurd (mem_hits.1 h).1 (Nat.not_succ_le_self found.1)

/-- What there is before a hit, and what behind it. -/
theorem hits_eq_append_cons (h : hits condition index code = before ++ found :: rest) :
    hits condition index (code.take (found.1 - index)) = before ∧
      hits condition (found.1 + 1) (code.drop (found.1 + 1 - index)) = rest := by
  have hmem : found ∈ hits condition index code := by simp [h]
  rw [hits_split hmem, List.append_cons_inj_of_notMem notMem_hits_before notMem_hits_after] at h
  exact ⟨h.1, h.2.2⟩

/-! ### What is ahead of a cursor and what lies behind it -/

/-- The instructions ahead of a cursor that satisfy a condition. -/
def pending (condition : Instruction → Bool) (c : Cursor) : List Found :=
  hits condition c.ahead (c.code.drop c.ahead)

/-- The instructions behind a cursor that satisfy a condition. -/
def passed (condition : Instruction → Bool) (c : Cursor) : List Found :=
  hits condition 0 (c.code.take c.behind)

theorem next_eq : c.next condition =
    ((pending condition c).head?, c.moved (pending condition c).head?) := by
  rw [next, firstFrom_eq_head?]
  rfl

theorem previous_eq : c.previous condition =
    ((passed condition c).getLast?, c.moved (passed condition c).getLast?) := by
  rw [previous, lastFrom_eq_getLast?]
  rfl

theorem mem_pending : found ∈ pending condition c ↔
    Occurs c.code condition found ∧ c.ahead ≤ found.1 := by
  rw [pending, mem_hits, Occurs, List.getElem?_drop, and_comm]
  refine and_congr_left fun hle => ?_
  rw [Nat.add_sub_cancel' hle]

theorem mem_passed : found ∈ passed condition c ↔
    Occurs c.code condition found ∧ found.1 < c.behind := by
  rw [passed, mem_hits, Occurs, Nat.sub_zero, List.getElem?_take]
  split <;> simp [*]

/-- The others are still ahead of a cursor that stands on the first one. -/
theorem pending_moved (h : pending condition c = found :: rest) :
    pending condition (c.moved (some found)) = rest := by
  have hmem : found ∈ pending condition c := by simp [h]
  have hle : c.ahead ≤ found.1 := (mem_pending.1 hmem).2
  have hfirst : pending condition c = [] ++ found :: rest := h
  obtain ⟨-, hrest⟩ := hits_eq_append_cons hfirst
  rw [List.drop_drop, show c.ahead + (found.1 + 1 - c.ahead) = found.1 + 1 by omega] at hrest
  exact hrest

/-- The others are still behind a cursor that stands on the last one. -/
theorem passed_moved (h : passed condition c = before ++ [found]) :
    passed condition (c.moved (some found)) = before := by
  have hmem : found ∈ passed condition c := by simp [h]
  have hlt : found.1 < c.behind := (mem_passed.1 hmem).2
  obtain ⟨hbefore, -⟩ := hits_eq_append_cons h
  rw [Nat.sub_zero, List.take_take, Nat.min_eq_left (Nat.le_of_lt hlt)] at hbefore
  exact hbefore

/-! ### Searches that are repeated -/

/-- What a search finds after it was made so many times. -/
def answer (search : Cursor → Option Found × Cursor) : Nat → Cursor → Option Found
  | 0, c => (search c).1
  | n + 1, c => answer search n (search c).2

/-- A repeated search forwards goes through what is ahead, and finds nothing after that. -/
theorem answer_next : answer (next condition) n c = (pending condition c)[n]? := by
  induction n generalizing c with
  | zero => rw [answer, next_eq, List.head?_eq_getElem?]
  | succ n ih =>
    rw [answer, ih, next_eq]
    cases h : pending condition c with
    | nil => simp [moved, h]
    | cons found rest => rw [List.head?_cons, pending_moved h, List.getElem?_cons_succ]

/-- A repeated search backwards goes through what lies behind, and finds nothing after that. -/
theorem answer_previous :
    answer (previous condition) n c = (passed condition c).reverse[n]? := by
  induction n generalizing c with
  | zero => rw [answer, previous_eq, List.getLast?_eq_head?_reverse, List.head?_eq_getElem?]
  | succ n ih =>
    rw [answer, ih, previous_eq]
    rcases List.eq_nil_or_concat (passed condition c) with h | ⟨before, found, h⟩
    · simp [moved, h]
    · rw [List.concat_eq_append] at h
      rw [h, List.getLast?_concat, passed_moved h, List.reverse_concat, List.getElem?_cons_succ]

/-! ### What is nearest -/

/-- The instruction of the least index behind a position that satisfies a condition, if any does. -/
def IsNext (code : List Instruction) (condition : Instruction → Bool) (position : Nat) :
    Option Found → Prop
  | some found => Occurs code condition found ∧ position < found.1 ∧
      ∀ other, Occurs code condition other → position < other.1 → found.1 ≤ other.1
  | none => ∀ other, Occurs code condition other → other.1 ≤ position

/-- The instruction of the greatest index before a position that satisfies a condition, if any
does. -/
def IsPrevious (code : List Instruction) (condition : Instruction → Bool) (position : Nat) :
    Option Found → Prop
  | some found => Occurs code condition found ∧ found.1 < position ∧
      ∀ other, Occurs code condition other → other.1 < position → other.1 ≤ found.1
  | none => ∀ other, Occurs code condition other → position ≤ other.1

theorem next_spec {position : Nat} (hposition : c.position = some position) :
    IsNext c.code condition position (c.next condition).1 := by
  have hahead : c.ahead = position + 1 := by rw [ahead, hposition]
  have hmem (other : Found) (hother : Occurs c.code condition other) (hlt : position < other.1) :
      other ∈ pending condition c := mem_pending.2 ⟨hother, by omega⟩
  rw [next_eq]
  cases h : pending condition c with
  | nil =>
    intro other hother
    by_contra hlt
    -- nothing is ahead, so a hit behind the position would be pending
    have hnone := hmem other hother (Nat.lt_of_not_le hlt)
    rw [h] at hnone
    cases hnone
  | cons found rest =>
    have hfound : found ∈ pending condition c := by simp [h]
    obtain ⟨hoccurs, hle⟩ := mem_pending.1 hfound
    refine ⟨hoccurs, by omega, fun other hother hlt => ?_⟩
    -- hits come in order, so the first pending one is the nearest
    have hsorted : (found :: rest).Pairwise fun a b => a.1 < b.1 := h ▸ pairwise_hits
    rcases List.mem_cons.1 (h ▸ hmem other hother hlt) with rfl | hrest
    · exact Nat.le_refl _
    · exact Nat.le_of_lt (List.rel_of_pairwise_cons hsorted hrest)

theorem previous_spec {position : Nat} (hposition : c.position = some position) :
    IsPrevious c.code condition position (c.previous condition).1 := by
  have hbehind : c.behind = position := by rw [behind, hposition, Option.getD_some]
  have hmem (other : Found) (hother : Occurs c.code condition other) (hlt : other.1 < position) :
      other ∈ passed condition c := mem_passed.2 ⟨hother, by omega⟩
  rw [previous_eq]
  rcases List.eq_nil_or_concat (passed condition c) with h | ⟨before, found, h⟩
  · rw [h]
    intro other hother
    by_contra hlt
    have hnone := hmem other hother (Nat.lt_of_not_le hlt)
    rw [h] at hnone
    cases hnone
  · rw [List.concat_eq_append] at h
    rw [h, List.getLast?_concat]
    have hfound : found ∈ passed condition c := by simp [h]
    obtain ⟨hoccurs, hlt⟩ := mem_passed.1 hfound
    refine ⟨hoccurs, by omega, fun other hother hlt => ?_⟩
    -- hits come in order, so the last one that was passed is the nearest
    have hsorted : (before ++ [found]).Pairwise fun a b => a.1 < b.1 := h ▸ pairwise_hits
    rcases List.mem_append.1 (h ▸ hmem other hother hlt) with hbefore | hlast
    · exact Nat.le_of_lt ((List.pairwise_append.1 hsorted).2.2 other hbefore found (by simp))
    · exact Nat.le_of_eq (congrArg Prod.fst (List.mem_singleton.1 hlast))

end Cursor

/-! ### All searches -/

/-- The searches that a cursor can make. -/
inductive CursorSearch where
  | next (condition : Instruction → Bool)
  | previous (condition : Instruction → Bool)
  | nextInstruction
  | previousInstruction
  | findConstant (constant : Constant)
  | findString (value : String)
  | findCall (condition : MethodRef → Bool)
  | findField (condition : FieldRef → Bool)

namespace CursorSearch

open Cursor

variable {search : CursorSearch} {c c' : Cursor} {code : List Instruction} {found : Found}

/-- What a search finds, and the cursor after it. -/
def perform : CursorSearch → Cursor → Option Found × Cursor
  | next condition => Cursor.next condition
  | previous condition => Cursor.previous condition
  | nextInstruction => Cursor.nextInstruction
  | previousInstruction => Cursor.previousInstruction
  | findConstant constant => Cursor.findConstant constant
  | findString value => Cursor.findString value
  | findCall condition => Cursor.findCall condition
  | findField condition => Cursor.findField condition

/-- What a search looks for. -/
def Seeks : CursorSearch → Instruction → Prop
  | next condition, insn | previous condition, insn => condition insn = true
  | nextInstruction, insn | previousInstruction, insn => insn.isMarker = false
  | findConstant constant, insn => insn.constant? = some constant
  | findString value, insn => insn = .ldc (.string value)
  | findCall condition, insn => ∃ m, insn = .invoke m ∧ condition m = true
  | findField condition, insn => ∃ f, insn = .field f ∧ condition f = true

/-- Whether a search goes backwards. -/
def goesBack : CursorSearch → Bool
  | previous _ | previousInstruction => true
  | next _ | nextInstruction | findConstant _ | findString _ | findCall _ | findField _ => false

/-- Every search is one for the next or the previous instruction that it looks for. -/
theorem perform_eq (search : CursorSearch) : ∃ condition,
    (∀ insn, condition insn = true ↔ search.Seeks insn) ∧
      search.perform =
        if search.goesBack then Cursor.previous condition else Cursor.next condition := by
  cases search with
  | next condition | previous condition => exact ⟨condition, fun _ => Iff.rfl, rfl⟩
  | nextInstruction | previousInstruction => exact ⟨_, fun _ => by simp [Seeks], rfl⟩
  | findConstant constant => exact ⟨_, fun _ => beq_iff_eq, rfl⟩
  | findString value =>
    refine ⟨_, fun insn => beq_iff_eq.trans ?_, rfl⟩
    unfold Instruction.string?
    split <;> simp_all [Seeks]
  | findCall condition =>
    refine ⟨_, fun insn => ?_, rfl⟩
    cases insn <;> simp [Seeks, Instruction.call?]
  | findField condition =>
    refine ⟨_, fun insn => ?_, rfl⟩
    cases insn <;> simp [Seeks, Instruction.field?]

/-- What a search finds is an instruction of the body that it looks for, and the cursor is moved
there. -/
theorem perform_eq_moved (search : CursorSearch) (c : Cursor) : ∃ answer,
    search.perform c = (answer, c.moved answer) ∧
      ∀ found ∈ answer, c.code[found.1]? = some found.2 ∧ search.Seeks found.2 := by
  obtain ⟨condition, hseeks, hperform⟩ := search.perform_eq
  cases hback : search.goesBack with
  | false =>
    rw [hback, if_neg Bool.false_ne_true] at hperform
    refine ⟨_, by rw [hperform, next_eq], fun found hfound => ?_⟩
    obtain ⟨⟨hget, hholds⟩, -⟩ := mem_pending.1 (List.mem_of_head? hfound)
    exact ⟨hget, (hseeks _).1 hholds⟩
  | true =>
    rw [hback, if_pos rfl] at hperform
    refine ⟨_, by rw [hperform, previous_eq], fun found hfound => ?_⟩
    obtain ⟨⟨hget, hholds⟩, -⟩ := mem_passed.1 (List.mem_of_getLast? hfound)
    exact ⟨hget, (hseeks _).1 hholds⟩

/-- What a search does with a cursor in a body: it goes on to the next instruction that it looks
for, or back to the previous one. A search that finds nothing leaves the cursor alone, and after one
that finds something it stands on that instruction. -/
structure Settles (code : List Instruction) (search : CursorSearch) (c : Cursor) : Prop where
  nearest : ∃ condition, (∀ insn, condition insn = true ↔ search.Seeks insn) ∧
    search.perform c = if search.goesBack then c.previous condition else c.next condition
  lost : (search.perform c).1 = none → (search.perform c).2 = c
  found : ∀ found, (search.perform c).1 = some found →
    (search.perform c).2 = ⟨code, some found.1⟩ ∧ code[found.1]? = some found.2 ∧
      search.Seeks found.2

theorem settles (hcode : c.code = code) : search.Settles code c := by
  obtain ⟨answer, hperform, hanswer⟩ := search.perform_eq_moved c
  obtain ⟨condition, hseeks, heq⟩ := search.perform_eq
  have hnearest : search.perform c =
      if search.goesBack then c.previous condition else c.next condition := by
    rw [heq]
    split <;> rfl
  subst hcode
  refine ⟨⟨condition, hseeks, hnearest⟩, fun hlost => ?_, fun found hfound => ?_⟩
  · rw [hperform] at hlost ⊢
    rw [show answer = none from hlost]
    rfl
  · rw [hperform] at hfound ⊢
    obtain rfl : answer = some found := hfound
    exact ⟨rfl, hanswer found rfl⟩

/-- A search stays in the body. -/
theorem code_perform (search : CursorSearch) (c : Cursor) : (search.perform c).2.code = c.code := by
  obtain ⟨answer, hperform, -⟩ := search.perform_eq_moved c
  rw [hperform]
  cases answer <;> rfl

/-- Searches one after the other. -/
def performAll : List CursorSearch → Cursor → Cursor
  | [], c => c
  | first :: rest, c => performAll rest (first.perform c).2

theorem code_performAll (searches : List CursorSearch) (c : Cursor) :
    (performAll searches c).code = c.code := by
  induction searches generalizing c with
  | nil => rfl
  | cons first rest ih => rw [performAll, ih, code_perform]

end CursorSearch

namespace Cursor

/-- A search that is repeated with a new cursor goes through all instructions that satisfy its
condition, forwards or backwards, and then finds nothing any more. From an index, which is cut down
to the length of the body, a search finds what is nearest. After any searches, each kind of search
goes on to the next or back to the previous instruction that it looks for, and leaves the cursor
where it is or puts it on what it has found. -/
theorem searches_exact (code : List Instruction) :
    (∀ condition, ∃ hits : List Found, hits.Pairwise (fun a b => a.1 < b.1) ∧
      (∀ found, found ∈ hits ↔ Occurs code condition found) ∧
        (∀ n, answer (next condition) n (start code) = hits[n]?) ∧
          ∀ n, answer (previous condition) n (start code) = hits.reverse[n]?) ∧
    (∀ condition index,
      IsNext code condition (min index code.length) ((startAt code index).next condition).1 ∧
        IsPrevious code condition (min index code.length)
          ((startAt code index).previous condition).1) ∧
    ∀ (searches : List CursorSearch) (search : CursorSearch),
      search.Settles code (CursorSearch.performAll searches (start code)) ∧
        ∀ index, search.Settles code (CursorSearch.performAll searches (startAt code index)) := by
  refine ⟨fun condition => ?_, fun condition index => ⟨next_spec rfl, previous_spec rfl⟩,
    fun searches search => ⟨CursorSearch.settles (CursorSearch.code_performAll searches _),
      fun index => CursorSearch.settles (CursorSearch.code_performAll searches _)⟩⟩
  -- all of the body is ahead of a new cursor, and all of it lies behind
  have hpassed : passed condition (start code) = hits condition 0 code :=
    congrArg (hits condition 0) (List.take_length)
  refine ⟨hits condition 0 code, pairwise_hits, fun found => mem_hits_zero, fun n => answer_next,
    fun n => ?_⟩
  rw [answer_previous, hpassed]

end Cursor

end ClassEdit
