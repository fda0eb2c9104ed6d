import Mathlib.Data.List.TakeWhile
import OpenRtp.Base.Keyed

/-!
# Searching a list that changes meanwhile

A search by key goes from entry to entry, while others append to the list and take
entries out of it.  `Passed key l k a` is what it has found out when it stands at `a`:
no entry before `a` has key `k`.  The search keeps that fact by moving on
(`Passed.next`), and whatever others do to the list keeps it too as long as they leave
`a` in it (`Passed.append`, `Passed.sublist`).

So when the search stops, it stops where a search of the list as it then is would:
`Passed.find_eq`, `Passed.erase_eq` and `Passed.find_eq_none`.
-/

namespace OpenRtp.Cursor

variable {α κ : Type*} [DecidableEq α] {key : α → κ} {l m xs ys : List α} {k : κ} {a b : α}

/-- The entries before the first `a`. -/
def before (l : List α) (a : α) : List α := l.takeWhile fun b => b ≠ a

/-- The entry after the first `a`. -/
def next? (l : List α) (a : α) : Option α := (l.dropWhile fun b => b ≠ a).tail.head?

theorem before_split (first : a ∉ xs) : before (xs ++ a :: ys) a = xs := by
  have skipped : ∀ b ∈ xs, decide (b ≠ a) = true := fun b member =>
    decide_eq_true fun same => first (same ▸ member)
  rw [before, List.takeWhile_append_of_pos skipped, List.takeWhile_cons_of_neg (by simp),
    List.append_nil]

theorem next?_split (first : a ∉ xs) : next? (xs ++ a :: ys) a = ys.head? := by
  have skipped : ∀ b ∈ xs, decide (b ≠ a) = true := fun b member =>
    decide_eq_true fun same => first (same ▸ member)
  rw [next?, List.dropWhile_append_of_pos skipped, List.dropWhile_cons_of_neg (by simp)]
  rfl

theorem before_append (member : a ∈ l) : before (l ++ m) a = before l a := by
  obtain ⟨xs, ys, rfl, first⟩ := List.eq_append_cons_of_mem member
  rw [List.append_assoc, List.cons_append, before_split first, before_split first]

/-- Moving on from `a` leaves one more entry behind. -/
theorem before_next (nodup : l.Nodup) (member : a ∈ l) (next : next? l a = some b) :
    b ∈ l ∧ before l b = before l a ++ [a] := by
  obtain ⟨xs, ys, rfl, first⟩ := List.eq_append_cons_of_mem member
  rw [next?_split first] at next
  obtain ⟨zs, rfl⟩ := List.head?_eq_some_iff.mp next
  have whole : xs ++ a :: b :: zs = (xs ++ [a]) ++ b :: zs := by simp
  rw [whole] at nodup
  have second : b ∉ xs ++ [a] := fun member =>
    (List.nodup_append.mp nodup).2.2 b member b List.mem_cons_self rfl
  refine ⟨by simp, ?_⟩
  rw [before_split first, whole, before_split second]

theorem mem_of_next? (next : next? l a = some b) : b ∈ l :=
  (List.dropWhile_sublist _).subset (List.mem_of_mem_tail (List.mem_of_mem_head? next))

theorem before_last (member : a ∈ l) (last : next? l a = none) : l = before l a ++ [a] := by
  obtain ⟨xs, ys, rfl, first⟩ := List.eq_append_cons_of_mem member
  rw [next?_split first, List.head?_eq_none_iff] at last
  rw [before_split first, last]

/-- Taking other entries out of the list leaves no new entry before `a`. -/
theorem mem_before_of_sublist (sublist : m.Sublist l) (nodup : l.Nodup) (member : a ∈ m)
    (passed : b ∈ before m a) : b ∈ before l a := by
  obtain ⟨xs, ys, rfl, first⟩ := List.eq_append_cons_of_mem (sublist.subset member)
  obtain ⟨ms, ns, rfl, left, right⟩ := List.sublist_append_iff.mp sublist
  have gone : a ∉ ms := fun inside => first (left.subset inside)
  have rest : a ∈ ns := (List.mem_append.mp member).resolve_left gone
  rw [before_split first]
  cases right with
  | cons_cons a right =>
      rw [before_split gone] at passed
      exact left.subset passed
  | cons a right =>
      have alone : a ∉ ys := (List.nodup_cons.mp (List.nodup_append.mp nodup).2.1).1
      exact absurd (right.subset rest) alone

/-! ## How far a search has to go -/

/-- How many entries come after the first `a`. -/
def after (l : List α) (a : α) : Nat := (l.dropWhile fun b => b ≠ a).tail.length

theorem after_split (first : a ∉ xs) : after (xs ++ a :: ys) a = ys.length := by
  have skipped : ∀ b ∈ xs, decide (b ≠ a) = true := fun b member =>
    decide_eq_true fun same => first (same ▸ member)
  rw [after, List.dropWhile_append_of_pos skipped, List.dropWhile_cons_of_neg (by simp)]
  rfl

theorem after_head : after (a :: l) a = l.length := by
  have first : a ∉ ([] : List α) := List.not_mem_nil
  exact after_split first

/-- Moving on leaves one entry less. -/
theorem after_next (nodup : l.Nodup) (member : a ∈ l) (next : next? l a = some b) :
    after l b + 1 = after l a := by
  obtain ⟨xs, ys, rfl, first⟩ := List.eq_append_cons_of_mem member
  rw [next?_split first] at next
  obtain ⟨zs, rfl⟩ := List.head?_eq_some_iff.mp next
  have whole : xs ++ a :: b :: zs = (xs ++ [a]) ++ b :: zs := by simp
  rw [after_split first, whole]
  rw [whole] at nodup
  have second : b ∉ xs ++ [a] := fun member =>
    (List.nodup_append.mp nodup).2.2 b member b List.mem_cons_self rfl
  rw [after_split second, List.length_cons]

/-- No entry before `a` has key `k`. -/
def Passed (key : α → κ) (l : List α) (k : κ) (a : α) : Prop :=
  ∀ b ∈ before l a, key b ≠ k

theorem Passed.head : Passed key (a :: l) k a := by
  intro b member
  have nothing : before (a :: l) a = [] := before_split List.not_mem_nil
  rw [nothing] at member
  cases member

theorem Passed.append (passed : Passed key l k a) (member : a ∈ l) :
    Passed key (l ++ m) k a := by
  rw [Passed, before_append member]
  exact passed

theorem Passed.sublist (passed : Passed key l k a) (sublist : m.Sublist l) (nodup : l.Nodup)
    (member : a ∈ m) : Passed key m k a :=
  fun b inside => passed b (mem_before_of_sublist sublist nodup member inside)

theorem Passed.congr {key' : α → κ} (passed : Passed key l k a)
    (same : ∀ b ∈ l, key' b = key b) : Passed key' l k a := by
  intro b member
  rw [same b ((List.takeWhile_sublist _).subset member)]
  exact passed b member

theorem Passed.next (passed : Passed key l k a) (nodup : l.Nodup) (member : a ∈ l)
    (other : key a ≠ k) (next : next? l a = some b) : b ∈ l ∧ Passed key l k b := by
  obtain ⟨inside, behind⟩ := before_next nodup member next
  refine ⟨inside, fun c passing => ?_⟩
  rw [behind] at passing
  rcases List.mem_append.mp passing with earlier | last
  · exact passed c earlier
  · rwa [List.mem_singleton.mp last]

/-! ## Cursors of many callers -/

/-- Every cursor is at an entry of the list. -/
def Listed {ι : Type*} (cursor : ι → Option α) (l : List α) : Prop :=
  ∀ i a, cursor i = some a → a ∈ l

omit [DecidableEq α] in
/-- When one caller moves to an entry of the list, and some entries are erased and new ones
come in, all cursors stay at entries exactly when no other one was at an erased entry. -/
theorem Listed.iff_of_move {ι : Type*} [DecidableEq ι] {cursor cursor' : ι → Option α} {i : ι}
    {erased : List α} {pushed : α → Prop} (before : Listed cursor l)
    (others : ∀ j, j ≠ i → cursor' j = cursor j) (own : ∀ a, cursor' i = some a → a ∈ m)
    (members : ∀ a, a ∈ m ↔ (a ∈ l ∧ a ∉ erased) ∨ pushed a) (fresh : ∀ a, pushed a → a ∉ l) :
    Listed cursor' m ↔ ∀ j, j ≠ i → ∀ a, cursor j = some a → a ∉ erased := by
  constructor
  · intro after j other a standing
    have member := after j a ((others j other).trans standing)
    exact ((members a).mp member).elim And.right fun new =>
      absurd (before j a standing) (fresh a new)
  · intro undisturbed j a standing
    rcases eq_or_ne j i with rfl | other
    · exact own a standing
    · rw [others j other] at standing
      exact (members a).mpr (.inl ⟨before j a standing, undisturbed j other a standing⟩)

/-! ## Where a search stops -/

variable [DecidableEq κ]

theorem Passed.find_eq (passed : Passed key l k a) (member : a ∈ l) (same : key a = k) :
    Keyed.find key l k = some a := by
  obtain ⟨xs, ys, rfl, first⟩ := List.eq_append_cons_of_mem member
  rw [Passed, before_split first] at passed
  have skipped : xs.find? (fun b => decide (k = key b)) = none :=
    List.find?_eq_none.mpr fun b inside equal => passed b inside (of_decide_eq_true equal).symm
  rw [Keyed.find, List.find?_append, skipped, List.find?_cons_of_pos (by simp [same])]
  rfl

theorem Passed.erase_eq (passed : Passed key l k a) (member : a ∈ l) (same : key a = k) :
    Keyed.erase key l k = l.erase a := by
  obtain ⟨xs, ys, rfl, first⟩ := List.eq_append_cons_of_mem member
  rw [Passed, before_split first] at passed
  rw [Keyed.erase, List.eraseP_append_right _ fun b inside equal =>
      passed b inside (of_decide_eq_true equal).symm,
    List.eraseP_cons_of_pos (by simp [same]), List.erase_append_right _ first,
    List.erase_cons_head]

theorem Passed.find_eq_none (passed : Passed key l k a) (member : a ∈ l) (other : key a ≠ k)
    (last : next? l a = none) : Keyed.find key l k = none := by
  refine Keyed.find_eq_none_iff.mpr fun b inside => ?_
  rw [before_last member last] at inside
  rcases List.mem_append.mp inside with earlier | here
  · exact passed b earlier
  · rwa [List.mem_singleton.mp here]

end OpenRtp.Cursor
