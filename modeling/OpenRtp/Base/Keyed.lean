import Mathlib.Data.List.Nodup
import Mathlib.Data.List.Basic
import Mathlib.Tactic.TypeStar

/-!
# Lists looked up by key

A list searched from its head for the first entry with a given key behaves as a
finite map as long as no key occurs twice.  `UniqueKeys` is that invariant; under
it the first match is the only one (`find_eq_some_iff`) and erasing the first
match erases the key (`mem_erase_iff`, `find_erase`).
-/

namespace OpenRtp.Keyed

variable {α κ : Type*} [DecidableEq κ] {key : α → κ} {l : List α} {k : κ} {a b : α}

/-- The first entry with key `k`. -/
def find (key : α → κ) (l : List α) (k : κ) : Option α := l.find? fun a => k = key a

/-- The list without its first entry with key `k`. -/
def erase (key : α → κ) (l : List α) (k : κ) : List α := l.eraseP fun a => k = key a

/-- No key occurs twice. -/
def UniqueKeys (key : α → κ) (l : List α) : Prop := (l.map key).Nodup

theorem find_eq_none_iff : find key l k = none ↔ ∀ a ∈ l, key a ≠ k := by
  rw [find, List.find?_eq_none]
  exact forall₂_congr fun a _ => by rw [decide_eq_true_eq, eq_comm]

theorem mem_of_find (h : find key l k = some a) : a ∈ l ∧ key a = k := by
  refine ⟨List.mem_of_find?_eq_some h, ?_⟩
  have found := List.find?_some h
  exact (of_decide_eq_true found).symm

omit [DecidableEq κ] in
theorem UniqueKeys.eq_of_key (unique : UniqueKeys key l) (first : a ∈ l) (second : b ∈ l)
    (same : key a = key b) : a = b :=
  List.inj_on_of_nodup_map unique first second same

/-- With unique keys, the first match is any entry with the key. -/
theorem find_eq_some_iff (unique : UniqueKeys key l) :
    find key l k = some a ↔ a ∈ l ∧ key a = k := by
  refine ⟨mem_of_find, fun ⟨member, same⟩ => ?_⟩
  cases found : find key l k with
  | none => exact absurd same (find_eq_none_iff.mp found a member)
  | some b =>
      obtain ⟨other, key_b⟩ := mem_of_find found
      exact congrArg some (unique.eq_of_key other member (key_b.trans same.symm))

/-- With unique keys, erasing the first match erases every entry with the key. -/
theorem mem_erase_iff (unique : UniqueKeys key l) :
    a ∈ erase key l k ↔ a ∈ l ∧ key a ≠ k := by
  induction l with
  | nil => simp [erase]
  | cons b l ih =>
      have rest : UniqueKeys key l := (List.nodup_cons.mp unique).2
      have absent : key b ∉ l.map key := (List.nodup_cons.mp unique).1
      rcases eq_or_ne k (key b) with rfl | other
      · have distinct : ∀ c ∈ l, key c ≠ key b := fun c member equal =>
          absent (equal ▸ List.mem_map_of_mem member)
        simp only [erase, List.eraseP_cons, decide_true, cond_true, List.mem_cons]
        constructor
        · exact fun member => ⟨.inr member, distinct a member⟩
        · intro kept
          rcases kept with ⟨rfl | member, apart⟩
          · exact absurd rfl apart
          · exact member
      · have skip : erase key (b :: l) k = b :: erase key l k := by
          simp [erase, other]
        rw [skip, List.mem_cons, List.mem_cons, ih rest]
        constructor
        · intro kept
          rcases kept with rfl | ⟨member, apart⟩
          · exact ⟨.inl rfl, Ne.symm other⟩
          · exact ⟨.inr member, apart⟩
        · intro kept
          rcases kept with ⟨rfl | member, apart⟩
          · exact .inl rfl
          · exact .inr ⟨member, apart⟩

theorem UniqueKeys.erase (unique : UniqueKeys key l) : UniqueKeys key (Keyed.erase key l k) :=
  List.Nodup.sublist (List.Sublist.map key List.eraseP_sublist) unique

omit [DecidableEq κ] in
/-- An entry with a new key can go to the end. -/
theorem UniqueKeys.append (unique : UniqueKeys key l) (fresh : ∀ b ∈ l, key b ≠ key a) :
    UniqueKeys key (l ++ [a]) := by
  unfold UniqueKeys at unique ⊢
  rw [List.map_append, List.map_singleton, List.nodup_append]
  refine ⟨unique, List.nodup_singleton _, fun c member d last => ?_⟩
  obtain ⟨b, inside, rfl⟩ := List.mem_map.mp member
  rw [List.mem_singleton.mp last]
  exact fresh b inside

omit [DecidableEq κ] in
/-- Changing entries without changing their keys keeps them unique. -/
theorem UniqueKeys.congr {key' : α → κ} (unique : UniqueKeys key l)
    (same : ∀ a ∈ l, key' a = key a) : UniqueKeys key' l := by
  unfold UniqueKeys at unique ⊢
  rwa [List.map_congr_left same]

/-! ## The list as a map -/

theorem find_congr {key' : α → κ} (same : ∀ a ∈ l, key' a = key a) :
    find key' l k = find key l k := by
  induction l with
  | nil => rfl
  | cons b l ih =>
      have rest := ih fun a member => same a (List.mem_cons_of_mem b member)
      unfold find at rest ⊢
      rw [List.find?_cons, List.find?_cons, same b List.mem_cons_self, rest]

theorem find_map {β : Type*} {key : β → κ} (f : α → β) :
    find key (l.map f) k = (find (key ∘ f) l k).map f :=
  List.find?_map ..

theorem erase_map {β : Type*} {key : β → κ} (f : α → β) :
    erase key (l.map f) k = (erase (key ∘ f) l k).map f :=
  List.eraseP_map ..

/-- With unique keys, erasing a key unbinds that key and no other. -/
theorem find_erase (unique : UniqueKeys key l) (k k' : κ) :
    find key (erase key l k) k' = if k' = k then none else find key l k' := by
  rcases eq_or_ne k' k with rfl | other
  · rw [if_pos rfl]
    exact find_eq_none_iff.mpr fun a member => ((mem_erase_iff unique).mp member).2
  · rw [if_neg other]
    cases found : find key l k' with
    | none =>
        exact find_eq_none_iff.mpr fun a member =>
          find_eq_none_iff.mp found a ((mem_erase_iff unique).mp member).1
    | some a =>
        obtain ⟨member, here⟩ := mem_of_find found
        have kept := (mem_erase_iff (k := k) unique).mpr ⟨member, here.symm ▸ other⟩
        exact (find_eq_some_iff unique.erase).mpr ⟨kept, here⟩

/-- With unique keys, entries that share a key are one entry. -/
theorem UniqueKeys.length_filter_le_one (unique : UniqueKeys key l) (k : κ) :
    (l.filter fun a => key a = k).length ≤ 1 := by
  induction l with
  | nil => simp
  | cons b l ih =>
      have rest : UniqueKeys key l := (List.nodup_cons.mp unique).2
      have absent : key b ∉ l.map key := (List.nodup_cons.mp unique).1
      by_cases same : key b = k
      · have none : l.filter (fun a => key a = k) = [] := by
          refine List.filter_eq_nil_iff.mpr fun a member equal => absent ?_
          rw [same, ← of_decide_eq_true equal]
          exact List.mem_map_of_mem member
        simp [same, none]
      · simpa [same] using ih rest

end OpenRtp.Keyed
