import Mathlib.Data.List.Chain
import Mathlib.Data.List.Nodup
import Mathlib.Logic.Function.Basic

/-!
# Circular doubly linked lists

List objects as a C++ library lays them out: each object holds a sentinel with two links and a
size, the elements are nodes of their own, and the whole is a ring through the sentinel.  Any
link may be null.  The operations follow links as the library does, so an operation on an object
that is no ring can fail.

`Ring` says that an object is well formed and what it holds.  Each operation has one lemma: on
rings it ends without following a null link, leaves a ring with the expected contents, and
changes no other object (`Frame`).
-/

namespace OpenRtp.CircularList

universe u

/-- Where a link can lead: the sentinel of an object, or the node with a serial number that was
allocated for it. -/
inductive Addr (ι : Type u)
  | sentinel (l : ι)
  | node (l : ι) (n : Nat)
deriving DecidableEq, Repr

/-- The object an address belongs to. -/
def Addr.list {ι : Type u} : Addr ι → ι
  | sentinel l => l
  | node l _ => l

/-- Why an operation does not end properly: it reads through a null link, or its loop makes
more passes than there are nodes. -/
inductive Fault
  | nullLink
  | endless
deriving DecidableEq, Repr

/-- The links, the values in the nodes, and of each object its size and the number of nodes
allocated for it. -/
structure Mem (ι β : Type u) where
  next : Addr ι → Option (Addr ι)
  prev : Addr ι → Option (Addr ι)
  value : Addr ι → Option β
  size : ι → Nat
  allocated : ι → Nat

variable {ι β : Type u}

/-- What lies behind a pointer. -/
def deref {α : Type u} : Option α → Except Fault α
  | some a => .ok a
  | none => .error .nullLink

namespace Mem

variable [DecidableEq ι] (m : Mem ι β) (l src : ι) (a : Addr ι)

def empty : Mem ι β := ⟨fun _ => none, fun _ => none, fun _ => none, fun _ => 0, fun _ => 0⟩

def setNext (p : Option (Addr ι)) : Mem ι β := { m with next := Function.update m.next a p }

def setPrev (p : Option (Addr ι)) : Mem ι β := { m with prev := Function.update m.prev a p }

def setValue (v : Option β) : Mem ι β := { m with value := Function.update m.value a v }

def setSize (n : Nat) : Mem ι β := { m with size := Function.update m.size l n }

/-- The default constructor: the sentinel linked to itself. -/
def init : Mem ι β :=
  ((m.setNext (.sentinel l) (some (.sentinel l))).setPrev (.sentinel l)
    (some (.sentinel l))).setSize l 0

/-- All bytes of the object set to zero. -/
def zero : Mem ι β := ((m.setNext (.sentinel l) none).setPrev (.sentinel l) none).setSize l 0

/-- A new node in front of `pos`. -/
def hook (pos : Addr ι) : Except Fault (Mem ι β) := do
  let m := m.setNext a (some pos)
  let m := m.setPrev a (m.prev pos)
  let last ← deref (m.prev pos)
  let m := m.setNext last (some a)
  return m.setPrev pos (some a)

/-- `push_back`. -/
def pushBack (v : β) : Except Fault (Mem ι β) := do
  let a := Addr.node l (m.allocated l)
  let m := { m with allocated := Function.update m.allocated l (m.allocated l + 1) }
  let m ← (m.setValue a (some v)).hook a (.sentinel l)
  return m.setSize l (m.size l + 1)

/-- A node that is given back. -/
def free : Mem ι β := ((m.setNext a none).setPrev a none).setValue a none

/-- `erase` of one node; gives the node after it. -/
def erase : Except Fault (Mem ι β × Addr ι) := do
  let next ← deref (m.next a)
  let last ← deref (m.prev a)
  let m := (m.setNext last (some next)).setPrev next (some last)
  return ((m.free a).setSize l (m.size l - 1), next)

/-- `for (; first != end; ++first) push_back(*first)`, over another object. -/
def appendFrom : Nat → Mem ι β → Option (Addr ι) → Except Fault (Mem ι β)
  | 0, _, _ => .error .endless
  | fuel + 1, m, first =>
      if first = some (.sentinel src) then .ok m
      else do
        let b ← deref first
        let v ← deref (m.value b)
        let m ← m.pushBack l v
        appendFrom fuel m (m.next b)

/-- `while (first != end) first = erase(first)`. -/
def eraseFrom : Nat → Mem ι β → Option (Addr ι) → Except Fault (Mem ι β)
  | 0, _, _ => .error .endless
  | fuel + 1, m, first =>
      if first = some (.sentinel l) then .ok m
      else do
        let b ← deref first
        let (m, next) ← m.erase l b
        eraseFrom fuel m (some next)

/-- The loop of an assignment: element by element as far as both go, then the rest is erased
here or inserted from there. -/
def assignFrom : Nat → Mem ι β → Option (Addr ι) → Option (Addr ι) → Except Fault (Mem ι β)
  | 0, _, _, _ => .error .endless
  | fuel + 1, m, first, second =>
      if second = some (.sentinel src) then m.eraseFrom l (fuel + 1) first
      else if first = some (.sentinel l) then m.appendFrom l src (fuel + 1) second
      else do
        let a ← deref first
        let b ← deref second
        let v ← deref (m.value b)
        let m := m.setValue a (some v)
        assignFrom fuel m (m.next a) (m.next b)

/-- The loop of a destructor: every node is given back. -/
def clearFrom : Nat → Mem ι β → Option (Addr ι) → Except Fault (Mem ι β)
  | 0, _, _ => .error .endless
  | fuel + 1, m, cur =>
      if cur = some (.sentinel l) then .ok m
      else do
        let b ← deref cur
        clearFrom fuel (m.free b) (m.next b)

/-- More passes than a walk through these objects can make. -/
def passes : Nat := m.allocated l + m.allocated src + 1

/-- The copy constructor. -/
def copyConstruct : Except Fault (Mem ι β) :=
  let m := m.init l
  m.appendFrom l src (m.passes l src) (m.next (.sentinel src))

/-- `operator=`. -/
def assign : Except Fault (Mem ι β) :=
  if l = src then .ok m
  else m.assignFrom l src (m.passes l src) (m.next (.sentinel l)) (m.next (.sentinel src))

/-- The destructor. -/
def clear : Except Fault (Mem ι β) :=
  m.clearFrom l (m.passes l l) (m.next (.sentinel l))

/-- Where one gets by following `k` links forward from the sentinel. -/
def follow : Nat → Option (Addr ι)
  | 0 => some (.sentinel l)
  | k + 1 => (follow k).bind m.next

/-! ## Reading after a write -/

section Writes

variable (p : Option (Addr ι)) (v : Option β) (n : Nat) (b : Addr ι) (k : ι)

@[simp] theorem setNext_next : (m.setNext a p).next b = if b = a then p else m.next b :=
  Function.update_apply _ _ _ _

@[simp] theorem setNext_prev : (m.setNext a p).prev = m.prev := rfl

@[simp] theorem setNext_value : (m.setNext a p).value = m.value := rfl

@[simp] theorem setNext_size : (m.setNext a p).size = m.size := rfl

@[simp] theorem setNext_allocated : (m.setNext a p).allocated = m.allocated := rfl

@[simp] theorem setPrev_next : (m.setPrev a p).next = m.next := rfl

@[simp] theorem setPrev_prev : (m.setPrev a p).prev b = if b = a then p else m.prev b :=
  Function.update_apply _ _ _ _

@[simp] theorem setPrev_value : (m.setPrev a p).value = m.value := rfl

@[simp] theorem setPrev_size : (m.setPrev a p).size = m.size := rfl

@[simp] theorem setPrev_allocated : (m.setPrev a p).allocated = m.allocated := rfl

@[simp] theorem setValue_next : (m.setValue a v).next = m.next := rfl

@[simp] theorem setValue_prev : (m.setValue a v).prev = m.prev := rfl

@[simp] theorem setValue_value : (m.setValue a v).value b = if b = a then v else m.value b :=
  Function.update_apply _ _ _ _

@[simp] theorem setValue_size : (m.setValue a v).size = m.size := rfl

@[simp] theorem setValue_allocated : (m.setValue a v).allocated = m.allocated := rfl

@[simp] theorem setSize_next : (m.setSize l n).next = m.next := rfl

@[simp] theorem setSize_prev : (m.setSize l n).prev = m.prev := rfl

@[simp] theorem setSize_value : (m.setSize l n).value = m.value := rfl

@[simp] theorem setSize_size : (m.setSize l n).size k = if k = l then n else m.size k :=
  Function.update_apply _ _ _ _

@[simp] theorem setSize_allocated : (m.setSize l n).allocated = m.allocated := rfl

end Writes

end Mem

/-! ## What an operation leaves alone -/

/-- Only the object `l` and its nodes may have changed. -/
structure Frame (l : ι) (m m' : Mem ι β) : Prop where
  next : ∀ a : Addr ι, a.list ≠ l → m'.next a = m.next a
  prev : ∀ a : Addr ι, a.list ≠ l → m'.prev a = m.prev a
  value : ∀ a : Addr ι, a.list ≠ l → m'.value a = m.value a
  size : ∀ k, k ≠ l → m'.size k = m.size k
  allocated : ∀ k, k ≠ l → m'.allocated k = m.allocated k

namespace Frame

variable {l : ι} {m m' m'' : Mem ι β} {a : Addr ι}

@[refl] theorem refl (l : ι) (m : Mem ι β) : Frame l m m :=
  ⟨fun _ _ => rfl, fun _ _ => rfl, fun _ _ => rfl, fun _ _ => rfl, fun _ _ => rfl⟩

theorem trans (first : Frame l m m') (second : Frame l m' m'') : Frame l m m'' where
  next a other := (second.next a other).trans (first.next a other)
  prev a other := (second.prev a other).trans (first.prev a other)
  value a other := (second.value a other).trans (first.value a other)
  size k other := (second.size k other).trans (first.size k other)
  allocated k other := (second.allocated k other).trans (first.allocated k other)

variable [DecidableEq ι]

omit [DecidableEq ι] in
/-- An address that is not the one written. -/
theorem ne_of_list {b : Addr ι} (here : a.list = l) (other : b.list ≠ l) : b ≠ a :=
  fun same => other (same ▸ here)

theorem setNext (here : a.list = l) (p : Option (Addr ι)) : Frame l m (m.setNext a p) :=
  { refl l m with next := fun _ other => by simp [ne_of_list here other] }

theorem setPrev (here : a.list = l) (p : Option (Addr ι)) : Frame l m (m.setPrev a p) :=
  { refl l m with prev := fun _ other => by simp [ne_of_list here other] }

theorem setValue (here : a.list = l) (v : Option β) : Frame l m (m.setValue a v) :=
  { refl l m with value := fun _ other => by simp [ne_of_list here other] }

theorem setSize (n : Nat) : Frame l m (m.setSize l n) :=
  { refl l m with size := fun _ other => by simp [other] }

theorem allocate (n : Nat) :
    Frame l m { m with allocated := Function.update m.allocated l n } :=
  { refl l m with allocated := fun _ other => Function.update_of_ne other _ _ }

theorem free (here : a.list = l) : Frame l m (m.free a) :=
  ((setNext here none).trans (setPrev here none)).trans (setValue here none)

theorem init : Frame l m (m.init l) :=
  ((setNext (a := .sentinel l) rfl _).trans (setPrev (a := .sentinel l) rfl _)).trans (setSize 0)

theorem zero : Frame l m (m.zero l) :=
  ((setNext (a := .sentinel l) rfl _).trans (setPrev (a := .sentinel l) rfl _)).trans (setSize 0)

end Frame

/-! ## Rings -/

/-- The links between `a` and `b` agree. -/
def Link (m : Mem ι β) (a b : Addr ι) : Prop := m.next a = some b ∧ m.prev b = some a

/-- The sentinel and the nodes of an object. -/
def front (l : ι) (ns : List Nat) : List (Addr ι) := .sentinel l :: ns.map (.node l)

/-- The object `l` is well formed and holds `xs`: its nodes form a ring with the sentinel. -/
structure Ring (m : Mem ι β) (l : ι) (ns : List Nat) (xs : List β) : Prop where
  chain : (front l ns ++ [Addr.sentinel l]).IsChain (Link m)
  nodup : ns.Nodup
  allocated : ∀ n ∈ ns, n < m.allocated l
  size : m.size l = ns.length
  values : ns.map (fun n => m.value (.node l n)) = xs.map some

section Ring

variable {l : ι} {m m' : Mem ι β} {ns : List Nat} {xs : List β} {n : Nat}

/-- A chain whose links have not changed. -/
theorem chain_congr {path : List (Addr ι)} (chain : path.IsChain (Link m))
    (next : ∀ a ∈ path.dropLast, m'.next a = m.next a)
    (prev : ∀ b ∈ path.tail, m'.prev b = m.prev b) : path.IsChain (Link m') := by
  induction path with
  | nil => exact .nil
  | cons a path ih =>
      cases path with
      | nil => exact .singleton a
      | cons b path =>
          obtain ⟨⟨forward, backward⟩, rest⟩ := List.isChain_cons_cons.mp chain
          refine List.isChain_cons_cons.mpr ⟨⟨?_, ?_⟩, ih rest ?_ ?_⟩
          · exact (next a List.mem_cons_self).trans forward
          · exact (prev b List.mem_cons_self).trans backward
          · exact fun c member => next c (List.mem_cons_of_mem a member)
          · exact fun c member => prev c (List.mem_cons_of_mem b member)

theorem list_of_mem_front {a : Addr ι} (member : a ∈ front l ns) : a.list = l := by
  rcases List.mem_cons.mp member with rfl | member
  · rfl
  · obtain ⟨n, _, rfl⟩ := List.mem_map.mp member
    rfl

theorem list_of_split {before : List (Addr ι)} {last : Addr ι}
    (split : front l ns = before ++ [last]) : last.list = l :=
  list_of_mem_front (split ▸ List.mem_append_right before (List.mem_singleton_self last))

theorem node_injective (l : ι) : Function.Injective (Addr.node l) := by
  intro n n' same
  cases same
  rfl

theorem node_mem_front : .node l n ∈ front l ns ↔ n ∈ ns := by
  simp [front, (node_injective l).eq_iff]

theorem nodup_front (nodup : ns.Nodup) : (front l ns).Nodup := by
  refine List.nodup_cons.mpr ⟨by simp, nodup.map (node_injective l)⟩

/-- The last address before the sentinel. -/
theorem front_eq_concat (l : ι) (nodup : ns.Nodup) :
    ∃ before last, front l ns = before ++ [last] ∧ last ∉ before := by
  have nonempty : front l ns ≠ [] := List.cons_ne_nil _ _
  refine ⟨(front l ns).dropLast, (front l ns).getLast nonempty,
    (List.dropLast_append_getLast nonempty).symm, fun member => ?_⟩
  have apart := nodup_front (l := l) nodup
  rw [← List.dropLast_append_getLast nonempty] at apart
  exact (List.nodup_append.mp apart).2.2 _ member _ (List.mem_singleton_self _) rfl

/-- An object nobody else touches stays what it is. -/
theorem Ring.frame {k : ι} (ring : Ring m l ns xs) (frame : Frame k m m') (other : l ≠ k) :
    Ring m' l ns xs where
  chain := by
    refine chain_congr ring.chain (fun a member => frame.next a ?_) fun b member =>
      frame.prev b ?_
    · rw [List.dropLast_concat] at member
      rw [list_of_mem_front member]
      exact other
    · rcases List.mem_append.mp (List.mem_of_mem_tail member) with member | member
      · rw [list_of_mem_front member]
        exact other
      · rw [List.mem_singleton.mp member]
        exact other
  nodup := ring.nodup
  allocated := by
    rw [frame.allocated l other]
    exact ring.allocated
  size := (frame.size l other).trans ring.size
  values := by
    rw [← ring.values]
    exact List.map_congr_left fun n _ => frame.value _ other

/-- A ring has no more nodes than were allocated. -/
theorem Ring.length_le (ring : Ring m l ns xs) : ns.length ≤ m.allocated l := by
  have inside : ns ⊆ List.range (m.allocated l) := fun n member =>
    List.mem_range.mpr (ring.allocated n member)
  have bound := ring.nodup.length_le_of_subset inside
  rwa [List.length_range] at bound

theorem Ring.length_eq (ring : Ring m l ns xs) : ns.length = xs.length := by
  have same := congrArg List.length ring.values
  simpa using same

/-- The front of a ring holds the front of its list. -/
theorem Ring.values_append {keep rest : List Nat} {ks zs : List β}
    (ring : Ring m l (keep ++ rest) (ks ++ zs)) (length : keep.length = ks.length) :
    keep.map (fun n => m.value (.node l n)) = ks.map some ∧
      rest.map (fun n => m.value (.node l n)) = zs.map some := by
  have values := ring.values
  rw [List.map_append, List.map_append] at values
  exact List.append_inj values (by simpa using length)

/-- A ring with nothing after its front. -/
theorem Ring.whole {keep : List Nat} {ks zs : List β} (ring : Ring m l (keep ++ []) (ks ++ zs))
    (length : keep.length = ks.length) : Ring m l keep ks := by
  have nothing : zs = [] := by simpa [length] using ring.length_eq
  subst nothing
  rwa [List.append_nil, List.append_nil] at ring

end Ring

/-! ## Growing a ring -/

section Operations

variable [DecidableEq ι] {l src : ι} {m m' : Mem ι β} {ns : List Nat} {xs : List β} {n : Nat}

theorem ring_init (l : ι) (m : Mem ι β) : Ring (m.init l) l [] [] where
  chain := by
    refine List.isChain_cons_cons.mpr ⟨⟨?_, ?_⟩, .singleton _⟩
    · simp [Mem.init]
    · simp [Mem.init]
  nodup := List.nodup_nil
  allocated n member := by cases member
  size := by simp [Mem.init]
  values := rfl

/-- `hook` where the node before is there. -/
theorem hook_eq {a p last : Addr ι} (other : p ≠ a) (prev : m.prev p = some last) :
    m.hook a p = .ok ((((m.setNext a (some p)).setPrev a (some last)).setNext last
      (some a)).setPrev p (some a)) := by
  simp only [Mem.hook, Mem.setNext_prev, Mem.setPrev_prev, if_neg other, prev, deref]
  rfl

/-- Hooking a new node in front of the sentinel lengthens the ring. -/
theorem chain_hook {last : Addr ι} {before : List (Addr ι)}
    (split : front l ns = before ++ [last]) (fresh : n ∉ ns) (apart : last ∉ before)
    (chain : (front l ns ++ [Addr.sentinel l]).IsChain (Link m)) :
    (front l (ns ++ [n]) ++ [Addr.sentinel l]).IsChain
      (Link ((((m.setNext (.node l n) (some (.sentinel l))).setPrev (.node l n)
        (some last)).setNext last (some (.node l n))).setPrev (.sentinel l)
          (some (.node l n)))) := by
  have longer : front l (ns ++ [n]) = before ++ [last] ++ [.node l n] := by
    rw [← split]
    simp [front]
  have tail : (before ++ [last]).tail = ns.map (.node l) := by
    rw [← split]
    rfl
  have other : Addr.node l n ≠ last := by
    intro same
    refine fresh ((node_mem_front (l := l)).mp ?_)
    rw [split, same]
    exact List.mem_append_right _ (List.mem_singleton_self _)
  rw [split, List.append_assoc, List.singleton_append, List.isChain_append_cons_cons] at chain
  rw [longer, List.append_assoc, List.append_assoc, List.singleton_append, List.singleton_append,
    List.isChain_append_cons_cons]
  refine ⟨chain_congr chain.1 (fun a member => ?_) fun b member => ?_, ⟨?_, ?_⟩,
    List.isChain_pair.mpr ⟨?_, ?_⟩⟩
  · rw [List.dropLast_concat] at member
    have notLast : a ≠ last := fun same => apart (same ▸ member)
    have notNew : a ≠ .node l n := by
      rintro rfl
      refine fresh ((node_mem_front (l := l)).mp ?_)
      rw [split]
      exact List.mem_append_left _ member
    simp [notLast, notNew]
  · rw [tail] at member
    obtain ⟨k, inside, rfl⟩ := List.mem_map.mp member
    have notNew : k ≠ n := fun same => fresh (same ▸ inside)
    simp [notNew]
  · simp
  · simp
  · simp [other]
  · simp

/-- `push_back` on a ring. -/
theorem pushBack_ring (ring : Ring m l ns xs) (v : β) :
    ∃ m', m.pushBack l v = .ok m' ∧ Ring m' l (ns ++ [m.allocated l]) (xs ++ [v]) ∧
      Frame l m m' := by
  obtain ⟨before, last, split, apart⟩ := front_eq_concat l ring.nodup
  have fresh : m.allocated l ∉ ns := fun member =>
    Nat.lt_irrefl _ (ring.allocated _ member)
  have inside : last.list = l := list_of_split split
  have chain := ring.chain
  rw [split, List.append_assoc, List.singleton_append, List.isChain_append_cons_cons] at chain
  let m₁ : Mem ι β := { m with allocated := Function.update m.allocated l (m.allocated l + 1) }
  let m₂ := m₁.setValue (.node l (m.allocated l)) (some v)
  have hooked := hook_eq (m := m₂) (a := .node l (m.allocated l)) (p := .sentinel l) (by simp)
    (show m₂.prev _ = some last from chain.2.1.2)
  have frame : Frame l m ((((m₂.setNext _ _).setPrev _ _).setNext last _).setPrev _ _) :=
    (Frame.allocate (m.allocated l + 1)).trans <|
      (Frame.setValue (a := .node l (m.allocated l)) rfl (some v)).trans <|
      (Frame.setNext (a := .node l (m.allocated l)) rfl (some (.sentinel l))).trans <|
      (Frame.setPrev (a := .node l (m.allocated l)) rfl (some last)).trans <|
      (Frame.setNext inside (some (.node l (m.allocated l)))).trans
        (Frame.setPrev (a := .sentinel l) rfl (some (.node l (m.allocated l))))
  refine ⟨_, ?_, ?_, frame.trans (Frame.setSize (m.size l + 1))⟩
  · simp only [m₁, m₂] at hooked
    simp only [Mem.pushBack, hooked]
    rfl
  · refine ⟨chain_hook split fresh apart ring.chain, ?_, fun n member => ?_, ?_, ?_⟩
    · exact List.nodup_append.mpr ⟨ring.nodup, List.nodup_singleton _, fun n member k here same =>
        fresh (List.mem_singleton.mp here ▸ same ▸ member)⟩
    · have grown : m₁.allocated l = m.allocated l + 1 := Function.update_self _ _ _
      simp only [Mem.setSize_allocated, Mem.setPrev_allocated, Mem.setNext_allocated, m₂,
        Mem.setValue_allocated, grown]
      rcases List.mem_append.mp member with old | new
      · exact Nat.lt_succ_of_lt (ring.allocated n old)
      · rw [List.mem_singleton.mp new]
        exact Nat.lt_succ_self _
    · simp [ring.size]
    · rw [List.map_append, List.map_append, ← ring.values]
      congr 1
      · refine List.map_congr_left fun n member => ?_
        have other : n ≠ m.allocated l := fun same => fresh (same ▸ member)
        simp [m₂, m₁, other]
      · simp [m₂]

/-! ## Walking through a ring -/

/-- Where the nodes `ns` begin, if the sentinel comes after them. -/
def headAddr (l : ι) : List Nat → Addr ι
  | [] => .sentinel l
  | n :: _ => .node l n

/-- The nodes `ns` follow one another up to the sentinel, and hold `xs`. -/
def Walk (m : Mem ι β) (l : ι) : List Nat → List β → Prop
  | [], [] => True
  | n :: ns, x :: xs =>
      m.value (.node l n) = some x ∧ m.next (.node l n) = some (headAddr l ns) ∧ Walk m l ns xs
  | [], _ :: _ | _ :: _, [] => False

omit [DecidableEq ι] in
theorem exists_cons_headAddr (l : ι) (ns : List Nat) :
    ∃ back, ns.map (Addr.node l) ++ [.sentinel l] = headAddr l ns :: back := by
  cases ns with
  | nil => exact ⟨[], rfl⟩
  | cons n ns => exact ⟨ns.map (Addr.node l) ++ [.sentinel l], rfl⟩

omit [DecidableEq ι] in
theorem walk_of_chain (chain : (ns.map (Addr.node l) ++ [Addr.sentinel l]).IsChain (Link m))
    (values : ns.map (fun n => m.value (.node l n)) = xs.map some) : Walk m l ns xs := by
  induction ns generalizing xs with
  | nil =>
      cases xs with
      | nil => trivial
      | cons x xs => cases values
  | cons n ns ih =>
      cases xs with
      | nil => cases values
      | cons x xs =>
          rw [List.map_cons, List.map_cons, List.cons.injEq] at values
          rw [List.map_cons, List.cons_append] at chain
          obtain ⟨back, begins⟩ := exists_cons_headAddr l ns
          have link := chain
          rw [begins] at link
          exact ⟨values.1, (List.isChain_cons_cons.mp link).1.1, ih chain.of_cons values.2⟩

omit [DecidableEq ι] in
/-- A walk that nobody touches. -/
theorem Walk.congr (walk : Walk m l ns xs)
    (next : ∀ n ∈ ns, m'.next (.node l n) = m.next (.node l n))
    (value : ∀ n ∈ ns, m'.value (.node l n) = m.value (.node l n)) : Walk m' l ns xs := by
  induction ns generalizing xs with
  | nil =>
      cases xs with
      | nil => trivial
      | cons x xs => exact walk.elim
  | cons n ns ih =>
      cases xs with
      | nil => exact walk.elim
      | cons x xs =>
          obtain ⟨here, onward, rest⟩ := walk
          exact ⟨(value n List.mem_cons_self).trans here,
            (next n List.mem_cons_self).trans onward,
            ih rest (fun k member => next k (List.mem_cons_of_mem n member))
              fun k member => value k (List.mem_cons_of_mem n member)⟩

omit [DecidableEq ι] in
theorem Walk.frame {k : ι} (walk : Walk m l ns xs) (frame : Frame k m m') (other : l ≠ k) :
    Walk m' l ns xs :=
  walk.congr (fun _ _ => frame.next _ other) fun _ _ => frame.value _ other

omit [DecidableEq ι] in
/-- The sentinel leads to the first node, and from there one walks through the ring. -/
theorem Ring.walk (ring : Ring m l ns xs) :
    m.next (.sentinel l) = some (headAddr l ns) ∧ Walk m l ns xs := by
  have chain := ring.chain
  rw [front, List.cons_append] at chain
  obtain ⟨back, begins⟩ := exists_cons_headAddr l ns
  have link := chain
  rw [begins] at link
  exact ⟨(List.isChain_cons_cons.mp link).1.1, walk_of_chain chain.of_cons ring.values⟩

omit [DecidableEq ι] in
theorem Walk.drop (walk : Walk m l ns xs) (k : Nat) : Walk m l (ns.drop k) (xs.drop k) := by
  induction k generalizing ns xs with
  | zero => exact walk
  | succ k ih =>
      cases ns with
      | nil =>
          cases xs with
          | nil => exact walk
          | cons x xs => exact walk.elim
      | cons n ns =>
          cases xs with
          | nil => exact walk.elim
          | cons x xs => exact ih walk.2.2

omit [DecidableEq ι] in
/-- From the middle of a ring. -/
theorem Ring.walk_back {keep rest : List Nat} {ks zs : List β}
    (ring : Ring m l (keep ++ rest) (ks ++ zs)) (length : keep.length = ks.length) :
    Walk m l rest zs := by
  have walk := ring.walk.2.drop keep.length
  rwa [List.drop_left, length, List.drop_left] at walk

/-! ## Copying elements -/

theorem appendFrom_ring {rs : List Nat} {ys : List β} {fuel : Nat} (ring : Ring m l ns xs)
    (walk : Walk m src rs ys) (other : src ≠ l) (enough : rs.length < fuel) :
    ∃ m' ns', Mem.appendFrom l src fuel m (some (headAddr src rs)) = .ok m' ∧
      Ring m' l ns' (xs ++ ys) ∧ Frame l m m' := by
  induction rs generalizing m ns xs ys fuel with
  | nil =>
      cases ys with
      | cons y ys => exact walk.elim
      | nil =>
          cases fuel with
          | zero => cases enough
          | succ fuel => exact ⟨m, ns, if_pos rfl, by rwa [List.append_nil], .refl l m⟩
  | cons r rs ih =>
      cases ys with
      | nil => exact walk.elim
      | cons y ys =>
          cases fuel with
          | zero => cases enough
          | succ fuel =>
              obtain ⟨value, onward, rest⟩ := walk
              obtain ⟨m₁, pushed, ring₁, frame₁⟩ := pushBack_ring ring y
              obtain ⟨m', ns', done, ring', frame'⟩ :=
                ih ring₁ (rest.frame frame₁ other) (Nat.lt_of_succ_lt_succ enough)
              refine ⟨m', ns', ?_, ?_, frame₁.trans frame'⟩
              · have next : m₁.next (.node src r) = some (headAddr src rs) :=
                  (frame₁.next (.node src r) other).trans onward
                rw [Mem.appendFrom, if_neg (by simp [headAddr])]
                simp only [headAddr, deref, value, pushed, next, bind, Except.bind]
                exact done
              · rwa [List.append_assoc] at ring'

/-! ## Shrinking a ring -/

theorem erase_eq {a q last : Addr ι} (next : m.next a = some q) (prev : m.prev a = some last) :
    m.erase l a = .ok ((((m.setNext last (some q)).setPrev q (some last)).free a).setSize l
      (m.size l - 1), q) := by
  simp only [Mem.erase, next, prev, deref]
  rfl

/-- Taking the node `r` out shortens the ring. -/
theorem chain_erase {keep rest : List Nat} {r : Nat} (nodup : (keep ++ r :: rest).Nodup)
    {last : Addr ι} {before : List (Addr ι)} (split : front l keep = before ++ [last])
    (apart : last ∉ before)
    (chain : (front l (keep ++ r :: rest) ++ [Addr.sentinel l]).IsChain (Link m)) :
    Link m last (.node l r) ∧ Link m (.node l r) (headAddr l rest) ∧
      (front l (keep ++ rest) ++ [Addr.sentinel l]).IsChain
        (Link (((m.setNext last (some (headAddr l rest))).setPrev (headAddr l rest)
          (some last)).free (.node l r))) := by
  obtain ⟨back, begins⟩ := exists_cons_headAddr l rest
  have old : front l (keep ++ r :: rest) ++ [Addr.sentinel l] =
      before ++ last :: .node l r :: headAddr l rest :: back := by
    rw [← begins]
    have := congrArg (· ++ Addr.node l r :: (rest.map (Addr.node l) ++ [.sentinel l])) split
    simpa [front] using this
  have new : front l (keep ++ rest) ++ [Addr.sentinel l] =
      before ++ last :: headAddr l rest :: back := by
    rw [← begins]
    have := congrArg (· ++ (rest.map (Addr.node l) ++ [.sentinel l])) split
    simpa [front] using this
  obtain ⟨nodupKeep, nodupRest, disjoint⟩ := List.nodup_append.mp nodup
  obtain ⟨notRest, nodupRest⟩ := List.nodup_cons.mp nodupRest
  have lastKept : last ∈ front l keep := by rw [split]; simp
  have notNode : last ≠ .node l r := by
    rintro rfl
    exact disjoint r (node_mem_front.mp lastKept) r List.mem_cons_self rfl
  have headNotNode : headAddr l rest ≠ .node l r := by
    cases rest with
    | nil => simp [headAddr]
    | cons k rest =>
        intro same
        rw [headAddr, (node_injective l).eq_iff] at same
        exact notRest (same ▸ List.mem_cons_self)
  have tail : (before ++ [last]).tail = keep.map (Addr.node l) := by
    rw [← split]
    rfl
  rw [old, List.isChain_append_cons_cons, List.isChain_cons_cons] at chain
  obtain ⟨chainBefore, first, second, chainBack⟩ := chain
  refine ⟨first, second, ?_⟩
  rw [new, List.isChain_append_cons_cons]
  refine ⟨chain_congr chainBefore (fun a member => ?_) fun b member => ?_, ⟨?_, ?_⟩,
    chain_congr chainBack (fun a member => ?_) fun b member => ?_⟩
  · rw [List.dropLast_concat] at member
    have notLast : a ≠ last := fun same => apart (same ▸ member)
    have notGone : a ≠ .node l r := by
      rintro rfl
      have inside : Addr.node l r ∈ front l keep := by
        rw [split]
        exact List.mem_append_left _ member
      exact disjoint r (node_mem_front.mp inside) r List.mem_cons_self rfl
    simp [Mem.free, notLast, notGone]
  · rw [tail] at member
    obtain ⟨k, inside, rfl⟩ := List.mem_map.mp member
    have notGone : k ≠ r := disjoint k inside r List.mem_cons_self
    have notHead : Addr.node l k ≠ headAddr l rest := by
      cases rest with
      | nil => simp [headAddr]
      | cons j rest =>
          simpa [headAddr] using disjoint k inside j (List.mem_cons_of_mem r List.mem_cons_self)
    simp [Mem.free, notGone, notHead]
  · simp [Mem.free, notNode]
  · simp [Mem.free, headNotNode]
  · rw [← begins, List.dropLast_concat] at member
    obtain ⟨k, inside, rfl⟩ := List.mem_map.mp member
    have notGone : k ≠ r := fun same => notRest (same ▸ inside)
    have notLast : Addr.node l k ≠ last := by
      rintro rfl
      exact disjoint k (node_mem_front.mp lastKept) k (List.mem_cons_of_mem r inside) rfl
    simp [Mem.free, notGone, notLast]
  · have backApart : (headAddr l rest :: back).Nodup := by
      rw [← begins]
      refine List.nodup_append.mpr ⟨nodupRest.map (node_injective l), List.nodup_singleton _, ?_⟩
      simp
    have notHead : b ≠ headAddr l rest := by
      rintro rfl
      exact (List.nodup_cons.mp backApart).1 member
    have notGone : b ≠ .node l r := by
      rintro rfl
      have inside : Addr.node l r ∈ rest.map (Addr.node l) ++ [.sentinel l] := by
        rw [begins]
        exact List.mem_cons_of_mem _ member
      simp [(node_injective l).eq_iff] at inside
      exact notRest inside
    simp [Mem.free, notHead, notGone]

/-- `erase` of the node `r` of a ring. -/
theorem erase_ring {keep rest : List Nat} {r : Nat} {ks zs : List β} {z : β}
    (ring : Ring m l (keep ++ r :: rest) (ks ++ z :: zs)) (length : keep.length = ks.length) :
    ∃ m', m.erase l (.node l r) = .ok (m', headAddr l rest) ∧
      Ring m' l (keep ++ rest) (ks ++ zs) ∧ Frame l m m' := by
  have order : (keep ++ r :: rest).Perm (r :: (keep ++ rest)) := List.perm_middle
  obtain ⟨notKept, nodup⟩ := List.nodup_cons.mp (order.nodup ring.nodup)
  obtain ⟨before, last, split, apart⟩ :=
    front_eq_concat l (nodup.sublist (List.sublist_append_left keep rest))
  obtain ⟨first, second, chain⟩ := chain_erase ring.nodup split apart ring.chain
  have lastHere : last.list = l := list_of_split split
  have headHere : (headAddr l rest).list = l := by
    cases rest with
    | nil => rfl
    | cons k rest => rfl
  have frame : Frame l m (((m.setNext last _).setPrev (headAddr l rest) _).free (.node l r)) :=
    (Frame.setNext lastHere (some (headAddr l rest))).trans <|
      (Frame.setPrev headHere (some last)).trans (Frame.free (a := .node l r) rfl)
  refine ⟨_, erase_eq second.1 first.2, ⟨chain, nodup, fun n member => ?_, ?_, ?_⟩,
    frame.trans (Frame.setSize (m.size l - 1))⟩
  · exact ring.allocated n (order.mem_iff.mpr (List.mem_cons_of_mem r member))
  · simp [ring.size]
  · obtain ⟨kept, values⟩ := ring.values_append length
    have gone := (List.cons.inj values).2
    rw [List.map_append, List.map_append, ← kept, ← gone, ← List.map_append, ← List.map_append]
    refine List.map_congr_left fun n member => ?_
    have other : n ≠ r := fun same => notKept (same ▸ member)
    simp [Mem.free, other]

/-- `erase` up to the sentinel. -/
theorem eraseFrom_ring {keep rest : List Nat} {ks zs : List β} {fuel : Nat}
    (ring : Ring m l (keep ++ rest) (ks ++ zs)) (length : keep.length = ks.length)
    (enough : rest.length < fuel) :
    ∃ m', Mem.eraseFrom l fuel m (some (headAddr l rest)) = .ok m' ∧ Ring m' l keep ks ∧
      Frame l m m' := by
  induction rest generalizing m zs fuel with
  | nil =>
      cases fuel with
      | zero => cases enough
      | succ fuel => exact ⟨m, if_pos rfl, ring.whole length, .refl l m⟩
  | cons r rest ih =>
      cases fuel with
      | zero => cases enough
      | succ fuel =>
          cases zs with
          | nil => simpa [length] using ring.length_eq
          | cons z zs =>
              obtain ⟨m₁, erased, ring₁, frame₁⟩ := erase_ring ring length
              obtain ⟨m', done, ring', frame'⟩ := ih ring₁ (Nat.lt_of_succ_lt_succ enough)
              refine ⟨m', ?_, ring', frame₁.trans frame'⟩
              rw [Mem.eraseFrom, if_neg (by simp [headAddr])]
              simp only [headAddr, deref, erased, bind, Except.bind]
              exact done

/-! ## Assignment -/

/-- A new value in a node. -/
theorem ring_setValue {keep rest : List Nat} {r : Nat} {ks zs : List β} {z : β}
    (ring : Ring m l (keep ++ r :: rest) (ks ++ z :: zs)) (length : keep.length = ks.length)
    (v : β) : Ring (m.setValue (.node l r) (some v)) l (keep ++ r :: rest) (ks ++ v :: zs) where
  chain := chain_congr ring.chain (fun _ _ => rfl) fun _ _ => rfl
  nodup := ring.nodup
  allocated := ring.allocated
  size := ring.size
  values := by
    have order : (keep ++ r :: rest).Perm (r :: (keep ++ rest)) := List.perm_middle
    have apart := (List.nodup_cons.mp (order.nodup ring.nodup)).1
    obtain ⟨kept, values⟩ := ring.values_append length
    rw [List.map_append, List.map_append, ← kept, List.map_cons, List.map_cons,
      ← (List.cons.inj values).2]
    congr 1
    · refine List.map_congr_left fun n member => ?_
      have other : n ≠ r := fun same => apart (same ▸ List.mem_append_left rest member)
      simp [other]
    · congr 1
      · simp
      · refine List.map_congr_left fun n member => ?_
        have other : n ≠ r := fun same => apart (same ▸ List.mem_append_right keep member)
        simp [other]

/-- The loop of an assignment, after the values `ks` are there. -/
theorem assignFrom_ring {keep rest rs : List Nat} {ks zs ys : List β} {fuel : Nat}
    (ring : Ring m l (keep ++ rest) (ks ++ zs)) (length : keep.length = ks.length)
    (walk : Walk m src rs ys) (other : src ≠ l) (enoughHere : rest.length < fuel)
    (enoughThere : rs.length < fuel) :
    ∃ m' ns', Mem.assignFrom l src fuel m (some (headAddr l rest)) (some (headAddr src rs)) =
      .ok m' ∧ Ring m' l ns' (ks ++ ys) ∧ Frame l m m' := by
  induction rs generalizing m keep rest ks zs ys fuel with
  | nil =>
      cases ys with
      | cons y ys => exact walk.elim
      | nil =>
          cases fuel with
          | zero => cases enoughHere
          | succ fuel =>
              obtain ⟨m', done, ring', frame⟩ := eraseFrom_ring ring length enoughHere
              refine ⟨m', keep, ?_, by rwa [List.append_nil], frame⟩
              rw [Mem.assignFrom]
              exact (if_pos rfl).trans done
  | cons r rs ih =>
      cases ys with
      | nil => exact walk.elim
      | cons y ys =>
          cases fuel with
          | zero => cases enoughHere
          | succ fuel =>
              cases rest with
              | nil =>
                  obtain ⟨m', ns', done, ring', frame⟩ :=
                    appendFrom_ring (ring.whole length) walk other enoughThere
                  refine ⟨m', ns', ?_, ring', frame⟩
                  rw [Mem.assignFrom, if_neg (by simp [headAddr])]
                  exact (if_pos rfl).trans done
              | cons n rest =>
                  cases zs with
                  | nil => simpa [length] using ring.length_eq
                  | cons z zs =>
                      obtain ⟨value, onward, walk⟩ := walk
                      have next : m.next (.node l n) = some (headAddr l rest) :=
                        (ring.walk_back length).2.1
                      have ring₁ := ring_setValue ring length y
                      rw [List.append_cons keep, List.append_cons ks] at ring₁
                      have frame₁ : Frame l m (m.setValue (.node l n) (some y)) :=
                        Frame.setValue (a := .node l n) rfl (some y)
                      obtain ⟨m', ns', done, ring', frame'⟩ :=
                        ih ring₁ (by simp [length]) (walk.frame frame₁ other)
                          (Nat.lt_of_succ_lt_succ enoughHere) (Nat.lt_of_succ_lt_succ enoughThere)
                      refine ⟨m', ns', ?_, ?_, frame₁.trans frame'⟩
                      · rw [Mem.assignFrom, if_neg (by simp [headAddr]),
                          if_neg (by simp [headAddr])]
                        simp only [headAddr, deref, value, bind, Except.bind, Mem.setValue_next,
                          next, onward]
                        exact done
                      · rwa [List.append_assoc] at ring'

/-- `operator=` between rings. -/
theorem assign_ring {rs : List Nat} {ys : List β} (ring : Ring m l ns xs)
    (source : Ring m src rs ys) (other : src ≠ l) :
    ∃ m' ns', m.assign l src = .ok m' ∧ Ring m' l ns' ys ∧ Frame l m m' := by
  have here := ring.length_le
  have there := source.length_le
  have whole : Ring m l ([] ++ ns) ([] ++ xs) := ring
  obtain ⟨m', ns', done, ring', frame⟩ :=
    assignFrom_ring whole rfl source.walk.2 other
      (show ns.length < m.passes l src by unfold Mem.passes; omega)
      (show rs.length < m.passes l src by unfold Mem.passes; omega)
  refine ⟨m', ns', ?_, ring', frame⟩
  rw [Mem.assign, if_neg other.symm, ring.walk.1, source.walk.1]
  exact done

theorem assign_self (l : ι) (m : Mem ι β) : m.assign l l = .ok m := if_pos rfl

/-- The copy constructor on a ring. -/
theorem copyConstruct_ring {rs : List Nat} {ys : List β} (source : Ring m src rs ys)
    (other : src ≠ l) :
    ∃ m' ns', m.copyConstruct l src = .ok m' ∧ Ring m' l ns' ys ∧ Frame l m m' := by
  have source₁ := source.frame (Frame.init (l := l)) other
  have there := source₁.length_le
  obtain ⟨m', ns', done, ring', frame⟩ :=
    appendFrom_ring (ring_init l m) source₁.walk.2 other
      (show rs.length < (m.init l).passes l src by unfold Mem.passes; omega)
  refine ⟨m', ns', ?_, ring', Frame.init.trans frame⟩
  rw [Mem.copyConstruct, source₁.walk.1]
  exact done

/-! ## Destruction -/

theorem clearFrom_walk {fuel : Nat} (walk : Walk m l ns xs) (nodup : ns.Nodup)
    (enough : ns.length < fuel) :
    ∃ m', Mem.clearFrom l fuel m (some (headAddr l ns)) = .ok m' ∧ Frame l m m' := by
  induction ns generalizing m xs fuel with
  | nil =>
      cases fuel with
      | zero => cases enough
      | succ fuel => exact ⟨m, if_pos rfl, .refl l m⟩
  | cons n ns ih =>
      cases xs with
      | nil => exact walk.elim
      | cons x xs =>
          cases fuel with
          | zero => cases enough
          | succ fuel =>
              obtain ⟨apart, nodup⟩ := List.nodup_cons.mp nodup
              obtain ⟨value, onward, walk⟩ := walk
              have kept : Walk (m.free (.node l n)) l ns xs := by
                refine walk.congr (fun k member => ?_) fun k member => ?_
                · have other : k ≠ n := fun same => apart (same ▸ member)
                  simp [Mem.free, other]
                · have other : k ≠ n := fun same => apart (same ▸ member)
                  simp [Mem.free, other]
              obtain ⟨m', done, frame⟩ := ih kept nodup (Nat.lt_of_succ_lt_succ enough)
              refine ⟨m', ?_, (Frame.free (a := .node l n) rfl).trans frame⟩
              rw [Mem.clearFrom, if_neg (by simp [headAddr])]
              simp only [headAddr, deref, onward, bind, Except.bind]
              exact done

/-- The destructor on a ring. -/
theorem clear_ring (ring : Ring m l ns xs) : ∃ m', m.clear l = .ok m' ∧ Frame l m m' := by
  have bound := ring.length_le
  obtain ⟨m', done, frame⟩ := clearFrom_walk ring.walk.2 ring.nodup
    (show ns.length < m.passes l l by unfold Mem.passes; omega)
  refine ⟨m', ?_, frame⟩
  rw [Mem.clear, ring.walk.1]
  exact done

/-! ## Following the links -/

omit [DecidableEq ι] in
theorem Ring.follow (ring : Ring m l ns xs) {k : Nat} (inside : k ≤ ns.length) :
    m.follow l (k + 1) = some (headAddr l (ns.drop k)) := by
  induction k with
  | zero => exact ring.walk.1
  | succ k ih =>
      have walk := ring.walk.2.drop k
      have split : ns.drop k = ns[k] :: ns.drop (k + 1) := List.drop_eq_getElem_cons inside
      have here := ih (Nat.le_of_succ_le inside)
      rw [split, headAddr] at here
      rw [split] at walk
      rw [Mem.follow, here, Option.bind_some]
      cases rest : xs.drop k with
      | nil =>
          rw [rest] at walk
          exact walk.elim
      | cons x xs =>
          rw [rest] at walk
          exact walk.2.1

/-- Following the links forward from the sentinel of an object, one is back there after its
elements and not before. -/
def Mem.Returns (m : Mem ι β) (l : ι) : Prop :=
  (∀ k < m.size l, m.follow l (k + 1) ≠ some (.sentinel l)) ∧
    m.follow l (m.size l + 1) = some (.sentinel l)

omit [DecidableEq ι] in
theorem Ring.returns (ring : Ring m l ns xs) : m.Returns l := by
  rw [Mem.Returns, ring.size]
  refine ⟨fun k inside => ?_, ?_⟩
  · rw [ring.follow (Nat.le_of_lt inside), List.drop_eq_getElem_cons inside]
    simp [headAddr]
  · rw [ring.follow (Nat.le_refl _), List.drop_length]
    rfl

/-! ## Cleared objects -/

/-- Both links of the sentinel are null. -/
def Cleared (m : Mem ι β) (l : ι) : Prop :=
  m.next (.sentinel l) = none ∧ m.prev (.sentinel l) = none

theorem cleared_zero (l : ι) (m : Mem ι β) : Cleared (m.zero l) l := by
  simp [Cleared, Mem.zero]

omit [DecidableEq ι] in
theorem Cleared.frame {k : ι} (cleared : Cleared m l) (frame : Frame k m m') (other : l ≠ k) :
    Cleared m' l :=
  ⟨(frame.next (.sentinel l) other).trans cleared.1,
    (frame.prev (.sentinel l) other).trans cleared.2⟩

omit [DecidableEq ι] in
/-- The first link already leads nowhere. -/
theorem Cleared.not_returns (cleared : Cleared m l) : ¬ m.Returns l := by
  have nowhere : ∀ k, m.follow l (k + 1) = none := by
    intro k
    induction k with
    | zero => exact cleared.1
    | succ k ih => rw [Mem.follow, ih, Option.bind_none]
  intro returns
  rw [Mem.Returns, nowhere] at returns
  cases returns.2

theorem Cleared.pushBack (cleared : Cleared m l) (v : β) :
    m.pushBack l v = .error .nullLink := by
  simp [Mem.pushBack, Mem.hook, cleared.2, deref, bind, Except.bind]

theorem Cleared.clear (cleared : Cleared m l) : m.clear l = .error .nullLink := by
  simp [Mem.clear, Mem.passes, Mem.clearFrom, cleared.1, deref, bind, Except.bind]

theorem Cleared.copyConstruct (cleared : Cleared m src) (other : src ≠ l) :
    m.copyConstruct l src = .error .nullLink := by
  have still := cleared.frame (Frame.init (l := l)) other
  simp [Mem.copyConstruct, Mem.passes, Mem.appendFrom, still.1, deref, bind, Except.bind]

/-- Assigning to a cleared object. -/
theorem Cleared.assign_to (cleared : Cleared m l) (other : src ≠ l) :
    m.assign l src = .error .nullLink := by
  rw [Mem.assign, if_neg other.symm, Mem.passes, Mem.assignFrom, cleared.1]
  split
  · simp [Mem.eraseFrom, deref, bind, Except.bind]
  · simp [deref, bind, Except.bind]

/-- Assigning from a cleared object. -/
theorem Cleared.assign_from (cleared : Cleared m src) (ring : Ring m l ns xs)
    (other : src ≠ l) : m.assign l src = .error .nullLink := by
  rw [Mem.assign, if_neg other.symm, Mem.passes, Mem.assignFrom, cleared.1, ring.walk.1,
    if_neg (by simp)]
  split
  · simp [Mem.appendFrom, deref, bind, Except.bind]
  · simp [deref, bind, Except.bind]

end Operations

end OpenRtp.CircularList
