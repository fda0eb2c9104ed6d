import Mathlib.Data.List.TakeWhile

/-!
# `getopt_long`

The arguments of a program as `getopt_long` reads them: short options alone or in clusters,
long options by name or by an abbreviation, an argument of an option attached to it or as
the next element, and elements that are no options, which are passed over (or end the scan,
where `POSIXLY_CORRECT` is set).  An element `--` ends the scan.

`Item` is one way of writing options down.  `clean_iff_written` says that the scan finds no
error exactly where the arguments are items written one after another, and `scan_items` that
it finds what they stand for.
-/

namespace OpenRtp

/-- An element of `argv`. -/
abbrev Arg := List Char

/-- `struct option`, with a null `flag`. -/
structure LongOption where
  name : Arg
  hasArg : Bool
  val : Char
deriving DecidableEq, Repr

/-- `optstring` and `longopts`.  No option takes an optional argument. -/
structure OptionTable where
  optstring : List Char
  longOptions : List LongOption
deriving DecidableEq, Repr

/-- What a call of `getopt_long` returns: an option with its `optarg`, or `'?'`. -/
inductive Getopt
  | option (c : Char) (optarg : Option Arg)
  | invalid
deriving DecidableEq, Repr

/-- What an element of `argv` looks like. -/
inductive ElementKind
  | terminator
  | long (element : List Char)
  | short (cs : List Char)
  | other
deriving DecidableEq, Repr

def ElementKind.of : Arg → ElementKind
  | ['-', '-'] => .terminator
  | '-' :: '-' :: element => .long element
  | '-' :: c :: cs => .short (c :: cs)
  | _ => .other

namespace OptionTable

/-- The short option `c`, and whether it takes an argument. -/
def short? (t : OptionTable) (c : Char) : Option Bool :=
  if c = ':' ∨ c = ';' then none
  else
    match t.optstring.dropWhile (· ≠ c) with
    | [] => none
    | _ :: rest => some (rest.head? = some ':')

/-- The long option of a name: the one with this name, or else the one whose name starts so,
unless there are several that differ. -/
def long? (t : OptionTable) (name : Arg) : Option LongOption :=
  match t.longOptions.find? fun o => o.name = name with
  | some o => some o
  | none =>
      match t.longOptions.filter fun o => name.isPrefixOf o.name with
      | [] => none
      | o :: os =>
          if os.all fun p => p.hasArg = o.hasArg ∧ p.val = o.val then some o else none

/-- A cluster of short options: what it returns, and the option whose argument is the next
element. -/
def cluster (t : OptionTable) : List Char → List Getopt × Option Char
  | [] => ([], none)
  | c :: cs =>
      match t.short? c with
      | none => (.invalid :: (t.cluster cs).1, (t.cluster cs).2)
      | some false => (.option c none :: (t.cluster cs).1, (t.cluster cs).2)
      | some true => if cs = [] then ([], some c) else ([.option c (some cs)], none)

/-- An element that starts with `--`, what follows these. -/
def longElement (t : OptionTable) (element : List Char) : List Getopt × Option Char :=
  match t.long? (element.takeWhile (· ≠ '=')), element.dropWhile (· ≠ '=') with
  | none, _ => ([.invalid], none)
  | some o, _ :: value =>
      if o.hasArg then ([.option o.val (some value)], none) else ([.invalid], none)
  | some o, [] => if o.hasArg then ([], some o.val) else ([.option o.val none], none)

/-- The returns of `getopt_long` up to `EOF`, where the first element may be one that an
option waits for as its argument. -/
def scan (t : OptionTable) (posixlyCorrect : Bool) : Option Char → List Arg → List Getopt
  | some _, [] => [.invalid]
  | some c, value :: args => .option c (some value) :: t.scan posixlyCorrect none args
  | none, [] => []
  | none, arg :: args =>
      match ElementKind.of arg with
      | .terminator => []
      | .long element =>
          (t.longElement element).1 ++ t.scan posixlyCorrect (t.longElement element).2 args
      | .short cs => (t.cluster cs).1 ++ t.scan posixlyCorrect (t.cluster cs).2 args
      | .other => if posixlyCorrect then [] else t.scan posixlyCorrect none args

end OptionTable

/-! ## Options written down -/

/-- An option that is set, with its argument. -/
structure Setting where
  val : Char
  arg : Option Arg
deriving DecidableEq, Repr

def Setting.returned (s : Setting) : Getopt := .option s.val s.arg

/-- One way of writing options down. -/
inductive Item
  /-- An element that is no option. -/
  | other (arg : Arg)
  /-- `-abc`. -/
  | flags (cs : List Char)
  /-- `-abcVALUE`. -/
  | attached (cs : List Char) (c : Char) (value : Arg)
  /-- `-abc VALUE`. -/
  | separate (cs : List Char) (c : Char) (value : Arg)
  /-- `--name`. -/
  | long (name : Arg) (o : LongOption)
  /-- `--name=VALUE`. -/
  | assigned (name : Arg) (o : LongOption) (value : Arg)
  /-- `--name VALUE`. -/
  | longSeparate (name : Arg) (o : LongOption) (value : Arg)
deriving DecidableEq, Repr

namespace Item

def render : Item → List Arg
  | other arg => [arg]
  | flags cs => ['-' :: cs]
  | attached cs c value => ['-' :: cs ++ c :: value]
  | separate cs c value => ['-' :: cs ++ [c], value]
  | long name _ => ['-' :: '-' :: name]
  | assigned name _ value => ['-' :: '-' :: name ++ '=' :: value]
  | longSeparate name _ value => ['-' :: '-' :: name, value]

def settings : Item → List Setting
  | other _ => []
  | flags cs => cs.map fun c => ⟨c, none⟩
  | attached cs c value => cs.map (fun c => ⟨c, none⟩) ++ [⟨c, some value⟩]
  | separate cs c value => cs.map (fun c => ⟨c, none⟩) ++ [⟨c, some value⟩]
  | long _ o => [⟨o.val, none⟩]
  | assigned _ o value => [⟨o.val, some value⟩]
  | longSeparate _ o value => [⟨o.val, some value⟩]

/-- What may be written so with the options of `t`; a cluster must not look like the name of
a long option. -/
def WellFormed (t : OptionTable) (posixlyCorrect : Bool) : Item → Prop
  | other arg => posixlyCorrect = false ∧ (arg.head? ≠ some '-' ∨ arg = ['-'])
  | flags cs => (∀ c ∈ cs, t.short? c = some false) ∧ cs ≠ [] ∧ cs.head? ≠ some '-'
  | attached cs c value =>
      (∀ c ∈ cs, t.short? c = some false) ∧ (cs ++ [c]).head? ≠ some '-' ∧
        t.short? c = some true ∧ value ≠ []
  | separate cs c _ =>
      (∀ c ∈ cs, t.short? c = some false) ∧ (cs ++ [c]).head? ≠ some '-' ∧
        t.short? c = some true
  | long name o => t.long? name = some o ∧ o.hasArg = false ∧ '=' ∉ name ∧ name ≠ []
  | assigned name o _ => t.long? name = some o ∧ o.hasArg = true ∧ '=' ∉ name
  | longSeparate name o _ => t.long? name = some o ∧ o.hasArg = true ∧ '=' ∉ name ∧ name ≠ []

end Item

/-- What may follow the last option: nothing, `--` and anything, or with `POSIXLY_CORRECT` an
element that is no option and anything. -/
inductive Ending (posixlyCorrect : Bool) : List Arg → Prop
  | nothing : Ending posixlyCorrect []
  | terminated (args : List Arg) : Ending posixlyCorrect (['-', '-'] :: args)
  | stopped {arg : Arg} (posix : posixlyCorrect = true)
      (other : arg.head? ≠ some '-' ∨ arg = ['-']) (args : List Arg) :
      Ending posixlyCorrect (arg :: args)

/-! ## One element -/

namespace ElementKind

variable {cs element : List Char} {c : Char} {arg : Arg}

theorem of_other (other : arg.head? ≠ some '-' ∨ arg = ['-']) : of arg = .other := by
  rcases other with plain | rfl
  · cases arg with
    | nil => rfl
    | cons d ds =>
        have first : d ≠ '-' := by simpa using plain
        unfold of
        split <;> first | rfl | simp_all
  · rfl

theorem of_short (nonempty : cs ≠ []) (first : cs.head? ≠ some '-') :
    of ('-' :: cs) = .short cs := by
  cases cs with
  | nil => exact absurd rfl nonempty
  | cons d ds =>
      unfold of
      split <;> simp_all

theorem of_long (named : element ≠ []) : of ('-' :: '-' :: element) = .long element := by
  cases element with
  | nil => exact absurd rfl named
  | cons d ds => rfl

/-- Every element is of one of the four kinds. -/
theorem cases_of (arg : Arg) :
    arg = ['-', '-'] ∨ (∃ element, element ≠ [] ∧ arg = '-' :: '-' :: element) ∨
      (∃ c cs, c ≠ '-' ∧ arg = '-' :: c :: cs) ∨ arg.head? ≠ some '-' ∨ arg = ['-'] := by
  match arg with
  | [] => simp
  | [d] => by_cases dash : d = '-' <;> simp [dash]
  | d :: e :: ds =>
      by_cases dash : d = '-'
      · by_cases second : e = '-'
        · cases ds with
          | nil => simp [dash, second]
          | cons f fs => simp [dash, second]
        · simp [dash, second]
      · simp [dash]

end ElementKind

namespace OptionTable

variable {t : OptionTable} {posix : Bool} {cs element name : List Char} {c : Char} {args : List Arg}
  {arg value : Arg} {o : LongOption}

theorem cluster_flags (flags : ∀ c ∈ cs, t.short? c = some false) (rest : List Char) :
    t.cluster (cs ++ rest) =
      (cs.map (fun c => .option c none) ++ (t.cluster rest).1, (t.cluster rest).2) := by
  induction cs with
  | nil => rfl
  | cons c cs ih =>
      obtain ⟨first, others⟩ := List.forall_mem_cons.mp flags
      rw [List.cons_append, cluster, first]
      simp only [ih others, List.map_cons, List.cons_append]

/-- A cluster without errors is of one of the three kinds that are written down. -/
theorem cluster_cases (t : OptionTable) (cs : List Char) :
    .invalid ∈ (t.cluster cs).1 ∨ (∀ c ∈ cs, t.short? c = some false) ∨
      ∃ fs c value, cs = fs ++ c :: value ∧ (∀ f ∈ fs, t.short? f = some false) ∧
        t.short? c = some true := by
  induction cs with
  | nil => exact .inr (.inl nofun)
  | cons c cs ih =>
      cases known : t.short? c with
      | none =>
          rw [cluster, known]
          exact .inl List.mem_cons_self
      | some takesArg =>
          cases takesArg with
          | true => exact .inr (.inr ⟨[], c, cs, rfl, nofun, known⟩)
          | false =>
              rcases ih with error | flags | ⟨fs, d, value, rfl, flags, takes⟩
              · rw [cluster, known]
                exact .inl (List.mem_cons_of_mem _ error)
              · exact .inr (.inl (List.forall_mem_cons.mpr ⟨known, flags⟩))
              · exact .inr (.inr ⟨c :: fs, d, value, rfl,
                  List.forall_mem_cons.mpr ⟨known, flags⟩, takes⟩)

theorem longElement_name (plain : '=' ∉ name) :
    t.longElement name = match t.long? name with
      | none => ([.invalid], none)
      | some o => if o.hasArg then ([], some o.val) else ([.option o.val none], none) := by
  have kept : ∀ c ∈ name, decide (c ≠ '=') = true := fun c member =>
    decide_eq_true fun same => plain (same ▸ member)
  rw [longElement, List.takeWhile_eq_self_iff.mpr kept, List.dropWhile_eq_nil_iff.mpr kept]
  cases t.long? name <;> rfl

theorem longElement_assigned (plain : '=' ∉ name) (value : Arg) :
    t.longElement (name ++ '=' :: value) = match t.long? name with
      | none => ([.invalid], none)
      | some o =>
          if o.hasArg then ([.option o.val (some value)], none) else ([.invalid], none) := by
  have kept : ∀ c ∈ name, decide (c ≠ '=') = true := fun c member =>
    decide_eq_true fun same => plain (same ▸ member)
  rw [longElement, List.takeWhile_append_of_pos kept, List.dropWhile_append_of_pos kept,
    List.takeWhile_cons_of_neg (by simp), List.dropWhile_cons_of_neg (by simp), List.append_nil]
  cases t.long? name <;> rfl

theorem scan_other (other : arg.head? ≠ some '-' ∨ arg = ['-']) :
    t.scan posix none (arg :: args) = if posix then [] else t.scan posix none args := by
  rw [scan, ElementKind.of_other other]

theorem scan_short (nonempty : cs ≠ []) (first : cs.head? ≠ some '-') :
    t.scan posix none (('-' :: cs) :: args) =
      (t.cluster cs).1 ++ t.scan posix (t.cluster cs).2 args := by
  rw [scan, ElementKind.of_short nonempty first]

theorem scan_long (named : element ≠ []) :
    t.scan posix none (('-' :: '-' :: element) :: args) =
      (t.longElement element).1 ++ t.scan posix (t.longElement element).2 args := by
  rw [scan, ElementKind.of_long named]

/-! ## Whole argument lists -/

/-- An item is read as its settings. -/
theorem scan_item {item : Item} (wellFormed : item.WellFormed t posix) (args : List Arg) :
    t.scan posix none (item.render ++ args) =
      item.settings.map Setting.returned ++ t.scan posix none args := by
  have pushed : ∀ fs : List Char, (fs.map fun c => (⟨c, none⟩ : Setting)).map Setting.returned =
      fs.map fun c => Getopt.option c none := fun fs => List.map_map
  cases item with
  | other arg =>
      obtain ⟨permuting, other⟩ := wellFormed
      rw [Item.render, List.singleton_append, scan_other other, permuting]
      rfl
  | flags fs =>
      obtain ⟨flags, nonempty, first⟩ := wellFormed
      have read := t.cluster_flags flags []
      rw [List.append_nil] at read
      rw [Item.render, List.singleton_append, scan_short nonempty first, read, Item.settings,
        pushed]
      simp [cluster]
  | attached fs c value =>
      obtain ⟨flags, first, takes, given⟩ := wellFormed
      have head : (fs ++ c :: value).head? ≠ some '-' := by cases fs <;> exact first
      rw [Item.render, List.singleton_append, List.cons_append, scan_short (by simp) head,
        cluster_flags flags, Item.settings, List.map_append, pushed]
      simp [cluster, takes, given, Setting.returned]
  | separate fs c value =>
      obtain ⟨flags, first, takes⟩ := wellFormed
      rw [Item.render, List.cons_append, List.cons_append, scan_short (by simp) first,
        cluster_flags flags, Item.settings, List.map_append, pushed]
      simp [cluster, takes, Setting.returned, scan]
  | long name o =>
      obtain ⟨known, noArg, plain, named⟩ := wellFormed
      rw [Item.render, List.singleton_append, scan_long named, longElement_name plain, known]
      simp [noArg, Item.settings, Setting.returned]
  | assigned name o value =>
      obtain ⟨known, takes, plain⟩ := wellFormed
      rw [Item.render, List.singleton_append, List.cons_append, List.cons_append,
        scan_long (by simp), longElement_assigned plain, known]
      simp [takes, Item.settings, Setting.returned]
  | longSeparate name o value =>
      obtain ⟨known, takes, plain, named⟩ := wellFormed
      rw [Item.render, List.cons_append, scan_long named, longElement_name plain, known]
      simp [takes, Item.settings, Setting.returned, scan]

theorem scan_ending (ending : Ending posix args) : t.scan posix none args = [] := by
  cases ending with
  | nothing => rfl
  | terminated args => rfl
  | stopped set other args => rw [scan_other other, set]; rfl

/-- Items written one after another are read as their settings. -/
theorem scan_items {items : List Item} {ending : List Arg}
    (wellFormed : ∀ item ∈ items, item.WellFormed t posix) (ends : Ending posix ending) :
    t.scan posix none (items.flatMap Item.render ++ ending) =
      (items.flatMap Item.settings).map Setting.returned := by
  induction items with
  | nil => exact scan_ending ends
  | cons item items ih =>
      obtain ⟨first, others⟩ := List.forall_mem_cons.mp wellFormed
      rw [List.flatMap_cons, List.append_assoc, scan_item first, ih others, List.flatMap_cons,
        List.map_append]

/-- The arguments are items written one after another. -/
def Written (t : OptionTable) (posix : Bool) (args : List Arg) : Prop :=
  ∃ (items : List Item) (ending : List Arg), (∀ item ∈ items, item.WellFormed t posix) ∧
    Ending posix ending ∧ args = items.flatMap Item.render ++ ending

theorem Written.of_ending (ends : Ending posix args) : Written t posix args :=
  ⟨[], args, nofun, ends, rfl⟩

theorem Written.cons (written : Written t posix args) (item : Item)
    (wellFormed : item.WellFormed t posix) : Written t posix (item.render ++ args) := by
  obtain ⟨items, ending, others, ends, rfl⟩ := written
  refine ⟨item :: items, ending, List.forall_mem_cons.mpr ⟨wellFormed, others⟩, ends, ?_⟩
  rw [List.flatMap_cons, List.append_assoc]

/-- An option that waits for its argument without an error gets one. -/
theorem waiting_given (clean : .invalid ∉ t.scan posix (some c) args) :
    ∃ value rest, args = value :: rest ∧ .invalid ∉ t.scan posix none rest := by
  cases args with
  | nil => exact absurd List.mem_cons_self clean
  | cons value rest => exact ⟨value, rest, rfl, fun error => clean (List.mem_cons_of_mem _ error)⟩

/-- A long option that is read without an error is written in one of the three ways. -/
theorem written_long (named : element ≠ [])
    (rest : ∀ later : List Arg, later.length ≤ args.length → .invalid ∉ t.scan posix none later →
      Written t posix later)
    (clean : .invalid ∉ t.scan posix none (('-' :: '-' :: element) :: args)) :
    Written t posix (('-' :: '-' :: element) :: args) := by
  rw [scan_long named, List.mem_append, not_or] at clean
  obtain ⟨first, later⟩ := clean
  by_cases assigned : '=' ∈ element
  · obtain ⟨name, value, rfl, plain⟩ := List.eq_append_cons_of_mem assigned
    rw [longElement_assigned plain] at first later
    cases known : t.long? name with
    | none => simp [known] at first
    | some o =>
        cases takes : o.hasArg with
        | false => simp [known, takes] at first
        | true =>
            simp only [known, takes, if_true] at later
            exact (rest args (Nat.le_refl _) later).cons (.assigned name o value)
              ⟨known, takes, plain⟩
  · rw [longElement_name assigned] at first later
    cases known : t.long? element with
    | none => simp [known] at first
    | some o =>
        cases takes : o.hasArg with
        | false =>
            simp only [known, takes, Bool.false_eq_true, if_false] at later
            exact (rest args (Nat.le_refl _) later).cons (.long element o)
              ⟨known, takes, assigned, named⟩
        | true =>
            simp only [known, takes, if_true] at later
            obtain ⟨value, after, rfl, clean⟩ := waiting_given later
            exact (rest after (Nat.le_succ _) clean).cons (.longSeparate element o value)
              ⟨known, takes, assigned, named⟩

/-- So is a cluster. -/
theorem written_short (nonempty : cs ≠ []) (head : cs.head? ≠ some '-')
    (rest : ∀ later : List Arg, later.length ≤ args.length → .invalid ∉ t.scan posix none later →
      Written t posix later)
    (clean : .invalid ∉ t.scan posix none (('-' :: cs) :: args)) :
    Written t posix (('-' :: cs) :: args) := by
  rw [scan_short nonempty head, List.mem_append, not_or] at clean
  obtain ⟨first, later⟩ := clean
  rcases t.cluster_cases cs with error | flags | ⟨fs, c, value, rfl, flags, takes⟩
  · exact absurd error first
  · have read := t.cluster_flags flags []
    rw [List.append_nil] at read
    rw [read] at later
    exact (rest args (Nat.le_refl _) later).cons (.flags cs) ⟨flags, nonempty, head⟩
  · rw [cluster_flags flags] at later
    have start : (fs ++ [c]).head? ≠ some '-' := by cases fs <;> exact head
    by_cases given : value = []
    · subst given
      simp only [cluster, takes, if_true] at later
      obtain ⟨value, after, rfl, clean⟩ := waiting_given later
      exact (rest after (Nat.le_succ _) clean).cons (.separate fs c value)
        ⟨flags, start, takes⟩
    · simp only [cluster, takes, if_neg given] at later
      exact (rest args (Nat.le_refl _) later).cons (.attached fs c value)
        ⟨flags, start, takes, given⟩

/-- Arguments that are read without an error are items. -/
theorem written_of_clean (clean : .invalid ∉ t.scan posix none args) : Written t posix args := by
  induction size : args.length using Nat.strong_induction_on generalizing args with
  | _ n ih =>
      cases args with
      | nil => exact .of_ending .nothing
      | cons arg args =>
          have rest : ∀ later : List Arg, later.length ≤ args.length →
              .invalid ∉ t.scan posix none later → Written t posix later := fun later shorter =>
            fun clean => ih later.length (by rw [← size]; exact Nat.lt_succ_of_le shorter) clean rfl
          rcases ElementKind.cases_of arg with
            rfl | ⟨element, named, rfl⟩ | ⟨c, cs, head, rfl⟩ | other
          · exact .of_ending (.terminated args)
          · exact written_long named rest clean
          · exact written_short (by simp) (by simpa using head) rest clean
          · cases order : posix with
            | true => exact .of_ending (.stopped rfl other args)
            | false =>
                subst order
                rw [scan_other other] at clean
                exact (rest args (Nat.le_refl _) clean).cons (.other arg) ⟨rfl, other⟩

/-- What is returned is an option of the table, with an argument where it takes one. -/
def Known (t : OptionTable) (c : Char) (takesArg : Bool) : Prop :=
  t.short? c = some takesArg ∨ ∃ o ∈ t.longOptions, o.val = c ∧ o.hasArg = takesArg

/-- The name found begins with the one given. -/
theorem prefix_of_long? (known : t.long? name = some o) :
    o ∈ t.longOptions ∧ name <+: o.name := by
  unfold long? at known
  split at known
  · next found =>
      cases known
      have same : o.name = name := by simpa using List.find?_some found
      exact ⟨List.mem_of_find?_eq_some found, same ▸ List.prefix_rfl⟩
  · split at known
    · cases known
    · next p ps begins =>
        split at known
        · cases known
          have kept := List.mem_filter.mp (begins ▸ List.mem_cons_self)
          exact ⟨kept.1, List.isPrefixOf_iff_prefix.mp kept.2⟩
        · cases known

/-- The only option whose name begins so is found. -/
theorem long?_of_unique (member : o ∈ t.longOptions) (begins : name <+: o.name)
    (unique : ∀ p ∈ t.longOptions, name <+: p.name → p = o) : t.long? name = some o := by
  unfold long?
  split
  · next p found =>
      have same : p.name = name := by simpa using List.find?_some found
      rw [unique p (List.mem_of_find?_eq_some found) (same ▸ List.prefix_rfl)]
  · have kept : ∀ p ∈ t.longOptions.filter fun o => name.isPrefixOf o.name, p = o := by
      intro p there
      obtain ⟨listed, starts⟩ := List.mem_filter.mp there
      exact unique p listed (List.isPrefixOf_iff_prefix.mp starts)
    have there : o ∈ t.longOptions.filter fun o => name.isPrefixOf o.name :=
      List.mem_filter.mpr ⟨member, List.isPrefixOf_iff_prefix.mpr begins⟩
    split
    · next nothing =>
        rw [nothing] at there
        cases there
    · next p ps found =>
        rw [found] at kept
        obtain ⟨rfl, others⟩ := List.forall_mem_cons.mp kept
        rw [if_pos]
        exact List.all_eq_true.mpr fun q later => by simp [others q later]

theorem cluster_known (t : OptionTable) (cs : List Char) :
    (∀ c optarg, .option c optarg ∈ (t.cluster cs).1 → t.Known c optarg.isSome) ∧
      ∀ c, (t.cluster cs).2 = some c → t.Known c true := by
  induction cs with
  | nil => exact ⟨nofun, nofun⟩
  | cons d ds ih =>
      unfold cluster
      split
      · refine ⟨fun c optarg returned => ih.1 c optarg ?_, ih.2⟩
        simpa using returned
      · next known =>
          refine ⟨fun c optarg returned => ?_, ih.2⟩
          rcases List.mem_cons.mp returned with same | later
          · cases same
            exact .inl known
          · exact ih.1 c optarg later
      · next known =>
          split
          · refine ⟨nofun, fun c waits => ?_⟩
            cases waits
            exact .inl known
          · refine ⟨fun c optarg returned => ?_, nofun⟩
            cases List.mem_singleton.mp returned
            exact .inl known

theorem longElement_known (t : OptionTable) (element : List Char) :
    (∀ c optarg, .option c optarg ∈ (t.longElement element).1 → t.Known c optarg.isSome) ∧
      ∀ c, (t.longElement element).2 = some c → t.Known c true := by
  unfold longElement
  split
  · exact ⟨by simp, nofun⟩
  · next known _ =>
      split
      · next takes =>
          refine ⟨fun c optarg returned => ?_, nofun⟩
          cases List.mem_singleton.mp returned
          exact .inr ⟨_, (prefix_of_long? known).1, rfl, takes⟩
      · exact ⟨by simp, nofun⟩
  · next known _ =>
      split
      · next takes =>
          refine ⟨nofun, fun c waits => ?_⟩
          cases waits
          exact .inr ⟨_, (prefix_of_long? known).1, rfl, takes⟩
      · next takes =>
          refine ⟨fun c optarg returned => ?_, nofun⟩
          cases List.mem_singleton.mp returned
          exact .inr ⟨_, (prefix_of_long? known).1, rfl, Bool.eq_false_iff.mpr takes⟩

theorem scan_known {optarg : Option Arg} {waiting : Option Char}
    (waits : ∀ d, waiting = some d → t.Known d true)
    (returned : .option c optarg ∈ t.scan posix waiting args) : t.Known c optarg.isSome := by
  induction args generalizing waiting with
  | nil => cases waiting <;> simp [scan] at returned
  | cons arg args ih =>
      cases waiting with
      | some d =>
          rcases List.mem_cons.mp returned with same | later
          · cases same
            exact waits c rfl
          · exact ih (by simp) later
      | none =>
          unfold scan at returned
          split at returned
          · cases returned
          · rcases List.mem_append.mp returned with here | later
            · exact (t.longElement_known _).1 c optarg here
            · exact ih (t.longElement_known _).2 later
          · rcases List.mem_append.mp returned with here | later
            · exact (t.cluster_known _).1 c optarg here
            · exact ih (t.cluster_known _).2 later
          · split at returned
            · cases returned
            · exact ih (by simp) returned

/-- **Options are what is written.**  The scan finds no error exactly where the arguments are
items written one after another. -/
theorem clean_iff_written : .invalid ∉ t.scan posix none args ↔ Written t posix args := by
  refine ⟨written_of_clean, fun written error => ?_⟩
  obtain ⟨items, ending, wellFormed, ends, rfl⟩ := written
  rw [scan_items wellFormed ends] at error
  obtain ⟨setting, _, same⟩ := List.mem_map.mp error
  cases same

end OptionTable

end OpenRtp
