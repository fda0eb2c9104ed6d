import OpenRtp.Base.Getopt
import OpenRtp.Base.Heap

/-!
# The command line

`CmdlineParameter`, with the `std::string` objects that it makes in a heap of their own.
`parseCmdlineParameter` reads the arguments with `getopt_long` and keeps the last file given
to `-p` and to `-f` in a new string; what it kept before is never deleted.

`parse_iff` says which arguments are valid and what they set, `strings_lost` which strings the
destructor leaves.
-/

namespace OpenRtp

/-- `"p:f:dvh"` and `long_options`. -/
def cmdlineOptions : OptionTable where
  optstring := ['p', ':', 'f', ':', 'd', 'v', 'h']
  longOptions :=
    [⟨['p', 'i', 'd', '-', 'f', 'i', 'l', 'e'], true, 'p'⟩,
      ⟨['c', 'f', 'g', '-', 'f', 'i', 'l', 'e'], true, 'f'⟩,
      ⟨['d', 'a', 'e', 'm', 'o', 'n', 'i', 'z', 'e'], false, 'd'⟩,
      ⟨['v', 'e', 'r', 's', 'i', 'o', 'n'], false, 'v'⟩,
      ⟨['h', 'e', 'l', 'p'], false, 'h'⟩]

/-- The members, with pointers to strings. -/
structure CmdlineParameter where
  bValidParameter : Bool
  bShowHelp : Bool
  bShowVersion : Bool
  bDaemonize : Bool
  sProgramName : Option Nat
  sPidFile : Option Nat
  sCfgFile : Option Nat
deriving DecidableEq, Repr

/-- An object and the strings that were made. -/
structure Cmdline where
  strings : Heap Char
  parameter : CmdlineParameter
deriving DecidableEq, Repr

namespace Cmdline

/-- `new std::string`; its identity is the old `size`. -/
def newString (strings : Heap Char) (text : Arg) : Heap Char := strings.add ⟨text.map some, 0⟩

/-- `CmdlineParameter::CmdlineParameter`. -/
def construct : Cmdline where
  strings := newString .empty ['o', 'p', 'e', 'n', 'R', 'T', 'P']
  parameter :=
    { bValidParameter := true
      bShowHelp := false
      bShowVersion := false
      bDaemonize := false
      sProgramName := some 0
      sPidFile := none
      sCfgFile := none }

/-- The `switch` over what `getopt_long` returned. -/
def handle (c : Cmdline) : Getopt → Cmdline
  | .option 'v' _ => { c with parameter := { c.parameter with bShowVersion := true } }
  | .option 'h' _ => { c with parameter := { c.parameter with bShowHelp := true } }
  | .option 'd' _ => { c with parameter := { c.parameter with bDaemonize := true } }
  | .option 'p' optarg =>
      { strings := newString c.strings (optarg.getD [])
        parameter := { c.parameter with sPidFile := some c.strings.size } }
  | .option 'f' optarg =>
      { strings := newString c.strings (optarg.getD [])
        parameter := { c.parameter with sCfgFile := some c.strings.size } }
  | _ => { c with parameter := { c.parameter with bValidParameter := false } }

/-- `CmdlineParameter::parseCmdlineParameter`, with `argv[0]` and the arguments after it.
`getopt_long` scans from the first of them, as at its first use in a process. -/
def parse (posixlyCorrect : Bool) (c : Cmdline) (argv0 : Arg) (args : List Arg) : Cmdline :=
  let strings := c.strings.releasePtr c.parameter.sProgramName
  (cmdlineOptions.scan posixlyCorrect none args).foldl handle
    { strings := newString strings argv0
      parameter := { c.parameter with sProgramName := some strings.size } }

/-- `CmdlineParameter::~CmdlineParameter`. -/
def destroy (c : Cmdline) : Cmdline where
  strings := ((c.strings.releasePtr c.parameter.sProgramName).releasePtr
    c.parameter.sPidFile).releasePtr c.parameter.sCfgFile
  parameter := { c.parameter with sProgramName := none, sPidFile := none, sCfgFile := none }

/-- The text of the string behind a pointer. -/
def text (strings : Heap Char) (ptr : Option Nat) : Option Arg :=
  (ptr.bind strings.get?).map fun b => b.cells.filterMap id

end Cmdline

/-- The members, with what the strings say. -/
structure CmdlineValues where
  valid : Bool
  showHelp : Bool
  showVersion : Bool
  daemonize : Bool
  programName : Option Arg
  pidFile : Option Arg
  cfgFile : Option Arg
deriving DecidableEq, Repr

def Cmdline.values (c : Cmdline) : CmdlineValues where
  valid := c.parameter.bValidParameter
  showHelp := c.parameter.bShowHelp
  showVersion := c.parameter.bShowVersion
  daemonize := c.parameter.bDaemonize
  programName := text c.strings c.parameter.sProgramName
  pidFile := text c.strings c.parameter.sPidFile
  cfgFile := text c.strings c.parameter.sCfgFile

/-- The argument of an option that is `c`. -/
def Getopt.argOf (c : Char) : Getopt → Option Arg
  | .option d optarg => if d = c then optarg else none
  | .invalid => none

/-- The arguments given to the option `c`, in order. -/
def argsOf (c : Char) (returned : List Getopt) : List Arg := returned.filterMap (Getopt.argOf c)

/-- A file, with the option it is given to. -/
def Getopt.file : Getopt → Option (Char × Arg)
  | .option 'p' (some file) => some ('p', file)
  | .option 'f' (some file) => some ('f', file)
  | _ => none

/-- The files given, in order. -/
def filesGiven (returned : List Getopt) : List (Char × Arg) := returned.filterMap Getopt.file

/-- What `getopt_long` stands for when it returned these options. -/
def CmdlineValues.ofReturned (argv0 : Arg) (returned : List Getopt) : CmdlineValues where
  valid := .invalid ∉ returned
  showHelp := .option 'h' none ∈ returned
  showVersion := .option 'v' none ∈ returned
  daemonize := .option 'd' none ∈ returned
  programName := some argv0
  pidFile := (argsOf 'p' returned).getLast?
  cfgFile := (argsOf 'f' returned).getLast?

/-- One more option. -/
def CmdlineValues.add (v : CmdlineValues) : Getopt → CmdlineValues
  | .option 'v' _ => { v with showVersion := true }
  | .option 'h' _ => { v with showHelp := true }
  | .option 'd' _ => { v with daemonize := true }
  | .option 'p' optarg => { v with pidFile := some (optarg.getD []) }
  | .option 'f' optarg => { v with cfgFile := some (optarg.getD []) }
  | _ => { v with valid := false }

/-! ## What the options are -/

theorem short?_cmdline {c : Char} {takesArg : Bool} :
    cmdlineOptions.short? c = some takesArg ↔
      (takesArg = true ∧ (c = 'p' ∨ c = 'f')) ∨
        (takesArg = false ∧ (c = 'd' ∨ c = 'v' ∨ c = 'h')) := by
  constructor
  · intro known
    unfold OptionTable.short? at known
    split at known
    · cases known
    · next plain =>
        have colon : c ≠ ':' := fun same => plain (.inl same)
        by_cases p : 'p' = c
        · subst p
          simp_all [cmdlineOptions]
        by_cases f : 'f' = c
        · subst f
          simp_all [cmdlineOptions]
        by_cases d : 'd' = c
        · subst d
          simp_all [cmdlineOptions]
        by_cases v : 'v' = c
        · subst v
          simp_all [cmdlineOptions]
        by_cases h : 'h' = c
        · subst h
          simp_all [cmdlineOptions]
        simp [cmdlineOptions, p, f, d, v, h, colon.symm] at known
  · intro listed
    rcases listed with ⟨rfl, rfl | rfl⟩ | ⟨rfl, rfl | rfl | rfl⟩ <;> decide

/-- Every beginning of the name of a long option selects it, and nothing else does. -/
theorem long?_cmdline {name : Arg} {o : LongOption} :
    cmdlineOptions.long? name = some o ↔
      o ∈ cmdlineOptions.longOptions ∧ name ≠ [] ∧ name <+: o.name := by
  cases name with
  | nil => simp [OptionTable.long?, cmdlineOptions]
  | cons c cs =>
      refine ⟨fun known => ⟨(OptionTable.prefix_of_long? known).1, by simp,
        (OptionTable.prefix_of_long? known).2⟩, fun ⟨member, _, begins⟩ => ?_⟩
      refine OptionTable.long?_of_unique member begins fun p listed starts => ?_
      simp only [cmdlineOptions, List.mem_cons, List.not_mem_nil, or_false] at member listed
      -- No two names begin with the same letter.
      rcases member with rfl | rfl | rfl | rfl | rfl <;>
        obtain ⟨rfl, _⟩ := List.cons_prefix_cons.mp begins <;>
        rcases listed with rfl | rfl | rfl | rfl | rfl <;>
        first | rfl | exact absurd (List.cons_prefix_cons.mp starts).1 (by decide)

/-- What `getopt_long` can return. -/
inductive Getopt.Handled : Getopt → Prop
  | invalid : Handled .invalid
  | pidFile (file : Arg) : Handled (.option 'p' (some file))
  | cfgFile (file : Arg) : Handled (.option 'f' (some file))
  | daemonize : Handled (.option 'd' none)
  | version : Handled (.option 'v' none)
  | help : Handled (.option 'h' none)

theorem known_cmdline {c : Char} {takesArg : Bool} (known : cmdlineOptions.Known c takesArg) :
    (takesArg = true ∧ (c = 'p' ∨ c = 'f')) ∨
      (takesArg = false ∧ (c = 'd' ∨ c = 'v' ∨ c = 'h')) := by
  rcases known with short | ⟨o, member, rfl, rfl⟩
  · exact short?_cmdline.mp short
  · simp only [cmdlineOptions, List.mem_cons, List.not_mem_nil, or_false] at member
    rcases member with rfl | rfl | rfl | rfl | rfl <;> simp

/-- A file option has its `optarg`, the others none, and there are no more. -/
theorem scan_handled {posix : Bool} {args : List Arg} {g : Getopt}
    (returned : g ∈ cmdlineOptions.scan posix none args) : g.Handled := by
  cases g with
  | invalid => exact .invalid
  | option c optarg =>
      have known := known_cmdline (OptionTable.scan_known (by simp) returned)
      cases optarg with
      | none =>
          rcases known with ⟨given, _⟩ | ⟨_, rfl | rfl | rfl⟩
          · cases given
          · exact .daemonize
          · exact .version
          · exact .help
      | some file =>
          rcases known with ⟨_, rfl | rfl⟩ | ⟨given, _⟩
          · exact .pidFile file
          · exact .cfgFile file
          · cases given

/-! ## Parsing -/

/-- The members that hold a string. -/
inductive StringField
  | programName
  | pidFile
  | cfgFile
deriving DecidableEq, Repr

def CmdlineParameter.held (p : CmdlineParameter) : StringField → Option Nat
  | .programName => p.sProgramName
  | .pidFile => p.sPidFile
  | .cfgFile => p.sCfgFile

namespace Cmdline

/-- After `returned`: the members hold what it stands for, each holds a string of its own, and
there is one string for the name and one for each file given. -/
structure Parsed (c : Cmdline) (argv0 : Arg) (returned : List Getopt) : Prop where
  values : c.values = .ofReturned argv0 returned
  owned : c.strings.Owned c.parameter.held
  liveCount : c.strings.liveCount =
    1 + (argsOf 'p' returned).length + (argsOf 'f' returned).length

variable {c : Cmdline} {argv0 file : Arg} {returned : List Getopt} {strings : Heap Char}
  {held : StringField → Option Nat}

theorem text_newString_self (strings : Heap Char) (file : Arg) :
    text (newString strings file) (some strings.size) = some file := by
  simp [text, newString]

/-- The strings that are held stay as they are. -/
theorem text_newString (owned : strings.Owned held) (s : StringField) (file : Arg) :
    text (newString strings file) (held s) = text strings (held s) := by
  cases holds : held s with
  | none => rfl
  | some i =>
      obtain ⟨b, here, _⟩ := owned.live s i holds
      simp only [text, newString, Option.bind_some, Table.get?_add_of_some here, here]

/-- The `switch` does to the members what the option does to the values. -/
theorem values_handle (owned : c.strings.Owned c.parameter.held) (g : Getopt) :
    (c.handle g).values = c.values.add g := by
  have kept := fun s => text_newString owned s
  unfold Cmdline.handle CmdlineValues.add
  split
  · rfl
  · rfl
  · rfl
  · next optarg =>
      have fresh := text_newString_self c.strings (optarg.getD [])
      have name := kept .programName (optarg.getD [])
      have cfg := kept .cfgFile (optarg.getD [])
      simp only [values, fresh]
      simp only [CmdlineParameter.held] at name cfg
      rw [name, cfg]
  · next optarg =>
      have fresh := text_newString_self c.strings (optarg.getD [])
      have name := kept .programName (optarg.getD [])
      have pid := kept .pidFile (optarg.getD [])
      simp only [values, fresh]
      simp only [CmdlineParameter.held] at name pid
      rw [name, pid]
  · rfl

/-- So does one more option to what was returned. -/
theorem ofReturned_concat {g : Getopt} (handled : g.Handled) :
    CmdlineValues.ofReturned argv0 (returned ++ [g]) =
      (CmdlineValues.ofReturned argv0 returned).add g := by
  cases handled <;>
    simp [CmdlineValues.ofReturned, CmdlineValues.add, argsOf, Getopt.argOf, List.filterMap_append,
      List.filterMap_cons]

theorem held_pidFile (p : CmdlineParameter) (i : Nat) :
    CmdlineParameter.held { p with sPidFile := some i } =
      Function.update p.held .pidFile (some i) := by
  funext s
  cases s <;> simp [CmdlineParameter.held]

theorem held_cfgFile (p : CmdlineParameter) (i : Nat) :
    CmdlineParameter.held { p with sCfgFile := some i } =
      Function.update p.held .cfgFile (some i) := by
  funext s
  cases s <;> simp [CmdlineParameter.held]

/-- One option. -/
theorem Parsed.handle {g : Getopt} (parsed : c.Parsed argv0 returned) (handled : g.Handled) :
    (c.handle g).Parsed argv0 (returned ++ [g]) := by
  have values : (c.handle g).values = .ofReturned argv0 (returned ++ [g]) := by
    rw [values_handle parsed.owned, ofReturned_concat handled, parsed.values]
  have counted := parsed.liveCount
  cases handled with
  | pidFile file =>
      refine ⟨values, ?_, ?_⟩
      · simp only [Cmdline.handle, held_pidFile]
        exact parsed.owned.take .pidFile _
      · have added := c.strings.liveCount_add (file.map some)
        simp [Cmdline.handle, newString, added, counted, argsOf, Getopt.argOf]
        omega
  | cfgFile file =>
      refine ⟨values, ?_, ?_⟩
      · simp only [Cmdline.handle, held_cfgFile]
        exact parsed.owned.take .cfgFile _
      · have added := c.strings.liveCount_add (file.map some)
        simp [Cmdline.handle, newString, added, counted, argsOf, Getopt.argOf]
        omega
  | invalid | daemonize | version | help =>
      refine ⟨values, parsed.owned, ?_⟩
      simpa [argsOf, Getopt.argOf, List.filterMap_cons, Cmdline.handle] using counted

/-- Any options. -/
theorem Parsed.foldl {later : List Getopt} (parsed : c.Parsed argv0 returned)
    (handled : ∀ g ∈ later, g.Handled) :
    (later.foldl Cmdline.handle c).Parsed argv0 (returned ++ later) := by
  induction later generalizing c returned with
  | nil => simpa using parsed
  | cons g gs ih =>
      obtain ⟨first, others⟩ := List.forall_mem_cons.mp handled
      have next := ih (parsed.handle first) others
      rwa [List.append_assoc, List.singleton_append] at next

/-- The name of the program replaces the one the constructor gave. -/
theorem parsed_start (argv0 : Arg) :
    Parsed
      { strings := newString (construct.strings.releasePtr construct.parameter.sProgramName) argv0
        parameter := { construct.parameter with
          sProgramName := some construct.strings.size } } argv0 [] := by
  have nothing : Heap.Owned (.empty : Heap Char) fun _ : StringField => none :=
    .empty fun _ => rfl
  have made := nothing.take .programName (['o', 'p', 'e', 'n', 'R', 'T', 'P'].map some)
  have released := made.releasePtr .programName
  have named := released.take .programName (argv0.map some)
  refine ⟨?_, ?_, ?_⟩
  · have fresh := text_newString_self (construct.strings.releasePtr (some 0)) argv0
    rw [Heap.size_releasePtr] at fresh
    simp only [values, construct, CmdlineValues.ofReturned, argsOf, text] at fresh ⊢
    rw [fresh]
    rfl
  · refine named.forget fun s i holds => ?_
    cases s with
    | programName => exact holds
    | pidFile | cfgFile => cases holds
  · rfl

theorem parsed_parse (posix : Bool) (argv0 : Arg) (args : List Arg) :
    (construct.parse posix argv0 args).Parsed argv0 (cmdlineOptions.scan posix none args) := by
  have handled : ∀ g ∈ cmdlineOptions.scan posix none args, g.Handled :=
    fun g returned => scan_handled returned
  have run := (parsed_start argv0).foldl handled
  rwa [List.nil_append] at run

/-- **The command line.**  The arguments are valid exactly where they are options of the program
written down, and then an object says what they set: a flag if it was given, the last file if
one was.  The letters of the program are its short options, and a long option may be shortened
to any beginning of its name. -/
theorem parse_iff (posix : Bool) (argv0 : Arg) (args : List Arg) :
    ((construct.parse posix argv0 args).values.valid = true ↔
        OptionTable.Written cmdlineOptions posix args) ∧
      (∀ (items : List Item) (ending : List Arg),
        (∀ item ∈ items, item.WellFormed cmdlineOptions posix) → Ending posix ending →
          args = items.flatMap Item.render ++ ending →
            (construct.parse posix argv0 args).values =
              .ofReturned argv0 ((items.flatMap Item.settings).map Setting.returned)) ∧
      (∀ c takesArg, cmdlineOptions.short? c = some takesArg ↔
        (takesArg = true ∧ (c = 'p' ∨ c = 'f')) ∨
          (takesArg = false ∧ (c = 'd' ∨ c = 'v' ∨ c = 'h'))) ∧
      ∀ name o, cmdlineOptions.long? name = some o ↔
        o ∈ cmdlineOptions.longOptions ∧ name ≠ [] ∧ name <+: o.name := by
  have read := (parsed_parse posix argv0 args).values
  refine ⟨?_, ?_, fun _ _ => short?_cmdline, fun _ _ => long?_cmdline⟩
  · rw [read, CmdlineValues.ofReturned, decide_eq_true_iff]
    exact OptionTable.clean_iff_written
  · rintro items ending wellFormed ends rfl
    rw [read, OptionTable.scan_items wellFormed ends]

/-- `-dp a x --cfg=b -f c`. -/
def mixedItems : List Item :=
  [.separate ['d'] 'p' ['a'], .other ['x'],
    .assigned ['c', 'f', 'g'] ⟨['c', 'f', 'g', '-', 'f', 'i', 'l', 'e'], true, 'f'⟩ ['b'],
    .separate [] 'f' ['c']]

/-- The last configuration file counts, and `x` is passed over. -/
theorem parse_mixed :
    (construct.parse false ['o'] [['-', 'd', 'p'], ['a'], ['x'],
      ['-', '-', 'c', 'f', 'g', '=', 'b'], ['-', 'f'], ['c']]).values =
        { valid := true, showHelp := false, showVersion := false, daemonize := true,
          programName := some ['o'], pidFile := some ['a'], cfgFile := some ['c'] } := by
  have wellFormed : ∀ item ∈ mixedItems, item.WellFormed cmdlineOptions false := by
    simp only [mixedItems, List.forall_mem_cons, Item.WellFormed]
    exact ⟨⟨by simp [short?_cmdline], by decide, by decide⟩, ⟨trivial, .inl (by decide)⟩,
      ⟨by decide, trivial, by decide⟩, ⟨by simp, by decide, by decide⟩, List.forall_mem_nil _⟩
  exact ((parse_iff false ['o'] _).2.1 mixedItems [] wellFormed .nothing rfl).trans (by decide)

/-! ## The strings -/

/-- A pointer that is held is to a string. -/
theorem isSome_text (owned : strings.Owned held) (s : StringField) :
    (text strings (held s)).isSome = (held s).isSome := by
  cases holds : held s with
  | none => rfl
  | some i =>
      obtain ⟨b, here, _⟩ := owned.live s i holds
      simp [text, here]

/-- The strings behind one pointer, of which there was one for each of `files`. -/
theorem liveCount_delete {files : List Arg} (owned : strings.Owned held) (s : StringField)
    (kept : (held s).isSome = files.getLast?.isSome) :
    (strings.releasePtr (held s)).liveCount + min 1 files.length = strings.liveCount := by
  cases holds : held s with
  | none =>
      rw [holds] at kept
      have empty : files = [] := by simpa using kept.symm
      simp [empty, Heap.releasePtr]
  | some i =>
      rw [holds] at kept
      have given : 0 < files.length := by
        rw [List.length_pos_iff]
        rintro rfl
        cases kept
      rw [Nat.min_eq_left given]
      exact Heap.liveCount_release (owned.live s i holds)

/-- The file number `k` is the last one given to the option `c`. -/
def LastGiven (files : List (Char × Arg)) (c : Char) (k : Nat) : Prop :=
  (files[k]?).map Prod.fst = some c ∧ c ∉ (files.drop (k + 1)).map Prod.fst

section

variable {files : List (Char × Arg)} {d : Char} {k : Nat}

theorem lastGiven_concat_self :
    LastGiven (files ++ [(d, file)]) d k ↔ k = files.length := by
  unfold LastGiven
  rcases Nat.lt_trichotomy k files.length with before | rfl | after
  · simp [List.drop_append_of_le_length before, Nat.ne_of_lt before]
  · simp
  · have nothing : (files ++ [(d, file)])[k]? = none :=
      List.getElem?_eq_none (by rw [List.length_append]; exact after)
    simp [nothing, Nat.ne_of_gt after]

/-- A file given to another option. -/
theorem lastGiven_concat_of_ne {e : Char} (other : e ≠ d) :
    LastGiven (files ++ [(d, file)]) e k ↔ LastGiven files e k := by
  unfold LastGiven
  rcases Nat.lt_or_ge k files.length with before | after
  · simp [List.drop_append_of_le_length before, List.getElem?_append_left before, other]
  · rw [List.getElem?_eq_none after, List.getElem?_append_right after]
    cases k - files.length <;> simp [other.symm]

end

/-- The strings that were made: one by the constructor, one for the name, and one for each
file given; the pointers are to the name and to the last file of each option. -/
structure Made (c : Cmdline) (returned : List Getopt) : Prop where
  size : c.strings.size = (filesGiven returned).length + 2
  deleted : ¬ c.strings.Live 0
  name : c.parameter.sProgramName = some 1
  string : ∀ k, c.strings.get? (k + 2) =
    ((filesGiven returned)[k]?).map fun given => ⟨given.2.map some, 0⟩
  pidFile : ∀ k, c.parameter.sPidFile = some (k + 2) ↔ LastGiven (filesGiven returned) 'p' k
  cfgFile : ∀ k, c.parameter.sCfgFile = some (k + 2) ↔ LastGiven (filesGiven returned) 'f' k

theorem filesGiven_concat (returned : List Getopt) (g : Getopt) :
    filesGiven (returned ++ [g]) = filesGiven returned ++ (Getopt.file g).toList := by
  rw [filesGiven, List.filterMap_append, List.filterMap_cons, List.filterMap_nil, filesGiven]
  cases g.file <;> rfl

/-- The string for one more file. -/
theorem Made.newString (made : Made c returned) (d : Char) (file : Arg) :
    (newString c.strings file).size = (filesGiven returned ++ [(d, file)]).length + 2 ∧
      ¬ (Cmdline.newString c.strings file).Live 0 ∧
      ∀ k, (Cmdline.newString c.strings file).get? (k + 2) =
        ((filesGiven returned ++ [(d, file)])[k]?).map fun given => ⟨given.2.map some, 0⟩ := by
  refine ⟨?_, ?_, fun k => ?_⟩
  · simp [Cmdline.newString, made.size]
  · rw [Cmdline.newString, Heap.live_add, made.size]
    exact not_or.mpr ⟨by omega, made.deleted⟩
  · rw [Cmdline.newString, Table.get?_add, made.size, made.string]
    rcases Nat.lt_trichotomy k (filesGiven returned).length with before | rfl | after
    · rw [if_neg (by omega), List.getElem?_append_left before]
    · simp
    · rw [if_neg (by omega), List.getElem?_eq_none (Nat.le_of_lt after),
        List.getElem?_eq_none (by rw [List.length_append]; exact after)]

theorem Made.handle {g : Getopt} (made : Made c returned) (handled : g.Handled) :
    Made (c.handle g) (returned ++ [g]) := by
  have given := filesGiven_concat returned g
  cases handled with
  | pidFile file =>
      obtain ⟨size, deleted, string⟩ := made.newString 'p' file
      refine ⟨given ▸ size, deleted, made.name, fun k => given ▸ string k, fun k => ?_, fun k => ?_⟩
      · rw [given]
        refine Iff.trans ?_ lastGiven_concat_self.symm
        simp only [Cmdline.handle, made.size, Option.some.injEq]
        omega
      · rw [given]
        exact (made.cfgFile k).trans (lastGiven_concat_of_ne (by decide)).symm
  | cfgFile file =>
      obtain ⟨size, deleted, string⟩ := made.newString 'f' file
      refine ⟨given ▸ size, deleted, made.name, fun k => given ▸ string k, fun k => ?_, fun k => ?_⟩
      · rw [given]
        exact (made.pidFile k).trans (lastGiven_concat_of_ne (by decide)).symm
      · rw [given]
        refine Iff.trans ?_ lastGiven_concat_self.symm
        simp only [Cmdline.handle, made.size, Option.some.injEq]
        omega
  | invalid | daemonize | version | help =>
      have same := given.trans (List.append_nil _)
      exact ⟨same ▸ made.size, made.deleted, made.name, fun k => same ▸ made.string k,
        fun k => same ▸ made.pidFile k, fun k => same ▸ made.cfgFile k⟩

theorem Made.foldl {later : List Getopt} (made : Made c returned)
    (handled : ∀ g ∈ later, g.Handled) :
    Made (later.foldl Cmdline.handle c) (returned ++ later) := by
  induction later generalizing c returned with
  | nil => simpa using made
  | cons g gs ih =>
      obtain ⟨first, others⟩ := List.forall_mem_cons.mp handled
      have next := ih (made.handle first) others
      rwa [List.append_assoc, List.singleton_append] at next

theorem made_parse (posix : Bool) (argv0 : Arg) (args : List Arg) :
    Made (construct.parse posix argv0 args) (cmdlineOptions.scan posix none args) := by
  have start : Made
      { strings := newString (construct.strings.releasePtr construct.parameter.sProgramName) argv0
        parameter := { construct.parameter with
          sProgramName := some construct.strings.size } } [] :=
    { size := rfl
      deleted := fun live => by
        obtain ⟨b, here, fresh⟩ := live
        cases here
        cases fresh
      name := rfl
      string := fun k => rfl
      pidFile := fun k => by simp [LastGiven, filesGiven, construct]
      cfgFile := fun k => by simp [LastGiven, filesGiven, construct] }
  have handled : ∀ g ∈ cmdlineOptions.scan posix none args, g.Handled :=
    fun g returned => scan_handled returned
  have run := start.foldl handled
  rwa [List.nil_append] at run

theorem text_releasePtr (strings : Heap Char) (deleted : Option Nat) (i : Nat) :
    text (strings.releasePtr deleted) (some i) = text strings (some i) := by
  cases deleted with
  | none => rfl
  | some j =>
      simp only [text, Heap.releasePtr, Heap.release, Option.bind_some, Table.get?_modify]
      split
      · rw [Option.map_map]
        rfl
      · rfl

/-- A file is given to one of the two options. -/
theorem option_of_filesGiven {d : Char} {k : Nat}
    (given : (filesGiven returned)[k]? = some (d, file)) : d = 'p' ∨ d = 'f' := by
  obtain ⟨g, _, isFile⟩ := List.mem_filterMap.mp (List.mem_of_getElem? given)
  unfold Getopt.file at isFile
  split at isFile
  · cases isFile
    exact .inl rfl
  · cases isFile
    exact .inr rfl
  · cases isFile

/-- The strings that the destructor leaves. -/
theorem Made.destroy_live_iff (made : Made c returned) (i : Nat) (file : Arg) :
    (c.destroy.strings.Live i ∧ text c.destroy.strings (some i) = some file) ↔
      ∃ k d, i = k + 2 ∧ (filesGiven returned)[k]? = some (d, file) ∧
        d ∈ ((filesGiven returned).drop (k + 1)).map Prod.fst := by
  simp only [destroy, Heap.live_releasePtr, text_releasePtr]
  constructor
  · intro left
    obtain ⟨⟨⟨⟨live, notName⟩, notPid⟩, notCfg⟩, reads⟩ := left
    obtain ⟨k, rfl⟩ : ∃ k, i = k + 2 := by
      match i with
      | 0 => exact absurd live made.deleted
      | 1 => exact absurd made.name notName
      | k + 2 => exact ⟨k, rfl⟩
    obtain ⟨b, here, _⟩ := live
    obtain ⟨⟨d, text⟩, given, rfl⟩ := Option.map_eq_some_iff.mp ((made.string k).symm.trans here)
    obtain rfl : text = file := by simpa [Cmdline.text, here] using reads
    refine ⟨k, d, rfl, given, ?_⟩
    by_contra last
    have held : LastGiven (filesGiven returned) d k := ⟨congrArg (Option.map Prod.fst) given, last⟩
    rcases option_of_filesGiven given with rfl | rfl
    · exact notPid ((made.pidFile k).mpr held)
    · exact notCfg ((made.cfgFile k).mpr held)
  · intro lost
    obtain ⟨k, d, rfl, given, later⟩ := lost
    have here : c.strings.get? (k + 2) = some ⟨file.map some, 0⟩ := by
      rw [made.string, given]
      rfl
    have replaced : ∀ e, ¬ LastGiven (filesGiven returned) e k := by
      intro e held
      obtain ⟨option, last⟩ := held
      rw [given] at option
      cases option
      exact last later
    have notName : c.parameter.sProgramName ≠ some (k + 2) := by
      rw [made.name]
      simp
    exact ⟨⟨⟨⟨⟨_, here, rfl⟩, notName⟩, mt (made.pidFile k).mp (replaced _)⟩,
      mt (made.cfgFile k).mp (replaced _)⟩, by simp [text, here]⟩

/-- **Strings that are lost.**  Whatever the arguments, the destructor deletes no string twice,
and leaves all but the last of the files given to each of the two file options: the string for
the file number `k` exactly if a later file was given to the same option. -/
theorem strings_lost (posix : Bool) (argv0 : Arg) (args : List Arg) :
    (∀ i b, (construct.parse posix argv0 args).destroy.strings.get? i = some b → b.releases ≤ 1) ∧
      (construct.parse posix argv0 args).destroy.strings.liveCount =
        ((argsOf 'p' (cmdlineOptions.scan posix none args)).length - 1) +
          ((argsOf 'f' (cmdlineOptions.scan posix none args)).length - 1) ∧
      ∀ i file, ((construct.parse posix argv0 args).destroy.strings.Live i ∧
          text (construct.parse posix argv0 args).destroy.strings (some i) = some file) ↔
        ∃ k d, i = k + 2 ∧
          (filesGiven (cmdlineOptions.scan posix none args))[k]? = some (d, file) ∧
            d ∈ ((filesGiven (cmdlineOptions.scan posix none args)).drop (k + 1)).map Prod.fst := by
  have parsed := parsed_parse posix argv0 args
  have made := made_parse posix argv0 args
  generalize cmdlineOptions.scan posix none args = returned at parsed made
  generalize construct.parse posix argv0 args = c at parsed made
  have one := parsed.owned.releasePtr .programName
  have two := one.releasePtr .pidFile
  have three := two.releasePtr .cfgFile
  refine ⟨three.releasedOnce, ?_, made.destroy_live_iff⟩
  have live := fun s => isSome_text parsed.owned s
  have values := parsed.values
  have name : (c.parameter.held .programName).isSome = [argv0].getLast?.isSome := by
    rw [← live]
    exact congrArg (fun v => v.programName.isSome) values
  have pid : (c.parameter.held .pidFile).isSome = (argsOf 'p' returned).getLast?.isSome := by
    rw [← live]
    exact congrArg (fun v => v.pidFile.isSome) values
  have cfg : (c.parameter.held .cfgFile).isSome = (argsOf 'f' returned).getLast?.isSome := by
    rw [← live]
    exact congrArg (fun v => v.cfgFile.isSome) values
  have deleteName := liveCount_delete parsed.owned .programName name
  have deletePid := liveCount_delete one .pidFile pid
  have deleteCfg := liveCount_delete two .cfgFile cfg
  have counted := parsed.liveCount
  rw [List.length_singleton] at deleteName
  have all : c.destroy.strings.liveCount + min 1 (argsOf 'f' returned).length =
      ((c.strings.releasePtr (c.parameter.held .programName)).releasePtr
        (c.parameter.held .pidFile)).liveCount := deleteCfg
  have most : ((c.strings.releasePtr (c.parameter.held .programName)).releasePtr
        (c.parameter.held .pidFile)).liveCount + min 1 (argsOf 'p' returned).length =
      (c.strings.releasePtr (c.parameter.held .programName)).liveCount := deletePid
  omega

end Cmdline

end OpenRtp
