import ElfCarve.Proofs.Command.Acceptance
import ElfCarve.Proofs.Text.Utf8

/-!
# The lines that are accepted

A line is read by its arguments.  Those in front of the first separator that begin with a dash are
its options, a single dash apart; all others are its operands.

* `Line.options` and `Line.operands` sort the arguments of a line.
* `known_of_fits` says which options can be part of a line that is accepted, and the lemmas before
  it what each of them asks for.
* `Line.Asks` is the grammar, and `parse_eq_ok_iff_asks` says that it is what is accepted.
-/

namespace ElfCarve.Command

variable {argument : Bytes} {arguments : List Bytes}

/-! ## Options and operands -/

/-- An argument that begins with a dash, a single dash apart. -/
def IsOption (argument : Bytes) : Prop :=
  argument.head? = some Bytes.dash ∧ argument ≠ [Bytes.dash]

instance : DecidablePred IsOption := fun _ => inferInstanceAs (Decidable (_ ∧ _))

namespace Line

def front (arguments : List Bytes) : List Bytes :=
  arguments.takeWhile (· ≠ Token.separator)

def behind (arguments : List Bytes) : List Bytes :=
  (arguments.dropWhile (· ≠ Token.separator)).tail

def options (arguments : List Bytes) : List Bytes :=
  (front arguments).filter (IsOption ·)

def operands (arguments : List Bytes) : List Bytes :=
  (front arguments).filter (¬ IsOption ·) ++ behind arguments

theorem options_separator (rest : List Bytes) : options (Token.separator :: rest) = [] := by
  simp [options, front]

theorem operands_separator (rest : List Bytes) : operands (Token.separator :: rest) = rest := by
  simp [operands, front, behind]

theorem isOption_separator : IsOption Token.separator := by
  decide

theorem options_of_isOption (isOption : IsOption argument) (proper : argument ≠ Token.separator)
    (rest : List Bytes) : options (argument :: rest) = argument :: options rest := by
  simp [options, front, proper, isOption]

theorem operands_of_isOption (isOption : IsOption argument) (proper : argument ≠ Token.separator)
    (rest : List Bytes) : operands (argument :: rest) = operands rest := by
  simp [operands, front, behind, proper, isOption]

theorem ne_separator_of_not_isOption (isOperand : ¬ IsOption argument) :
    argument ≠ Token.separator := by
  rintro rfl
  exact isOperand isOption_separator

theorem options_of_not_isOption (isOperand : ¬ IsOption argument) (rest : List Bytes) :
    options (argument :: rest) = options rest := by
  simp [options, front, ne_separator_of_not_isOption isOperand, isOperand]

theorem operands_of_not_isOption (isOperand : ¬ IsOption argument) (rest : List Bytes) :
    operands (argument :: rest) = argument :: operands rest := by
  simp [operands, front, behind, ne_separator_of_not_isOption isOperand, isOperand]

/-- A line is empty, or it begins with the separator, an option or an operand. -/
@[elab_as_elim]
theorem induction {motive : List Bytes → Prop} (arguments : List Bytes) (nil : motive [])
    (separator : ∀ rest, motive (Token.separator :: rest))
    (option : ∀ argument rest, IsOption argument → argument ≠ Token.separator → motive rest →
      motive (argument :: rest))
    (operand : ∀ argument rest, ¬ IsOption argument → motive rest → motive (argument :: rest)) :
    motive arguments := by
  induction arguments with
  | nil => exact nil
  | cons argument rest ih =>
    by_cases isOption : IsOption argument
    · by_cases isSeparator : argument = Token.separator
      · subst isSeparator
        exact separator rest
      · exact option argument rest isOption isSeparator ih
    · exact operand argument rest isOption ih

end Line

/-! ## What an option asks for -/

def jsonOption : Bytes :=
  Utf8.encode "--json"

def verboseOption : Bytes :=
  Utf8.encode "--verbose"

/-- The letter of the short option for more to log, which is `v`. -/
def loud : UInt8 :=
  0x76

/-- A dash and letters for more to log behind it, at least one. -/
def IsCluster (argument : Bytes) : Prop :=
  ∃ count, argument = Bytes.dash :: List.replicate (count + 1) loud

theorem isCluster_iff :
    IsCluster argument ↔ 2 ≤ argument.length ∧
      argument = Bytes.dash :: List.replicate (argument.length - 1) loud := by
  constructor
  · rintro ⟨count, rfl⟩
    simp
  · rintro ⟨length, cluster⟩
    refine ⟨argument.length - 2, ?_⟩
    rw [show argument.length - 2 + 1 = argument.length - 1 by omega]
    exact cluster

instance : DecidablePred IsCluster := fun _ => decidable_of_iff _ isCluster_iff.symm

def IsKnown (option : Bytes) : Prop :=
  option = jsonOption ∨ option = verboseOption ∨ IsCluster option

theorem ofArgument_of_not_isOption (isOperand : ¬ IsOption argument) :
    Token.ofArgument argument = [.operand argument] := by
  unfold Token.ofArgument
  split
  next first second rest =>
    rw [if_pos]
    intro dash
    exact isOperand ⟨congrArg some dash, by simp⟩
  next => rfl

theorem ofArgument_json : Token.ofArgument jsonOption = [.flag .json] := by
  decide +kernel

theorem ofArgument_verbose : Token.ofArgument verboseOption = [.flag .verbose] := by
  decide +kernel

theorem pieces_replicate_loud (count : Nat) :
    Utf8.pieces (List.replicate count loud) = List.replicate count (some 'v') := by
  induction count with
  | zero => rfl
  | succ count ih =>
    rw [List.replicate_succ, Utf8.pieces_of_ascii (by decide), ih]
    rfl

theorem ofCluster_replicate (count : Nat) :
    Token.ofCluster (List.replicate count (some 'v')) =
      List.replicate count (.flag .verbose) := by
  induction count with
  | zero => rfl
  | succ count ih =>
    rw [List.replicate_succ, List.replicate_succ, ← ih]
    rfl

theorem ofArgument_cluster (count : Nat) :
    Token.ofArgument (Bytes.dash :: List.replicate (count + 1) loud) =
      List.replicate (count + 1) (.flag .verbose) := by
  rw [← ofCluster_replicate, ← pieces_replicate_loud, List.replicate_succ, Token.ofArgument,
    if_neg (by simp), if_neg (by decide)]

theorem ofLong?_fits {name : Bytes} {known : Flag} (isName : Flag.ofLong? name = some known)
    (fits : (Token.flag known).fits) :
    name = Utf8.encode "json" ∨ name = Utf8.encode "verbose" := by
  unfold Flag.ofLong? at isName
  split_ifs at isName with json verbose help version
  · exact .inl json
  · exact .inr verbose
  -- Help and version end the line where they stand.
  all_goals
    cases isName
    cases fits

theorem ofShort?_fits {letter : Char} {known : Flag} (isShort : Flag.ofShort? letter = some known)
    (fits : (Token.flag known).fits) : letter = 'v' := by
  unfold Flag.ofShort? at isShort
  split at isShort
  next => rfl
  next =>
    cases isShort
    cases fits
  next =>
    cases isShort
    cases fits
  next => cases isShort

theorem ofLong_fits {text : Bytes} (fits : (Token.ofLong text).fits) :
    text = Utf8.encode "json" ∨ text = Utf8.encode "verbose" := by
  have whole : text.takeWhile (· ≠ Bytes.equals) ++ text.dropWhile (· ≠ Bytes.equals) = text :=
    List.takeWhile_append_dropWhile
  rw [Token.ofLong] at fits
  split at fits
  next => cases fits
  next known isName nothing =>
    rw [nothing, List.append_nil] at whole
    rw [whole] at isName
    exact ofLong?_fits isName fits
  next => cases fits

theorem ofCluster_fits {letters : List (Option Char)}
    (fits : ∀ token ∈ Token.ofCluster letters, token.fits) :
    ∀ letter ∈ letters, letter = some 'v' := by
  induction letters with
  | nil => exact nofun
  | cons letter rest ih =>
    cases letter with
    | none => exact absurd (fits _ List.mem_cons_self) (by simp [Token.fits])
    | some letter =>
      rw [Token.ofCluster] at fits
      split at fits
      next known isShort =>
        rw [List.forall_mem_cons] at fits
        rw [ofShort?_fits isShort fits.1, List.forall_mem_cons]
        exact ⟨rfl, ih fits.2⟩
      next => exact absurd (fits _ List.mem_cons_self) (by simp [Token.fits])

theorem eq_replicate_of_pieces {letters : Bytes}
    (verbose : ∀ letter ∈ Utf8.pieces letters, letter = some 'v') :
    letters = List.replicate letters.length loud := by
  have wellFormed : (Utf8.pieces letters).all Option.isSome := by
    rw [List.all_eq_true]
    intro letter member
    rw [verbose letter member]
    rfl
  obtain ⟨text, rfl⟩ := Utf8.exists_text_of_all_isSome wellFormed
  rw [Utf8.pieces_encode, List.forall_mem_map] at verbose
  refine List.eq_replicate_of_mem fun byte member => ?_
  obtain ⟨c, inText, member⟩ := List.mem_flatMap.mp member
  cases verbose c inText
  exact List.mem_singleton.mp member

theorem known_of_fits (isOption : IsOption argument) (proper : argument ≠ Token.separator)
    (fits : ∀ token ∈ Token.ofArgument argument, token.fits) : IsKnown argument := by
  obtain ⟨begins, several⟩ := isOption
  unfold Token.ofArgument at fits
  split at fits
  next first second rest =>
    obtain rfl : first = Bytes.dash := Option.some.inj begins
    rw [if_neg (by simp)] at fits
    split at fits
    next long =>
      subst long
      rcases ofLong_fits (fits _ List.mem_cons_self) with rfl | rfl
      · exact .inl rfl
      · exact .inr (.inl rfl)
    next =>
      have letters := eq_replicate_of_pieces (ofCluster_fits fits)
      exact .inr (.inr ⟨rest.length, congrArg _ letters⟩)
  next short =>
    -- An argument of one byte that begins with a dash is the dash.
    cases argument with
    | nil => cases begins
    | cons first rest =>
      cases rest with
      | nil => exact absurd (congrArg (fun first => [first]) (Option.some.inj begins)) several
      | cons second rest => exact absurd rfl (short first second rest)

theorem not_isCluster_json : ¬ IsCluster jsonOption := by
  decide +kernel

theorem not_isCluster_verbose : ¬ IsCluster verboseOption := by
  decide +kernel

theorem fits_of_known (known : IsKnown argument) :
    ∀ token ∈ Token.ofArgument argument, token.fits := by
  rcases known with rfl | rfl | ⟨count, rfl⟩
  · simp [ofArgument_json]
  · simp [ofArgument_verbose]
  · rw [ofArgument_cluster]
    intro token member
    rw [List.eq_of_mem_replicate member]
    rfl

theorem filterMap_operand?_of_known (known : IsKnown argument) :
    (Token.ofArgument argument).filterMap Token.operand? = [] := by
  rcases known with rfl | rfl | ⟨count, rfl⟩
  · simp [ofArgument_json, List.filterMap_cons]
  · simp [ofArgument_verbose, List.filterMap_cons]
  · simp [ofArgument_cluster, List.filterMap_replicate]

theorem count_json_of_known (known : IsKnown argument) :
    (Token.ofArgument argument).count (.flag .json) = if argument = jsonOption then 1 else 0 := by
  rcases known with rfl | rfl | isCluster
  · simp [ofArgument_json]
  · rw [ofArgument_verbose, if_neg (by decide +kernel)]
    rfl
  · have different : argument ≠ jsonOption := by
      rintro rfl
      exact not_isCluster_json isCluster
    rw [if_neg different]
    obtain ⟨count, rfl⟩ := isCluster
    simp [ofArgument_cluster, List.count_replicate]

theorem count_verbose_of_known (known : IsKnown argument) :
    (Token.ofArgument argument).count (.flag .verbose) =
      (if IsCluster argument then argument.count loud else 0) +
        if argument = verboseOption then 1 else 0 := by
  rcases known with rfl | rfl | isCluster
  · rw [ofArgument_json, if_neg not_isCluster_json, if_neg (by decide +kernel)]
    rfl
  · rw [ofArgument_verbose, if_neg not_isCluster_verbose, if_pos rfl]
    rfl
  · have different : argument ≠ verboseOption := by
      rintro rfl
      exact not_isCluster_verbose isCluster
    rw [if_pos isCluster, if_neg different]
    obtain ⟨count, rfl⟩ := isCluster
    rw [ofArgument_cluster, List.count_replicate_self, List.count_cons_of_ne (by decide),
      List.count_replicate_self]

/-! ## Lines -/

theorem ofArguments_separator (rest : List Bytes) :
    Token.ofArguments (Token.separator :: rest) = rest.map .operand := by
  rw [Token.ofArguments, if_pos rfl]

theorem ofArguments_cons (proper : argument ≠ Token.separator) (rest : List Bytes) :
    Token.ofArguments (argument :: rest) =
      Token.ofArgument argument ++ Token.ofArguments rest := by
  rw [Token.ofArguments, if_neg proper]

theorem ofArguments_operand (isOperand : ¬ IsOption argument) (rest : List Bytes) :
    Token.ofArguments (argument :: rest) = .operand argument :: Token.ofArguments rest := by
  rw [ofArguments_cons (Line.ne_separator_of_not_isOption isOperand),
    ofArgument_of_not_isOption isOperand, List.singleton_append]

theorem fits_ofArguments_iff :
    (∀ token ∈ Token.ofArguments arguments, token.fits) ↔
      ∀ option ∈ Line.options arguments, IsKnown option := by
  induction arguments using Line.induction with
  | nil => exact iff_of_true nofun nofun
  | separator rest =>
    rw [ofArguments_separator, Line.options_separator]
    simp
  | option argument rest isOption proper ih =>
    rw [ofArguments_cons proper, List.forall_mem_append, ih,
      Line.options_of_isOption isOption proper, List.forall_mem_cons]
    exact and_congr_left fun _ => ⟨known_of_fits isOption proper, fits_of_known⟩
  | operand argument rest isOperand ih =>
    rw [ofArguments_operand isOperand, List.forall_mem_cons, ih,
      Line.options_of_not_isOption isOperand]
    exact and_iff_right rfl

theorem counts_ofArguments (known : ∀ option ∈ Line.options arguments, IsKnown option) :
    (Token.ofArguments arguments).filterMap Token.operand? = Line.operands arguments ∧
    (Token.ofArguments arguments).count (.flag .json) =
      (Line.options arguments).count jsonOption ∧
    (Token.ofArguments arguments).count (.flag .verbose) =
      ((Line.options arguments).filter (IsCluster ·)).flatten.count loud +
        (Line.options arguments).count verboseOption := by
  induction arguments using Line.induction with
  | nil => exact ⟨rfl, rfl, rfl⟩
  | separator rest =>
    rw [ofArguments_separator, Line.options_separator, Line.operands_separator]
    refine ⟨?_, ?_, ?_⟩
    · simp [List.filterMap_map, Function.comp_def]
    · simp [List.count_eq_zero]
    · simp [List.count_eq_zero]
  | option argument rest isOption proper ih =>
    rw [Line.options_of_isOption isOption proper, List.forall_mem_cons] at known
    obtain ⟨operands, json, verbose⟩ := ih known.2
    rw [ofArguments_cons proper, Line.options_of_isOption isOption proper,
      Line.operands_of_isOption isOption proper]
    -- A known option adds nothing to the operands, and to each count what it asks for itself.
    refine ⟨?_, ?_, ?_⟩
    · rw [List.filterMap_append, filterMap_operand?_of_known known.1, operands, List.nil_append]
    · rw [List.count_append, count_json_of_known known.1, json, List.count_cons]
      simp only [beq_iff_eq]
      omega
    · rw [List.count_append, count_verbose_of_known known.1, verbose, List.count_cons,
        List.filter_cons]
      by_cases isCluster : IsCluster argument
      · simp only [isCluster, decide_true, if_true, List.flatten_cons, List.count_append,
          beq_iff_eq]
        omega
      · simp only [isCluster, decide_false, if_false, Bool.false_eq_true, beq_iff_eq]
        omega
  | operand argument rest isOperand ih =>
    rw [Line.options_of_not_isOption isOperand] at known
    obtain ⟨operands, json, verbose⟩ := ih known
    rw [ofArguments_operand isOperand, Line.options_of_not_isOption isOperand,
      Line.operands_of_not_isOption isOperand]
    exact ⟨by simp [operands], by simp [json], by simp [verbose]⟩

/-- The grammar of the lines that are accepted, and what they ask for. -/
structure Line.Asks (arguments : List Bytes) (options : Options) : Prop where
  known : ∀ option ∈ Line.options arguments, IsKnown option
  json_once : (Line.options arguments).count jsonOption ≤ 1
  operands : Line.operands arguments = [options.input.bytes, options.output.bytes]
  input_ne_nil : options.input.bytes ≠ []
  output_ne_nil : options.output.bytes ≠ []
  json : options.json = decide (jsonOption ∈ Line.options arguments)
  /-- Each letter of a cluster counts, and each long option. -/
  verbosity : options.verbosity = min 255
    (((Line.options arguments).filter (IsCluster ·)).flatten.count loud +
      (Line.options arguments).count verboseOption)

theorem Line.Asks.of_perm {others : List Bytes} {options : Options}
    (asks : Line.Asks arguments options)
    (perm : (Line.options others).Perm (Line.options arguments))
    (same : Line.operands others = Line.operands arguments) : Line.Asks others options where
  known option member := asks.known option (perm.mem_iff.mp member)
  json_once := by
    rw [perm.count_eq]
    exact asks.json_once
  operands := same.trans asks.operands
  input_ne_nil := asks.input_ne_nil
  output_ne_nil := asks.output_ne_nil
  json := by
    rw [asks.json, decide_eq_decide]
    exact perm.mem_iff.symm
  verbosity := by
    rw [asks.verbosity, perm.count_eq, (perm.filter _).flatten.count_eq]

theorem toNat_eq_count_iff {asked : Bool} {option : Bytes} {options : List Bytes} :
    asked.toNat = options.count option ↔
      options.count option ≤ 1 ∧ asked = decide (option ∈ options) := by
  have present : decide (option ∈ options) = decide (0 < options.count option) :=
    decide_eq_decide.mpr List.count_pos_iff.symm
  rw [present]
  cases asked with
  | false =>
    rw [Bool.toNat_false, eq_comm (a := false), decide_eq_false_iff_not]
    omega
  | true =>
    rw [Bool.toNat_true, eq_comm (a := true), decide_eq_true_iff]
    omega

theorem accepts_ofArguments_iff {options : Options} :
    Progress.start.Accepts (Token.ofArguments arguments) options ↔
      Line.Asks arguments options := by
  constructor
  · rintro ⟨fits, operands, input_ne_nil, output_ne_nil, json, verbosity⟩
    have known := fits_ofArguments_iff.mp fits
    obtain ⟨sameOperands, sameJson, sameVerbose⟩ := counts_ofArguments known
    have counted : options.json.toNat = (Line.options arguments).count jsonOption := by
      simpa [Progress.start, sameJson] using json
    obtain ⟨once, asked⟩ := toNat_eq_count_iff.mp counted
    refine ⟨known, once, ?_, input_ne_nil, output_ne_nil, asked, ?_⟩
    · simpa [Progress.start, sameOperands] using operands
    · simpa [Progress.start, sameVerbose, verbosityLimit] using verbosity
  · rintro ⟨known, json_once, operands, input_ne_nil, output_ne_nil, json, verbosity⟩
    obtain ⟨sameOperands, sameJson, sameVerbose⟩ := counts_ofArguments known
    have counted := toNat_eq_count_iff.mpr ⟨json_once, json⟩
    refine ⟨fits_ofArguments_iff.mpr known, ?_, input_ne_nil, output_ne_nil, ?_, ?_⟩
    · simpa [Progress.start, sameOperands] using operands
    · simpa [Progress.start, sameJson] using counted
    · simpa [Progress.start, sameVerbose, verbosityLimit] using verbosity

/-- A line is accepted if and only if it is one of the grammar, and it yields what it asks for by
the grammar.  So its options may stand in any order and anywhere in front of the separator, and any
two operands that are not empty may stand behind it. -/
theorem parse_eq_ok_iff_asks :
    (∀ arguments options, Options.parse arguments = .ok options ↔ Line.Asks arguments options) ∧
    (∀ arguments others options, (Line.options others).Perm (Line.options arguments) →
      Line.operands others = Line.operands arguments →
      (Options.parse others = .ok options ↔ Options.parse arguments = .ok options)) ∧
    ∀ input output, input ≠ [] → output ≠ [] →
      Options.parse [Token.separator, input, output] = .ok ⟨⟨input⟩, ⟨output⟩, false, 0⟩ := by
  have grammar (arguments : List Bytes) (options : Options) :
      Options.parse arguments = .ok options ↔ Line.Asks arguments options := by
    rw [← accepts_ofArguments_iff]
    exact Progress.run_eq_ok_iff (Nat.zero_le _) (Nat.zero_le _)
  -- The grammar speaks of options and operands apart, so all else is read off it.
  refine ⟨grammar, fun arguments others options perm same => ?_,
    fun input output filled filledToo => ?_⟩
  · rw [grammar, grammar]
    exact ⟨fun asks => asks.of_perm perm.symm same.symm, fun asks => asks.of_perm perm same⟩
  · rw [grammar]
    have none : Line.options [Token.separator, input, output] = [] :=
      Line.options_separator _
    exact ⟨by simp [none], by simp [none], Line.operands_separator _, filled, filledToo,
      by simp [none], by simp [none]⟩

example : Options.parse [Utf8.encode "-vvv", Utf8.encode "a", Utf8.encode "--json",
    Token.separator, Utf8.encode "-v"] = .ok ⟨.ofText "a", .ofText "-v", true, 3⟩ := by
  decide +kernel

end ElfCarve.Command
