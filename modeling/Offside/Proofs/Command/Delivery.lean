import Offside.Proofs.Command.Disk
import Offside.Proofs.Compilation.Relocation
import Offside.Proofs.Grammar.Interleaving

/-!
What a run of the command leaves behind. A run takes one of a few courses, which say its exit status,
its standard output and the file it writes; a C program is delivered on the courses without a fault
only, and as a whole.
-/

namespace Offside

theorem Options.ofEnvironment_fst (value : Option String) :
    (ofEnvironment value).1 = { limit := (value.bind positive?).getD 100 } := by
  cases value with
  | none => rfl
  | some written =>
    have unset : positive? "" = none := by decide
    by_cases empty : written = ""
    · subst empty
      simp only [ofEnvironment, reduceIte, Option.bind_some, unset, Option.getD_none]
    · cases given : positive? written with
      | none => simp only [ofEnvironment, empty, reduceIte, given, Option.bind_some, Option.getD_none]
      | some limit =>
        simp only [ofEnvironment, empty, reduceIte, given, Option.bind_some, Option.getD_some]

namespace Request

theorem limit_of_accepted {files : Files} {arguments : Arguments} {request : Request}
    (checked : ofArguments files arguments = .ok request) :
    request.limit = arguments.maxIndent?.bind Text.integer? := by
  simp only [ofArguments] at checked
  split at checked
  next => cases checked
  next sound =>
    cases checked
    cases given : arguments.maxIndent? with
    | none => rfl
    | some written =>
      have options := List.findSome?_eq_none_iff.mp (Option.or_eq_none_iff.mp sound).1
      obtain ⟨option, listed, names⟩ := List.exists_of_findSome?_eq_some given
      have fine : faultOf? files arguments (.maxIndent written) = none := by
        cases option with
        | maxIndent other =>
          cases names
          exact options _ (List.mem_reverse.mp listed)
        | _ => cases names
      simp only [faultOf?, given, Option.bind_some] at fine ⊢
      cases value : Text.integer? written with
      | none => simp [readLimit, value] at fine
      | some number =>
        by_cases positive : 1 ≤ number
        · simp [readLimit, value, positive, Except.toOption]
        · simp [readLimit, value, positive] at fine

/-- How a request is compiled: with the limit it gives, or else with that of the environment, or else
with 100. -/
def options (request : Request) (environment : Option String) : Options :=
  { limit := request.limit.getD ((environment.bind Options.positive?).getD 100) }

def title (request : Request) : String := request.input.getD "<stdin>"

def scan (request : Request) (environment : Option String) (source : String) : Scan :=
  let options := request.options environment
  (Scanner.ofSource (options.nameFor (some request.title)) options.limit source).run

def parsing (request : Request) (environment : Option String) (source : String) : Parsing :=
  let options := request.options environment
  Parsing.ofSource (options.nameFor (some request.title)) options.limit .empty source

/-- The faults that count for a request: where it asks for the tokens, only the lexical ones. -/
def faults (request : Request) (environment : Option String) (source : String) : List Diagnostic :=
  let recorded := problems (request.parsing environment source).journal
  if request.tokens then recorded.filter Diagnostic.isLexical else recorded

def Overflows (request : Request) (environment : Option String) (source : String) : Prop :=
  ∃ problem, (request.scan environment source).ending = .overflow problem

/-- A request for a C program whose bytes are a source that gives one. -/
structure Delivers (request : Request) (environment : Option String) (bytes : ByteArray)
    (source : String) : Prop where
  plain : request.tokens = false ∧ request.ast = false
  decoded : Text.ofBytes bytes = .ok source
  within : ¬ request.Overflows environment source
  clean : request.faults environment source = []

def Aborts (request : Request) (environment : Option String) (bytes : ByteArray) : Prop :=
  ∃ source, Text.ofBytes bytes = .ok source ∧ request.Overflows environment source

def Errs (request : Request) (environment : Option String) (bytes : ByteArray) : Prop :=
  ∃ source, Text.ofBytes bytes = .ok source ∧ ¬ request.Overflows environment source ∧
    request.faults environment source ≠ []

/-- The bytes of a request are no text, or its C program cannot be written. -/
def IsRefused (request : Request) (files : Files) (environment : Option String)
    (bytes : ByteArray) : Prop :=
  (∃ error, Text.ofBytes bytes = .error error) ∨
    ∃ source path, request.Delivers environment bytes source ∧
      request.output.map tidyPath = some path ∧ files.writeProblem? path ≠ none

section

variable {request : Request} {files : Files} {environment : Option String} {bytes : ByteArray}

theorem Errs.not_aborts (errs : request.Errs environment bytes) :
    ¬ request.Aborts environment bytes := by
  obtain ⟨source, decoded, within, -⟩ := errs
  rintro ⟨other, decoded', overflows⟩
  cases Except.ok.inj (decoded.symm.trans decoded')
  exact within overflows

theorem IsRefused.not_aborts (refused : request.IsRefused files environment bytes) :
    ¬ request.Aborts environment bytes := by
  rintro ⟨source, decoded, overflows⟩
  rcases refused with ⟨error, undecoded⟩ | ⟨other, path, delivers, -⟩
  · cases undecoded.symm.trans decoded
  · cases Except.ok.inj (decoded.symm.trans delivers.decoded)
    exact delivers.within overflows

theorem IsRefused.not_errs (refused : request.IsRefused files environment bytes) :
    ¬ request.Errs environment bytes := by
  rintro ⟨source, decoded, -, recorded⟩
  rcases refused with ⟨error, undecoded⟩ | ⟨other, path, delivers, -⟩
  · cases undecoded.symm.trans decoded
  · cases Except.ok.inj (decoded.symm.trans delivers.decoded)
    exact recorded delivers.clean

end

def program (request : Request) (environment : Option String) (source : String) :
    Except Diagnostic String :=
  compileToC (request.options environment) (some request.title) source

end Request

theorem problems_scan {file : String} {limit : Int} {source : String}
    (done : (Scanner.ofSource file limit source).run.ending = .finished) (scope : Scope) :
    problems (Scanner.ofSource file limit source).run.journal =
      (problems (Parsing.ofSource file limit scope source).journal).filter Diagnostic.isLexical := by
  obtain ⟨-, -, entries⟩ := Parsed.ofTokens_run done file
  obtain ⟨-, -, lexical⟩ :=
    Event.resolveAll_spoken (quotedLines source) scope _ (Parsed.staged_events done file)
  rw [Parsing.ofSource_of_finished done, ← entries]
  exact lexical

def IsProgram (text : String) : Prop := ∃ names statements, text = Stmt.cProgram names statements

theorem IsProgram.head? {text : String} (program : IsProgram text) :
    text.toList.head? = some '#' := by
  obtain ⟨names, statements, rfl⟩ := program
  simp [Stmt.cProgram, String.toList_append, String.toList_intercalate]

theorem not_isProgram_empty : ¬ IsProgram "" := fun program => by
  cases program.head?

theorem not_isProgram_tokens (tokens : List Token) : ¬ IsProgram (endLines (tokens.map Token.text)) := by
  intro program
  have head := program.head?
  cases tokens with
  | nil => cases head
  | cons token rest => simp [endLines, Token.text, String.join_cons, String.toList_append] at head

theorem not_isProgram_outline (compilation : Compilation) :
    ¬ IsProgram (endLines [compilation.outline]) := by
  intro program
  have head := program.head?
  simp only [endLines, Compilation.outline, Node.outline, Node.lines, Node.outlineLine,
    List.map_cons, List.map_nil, String.join_cons, String.toList_append, String.toList_intercalate] at head
  generalize Node.linesOfAll 1 (Stmt.nodes compilation.statements) = rest at head
  cases rest with
  | nil => simp [List.intercalate] at head
  | cons line rest => simp [List.intercalate_cons_cons] at head

def Files.unguarded (files : Files) : Files := { files with writeProblem? := fun _ => none }

namespace Command

structure Accepts (files : Files) (args : List String) (arguments : Arguments) (request : Request) :
    Prop where
  read : Arguments.ofList args = .ok arguments
  noNotice : arguments.notice? = none
  checked : Request.ofArguments files arguments = .ok request

theorem Accepts.run_eq {files : Files} {args : List String} {arguments : Arguments}
    {request : Request} (accepts : Accepts files args arguments request) (stdin : ByteArray)
    (environment : Option String) :
    run files stdin environment args =
      perform files environment request (inputBytes files stdin request) := by
  simp only [run, accepts.read, accepts.noNotice, accepts.checked]

/-- The courses that a run can take, each with its exit status, its standard output and the file that
is written. -/
inductive Course (files : Files) (environment : Option String) (request : Request)
    (bytes : ByteArray) : ExitCode → String → Option (String × String) → Prop
  | undecodable {error : Text.Utf8Error} (refused : Text.ofBytes bytes = .error error) :
    Course files environment request bytes .badInput "" none
  | overflow {source : String} (decoded : Text.ofBytes bytes = .ok source)
    (overflows : request.Overflows environment source) :
    Course files environment request bytes .aborted "" none
  | shown {source listing : String} (decoded : Text.ofBytes bytes = .ok source)
    (within : ¬ request.Overflows environment source)
    (listed : request.tokens = true ∨ request.ast = true) (other : ¬ IsProgram listing) :
    Course files environment request bytes
      (if request.faults environment source = [] then .success else .faults) listing none
  | faulty {source : String} (decoded : Text.ofBytes bytes = .ok source)
    (within : ¬ request.Overflows environment source)
    (recorded : request.faults environment source ≠ []) :
    Course files environment request bytes .faults "" none
  | printed {source text : String} (delivers : request.Delivers environment bytes source)
    (program : request.program environment source = .ok text) (target : request.output = none) :
    Course files environment request bytes .success text none
  | refused {source text path : String} (delivers : request.Delivers environment bytes source)
    (program : request.program environment source = .ok text)
    (target : request.output.map tidyPath = some path) (blocked : files.writeProblem? path ≠ none) :
    Course files environment request bytes .badInput "" none
  | written {source text path : String} (delivers : request.Delivers environment bytes source)
    (program : request.program environment source = .ok text)
    (target : request.output.map tidyPath = some path) (writable : files.writeProblem? path = none) :
    Course files environment request bytes .success "" (some (path, text))

theorem exitCode_tooManyLevels {problem : Diagnostic} {limit : Int}
    (deep : problem.cause = .tooManyLevels limit) : (Failure.fault problem).exitCode = .aborted := by
  simp only [Failure.exitCode, deep]

theorem display_eq (request : Request) (log shown : List String) (problems : List Diagnostic) :
    ∃ stderr, display request log shown problems =
      ⟨if problems = [] then .success else .faults, endLines shown, stderr, none⟩ := by
  cases problems with
  | nil => exact ⟨_, rfl⟩
  | cons problem rest => exact ⟨_, rfl⟩

section

variable {environment : Option String} {request : Request} {source : String}

theorem course_tokens (files : Files) {bytes : ByteArray} (decoded : Text.ofBytes bytes = .ok source)
    (tokens : request.tokens = true) (log : List String) :
    let outcome := showTokens request (request.options environment) request.title source log
    Course files environment request bytes outcome.exit outcome.stdout outcome.written := by
  cases ending : (request.scan environment source).ending with
  | overflow problem =>
    have deep := Scanner.cause_of_overflow ending
    have result : (scanSource (request.options environment) (some request.title) source).result =
        .error problem := by
      unfold Request.scan at ending
      simp only [scanSource, ending]
    simp only [showTokens, result, failed, exitCode_tooManyLevels deep]
    exact .overflow decoded ⟨problem, ending⟩
  | finished =>
    have result : (scanSource (request.options environment) (some request.title) source).result =
        .ok ((request.scan environment source).tokens, request.faults environment source) := by
      have journal : request.faults environment source =
          problems (request.scan environment source).journal := by
        rw [Request.faults, if_pos tokens]
        exact (problems_scan ending .empty).symm
      rw [journal]
      unfold Request.scan at ending ⊢
      simp only [scanSource, ending]
    simp only [showTokens, result]
    obtain ⟨stderr, shown⟩ := display_eq request
      (log ++ (scanSource (request.options environment) (some request.title) source).log.map debug)
      ((request.scan environment source).tokens.map Token.text) (request.faults environment source)
    rw [shown]
    refine .shown decoded ?_ (.inl tokens) (not_isProgram_tokens _)
    rintro ⟨problem, overflows⟩
    rw [ending] at overflows
    cases overflows

theorem exists_compilation (tokens : request.tokens = false)
    (done : (request.scan environment source).ending = .finished) :
    ∃ compilation, (compile (request.options environment) (some request.title) source).result =
        .ok compilation ∧ compilation.problems = request.faults environment source := by
  rw [compile_of_finished done]
  refine ⟨_, rfl, ?_⟩
  simp only [Request.faults, tokens, Bool.false_eq_true, if_false, Request.parsing,
    Parsing.ofSource_of_finished done]

theorem program_of_compilation {compilation : Compilation}
    (compiled : (compile (request.options environment) (some request.title) source).result =
      .ok compilation) (clean : compilation.problems = []) :
    request.program environment source = .ok compilation.code := by
  have succeeded : compilation.succeeded = true := List.isEmpty_iff.mpr clean
  simp only [Request.program, compileToC, compiled, succeeded, if_true]

theorem isProgram_of_program {text : String}
    (program : request.program environment source = .ok text) : IsProgram text := by
  simp only [Request.program, compileToC] at program
  split at program
  next => cases program
  next compilation _ =>
    split at program
    next succeeded =>
      cases program
      exact ⟨compilation.names, compilation.statements, by rw [Compilation.code, if_pos succeeded]⟩
    next => cases program

theorem course_deliver {files : Files} {bytes : ByteArray} {compilation : Compilation}
    (delivers : request.Delivers environment bytes source)
    (compiled : (compile (request.options environment) (some request.title) source).result =
      .ok compilation) (clean : compilation.problems = []) (log : List String) :
    let outcome := deliver files request compilation log
    Course files environment request bytes outcome.exit outcome.stdout outcome.written := by
  have program := program_of_compilation compiled clean
  cases target : request.output.map tidyPath with
  | none =>
    simp only [deliver, target]
    exact .printed delivers program (Option.map_eq_none_iff.mp target)
  | some path =>
    cases problem : files.writeProblem? path with
    | none =>
      simp only [deliver, target, problem]
      exact .written delivers program target problem
    | some problem' =>
      simp only [deliver, target, problem, failed, Failure.ofFile, Failure.exitCode]
      exact .refused delivers program target (by simp [problem])

theorem course_compilation (files : Files) {bytes : ByteArray}
    (decoded : Text.ofBytes bytes = .ok source) (tokens : request.tokens = false)
    (log : List String) :
    let outcome := showCompilation files request (request.options environment) request.title source log
    Course files environment request bytes outcome.exit outcome.stdout outcome.written := by
  cases ending : (request.scan environment source).ending with
  | overflow problem =>
    have deep := Scanner.cause_of_overflow ending
    simp only [showCompilation, compile_of_overflow ending, failed, exitCode_tooManyLevels deep]
    exact .overflow decoded ⟨problem, ending⟩
  | finished =>
    have within : ¬ request.Overflows environment source := by
      rintro ⟨problem, overflows⟩
      rw [ending] at overflows
      cases overflows
    obtain ⟨compilation, compiled, recorded⟩ := exists_compilation tokens ending
    simp only [showCompilation, compiled]
    split
    next ast =>
      obtain ⟨stderr, shown⟩ := display_eq request
        (log ++ (compile (request.options environment) (some request.title) source).log.map debug)
        [compilation.outline] compilation.problems
      rw [shown, recorded]
      exact .shown decoded within (.inr ast) (not_isProgram_outline compilation)
    next ast =>
      split
      next succeeded =>
        have clean := List.isEmpty_iff.mp succeeded
        have delivers : request.Delivers environment bytes source :=
          ⟨⟨tokens, by simpa using ast⟩, decoded, within, recorded.symm.trans clean⟩
        exact course_deliver delivers compiled clean _
      next failed =>
        have faulty : compilation.problems ≠ [] := fun clean => failed (List.isEmpty_iff.mpr clean)
        obtain ⟨stderr, shown⟩ := display_eq request
          (log ++ (compile (request.options environment) (some request.title) source).log.map debug)
          [] compilation.problems
        rw [shown, if_neg faulty]
        exact .faulty decoded within (recorded ▸ faulty)

end

theorem course_perform (files : Files) (environment : Option String) (request : Request)
    (bytes : ByteArray) :
    let outcome := perform files environment request bytes
    Course files environment request bytes outcome.exit outcome.stdout outcome.written := by
  have same : ({ (Options.ofEnvironment environment).1 with
      limit := request.limit.getD (Options.ofEnvironment environment).1.limit } : Options) =
      request.options environment := by
    rw [Options.ofEnvironment_fst]
    rfl
  cases decoded : Text.ofBytes bytes with
  | error error =>
    simp only [perform, decoded, failed, Failure.exitCode]
    exact .undecodable decoded
  | ok source =>
    simp only [perform, decoded, same]
    cases tokens : request.tokens with
    | true => exact course_tokens files decoded tokens _
    | false => exact course_compilation files decoded tokens _

namespace Course

variable {files : Files} {environment : Option String} {request : Request} {bytes : ByteArray}
  {exit : ExitCode} {stdout : String} {result : Option (String × String)}

/-- A run takes one course only: where a program is delivered, it is printed, refused or written. -/
theorem of_delivers (course : Course files environment request bytes exit stdout result)
    {source text : String} (delivers : request.Delivers environment bytes source)
    (program : request.program environment source = .ok text) :
    (request.output = none ∧ exit = .success ∧ stdout = text ∧ result = none) ∨
      ∃ path, request.output.map tidyPath = some path ∧ stdout = "" ∧
        ((files.writeProblem? path ≠ none ∧ exit = .badInput ∧ result = none) ∨
          (files.writeProblem? path = none ∧ exit = .success ∧ result = some (path, text))) := by
  have same {other : String} (decoded : Text.ofBytes bytes = .ok other) : other = source :=
    Except.ok.inj (decoded.symm.trans delivers.decoded)
  cases course with
  | undecodable refused => cases refused.symm.trans delivers.decoded
  | overflow decoded overflows => exact (delivers.within (same decoded ▸ overflows)).elim
  | shown decoded within listed other =>
    simp only [delivers.plain, Bool.false_eq_true, or_self] at listed
  | faulty decoded within recorded => exact (recorded (same decoded ▸ delivers.clean)).elim
  | printed other program' target =>
    cases same other.decoded
    exact .inl ⟨target, rfl, Except.ok.inj (program'.symm.trans program), rfl⟩
  | refused other program' target blocked =>
    exact .inr ⟨_, target, rfl, .inl ⟨blocked, rfl, rfl⟩⟩
  | written other program' target writable =>
    cases same other.decoded
    cases Except.ok.inj (program'.symm.trans program)
    exact .inr ⟨_, target, rfl, .inr ⟨writable, rfl, rfl⟩⟩

theorem written_iff (course : Course files environment request bytes exit stdout result)
    (path text : String) :
    result = some (path, text) ↔
      (request.output.map tidyPath = some path ∧ ∃ source, request.Delivers environment bytes source ∧
        request.program environment source = .ok text) ∧ files.writeProblem? path = none := by
  constructor
  · rintro rfl
    cases course with
    | written delivers program target writable => exact ⟨⟨target, _, delivers, program⟩, writable⟩
  · rintro ⟨⟨target, source, delivers, program⟩, writable⟩
    rcases course.of_delivers delivers program with
      ⟨none, -⟩ | ⟨other, target', -, ⟨blocked, -⟩ | ⟨-, -, written⟩⟩
    · simp only [none, Option.map_none, reduceCtorEq] at target
    · cases target.symm.trans target'
      exact (blocked writable).elim
    · cases target.symm.trans target'
      exact written

theorem isProgram_iff (course : Course files environment request bytes exit stdout result)
    (text : String) :
    stdout = text ∧ IsProgram text ↔
      request.output = none ∧ ∃ source, request.Delivers environment bytes source ∧
        request.program environment source = .ok text := by
  constructor
  · rintro ⟨rfl, isProgram⟩
    cases course with
    | printed delivers program target => exact ⟨target, _, delivers, program⟩
    | shown _ _ _ other => exact (other isProgram).elim
    | _ => exact (not_isProgram_empty isProgram).elim
  · rintro ⟨target, source, delivers, program⟩
    rcases course.of_delivers delivers program with ⟨-, -, same, -⟩ | ⟨path, named, -⟩
    · exact ⟨same, isProgram_of_program program⟩
    · simp only [target, Option.map_none, reduceCtorEq] at named

theorem not_refused_of_success (course : Course files environment request bytes exit stdout result)
    (success : exit = .success) :
    ¬ request.Aborts environment bytes ∧ ¬ request.Errs environment bytes ∧
      ¬ request.IsRefused files environment bytes := by
  have quiet {source : String} (decoded : Text.ofBytes bytes = .ok source)
      (within : ¬ request.Overflows environment source)
      (clean : request.faults environment source = [])
      (free : ∀ path, request.Delivers environment bytes source →
        request.output.map tidyPath = some path → files.writeProblem? path = none) :
      ¬ request.Aborts environment bytes ∧ ¬ request.Errs environment bytes ∧
        ¬ request.IsRefused files environment bytes := by
    have same {other : String} (decoded' : Text.ofBytes bytes = .ok other) : other = source :=
      Except.ok.inj (decoded'.symm.trans decoded)
    refine ⟨?_, ?_, ?_⟩
    · rintro ⟨other, decoded', overflows⟩
      exact within (same decoded' ▸ overflows)
    · rintro ⟨other, decoded', -, recorded⟩
      exact recorded (same decoded' ▸ clean)
    · rintro (⟨error, undecoded⟩ | ⟨other, path, delivers, target, blocked⟩)
      · cases undecoded.symm.trans decoded
      · exact blocked (free path (same delivers.decoded ▸ delivers) target)
  cases course with
  | shown decoded within listed =>
    refine quiet decoded within ?_ fun path delivers => ?_
    · by_contra recorded
      rw [if_neg recorded] at success
      cases success
    · simp only [delivers.plain, Bool.false_eq_true, or_self] at listed
  | printed delivers _ target =>
    refine quiet delivers.decoded delivers.within delivers.clean fun path _ named => ?_
    simp only [target, Option.map_none, reduceCtorEq] at named
  | written delivers _ target writable =>
    refine quiet delivers.decoded delivers.within delivers.clean fun path _ named => ?_
    cases target.symm.trans named
    exact writable
  | _ => cases success

/-- The exit status tells the courses apart. -/
theorem exit_cases (course : Course files environment request bytes exit stdout result) :
    (exit = .aborted ∧ request.Aborts environment bytes) ∨
      (exit = .faults ∧ request.Errs environment bytes) ∨
      (exit = .badInput ∧ request.IsRefused files environment bytes) ∨
      (exit = .success ∧ ¬ request.Aborts environment bytes ∧ ¬ request.Errs environment bytes ∧
        ¬ request.IsRefused files environment bytes) := by
  by_cases success : exit = .success
  · exact .inr (.inr (.inr ⟨success, course.not_refused_of_success success⟩))
  · cases course with
    | undecodable refused => exact .inr (.inr (.inl ⟨rfl, .inl ⟨_, refused⟩⟩))
    | overflow decoded overflows => exact .inl ⟨rfl, _, decoded, overflows⟩
    | shown decoded within =>
      split at success
      next => exact (success rfl).elim
      next recorded =>
        rw [if_neg recorded]
        exact .inr (.inl ⟨rfl, _, decoded, within, recorded⟩)
    | faulty decoded within recorded => exact .inr (.inl ⟨rfl, _, decoded, within, recorded⟩)
    | refused delivers program target blocked =>
      exact .inr (.inr (.inl ⟨rfl, .inr ⟨_, _, delivers, target, blocked⟩⟩))
    | printed | written => exact (success rfl).elim

theorem number_iff (course : Course files environment request bytes exit stdout result) :
    (exit.number = 4 ↔ request.Aborts environment bytes) ∧
      (exit.number = 1 ↔ request.Errs environment bytes) ∧
      (exit.number = 2 ↔ request.IsRefused files environment bytes) ∧
      (exit.number = 0 ↔ ¬ request.Aborts environment bytes ∧ ¬ request.Errs environment bytes ∧
        ¬ request.IsRefused files environment bytes) ∧
      exit.number ∈ [0, 1, 2, 4] := by
  rcases course.exit_cases with
    ⟨rfl, aborts⟩ | ⟨rfl, errs⟩ | ⟨rfl, refused⟩ | ⟨rfl, noAborts, noErrs, noRefusal⟩
  · have noErrs : ¬ request.Errs environment bytes := fun errs => errs.not_aborts aborts
    have noRefusal : ¬ request.IsRefused files environment bytes := fun refused =>
      refused.not_aborts aborts
    simp [ExitCode.number, aborts, noErrs, noRefusal]
  · have noRefusal : ¬ request.IsRefused files environment bytes := fun refused =>
      refused.not_errs errs
    simp [ExitCode.number, errs, errs.not_aborts, noRefusal]
  · simp [ExitCode.number, refused, refused.not_aborts, refused.not_errs]
  · simp [ExitCode.number, noAborts, noErrs, noRefusal]

end Course

theorem exists_program {environment : Option String} {request : Request} {bytes : ByteArray}
    {source : String} (delivers : request.Delivers environment bytes source) :
    ∃ text, request.program environment source = .ok text := by
  cases ending : (request.scan environment source).ending with
  | overflow problem => exact (delivers.within ⟨problem, ending⟩).elim
  | finished =>
    obtain ⟨compilation, compiled, recorded⟩ := exists_compilation delivers.plain.1 ending
    exact ⟨_, program_of_compilation compiled (recorded.trans delivers.clean)⟩

def Attempts (files : Files) (stdin : ByteArray) (environment : Option String) (args : List String)
    (path text : String) : Prop :=
  (run files.unguarded stdin environment args).written = some (path, text)

section

variable {files : Files} {args : List String} {arguments : Arguments} {request : Request}

theorem Accepts.course (accepts : Accepts files args arguments request) (stdin : ByteArray)
    (environment : Option String) :
    let outcome := run files stdin environment args
    Course files environment request (inputBytes files stdin request) outcome.exit outcome.stdout
      outcome.written := by
  rw [accepts.run_eq]
  exact course_perform files environment request _

theorem Accepts.attempts_iff (accepts : Accepts files args arguments request) (stdin : ByteArray)
    (environment : Option String) (path text : String) :
    Attempts files stdin environment args path text ↔
      request.output.map tidyPath = some path ∧
        ∃ source, request.Delivers environment (inputBytes files stdin request) source ∧
          request.program environment source = .ok text := by
  have unguarded : Accepts files.unguarded args arguments request :=
    ⟨accepts.read, accepts.noNotice, accepts.checked⟩
  have course := (unguarded.course stdin environment).written_iff path text
  exact course.trans (and_iff_left rfl)

theorem Accepts.isRefused_iff (accepts : Accepts files args arguments request) (stdin : ByteArray)
    (environment : Option String) :
    request.IsRefused files environment (inputBytes files stdin request) ↔
      (∃ error, Text.ofBytes (inputBytes files stdin request) = .error error) ∨
        ∃ path text, Attempts files stdin environment args path text ∧
          files.writeProblem? path ≠ none := by
  simp only [accepts.attempts_iff]
  refine or_congr_right ⟨?_, ?_⟩
  · rintro ⟨source, path, delivers, target, blocked⟩
    obtain ⟨text, program⟩ := exists_program delivers
    exact ⟨path, text, ⟨target, source, delivers, program⟩, blocked⟩
  · rintro ⟨path, text, ⟨target, source, delivers, -⟩, blocked⟩
    exact ⟨source, path, delivers, target, blocked⟩

end

end Command

namespace Request

def plain (request : Request) : Request := { request with tokens := false, ast := false }

/-- Listing the tokens passes wherever the same request without a listing passes or finds no lexical
fault. -/
theorem not_refused_of_plain {request : Request} {files : Files} {environment : Option String}
    {bytes : ByteArray} (tokens : request.tokens = true)
    (decoded : ∀ error, Text.ofBytes bytes ≠ .error error)
    (within : ¬ request.plain.Aborts environment bytes)
    (others : ∀ source, Text.ofBytes bytes = .ok source →
      ∀ problem ∈ request.plain.faults environment source, problem.isLexical = false) :
    ¬ request.Aborts environment bytes ∧ ¬ request.Errs environment bytes ∧
      ¬ request.IsRefused files environment bytes := by
  refine ⟨within, ?_, ?_⟩
  · rintro ⟨source, read, -, recorded⟩
    refine recorded ?_
    have faults : request.faults environment source =
        (request.plain.faults environment source).filter Diagnostic.isLexical := by
      rw [faults, if_pos tokens]
      rfl
    rw [faults, List.filter_eq_nil_iff]
    intro problem listed
    simp only [others source read problem listed, Bool.false_eq_true, not_false_eq_true]
  · rintro (⟨error, undecoded⟩ | ⟨source, path, delivers, -⟩)
    · exact decoded error undecoded
    · rw [delivers.plain.1] at tokens
      cases tokens

end Request

namespace Command

/-- The command leaves no partial output. On arguments that are accepted it tries to write its output
file exactly where neither listing is asked for, the input is text, its blocks are within the limit and
no fault is recorded; the text is then the C program of the source, and so is standard output where no
file is named. Nothing else on the disk changes. The exit status is 4 where the blocks exceed the
limit, 1 where a fault that counts is recorded, 2 where the input is no text or the file cannot be
written, and 0 otherwise; listing the tokens passes where the same request without a listing passes or
reports no lexical fault. -/
theorem output_is_whole_or_absent {files : Files} {args : List String} {arguments : Arguments}
    {request : Request} (accepts : Accepts files args arguments request) (stdin : ByteArray)
    (environment : Option String) :
    let outcome := run files stdin environment args
    let bytes := inputBytes files stdin request
    (request.options environment).limit = (arguments.maxIndent?.bind Text.integer?).getD
        ((environment.bind Options.positive?).getD 100) ∧
      (∀ source, request.Delivers environment bytes source →
        ∃ text, request.program environment source = .ok text) ∧
      (∀ path text, Attempts files stdin environment args path text ↔
        request.output.map tidyPath = some path ∧ ∃ source,
          request.Delivers environment bytes source ∧ request.program environment source = .ok text) ∧
      (∀ path text, outcome.written = some (path, text) ↔
        Attempts files stdin environment args path text ∧ files.writeProblem? path = none) ∧
      (∀ text, outcome.stdout = text ∧ IsProgram text ↔ request.output = none ∧ ∃ source,
        request.Delivers environment bytes source ∧ request.program environment source = .ok text) ∧
      (∀ disk : Disk, files = disk.files →
        (outcome.written = none → disk.after outcome = disk) ∧
          ∀ path text, outcome.written = some (path, text) →
            (disk.after outcome).read path = .ok text.toUTF8 ∧
              ∀ names, disk.place path ≠ .ok names →
                (disk.after outcome).item? names = disk.item? names) ∧
      (outcome.exit.number = 4 ↔ request.Aborts environment bytes) ∧
      (outcome.exit.number = 1 ↔ request.Errs environment bytes) ∧
      (outcome.exit.number = 2 ↔ (∃ error, Text.ofBytes bytes = .error error) ∨
        ∃ path text, Attempts files stdin environment args path text ∧
          files.writeProblem? path ≠ none) ∧
      outcome.exit.number ∈ [0, 1, 2, 4] ∧
      ∀ {plainArgs : List String} {plainArguments : Arguments},
        Accepts files plainArgs plainArguments request.plain → request.tokens = true →
        let plain := run files stdin environment plainArgs
        plain.exit.number = 0 ∨ (plain.exit.number = 1 ∧ ∀ source, Text.ofBytes bytes = .ok source →
          ∀ problem ∈ request.plain.faults environment source, problem.isLexical = false) →
        outcome.exit.number = 0 := by
  intro outcome bytes
  have course := accepts.course stdin environment
  have attempts := accepts.attempts_iff stdin environment
  have written : ∀ path text, outcome.written = some (path, text) ↔
      Attempts files stdin environment args path text ∧ files.writeProblem? path = none := by
    intro path text
    rw [attempts]
    exact course.written_iff path text
  obtain ⟨aborted, faulty, refused, passed, known⟩ := course.number_iff
  refine ⟨?_, fun source => exists_program, attempts, written, course.isProgram_iff, ?_, aborted,
    faulty, refused.trans (accepts.isRefused_iff stdin environment), ?_, ?_⟩
  · rw [Request.options, Request.limit_of_accepted accepts.checked]
  · rintro disk rfl
    exact disk.after_spec outcome fun path text found => ((written path text).mp found).2
  · exact known
  · intro plainArgs plainArguments accepted tokens plain passes
    obtain ⟨-, plainFaulty, -, plainPassed, -⟩ := (accepted.course stdin environment).number_iff
    rw [passed]
    rcases passes with success | ⟨faults, others⟩
    · obtain ⟨within, noErrs, noRefusal⟩ := plainPassed.mp success
      refine Request.not_refused_of_plain tokens (fun error undecoded => noRefusal (.inl ⟨error, undecoded⟩))
        within fun source read problem recorded => ?_
      have clean : request.plain.faults environment source = [] := by
        by_contra some
        exact noErrs ⟨source, read, fun overflows => within ⟨source, read, overflows⟩, some⟩
      rw [clean] at recorded
      cases recorded
    · have errs := plainFaulty.mp faults
      refine Request.not_refused_of_plain tokens ?_ errs.not_aborts others
      intro error undecoded
      obtain ⟨source, read, -⟩ := errs
      cases undecoded.symm.trans read

/-- A program that reads a variable without a value, beside an older output. -/
def draftDisk : Disk := ⟨[(["draft.mpy"], .file "x = y\n".toUTF8), (["out.c"], .file "old".toUTF8)]⟩

def draftRequest : Request := ⟨some "draft.mpy", some "out.c", true, false, false, some 7⟩

theorem output_is_whole_or_absent_draft :
    let listing := run draftDisk.files ByteArray.empty (some "5")
      ["--tokens", "-oout.c", "--max-indent=7", "draft.mpy"]
    let plain := run draftDisk.files ByteArray.empty (some "5") ["-oout.c", "--max-indent=7", "draft.mpy"]
    plain.exit.number = 1 ∧ listing.exit.number = 0 ∧ draftDisk.after plain = draftDisk ∧
      (draftRequest.options (some "5")).limit = 7 := by
  have listing : Accepts draftDisk.files ["--tokens", "-oout.c", "--max-indent=7", "draft.mpy"]
      ⟨[.tokens, .output "out.c", .maxIndent "7"], ["draft.mpy"]⟩ draftRequest :=
    ⟨by decide +kernel, by decide +kernel, by decide +kernel⟩
  have plain : Accepts draftDisk.files ["-oout.c", "--max-indent=7", "draft.mpy"]
      ⟨[.output "out.c", .maxIndent "7"], ["draft.mpy"]⟩ draftRequest.plain :=
    ⟨by decide +kernel, by decide +kernel, by decide +kernel⟩
  have fails : (run draftDisk.files ByteArray.empty (some "5")
      ["-oout.c", "--max-indent=7", "draft.mpy"]).exit.number = 1 := by decide +kernel
  have read : Text.ofBytes (inputBytes draftDisk.files ByteArray.empty draftRequest) =
      .ok "x = y\n" := by decide +kernel
  obtain ⟨limit, -, -, -, -, -, -, -, -, -, passes⟩ :=
    output_is_whole_or_absent listing ByteArray.empty (some "5")
  obtain ⟨-, -, -, -, -, disk, -⟩ := output_is_whole_or_absent plain ByteArray.empty (some "5")
  refine ⟨fails, passes plain rfl (.inr ⟨fails, ?_⟩), (disk draftDisk rfl).1 ?_, ?_⟩
  · intro source decoded
    cases read.symm.trans decoded
    decide +kernel
  · decide +kernel
  · rw [limit]
    decide +kernel

end Command

end Offside
