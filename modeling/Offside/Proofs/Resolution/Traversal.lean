import Offside.Proofs.Grammar.Interleaving
import Offside.Proofs.Resolution.Mentions

/-!
Names are looked up while tokens are parsed. The result is the same as that of going through the
finished program from left to right, and the variables declared in the end are the old ones and then
the assigned ones, each at its first assignment.
-/

namespace Offside

def Expr.undefined (lines : List String) (scope : Scope) : Expr → List Diagnostic
  | literal _ _ => []
  | name text place =>
    if scope.contains text then []
    else [⟨.undefinedVariable text (scope.similar text), some place, lineAt? lines place.line⟩]
  | unary _ operand _ => operand.undefined lines scope
  | binary _ left right => left.undefined lines scope ++ right.undefined lines scope
  | group inner _ => inner.undefined lines scope

namespace Stmt

mutual

/-- Goes through a statement from left to right: which variables it reads before they are declared,
and the variables declared after it. -/
def traverse (lines : List String) (scope : Scope) : Stmt → List Diagnostic × Scope
  | assign target value place => (value.undefined lines scope, scope.declare target (some place))
  | choose arms _ => traverseArms lines scope arms
  | loop condition body _ =>
    let (faults, after) := traverseAll lines scope body
    (condition.undefined lines scope ++ faults, after)
  | leave _ => ([], scope)

def traverseAll (lines : List String) (scope : Scope) : List Stmt → List Diagnostic × Scope
  | [] => ([], scope)
  | first :: rest =>
    let (faults, after) := first.traverse lines scope
    let (others, final) := traverseAll lines after rest
    (faults ++ others, final)

def traverseArms (lines : List String) (scope : Scope) : Arms Expr Stmt → List Diagnostic × Scope
  | .done => ([], scope)
  | .otherwise body => traverseAll lines scope body
  | .arm guard body rest =>
    let (faults, after) := traverseAll lines scope body
    let (others, final) := traverseArms lines after rest
    (guard.undefined lines scope ++ faults ++ others, final)

end

end Stmt

namespace Mention

def assignment? : Mention → Option (String × Location)
  | assigned name place => some (name, place)
  | read _ _ => none

def resolve (lines : List String) (scope : Scope) : Mention → List Diagnostic × Scope
  | read name place => ((Expr.name name place).undefined lines scope, scope)
  | assigned name place => ([], scope.declare name (some place))

def resolveAll (lines : List String) (scope : Scope) : List Mention → List Diagnostic × Scope
  | [] => ([], scope)
  | mention :: rest =>
    let (faults, after) := mention.resolve lines scope
    let (others, final) := resolveAll lines after rest
    (faults ++ others, final)

theorem resolveAll_append (lines : List String) (scope : Scope) (front back : List Mention) :
    resolveAll lines scope (front ++ back) =
      ((resolveAll lines scope front).1 ++
          (resolveAll lines (resolveAll lines scope front).2 back).1,
        (resolveAll lines (resolveAll lines scope front).2 back).2) := by
  induction front generalizing scope with
  | nil => rfl
  | cons mention rest ih => simp only [List.cons_append, resolveAll, ih, List.append_assoc]

theorem resolveAll_assigned (lines : List String) (scope : Scope) (name : String) (place : Location) :
    resolveAll lines scope [assigned name place] = ([], scope.declare name (some place)) := rfl

end Mention

theorem Expr.resolveAll_mentions (lines : List String) (scope : Scope) (expr : Expr) :
    Mention.resolveAll lines scope expr.mentions = (expr.undefined lines scope, scope) := by
  induction expr with
  | literal value place => rfl
  | name text place =>
    simp only [mentions, Mention.resolveAll, Mention.resolve, List.append_nil]
  | unary op operand place ih => exact ih
  | binary op left right leftIh rightIh =>
    simp only [mentions, Mention.resolveAll_append, leftIh, rightIh, undefined]
  | group inner place ih => exact ih

namespace Stmt

mutual

/-- Going through a statement is resolving its mentions one after the other. -/
theorem resolveAll_mentions (lines : List String) (scope : Scope) :
    (stmt : Stmt) → Mention.resolveAll lines scope stmt.mentions = stmt.traverse lines scope
  | assign target value place => by
    simp only [mentions, Mention.resolveAll_append, Expr.resolveAll_mentions,
      Mention.resolveAll_assigned, List.append_nil, traverse]
  | choose arms place => by
    simp only [mentions, traverse, resolveAll_mentionsOfArms lines scope arms]
  | loop condition body place => by
    simp only [mentions, Mention.resolveAll_append, Expr.resolveAll_mentions,
      resolveAll_mentionsOfAll lines scope body, traverse]
  | leave place => rfl

theorem resolveAll_mentionsOfAll (lines : List String) (scope : Scope) :
    (stmts : List Stmt) →
      Mention.resolveAll lines scope (mentionsOfAll stmts) = traverseAll lines scope stmts
  | [] => rfl
  | first :: rest => by
    simp only [mentionsOfAll, Mention.resolveAll_append, resolveAll_mentions lines scope first,
      resolveAll_mentionsOfAll lines _ rest, traverseAll]

theorem resolveAll_mentionsOfArms (lines : List String) (scope : Scope) :
    (arms : Arms Expr Stmt) →
      Mention.resolveAll lines scope (mentionsOfArms arms) = traverseArms lines scope arms
  | .done => rfl
  | .otherwise body => resolveAll_mentionsOfAll lines scope body
  | .arm guard body rest => by
    simp only [mentionsOfArms, Mention.resolveAll_append, Expr.resolveAll_mentions,
      resolveAll_mentionsOfAll lines scope body, resolveAll_mentionsOfArms lines _ rest, traverseArms]

end

end Stmt

def Diagnostic.isUndefined (problem : Diagnostic) : Bool :=
  match problem.cause with
  | .undefinedVariable _ _ => true
  | _ => false

theorem Diagnostic.isUndefined_eq_false {problem : Diagnostic}
    (other : problem.cause.stage ≠ some .semantic) : problem.isUndefined = false := by
  unfold isUndefined
  split
  next cause =>
    rw [cause] at other
    exact absurd rfl other
  next => rfl

namespace Event

theorem resolve_mention? (lines : List String) (scope : Scope) {event : Event} (staged : event.IsStaged) :
    (problems (event.resolve lines scope).1).filter Diagnostic.isUndefined =
        (Mention.resolveAll lines scope event.mention?.toList).1 ∧
      (event.resolve lines scope).2 = (Mention.resolveAll lines scope event.mention?.toList).2 := by
  cases event with
  | noted entry =>
    refine ⟨?_, rfl⟩
    rw [List.filter_eq_nil_iff.mpr]
    · rfl
    intro problem recorded
    rcases staged.cases with ⟨same, ⟨⟩, lexical⟩ | voiced
    · have stage := lexical problem recorded
      rw [Diagnostic.isLexical, decide_eq_true_eq] at stage
      rw [Diagnostic.isUndefined_eq_false (by rw [stage]; decide)]
      decide
    · exact voiced.elim
  | rejected cause token =>
    have stage : cause.stage = some .grammatical := staged
    refine ⟨?_, rfl⟩
    rw [List.filter_eq_nil_iff.mpr]
    · rfl
    intro problem recorded
    cases List.mem_singleton.mp recorded
    rw [Diagnostic.isUndefined_eq_false (by rw [stage]; decide)]
    decide
  | used token =>
    simp only [resolve, mention?, Option.toList, Mention.resolveAll, Mention.resolve, Expr.undefined,
      List.append_nil]
    by_cases known : scope.contains token.payload.shown = true
    · rw [if_pos known, if_pos known]
      exact ⟨rfl, rfl⟩
    · rw [if_neg known, if_neg known]
      exact ⟨rfl, rfl⟩
  | assigned token =>
    simp only [resolve, mention?, Option.toList, Mention.resolveAll, Mention.resolve, List.append_nil]
    by_cases known : scope.contains token.payload.shown = true
    · rw [if_pos known, Scope.declare, if_pos known]
      exact ⟨rfl, rfl⟩
    · rw [if_neg known]
      exact ⟨rfl, rfl⟩
  | recovered skipped => exact ⟨rfl, rfl⟩

theorem resolveAll_mention? (lines : List String) (scope : Scope) (events : List Event)
    (staged : ∀ event ∈ events, event.IsStaged) :
    (problems (resolveAll lines scope events).1).filter Diagnostic.isUndefined =
        (Mention.resolveAll lines scope (events.filterMap mention?)).1 ∧
      (resolveAll lines scope events).2 =
        (Mention.resolveAll lines scope (events.filterMap mention?)).2 := by
  induction events generalizing scope with
  | nil => exact ⟨rfl, rfl⟩
  | cons event rest ih =>
    rw [List.forall_mem_cons] at staged
    obtain ⟨faults, declared⟩ := event.resolve_mention? lines scope staged.1
    obtain ⟨others, final⟩ := ih (event.resolve lines scope).2 staged.2
    have parted : (event :: rest).filterMap mention? = event.mention?.toList ++ rest.filterMap mention? := by
      cases mention : event.mention? with
      | none => rw [List.filterMap_cons_none mention]; rfl
      | some found => rw [List.filterMap_cons_some mention]; rfl
    simp only [resolveAll, problems_append, List.filter_append, parted, Mention.resolveAll_append]
    rw [← declared, ← faults, others, final]
    exact ⟨rfl, rfl⟩

end Event

def firstAssignments : List (String × Location) → List (String × Location)
  | [] => []
  | first :: rest => first :: (firstAssignments rest).filter (·.1 ≠ first.1)

/-- What is new in a scope after assignments: the names that it lacked, where they were first
assigned. -/
def Scope.newEntries (scope : Scope) (assignments : List (String × Location)) :
    List (String × Option Location) :=
  ((firstAssignments assignments).filter (!scope.contains ·.1)).map fun (name, place) =>
    (name, some place)

namespace Scope

theorem newEntries_of_contains {scope : Scope} {name : String} (known : scope.contains name = true)
    (place : Location) (rest : List (String × Location)) :
    scope.newEntries ((name, place) :: rest) = scope.newEntries rest := by
  have absent : ((!scope.contains (name, place).1) = true) = False := by simp [known]
  simp only [newEntries, firstAssignments, List.filter_cons, absent, ↓reduceIte, List.filter_filter]
  congr 2
  funext other
  by_cases same : other.1 = name
  · simp [same, known]
  · simp [same]

theorem contains_declare (scope : Scope) (name other : String) (place : Option Location) :
    (scope.declare name place).contains other = (scope.contains other || name = other) := by
  unfold declare
  split
  next known =>
    by_cases same : name = other
    · rw [← same, known]; rfl
    · simp [same]
  next => simp only [contains, List.any_append, List.any_cons, List.any_nil, Bool.or_false]

theorem newEntries_of_not_contains {scope : Scope} {name : String}
    (unknown : scope.contains name = false) (place : Location) (rest : List (String × Location)) :
    scope.newEntries ((name, place) :: rest) =
      (name, some place) :: (scope.declare name (some place)).newEntries rest := by
  have present : ((!scope.contains (name, place).1) = true) = True := by simp [unknown]
  simp only [newEntries, firstAssignments, List.filter_cons, present, ↓reduceIte, List.filter_filter,
    List.map_cons]
  congr 3
  funext other
  rw [contains_declare, Bool.not_or, eq_comm]
  by_cases same : other.1 = name
  · simp [same]
  · simp [same, Ne.symm same]

end Scope

theorem Mention.entries_resolveAll (lines : List String) (scope : Scope) (mentions : List Mention) :
    (resolveAll lines scope mentions).2.entries =
      scope.entries ++ scope.newEntries (mentions.filterMap assignment?) := by
  induction mentions generalizing scope with
  | nil => exact (List.append_nil _).symm
  | cons mention rest ih =>
    cases mention with
    | read name place => exact ih scope
    | assigned name place =>
      simp only [resolveAll, resolve, ih, List.filterMap_cons, assignment?]
      cases known : scope.contains name with
      | true =>
        rw [Scope.newEntries_of_contains known, Scope.declare, if_pos known]
      | false =>
        rw [Scope.newEntries_of_not_contains known]
        simp only [Scope.declare, known, Bool.false_eq_true, ↓reduceIte, List.append_assoc,
          List.singleton_append]

theorem Parsing.resolved_by_mentions {file : String} {limit : Int} {scope : Scope} {source : String}
    {parsed : Parsed} (result : (ofSource file limit scope source).result = .ok parsed)
    (faultless : ∀ problem ∈ problems (ofSource file limit scope source).journal,
      problem.cause.stage ≠ some .grammatical) :
    let parsing := ofSource file limit scope source
    let resolved := Mention.resolveAll (quotedLines source) scope (Stmt.mentionsOfAll parsed.statements)
    (problems parsing.journal).filter Diagnostic.isUndefined = resolved.1 ∧
      parsing.scope = resolved.2 := by
  obtain ⟨done, rfl, journal⟩ := ofSource_of_ok result
  have final := congrArg Parsing.scope (ofSource_of_finished done scope)
  rw [journal] at faultless
  obtain ⟨faults, declared⟩ := Event.resolveAll_mention? (quotedLines source) scope _
    (Parsed.staged_events done file)
  rw [Parsed.mentions_of_faultless file _ (quotedLines source) scope faultless] at faults declared
  refine ⟨?_, ?_⟩
  · rw [journal, faults]
  · rw [final, declared]

/-- A source is resolved in a scope as its program is from left to right: the undefined variables are
the same, in the same order, and so are the variables declared afterwards. They are those of the scope
and then the new ones, each where it is first assigned. -/
theorem Parsing.resolution_eq_traversal {file : String} {limit : Int} {scope : Scope} {source : String}
    {parsed : Parsed} (result : (ofSource file limit scope source).result = .ok parsed)
    (faultless : ∀ problem ∈ problems (ofSource file limit scope source).journal,
      problem.cause.stage ≠ some .grammatical) :
    let parsing := ofSource file limit scope source
    (problems parsing.journal).filter Diagnostic.isUndefined =
        (Stmt.traverseAll (quotedLines source) scope parsed.statements).1 ∧
      parsing.scope = (Stmt.traverseAll (quotedLines source) scope parsed.statements).2 ∧
      parsing.scope.entries = scope.entries ++
        scope.newEntries ((Stmt.mentionsOfAll parsed.statements).filterMap Mention.assignment?) := by
  obtain ⟨faults, declared⟩ := resolved_by_mentions result faultless
  refine ⟨?_, ?_, ?_⟩
  · rw [faults, Stmt.resolveAll_mentionsOfAll]
  · rw [declared, Stmt.resolveAll_mentionsOfAll]
  · rw [declared, Mention.entries_resolveAll]

/-- A guard that reads what an earlier arm assigned, and two assignments that read their targets. -/
def branchesSource : String := "if seed < 1:\n  a = b\nelif a < 2:\n  b = b\nc = c + a\n"

theorem Parsing.resolution_eq_traversal_branches :
    let scope : Scope := ⟨[("seed", none)]⟩
    let parsing := ofSource "sample" 100 scope branchesSource
    (∀ problem ∈ problems parsing.journal, problem.cause.stage ≠ some .grammatical) ∧
      (problems parsing.journal).map Diagnostic.cause =
        [.undefinedVariable "b" [], .undefinedVariable "b" ["a"], .undefinedVariable "c" ["a", "b"]] ∧
      ∃ parsed, parsing.result = .ok parsed ∧
        (problems parsing.journal).filter Diagnostic.isUndefined =
          (Stmt.traverseAll (quotedLines branchesSource) scope parsed.statements).1 ∧
        parsing.scope = (Stmt.traverseAll (quotedLines branchesSource) scope parsed.statements).2 ∧
        parsing.scope.entries = scope.entries ++
          scope.newEntries ((Stmt.mentionsOfAll parsed.statements).filterMap Mention.assignment?) := by
  have faultless : ∀ problem ∈ problems (ofSource "sample" 100 ⟨[("seed", none)]⟩ branchesSource).journal,
      problem.cause.stage ≠ some .grammatical := by decide +kernel
  have finished :
      (ofSource "sample" 100 ⟨[("seed", none)]⟩ branchesSource).result.toOption.isSome = true := by
    decide +kernel
  refine ⟨faultless, by decide +kernel, ?_⟩
  cases result : (ofSource "sample" 100 ⟨[("seed", none)]⟩ branchesSource).result with
  | error problem =>
    rw [result] at finished
    cases finished
  | ok parsed => exact ⟨parsed, rfl, resolution_eq_traversal result faultless⟩

end Offside
