import Offside.Proofs.Compilation.IdleText
import Offside.Proofs.Grammar.Joining
import Offside.Proofs.Resolution.Targets

/-!
Sources parsed in pieces. A source whose first piece has no fault of grammar may be cut before a line at the
base that continues no chain: the pieces parsed one after the other, the second in the scope that the first
one leaves, give the statements, the variables and the faults of the whole.
-/

namespace Offside

def Location.down (count : Nat) (place : Location) : Location := { place with line := place.line + count }

def Diagnostic.down (count : Nat) (problem : Diagnostic) : Diagnostic :=
  { problem with place := problem.place.map (Location.down count) }

def StartsAtBase (source : String) : Prop :=
  ∀ line ∈ (Line.ofPieces 1 (pieces source.toList)).find? (!·.isIdle), line.width = 0

instance (source : String) : Decidable (StartsAtBase source) :=
  inferInstanceAs (Decidable (∀ line ∈ _, _))

def downIn (count : Nat) (source : String) : Relocation where
  move := Location.down count
  renumber number := number + count
  lines := quotedLines source

theorem Line.ofPieces_add (number count : Nat) (texts : List (List Char)) :
    ofPieces (number + count) texts =
      (ofPieces number texts).map fun line => { line with number := line.number + count } := by
  induction count with
  | zero => exact (List.map_id' _).symm
  | succ count ih =>
    rw [← Nat.add_assoc, ofPieces_succ, ih, List.map_map]
    rfl

theorem pieces_of_startsLine {front : List Char} {early : List (List Char)}
    (cut : pieces front = early ++ [[]]) (back : List Char) :
    pieces (front ++ back) = early ++ pieces back := by
  obtain ⟨first, late, more⟩ := exists_pieces_cons back
  rw [pieces_append cut more, more, List.nil_append]

theorem Line.allMove_down (file : String) {first : String} {early : List (List Char)}
    (cut : pieces first.toList = early ++ [[]]) (second : String) :
    AllMove file (downIn early.length (first ++ second)) (ofPieces 1 (pieces second.toList))
      (ofPieces (1 + early.length) (pieces second.toList)) := by
  have quoted : ∀ line ∈ ofPieces 1 (pieces (first ++ second).toList),
      lineAt? (quotedLines (first ++ second)) line.number = some line.quote :=
    fun line member => quoted_of_mem member
  rw [String.toList_append, pieces_of_startsLine cut, ofPieces_append _ _ (pieces_ne_nil _),
    List.forall_mem_append] at quoted
  rw [ofPieces_add] at quoted ⊢
  refine .map _ fun line member => moves_renumbered rfl (fun column => ?_) ?_
  · simp only [downIn, Location.down, Scanner.placeIn, Nat.cast_add]
  · exact quoted.2 _ (List.mem_map_of_mem member)

namespace Scanner

theorem final_down (file : String) (limit : Int) {first : String} {early : List (List Char)}
    (cut : pieces first.toList = early ++ [[]]) (second : String) :
    (ofSource file limit (first ++ second)).final =
      Location.down early.length (ofSource file limit second).final := by
  obtain ⟨rest, last, split⟩ := exists_pieces_concat second.toList
  have whole := pieces_of_startsLine cut second.toList
  rw [split, ← List.append_assoc] at whole
  rw [placeAfter_source, placeAfter_source, String.toList_append, placeAfter_of_pieces file whole,
    placeAfter_of_pieces file split]
  simp only [Location.down, List.length_append, Nat.cast_add, Location.mk.injEq, true_and, and_true]
  omega

theorem mem_frontPulls (file : String) (early : List (List Char)) :
    ∀ pull ∈ frontPulls file [] (Line.ended 1 early),
      pull.token.kind ≠ .endOfInput ∧ pull.token.place.line ≤ early.length := by
  refine forall_mem_frontPulls file [] _ fun line member busy levels pull found => ⟨?_, ?_⟩
  · intro ends
    have none := (isLine_linePulls file levels busy).count_endOfInput
    rw [List.count_eq_zero, Pull.kinds_eq_map, List.map_map] at none
    exact none (List.mem_map.mpr ⟨pull, found, ends⟩)
  · have listed : pull.token.place ∈ (linePulls file levels line).flatMap Pull.places :=
      List.mem_flatMap.mpr ⟨pull, found, List.mem_append_right _ List.mem_cons_self⟩
    obtain ⟨here, -, placed⟩ := mem_places_linePulls levels _ listed
    obtain ⟨-, -, most⟩ := Line.mem_ended member
    rw [placed]
    simp only [placeIn]
    omega

/-- The scan of a whole source by those of its pieces. The blocks of the first piece are closed before the
first line of the second one. -/
theorem exists_joins (file : String) (limit : Int) {first second : String}
    (start : StartsLine first.toList)
    (done : (ofSource file limit first).run.ending = .finished) (base : StartsAtBase second) :
    let count := first.toList.count '\n'
    let relocation := downIn count (first ++ second)
    ∃ front closing seam last, Parse.Joins front closing seam last ∧
      (∀ pull ∈ front, pull.token.place.line ≤ count) ∧
      (ofSource file limit first).run.pulls = front ++ (closing ++ [last]) ∧
      (ofSource file limit (first ++ second)).run.pulls =
        front ++ (seam ++ (ofSource file limit second).run.pulls.map (Pull.relocate relocation)) ∧
      (ofSource file limit (first ++ second)).run.ending =
        (ofSource file limit second).run.ending.relocate relocation := by
  obtain ⟨early, cut, length⟩ := exists_pieces_of_startsLine start
  rw [← length]
  have lines : (ofSource file limit first).lines =
      Line.ended 1 early ++ Line.ofPieces (1 + early.length) [[]] := by
    simp only [ofSource]
    rw [cut, Line.ofPieces_append _ _ (List.cons_ne_nil _ _)]
  have lines' : (ofSource file limit (first ++ second)).lines =
      Line.ended 1 early ++ Line.ofPieces (1 + early.length) (pieces second.toList) := by
    simp only [ofSource]
    rw [String.toList_append, pieces_of_startsLine cut, Line.ofPieces_append _ _ (pieces_ne_nil _)]
  have finished : (runLines (ofSource file limit first) [] (Line.ended 1 early ++
      Line.ofPieces (1 + early.length) [[]])).ending = .finished := by
    rw [← lines]
    exact done
  have blank : ∀ line ∈ (Line.ofPieces (1 + early.length) [[]]).find? (!·.isIdle), line.width = 0 := by
    simp [Line.ofPieces, Line.isIdle]
  have margin : ∀ line ∈ (Line.ofPieces (1 + early.length) (pieces second.toList)).find? (!·.isIdle),
      line.width = 0 := by
    rw [Line.ofPieces_add, List.find?_map]
    intro line found
    obtain ⟨other, first, rfl⟩ := Option.map_eq_some_iff.mp found
    exact base other first
  have within := within_afterAll (Levels.within_nil _) finished
  have positive := ((Levels.stack_increasing_iff _).mp within.increasing).2
  obtain ⟨alone, -⟩ := runLines_append finished (ofSource file limit first) rfl
    (Line.ofPieces (1 + early.length) [[]])
  obtain ⟨joint, ending⟩ := runLines_append finished (ofSource file limit (first ++ second)) rfl
    (Line.ofPieces (1 + early.length) (pieces second.toList))
  obtain ⟨closing, closed, -, closes⟩ :=
    exists_closes_runLines (ofSource file limit first) positive blank
  obtain ⟨seam, sewn, ending', closes'⟩ :=
    exists_closes_runLines (ofSource file limit (first ++ second)) positive margin
  obtain ⟨pulls, ended⟩ := relocate_runLines (ofSource file limit second)
    (ofSource file limit (first ++ second)) rfl rfl (final_down file limit cut second)
    (Line.allMove_down file cut second) []
  have each := mem_frontPulls file early
  refine ⟨frontPulls file [] (Line.ended 1 early), closing, seam,
    ⟨[], ⟨.endOfInput, .none, (ofSource file limit first).final⟩, [], []⟩,
    ⟨frontPulls_ends _ _ _, ⟨_, closes, closes'⟩, ⟨rfl, rfl⟩, fun pull found => (each pull found).1⟩,
    fun pull found => (each pull found).2, ?_, ?_, ?_⟩
  · rw [run, lines]
    exact alone.trans (congrArg _ closed)
  · rw [sewn, pulls] at joint
    rw [run, lines']
    exact joint
  · rw [run, lines']
    exact ending.trans (ending'.trans ended)

end Scanner

namespace Event

/-- The token whose line a fault of the event quotes. -/
def quoted? : Event → Option Token
  | rejected _ token | used token => some token
  | _ => none

theorem resolveAll_congr {lines lines' : List String} {events : List Event}
    (same : ∀ event ∈ events, ∀ token ∈ event.quoted?,
      lineAt? lines token.place.line = lineAt? lines' token.place.line) (scope : Scope) :
    resolveAll lines scope events = resolveAll lines' scope events := by
  induction events generalizing scope with
  | nil => rfl
  | cons event rest ih =>
    rw [List.forall_mem_cons] at same
    have first : event.resolve lines scope = event.resolve lines' scope := by
      cases event with
      | rejected cause token => simp only [resolve, faultAt, same.1 token rfl]
      | used token => simp only [resolve, faultAt, same.1 token rfl]
      | noted | assigned | recovered => rfl
    simp only [resolveAll, first, ih same.2]

theorem resolveAll_of_names (lines : List String) {scope scope' : Scope}
    (names : scope.names = scope'.names) (events : List Event) :
    (resolveAll lines scope events).1 = (resolveAll lines scope' events).1 ∧
      ∃ declared, (resolveAll lines scope events).2.entries = scope.entries ++ declared ∧
        (resolveAll lines scope' events).2.entries = scope'.entries ++ declared := by
  induction events generalizing scope scope' with
  | nil => exact ⟨rfl, [], (List.append_nil _).symm, (List.append_nil _).symm⟩
  | cons event rest ih =>
    have contains (name : String) : scope.contains name = scope'.contains name := by
      rw [Bool.eq_iff_iff, ← Scope.mem_names_iff, ← Scope.mem_names_iff, names]
    obtain ⟨entries, added, first, first'⟩ : ∃ entries added,
        event.resolve lines scope = (entries, ⟨scope.entries ++ added⟩) ∧
          event.resolve lines scope' = (entries, ⟨scope'.entries ++ added⟩) := by
      cases event with
      | noted | rejected | recovered =>
        exact ⟨_, [], by rw [List.append_nil]; rfl, by rw [List.append_nil]; rfl⟩
      | used token =>
        have similar : scope.similar token.payload.shown = scope'.similar token.payload.shown := by
          rw [Scope.similar, Scope.similar, names]
        simp only [resolve, ← contains, ← similar]
        split
        · exact ⟨_, [], by rw [List.append_nil], by rw [List.append_nil]⟩
        · exact ⟨_, [], by rw [List.append_nil], by rw [List.append_nil]⟩
      | assigned token =>
        simp only [resolve, Scope.declare, ← contains]
        split
        · exact ⟨_, [], by rw [List.append_nil], by rw [List.append_nil]⟩
        · exact ⟨_, _, rfl, rfl⟩
    have longer : Scope.names ⟨scope.entries ++ added⟩ = Scope.names ⟨scope'.entries ++ added⟩ := by
      simpa [Scope.names] using names
    obtain ⟨later, declared, after, after'⟩ := ih longer
    simp only [resolveAll, first, first', later, true_and]
    refine ⟨added ++ declared, ?_, ?_⟩
    · rw [after, List.append_assoc]
    · rw [after', List.append_assoc]

/-- Events at other places, resolved in the scope that they were resolved in at their own places. -/
theorem resolveAll_moved (relocation : Relocation) (lines' : List String)
    (quoted : relocation.lines = lines') (lines : List String) (scope : Scope) (events : List Event) :
    (resolveAll lines' scope (events.map (relocate relocation))).1 =
        (resolveAll lines scope events).1.map (Entry.relocate relocation) ∧
      ∃ declared, (resolveAll lines scope events).2.entries = scope.entries ++ declared ∧
        (resolveAll lines' scope (events.map (relocate relocation))).2.entries =
          scope.entries ++ declared.map fun (name, place) => (name, place.map relocation.move) := by
  subst quoted
  obtain ⟨same, moved, entries, entries'⟩ := resolveAll_of_names relocation.lines
    (Scope.names_relocate scope).symm (events.map (relocate relocation))
  obtain ⟨-, declared, after, -⟩ := resolveAll_of_names lines (rfl : scope.names = _) events
  rw [resolveAll_relocate relocation lines] at same entries'
  refine ⟨same, declared, after, ?_⟩
  rw [entries]
  simp only [Scope.relocate, after, List.map_append, List.append_cancel_left_eq] at entries'
  rw [entries']

end Event

namespace Parse

theorem exists_run_end (parse : Parse) (pulls : List Pull) {last : Pull}
    (ends : last.token.kind = .endOfInput) :
    ∃ statements, (parse.run (pulls ++ [last])).1 = ⟨⟨.start, [], statements⟩, []⟩ := by
  obtain ⟨statements, now, reacts⟩ := (parse.run pulls).1.machine.exists_react_end ends
  refine ⟨statements, ?_⟩
  rw [run_concat]
  simp only [step, reacts]

theorem clean_of_faultless {pulls : List Pull} {last : Pull} {lines : List String} {scope : Scope}
    (ends : last.token.kind = .endOfInput)
    (faultless : ∀ problem ∈
      problems (Event.resolveAll lines scope (initial.run (pulls ++ [last])).2).1,
      problem.cause.stage ≠ some .grammatical) :
    Machine.Clean (Machine.initial.drive ((pulls ++ [last]).map Pull.token)).2 := by
  obtain ⟨statements, reached⟩ := initial.exists_run_end pulls ends
  have same := run_events initial (pulls ++ [last])
    (fun _ _ _ _ => rfl : Pull.Omits Event.isFault (pulls ++ [last]))
  rw [reached, List.filter_nil, List.append_nil] at same
  intro event found
  rw [Bool.eq_false_iff]
  intro fault
  have kept : event ∈ (Machine.initial.drive ((pulls ++ [last]).map Pull.token)).2.filter Event.isFault :=
    List.mem_filter.mpr ⟨found, fault⟩
  have listed : event ∈ (initial.run (pulls ++ [last])).2.filter Event.isFault := same ▸ kept
  have sound := Event.isFault_eq_false faultless (List.mem_filter.mp listed).1
  rw [fault] at sound
  cases sound

theorem Joins.line_le {front closing seam : List Pull} {last : Pull}
    (joins : Joins front closing seam last) {bound : Int}
    (within : ∀ pull ∈ front, pull.token.place.line ≤ bound) {event : Event}
    (listed : event ∈ (initial.run (front ++ (closing ++ [last]))).2) (sound : event.isFault = false) :
    ∀ token ∈ event.quoted?, token.place.line ≤ bound := by
  obtain ⟨blocks, closes, -⟩ := joins.closes
  have waiting : ∀ event ∈ initial.deferred, ∃ pull ∈ front ++ (closing ++ [last]),
      event.IsAbout pull.token := List.forall_mem_nil _
  rcases mem_run waiting (fun pull member event about => ⟨pull, member, about⟩) listed with
    ⟨pull, -, entry, -, rfl⟩ | ⟨pull, member, about⟩
  · rintro token ⟨⟩
  · cases event with
    | rejected cause accused =>
      have grammatical := about.2.isGrammatical
      rw [Event.isFault, grammatical] at sound
      cases sound
    | used name =>
      obtain ⟨rfl, isName⟩ := about
      rintro token ⟨⟩
      rw [List.mem_append, List.mem_append, List.mem_singleton] at member
      rcases member with inside | closed | rfl
      · exact within pull inside
      · rw [closes.isDedent closed] at isName
        cases isName
      · rw [joins.last.1] at isName
        cases isName
    | noted | assigned | recovered => rintro token ⟨⟩

end Parse

namespace Parsed

theorem ofPulls_of_finished {scanner : Scanner} (done : scanner.run.ending = .finished) (file : String) :
    ∃ early last, scanner.run.pulls = early ++ [last] ∧ last.token.kind = .endOfInput ∧
      (ofPulls file scanner.run.pulls).statements = (Parse.initial.run scanner.run.pulls).1.statements ∧
      (ofPulls file scanner.run.pulls).events = (Parse.initial.run scanner.run.pulls).2 := by
  obtain ⟨inner, last, tokens, ends, inside, -⟩ := Scanner.exists_tokens_run done
  obtain ⟨early, rest, split, -, single⟩ := List.map_eq_append_iff.mp tokens
  obtain ⟨pull, rfl, rfl⟩ := List.map_eq_singleton_iff.mp single
  refine ⟨early, pull, split, ends, ?_, ?_⟩
  · rw [ofPulls_eq_run file tokens inside ends]
  · rw [ofPulls_eq_run file tokens inside ends]

end Parsed

namespace Parsing

section

variable {file : String} {limit : Int} {source : String}
  (done : (Scanner.ofSource file limit source).run.ending = .finished) (scope : Scope)

include done

theorem result_of_finished : (ofSource file limit scope source).result =
    .ok (Parsed.ofPulls file (Scanner.ofSource file limit source).run.pulls) := by
  rw [ofSource_of_finished done]

theorem journal_of_finished : (ofSource file limit scope source).journal =
    (Event.resolveAll (quotedLines source) scope
      (Parsed.ofPulls file (Scanner.ofSource file limit source).run.pulls).events).1 := by
  rw [ofSource_of_finished done]

theorem scope_of_finished : (ofSource file limit scope source).scope =
    (Event.resolveAll (quotedLines source) scope
      (Parsed.ofPulls file (Scanner.ofSource file limit source).run.pulls).events).2 := by
  rw [ofSource_of_finished done]

end

theorem relocate_eq_down {file : String} {limit : Int} {scope : Scope} {first second : String}
    {early : List (List Char)} (cut : pieces first.toList = early ++ [[]]) {problem : Diagnostic}
    (recorded : problem ∈ problems (ofSource file limit scope second).journal) :
    problem.relocate (downIn early.length (first ++ second)) = problem.down early.length := by
  obtain ⟨place, before, after, piece, into⟩ := exists_pointsInto (List.mem_append_left _ recorded)
  have lines : quotedLines (first ++ second) = early.map quotedLine ++ quotedLines second := by
    rw [quotedLines, String.toList_append, pieces_of_startsLine cut, List.map_append]
    rfl
  have least := into.line.1
  have index : (place.line + early.length - 1).toNat =
      (early.map quotedLine).length + (place.line - 1).toNat := by
    rw [List.length_map]
    omega
  have quoted : lineAt? (quotedLines (first ++ second)) (place.line + early.length) = problem.line := by
    rw [lineAt?, if_pos (by omega), index, lines, into.listed,
      List.getElem?_append_right (Nat.le_add_right _ _), Nat.add_sub_cancel_left]
  simp only [Diagnostic.relocate, Diagnostic.down, into.located, Option.map_some, Option.bind_some, downIn,
    Location.down, quoted]

end Parsing

theorem lineAt?_append {first : String} {early : List (List Char)}
    (cut : pieces first.toList = early ++ [[]]) (second : String) {number : Int}
    (inside : number ≤ early.length) :
    lineAt? (quotedLines first) number = lineAt? (quotedLines (first ++ second)) number := by
  unfold lineAt?
  split
  · have ahead : (number - 1).toNat < (early.map quotedLine).length := by
      rw [List.length_map]
      omega
    rw [quotedLines, quotedLines, String.toList_append, pieces_of_startsLine cut, cut, List.map_append,
      List.map_append, List.getElem?_append_left ahead, List.getElem?_append_left ahead]
  · rfl

/-- Two pieces parsed as one give the statements of both, and what is told comes to the same. -/
theorem Parse.run_append_moved {relocation : Relocation} {front closing seam second : List Pull} {last : Pull}
    (joins : Joins front closing seam last)
    (clean : Machine.Clean (Machine.initial.drive ((front ++ (closing ++ [last])).map Pull.token)).2)
    (opens : ∀ pull ∈ second.head?, pull.token.kind ≠ .elifWord ∧ pull.token.kind ≠ .elseWord)
    (ends : ∃ early final, second = early ++ [final] ∧ final.token.kind = .endOfInput) :
    let joint := initial.run (front ++ (seam ++ second.map (Pull.relocate relocation)))
    let alone := initial.run (front ++ (closing ++ [last]))
    joint.1.statements =
        alone.1.statements ++ (initial.run second).1.statements.map (Stmt.relocate relocation.move) ∧
      Event.Alike joint.2 (alone.2 ++ (initial.run second).2.map (Event.relocate relocation)) := by
  have moved : initial.run (second.map (Pull.relocate relocation)) =
      ((initial.run second).1.relocate relocation, (initial.run second).2.map (Event.relocate relocation)) :=
    relocate_run relocation initial second
  obtain ⟨early, final, split, atEnd⟩ := ends
  obtain ⟨read, reached⟩ := initial.exists_run_end early atEnd
  obtain ⟨next, rest, starts⟩ : ∃ next rest, second = next :: rest :=
    List.exists_cons_of_ne_nil (by rw [split]; exact List.append_ne_nil_of_right_ne_nil _ (by simp))
  have first : next ∈ second.head? := by
    rw [starts]
    rfl
  obtain ⟨noElif, noElse⟩ := opens next first
  obtain ⟨joint, told⟩ := run_joined joins clean (next.relocate relocation) noElif noElse
    (rest.map (Pull.relocate relocation))
  rw [← List.map_cons, ← starts, moved] at joint told
  refine ⟨?_, told⟩
  rw [split, reached] at joint ⊢
  rw [statements, joint]
  simp only [statements, Parse.relocate, Parse.onto, Machine.relocate, Machine.onto, List.map_nil,
    List.reverse_append, List.map_reverse]

theorem Parsed.ofPulls_append {file : String} {limit : Int} {first second : String}
    (start : StartsLine first.toList)
    (done : (Scanner.ofSource file limit first).run.ending = .finished)
    (done' : (Scanner.ofSource file limit second).run.ending = .finished) (base : StartsAtBase second)
    (opens : ∀ token ∈ (Scanner.ofSource file limit second).run.tokens.head?,
      token.kind ≠ .elifWord ∧ token.kind ≠ .elseWord) {lines : List String} {scope : Scope}
    (faultless : ∀ problem ∈ problems (Event.resolveAll lines scope
        (ofPulls file (Scanner.ofSource file limit first).run.pulls).events).1,
      problem.cause.stage ≠ some .grammatical) :
    let count := first.toList.count '\n'
    let relocation := downIn count (first ++ second)
    let early := ofPulls file (Scanner.ofSource file limit first).run.pulls
    let late := ofPulls file (Scanner.ofSource file limit second).run.pulls
    let whole := ofPulls file (Scanner.ofSource file limit (first ++ second)).run.pulls
    (Scanner.ofSource file limit (first ++ second)).run.ending = .finished ∧
      whole.statements = early.statements ++ late.statements.map (Stmt.relocate relocation.move) ∧
      Event.Alike whole.events (early.events ++ late.events.map (Event.relocate relocation)) ∧
      ∀ event ∈ early.events, ∀ token ∈ event.quoted?, token.place.line ≤ count := by
  obtain ⟨front, closing, seam, last, joins, within, pulls, pulls', ending⟩ :=
    Scanner.exists_joins file limit start done base
  rw [done'] at ending
  obtain ⟨-, -, -, -, statements, events⟩ := ofPulls_of_finished done file
  obtain ⟨early, final, split, ends, statements', events'⟩ := ofPulls_of_finished done' file
  obtain ⟨-, -, -, -, statements'', events''⟩ := ofPulls_of_finished ending file
  rw [events, pulls, ← List.append_assoc] at faultless
  have clean := Parse.clean_of_faultless joins.last.1 faultless
  have sound := @Event.isFault_eq_false _ _ _ faultless
  rw [List.append_assoc] at clean sound
  have opens' : ∀ pull ∈ (Scanner.ofSource file limit second).run.pulls.head?,
      pull.token.kind ≠ .elifWord ∧ pull.token.kind ≠ .elseWord := by
    intro pull first
    apply opens
    rw [Scan.tokens, List.head?_map, first]
    rfl
  obtain ⟨together, told⟩ := Parse.run_append_moved joins clean opens' ⟨early, final, split, ends⟩
  rw [← pulls', ← pulls] at together told
  refine ⟨ending, ?_, ?_, ?_⟩
  · rw [statements, statements', statements'']
    exact together
  · rw [events, events', events'']
    exact told
  · rw [events, pulls]
    exact fun event listed => joins.line_le within listed (sound listed)

/-- A source may be parsed in pieces. Where the first piece ends with a line end and has no fault of grammar,
and the first line with content of the second one is at the base and continues no chain, the two pieces
parsed one after the other in one scope give the statements, the variables and the faults of the whole
source, in the same order. What comes from the second piece is as many lines further down as the first one
has. -/
theorem Parsing.pieces_parse_as_one {file : String} {limit : Int} {scope : Scope}
    {first second : String} {before after : Parsed} (start : StartsLine first.toList)
    (firstParsed : (ofSource file limit scope first).result = .ok before)
    (faultless : ∀ problem ∈ problems (ofSource file limit scope first).journal,
      problem.cause.stage ≠ some .grammatical)
    (secondParsed :
      (ofSource file limit (ofSource file limit scope first).scope second).result = .ok after)
    (base : StartsAtBase second)
    (opens : ∀ token ∈ (Scanner.ofSource file limit second).run.tokens.head?,
      token.kind ≠ .elifWord ∧ token.kind ≠ .elseWord) :
    let count := first.toList.count '\n'
    let early := ofSource file limit scope first
    let late := ofSource file limit early.scope second
    let whole := ofSource file limit scope (first ++ second)
    (∃ parsed, whole.result = .ok parsed ∧ parsed.statements =
        before.statements ++ after.statements.map (Stmt.relocate (Location.down count))) ∧
      problems whole.journal =
        problems early.journal ++ (problems late.journal).map (Diagnostic.down count) ∧
      ∃ declared, late.scope.entries = early.scope.entries ++ declared ∧
        whole.scope.entries = early.scope.entries ++
          declared.map fun (name, place) => (name, place.map (Location.down count)) := by
  dsimp only
  obtain ⟨texts, cut, length⟩ := exists_pieces_of_startsLine start
  obtain ⟨done, rfl, -⟩ := ofSource_of_ok firstParsed
  obtain ⟨done', rfl, -⟩ := ofSource_of_ok secondParsed
  rw [journal_of_finished done] at faultless
  obtain ⟨finished, statements, alike, within⟩ :=
    Parsed.ofPulls_append start done done' base opens faultless
  -- The first piece quotes the lines that it has in the whole.
  have same := Event.resolveAll_congr (fun event listed token quoted =>
    lineAt?_append cut second (length ▸ within event listed token quoted)) scope
  obtain ⟨faults, reached⟩ := alike (quotedLines (first ++ second)) scope
  rw [Event.resolveAll_append, ← same, ← scope_of_finished done, ← journal_of_finished done] at faults
  rw [Event.resolveAll_append, ← same, ← scope_of_finished done] at reached
  obtain ⟨moved, declared, added, added'⟩ := Event.resolveAll_moved
    (downIn (first.toList.count '\n') (first ++ second)) (quotedLines (first ++ second)) rfl
    (quotedLines second) (ofSource file limit scope first).scope
    (Parsed.ofPulls file (Scanner.ofSource file limit second).run.pulls).events
  rw [← journal_of_finished done'] at moved
  rw [← scope_of_finished done'] at added
  refine ⟨⟨_, result_of_finished finished scope, statements⟩, ?_, declared, added, ?_⟩
  · rw [journal_of_finished finished, faults, problems_append, moved, problems_relocate]
    refine congrArg (_ ++ ·) (List.map_congr_left fun problem recorded => ?_)
    rw [← length]
    exact relocate_eq_down cut recorded
  · rw [scope_of_finished finished, reached, added']
    rfl

/-- A piece that ends inside a block of a chain, with a variable that was not declared. -/
def openPiece : String := "x = y\nif x:\n  z = x\n"

/-- A piece that starts with a character that starts nothing, with another such variable. -/
def stainedPiece : String := "$w = v\nz = w\n"

theorem Parsing.pieces_parse_as_one_stained :
    let early := ofSource "sample" 1 .empty openPiece
    let late := ofSource "sample" 1 early.scope stainedPiece
    let whole := ofSource "sample" 1 .empty (openPiece ++ stainedPiece)
    (problems early.journal).length = 1 ∧ (problems late.journal).length = 2 ∧
      problems whole.journal =
        problems early.journal ++ (problems late.journal).map (Diagnostic.down 3) ∧
      (∃ parsed, whole.result = .ok parsed ∧ parsed.statements.length = 4) ∧
      ∃ declared, late.scope.entries = early.scope.entries ++ declared ∧
        whole.scope.entries = early.scope.entries ++
          declared.map fun (name, place) => (name, place.map (Location.down 3)) := by
  have done : (Scanner.ofSource "sample" 1 openPiece).run.ending = .finished := by decide +kernel
  have done' : (Scanner.ofSource "sample" 1 stainedPiece).run.ending = .finished := by decide +kernel
  have count : openPiece.toList.count '\n' = 3 := by decide +kernel
  have before : (Parsed.ofPulls "sample" (Scanner.ofSource "sample" 1 openPiece).run.pulls).statements.length
      = 2 := by decide +kernel
  have after :
      (Parsed.ofPulls "sample" (Scanner.ofSource "sample" 1 stainedPiece).run.pulls).statements.length
        = 2 := by decide +kernel
  obtain ⟨⟨parsed, result, statements⟩, faults, scope⟩ := pieces_parse_as_one
    (.inr (by decide +kernel)) (result_of_finished done .empty) (by decide +kernel)
    (result_of_finished done' _) (by decide +kernel) (by decide +kernel)
  rw [count] at statements faults scope
  refine ⟨by decide +kernel, by decide +kernel, faults, ⟨parsed, result, ?_⟩, scope⟩
  rw [statements, List.length_append, List.length_map, before, after]

end Offside
