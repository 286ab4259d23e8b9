import Offside.Grammar.Parse

/-!
What was read before a program takes no part in its parse. A machine that starts with statements already
read says the same about every token, and keeps those statements beneath all that it reads.
-/

namespace Offside

def Enclosing.ontoAll (base : List Stmt) : List Enclosing → List Enclosing
  | [] => []
  | [block] => [{ block with before := block.before ++ base }]
  | block :: next :: outer => block :: ontoAll base (next :: outer)

namespace Machine

/-- The machine with statements beneath those outside all blocks. The last one comes first. -/
def onto (base : List Stmt) (machine : Machine) : Machine :=
  ⟨machine.mode, Enclosing.ontoAll base machine.enclosing,
    match machine.enclosing with
    | [] => machine.statements ++ base
    | _ :: _ => machine.statements⟩

end Machine

def Reaction.onto (base : List Stmt) (reaction : Reaction) : Reaction :=
  { reaction with machine := reaction.machine.onto base }

namespace Machine

variable (base : List Stmt)

theorem onto_append (machine : Machine) (statement : Stmt) :
    (machine.append statement).onto base = (machine.onto base).append statement := by
  obtain ⟨mode, enclosing, statements⟩ := machine
  cases enclosing <;> rfl

theorem onto_openBlock (machine : Machine) (header : Header) :
    (machine.openBlock header).onto base = (machine.onto base).openBlock header := by
  obtain ⟨mode, enclosing, statements⟩ := machine
  cases enclosing <;> rfl

theorem onto_leaveBlock (outer : Machine) (body : List Stmt) (header : Header) :
    (leaveBlock outer body header).onto base = leaveBlock (outer.onto base) body header := by
  cases header with
  | arm place earlier guard => rfl
  | otherwise place arms => exact onto_append base outer _
  | loop place condition => exact onto_append base outer _
  | stray => rfl

theorem onto_outermost (machine : Machine) :
    (machine.onto base).outermost = machine.outermost ++ base := by
  have last (blocks : List Enclosing) : (Enclosing.ontoAll base blocks).getLast? =
      blocks.getLast?.map fun block => { block with before := block.before ++ base } := by
    fun_induction Enclosing.ontoAll base blocks with
    | case1 => rfl
    | case2 block => rfl
    | case3 block next outer ih =>
      rw [List.getLast?_cons, ih, List.getLast?_cons_cons, List.getLast?_cons]
      rfl
  obtain ⟨mode, enclosing, statements⟩ := machine
  simp only [outermost, onto, last]
  cases enclosing with
  | nil => rfl
  | cons block outer =>
    rw [List.getLast?_cons]
    rfl

theorem onto_ite {condition : Prop} [Decidable condition] {yes no yes' no' : Reaction}
    (same : yes.onto base = yes') (other : no.onto base = no') :
    (if condition then yes else no).onto base = if condition then yes' else no' := by
  rw [apply_ite (Reaction.onto base), same, other]

theorem onto_closeBlock (machine : Machine) (token : Token) :
    (machine.closeBlock token).onto base = (machine.onto base).closeBlock token := by
  obtain ⟨mode, enclosing, statements⟩ := machine
  match enclosing with
  | [] => rfl
  | [block] =>
    exact congrArg (fun machine => Reaction.mk machine [] []) (onto_leaveBlock base _ _ _)
  | block :: next :: outer =>
    exact congrArg (fun machine => Reaction.mk machine [] []) (onto_leaveBlock base _ _ _)

theorem onto_closeAll (machine : Machine) (token : Token) :
    (machine.closeAll token).onto base = (machine.onto base).closeAll token := by
  have events (said : List Event) (blocks : List Enclosing) :
      (Enclosing.ontoAll base blocks).flatMap (fun _ => said) = blocks.flatMap fun _ => said := by
    fun_induction Enclosing.ontoAll base blocks with
    | case1 => rfl
    | case2 block => rfl
    | case3 block next outer ih => 
      rw [List.flatMap_cons, ih]
      rfl
  simp only [closeAll, onto_outermost, Reaction.onto]
  rw [show (machine.onto base).enclosing = Enclosing.ontoAll base machine.enclosing from rfl, events]
  rfl

theorem onto_skip (machine : Machine) (depth : Nat) (skipped : List Token) (token : Token) :
    (machine.skip depth skipped token).onto base = (machine.onto base).skip depth skipped token := by
  unfold skip
  split
  · rw [← onto_closeAll]
    rfl
  · rw [← onto_closeBlock]
    rfl
  all_goals rfl

theorem onto_refuse (machine : Machine) (token : Token) (expected : String) :
    (machine.refuse token expected).onto base = (machine.onto base).refuse token expected := by
  unfold refuse
  rw [← onto_skip]
  rfl

theorem onto_begin (machine : Machine) (token : Token) :
    (machine.begin token).onto base = (machine.onto base).begin token := by
  unfold begin
  split
  case h_5 => exact congrArg (fun machine => Reaction.mk machine _ []) (onto_openBlock base machine .stray)
  case h_7 => exact onto_closeBlock base machine token
  case h_8 => exact onto_closeAll base machine token
  case h_9 => exact onto_refuse base machine token "statement"
  all_goals rfl

theorem onto_conclude (machine : Machine) (expr : Expr) (token : Token) (goal : Goal) :
    (machine.conclude expr token goal).onto base = (machine.onto base).conclude expr token goal := by
  cases goal with
  | value target =>
    exact onto_ite base
      (congrArg (fun machine => Reaction.mk machine [] [.assigned target]) (onto_append base machine _))
      (onto_refuse base machine token _)
  | guard place earlier => exact onto_ite base rfl (onto_refuse base machine token _)
  | condition place => exact onto_ite base rfl (onto_refuse base machine token _)

theorem onto_readExpression (machine : Machine) (goal : Goal) (reading : Reading) (token : Token) :
    (machine.readExpression goal reading token).onto base =
      (machine.onto base).readExpression goal reading token := by
  unfold readExpression
  split
  · rfl
  · exact onto_conclude base machine _ token goal
  · exact onto_refuse base machine token _
  · rfl

/-- Statements beneath those that are read change nothing in what the machine does. -/
theorem onto_react (machine : Machine) (token : Token) :
    (machine.react token).onto base = (machine.onto base).react token := by
  obtain ⟨mode, enclosing, statements⟩ := machine
  cases mode with
  | start => exact onto_begin base _ token
  | target name => exact onto_ite base rfl (onto_refuse base _ token _)
  | expression goal reading => exact onto_readExpression base _ goal reading token
  | colon header => exact onto_ite base rfl (onto_refuse base _ token _)
  | lineEnd header => exact onto_ite base rfl (onto_refuse base _ token _)
  | opening header =>
    exact onto_ite base
      (congrArg (fun machine => Reaction.mk machine [] []) (onto_openBlock base _ header))
      (onto_refuse base _ token _)
  | afterArm place arms =>
    simp only [react, onto]
    split
    · rfl
    · rfl
    · rw [onto_begin, onto_append]
      rfl
  | leaving place =>
    exact onto_ite base
      (congrArg (fun machine => Reaction.mk machine [] []) (onto_append base _ _))
      (onto_refuse base _ token _)
  | skipping depth skipped => exact onto_skip base _ depth skipped token

end Machine

def Parse.onto (base : List Stmt) (parse : Parse) : Parse :=
  { parse with machine := parse.machine.onto base }

theorem Parse.onto_run (base : List Stmt) (parse : Parse) (pulls : List Pull) :
    (parse.onto base).run pulls = ((parse.run pulls).1.onto base, (parse.run pulls).2) := by
  induction pulls generalizing parse with
  | nil => rfl
  | cons pull rest ih =>
    have stepped : (parse.onto base).step pull.token =
        ((parse.step pull.token).1.onto base, (parse.step pull.token).2) := by
      simp only [step, onto, ← Machine.onto_react]
      rfl
    simp only [run, stepped, ih]

end Offside
