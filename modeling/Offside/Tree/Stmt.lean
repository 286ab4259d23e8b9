import Offside.Tree.Expr

/-! Statements. -/

namespace Offside

/-- A chain of guarded bodies, which may end in a body without a guard. -/
inductive Arms (Guard Body : Type) where
  | done
  | otherwise (body : List Body)
  | arm (guard : Guard) (body : List Body) (rest : Arms Guard Body)
deriving Repr

namespace Arms

def ofList {Guard Body : Type} (last : Arms Guard Body) : List (Guard × List Body) → Arms Guard Body
  | [] => last
  | (guard, body) :: rest => arm guard body (ofList last rest)

end Arms

inductive Stmt where
  | assign (target : String) (value : Expr) (place : Location)
  | choose (arms : Arms Expr Stmt) (place : Location)
  | loop (condition : Expr) (body : List Stmt) (place : Location)
  | leave (place : Location)

namespace Stmt

mutual

def relocate (move : Location → Location) : Stmt → Stmt
  | assign target value place => assign target (value.relocate move) (move place)
  | choose arms place => choose (relocateArms move arms) (move place)
  | loop condition body place => loop (condition.relocate move) (relocateAll move body) (move place)
  | leave place => leave (move place)

def relocateAll (move : Location → Location) : List Stmt → List Stmt
  | [] => []
  | first :: rest => first.relocate move :: relocateAll move rest

def relocateArms (move : Location → Location) : Arms Expr Stmt → Arms Expr Stmt
  | .done => .done
  | .otherwise body => .otherwise (relocateAll move body)
  | .arm guard body rest =>
    .arm (guard.relocate move) (relocateAll move body) (relocateArms move rest)

end

mutual

def agrees : Stmt → Stmt → Bool
  | assign target value _, assign target' value' _ => target = target' && value.agrees value'
  | choose arms _, choose arms' _ => armsAgree arms arms'
  | loop condition body _, loop condition' body' _ => condition.agrees condition' && allAgree body body'
  | leave _, leave _ => true
  | _, _ => false

def allAgree : List Stmt → List Stmt → Bool
  | [], [] => true
  | first :: rest, first' :: rest' => first.agrees first' && allAgree rest rest'
  | _, _ => false

def armsAgree : Arms Expr Stmt → Arms Expr Stmt → Bool
  | .done, .done => true
  | .otherwise body, .otherwise body' => allAgree body body'
  | .arm guard body rest, .arm guard' body' rest' =>
    guard.agrees guard' && allAgree body body' && armsAgree rest rest'
  | _, _ => false

end

end Stmt

end Offside
