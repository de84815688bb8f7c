import MkCompiler.Emitter.Value

/-!
# Control flow

A control construct has three labelled blocks. The first computes the condition, so that a loop
computes it again on every iteration; the second is the body; the third is what follows.
-/

namespace MkCompiler.Emitter

/-- Opens the condition of a control construct. -/
def openCondition : Action Emitter Unit := do
  let e ← get
  if e.conditionOpen then
    throw (.internal .conditionOpenedTwice)
  else
    let id := e.labels
    set { e with labels := id + 1 }
    terminate (.jump ⟨.compare, id⟩)
    placeLabel ⟨.compare, id⟩
    modify (modifyActive fun c => { c with openCompare := some id })

/-- Takes the number of the open condition, opening one if there is none. -/
def takeCondition : Action Emitter Nat := do
  if (← get).conditionOpen = false then
    openCondition
  match (← get).active.openCompare with
  | none => throw (.fault .absentCondition)
  | some id =>
    modify (modifyActive fun c => { c with openCompare := none })
    return id

/-- Compares two operands, as reals if one of them is real, and enters the body of a control
construct if the comparison holds. -/
def compare (left : Operand) (op : Comparison) (right : Operand) : Action Emitter Unit := do
  let id ← takeCondition
  let (l, r) ← widen left right false
  let lv ← load l
  let rv ← load r
  let n ← fresh
  emit (.compare n op l.type.irType lv rv)
  terminate (.branch n ⟨.body, id⟩ ⟨.exit, id⟩)
  placeLabel ⟨.body, id⟩
  modify (modifyActive fun c => { c with pending := id :: c.pending })

/-- Closes the innermost control construct. A loop goes back to its condition. -/
def endControl (kind : ControlKind) : Action Emitter Unit := do
  match (← get).active.pending with
  | [] => Action.reject (.closeWithoutCondition kind)
  | id :: pending =>
    modify (modifyActive fun c => { c with pending })
    let role := match kind with
      | .conditional => LabelRole.exit
      | .loop => LabelRole.compare
    terminate (.jump ⟨role, id⟩)
    placeLabel ⟨.exit, id⟩

end MkCompiler.Emitter
