import Mathlib
import LashOs.Base.PostOrder

/-!
# Continuation boundaries on long paths

`InsertLargePathYields` goes over the blocks of each large managed function in reverse postorder.
It carries two budgets along the edges to blocks that come later: how many instructions and how
many condition points a path can have met since the last boundary. A block starts from the
larger budgets of the predecessors that were visited. Before an instruction that a full budget
does not allow, a call of the yield function is inserted.

The rest of the compiler is not part of the source: which callee a call resolves to and whether
the call is a managed one stand in the instruction.
-/

namespace LashOs.Compiler

/-! ### Functions -/

/-- The functions of a module by symbol: `bpf::sym` names three of them. -/
inductive Symbol where
  | yield
  | setjmp
  | longjmp
  | named (name : String)
deriving DecidableEq

/-- What is asked of a call: `ResolveDirectCallee`, `IsManagedCall` and the metadata
`bpf.capsule.internal.yield`. -/
structure Call where
  callee : Option Symbol
  managed : Bool
  internal : Bool
deriving DecidableEq

inductive Operand where
  | constantInt
  | other
deriving DecidableEq

/-- An instruction, as far as the pass asks for it. Terminators name their successors. -/
inductive Instruction (β : Type) where
  | phi
  | alloca
  | debug
  -- A pad of an exception handler that is not a terminator.
  | pad
  | catchSwitch (successors : List β)
  | call (site : Call)
  -- A call that is a terminator.
  | invoke (site : Call) (successors : List β)
  | terminator (successors : List β)
  | and (left right : Operand)
  | or (left right : Operand)
  | select
  | other

namespace Instruction

variable {β : Type}

def isEHPad : Instruction β → Bool
  | pad | catchSwitch _ => true
  | _ => false

def isTerminator : Instruction β → Bool
  | catchSwitch _ | invoke _ _ | terminator _ => true
  | _ => false

def successors : Instruction β → List β
  | catchSwitch successors | invoke _ successors | terminator successors => successors
  | _ => []

def getNumSuccessors (i : Instruction β) : Nat := i.successors.length

/-- The cast to `CallBase`. -/
def callBase : Instruction β → Option Call
  | .call site | invoke site _ => some site
  | _ => none

/-- The instructions that the pass goes over without counting them. -/
def skipped : Instruction β → Bool
  | phi | alloca | debug => true
  | i => i.isEHPad || (i.isTerminator && decide (i.getNumSuccessors ≤ 1))

def bitmask : Instruction β → Bool
  | and left right | or left right => left = .constantInt || right = .constantInt
  | _ => false

def isSelect : Instruction β → Bool
  | select => true
  | _ => false

def condition (i : Instruction β) : Bool := i.bitmask || i.isSelect || i.isTerminator

def marker : Instruction β := call { callee := some .yield, managed := false, internal := true }

end Instruction

/-- A function with a body. The successors of a block are those of its last instruction. -/
structure Body (β : Type) where
  blocks : List β
  nodup : blocks.Nodup
  complete : ∀ b, b ∈ blocks
  entry : β
  instructions : β → List (Instruction β)

namespace Body

variable {β : Type}

def successors (f : Body β) (b : β) : List β :=
  ((f.instructions b).getLast?.map Instruction.successors).getD []

def getInstructionCount (f : Body β) : Nat := (f.blocks.map fun b => (f.instructions b).length).sum

variable [DecidableEq β]

def predecessors (f : Body β) (b : β) : List β := f.blocks.filter (b ∈ f.successors ·)

/-- `ReversePostOrderTraversal`: the blocks that the entry reaches. -/
def order (f : Body β) : List β := (Base.postOrder f.blocks f.complete f.successors f.entry).reverse

end Body

/-- A function of `Managed_`. -/
structure Managed where
  size : Nat
  body : Body (Fin size)

/-- The functions that the module declares, and those of them that are managed. -/
structure IrModule where
  symbols : List Symbol
  managed : List Managed

def getFunction (symbols : List Symbol) (symbol : Symbol) : Option Symbol :=
  if symbol ∈ symbols then some symbol else none

def getOrInsertFunction (symbols : List Symbol) (symbol : Symbol) : List Symbol :=
  if symbol ∈ symbols then symbols else symbols ++ [symbol]

/-! ### The pass -/

structure Budget where
  span : Nat
  branches : Nat
deriving DecidableEq

namespace Budget

def zero : Budget := ⟨0, 0⟩

def max (a b : Budget) : Budget := ⟨Nat.max a.span b.span, Nat.max a.branches b.branches⟩

def full (budget : Budget) : Bool := budget.span = 256 || budget.branches = 4

def count {β : Type} (budget : Budget) (i : Instruction β) : Budget :=
  ⟨budget.span + 1, budget.branches + i.condition.toNat⟩

end Budget

variable {β : Type}

/-- The calls at which the budgets start again. -/
def resets (symbols : List Symbol) (i : Instruction β) : Bool :=
  match i.callBase with
  | none => false
  | some call =>
    call.managed ||
      (call.callee.isSome &&
        (call.callee = getFunction symbols .yield || call.callee = getFunction symbols .setjmp ||
          call.callee = getFunction symbols .longjmp))

/-- The loop over the instructions of a block from an index on: the indices of the points, and
the budgets at the end. -/
def scan (symbols : List Symbol) (budget : Budget) (index : Nat) :
    List (Instruction β) → List Nat × Budget
  | [] => ([], budget)
  | i :: rest =>
    if i.skipped then scan symbols budget (index + 1) rest
    else if resets symbols i then scan symbols .zero (index + 1) rest
    else if budget.full then
      let rest := scan symbols (Budget.zero.count i) (index + 1) rest
      (index :: rest.1, rest.2)
    else scan symbols (budget.count i) (index + 1) rest

structure Traversal (β : Type) where
  points : List (β × Nat)
  tails : β → Option Budget

/-- The loop over the predecessors takes the larger budgets of those that were visited. -/
def joinTail (tails : β → Option Budget) (budget : Budget) (predecessor : β) : Budget :=
  match tails predecessor with
  | some tail => budget.max tail
  | none => budget

def joined (tails : β → Option Budget) (predecessors : List β) : Budget :=
  predecessors.foldl (joinTail tails) .zero

variable [DecidableEq β]

def visitBlock (symbols : List Symbol) (f : Body β) (state : Traversal β) (block : β) :
    Traversal β :=
  let scanned := scan symbols (joined state.tails (f.predecessors block)) 0 (f.instructions block)
  { points := state.points ++ scanned.1.map fun index => (block, index)
    tails := Function.update state.tails block (some scanned.2) }

def traverse (symbols : List Symbol) (f : Body β) (order : List β) : Traversal β :=
  order.foldl (visitBlock symbols f) { points := [], tails := fun _ => none }

def functionPoints (symbols : List Symbol) (f : Body β) : List (β × Nat) :=
  if f.getInstructionCount < 1024 then [] else (traverse symbols f f.order).points

/-- The instructions of a block from an index on with a marker before each point. -/
def insertBefore (isPoint : Nat → Bool) (index : Nat) :
    List (Instruction β) → List (Instruction β)
  | [] => []
  | i :: rest =>
    if isPoint index then .marker :: i :: insertBefore isPoint (index + 1) rest
    else i :: insertBefore isPoint (index + 1) rest

def Body.insertMarkers (f : Body β) (points : List (β × Nat)) : Body β :=
  { f with
    instructions := fun block =>
      insertBefore (fun index => (block, index) ∈ points) 0 (f.instructions block) }

def insertLargePathYields (m : IrModule) : IrModule :=
  if m.managed.all fun g => (functionPoints m.symbols g.body).isEmpty then m
  else
    { symbols := getOrInsertFunction m.symbols .yield
      managed := m.managed.map fun g =>
        { g with body := g.body.insertMarkers (functionPoints m.symbols g.body) } }

/-! ### What the pass is for -/

/-- A boundary: a managed call, or a call of one of the three functions. -/
def boundary (i : Instruction β) : Bool :=
  match i.callBase with
  | none => false
  | some call =>
    call.managed || call.callee = some .yield || call.callee = some .setjmp ||
      call.callee = some .longjmp

end LashOs.Compiler
