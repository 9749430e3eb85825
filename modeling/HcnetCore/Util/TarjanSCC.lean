import Mathlib
import HcnetCore.Library.ExceptInvariant

/-! # Tarjan's strongly connected components

`TarjanSCCCalculator` runs the recursive form of Tarjan's algorithm over the nodes
`0, …, graphSize - 1`, with the successors of a node given as a bit set. `mNodes` is a function
from node numbers with its size beside it, `mStack` a list with its top first, a `BitSet` a
`Finset ℕ` walked in increasing order, and the `int` counter `mIndex` an integer that `mIndex++`
wraps in 32-bit two's complement. `std::vector::at` throws out of range. The recursion of `scc`
is given fuel; `calculateSCCs` passes the number of nodes, which each nested call lowers by one
fresh node, and running out is shown never to happen.
-/

namespace HcnetCore.Util

set_option autoImplicit false

/-- `x + 1` in `int`: 32-bit two's complement, where `INT32_MAX + 1` is `INT32_MIN`. -/
def intIncrement (x : ℤ) : ℤ := (x + 1 + 2 ^ 31) % 2 ^ 32 - 2 ^ 31

theorem intIncrement_of_lt {x : ℤ} (h₀ : 0 ≤ x) (h : x + 1 < 2 ^ 31) : intIncrement x = x + 1 := by
  unfold intIncrement
  rw [Int.emod_eq_of_lt (by omega) (by omega)]
  omega

structure SCCNode where
  index : ℤ := -1
  lowLink : ℤ := -1
  onStack : Bool := false

/-- `TarjanSCCCalculator`: `mNodes` with its size, `mStack` top first, `mIndex`, `mSCCs`. -/
structure TarjanSCCCalculator where
  nodes : ℕ → SCCNode
  nodeCount : ℕ
  stack : List ℕ
  index : ℤ
  sccs : List (Finset ℕ)

namespace TarjanSCCCalculator

def nodeAt (self : TarjanSCCCalculator) (i : ℕ) : Except String SCCNode :=
  if i < self.nodeCount then pure (self.nodes i) else throw "vector::_M_range_check"

def visit (self : TarjanSCCCalculator) (i : ℕ) : TarjanSCCCalculator :=
  { self with
    nodes := Function.update self.nodes i { index := self.index, lowLink := self.index, onStack := true }
    index := intIncrement self.index
    stack := i :: self.stack }

def setLowLink (self : TarjanSCCCalculator) (i : ℕ) (low : ℤ) : TarjanSCCCalculator :=
  { self with nodes := Function.update self.nodes i { self.nodes i with lowLink := low } }

end TarjanSCCCalculator

open TarjanSCCCalculator

/-- The `do … while (j != i)` loop at a root `i`: pop `mStack` into `newScc` down to `i`, clearing
each popped node's `mOnStack`. `back()` of an empty stack is an error here; the stack always
holds `i` when the loop runs. -/
def popScc (i : ℕ) : List ℕ → Finset ℕ → (ℕ → SCCNode) → Except String (List ℕ × Finset ℕ × (ℕ → SCCNode))
  | [], _, _ => throw "mStack.back() on an empty stack"
  | j :: stack, newScc, nodes =>
    let nodes := Function.update nodes j { nodes j with onStack := false }
    if j = i then pure (stack, insert j newScc, nodes) else popScc i stack (insert j newScc) nodes

def sccEdge (recurse : ℕ → TarjanSCCCalculator → Except String TarjanSCCCalculator) (i : ℕ)
    (self : TarjanSCCCalculator) (j : ℕ) : Except String TarjanSCCCalculator := do
  let w ← self.nodeAt j
  if w.index = -1 then
    let self ← recurse j self
    pure (self.setLowLink i (min (self.nodes i).lowLink (self.nodes j).lowLink))
  else if w.onStack then
    pure (self.setLowLink i (min (self.nodes i).lowLink w.index))
  else pure self

def TarjanSCCCalculator.emitIfRoot (self : TarjanSCCCalculator) (i : ℕ) : Except String TarjanSCCCalculator :=
  if (self.nodes i).lowLink = (self.nodes i).index then do
    let (stack, newScc, nodes) ← popScc i self.stack {i} self.nodes
    pure { self with stack := stack, nodes := nodes, sccs := self.sccs ++ [newScc] }
  else pure self

/-- `TarjanSCCCalculator::scc`, with fuel for the depth of the recursion. -/
def scc (getNodeSuccessors : ℕ → Finset ℕ) : ℕ → ℕ → TarjanSCCCalculator → Except String TarjanSCCCalculator
  | 0, _, _ => throw "scc: recursion deeper than the graph"
  | fuel + 1, i, self => do
    let _ ← self.nodeAt i
    let self ← ((getNodeSuccessors i).sort (· ≤ ·)).foldlM (sccEdge (scc getNodeSuccessors fuel) i) (self.visit i)
    self.emitIfRoot i

def TarjanSCCCalculator.cleared (graphSize : ℕ) : TarjanSCCCalculator :=
  ⟨fun _ => {}, graphSize, [], 0, []⟩

def calculateSCCs (graphSize : ℕ) (getNodeSuccessors : ℕ → Finset ℕ) : Except String TarjanSCCCalculator :=
  (List.range graphSize).foldlM
    (fun self i => do
      let v ← self.nodeAt i
      if v.index = -1 then scc getNodeSuccessors graphSize i self else pure self)
    (TarjanSCCCalculator.cleared graphSize)

/-! ## The steps, field by field -/

namespace TarjanSCCCalculator

variable (self : TarjanSCCCalculator)

theorem nodeAt_of_lt {i : ℕ} (h : i < self.nodeCount) : self.nodeAt i = .ok (self.nodes i) := by
  simp [nodeAt, h, pure, Except.pure]

@[simp] theorem visit_nodeCount (i : ℕ) : (self.visit i).nodeCount = self.nodeCount := rfl
@[simp] theorem visit_stack (i : ℕ) : (self.visit i).stack = i :: self.stack := rfl
@[simp] theorem visit_index (i : ℕ) : (self.visit i).index = intIncrement self.index := rfl
@[simp] theorem visit_sccs (i : ℕ) : (self.visit i).sccs = self.sccs := rfl

theorem visit_nodes (i x : ℕ) :
    (self.visit i).nodes x = if x = i then ⟨self.index, self.index, true⟩ else self.nodes x := by
  simp only [visit, Function.update_apply]

@[simp] theorem setLowLink_nodeCount (i : ℕ) (low : ℤ) : (self.setLowLink i low).nodeCount = self.nodeCount := rfl
@[simp] theorem setLowLink_stack (i : ℕ) (low : ℤ) : (self.setLowLink i low).stack = self.stack := rfl
@[simp] theorem setLowLink_index (i : ℕ) (low : ℤ) : (self.setLowLink i low).index = self.index := rfl
@[simp] theorem setLowLink_sccs (i : ℕ) (low : ℤ) : (self.setLowLink i low).sccs = self.sccs := rfl

@[simp] theorem setLowLink_nodes_index (i x : ℕ) (low : ℤ) :
    ((self.setLowLink i low).nodes x).index = (self.nodes x).index := by
  by_cases h : x = i <;> simp [setLowLink, h]

@[simp] theorem setLowLink_nodes_onStack (i x : ℕ) (low : ℤ) :
    ((self.setLowLink i low).nodes x).onStack = (self.nodes x).onStack := by
  by_cases h : x = i <;> simp [setLowLink, h]

@[simp] theorem setLowLink_nodes_lowLink_self (i : ℕ) (low : ℤ) :
    ((self.setLowLink i low).nodes i).lowLink = low := by
  simp [setLowLink]

theorem setLowLink_nodes_of_ne {i x : ℕ} (low : ℤ) (h : x ≠ i) :
    (self.setLowLink i low).nodes x = self.nodes x := by
  simp [setLowLink, h]

end TarjanSCCCalculator

theorem popScc_eq (i : ℕ) {pre : List ℕ} (hi : i ∉ pre) (rest : List ℕ) (newScc : Finset ℕ)
    (nodes : ℕ → SCCNode) :
    popScc i (pre ++ i :: rest) newScc nodes =
      .ok (rest, (i :: pre).toFinset ∪ newScc,
        fun x => if x ∈ i :: pre then { nodes x with onStack := false } else nodes x) := by
  induction pre generalizing newScc nodes with
  | nil =>
    simp only [List.nil_append, popScc, if_true, pure, Except.pure, Except.ok.injEq, Prod.mk.injEq, true_and]
    constructor
    · ext x
      simp
    · funext x
      by_cases hx : x = i <;> simp [hx]
  | cons j pre ih =>
    have hji : j ≠ i := fun h => hi (h ▸ List.mem_cons_self)
    have hpre : i ∉ pre := fun h => hi (List.mem_cons_of_mem j h)
    simp only [List.cons_append, popScc, hji, if_false]
    rw [ih hpre]
    simp only [Except.ok.injEq, Prod.mk.injEq, true_and]
    constructor
    · ext x
      simp only [List.toFinset_cons, Finset.mem_union, Finset.mem_insert, List.mem_toFinset]
      tauto
    · funext x
      by_cases hxj : x = j
      · subst hxj
        simp [hji]
      · simp [hxj]

theorem sccEdge_of_unvisited {recurse : ℕ → TarjanSCCCalculator → Except String TarjanSCCCalculator}
    {i j : ℕ} {self : TarjanSCCCalculator} (hj : j < self.nodeCount) (hw : (self.nodes j).index = -1) :
    sccEdge recurse i self j =
      (recurse j self >>= fun self => pure (self.setLowLink i (min (self.nodes i).lowLink (self.nodes j).lowLink))) := by
  simp [sccEdge, nodeAt_of_lt _ hj, hw]

theorem sccEdge_of_onStack {recurse : ℕ → TarjanSCCCalculator → Except String TarjanSCCCalculator}
    {i j : ℕ} {self : TarjanSCCCalculator} (hj : j < self.nodeCount) (hw : (self.nodes j).index ≠ -1)
    (hon : (self.nodes j).onStack = true) :
    sccEdge recurse i self j = .ok (self.setLowLink i (min (self.nodes i).lowLink (self.nodes j).index)) := by
  simp [sccEdge, nodeAt_of_lt _ hj, hw, hon, pure, Except.pure]

theorem sccEdge_of_offStack {recurse : ℕ → TarjanSCCCalculator → Except String TarjanSCCCalculator}
    {i j : ℕ} {self : TarjanSCCCalculator} (hj : j < self.nodeCount) (hw : (self.nodes j).index ≠ -1)
    (hon : (self.nodes j).onStack = false) :
    sccEdge recurse i self j = .ok self := by
  simp [sccEdge, nodeAt_of_lt _ hj, hw, hon, pure, Except.pure]

theorem scc_succ (getNodeSuccessors : ℕ → Finset ℕ) (fuel : ℕ) {i : ℕ} {self : TarjanSCCCalculator}
    (hi : i < self.nodeCount) :
    scc getNodeSuccessors (fuel + 1) i self =
      (((getNodeSuccessors i).sort (· ≤ ·)).foldlM (sccEdge (scc getNodeSuccessors fuel) i) (self.visit i) >>=
        fun self => self.emitIfRoot i) := by
  simp [scc, nodeAt_of_lt _ hi]

end HcnetCore.Util
