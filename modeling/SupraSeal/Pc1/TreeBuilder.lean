import SupraSeal.Lib.MerkleTree

/-!
# Tree builders

`TreeBuilder::BuildTree` of `pc1/tree_builder.hpp`, single-threaded, and `TreeD::BuildTree` of
`pc1/tree_d.hpp`. Both hash a row of nodes into the next one until a single node is left. Pointers
are kept as in the source: `TreeBuilder` hashes the rows that are to be discarded in a buffer of
their own, the second one over the first.

The hash of a group of nodes is a parameter: Poseidon for `TreeBuilder`, SHA-256 for `TreeD`.
-/

namespace SupraSeal

/-! ### Pointers -/

/-- The arrays of a builder. -/
inductive TreeBuffer
  | input
  | out
  | discarded
  deriving DecidableEq

/-- A `node_t*`. -/
structure TreePtr where
  buf : TreeBuffer
  idx : ℕ
  deriving DecidableEq

def TreePtr.add (p : TreePtr) (n : ℕ) : TreePtr := ⟨p.buf, p.idx + n⟩

abbrev TreeMem (α : Type*) : Type _ := TreeBuffer → ℕ → α

namespace TreeMem

variable {α : Type*} (m : TreeMem α)

/-- The array that starts at a pointer. -/
def array (p : TreePtr) : ℕ → α := fun j => m p.buf (p.idx + j)

def write (p : TreePtr) (x : α) : TreeMem α :=
  Function.update m p.buf (Function.update (m p.buf) p.idx x)

end TreeMem

/-- The locals of the loops. -/
structure TreeCursor (α : Type*) where
  curHashOut : TreePtr
  curHashIn : TreePtr
  mem : TreeMem α

namespace TreeCursor

variable {α : Type*} (hash : List α → α) (arity : ℕ)

/-- `HashNode` or `ColHashNode`, and the step to the next nodes. -/
def hashNode (c : TreeCursor α) : TreeCursor α where
  curHashOut := c.curHashOut.add 1
  curHashIn := c.curHashIn.add arity
  mem := c.mem.write c.curHashOut (hash (MerkleTree.group arity (c.mem.array c.curHashIn) 0))

/-- The loop over a row of `count` nodes, after which the new row is the input. -/
def hashRow (count : ℕ) (c : TreeCursor α) : TreeCursor α :=
  { (hashNode hash arity)^[(count + arity - 1) / arity] c with curHashIn := c.curHashOut }

end TreeCursor

/-! ### The builders -/

/-- `TreeBuilder`, with the hash functions of `col_hasher_` and `hasher_`. -/
structure TreeBuilder (α : Type*) where
  colArity : ℕ
  arity : ℕ
  discardRows : ℕ
  colHash : List α → α
  hash : List α → α
  colArity_pos : 0 < colArity
  one_lt_arity : 1 < arity

namespace TreeBuilder

variable {α : Type*} (t : TreeBuilder α)

/-- The loop of `size`. -/
def sizeRows (curCount discards : ℕ) : ℕ :=
  if _h : 1 < curCount then
    if 0 < discards then sizeRows (curCount / t.arity) (discards - 1)
    else curCount / t.arity + sizeRows (curCount / t.arity) discards
  else 0
termination_by curCount
decreasing_by all_goals exact Nat.div_lt_self (by omega) t.one_lt_arity

/-- `size`: the number of nodes that are stored. -/
def size (count : ℕ) (cols noDiscard : Bool) : ℕ :=
  let discards := if cols || noDiscard then 0 else t.discardRows
  if cols then count / t.colArity + t.sizeRows (count / t.colArity) discards
  else t.sizeRows count discards

/-- The loop over the rows. -/
def buildRows (out : TreePtr) (curCount : ℕ) (discards : ℤ) (c : TreeCursor α) : TreeCursor α :=
  if _h : 1 < curCount then
    let c := c.hashRow t.hash t.arity curCount
    let discards := discards - 1
    buildRows out (curCount / t.arity) discards { c with
      curHashOut :=
        if discards = 1 then ⟨.discarded, 0⟩ else if discards = 0 then out else c.curHashOut }
  else c
termination_by curCount
decreasing_by exact Nat.div_lt_self (by omega) t.one_lt_arity

/-- The row of columns, for `cols`: the number of nodes and the cursor after it. -/
def buildCols (count : ℕ) (cols : Bool) (c : TreeCursor α) : ℕ × TreeCursor α :=
  if cols then (count / t.colArity, c.hashRow t.colHash t.colArity count) else (count, c)

/-- `BuildTree`: the root, and the memory. -/
def buildTree (count : ℕ) (out input : TreePtr) (cols noDiscard : Bool) (mem : TreeMem α) :
    α × TreeMem α :=
  let (curCount, c) := t.buildCols count cols ⟨out, input, mem⟩
  let discards : ℤ := if cols || noDiscard then -1 else t.discardRows
  let c := t.buildRows out curCount discards { c with
    curHashOut := if 0 < discards then ⟨.discarded, 0⟩ else c.curHashOut }
  (c.mem c.curHashOut.buf (c.curHashOut.idx - 1), c.mem)

end TreeBuilder

namespace TreeD

variable {α : Type*} (hash : List α → α)

def arity : ℕ := 2

/-- The loop of `TreeD::BuildTree`; the pointers are `tree_ptr` and `in_ptr`. -/
def buildRows (curNodes : ℕ) (c : TreeCursor α) : TreeCursor α :=
  if _h : 1 < curNodes then
    buildRows (curNodes >>> Nat.log2 arity) (c.hashRow hash arity curNodes)
  else c
termination_by curNodes
decreasing_by
  rw [show Nat.log2 arity = 1 from rfl, Nat.shiftRight_eq_div_pow]
  exact Nat.div_lt_self (by omega) (by decide)

/-- `TreeD::BuildTree`: `comm_d`, and the memory. With `copy` the leaves are copied into the tree
file first. -/
def buildTree (curNodes : ℕ) (copy : Bool) (mem : TreeMem α) : α × TreeMem α :=
  let c : TreeCursor α :=
    if copy then
      ⟨⟨.out, curNodes⟩, ⟨.out, 0⟩, Function.update mem .out fun j =>
        if j < curNodes then mem .input j else mem .out j⟩
    else ⟨⟨.out, 0⟩, ⟨.input, 0⟩, mem⟩
  let c := buildRows hash curNodes c
  (c.mem.array c.curHashIn 0, c.mem)

end TreeD

end SupraSeal
