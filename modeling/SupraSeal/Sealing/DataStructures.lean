import SupraSeal.Sealing.Constants

/-!
# Shared data structures

The pointer, synchronization and I/O records of `sealing/data_structures.hpp`.
-/

namespace SupraSeal

/-- What a `parallel_node_t` pointer of PC1 points to: nothing, a node of a node buffer page, or
a node of one of the pages of a parent buffer batch. -/
inductive NodePtr
  | null
  | nodeBuffer (entry nodeInPage : ℕ)
  | parentBuffer (entry page nodeInPage : ℕ)
  deriving DecidableEq

/-- `parent_ptr_sync_t`: the two reserved values of `node_buffer_idx` or a node buffer index. -/
inductive ParentPtrSync
  | notNodeBuffer
  | localNode
  | nodeBufferIdx (idx : ℕ)
  deriving DecidableEq

/-- `node_io_t::type_e`. -/
inductive IoType
  | read
  | write
  | nop
  deriving DecidableEq

/-- `node_io_t`: the node to read or write and what to do. -/
structure NodeIo where
  node : ℕ
  type : IoType
  deriving DecidableEq

end SupraSeal
