import SupraSeal.Lib.Transition
import SupraSeal.Lib.Wrap
import SupraSeal.Lib.MerkleTree
import SupraSeal.Lib.Sections
import SupraSeal.Sealing.Constants
import SupraSeal.Sealing.DataStructures
import SupraSeal.Sealing.SectorParameters
import SupraSeal.Nvme.Ring
import SupraSeal.Nvme.NodeLayout
import SupraSeal.Pc1.Coordinator
import SupraSeal.Pc1.BatchProtocol
import SupraSeal.Pc1.ParentIter
import SupraSeal.Pc1.Orchestrator
import SupraSeal.Pc1.System
import SupraSeal.Pc1.ReadBatch
import SupraSeal.Pc1.Cursors
import SupraSeal.Pc1.Waiting
import SupraSeal.Pc1.Work
import SupraSeal.Pc1.Writes
import SupraSeal.Pc1.Records
import SupraSeal.Pc1.Handover
import SupraSeal.Pc1.Safety
import SupraSeal.Pc1.Progress
import SupraSeal.Pc1.ReadAccounting
import SupraSeal.Pc1.References
import SupraSeal.Pc1.Delivery
import SupraSeal.Pc1.Polling
import SupraSeal.Pc1.Liveness
import SupraSeal.Pc1.Deadlock
import SupraSeal.Pc1.TreeBuilder
import SupraSeal.Pc1.TreeRows
import SupraSeal.C1.TreeProof
import SupraSeal.C1.TreeInclusion
import SupraSeal.C1.Challenge
import SupraSeal.C1.VanillaProofs
import SupraSeal.Pc2.Roots
import SupraSeal.Pc2.Cpu
import SupraSeal.Pc2.DiskBatcher
import SupraSeal.Pc2.BufferConservation
import SupraSeal.Pc2.Flush
import SupraSeal.C2.Threads
import SupraSeal.C2.Barrier
import SupraSeal.C2.ErrorProtocol
import SupraSeal.Pc2.Scheduler
import SupraSeal.Pc2.HandOff
import SupraSeal.Pc2.Resources
import SupraSeal.Pc2.HandOffSafety
import SupraSeal.Sealing.FieldElement
import SupraSeal.Pc2.Encode
import SupraSeal.Lib.Sha256
import SupraSeal.C1.LabelPreimage
import SupraSeal.Lib.Interleaving
import SupraSeal.Pc1.TreePasses
import SupraSeal.Pc1.TreeParts
import SupraSeal.Pc1.TreeSpec
import SupraSeal.Pc1.TreePool
import SupraSeal.Pc2.WorkItems
import SupraSeal.Pc2.Traversal
import SupraSeal.Pc2.LockStep
import SupraSeal.Pc2.StreamRun
import SupraSeal.Pc2.StreamLeak
import SupraSeal.C1.FirstLevels
import SupraSeal.Sealing.Topology
import SupraSeal.Pc1.SectorCoverage
import SupraSeal.C1.Drivers
import SupraSeal.C2.SrsFile
import SupraSeal.C2.SrsRefCount
import SupraSeal.C1.ProofSizes
import SupraSeal.Sealing.PAux
import SupraSeal.C2.SrsCache
import SupraSeal.Nvme.NodeRw
import SupraSeal.Nvme.NodeReader
import SupraSeal.Pc1.Completeness
import SupraSeal.Pc1.Assertions
import SupraSeal.Lib.CosetTransform
import SupraSeal.Lib.GridStride
import SupraSeal.Lib.Streams
import SupraSeal.C2.QuotientPoly
import SupraSeal.Poseidon.Hash
import SupraSeal.Poseidon.Kernels
import SupraSeal.Poseidon.Simulation
import SupraSeal.Poseidon.Pipeline
import SupraSeal.Poseidon.Addressing
import SupraSeal.Lib.PackedBits
import SupraSeal.C2.PrepMsm
import SupraSeal.C2.PrepMsmFirst
import SupraSeal.C2.PrepMsmSecond
import SupraSeal.C2.PrepMsmLoops
import SupraSeal.C2.PrepMsmMasks
import SupraSeal.C2.PrepMsmSafety
import SupraSeal.C2.SplitMsm
import SupraSeal.C1.CcTreeD
import SupraSeal.Lib.RingWindow
import SupraSeal.Nvme.Pool
import SupraSeal.Nvme.RingBuffer
import SupraSeal.Nvme.MtFifo
import SupraSeal.Lib.Reorder
import SupraSeal.C2.BatchAddition
import SupraSeal.C2.SrsLoad
import SupraSeal.C1.CcTreeNodes
import SupraSeal.Pc1.LateReference
import SupraSeal.Lib.LiveBuffers
import SupraSeal.Lib.StoredRows
import SupraSeal.Pc2.TreeAddress
import SupraSeal.Pc2.GpuTrees
import SupraSeal.Pc2.GpuTreeRows
import SupraSeal.Pc2.GpuTreeStream
import SupraSeal.Pc2.GpuTreeCpu
import SupraSeal.Pc2.TreeRefinement
import SupraSeal.Lib.X86
import SupraSeal.Lib.X86Rules
import SupraSeal.Lib.ShaNi
import SupraSeal.Sha.ShaExtMbx2
import SupraSeal.Sha.Rounds
import SupraSeal.Sha.Blocks
import SupraSeal.Sha.Routine
import SupraSeal.Pc1.Sdr
import SupraSeal.Sha.LabelHash
import SupraSeal.Pc1.LabelSystem
import SupraSeal.Pc1.ParentPages
import SupraSeal.Pc1.LabelRequests
import SupraSeal.Pc1.HashNode
import SupraSeal.Pc1.LabelPlaces
import SupraSeal.Pc1.LabelSafety
import SupraSeal.Pc1.Labels
import SupraSeal.C2.ProofAssembly
import SupraSeal.C1.DeriveChallenges
import SupraSeal.C1.Verifier
import SupraSeal.C1.SealedFiles
import SupraSeal.C1.SealedSector
import SupraSeal.Lib.PartialRounds
import SupraSeal.Poseidon.Permutation
