import SupraSeal.C1.CcTreeD
import SupraSeal.Lib.Sha256
import SupraSeal.Sealing.SectorParameters
import Mathlib.Data.Fin.VecNotation

/-!
# The nodes of the tree of a CC sector

`TreeD::HashNode` of `pc1/tree_d.hpp`, the table `CC_TREE_D_NODE_VALUES` of `c1/tree_d_cc_nodes.h`, and what
is taken from it: `TreeDCCProof` of `c1/tree_proof.hpp` and `get_cc_comm_d` of `sealing/supra_seal.cpp`.
The functions of blst are parameters.

## Main results

- `agrees_of_zeroChain`: with a table of the nodes of the tree over zeros, everything that is taken from it
  is what the tree file gives.
- `shortcut_iff`: the table is one for all sectors but those of 64 GiB. Their root would be the last entry,
  which is a placeholder, but the assertion on the number of levels admits them.
-/

namespace SupraSeal

open MerkleTree Sections Sha256

/-! ### `HashNode` -/

namespace Node

/-- The words of a node. -/
def words (n : Node) : Fin 8 → Word := n.limbs

def ofWords (w : Fin 8 → Word) : Node := ⟨w⟩

def toState (n : Node) : Sha256.State :=
  let w := n.words
  ⟨w 0, w 1, w 2, w 3, w 4, w 5, w 6, w 7⟩

def ofState (s : Sha256.State) : Node := ofWords ![s.a, s.b, s.c, s.d, s.e, s.f, s.g, s.h]

/-- A `node_t` from its bytes in memory. -/
def ofBytes (bytes : List Byte) : Node :=
  ofWords fun i => bytes.getD (4 * i + 3) 0 ++ bytes.getD (4 * i + 2) 0 ++ bytes.getD (4 * i + 1) 0 ++
    bytes.getD (4 * i) 0

def zero : Node := ⟨fun _ => 0⟩

lemma toState_injective : Function.Injective toState := by
  intro m n h
  simp only [toState, Sha256.State.mk.injEq] at h
  obtain ⟨h0, h1, h2, h3, h4, h5, h6, h7⟩ := h
  refine congrArg ofWords (funext fun i : Fin 8 => ?_)
  match i with
  | 0 => exact h0
  | 1 => exact h1
  | 2 => exact h2
  | 3 => exact h3
  | 4 => exact h4
  | 5 => exact h5
  | 6 => exact h6
  | 7 => exact h7

end Node

/-- `SHA256_INITIAL_DIGEST`. -/
def sha256InitialDigest : Node := .ofState .initial

/-- `blst_sha256_block` with one block, and `blst_sha256_emit`. -/
structure Blst where
  sha256Block : Node → List Byte → Node
  sha256Emit : Node → Node

/-- The functions compress a block into the state, and write its words big-endian. -/
structure Blst.Sha256 (blst : Blst) : Prop where
  block : ∀ h block, block.length = blockSize →
    blst.sha256Block h block = .ofState (compress h.toState block)
  emit : ∀ h, blst.sha256Emit h = h.reverseL

namespace TreeD

/-- The static `padding_block`, which is the same for all inputs: two nodes are 512 bits. -/
def paddingBlock : List Byte := ((List.replicate blockSize 0).set 0 0x80).set 62 0x2

/-- `HashNode`, of two nodes. -/
def hashNode (blst : Blst) (input : List Node) : Node :=
  let result := sha256InitialDigest
  let result := blst.sha256Block result (nodeBytes input)
  let result := blst.sha256Block result paddingBlock
  let result := blst.sha256Emit result
  .ofWords (Function.update result.words 7 (result.words 7 &&& 0x3FFFFFFF))

/-- The digest of a message, without the two bits that do not fit a field element. -/
def truncatedHash (msg : List Byte) : Node :=
  let result := (Node.ofState (Sha256.hash msg)).reverseL
  .ofWords (Function.update result.words 7 (result.words 7 &&& 0x3FFFFFFF))

/-- `HashNode` is SHA-256 of the bytes of the two nodes. -/
lemma hashNode_eq {blst : Blst} (h : blst.Sha256) (m n : Node) :
    hashNode blst [m, n] = truncatedHash (m.bytes ++ n.bytes) := by
  have hlen : (m.bytes ++ n.bytes).length = blockSize := by
    rw [List.length_append, m.length_bytes, n.length_bytes]
    rfl
  have hbytes : nodeBytes [m, n] = m.bytes ++ n.bytes := by simp [nodeBytes]
  have hpadding : paddingBlock = 0x80 :: (List.replicate 55 0 ++ beBytes 8 512) := by decide
  have hstate : ∀ s, (Node.ofState s).toState = s := fun _ => rfl
  rw [hashNode, truncatedHash, hash_block hlen, hbytes, h.emit, h.block _ paddingBlock rfl,
    h.block _ _ hlen, hstate, sha256InitialDigest, hstate, hpadding]

end TreeD

/-! ### The table -/

/-- `CC_TREE_D_NODE_VALUES`, each row as a big-endian number. -/
def ccTreeDNodeValues : List (List Byte) :=
  [
    0x0,
    0xf5a5fd42d16a20302798ef6ed309979b43003d2320d9f0e8ea9831a92759fb0b,
    0x3731bb99ac689f66eef5973e4a94da188f4ddcae580724fc6f3fd60dfd488333,
    0x642a607ef886b004bf2c1978463ae1d4693ac0f410eb2d1b7a47fe205e5e750f,
    0x57a2381a28652bf47f6bef7aca679be4aede5871ab5cf3eb2c08114488cb8526,
    0x1f7ac9595510e09ea41c460b176430bb322cd6fb412ec57cb17d989a4310372f,
    0xfc7e928296e516faade986b28f92d44a4f24b935485223376a799027bc18f833,
    0x08c47b38ee13bc43f41b915c0eed9911a26086b3ed62401bf9d58b8d19dff624,
    0xb2e47bfb11facd941f62af5c750f3ea5cc4df517d5c4f16db2b4d77baec1a32f,
    0xf9226160c8f927bfdcc418cdf203493146008eaefb7d02194d5e548189005108,
    0x2c1a964bb90b59ebfe0f6da29ad65ae3e417724a8f7c11745a40cac1e5e74011,
    0xfee378cef16404b199ede0b13e11b624ff9d784fbbed878d83297e795e024f02,
    0x8e9e2403fa884cf6237f60df25f83ee40dca9ed879eb6f6352d15084f5ad0d3f,
    0x752d9693fa167524395476e317a98580f00947afb7a30540d625a9291cc12a07,
    0x7022f60f7ef6adfa17117a52619e30cea82c68075adf1c667786ec506eef2d19,
    0xd99887b973573a96e11393645236c17b1f4c7034d723c7a99f709bb4da61162b,
    0xd0b530dbb0b4f25c5d2f2a28dfee808b53412a02931f18c499f5a254086b1326,
    0x84c0421ba0685a01bf795a2344064fe424bd52a9d24377b394ff4c4b4568e811,
    0x65f29e5d98d246c38b388cfc06db1f6b021303c5a289000bdce832a9c3ec421c,
    0xa2247508285850965b7e334b3127b0c042b1d046dc54402137627cd8799ce13a,
    0xdafdab6da9364453c26d33726b9fefe343be8f81649ec009aad3faff50617508,
    0xd941d5e0d6314a995c33ffbd4fbe69118d73d4e5fd2cd31f0f7c86ebdd14e706,
    0x514c435c3d04d349a5365fbd59ffc713629111785991c1a3c53af22079741a2f,
    0xad06853969d37d34ff08e09f56930a4ad19a89def60cbfee7e1d3381c1e71c37,
    0x39560e7b13a93b07a243fd2720ffa7cb3e1d2e505ab3629e79f46313512cda06,
    0xccc3c012f5b05e811a2bbfdd0f6833b84275b47bf229c0052a82484f3c1a5b3d,
    0x7df29b69773199e8f2b40b77919d048509eed768e2c7297b1f1437034fc3c62c,
    0x66ce05a3667552cf45c02bcc4e8392919bdeac35de2ff56271848e9f7b675107,
    0xd8610218425ab5e95b1ca6239d29a2e420d706a96f373e2f9c9a91d759d19b01,
    0x6d364b1ef846441a5a4a68862314acc0a46f016717e53443e839eedf83c2853c,
    0x077e5fde35c50a9303a55009e3498a4ebedff39c42b710b730d8ec7ac7afa63e,
    0x0].map (beBytes 32)

/-- Entry `i`, as the `node_t` to which it is cast. -/
def ccTreeDNode (i : ℕ) : Node := .ofBytes (ccTreeDNodeValues.getD i [])

namespace TreeD

/-- The entries up to `levels` are the nodes of the rows of the tree over zeros. -/
def ZeroChain (hash : List Node → Node) (values : ℕ → Node) (levels : ℕ) : Prop :=
  ∀ i ≤ levels, values i = zeroNode hash Node.zero i

/-- `get_cc_comm_d`. -/
def getCcCommD (values : ℕ → Node) (s : SectorSize) : Node := values s.treeDLevels

/-- Four ways to the tree of a CC sector agree: `BuildCCTree`, `BuildTree` with `copy` over zeros,
`TreeDCCProof` with `get_cc_comm_d`, and `TreeProof` over the file, whose last node is its root. -/
structure Agrees (hash : List Node → Node) (values : ℕ → Node) (s : SectorSize) : Prop where
  file : ∀ mem data : TreeMem Node, (∀ j < s.numLeaves, data .input j = Node.zero) →
    ∀ j < 2 * s.numLeaves - 1, (buildCCTree hash Node.zero s.treeDLevels s.numLeaves mem).2 .out j =
      (buildTree hash s.numLeaves true data).2 .out j
  commD : ∀ mem data : TreeMem Node, (∀ j < s.numLeaves, data .input j = Node.zero) →
    (buildCCTree hash Node.zero s.treeDLevels s.numLeaves mem).1 =
      (buildTree hash s.numLeaves true data).1
  getCcCommD : ∀ mem : TreeMem Node,
    getCcCommD values s = (buildCCTree hash Node.zero s.treeDLevels s.numLeaves mem).1
  proof : ∀ (mem : TreeMem Node) (pathBuf : ℕ → Node), ∀ challenge < s.numLeaves,
    let file := (buildCCTree hash Node.zero s.treeDLevels s.numLeaves mem).2 .out
    let t : TreeProof Node := ⟨treeDArity, s.treeDLevels, fun _ => file, 1, 0, pathBuf⟩
    treeDCCProof values treeDArity s.treeDLevels challenge =
      some (t.data hash (file (2 * s.numLeaves - 2)) challenge none)

/-- What is promised of the table. -/
structure Shortcut (hash : List Node → Node) (table : ℕ → Node) (s : SectorSize) : Prop where
  agrees : ∀ values, ZeroChain hash values s.treeDLevels → Agrees hash values s
  chain : ZeroChain hash table s.treeDLevels

/-! ### A table of the tree over zeros -/

section Chain

variable {hash : List Node → Node} {values : ℕ → Node} {s : SectorSize}

lemma treeDLevels_le (s : SectorSize) : s.treeDLevels ≤ 31 := by
  rw [s.treeDLevels_eq]
  cases s <;> decide

lemma treeDLevels_pos (s : SectorSize) : 0 < s.treeDLevels := by
  rw [s.treeDLevels_eq]
  cases s <;> decide

/-- The position after the last row but one. -/
lemma rowStart_levels (k : ℕ) : rowStart arity k k = 2 * 2 ^ k - 2 := by
  have h := rowStart_arity k k (Nat.le_succ k)
  have hlast : arity ^ (k + 1 - k) = 2 := by
    rw [Nat.add_sub_cancel_left]
    rfl
  have hall : arity ^ (k + 1) = 2 * 2 ^ k := pow_succ' ..
  omega

/-- Nodes in a file. -/
lemma rowStart_nodes (k : ℕ) : rowStart arity k (k + 1) = 2 * 2 ^ k - 1 := by
  have hpos := Nat.two_pow_pos k
  rw [rowStart_succ, rowStart_levels, Nat.sub_self, pow_zero]
  omega

/-- The last node of the file. -/
lemma buildCCTree_root (hash : List Node → Node) (k : ℕ) (mem : TreeMem Node) :
    (buildCCTree hash Node.zero k (2 ^ k) mem).2 .out (2 * 2 ^ k - 2) = zeroNode hash Node.zero k := by
  have h := buildCCTree_stores hash Node.zero k mem k le_rfl 0 (Nat.pow_pos (by decide))
  rw [Nat.add_zero, rowStart_levels, row_zeros] at h
  exact h

/-- An opening of the tree over zeros. -/
lemma opening_zeros (c l : ℕ) : opening hash arity (fun _ => Node.zero) c l =
    ⟨c / 2 ^ l % 2, [zeroNode hash Node.zero l]⟩ := by
  rw [opening, siblings]
  refine congrArg (Step.mk _) ?_
  rcases Nat.mod_two_eq_zero_or_one (c / arity ^ l) with h | h
  · rw [show arity = 2 from rfl] at h ⊢
    rw [h]
    exact congrArg (fun n => [n]) (row_zeros l _)
  · rw [show arity = 2 from rfl] at h ⊢
    rw [h]
    exact congrArg (fun n => [n]) (row_zeros l _)

theorem agrees_of_zeroChain (h : ZeroChain hash values s.treeDLevels) : Agrees hash values s := by
  have hleaves : s.numLeaves = arity ^ s.treeDLevels := s.numLeaves_eq_treeDLevels
  refine ⟨fun mem data hdata j hj => ?_, fun mem data hdata => ?_, fun mem => ?_,
    fun mem pathBuf c hc => ?_⟩
  · rw [hleaves] at hdata hj ⊢
    refine (buildCCTree_eq_buildTree mem hdata).1 j ?_
    rw [rowStart_nodes]
    exact hj
  · rw [hleaves] at hdata ⊢
    exact (buildCCTree_eq_buildTree mem hdata).2
  · rw [hleaves, buildCCTree_commD]
    exact h _ le_rfl
  · rw [hleaves] at hc ⊢
    intro file t
    have hfiles : TreeProof.Files hash t (fun _ => Node.zero) 1 s.treeDLevels 0 :=
      ⟨rfl, Nat.one_pos, .inl ⟨rfl, rfl⟩, Nat.zero_le _, fun b _ =>
        buildCCTree_stores hash Node.zero s.treeDLevels mem⟩
    obtain ⟨hleaf, hsteps⟩ := TreeProof.genInclusionPath_none hfiles (treeDLevels_pos s) hc
      fun _ => file (2 * arity ^ s.treeDLevels - 2)
    have hroot : file (2 * arity ^ s.treeDLevels - 2) = values s.treeDLevels :=
      (buildCCTree_root hash s.treeDLevels mem).trans (h _ le_rfl).symm
    have hpath : (List.range s.treeDLevels).map (fun l => (⟨(TreeProof.getTreePaths treeDArity
        s.treeDLevels c).getD l 0, [values l]⟩ : Step Node)) =
        (List.range s.treeDLevels).map (opening hash arity (fun _ => Node.zero) c) := by
      refine List.map_congr_left fun l hl => ?_
      have hl := List.mem_range.mp hl
      rw [opening_zeros, h l hl.le]
      exact congrArg (Step.mk · _) (TreeProof.getTreePaths_getD 1 hl c)
    rw [treeDCCProof, if_pos (treeDLevels_le s), TreeProof.data]
    refine congrArg some ?_
    rw [hpath, ← hroot, h 0 (Nat.zero_le _)]
    exact congrArg₂ (TreeProofData.mk _ _ _) hleaf.symm hsteps.symm

/-- With another last entry, the commitment is another one. -/
lemma not_agrees (h : values s.treeDLevels ≠ zeroNode hash Node.zero s.treeDLevels) :
    ¬Agrees hash values s := by
  intro hagrees
  have hcommD := hagrees.getCcCommD fun _ _ => Node.zero
  rw [s.numLeaves_eq_treeDLevels] at hcommD
  exact h (hcommD.trans (buildCCTree_commD hash Node.zero s.treeDLevels _))

end Chain

/-! ### The table of the source -/

section Table

variable {blst : Blst}

/-- Each of the first entries is hashed to the next one. -/
lemma truncatedHash_ccTreeDNode : ∀ i < 30,
    (truncatedHash ((ccTreeDNode i).bytes ++ (ccTreeDNode i).bytes)).toState =
      (ccTreeDNode (i + 1)).toState := by
  decide +kernel

/-- The placeholder. -/
lemma truncatedHash_ne_placeholder :
    (truncatedHash ((ccTreeDNode 30).bytes ++ (ccTreeDNode 30).bytes)).toState ≠
      (ccTreeDNode 31).toState := by
  decide +kernel

lemma ccTreeDNode_zero : ccTreeDNode 0 = Node.zero := by
  refine Node.toState_injective ?_
  decide +kernel

lemma ccTreeDNode_eq (h : blst.Sha256) {i : ℕ} (hi : i ≤ 30) :
    ccTreeDNode i = zeroNode (hashNode blst) Node.zero i := by
  induction i with
  | zero => exact ccTreeDNode_zero
  | succ i ih =>
    have hstep := Node.toState_injective (truncatedHash_ccTreeDNode i hi)
    rw [zeroNode_succ, ← ih (Nat.le_of_succ_le hi), hashNode_eq h, hstep]

lemma ccTreeDNode_ne (h : blst.Sha256) : ccTreeDNode 31 ≠ zeroNode (hashNode blst) Node.zero 31 := by
  rw [zeroNode_succ, ← ccTreeDNode_eq h le_rfl, hashNode_eq h]
  exact fun heq => truncatedHash_ne_placeholder (congrArg Node.toState heq.symm)

lemma treeDLevels_le_iff (s : SectorSize) : s.treeDLevels ≤ 30 ↔ s ≠ .sector64GB := by
  rw [s.treeDLevels_eq]
  cases s <;> decide

lemma zeroChain_ccTreeDNode (h : blst.Sha256) {s : SectorSize} (hs : s ≠ .sector64GB) :
    ZeroChain (hashNode blst) ccTreeDNode s.treeDLevels := fun _ hi =>
  ccTreeDNode_eq h (hi.trans ((treeDLevels_le_iff s).mpr hs))

lemma not_agrees_sector64GB (h : blst.Sha256) :
    ¬Agrees (hashNode blst) ccTreeDNode .sector64GB := by
  refine not_agrees ?_
  rw [SectorSize.treeDLevels_eq]
  exact ccTreeDNode_ne h

lemma not_shortcut_sector64GB (h : blst.Sha256) :
    ¬Shortcut (hashNode blst) ccTreeDNode .sector64GB := fun hshortcut =>
  not_agrees_sector64GB h (hshortcut.agrees _ hshortcut.chain)

theorem shortcut_iff (h : blst.Sha256) (s : SectorSize) :
    (Shortcut (hashNode blst) ccTreeDNode s ↔ s ≠ .sector64GB) ∧
      (Agrees (hashNode blst) ccTreeDNode s ↔ s ≠ .sector64GB) := by
  have hchain := fun hs => zeroChain_ccTreeDNode h (s := s) hs
  refine ⟨⟨?_, fun hs => ⟨fun _ => agrees_of_zeroChain, hchain hs⟩⟩, ⟨?_, fun hs => ?_⟩⟩
  · rintro hshortcut rfl
    exact not_shortcut_sector64GB h hshortcut
  · rintro hagrees rfl
    exact not_agrees_sector64GB h hagrees
  · exact agrees_of_zeroChain (hchain hs)

/-- The functions as the hash specifies them. -/
def specBlst : Blst where
  sha256Block h block := .ofState (compress h.toState block)
  sha256Emit := Node.reverseL

lemma specBlst_sha256 : specBlst.Sha256 := ⟨fun _ _ _ => rfl, fun _ => rfl⟩

theorem shortcut_sector32GB : Shortcut (hashNode specBlst) ccTreeDNode .sector32GB :=
  (shortcut_iff specBlst_sha256 .sector32GB).1.mpr (by decide)

theorem not_shortcut_sector64GB_spec :
    ¬Shortcut (hashNode specBlst) ccTreeDNode .sector64GB :=
  not_shortcut_sector64GB specBlst_sha256

end Table

end TreeD

end SupraSeal
