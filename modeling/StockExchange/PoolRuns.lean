import StockExchange.MemoryPool
import StockExchange.Library.Transitions

/-!
# Runs of a block pool

`memory_pool` and `uv_memory_pool` thread their free blocks by index. What was handed out and
not given back is kept beside the pool; the chain visits exactly the rest.
-/

namespace StockExchange

open Transitions

namespace MemoryPool

/-- `alloc` of `uv_memory_pool`: no object is constructed in the block. -/
def uvAlloc {α : Type} (pool : MemoryPool α) : Except Fault (MemoryPool α × Nat) :=
  let p := pool.freeBlockIndex
  if p < pool.size then
    let block := pool.memoryBlocks p
    .ok ({ pool with
      memoryBlocks := Function.update pool.memoryBlocks p { block with isFree := false }
      freeBlockIndex := block.nextFreeBlock
      freeBlockCount := pool.freeBlockCount - 1 }, p)
  else .error .badAccess

def capacity {α : Type} (pool : MemoryPool α) : Nat := pool.size

def available {α : Type} (pool : MemoryPool α) : Nat := pool.freeBlockCount

theorem uvAlloc_eq {α : Type} (pool : MemoryPool α) :
    pool.uvAlloc = pool.alloc (pool.read pool.freeBlockIndex) := rfl

end MemoryPool

inductive PoolCall (α : Type) where
  | alloc (value : α)
  | uvAlloc
  | free (p : Nat)

/-- A pool and the blocks its users hold. -/
structure PoolUse (α : Type) where
  pool : MemoryPool α
  live : List Nat

namespace PoolUse
variable {α : Type}

def create (default : α) (size : Nat) : PoolUse α := ⟨.create default size, []⟩

def call (u : PoolUse α) : PoolCall α → Except Fault (PoolUse α)
  | .alloc value => do
    let (pool, p) ← u.pool.alloc value
    .ok ⟨pool, p :: u.live⟩
  | .uvAlloc => do
    let (pool, p) ← u.pool.uvAlloc
    .ok ⟨pool, p :: u.live⟩
  | .free p => .ok ⟨u.pool.free p, u.live.erase p⟩

/-- A block is taken only while some are available, and given back only by its holder. -/
def Admits (u : PoolUse α) : PoolCall α → Prop
  | .alloc _ => 0 < u.pool.available
  | .uvAlloc => 0 < u.pool.available
  | .free p => p ∈ u.live

instance (u : PoolUse α) (c : PoolCall α) : Decidable (u.Admits c) :=
  match c with
  | .alloc _ => inferInstanceAs (Decidable (0 < _))
  | .uvAlloc => inferInstanceAs (Decidable (0 < _))
  | .free p => inferInstanceAs (Decidable (p ∈ u.live))

/-- The chain of free blocks and the blocks held share out the pool. -/
def Shared (size : Nat) (u : PoolUse α) : Prop :=
  u.pool.size = size ∧ ∃ free, u.pool.Owns free u.live

section Steps
variable {u u' : PoolUse α} {size : Nat}

theorem Shared.alloc (h : u.Shared size) (havailable : 0 < u.pool.available) (value : α) :
    ∃ pool p, u.pool.alloc value = .ok (pool, p) ∧ p ∉ u.live ∧ p < size ∧
      Shared size ⟨pool, p :: u.live⟩ := by
  obtain ⟨hsize, free, howns⟩ := h
  rcases free with _ | ⟨p, free⟩
  · have hcount := howns.count
    rw [MemoryPool.available, hcount] at havailable
    exact absurd havailable (Nat.lt_irrefl 0)
  · obtain ⟨pool, halloc, howns', -⟩ := howns.alloc value
    refine ⟨pool, p, halloc, howns.not_mem_live, hsize ▸ howns.lt_size (by simp), ?_, free,
      howns'⟩
    rw [MemoryPool.alloc] at halloc
    dsimp only at halloc
    split at halloc
    · cases halloc
      exact hsize
    · cases halloc

theorem Shared.free (h : u.Shared size) {p : Nat} (hp : p ∈ u.live) :
    Shared size ⟨u.pool.free p, u.live.erase p⟩ := by
  obtain ⟨hsize, free, howns⟩ := h
  exact ⟨hsize, p :: free, (howns.perm (List.perm_cons_erase hp)).release⟩

theorem Shared.call (h : u.Shared size) {c : PoolCall α} (ha : u.Admits c)
    (hcall : u.call c = .ok u') : u'.Shared size := by
  cases c with
  | alloc value =>
    obtain ⟨pool, p, halloc, -, -, hshared⟩ := h.alloc ha value
    simp only [PoolUse.call, halloc] at hcall
    cases hcall
    exact hshared
  | uvAlloc =>
    obtain ⟨pool, p, halloc, -, -, hshared⟩ := h.alloc ha (u.pool.read u.pool.freeBlockIndex)
    simp only [PoolUse.call, MemoryPool.uvAlloc_eq, halloc] at hcall
    cases hcall
    exact hshared
  | free p =>
    cases hcall
    exact h.free ha

theorem shared_create (default : α) (pos : 0 < size) (bounded : size ≤ MemoryPool.endOfChain) :
    (create default size).Shared size :=
  ⟨rfl, List.range size, MemoryPool.Owns.create default pos bounded⟩

end Steps

/-- What the chain of free blocks says of the blocks. -/
structure ExactChain (u : PoolUse α) (size : Nat) (free : List Nat) : Prop where
  chain : u.pool.FreeChain u.pool.freeBlockIndex free
  once : free.Nodup
  exact : ∀ b, b ∈ free ↔ b < size ∧ (u.pool.memoryBlocks b).isFree = true
  length : free.length = u.pool.available

section Chain
variable {u : PoolUse α} {size : Nat}

theorem Shared.exactChain (h : u.Shared size) : ∃ free, u.ExactChain size free := by
  obtain ⟨hsize, free, howns⟩ := h
  refine ⟨free, howns.chain, (List.nodup_append.mp howns.nodup).1, fun b => ⟨fun hb => ?_, ?_⟩,
    howns.count.symm⟩
  · exact ⟨hsize ▸ howns.lt_size (List.mem_append_left _ hb), howns.freeFlag b hb⟩
  · rintro ⟨hlt, hfree⟩
    have hmem : b ∈ free ++ u.live := howns.blocks.mem_iff.mpr (List.mem_range.mpr (hsize ▸ hlt))
    rcases List.mem_append.mp hmem with hb | hb
    · exact hb
    · rw [howns.liveFlag b hb] at hfree
      cases hfree

theorem Shared.live_iff (h : u.Shared size) (b : Nat) :
    b ∈ u.live ↔ b < size ∧ (u.pool.memoryBlocks b).isFree = false := by
  obtain ⟨hsize, free, howns⟩ := h
  refine ⟨fun hb => ⟨hsize ▸ howns.lt_size (List.mem_append_right _ hb), howns.liveFlag b hb⟩, ?_⟩
  rintro ⟨hlt, hlive⟩
  have hmem : b ∈ free ++ u.live := howns.blocks.mem_iff.mpr (List.mem_range.mpr (hsize ▸ hlt))
  rcases List.mem_append.mp hmem with hb | hb
  · rw [howns.freeFlag b hb] at hlive
    cases hlive
  · exact hb

theorem Shared.count (h : u.Shared size) : u.pool.available + u.live.length = u.pool.capacity := by
  obtain ⟨-, free, howns⟩ := h
  rw [MemoryPool.available, howns.count]
  exact howns.length

end Chain

section Run
variable {size : Nat} {cs : List (PoolCall α)} {u : PoolUse α}

/-- In every state a pool is brought to, the chain visits exactly the free blocks, each once,
and the next block handed out is held by nobody. -/
theorem pool_never_shares {default : α} (pos : 0 < size) (bounded : size ≤ MemoryPool.endOfChain)
    (h : Reached PoolUse.call PoolUse.Admits (create default size) cs u) :
    (∃ free, u.ExactChain size free) ∧
    (0 < u.pool.available →
      (∀ value, ∃ pool p, u.pool.alloc value = .ok (pool, p) ∧ p ∉ u.live ∧ p < size) ∧
      ∃ pool p, u.pool.uvAlloc = .ok (pool, p) ∧ p ∉ u.live ∧ p < size) ∧
    (∀ b, b ∈ u.live ↔ b < size ∧ (u.pool.memoryBlocks b).isFree = false) ∧ u.live.Nodup ∧
    u.pool.capacity = size ∧ u.pool.available + u.live.length = u.pool.capacity := by
  have hshared : u.Shared size :=
    h.invariant (shared_create default pos bounded) fun _ _ _ hs ha hcall => hs.call ha hcall
  have halloc : 0 < u.pool.available → ∀ value,
      ∃ pool p, u.pool.alloc value = .ok (pool, p) ∧ p ∉ u.live ∧ p < size := by
    intro havailable value
    obtain ⟨pool, p, hp, hfresh, hlt, -⟩ := hshared.alloc havailable value
    exact ⟨pool, p, hp, hfresh, hlt⟩
  refine ⟨hshared.exactChain, fun havailable => ⟨halloc havailable, ?_⟩, hshared.live_iff, ?_,
    hshared.1, hshared.count⟩
  · rw [MemoryPool.uvAlloc_eq]
    exact halloc havailable _
  · obtain ⟨-, free, howns⟩ := hshared
    exact howns.live_nodup

/-- A pool of two blocks, drained, refilled and used again. -/
def drained : List (PoolCall Nat) := [.alloc 7, .uvAlloc, .free 0, .free 1, .alloc 8]

theorem pool_never_shares_drained : ∃ u,
    Reached PoolUse.call PoolUse.Admits (create 0 2) drained u ∧
    u.pool.available + u.live.length = u.pool.capacity := by
  obtain ⟨u, hu, -⟩ := @reached_of_any _ _ _ PoolUse.call PoolUse.Admits (create 0 2) drained _
    (fun _ => true) (by decide)
  exact ⟨u, hu, (pool_never_shares (by decide) (by decide) hu).2.2.2.2.2⟩

end Run

end PoolUse

end StockExchange
