import StockExchange.Models
import Mathlib.Algebra.Group.Nat.Defs
import Mathlib.Data.List.Nodup
import Mathlib.Data.List.Range

/-!
# The block pool

`next` is only meaningful on free blocks; the chain ends in `size_t` max. In a
release build the assertions are empty, so `alloc` on an exhausted pool indexes
the block array with the sentinel and `free` accepts a free block.
-/

namespace StockExchange

structure MemoryBlock (α : Type) where
  data : α
  nextFreeBlock : Nat
  isFree : Bool

/-- `memory_pool<T>`; a `T*` into it is the index of its block. -/
structure MemoryPool (α : Type) where
  size : Nat
  memoryBlocks : Nat → MemoryBlock α
  freeBlockIndex : Nat
  freeBlockCount : Nat

namespace MemoryPool
variable {α : Type}

/-- `std::numeric_limits<size_t>::max()`. -/
def endOfChain : Nat := 2 ^ 64 - 1

def create (default : α) (size : Nat) : MemoryPool α where
  size := size
  memoryBlocks i := ⟨default, if i = size - 1 then endOfChain else i + 1, true⟩
  freeBlockIndex := 0
  freeBlockCount := size

def read (pool : MemoryPool α) (p : Nat) : α := (pool.memoryBlocks p).data

def write (pool : MemoryPool α) (p : Nat) (value : α) : MemoryPool α :=
  { pool with
    memoryBlocks := Function.update pool.memoryBlocks p
      { pool.memoryBlocks p with data := value } }

def alloc (pool : MemoryPool α) (value : α) : Except Fault (MemoryPool α × Nat) :=
  let p := pool.freeBlockIndex
  if p < pool.size then
    let block := pool.memoryBlocks p
    .ok ({ pool with
      memoryBlocks := Function.update pool.memoryBlocks p
        { block with data := value, isFree := false }
      freeBlockIndex := block.nextFreeBlock
      freeBlockCount := pool.freeBlockCount - 1 }, p)
  else .error .badAccess

def free (pool : MemoryPool α) (p : Nat) : MemoryPool α :=
  { pool with
    memoryBlocks := Function.update pool.memoryBlocks p
      { pool.memoryBlocks p with isFree := true, nextFreeBlock := pool.freeBlockIndex }
    freeBlockIndex := p
    freeBlockCount := pool.freeBlockCount + 1 }

@[simp] theorem read_write (pool : MemoryPool α) (p : Nat) (value : α) :
    (pool.write p value).read = Function.update pool.read p value := by
  funext q
  by_cases hq : q = p
  · subst hq
    simp [read, write]
  · simp [read, write, hq]

@[simp] theorem read_free (pool : MemoryPool α) (p : Nat) : (pool.free p).read = pool.read := by
  funext q
  by_cases hq : q = p
  · subst hq
    simp [read, free]
  · simp [read, free, hq]

theorem read_foldl_free (pool : MemoryPool α) (ps : List Nat) :
    (ps.foldl .free pool).read = pool.read := by
  induction ps generalizing pool with
  | nil => rfl
  | cons p ps ih => rw [List.foldl_cons, ih, read_free]

/-- The blocks visited from index `i` until the end-of-chain sentinel. -/
def FreeChain (pool : MemoryPool α) : Nat → List Nat → Prop
  | i, [] => i = endOfChain
  | i, b :: bs => i = b ∧ FreeChain pool (pool.memoryBlocks b).nextFreeBlock bs

/-- The free chain is `free` and the blocks handed out are `live`. -/
structure Owns (pool : MemoryPool α) (free live : List Nat) : Prop where
  chain : FreeChain pool pool.freeBlockIndex free
  count : pool.freeBlockCount = free.length
  blocks : (free ++ live).Perm (List.range pool.size)
  freeFlag : ∀ b ∈ free, (pool.memoryBlocks b).isFree = true
  liveFlag : ∀ b ∈ live, (pool.memoryBlocks b).isFree = false
  bounded : pool.size ≤ endOfChain

section Owns
variable {pool : MemoryPool α} {free live live' : List Nat} {p : Nat}

theorem FreeChain.congr {pool' : MemoryPool α} {i : Nat} (h : FreeChain pool i free)
    (same : ∀ b ∈ free,
      (pool'.memoryBlocks b).nextFreeBlock = (pool.memoryBlocks b).nextFreeBlock) :
    FreeChain pool' i free := by
  induction free generalizing i with
  | nil => exact h
  | cons b bs ih =>
    refine ⟨h.1, ?_⟩
    rw [same b List.mem_cons_self]
    exact ih h.2 fun c hc => same c (List.mem_cons_of_mem b hc)

theorem Owns.nodup (h : pool.Owns free live) : (free ++ live).Nodup :=
  h.blocks.nodup_iff.mpr List.nodup_range

theorem Owns.live_nodup (h : pool.Owns free live) : live.Nodup :=
  (List.nodup_append.mp h.nodup).2.1

theorem Owns.lt_size (h : pool.Owns free live) (hp : p ∈ free ++ live) : p < pool.size :=
  List.mem_range.mp (h.blocks.mem_iff.mp hp)

theorem Owns.length (h : pool.Owns free live) : free.length + live.length = pool.size := by
  simpa using h.blocks.length_eq

theorem Owns.not_mem_live (h : pool.Owns (p :: free) live) : p ∉ live := by
  have hnd := h.nodup
  rw [List.cons_append, List.nodup_cons] at hnd
  exact fun hp => hnd.1 (List.mem_append_right free hp)

theorem Owns.perm (h : pool.Owns free live) (hp : live.Perm live') : pool.Owns free live' :=
  ⟨h.chain, h.count, (hp.symm.append_left free).trans h.blocks, h.freeFlag,
    fun b hb => h.liveFlag b (hp.mem_iff.mpr hb), h.bounded⟩

theorem Owns.create (default : α) {size : Nat} (pos : 0 < size) (bounded : size ≤ endOfChain) :
    (MemoryPool.create default size).Owns (List.range size) [] := by
  have chain : ∀ n k, k + n = size → 0 < n →
      FreeChain (MemoryPool.create default size) k (List.range' k n) := by
    intro n
    induction n with
    | zero => intro k hk hn; omega
    | succ n ih =>
      intro k hk hn
      refine ⟨rfl, ?_⟩
      by_cases hlast : n = 0
      · subst hlast
        have : k = size - 1 := by omega
        simp [FreeChain, MemoryPool.create, this]
      · have : k ≠ size - 1 := by omega
        simpa [MemoryPool.create, this] using ih (k + 1) (by omega) (by omega)
  refine ⟨?_, by simp [MemoryPool.create], by simp [MemoryPool.create], by
    simp [MemoryPool.create], by simp, bounded⟩
  rw [List.range_eq_range']
  exact chain size 0 (by omega) pos

theorem Owns.write (h : pool.Owns free live) (value : α) :
    (pool.write p value).Owns free live := by
  have same : ∀ b, ((pool.write p value).memoryBlocks b).nextFreeBlock =
        (pool.memoryBlocks b).nextFreeBlock ∧
      ((pool.write p value).memoryBlocks b).isFree = (pool.memoryBlocks b).isFree := by
    intro b
    by_cases hb : b = p
    · subst hb
      simp [MemoryPool.write]
    · simp [MemoryPool.write, hb]
  exact ⟨h.chain.congr fun b _ => (same b).1, h.count, h.blocks,
    fun b hb => (same b).2.trans (h.freeFlag b hb),
    fun b hb => (same b).2.trans (h.liveFlag b hb), h.bounded⟩

/-- Allocation takes the first free block. -/
theorem Owns.alloc (h : pool.Owns (p :: free) live) (value : α) :
    ∃ pool', pool.alloc value = .ok (pool', p) ∧ pool'.Owns free (p :: live) ∧
      pool'.read = Function.update pool.read p value := by
  have hp : pool.freeBlockIndex = p := h.chain.1
  have hlt : p < pool.size := h.lt_size (by simp)
  have hnd := h.nodup
  rw [List.cons_append, List.nodup_cons] at hnd
  have other : ∀ b, b ∈ free ∨ b ∈ live → b ≠ p := by
    rintro b hb rfl
    exact hnd.1 (List.mem_append.mpr hb)
  refine ⟨_, by simp only [MemoryPool.alloc, hp, hlt, if_true]; rfl, ?_, ?_⟩
  · refine ⟨?_, ?_, ?_, ?_, ?_, h.bounded⟩
    · refine h.chain.2.congr fun b hb => ?_
      simp [other b (Or.inl hb)]
    · simp [h.count]
    · exact List.perm_middle.trans h.blocks
    · intro b hb
      simpa [other b (Or.inl hb)] using h.freeFlag b (List.mem_cons_of_mem p hb)
    · intro b hb
      rcases List.mem_cons.mp hb with rfl | hb
      · simp
      · simpa [other b (Or.inr hb)] using h.liveFlag b hb
  · funext q
    by_cases hq : q = p
    · subst hq
      simp [read]
    · simp [read, hq]

/-- An exhausted pool indexes its blocks with the sentinel. -/
theorem Owns.alloc_exhausted (h : pool.Owns [] live) (value : α) :
    pool.alloc value = .error .badAccess := by
  have hend : pool.freeBlockIndex = endOfChain := h.chain
  have hb := h.bounded
  have : ¬ endOfChain < pool.size := by omega
  simp [MemoryPool.alloc, hend, this]

theorem Owns.release (h : pool.Owns free (p :: live)) :
    (pool.free p).Owns (p :: free) live := by
  have hperm : (p :: (free ++ live)).Perm (free ++ p :: live) := List.perm_middle.symm
  have hcons := List.nodup_cons.mp (hperm.nodup_iff.mpr h.nodup)
  have other : ∀ b, b ∈ free ∨ b ∈ live → b ≠ p := by
    rintro b hb rfl
    exact hcons.1 (List.mem_append.mpr hb)
  refine ⟨⟨rfl, ?_⟩, ?_, hperm.trans h.blocks, ?_, ?_, h.bounded⟩
  · have hhead : ((pool.free p).memoryBlocks p).nextFreeBlock = pool.freeBlockIndex := by
      simp [MemoryPool.free]
    rw [hhead]
    refine h.chain.congr fun b hb => ?_
    simp [MemoryPool.free, other b (Or.inl hb)]
  · simp [MemoryPool.free, h.count]
  · intro b hb
    rcases List.mem_cons.mp hb with rfl | hb
    · simp [MemoryPool.free]
    · simpa [MemoryPool.free, other b (Or.inl hb)] using h.freeFlag b hb
  · intro b hb
    simpa [MemoryPool.free, other b (Or.inr hb)] using
      h.liveFlag b (List.mem_cons_of_mem p hb)

/-- Freeing all blocks in use, the last one freed is the first to be taken again. -/
theorem Owns.release_all {ps : List Nat} (h : pool.Owns free (ps ++ live)) :
    (ps.foldl .free pool).Owns (ps.reverse ++ free) live := by
  induction ps generalizing pool free with
  | nil => exact h
  | cons p ps ih =>
    rw [List.reverse_cons, List.append_assoc]
    exact ih h.release

end Owns

section Map
variable {β : Type} (f : α → β) (pool : MemoryPool α)

/-- The same blocks with other contents. -/
def map : MemoryPool β where
  size := pool.size
  memoryBlocks i := ⟨f (pool.memoryBlocks i).data, (pool.memoryBlocks i).nextFreeBlock,
    (pool.memoryBlocks i).isFree⟩
  freeBlockIndex := pool.freeBlockIndex
  freeBlockCount := pool.freeBlockCount

theorem map_create (default : α) (size : Nat) :
    (create default size).map f = create (f default) size := rfl

theorem map_write (p : Nat) (value : α) :
    (pool.write p value).map f = (pool.map f).write p (f value) := by
  have hblocks : ∀ i, (((pool.write p value).map f).memoryBlocks i) =
      (((pool.map f).write p (f value)).memoryBlocks i) := by
    intro i
    by_cases hi : i = p
    · subst hi
      simp [map, write]
    · simp [map, write, hi]
  exact congrArg (fun blocks => (⟨pool.size, blocks, pool.freeBlockIndex,
    pool.freeBlockCount⟩ : MemoryPool β)) (funext hblocks)

theorem map_free (p : Nat) : (pool.free p).map f = (pool.map f).free p := by
  have hblocks : ∀ i, (((pool.free p).map f).memoryBlocks i) =
      (((pool.map f).free p).memoryBlocks i) := by
    intro i
    by_cases hi : i = p
    · subst hi
      simp [map, free]
    · simp [map, free, hi]
  exact congrArg (fun blocks => (⟨pool.size, blocks, p, pool.freeBlockCount + 1⟩ :
    MemoryPool β)) (funext hblocks)

theorem map_foldl_free (ps : List Nat) :
    (ps.foldl .free pool).map f = ps.foldl .free (pool.map f) := by
  induction ps generalizing pool with
  | nil => rfl
  | cons p ps ih => rw [List.foldl_cons, List.foldl_cons, ih, map_free]

theorem map_alloc (value : α) : (pool.map f).alloc (f value) =
    (pool.alloc value).map fun r => (r.1.map f, r.2) := by
  by_cases hlt : pool.freeBlockIndex < pool.size
  · have hblocks : ∀ i, Function.update (pool.map f).memoryBlocks pool.freeBlockIndex
          ⟨f value, (pool.memoryBlocks pool.freeBlockIndex).nextFreeBlock, false⟩ i =
        ((⟨pool.size, Function.update pool.memoryBlocks pool.freeBlockIndex
          ⟨value, (pool.memoryBlocks pool.freeBlockIndex).nextFreeBlock, false⟩, 0, 0⟩ :
          MemoryPool α).map f).memoryBlocks i := by
      intro i
      by_cases hi : i = pool.freeBlockIndex
      · subst hi
        simp [map]
      · simp [map, hi]
    simp only [alloc, map, hlt, if_true, Except.map] at hblocks ⊢
    rw [funext hblocks]
  · simp only [alloc, map, hlt, if_false, Except.map]

end Map

end MemoryPool

end StockExchange
