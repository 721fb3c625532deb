import Mathlib.Logic.Function.Basic

/-!
# Page tables and free pages

Addresses and entries are 32-bit numbers.  Memory is a set of pages under their kernel
addresses, each an array of words: page directories, page tables and the frames that they
map are all pages, and `kfree` fills the one it frees.
-/

namespace Xv6.Vm

open Function

/-- The number of 32-bit values. -/
def wordSize : Nat := 4294967296

/-- `PGSIZE`, the bytes of a page. -/
def pgsize : Nat := 4096

/-- `KERNBASE`, the first kernel address. -/
def kernbase : Nat := 0x80000000

/-- `PHYSTOP`, the end of the physical memory. -/
def phystop : Nat := 0xE000000

/-- `PDX`, the index into the page directory. -/
def pdx (va : Nat) : Nat := va / 4194304 % 1024

/-- `PTX`, the index into a page table. -/
def ptx (va : Nat) : Nat := va / 4096 % 1024

/-- `PGADDR`. -/
def pgaddr (d t o : Nat) : Nat := (d <<< 22 ||| t <<< 12 ||| o) % wordSize

/-- `PGROUNDUP`. -/
def pgroundup (sz : Nat) : Nat := (sz + pgsize - 1) % wordSize / pgsize * pgsize

/-- `PTE_ADDR`. -/
def pteAddr (pte : Nat) : Nat := pte / 4096 * 4096

/-- `P2V`. -/
def p2v (pa : Nat) : Nat := (pa + kernbase) % wordSize

/-- `V2P`. -/
def v2p (va : Nat) : Nat := (va + wordSize - kernbase) % wordSize

/-- `P2V(PTE_ADDR(pte))`, the kernel address of the page that an entry points to. -/
def frame (pte : Nat) : Nat := p2v (pteAddr pte)

/-- The bit `PTE_P` of an entry. -/
def Present (pte : Nat) : Prop := pte % 2 = 1

instance (pte : Nat) : Decidable (Present pte) := inferInstanceAs (Decidable (_ = _))

/-- The words of every page, the page directory `pgdir` in question and the pages on
`kmem.freelist`. -/
structure Memory where
  words : Nat → Nat → Nat
  pgdir : Nat
  freelist : List Nat

/-- An entry of the page directory. -/
def Memory.pde (vm : Memory) (index : Nat) : Nat := vm.words vm.pgdir index

/-- The entry that `walkpgdir` finds without allocating page tables: its page table and its
index there. -/
def walkpgdir (vm : Memory) (va : Nat) : Option (Nat × Nat) :=
  if Present (vm.pde (pdx va)) then some (frame (vm.pde (pdx va)), ptx va) else none

/-- A store to a word. -/
def Memory.store (vm : Memory) (page index value : Nat) : Memory :=
  { vm with words := update vm.words page (update (vm.words page) index value) }

/-- `kfree`, where `limit` is the symbol `end`.  The page is filled with ones, and its first
word links it to the free list. -/
def kfree (limit v : Nat) (vm : Memory) : Except String Memory :=
  if v % pgsize ≠ 0 ∨ v < limit ∨ phystop ≤ v2p v then .error "kfree"
  else .ok
    { vm with
      words := update vm.words v (update (fun _ => 0x01010101) 0 (vm.freelist.headD 0))
      freelist := v :: vm.freelist }

/-- What `deallocuvm` does with an entry. -/
def dealloc (limit pgtab index : Nat) (vm : Memory) : Except String Memory :=
  let pte := vm.words pgtab index
  if Present pte then
    if pteAddr pte = 0 then .error "kfree"
    else (kfree limit (frame pte) vm).map fun vm => vm.store pgtab index 0
  else .ok vm

/-- The loop of `deallocuvm`, for a number of turns; `skip` gives what becomes of `a` where
there is no page table. -/
def deallocLoop (limit oldsz : Nat) (skip : Nat → Nat) :
    Nat → Nat → Memory → Option (Except String Memory)
  | 0, _, _ => none
  | turns + 1, a, vm =>
    if a < oldsz then
      match walkpgdir vm a with
      | none => deallocLoop limit oldsz skip turns ((skip a + pgsize) % wordSize) vm
      | some (pgtab, index) =>
        match dealloc limit pgtab index vm with
        | .error message => some (.error message)
        | .ok vm => deallocLoop limit oldsz skip turns ((a + pgsize) % wordSize) vm
    else some (.ok vm)

/-- `deallocuvm` up to the choice of `skip`; there is no result until the loop has ended. -/
def deallocWith (skip : Nat → Nat) (limit turns oldsz newsz : Nat) (vm : Memory) :
    Option (Except String (Nat × Memory)) :=
  if newsz ≥ oldsz then some (.ok (oldsz, vm))
  else (deallocLoop limit oldsz skip turns (pgroundup newsz) vm).map (·.map (newsz, ·))

/-- `PGADDR(PDX(a) + 1, 0, 0) - PGSIZE`. -/
def skipTable (a : Nat) : Nat := (pgaddr (pdx a + 1) 0 0 + wordSize - pgsize) % wordSize

/-- `deallocuvm`. -/
def deallocuvm : Nat → Nat → Nat → Nat → Memory → Option (Except String (Nat × Memory)) :=
  deallocWith skipTable

end Xv6.Vm
