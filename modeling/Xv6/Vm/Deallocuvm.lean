import Mathlib.Data.List.Basic
import Mathlib.Data.List.Nodup
import Xv6.Vm.Core

/-!
# `deallocuvm` and the visit of every page

Where a page table is absent the loop jumps to the next entry of the page directory.  A
loop that visits every page finds nothing there, so both have the same effect.  What they
free must not be one of the pages that they read, and no page may be freed twice.
-/

namespace Xv6.Vm

open Function List

/-- Like `deallocuvm`, but for the jump over absent page tables. -/
def everyPage : Nat → Nat → Nat → Nat → Memory → Option (Except String (Nat × Memory)) :=
  deallocWith id

section

variable (vm : Memory)

/-- The page tables that are present. -/
def tables : List Nat :=
  ((range 1024).filter fun index => Present (vm.pde index)).map fun index => frame (vm.pde index)

/-- The entry of a page, if its page table is present. -/
def entry (page : Nat) : Nat := vm.words (frame (vm.pde (page / 1024))) (page % 1024)

/-- The entry of a page is present. -/
def Mapped (page : Nat) : Prop := Present (vm.pde (page / 1024)) ∧ Present (entry vm page)

instance (page : Nat) : Decidable (Mapped vm page) := inferInstanceAs (Decidable (_ ∧ _))

/-- The present entries of some pages. -/
def entries (pages : List Nat) : List Nat := (pages.filter (Mapped vm ·)).map (entry vm)

/-- The frames of the present entries of some pages. -/
def frames (pages : List Nat) : List Nat := (entries vm pages).map frame

/-- The page directory, the page tables and the frames of some pages are all different, and
`deallocuvm` and `kfree` accept the frames. -/
def Sane (limit : Nat) (pages : List Nat) : Prop :=
  (vm.pgdir :: (tables vm ++ frames vm pages)).Nodup ∧ ∀ pte ∈ entries vm pages,
    pteAddr pte ≠ 0 ∧ limit ≤ frame pte ∧ v2p (frame pte) < phystop

instance (limit : Nat) (pages : List Nat) : Decidable (Sane vm limit pages) :=
  inferInstanceAs (Decidable (_ ∧ _))

/-- One page has been freed and its entry cleared. -/
def freed (page : Nat) : Memory :=
  { vm with
    words := update vm.words (frame (entry vm page))
      (update (fun _ => 0x01010101) 0 (vm.freelist.headD 0))
    freelist := frame (entry vm page) :: vm.freelist }.store
      (frame (vm.pde (page / 1024))) (page % 1024) 0

/-- A page has been visited, and freed if it was mapped. -/
def visit (page : Nat) : Memory := if Mapped vm page then freed vm page else vm

end

variable {limit oldsz page other next pte : Nat} {pages rest : List Nat} {vm target : Memory}

theorem mem_tables {index : Nat} (bound : index < 1024) (present : Present (vm.pde index)) :
    frame (vm.pde index) ∈ tables vm :=
  mem_map_of_mem (mem_filter.mpr ⟨mem_range.mpr bound, decide_eq_true present⟩)

theorem entries_cons : entries vm (page :: rest) =
    if Mapped vm page then entry vm page :: entries vm rest else entries vm rest := by
  by_cases mapped : Mapped vm page <;> simp [entries, mapped]

theorem entries_sublist (sublist : rest <+ pages) : entries vm rest <+ entries vm pages :=
  (sublist.filter _).map _

theorem Sane.sublist (sane : Sane vm limit pages) (sublist : rest <+ pages) : Sane vm limit rest :=
  ⟨sane.1.sublist ((((entries_sublist sublist).map _).append_left _).cons_cons _),
    fun pte member => sane.2 pte ((entries_sublist sublist).subset member)⟩

/-! ## One page -/

/-- The page directory is the same, and the present entry of the page has been cleared and its
frame freed. -/
structure Clears (vm target : Memory) (page : Nat) : Prop where
  pgdir : target.pgdir = vm.pgdir
  pde : ∀ index, target.pde index = vm.pde index
  entry : ∀ other < 1048576, Present (vm.pde (other / 1024)) →
    entry target other = if other = page ∧ Present (entry vm other) then 0 else entry vm other
  freelist : target.freelist =
    if Mapped vm page then frame (Vm.entry vm page) :: vm.freelist else vm.freelist

/-- No page that the walk reads is freed. -/
theorem clears_visit (sane : Sane vm limit (page :: rest)) (small : page < 1048576) :
    Clears vm (visit vm page) page := by
  rw [visit]
  split_ifs with mapped
  · obtain ⟨directory, nodup⟩ := nodup_cons.mp sane.1
    have member : frame (entry vm page) ∈ frames vm (page :: rest) := by
      simp [frames, entries_cons, mapped]
    have notTable : frame (entry vm page) ∉ tables vm := fun table =>
      (nodup_append.mp nodup).2.2 _ table _ member rfl
    have pde (index : Nat) : (freed vm page).pde index = vm.pde index := by
      have ne : frame (vm.pde (page / 1024)) ≠ vm.pgdir := fun same =>
        directory (mem_append_left _ (same ▸ mem_tables (by omega) mapped.1))
      have notDirectory : frame (entry vm page) ≠ vm.pgdir := fun same =>
        directory (mem_append_right _ (same ▸ member))
      change (freed vm page).words vm.pgdir index = vm.words vm.pgdir index
      simp [freed, Memory.store, ne.symm, notDirectory.symm]
    refine ⟨rfl, pde, fun other bound table => ?_, (if_pos mapped).symm⟩
    have ne : frame (vm.pde (other / 1024)) ≠ frame (entry vm page) := fun same =>
      notTable (same ▸ mem_tables (by omega) table)
    rw [entry, pde]
    by_cases own : other = page
    · simp [own, mapped.2, freed, Memory.store]
    · rw [if_neg fun both => own both.1, entry]
      by_cases shared : frame (vm.pde (other / 1024)) = frame (vm.pde (page / 1024))
      · have index : other / 1024 = page / 1024 := inj_on_of_nodup_map (nodup_append.mp nodup).1
          (by simpa using ⟨by omega, table⟩) (by simpa using ⟨by omega, mapped.1⟩) shared
        have differs : other % 1024 ≠ page % 1024 := by omega
        simp [freed, Memory.store, ← shared, differs, ne]
      · simp [freed, Memory.store, shared, ne]
  · refine ⟨rfl, fun _ => rfl, fun other _ table => ?_, (if_neg mapped).symm⟩
    rw [if_neg]
    rintro ⟨rfl, present⟩
    exact mapped ⟨table, present⟩

namespace Clears

variable (clears : Clears vm target page) (fresh : page ∉ rest)
  (small : ∀ other ∈ rest, other < 1048576)
include clears fresh small

theorem entries_eq : entries target rest = entries vm rest := by
  have same (other : Nat) (member : other ∈ rest) (table : Present (vm.pde (other / 1024))) :
      Vm.entry target other = Vm.entry vm other := by
    rw [clears.entry other (small other member) table, if_neg]
    exact fun both => fresh (both.1 ▸ member)
  have mapped (other : Nat) (member : other ∈ rest) : Mapped target other ↔ Mapped vm other := by
    unfold Mapped
    rw [clears.pde]
    exact and_congr_right fun table => by rw [same other member table]
  unfold entries
  rw [filter_congr fun other member => decide_eq_decide.mpr (mapped other member)]
  refine map_congr_left fun other member => ?_
  obtain ⟨member, mapped⟩ := mem_filter.mp member
  exact same other member (of_decide_eq_true mapped).1

theorem sane (sane : Sane vm limit (page :: rest)) : Sane target limit rest := by
  have sane := sane.sublist (sublist_cons_self page rest)
  unfold Sane frames tables at *
  simpa only [clears.entries_eq fresh small, clears.pde, clears.pgdir] using sane

end Clears

/-- The visit of pages frees the frames of the present entries and clears these entries. -/
theorem foldl_visit (sane : Sane vm limit pages) (nodup : pages.Nodup)
    (small : ∀ other ∈ pages, other < 1048576) :
    (pages.foldl visit vm).freelist = (frames vm pages).reverse ++ vm.freelist ∧
      (∀ index, (pages.foldl visit vm).pde index = vm.pde index) ∧
      ∀ other < 1048576, Present (vm.pde (other / 1024)) → entry (pages.foldl visit vm) other =
        if other ∈ pages ∧ Present (entry vm other) then 0 else entry vm other := by
  induction pages generalizing vm with
  | nil => simp [frames, entries]
  | cons page rest ih =>
    obtain ⟨fresh, nodup⟩ := nodup_cons.mp nodup
    obtain ⟨here, small⟩ := forall_mem_cons.mp small
    have clears := clears_visit sane here
    obtain ⟨freelist_eq, pde, entries_eq⟩ := ih (clears.sane fresh small sane) nodup small
    refine ⟨?_, fun index => (pde index).trans (clears.pde index), fun other bound table => ?_⟩
    · rw [foldl_cons, freelist_eq, clears.freelist, frames, clears.entries_eq fresh small]
      by_cases mapped : Mapped vm page <;> simp [frames, entries_cons, mapped]
    · rw [foldl_cons, entries_eq other bound (by rwa [clears.pde]), clears.entry other bound table]
      by_cases own : other = page <;> simp [own, fresh]

/-! ## The loop -/

/-- The place of the entry of a page below `KERNBASE`. -/
theorem pdx_mul (inUser : page < 524288) :
    pdx (page * pgsize) = page / 1024 ∧ ptx (page * pgsize) = page % 1024 := by
  unfold pdx ptx pgsize
  omega

theorem dealloc_of_sane (sane : Sane vm limit (page :: rest))
    (table : Present (vm.pde (page / 1024))) :
    dealloc limit (frame (vm.pde (page / 1024))) (page % 1024) vm = .ok (visit vm page) := by
  by_cases present : Present (entry vm page)
  · have mapped : Mapped vm page := ⟨table, present⟩
    obtain ⟨nonzero, above, below⟩ := sane.2 (entry vm page) (by simp [entries_cons, mapped])
    have whole : frame (entry vm page) % pgsize = 0 := by
      unfold frame p2v pteAddr pgsize wordSize kernbase
      omega
    rw [visit, if_pos mapped]
    unfold entry at *
    rw [dealloc, if_pos present, if_neg nonzero, kfree, if_neg (by omega)]
    rfl
  · rw [visit, if_neg fun mapped => present mapped.2]
    exact if_neg present

/-- The skip goes forward, and not beyond the end of the absent page table. -/
def Skips (skip : Nat → Nat) : Prop :=
  ∀ page < 524288, ∃ next, skip (page * pgsize) + pgsize = next * pgsize ∧ page < next ∧
    next ≤ (page / 1024 + 1) * 1024

theorem skips_id : Skips id := by
  intro page _
  exact ⟨page + 1, (Nat.succ_mul ..).symm, Nat.lt_succ_self page, by omega⟩

theorem skips_skipTable : Skips skipTable := by
  intro page inUser
  refine ⟨(page / 1024 + 1) * 1024, ?_, by omega, Nat.le_refl _⟩
  rw [skipTable, (pdx_mul inUser).1, pgaddr, Nat.zero_shiftLeft, Nat.or_zero, Nat.or_zero,
    Nat.shiftLeft_eq]
  unfold wordSize pgsize
  omega

/-- The pages from one on. -/
def pagesFrom (oldsz page : Nat) : List Nat := range' page ((oldsz + 4095) / pgsize - page)

theorem mem_pagesFrom : other ∈ pagesFrom oldsz page ↔ page ≤ other ∧ other * pgsize < oldsz := by
  unfold pagesFrom pgsize
  rw [mem_range'_1]
  omega

theorem lt_of_mem_pagesFrom (inUser : oldsz ≤ kernbase) (member : other ∈ pagesFrom oldsz page) :
    other < 524288 := by
  have inside := (mem_pagesFrom.mp member).2
  unfold kernbase pgsize at *
  omega

theorem pagesFrom_succ (inside : page * pgsize < oldsz) :
    pagesFrom oldsz page = page :: pagesFrom oldsz (page + 1) := by
  unfold pagesFrom pgsize at *
  rw [← range'_succ]
  congr 1
  omega

theorem pagesFrom_of_le (outside : ¬page * pgsize < oldsz) : pagesFrom oldsz page = [] := by
  unfold pagesFrom pgsize at *
  rw [range'_eq_nil_iff]
  omega

/-- Pages that are not mapped may be left out. -/
theorem foldl_pagesFrom (oldsz : Nat) (le : page ≤ next)
    (absent : ∀ other, page ≤ other → other < next → ¬Mapped vm other) :
    pagesFrom oldsz next <+ pagesFrom oldsz page ∧
      (pagesFrom oldsz page).foldl visit vm = (pagesFrom oldsz next).foldl visit vm := by
  induction le with
  | refl => exact ⟨.refl _, rfl⟩
  | @step next le ih =>
    obtain ⟨sublist, same⟩ := ih fun other above below => absent other above (by omega)
    by_cases inside : next * pgsize < oldsz
    · rw [pagesFrom_succ inside] at sublist same
      refine ⟨(sublist_cons_self ..).trans sublist, ?_⟩
      rw [same, foldl_cons, visit, if_neg (absent next le (Nat.lt_succ_self next))]
    · rw [pagesFrom_of_le inside] at sublist same
      rw [pagesFrom_of_le (by rw [Nat.succ_mul]; omega)]
      exact ⟨sublist, same⟩

/-- The loop ends, and the pages that were left have been visited. -/
theorem deallocLoop_of_sane {skip : Nat → Nat} (skips : Skips skip) (inUser : oldsz ≤ kernbase)
    (sane : Sane vm limit (pagesFrom oldsz page)) :
    ∃ turns, deallocLoop limit oldsz skip turns (page * pgsize) vm =
      some (.ok ((pagesFrom oldsz page).foldl visit vm)) := by
  induction left : 524288 - page using Nat.strongRecOn generalizing page vm with
  | ind left ih =>
    by_cases inside : page * pgsize < oldsz
    · have user := lt_of_mem_pagesFrom inUser (mem_pagesFrom.mpr ⟨Nat.le_refl page, inside⟩)
      -- the loop goes on behind this page, or behind the absent page table
      have goOn {next : Nat} {vm : Memory} (ahead : page < next) (bound : next ≤ 524288)
          (sane : Sane vm limit (pagesFrom oldsz next)) :
          ∃ turns, deallocLoop limit oldsz skip turns (next * pgsize % wordSize) vm =
            some (.ok ((pagesFrom oldsz next).foldl visit vm)) := by
        rw [Nat.mod_eq_of_lt (by unfold pgsize wordSize; omega)]
        exact ih _ (by omega) sane rfl
      obtain ⟨pdx_eq, ptx_eq⟩ := pdx_mul user
      by_cases table : Present (vm.pde (page / 1024))
      · have fresh : page ∉ pagesFrom oldsz (page + 1) := fun member =>
          Nat.not_succ_le_self page (mem_pagesFrom.mp member).1
        rw [pagesFrom_succ inside] at sane ⊢
        obtain ⟨turns, ends⟩ := goOn (Nat.lt_succ_self page) user
          ((clears_visit sane (by omega)).sane fresh
            (fun other member => Nat.lt_trans (lt_of_mem_pagesFrom inUser member) (by decide)) sane)
        refine ⟨turns + 1, ?_⟩
        rw [deallocLoop, if_pos inside, walkpgdir, pdx_eq, ptx_eq, if_pos table]
        simp only [dealloc_of_sane sane table, ← Nat.succ_mul, ends, foldl_cons]
      · obtain ⟨next, skip_eq, ahead, within⟩ := skips page user
        have absent (other : Nat) (above : page ≤ other) (below : other < next) :
            ¬Mapped vm other := by
          have same : other / 1024 = page / 1024 := by omega
          exact fun mapped => table (same ▸ mapped.1)
        obtain ⟨sublist, same⟩ := foldl_pagesFrom oldsz (Nat.le_of_lt ahead) absent
        obtain ⟨turns, ends⟩ := goOn ahead (by omega) (sane.sublist sublist)
        refine ⟨turns + 1, ?_⟩
        rw [deallocLoop, if_pos inside, walkpgdir, pdx_eq, if_neg table, same]
        simp only [skip_eq, ends]
    · exact ⟨1, by rw [deallocLoop, if_neg inside, pagesFrom_of_le inside, foldl_nil]⟩

/-- The entry that translates an address, if its page table is present. -/
def translation (vm : Memory) (va : Nat) : Option Nat :=
  (walkpgdir vm va).map fun place => vm.words place.1 place.2

/-- With different page tables, and different frames that are none of them and that `kfree`
accepts, `deallocuvm` returns `newsz`, and so does the loop that visits every page.  They
leave the same memory: they have freed the frames of the present entries in the range, one
for each, and cleared these entries. -/
theorem deallocuvm_eq_everyPage_of_sane (limit oldsz newsz : Nat) (vm : Memory)
    (smaller : newsz < oldsz) (inUser : oldsz ≤ kernbase)
    (sane : Sane vm limit (pagesFrom oldsz (pgroundup newsz / pgsize))) :
    ∃ target, (∃ turns, deallocuvm limit turns oldsz newsz vm = some (.ok (newsz, target))) ∧
      (∃ turns, everyPage limit turns oldsz newsz vm = some (.ok (newsz, target))) ∧
      target.freelist =
        (frames vm (pagesFrom oldsz (pgroundup newsz / pgsize))).reverse ++ vm.freelist ∧
      ∀ va < wordSize, translation target va = (translation vm va).map fun pte =>
        if (pgroundup newsz ≤ va / pgsize * pgsize ∧ va / pgsize * pgsize < oldsz) ∧ Present pte
        then 0 else pte := by
  have start : pgroundup newsz / pgsize * pgsize = pgroundup newsz :=
    Nat.div_mul_cancel (Nat.dvd_mul_left ..)
  have ends skip (skips : Skips skip) : ∃ turns, deallocWith skip limit turns oldsz newsz vm = some
      (.ok (newsz, (pagesFrom oldsz (pgroundup newsz / pgsize)).foldl visit vm)) := by
    obtain ⟨turns, ends⟩ := deallocLoop_of_sane skips inUser sane
    refine ⟨turns, ?_⟩
    rw [start] at ends
    rw [deallocWith, if_neg (Nat.not_le.mpr smaller), ends]
    rfl
  obtain ⟨freelist_eq, pde, entries⟩ := foldl_visit sane nodup_range' fun other member =>
    Nat.lt_trans (lt_of_mem_pagesFrom inUser member) (by decide)
  refine ⟨_, ends _ skips_skipTable, ends _ skips_id, freelist_eq, fun va va_lt => ?_⟩
  have place : pdx va = va / pgsize / 1024 ∧ ptx va = va / pgsize % 1024 ∧
      va / pgsize < 1048576 := by
    unfold pdx ptx pgsize wordSize at *
    omega
  have range : pgroundup newsz / pgsize ≤ va / pgsize ↔ pgroundup newsz ≤ va / pgsize * pgsize := by
    rw [← start, Nat.mul_div_cancel _ (by decide : 0 < pgsize)]
    exact (Nat.mul_le_mul_right_iff (by decide)).symm
  unfold translation walkpgdir
  rw [place.1, place.2.1, pde]
  by_cases table : Present (vm.pde (va / pgsize / 1024))
  · have cleared := entries (va / pgsize) place.2.2 table
    unfold entry at cleared
    rw [pde] at cleared
    simp only [if_pos table, Option.map_some, cleared, mem_pagesFrom, range]
  · simp only [if_neg table, Option.map_none]

/-- A page directory with two page tables that map one page each, and no page table between. -/
def twoTables : Memory where
  words page index :=
    if page = 0x80300000 ∧ index = 0 then 0x301007
    else if page = 0x80300000 ∧ index = 2 then 0x302007
    else if page = 0x80301000 ∧ index = 0 then 0x400007
    else if page = 0x80302000 ∧ index = 0 then 0x401007
    else 0
  pgdir := 0x80300000
  freelist := []

theorem deallocuvm_twoTables :
    ∃ target, (∃ turns, deallocuvm 0x80200000 turns 0x801000 0 twoTables =
      some (.ok (0, target))) ∧ target.freelist = [0x80401000, 0x80400000] := by
  obtain ⟨target, ends, -, freelist, -⟩ := deallocuvm_eq_everyPage_of_sane 0x80200000
    0x801000 0 twoTables (by decide) (by decide) (by decide +kernel)
  refine ⟨target, ends, freelist.trans ?_⟩
  decide +kernel

/-- A present entry for the first frame of memory. -/
theorem not_deallocuvm_frameZero :
    ¬∃ turns target, deallocuvm 0x80200000 turns 4096 0
      ⟨fun page _ => if page = 0x80300000 then 0x301007 else 7, 0x80300000, []⟩ =
        some (.ok (0, target)) := by
  rintro ⟨turns, target, ends⟩
  cases turns <;> cases ends

end Xv6.Vm
