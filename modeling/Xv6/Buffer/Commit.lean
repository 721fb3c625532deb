import Xv6.Buffer.Step
import Xv6.Log.Crash

/-!
# The program of `commit`

What remains of a `commit` comes down to a list of instructions, as long as the
header in memory does not change.  `Safe` says that they keep the contents of all
blocks outside of the log, and `Quiet` that none of these blocks is written before
the header.  Both hold of the instructions of a transaction.
-/

namespace Xv6.Buffers

open Xv6.Log Xv6.Redo List

/-! ## Instructions -/

/-- Copy a block to the log. -/
def logPair (pair : Blockno × Blockno) : List Instr :=
  [.bread pair.2, .bread pair.1, .copy pair.2 pair.1, .brelse pair.1, .brelse pair.2]

/-- Copy a block from the log. -/
def installPair (pair : Blockno × Blockno) : List Instr :=
  [.bread pair.2, .bread pair.1, .copy pair.1 pair.2, .brelse pair.2, .brelse pair.1]

/-- What remains to be done, with the header in memory. -/
def flatten (log : Area) : Header → List Stmt → List Instr
  | _, [] => []
  | lh, .commit :: rest =>
    (if lh.block.length > 0 then
      (log.pairs lh).flatMap logPair ++ writeHeadBody log ++
        (log.pairs lh).flatMap installPair ++ writeHeadBody log
    else []) ++ flatten log .empty rest
  | lh, .writeLog tail :: rest =>
    ((log.pairs lh).drop tail).flatMap logPair ++ flatten log lh rest
  | lh, .writeHead :: rest => writeHeadBody log ++ flatten log lh rest
  | lh, .installTrans tail :: rest =>
    ((log.pairs lh).drop tail).flatMap installPair ++ flatten log lh rest
  | _, .clear :: rest => flatten log .empty rest
  | lh, .finish :: rest => flatten log lh rest
  | lh, .instr instr :: rest => instr :: flatten log lh rest

theorem flatten_instrs (log : Area) (lh : Header) (instrs : List Instr) (rest : List Stmt) :
    flatten log lh (instrs.map .instr ++ rest) = instrs ++ flatten log lh rest := by
  induction instrs with
  | nil => rfl
  | cons instr instrs ih =>
    simp only [map_cons, cons_append, flatten]
    rw [ih]

variable {log : Area} {lh : Header} {tail : Nat}

theorem pairs_drop_eq_nil (finished : lh.block[tail]? = none) : (log.pairs lh).drop tail = [] := by
  rw [drop_eq_nil_iff, Area.pairs, length_map, length_zipIdx]
  exact getElem?_eq_none_iff.mp finished

theorem pairs_drop_eq_cons {block : Blockno} (found : lh.block[tail]? = some block) :
    (log.pairs lh).drop tail = (block, log.logBlock tail) :: (log.pairs lh).drop (tail + 1) := by
  obtain ⟨bound, block_eq⟩ := List.getElem?_eq_some_iff.mp found
  have bound' : tail < (log.pairs lh).length := by
    simpa [Area.pairs] using bound
  rw [drop_eq_getElem_cons bound']
  simp [Area.pairs, block_eq]

/-- Executing a call or the test of a loop leaves the same instructions. -/
theorem flatten_expand (log : Area) (lh : Header) {stmt : Stmt} (isCall : stmt.isCall = true)
    (rest : List Stmt) :
    flatten log lh (expand log lh stmt ++ rest) = flatten log lh (stmt :: rest) := by
  cases stmt with
  | commit =>
    by_cases some_listed : lh.block.length > 0
    · simp [expand, flatten, some_listed]
    have empty : lh = .empty := by
      cases lh
      simpa [Header.empty] using some_listed
    subst empty
    rfl
  | writeLog tail | installTrans tail =>
    simp only [expand]
    cases found : lh.block[tail]? with
    | none => simp [flatten, pairs_drop_eq_nil found]
    | some block =>
      simp only [flatten, pairs_drop_eq_cons found]
      rfl
  | writeHead =>
    simp only [expand, flatten_instrs, flatten]
  | clear | finish | instr instr => contradiction

/-! ## What the instructions keep -/

/-- The instructions change blocks of the log only, or leave a block what it is. -/
def Safe (log : Area) : List Instr → (Blockno → Block) → Prop
  | [], _ => True
  | .bread _ :: rest, contents | .brelse _ :: rest, contents => Safe log rest contents
  | .copy dst src :: rest, contents =>
    (log.Contains dst ∨ contents src = contents dst) ∧
      Safe log rest (write contents (dst, contents src))
  | .head :: rest, contents =>
    log.Contains log.start ∧ ∀ data, Safe log rest (write contents (log.start, data))

/-- The instructions write no block outside of the log before the header. -/
def Quiet (log : Area) : List Instr → Prop
  | [] => True
  | .bread _ :: rest | .brelse _ :: rest => Quiet log rest
  | .copy dst _ :: rest => log.Contains dst ∧ Quiet log rest
  | .head :: _ => True

/-- The contents after copying blocks to the log. -/
def logged (contents : Blockno → Block) (pairs : List (Blockno × Blockno)) : Blockno → Block :=
  replay contents (pairs.map fun pair => (pair.2, contents pair.1))

variable {pair : Blockno × Blockno}

theorem logged_snd (transaction : Transaction log lh) (contents : Blockno → Block)
    (member : pair ∈ log.pairs lh) : logged contents (log.pairs lh) pair.2 = contents pair.1 := by
  refine replay_of_mem contents ?_ (mem_map.mpr ⟨pair, member, rfl⟩)
  rw [map_map]
  exact transaction.nodup_logged

theorem logged_fst (transaction : Transaction log lh) (contents : Blockno → Block)
    (member : pair ∈ log.pairs lh) : logged contents (log.pairs lh) pair.1 = contents pair.1 := by
  apply replay_of_not_mem
  rw [map_map]
  rintro written
  obtain ⟨other, otherMember, same⟩ := mem_map.mp written
  exact transaction.disjoint member otherMember same.symm

variable {pairs : List (Blockno × Blockno)} {rest : List Instr} {contents : Blockno → Block}

theorem safe_logPairs (inLog : ∀ pair ∈ pairs, log.Contains pair.2)
    (home : ∀ pair ∈ pairs, ¬log.Contains pair.1) (safe : Safe log rest (logged contents pairs)) :
    Safe log (pairs.flatMap logPair ++ rest) contents := by
  induction pairs generalizing contents with
  | nil => exact safe
  | cons pair pairs ih =>
    have source later (member : later ∈ pairs) : write contents (pair.2, contents pair.1) later.1 =
        contents later.1 := by
      apply write_of_ne
      rintro same
      exact home later (mem_cons_of_mem _ member) (same ▸ inLog pair mem_cons_self)
    refine ⟨.inl (inLog pair mem_cons_self), ih ?_ ?_ ?_⟩
    · exact fun later member => inLog later (mem_cons_of_mem _ member)
    · exact fun later member => home later (mem_cons_of_mem _ member)
    · rw [logged, map_congr_left fun later member => by rw [source later member]]
      exact safe

theorem safe_installPairs (same : ∀ pair ∈ pairs, contents pair.2 = contents pair.1)
    (safe : Safe log rest contents) : Safe log (pairs.flatMap installPair ++ rest) contents := by
  induction pairs with
  | nil => exact safe
  | cons pair pairs ih =>
    have equal := same pair mem_cons_self
    refine ⟨.inr equal, ?_⟩
    rw [show write contents (pair.1, contents pair.2) = contents by simp [write, equal]]
    exact ih fun later member => same later (mem_cons_of_mem _ member)

theorem quiet_logPairs (inLog : ∀ pair ∈ pairs, log.Contains pair.2) (quiet : Quiet log rest) :
    Quiet log (pairs.flatMap logPair ++ rest) := by
  induction pairs with
  | nil => exact quiet
  | cons pair pairs ih =>
    exact ⟨inLog pair mem_cons_self, ih fun later member => inLog later (mem_cons_of_mem _ member)⟩

/-- A commit is safe whatever the contents of the blocks are. -/
theorem safe_commit (transaction : lh.block ≠ [] → Transaction log lh)
    (contents : Blockno → Block) :
    Safe log (flatten log lh [.commit, .finish]) contents := by
  by_cases some_listed : lh.block.length > 0
  · have transaction := transaction (length_pos_iff.mp some_listed)
    have room := transaction.room
    have start : log.Contains log.start := ⟨0, by omega, by simp⟩
    simp only [flatten, some_listed, if_true, append_assoc]
    refine safe_logPairs (fun pair member => (transaction.mem_pairs member).2.1)
      (fun pair member => transaction.home _ (transaction.mem_pairs member).1) ⟨start, ?_⟩
    intro header
    refine safe_installPairs (fun pair member => ?_) ⟨start, fun _ => trivial⟩
    obtain ⟨listed, -, behind⟩ := transaction.mem_pairs member
    have notStart : pair.1 ≠ log.start := by
      rintro same
      exact transaction.home _ listed (same ▸ start)
    rw [write_of_ne _ behind, write_of_ne _ notStart, logged_snd transaction contents member,
      logged_fst transaction contents member]
  · simp [flatten, some_listed, Safe]

theorem quiet_commit (transaction : lh.block ≠ [] → Transaction log lh) :
    Quiet log (flatten log lh [.commit, .finish]) := by
  by_cases some_listed : lh.block.length > 0
  · have transaction := transaction (length_pos_iff.mp some_listed)
    simp only [flatten, some_listed, if_true, append_assoc]
    exact quiet_logPairs (fun pair member => (transaction.mem_pairs member).2.1) trivial
  · simp [flatten, some_listed, Quiet]

end Xv6.Buffers
