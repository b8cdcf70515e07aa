import RowFilter.Proofs.Emission.Running
import RowFilter.Selector

/-!
# The row loop

What a selector writes when it is run over a range of rows.

The loop is followed pass by pass. After `k` passes the row register is `k` rows further on, the
count register counts the accepted ones among these rows, and the buffer begins with them and is
otherwise as it was: `LoopState.Reached`. A range is left after one pass for each of its rows; if
their number fits in a register, neither register runs over.

## Main definitions

- `Selector.rowsFrom` — the rows that follow each other from a given one on.
- `LoopState`, `LoopState.pass` — the registers of the loop, and one pass through it.

## Main statements

- `Selector.passes_reached` — the loop after any number of passes.
- `Selector.scan_eq_passes` — how many passes there are.
- `Selector.mem_select_iff` — the selected rows of a range, which may be of any length.
- `Selector.execute_selected` — the rows that are written, and what is left alone.
-/

namespace RowFilter

namespace Selector

variable {accepts : BitVec 64 → Bool} {start stop : BitVec 64} {out : Array (BitVec 64)}

/-- The `n` rows that follow each other from a given one on. -/
def rowsFrom (start : BitVec 64) (n : Nat) : List (BitVec 64) :=
  (List.range n).map fun k => start + BitVec.ofNat 64 k

/-- The number of rows from `start` up to `stop`; none if the range is reversed. -/
def rowCount (start stop : BitVec 64) : Nat :=
  (stop.toInt - start.toInt).toNat

/-- The number of rows fits in a register as an unsigned number, whatever the range. -/
theorem rowCount_lt (start stop : BitVec 64) : rowCount start stop < 0x10000000000000000 := by
  have hstart : -2 ^ 63 ≤ start.toInt := BitVec.le_toInt start
  have hstop : stop.toInt < 2 ^ 63 := BitVec.toInt_lt (x := stop)
  unfold rowCount
  omega

theorem length_rowsFrom (start : BitVec 64) (n : Nat) : (rowsFrom start n).length = n := by
  simp [rowsFrom]

theorem rowsFrom_succ (start : BitVec 64) (n : Nat) :
    rowsFrom start (n + 1) = rowsFrom start n ++ [start + BitVec.ofNat 64 n] := by
  simp [rowsFrom, List.range_succ]

theorem rowsFrom_add (start : BitVec 64) (m n : Nat) :
    rowsFrom start (m + n) = rowsFrom start m ++ rowsFrom (start + BitVec.ofNat 64 m) n := by
  simp [rowsFrom, List.range_add, BitVec.ofNat_add, BitVec.add_assoc]

/-- Within a range, and at its end, the `k`-th row has not run over. -/
theorem toInt_row {k : Nat} (h : k ≤ rowCount start stop) :
    (start + BitVec.ofNat 64 k).toInt = start.toInt + k := by
  have hlow : -2 ^ 63 ≤ start.toInt := BitVec.le_toInt start
  have hhigh : start.toInt < 2 ^ 63 := BitVec.toInt_lt (x := start)
  have hstop : stop.toInt < 2 ^ 63 := BitVec.toInt_lt (x := stop)
  unfold rowCount at h
  rw [BitVec.toInt_add, BitVec.toInt_ofNat', Int.add_bmod_bmod]
  apply Int.bmod_eq_of_le <;> omega

theorem mem_rowsFrom_iff {row : BitVec 64} :
    row ∈ rowsFrom start (rowCount start stop) ↔
      start.toInt ≤ row.toInt ∧ row.toInt < stop.toInt := by
  simp only [rowsFrom, List.mem_map, List.mem_range]
  constructor
  · rintro ⟨k, hk, rfl⟩
    rw [toInt_row (Nat.le_of_lt hk)]
    unfold rowCount at hk
    omega
  · rintro ⟨hstart, hstop⟩
    have hk : (row.toInt - start.toInt).toNat < rowCount start stop := by
      unfold rowCount
      omega
    refine ⟨_, hk, BitVec.toInt_inj.1 ?_⟩
    rw [toInt_row (Nat.le_of_lt hk)]
    omega

theorem pairwise_rowsFrom :
    (rowsFrom start (rowCount start stop)).Pairwise fun r r' => r.toInt < r'.toInt := by
  rw [rowsFrom, List.pairwise_map]
  refine List.pairwise_lt_range.imp_of_mem fun {i j} hi hj hlt => ?_
  rw [toInt_row (Nat.le_of_lt (List.mem_range.1 hi)),
    toInt_row (Nat.le_of_lt (List.mem_range.1 hj))]
  omega

/-- The row register, the count register and the buffer, as they are when the loop tests its row. -/
structure LoopState where
  row : BitVec 64
  count : BitVec 64
  out : Array (BitVec 64)

namespace LoopState

/-- One pass: an accepted row is written and counted, and the row register is stepped. -/
def pass (accepts : BitVec 64 → Bool) (s : LoopState) : LoopState :=
  if accepts s.row then ⟨s.row + 1, s.count + 1, s.out.setIfInBounds s.count.toNat s.row⟩
  else ⟨s.row + 1, s.count, s.out⟩

def passes (accepts : BitVec 64 → Bool) : Nat → LoopState → LoopState
  | 0, s => s
  | n + 1, s => (passes accepts n s).pass accepts

/-- The loop after `k` passes, started at a row with a buffer. -/
structure Reached (accepts : BitVec 64 → Bool) (start : BitVec 64) (out : Array (BitVec 64))
    (k : Nat) (s : LoopState) : Prop where
  row : s.row = start + BitVec.ofNat 64 k
  count : s.count = BitVec.ofNat 64 ((rowsFrom start k).filter accepts).length
  out : s.out.toList = (rowsFrom start k).filter accepts ++
    out.toList.drop ((rowsFrom start k).filter accepts).length

theorem length_filter_rowsFrom_le (accepts : BitVec 64 → Bool) (start : BitVec 64) (k : Nat) :
    ((rowsFrom start k).filter accepts).length ≤ k := by
  have h := List.length_filter_le accepts (rowsFrom start k)
  rwa [length_rowsFrom] at h

theorem Reached.toNat_count {k : Nat} {s : LoopState} (h : s.Reached accepts start out k)
    (hk : k < 0x10000000000000000) :
    s.count.toNat = ((rowsFrom start k).filter accepts).length := by
  have hle := length_filter_rowsFrom_le accepts start k
  rw [h.count, BitVec.toNat_ofNat, Nat.mod_eq_of_lt (by omega)]

theorem Reached.pass {k : Nat} {s : LoopState} (h : s.Reached accepts start out k)
    (hk : k < 0x10000000000000000) (hout : k < out.size) :
    (s.pass accepts).Reached accepts start out (k + 1) := by
  have hrow : s.row + 1 = start + BitVec.ofNat 64 (k + 1) := by
    rw [h.row, BitVec.ofNat_add, BitVec.add_assoc]
    rfl
  by_cases haccept : accepts s.row = true
  · have hrows : (rowsFrom start (k + 1)).filter accepts =
        (rowsFrom start k).filter accepts ++ [s.row] := by
      simp only [rowsFrom_succ, ← h.row, List.filter_append, List.filter_cons, haccept, if_true,
        List.filter_nil]
    have hlt : ((rowsFrom start k).filter accepts).length < out.toList.length := by
      have hle := length_filter_rowsFrom_le accepts start k
      have hsize : out.toList.length = out.size := Array.length_toList
      omega
    rw [LoopState.pass, if_pos haccept]
    refine ⟨hrow, ?_, ?_⟩
    · rw [hrows, List.length_append, BitVec.ofNat_add, ← h.count]
      rfl
    · -- The entry behind the accepted rows is the first one that is still as it was.
      rw [Array.toList_setIfInBounds, h.toNat_count hk, h.out,
        List.set_append_right _ _ (Nat.le_refl _), Nat.sub_self, List.drop_eq_getElem_cons hlt,
        List.set_cons_zero, hrows, List.length_append, List.append_assoc]
      rfl
  · have hrows : (rowsFrom start (k + 1)).filter accepts = (rowsFrom start k).filter accepts := by
      simp only [rowsFrom_succ, ← h.row, List.filter_append, List.filter_cons, haccept, if_false,
        List.filter_nil, List.append_nil, Bool.false_eq_true]
    rw [LoopState.pass, if_neg haccept]
    exact ⟨hrow, by rw [hrows]; exact h.count, by rw [hrows]; exact h.out⟩

end LoopState

open LoopState (pass passes Reached)

/-- The loop after any number of passes for which the buffer has entries. -/
theorem passes_reached (accepts : BitVec 64 → Bool) (start : BitVec 64) (out : Array (BitVec 64))
    {k : Nat} (hk : k < 0x10000000000000000) (hout : k ≤ out.size) :
    Reached accepts start out k (passes accepts k ⟨start, 0, out⟩) := by
  induction k with
  | zero =>
    have hrows : rowsFrom start 0 = [] := rfl
    exact ⟨(BitVec.add_zero start).symm, by rw [hrows]; rfl, by rw [hrows]; rfl⟩
  | succ k ih => exact (ih (by omega) (by omega)).pass (by omega) (by omega)

theorem scan_pass {s : LoopState} (h : s.row.slt stop = true) :
    scan accepts stop s.row s.count s.out =
      scan accepts stop (s.pass accepts).row (s.pass accepts).count (s.pass accepts).out := by
  rw [scan, if_pos h, LoopState.pass]
  split <;> rfl

section

-- The buffer has an entry for each row.
variable (hout : rowCount start stop ≤ out.size)

include hout

/-- Before its last pass the loop is still within the range. -/
theorem row_passes_lt (accepts : BitVec 64 → Bool) {k : Nat} (hk : k < rowCount start stop) :
    (passes accepts k ⟨start, 0, out⟩).row.toInt < stop.toInt := by
  have hlt := rowCount_lt start stop
  rw [(passes_reached accepts start out (by omega) (by omega)).row, toInt_row (Nat.le_of_lt hk)]
  unfold rowCount at hk
  omega

theorem scan_eq_scan_passes {k : Nat} (hk : k ≤ rowCount start stop) :
    scan accepts stop start 0 out =
      scan accepts stop (passes accepts k ⟨start, 0, out⟩).row
        (passes accepts k ⟨start, 0, out⟩).count (passes accepts k ⟨start, 0, out⟩).out := by
  induction k with
  | zero => rfl
  | succ k ih =>
    have hrow := row_passes_lt hout accepts hk
    rw [ih (by omega), scan_pass (BitVec.slt_iff_toInt_lt.2 hrow), passes]

/-- The loop ends after one pass for each row of the range. -/
theorem scan_eq_passes :
    scan accepts stop start 0 out =
      ((passes accepts (rowCount start stop) ⟨start, 0, out⟩).count,
        (passes accepts (rowCount start stop) ⟨start, 0, out⟩).out) := by
  have hlast : ¬(passes accepts (rowCount start stop) ⟨start, 0, out⟩).row.slt stop = true := by
    rw [BitVec.slt_iff_toInt_lt, (passes_reached accepts start out (rowCount_lt _ _) hout).row,
      toInt_row (Nat.le_refl _), rowCount]
    omega
  rw [scan_eq_scan_passes hout (Nat.le_refl _), scan, if_neg hlast]

theorem toNat_count_scan :
    (scan accepts stop start 0 out).1.toNat =
      ((rowsFrom start (rowCount start stop)).filter accepts).length := by
  rw [scan_eq_passes hout]
  exact (passes_reached accepts start out (rowCount_lt _ _) hout).toNat_count (rowCount_lt _ _)

theorem toList_scan :
    (scan accepts stop start 0 out).2.toList =
      (rowsFrom start (rowCount start stop)).filter accepts ++
        out.toList.drop (scan accepts stop start 0 out).1.toNat := by
  rw [toNat_count_scan hout, scan_eq_passes hout]
  exact (passes_reached accepts start out (rowCount_lt _ _) hout).out

/-- The rows that are selected are the accepted ones of the range, in their order. -/
theorem take_scan :
    (scan accepts stop start 0 out).2.toList.take (scan accepts stop start 0 out).1.toNat =
      (rowsFrom start (rowCount start stop)).filter accepts := by
  rw [toList_scan hout, toNat_count_scan hout, List.take_left]

theorem toNat_count_scan_le : (scan accepts stop start 0 out).1.toNat ≤ rowCount start stop := by
  rw [toNat_count_scan hout]
  exact LoopState.length_filter_rowsFrom_le _ _ _

theorem size_scan : (scan accepts stop start 0 out).2.size = out.size := by
  have hcount : (scan accepts stop start 0 out).1.toNat ≤ _ := toNat_count_scan_le hout
  rw [← Array.length_toList, toList_scan hout, List.length_append, List.length_drop,
    ← toNat_count_scan hout, Array.length_toList]
  omega

/-- The entries behind the written ones are left alone. -/
theorem getElem?_scan_of_le {i : Nat} (hi : (scan accepts stop start 0 out).1.toNat ≤ i) :
    (scan accepts stop start 0 out).2[i]? = out[i]? := by
  have hlength : (scan accepts stop start 0 out).1.toNat = _ := toNat_count_scan hout
  rw [← Array.getElem?_toList, ← Array.getElem?_toList, toList_scan hout,
    List.getElem?_append_right (by omega), List.getElem?_drop]
  congr 1
  omega

/-- Every pass is made within the range, and steps the row and the count without running over, if
the number of rows fits in a register. -/
theorem pass_in_range (hfit : rowCount start stop < 0x8000000000000000)
    (accepts : BitVec 64 → Bool) {k : Nat} (hk : k < rowCount start stop) :
    let s := passes accepts k ⟨start, 0, out⟩
    s.row.toInt < stop.toInt ∧ (s.row + 1).toInt = s.row.toInt + 1 ∧
      (s.count + 1).toInt = s.count.toInt + 1 ∧ s.count.toNat < rowCount start stop := by
  intro s
  have hrow : s.row.toInt < stop.toInt := row_passes_lt hout accepts hk
  have hle := LoopState.length_filter_rowsFrom_le accepts start k
  have hcount : s.count.toNat = ((rowsFrom start k).filter accepts).length :=
    (passes_reached accepts start out (by omega) (by omega)).toNat_count (by omega)
  have hlt : s.count.slt (BitVec.intMax 64) = true := by
    have hmax : (BitVec.intMax 64).toInt = 2 ^ 63 - 1 := rfl
    rw [BitVec.slt_iff_toInt_lt, BitVec.toInt_eq_toNat_of_lt (by omega)]
    omega
  exact ⟨hrow, toInt_add_one_of_slt (BitVec.slt_iff_toInt_lt.2 hrow), toInt_add_one_of_slt hlt,
    by omega⟩

end

theorem select_eq (s : Selector) (memory : Memory) :
    s.select memory start stop =
      (rowsFrom start (rowCount start stop)).filter (s.selects memory) := by
  unfold select execute
  exact take_scan (by rw [Array.size_replicate]; exact Nat.le_refl _)

/-- The rows that are selected are the rows of the range that are accepted, however long it is. -/
theorem mem_select_iff (s : Selector) (memory : Memory) {row : BitVec 64} :
    row ∈ s.select memory start stop ↔
      start.toInt ≤ row.toInt ∧ row.toInt < stop.toInt ∧ s.selects memory row = true := by
  rw [select_eq, List.mem_filter, mem_rowsFrom_iff, and_assoc]

/-- A range that is cut in two is selected part by part. -/
theorem select_append (s : Selector) (memory : Memory) {mid : BitVec 64}
    (hstart : start.toInt ≤ mid.toInt) (hstop : mid.toInt ≤ stop.toInt) :
    s.select memory start stop = s.select memory start mid ++ s.select memory mid stop := by
  have hcount : rowCount start stop = rowCount start mid + rowCount mid stop := by
    unfold rowCount
    omega
  have hmid : start + BitVec.ofNat 64 (rowCount start mid) = mid := by
    rw [← BitVec.toInt_inj, toInt_row (Nat.le_refl _), rowCount]
    omega
  rw [select_eq, select_eq, select_eq, hcount, rowsFrom_add, List.filter_append, hmid]

/-- What is tested on a row is the value left on top of the stack, loaded at its own type. -/
theorem exists_top_of_compile {stream : List Instruction} {config : Config} {s : Selector}
    (hs : compile stream config = .ok s) :
    ∃ top e code, Emission.emit config.nullCheck stream {} = .ok (some top) e ∧
      (top.load e.pool).1.location = .register code ∧
        ∀ memory row, s.selects memory row =
          (code.eval ⟨memory, (top.load e.pool).2, row⟩).isNonzero := by
  unfold compile at hs
  cases hp : Predicate.compile config.nullCheck stream with
  | error err =>
    rw [hp] at hs
    cases hs
  | ok p =>
    rw [hp] at hs
    change ofPredicate p = .ok s at hs
    unfold ofPredicate at hs
    split at hs
    · cases hs
      obtain ⟨top, e, hemit, hcode, -, hpool⟩ := Predicate.exists_top_of_compile hp
      refine ⟨top, e, p.code, hemit, hcode, fun memory row => ?_⟩
      rw [selects, Predicate.value, hpool]
    · cases hs

/-- A selector run over the rows from `start` up to `stop`, whose number fits in a register, with a
buffer that has an entry for each of them.

The written rows are those of the range on which the value left on top of the stack is not zero, in
increasing order, and their number is returned. All entries behind them are as they were. On the
way every pass is one within the range, its row and its count are stepped without running over, and
it can only write below the number of rows. What is written is the selection of the range, which is
made up of the selections of its parts. -/
theorem execute_selected {stream : List Instruction} {config : Config} {s : Selector}
    (hs : compile stream config = .ok s) (memory : Memory) {start stop : BitVec 64}
    {out : Array (BitVec 64)} (hfit : stop.toInt - start.toInt ≤ (BitVec.intMax 64).toInt)
    (hout : stop.toInt - start.toInt ≤ out.size) :
    let run := s.execute memory start stop out
    let written := run.2.toList.take run.1.toNat
    let loop := fun k => passes (s.selects memory) k ⟨start, 0, out⟩
    (∃ top e code, Emission.emit config.nullCheck stream {} = .ok (some top) e ∧
        (top.load e.pool).1.location = .register code ∧
          ∀ row, row ∈ written ↔ start.toInt ≤ row.toInt ∧ row.toInt < stop.toInt ∧
            (code.eval ⟨memory, (top.load e.pool).2, row⟩).isNonzero = true) ∧
      written.Pairwise (fun row row' => row.toInt < row'.toInt) ∧
      run.1.toInt = written.length ∧ run.1.toInt ≤ max 0 (stop.toInt - start.toInt) ∧
      run.2.size = out.size ∧ (∀ i, run.1.toNat ≤ i → run.2[i]? = out[i]?) ∧
      (∀ k < rowCount start stop, (loop k).row.toInt < stop.toInt ∧
        ((loop k).row + 1).toInt = (loop k).row.toInt + 1 ∧
        ((loop k).count + 1).toInt = (loop k).count.toInt + 1 ∧
        (loop k).count.toNat < rowCount start stop) ∧
      run = ((loop (rowCount start stop)).count, (loop (rowCount start stop)).out) ∧
      written = s.select memory start stop ∧
      ∀ mid, start.toInt ≤ mid.toInt → mid.toInt ≤ stop.toInt →
        s.select memory start stop = s.select memory start mid ++ s.select memory mid stop := by
  intro run written loop
  have hmax : (BitVec.intMax 64).toInt = 2 ^ 63 - 1 := rfl
  have hfit' : rowCount start stop < 0x8000000000000000 := by
    unfold rowCount
    omega
  have hout' : rowCount start stop ≤ out.size := by
    unfold rowCount
    omega
  have hwritten : written = (rowsFrom start (rowCount start stop)).filter (s.selects memory) :=
    take_scan hout'
  have hcount : run.1.toNat = written.length := by
    rw [hwritten]
    exact toNat_count_scan hout'
  have hcountle : run.1.toNat ≤ rowCount start stop := toNat_count_scan_le hout'
  have hcountInt : run.1.toInt = run.1.toNat := BitVec.toInt_eq_toNat_of_lt (by omega)
  refine ⟨?_, ?_, by rw [hcountInt, hcount], ?_, size_scan hout',
    fun i => getElem?_scan_of_le hout', fun k => pass_in_range hout' hfit' _,
    scan_eq_passes hout', ?_, fun mid => select_append s memory⟩
  · obtain ⟨top, e, code, hemit, hcode, hselects⟩ := exists_top_of_compile hs
    refine ⟨top, e, code, hemit, hcode, fun row => ?_⟩
    rw [hwritten, List.mem_filter, mem_rowsFrom_iff, hselects, and_assoc]
  · rw [hwritten]
    exact pairwise_rowsFrom.filter _
  · rw [hcountInt]
    unfold rowCount at hcountle
    omega
  · rw [hwritten, select_eq]

/-- A column of bytes that counts up from zero at row zero, run from a negative row on: row minus
one is written and row zero, the only one with a zero, is not. -/
theorem execute_selected_countingColumn :
    let memory : Memory := ⟨fun _ offset => offset.setWidth 8, fun _ _ => 0, fun _ => 0⟩
    let selector : Selector := ⟨⟨.load .i8 (.element (.column 0) 0), .i8, .memory, {}, 1⟩, rfl⟩
    let out : Array (BitVec 64) := .replicate 5 7
    let run := selector.execute memory (-3) 2 out
    compile [.column .i8 0] {} = .ok selector ∧
      (2 : BitVec 64).toInt - (-3 : BitVec 64).toInt ≤ out.size ∧ run.1.toInt ≤ 5 ∧
      -1 ∈ run.2.toList.take run.1.toNat ∧ 0 ∉ run.2.toList.take run.1.toNat := by
  intro memory selector out run
  have hcompile : compile [.column .i8 0] {} = .ok selector := rfl
  have hfit : (2 : BitVec 64).toInt - (-3 : BitVec 64).toInt ≤ (BitVec.intMax 64).toInt := by decide
  have hout : (2 : BitVec 64).toInt - (-3 : BitVec 64).toInt ≤ out.size := by decide
  obtain ⟨⟨top, e, code, hemit, hcode, hmem⟩, -, -, hle, -⟩ :=
    execute_selected hcompile memory hfit hout
  cases hemit
  cases hcode
  refine ⟨hcompile, hout, hle, (hmem _).2 (by decide), ?_⟩
  intro hzero
  exact absurd ((hmem _).1 hzero) (by decide)

end Selector

end RowFilter
