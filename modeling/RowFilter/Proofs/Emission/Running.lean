import RowFilter.Predicate
import RowFilter.Proofs.Operand.Application
import RowFilter.StreamCache

/-!
# Running streams

How the run of a stream is made up of the runs of its parts, and where it ends.

## Main statements

- `Emission.run_append` — a stream without a terminator is run before what follows it.
- `Emission.run_effective` — what stands behind the first terminator is not run.
- `Predicate.compile_eq_ok_iff` — the run a compiled predicate comes from.
-/

namespace RowFilter

namespace Emission

theorem run_singleton {nullCheck : Bool} {i : Instruction} (h : i.opcode ≠ .ret) (position : Nat)
    (s : Emitter) : run nullCheck position [i] s = step nullCheck position i s := by
  simp only [run, if_neg h]
  exact congrFun (bind_pure (step nullCheck position i)) s

/-- A stream without a terminator is run before what follows it. -/
theorem run_append {nullCheck : Bool} {first : List Instruction}
    (h : ∀ i ∈ first, i.opcode ≠ .ret) (position : Nat) (rest : List Instruction) :
    run nullCheck position (first ++ rest) =
      run nullCheck position first >>= fun _ => run nullCheck (position + first.length) rest := by
  induction first generalizing position with
  | nil => rfl
  | cons i first ih =>
    have hi : i.opcode ≠ .ret := h i List.mem_cons_self
    have hfirst := ih (fun j hj => h j (List.mem_cons_of_mem i hj)) (position + 1)
    rw [List.cons_append, run, if_neg hi, hfirst, run, if_neg hi, bind_assoc,
      List.length_cons, Nat.add_assoc, Nat.add_comm 1]

/-- What stands behind the first terminator is not run. -/
theorem run_effective (nullCheck : Bool) (position : Nat) (stream : List Instruction) :
    run nullCheck position (effective stream) = run nullCheck position stream := by
  induction stream generalizing position with
  | nil => rfl
  | cons i rest ih =>
    by_cases hi : i.opcode = .ret
    · simp only [effective, run, if_pos hi]
    · simp only [effective, run, if_neg hi, ih]

end Emission

/-- A predicate is that of the instructions up to the first terminator. -/
theorem Predicate.compile_effective (nullCheck : Bool) (stream : List Instruction) :
    compile nullCheck (effective stream) = compile nullCheck stream := by
  simp only [compile, build, Emission.emit, Emission.run_effective]

/-- A stream compiles if it leaves a value on top of the stack that can be loaded at its own
type. The predicate is what is then in the register, with the pool as the load leaves it. -/
theorem Predicate.compile_eq_ok_iff {nullCheck : Bool} {stream : List Instruction} {p : Predicate} :
    compile nullCheck stream = .ok p ↔
      ∃ top e code, Emission.emit nullCheck stream {} = .ok (some top) e ∧
        (top.load e.pool).1.register = .ok code ∧
        p = ⟨code, (top.load e.pool).1.dataType, (top.load e.pool).1.provenance,
          (top.load e.pool).2, e.stack.length⟩ := by
  have hcompile : compile nullCheck stream = .ok p ↔
      ∃ e, build nullCheck stream {} = .ok p e := by
    unfold compile
    cases build nullCheck stream {} with
    | ok q e => simp
    | error err e => simp
  rw [hcompile]
  constructor
  · rintro ⟨last, hbuild⟩
    obtain ⟨top, e, hemit, hbuild⟩ := Emission.bind_eq_ok_iff.1 hbuild
    cases top with
    | none => cases hbuild
    | some top =>
      simp only [Emission.pooling_bind] at hbuild
      cases hregister : (top.load e.pool).1.register with
      | error err =>
        rw [hregister] at hbuild
        cases hbuild
      | ok code =>
        rw [hregister] at hbuild
        cases hbuild
        exact ⟨top, e, code, hemit, hregister, rfl⟩
  · rintro ⟨top, e, code, hemit, hregister, rfl⟩
    refine ⟨{ e with pool := (top.load e.pool).2 }, ?_⟩
    rw [build, Emission.bind_eq_ok_iff]
    refine ⟨some top, e, hemit, ?_⟩
    simp only [Emission.pooling_bind, hregister]
    rfl

/-- A predicate is the value left on top of the stack, loaded at its own type. -/
theorem Predicate.exists_top_of_compile {nullCheck : Bool} {stream : List Instruction}
    {p : Predicate} (h : compile nullCheck stream = .ok p) :
    ∃ top e, Emission.emit nullCheck stream {} = .ok (some top) e ∧
      (top.load e.pool).1.location = .register p.code ∧
      (top.load e.pool).1.dataType = p.dataType ∧ p.pool = (top.load e.pool).2 := by
  obtain ⟨top, e, code, hemit, hregister, rfl⟩ := compile_eq_ok_iff.1 h
  exact ⟨top, e, hemit, Operand.register_eq_ok.1 hregister, rfl, rfl⟩

end RowFilter
