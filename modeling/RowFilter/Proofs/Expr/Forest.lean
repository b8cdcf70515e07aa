import RowFilter.Expr

/-!
# Forests

A stream of leaves and operators spells at most one sequence of expressions.

A stream is read with a stack of expressions: a leaf is put on the stack, and an operator joins the
topmost ones. Reading undoes spelling, so two forests with one spelling are the same.

## Main definitions

- `Expr.shift?` — the stack after one more instruction.
- `Expr.spelling` — the spelling of a forest.

## Main statements

- `Expr.foldlM_shift?_spelling` — the spelling of a forest is read as the forest.
- `Expr.spelling_of_shift?` — what was read spells the stack.
- `Expr.spelling_injective` — a forest is known from its spelling.
-/

namespace RowFilter.Expr

/-- The stack of expressions after one more instruction, if the instruction has its operands. The
head of the stack is its top. -/
def shift? : List Expr → Instruction → Option (List Expr)
  | trees, ⟨.leaf op, options, payload⟩ => some (leaf op options payload :: trees)
  | arg :: trees, ⟨.unary op, options, payload⟩ => some (unary op options payload arg :: trees)
  | rhs :: lhs :: trees, ⟨.binary op, options, payload⟩ =>
    some (binary op options payload lhs rhs :: trees)
  | _, _ => none

/-- The spelling of a forest: those of its expressions, one after the other. -/
def spelling (forest : List Expr) : List Instruction :=
  forest.flatMap stream

theorem spelling_append (first rest : List Expr) :
    spelling (first ++ rest) = spelling first ++ spelling rest :=
  List.flatMap_append

theorem spelling_singleton (e : Expr) : spelling [e] = e.stream :=
  List.flatMap_singleton ..

/-- The spelling of an expression puts the expression on the stack. -/
theorem foldlM_shift?_stream (e : Expr) (trees : List Expr) :
    e.stream.foldlM shift? trees = some (e :: trees) := by
  induction e generalizing trees with
  | leaf op options payload => rfl
  | unary op options payload arg ih =>
    rw [stream, List.foldlM_append, ih]
    rfl
  | binary op options payload lhs rhs ihl ihr =>
    rw [stream, List.foldlM_append, List.foldlM_append, ihl]
    change ((rhs.stream.foldlM shift? (lhs :: trees)) >>= _) = _
    rw [ihr]
    rfl

theorem foldlM_shift?_spelling (forest trees : List Expr) :
    (spelling forest).foldlM shift? trees = some (forest.reverse ++ trees) := by
  induction forest generalizing trees with
  | nil => rfl
  | cons e forest ih =>
    rw [spelling, List.flatMap_cons, List.foldlM_append, foldlM_shift?_stream]
    change (spelling forest).foldlM shift? (e :: trees) = _
    rw [ih, List.reverse_cons, List.append_assoc]
    rfl

/-- A forest is known from its spelling. -/
theorem spelling_injective {forest forest' : List Expr} (h : spelling forest = spelling forest') :
    forest = forest' := by
  have hread := foldlM_shift?_spelling forest []
  rw [h, foldlM_shift?_spelling, List.append_nil, List.append_nil] at hread
  exact (List.reverse_inj.1 (Option.some.inj hread)).symm

theorem spelling_eq_nil_iff {forest : List Expr} : spelling forest = [] ↔ forest = [] :=
  ⟨fun h => spelling_injective h, fun h => h ▸ rfl⟩

/-- What was read spells the stack, from the bottom to the top. -/
theorem spelling_of_shift? {trees trees' : List Expr} {i : Instruction}
    (h : shift? trees i = some trees') :
    spelling trees'.reverse = spelling trees.reverse ++ [i] := by
  unfold shift? at h
  split at h
  next =>
    cases h
    rw [List.reverse_cons, spelling_append, spelling_singleton, stream]
  next =>
    cases h
    rw [List.reverse_cons, List.reverse_cons, spelling_append, spelling_append, spelling_singleton,
      spelling_singleton, stream, List.append_assoc]
  next =>
    cases h
    simp only [List.reverse_cons, spelling_append, spelling_singleton, stream, List.append_assoc]
  next => cases h

theorem spelling_of_foldlM_shift? {stream : List Instruction} {trees trees' : List Expr}
    (h : stream.foldlM shift? trees = some trees') :
    spelling trees'.reverse = spelling trees.reverse ++ stream := by
  induction stream generalizing trees with
  | nil =>
    cases h
    exact (List.append_nil _).symm
  | cons i rest ih =>
    rw [List.foldlM_cons] at h
    obtain ⟨next, hnext, h⟩ := Option.bind_eq_some_iff.1 h
    rw [ih h, spelling_of_shift? hnext, List.append_assoc]
    rfl

end RowFilter.Expr
