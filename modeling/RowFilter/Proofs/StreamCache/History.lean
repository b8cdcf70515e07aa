import RowFilter.StreamCache

/-!
# Histories of a cache

A history is a finite sequence of calls. What a cache holds is described by invariants that one call
preserves, and so every history does.

## Main definitions

- `StreamCache.Call` — one of the calls that a cache answers.
- `StreamCache.after` — the cache after a history.

The main statement is `after_preserves`: an invariant of single calls is one of histories.
-/

namespace RowFilter

namespace StreamCache

/-- A call on a cache of artifacts. -/
inductive Call (α : Type) where
  | find (stream : List Instruction) (nullCheck : Bool)
  | findOrCompile (stream : List Instruction) (config : Config)
  | insert (stream : List Instruction) (nullCheck : Bool) (artifact : α)

variable {κ α : Type} [BEq κ] [Hashable κ]
  (compile : List Instruction → Config → Except CompileError α)

/-- The cache that a call leaves behind. -/
def afterCall (cache : StreamCache κ α) : Call α → StreamCache κ α
  | .find _ _ => cache
  | .findOrCompile stream config => (cache.findOrCompile compile stream config).2
  | .insert stream nullCheck artifact => cache.insert stream nullCheck artifact

/-- The cache that a history leaves behind. -/
def after (cache : StreamCache κ α) (calls : List (Call α)) : StreamCache κ α :=
  calls.foldl (afterCall compile) cache

/-- What holds of a cache and is kept by every call of a history holds after the history. -/
theorem after_preserves {P : StreamCache κ α → Prop} {calls : List (Call α)}
    (hcalls : ∀ call ∈ calls, ∀ cache, P cache → P (cache.afterCall compile call))
    (cache : StreamCache κ α) (h : P cache) : P (cache.after compile calls) := by
  induction calls generalizing cache with
  | nil => exact h
  | cons call rest ih =>
    exact ih (fun later hlater => hcalls later (List.mem_cons_of_mem call hlater)) _
      (hcalls call List.mem_cons_self cache h)

variable [EquivBEq κ] [LawfulHashable κ]

theorem getElem?_of_getElem?_makeRoom {capacity : Nat} {order : List κ}
    {entries : Std.HashMap κ (Entry α)} {hash : κ} {entry : Entry α}
    (h : (makeRoom capacity order entries).2[hash]? = some entry) :
    entries[hash]? = some entry := by
  induction order generalizing entries with
  | nil => exact h
  | cons oldest rest ih =>
    rw [makeRoom] at h
    split at h
    · exact h
    · have herase := ih h
      rw [Std.HashMap.getElem?_erase] at herase
      split at herase
      · cases herase
      · exact herase

/-- An entry found after an insertion is the new one or was there before. -/
theorem getElem?_insertKey {cache : StreamCache κ α} {key : CompileKey} {artifact : α} {hash : κ}
    {entry : Entry α} (h : (cache.insertKey key artifact).entries[hash]? = some entry) :
    entry = ⟨key, artifact⟩ ∨ cache.entries[hash]? = some entry := by
  by_cases hnew : cache.entries.contains (cache.hash key) = true
  · simp only [insertKey, hnew, if_true] at h
    rw [Std.HashMap.getElem?_insert] at h
    split at h
    · exact .inl (Option.some.inj h).symm
    · exact .inr h
  · simp only [insertKey, if_neg hnew] at h
    rw [Std.HashMap.getElem?_insert] at h
    split at h
    · exact .inl (Option.some.inj h).symm
    · exact .inr (getElem?_of_getElem?_makeRoom h)

end StreamCache

end RowFilter
