import RowFilter.Proofs.Emission.Running
import RowFilter.Proofs.StreamCache.History
import RowFilter.Selector

/-!
# Transparency of the cache

Looking a selector up in the cache is the same as compiling it.

The invariant is `StreamCache.Sound`: every entry holds what its own key compiles to. The hash does
not enter into it, so collisions, replacement and eviction all keep it. It is enough because a
look-up compares keys and the outcome of a compilation depends on the key alone.

## Main definitions

- `StreamCache.Respects` — a compiler that looks at nothing but the key.
- `StreamCache.Sound` — the invariant.
- `StreamCache.Call.Faithful` — a call that inserts nothing but what its stream compiles to.

## Main statements

- `Selector.compile_respects` — selectors are compiled from the key alone.
- `StreamCache.after_sound` — faithful histories keep the invariant.
- `StreamCache.findOrCompile_transparent` — the cache against the compiler.
-/

namespace RowFilter

namespace StreamCache

variable {κ α : Type} [BEq κ] [Hashable κ]
  {compile : List Instruction → Config → Except CompileError α}

/-- A compiler whose outcome depends on the key alone. -/
def Respects (compile : List Instruction → Config → Except CompileError α) : Prop :=
  ∀ stream stream' config config',
    CompileKey.ofStream stream config.nullCheck = .ofStream stream' config'.nullCheck →
      compile stream config = compile stream' config'

/-- Every entry holds what its key compiles to. -/
def Sound (compile : List Instruction → Config → Except CompileError α)
    (cache : StreamCache κ α) : Prop :=
  ∀ (hash : κ) (entry : Entry α), cache.entries[hash]? = some entry →
    ∀ stream config, CompileKey.ofStream stream config.nullCheck = entry.key →
      compile stream config = .ok entry.artifact

/-- A call that inserts an artifact only for a stream and a null check that compile to it. -/
def Call.Faithful (compile : List Instruction → Config → Except CompileError α) : Call α → Prop
  | .insert stream nullCheck artifact =>
    ∃ config, config.nullCheck = nullCheck ∧ compile stream config = .ok artifact
  | .find _ _ | .findOrCompile _ _ => True

/-- What a sound cache finds is what the stream compiles to. -/
theorem Sound.of_find? {cache : StreamCache κ α} (hcache : cache.Sound compile)
    {stream : List Instruction} {nullCheck : Bool} {artifact : α}
    (h : cache.find? stream nullCheck = some artifact) {config : Config}
    (hconfig : config.nullCheck = nullCheck) : compile stream config = .ok artifact := by
  subst hconfig
  unfold find? findKey? at h
  split at h
  · rename_i entry hentry
    split at h
    · rename_i hkey
      obtain rfl := Option.some.inj h
      exact hcache _ entry hentry stream config hkey.symm
    · cases h
  · cases h

/-- With a sound cache, looking up or compiling gives what compiling gives. -/
theorem Sound.findOrCompile_eq {cache : StreamCache κ α} (hcache : cache.Sound compile)
    (stream : List Instruction) (config : Config) :
    (cache.findOrCompile compile stream config).1 = compile stream config := by
  unfold findOrCompile
  split
  · rename_i artifact hfind
    exact (hcache.of_find? hfind rfl).symm
  · split
    · rename_i hcompile
      exact hcompile.symm
    · rename_i hcompile
      exact hcompile.symm

theorem findOrCompile_snd_of_error {cache : StreamCache κ α} {stream : List Instruction}
    {config : Config} {e : CompileError}
    (h : (cache.findOrCompile compile stream config).1 = .error e) :
    (cache.findOrCompile compile stream config).2 = cache := by
  unfold findOrCompile at h ⊢
  split
  · rfl
  · rename_i hmiss
    simp only [hmiss] at h
    split
    · rename_i hcompile
      simp only [hcompile] at h
      cases h
    · rfl

theorem sound_new [EquivBEq κ] [LawfulHashable κ] (hash : CompileKey → κ) (capacity : Nat) :
    (new hash capacity : StreamCache κ α).Sound compile := by
  intro hash entry h
  simp only [new, Std.HashMap.getElem?_empty, reduceCtorEq] at h

variable [EquivBEq κ] [LawfulHashable κ]

theorem Sound.insert {cache : StreamCache κ α} (hcompile : Respects compile)
    (hcache : cache.Sound compile) {stream : List Instruction} {config : Config} {artifact : α}
    (h : compile stream config = .ok artifact) :
    (cache.insert stream config.nullCheck artifact).Sound compile := by
  intro hash entry hentry stream' config' hkey
  -- An entry of another key may have been replaced, but none is compared with a key not its own.
  obtain rfl | hold := getElem?_insertKey hentry
  · rw [← h]
    exact hcompile stream' stream config' config hkey
  · exact hcache hash entry hold stream' config' hkey

theorem Sound.afterCall {cache : StreamCache κ α} (hcompile : Respects compile)
    (hcache : cache.Sound compile) {call : Call α} (hcall : call.Faithful compile) :
    (cache.afterCall compile call).Sound compile := by
  cases call with
  | find stream nullCheck => exact hcache
  | findOrCompile stream config =>
    change (cache.findOrCompile compile stream config).2.Sound compile
    unfold findOrCompile
    split
    · exact hcache
    · split
      · exact hcache.insert hcompile ‹_›
      · exact hcache
  | insert stream nullCheck artifact =>
    obtain ⟨config, rfl, h⟩ := hcall
    exact hcache.insert hcompile h

/-- A faithful history of a new cache leaves a sound cache behind. -/
theorem after_sound (hcompile : Respects compile) (hash : CompileKey → κ) (capacity : Nat)
    {calls : List (Call α)} (hcalls : ∀ call ∈ calls, call.Faithful compile) :
    ((new hash capacity).after compile calls).Sound compile :=
  after_preserves (P := Sound compile) compile
    (fun call hcall _ hcache => hcache.afterCall hcompile (hcalls call hcall)) _
    (sound_new hash capacity)

end StreamCache

/-- Selectors are compiled from the key alone: from the instructions up to the first terminator and
the null check. -/
theorem Selector.compile_respects : StreamCache.Respects Selector.compile := by
  intro stream stream' config config' h
  obtain ⟨hnull, heffective⟩ := CompileKey.mk.inj h
  unfold compile
  rw [← Predicate.compile_effective, ← Predicate.compile_effective _ stream', hnull, heffective]

namespace StreamCache

variable {κ : Type} [BEq κ] [Hashable κ] [EquivBEq κ] [LawfulHashable κ]

/-- After any faithful history, of any capacity and under any hash, the cache answers as the
compiler does. Looking up or compiling a stream gives the selector or the error that the compiler
gives, for that stream and for every stream and configuration of the same key, and an error
leaves the cache as it was. A selector that is found is the one the stream compiles to under its
flag. -/
theorem findOrCompile_transparent (hash : CompileKey → κ) (capacity : Nat)
    (calls : List (Call Selector)) (hcalls : ∀ call ∈ calls, call.Faithful Selector.compile)
    (stream : List Instruction) (config : Config) :
    let cache := (new hash capacity).after Selector.compile calls
    (∀ stream' config', effective stream' = effective stream →
        config'.nullCheck = config.nullCheck →
        (cache.findOrCompile Selector.compile stream config).1 =
          Selector.compile stream' config') ∧
      (∀ e, Selector.compile stream config = .error e →
        (cache.findOrCompile Selector.compile stream config).2 = cache) ∧
      ∀ selector, cache.find? stream config.nullCheck = some selector →
        Selector.compile stream config = .ok selector := by
  intro cache
  have hcache : cache.Sound Selector.compile :=
    after_sound Selector.compile_respects hash capacity hcalls
  refine ⟨fun stream' config' hstream hnull => ?_, fun e he => ?_, fun selector h => ?_⟩
  · rw [hcache.findOrCompile_eq]
    refine Selector.compile_respects _ _ _ _ ?_
    rw [CompileKey.ofStream, CompileKey.ofStream, hstream, hnull]
  · refine findOrCompile_snd_of_error (e := e) ?_
    rw [hcache.findOrCompile_eq, he]
  · exact hcache.of_find? h rfl

/-- Two streams take the place of each other in a cache of one entry under a constant hash. The
first one, with something behind a terminator, is still answered as it compiles without the
terminator and under other settings. -/
theorem findOrCompile_transparent_colliding :
    let first := [Instruction.var .i32 3, .ret]
    let selector : Selector := ⟨⟨.load .i32 (.slot 3 4), .i32, .memory, {}, 1⟩, rfl⟩
    let calls := [Call.insert first true selector, .findOrCompile [.var .i32 5] {}]
    let cache := (new (κ := UInt64) (fun _ => 0) 1).after Selector.compile calls
    (∀ call ∈ calls, call.Faithful Selector.compile) ∧
      (cache.findOrCompile Selector.compile (first ++ [.op (.binary (.arith .add))]) {}).1 =
        Selector.compile first { optimization := .none, cacheCapacity := 7 } := by
  intro first selector calls cache
  have hcalls : ∀ call ∈ calls, call.Faithful Selector.compile := by
    intro call hcall
    simp only [calls, List.mem_cons, List.not_mem_nil, or_false] at hcall
    rcases hcall with rfl | rfl
    · exact ⟨{}, rfl, rfl⟩
    · exact trivial
  exact ⟨hcalls, (findOrCompile_transparent _ 1 calls hcalls _ {}).1 first _ rfl rfl⟩

end StreamCache

end RowFilter
