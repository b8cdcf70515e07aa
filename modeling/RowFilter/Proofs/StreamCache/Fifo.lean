import RowFilter.Proofs.StreamCache.History

/-!
# Eviction order

Which entries a cache holds after a history, and in which order they leave.

Two logs are kept beside the cache: the entries that were stored, and the hashes that were new when
something was stored under them. The invariant `StreamCache.Fifo` ties both structures of the cache
to the logs. The order holds the last of the new hashes, as many as the capacity allows; the map
has these keys and no others, and maps each to what was stored last.

## Main definitions

- `StreamCache.Call.stores` — the entry that a call stores, if it stores one.
- `StreamCache.storedEntries`, `StreamCache.newHashes` — the logs of a history.
- `StreamCache.Fifo` — the invariant.

## Main statements

- `StreamCache.Fifo.store_cases` — the three things that storing an entry can do.
- `StreamCache.Fifo.after` — histories keep the invariant.
- `StreamCache.after_fifo` — the contents after a history, and the effect of one more call.
-/

namespace RowFilter.StreamCache

variable {κ α : Type} [BEq κ] [Hashable κ]
  (compile : List Instruction → Config → Except CompileError α)

/-- The entry that a call stores: the one it brings, or what its stream compiles to when the cache
has nothing for it. -/
def Call.stores (cache : StreamCache κ α) : Call α → Option (Entry α)
  | .find _ _ => none
  | .insert stream nullCheck artifact => some ⟨.ofStream stream nullCheck, artifact⟩
  | .findOrCompile stream config =>
    match cache.find? stream config.nullCheck, compile stream config with
    | none, .ok artifact => some ⟨.ofStream stream config.nullCheck, artifact⟩
    | _, _ => none

/-- The entries that a history stores, the first one first. -/
def storedEntries (cache : StreamCache κ α) : List (Call α) → List (Entry α)
  | [] => []
  | call :: rest =>
    (call.stores compile cache).toList ++ storedEntries (cache.afterCall compile call) rest

/-- The hashes under which a history stores an entry while the cache has none, in their order. -/
def newHashes (cache : StreamCache κ α) : List (Call α) → List κ
  | [] => []
  | call :: rest =>
    ((call.stores compile cache).toList.map (cache.hash ·.key)).filter
        (!cache.entries.contains ·) ++
      newHashes (cache.afterCall compile call) rest

/-- The cache after a store of the entry. -/
def store (cache : StreamCache κ α) (entry : Entry α) : StreamCache κ α :=
  cache.insertKey entry.key entry.artifact

variable {compile}

theorem afterCall_of_stores_none {cache : StreamCache κ α} {call : Call α}
    (h : call.stores compile cache = none) : cache.afterCall compile call = cache := by
  cases call with
  | find stream nullCheck => rfl
  | insert stream nullCheck artifact => cases h
  | findOrCompile stream config =>
    simp only [Call.stores] at h
    simp only [afterCall, findOrCompile]
    split
    · rfl
    · split
      · simp_all
      · rfl

/-- A hit stores nothing, and neither does a failed compilation. -/
theorem stores_findOrCompile_eq_none {cache : StreamCache κ α} {stream : List Instruction}
    {config : Config}
    (h : (cache.find? stream config.nullCheck).isSome ∨ ∃ e, compile stream config = .error e) :
    Call.stores compile cache (.findOrCompile stream config) = none := by
  rcases h with hhit | ⟨e, he⟩
  · obtain ⟨artifact, hartifact⟩ := Option.isSome_iff_exists.1 hhit
    simp only [Call.stores, hartifact]
  · simp only [Call.stores, he]
    cases cache.find? stream config.nullCheck <;> rfl

theorem afterCall_of_stores_some {cache : StreamCache κ α} {call : Call α} {entry : Entry α}
    (h : call.stores compile cache = some entry) :
    cache.afterCall compile call = cache.store entry := by
  cases call with
  | find stream nullCheck => cases h
  | insert stream nullCheck artifact =>
    cases h
    rfl
  | findOrCompile stream config =>
    simp only [Call.stores] at h
    split at h
    · rename_i hmiss hcompile
      cases h
      simp only [afterCall, findOrCompile, hmiss, hcompile]
      rfl
    · cases h

theorem hash_capacity_store (cache : StreamCache κ α) (entry : Entry α) :
    (cache.store entry).hash = cache.hash ∧ (cache.store entry).capacity = cache.capacity := by
  simp only [store, insertKey]
  split <;> exact ⟨rfl, rfl⟩

theorem hash_capacity_after (cache : StreamCache κ α) (calls : List (Call α)) :
    (cache.after compile calls).hash = cache.hash ∧
      (cache.after compile calls).capacity = cache.capacity := by
  refine after_preserves (P := fun c => c.hash = cache.hash ∧ c.capacity = cache.capacity) compile
    (fun call _ c hc => ?_) cache ⟨rfl, rfl⟩
  cases hstores : call.stores compile c with
  | none => rwa [afterCall_of_stores_none hstores]
  | some entry =>
    obtain ⟨hhash, hcapacity⟩ := hash_capacity_store c entry
    rw [afterCall_of_stores_some hstores, hhash, hcapacity]
    exact hc

/-- A cache beside the logs of its history. -/
structure Fifo (cache : StreamCache κ α) (fresh : List κ) (stored : List (Entry α)) : Prop where
  capacity_pos : 0 < cache.capacity
  order : cache.order = fresh.drop (fresh.length - cache.capacity)
  nodup : cache.order.Nodup
  mem_iff : ∀ hash, hash ∈ cache.entries ↔ hash ∈ cache.order
  latest : ∀ hash entry, cache.entries[hash]? = some entry →
    (stored.filter (cache.hash ·.key == hash)).getLast? = some entry

variable {cache : StreamCache κ α} {fresh : List κ} {stored : List (Entry α)}

theorem Fifo.length_order (h : cache.Fifo fresh stored) :
    cache.order.length = min fresh.length cache.capacity := by
  rw [h.order, List.length_drop]
  omega

theorem nodup_append_singleton {β : Type} {l : List β} {b : β} (h : l.Nodup) (hnew : b ∉ l) :
    (l ++ [b]).Nodup := by
  refine List.nodup_append.2 ⟨h, List.nodup_cons.2 ⟨List.not_mem_nil, List.nodup_nil⟩, ?_⟩
  rintro a ha c hc rfl
  exact hnew (List.mem_singleton.1 hc ▸ ha)

theorem makeRoom_of_lt {capacity : Nat} {order : List κ} {entries : Std.HashMap κ (Entry α)}
    (h : entries.size < capacity) : makeRoom capacity order entries = (order, entries) := by
  cases order with
  | nil => rfl
  | cons oldest rest => rw [makeRoom, if_pos h]

variable [LawfulBEq κ] [LawfulHashable κ]

theorem fifo_new (hash : CompileKey → κ) (capacity : Nat) :
    (new hash capacity : StreamCache κ α).Fifo [] [] where
  capacity_pos := by simp only [new]; omega
  order := List.drop_nil.symm
  nodup := List.nodup_nil
  mem_iff hash := by simp [new]
  latest hash entry h := by simp [new] at h

theorem Fifo.keys_perm (h : cache.Fifo fresh stored) : cache.entries.keys.Perm cache.order := by
  rw [List.perm_ext_iff_of_nodup Std.HashMap.nodup_keys h.nodup]
  intro hash
  rw [Std.HashMap.mem_keys, h.mem_iff]

theorem Fifo.size_eq (h : cache.Fifo fresh stored) : cache.entries.size = cache.order.length := by
  rw [← Std.HashMap.length_keys, h.keys_perm.length_eq]

/-- Of a full cache only the oldest entry is dropped. -/
theorem makeRoom_of_full {oldest : κ} {rest : List κ} {entries : Std.HashMap κ (Entry α)}
    (h : oldest ∈ entries) {capacity : Nat} (hpos : 0 < capacity)
    (hfull : entries.size = capacity) :
    makeRoom capacity (oldest :: rest) entries = (rest, entries.erase oldest) := by
  rw [makeRoom, if_neg (by omega), makeRoom_of_lt]
  rw [Std.HashMap.size_erase, if_pos h]
  omega

/-- What storing an entry does. Under a hash that is present the entry is replaced and the order
stays. A new hash joins the order at its end, and if the cache is full the oldest entry leaves. -/
theorem Fifo.store_cases (h : cache.Fifo fresh stored) (entry : Entry α) :
    (cache.hash entry.key ∈ cache.order ∧
        cache.store entry =
          { cache with entries := cache.entries.insert (cache.hash entry.key) entry }) ∨
      (cache.hash entry.key ∉ cache.order ∧ cache.order.length < cache.capacity ∧
        cache.store entry =
          { cache with
            entries := cache.entries.insert (cache.hash entry.key) entry
            order := cache.order ++ [cache.hash entry.key] }) ∨
      (cache.hash entry.key ∉ cache.order ∧ cache.order.length = cache.capacity ∧
        ∃ oldest rest, cache.order = oldest :: rest ∧
          cache.store entry =
            { cache with
              entries := (cache.entries.erase oldest).insert (cache.hash entry.key) entry
              order := rest ++ [cache.hash entry.key] }) := by
  by_cases hmem : cache.hash entry.key ∈ cache.order
  · refine .inl ⟨hmem, ?_⟩
    rw [store, insertKey, if_pos (Std.HashMap.contains_iff_mem.2 ((h.mem_iff _).2 hmem))]
  · have hnew : ¬cache.entries.contains (cache.hash entry.key) = true := by
      rwa [Std.HashMap.contains_iff_mem, h.mem_iff]
    have hle : cache.order.length ≤ cache.capacity := by
      rw [h.length_order]
      omega
    rcases Nat.lt_or_eq_of_le hle with hlt | hfull
    · refine .inr (.inl ⟨hmem, hlt, ?_⟩)
      rw [store, insertKey, if_neg hnew, makeRoom_of_lt (by rwa [h.size_eq])]
    · refine .inr (.inr ⟨hmem, hfull, ?_⟩)
      cases horder : cache.order with
      | nil =>
        have hpos := h.capacity_pos
        rw [horder, List.length_nil] at hfull
        omega
      | cons oldest rest =>
        have hold : oldest ∈ cache.entries := by
          rw [h.mem_iff, horder]
          exact List.mem_cons_self
        refine ⟨oldest, rest, rfl, ?_⟩
        rw [store, insertKey, if_neg hnew, horder,
          makeRoom_of_full hold h.capacity_pos (by rw [h.size_eq, hfull])]

/-- The last entry stored under a hash stays the one that is found there. -/
theorem latest_insert {entries : Std.HashMap κ (Entry α)}
    (h : ∀ hash entry, entries[hash]? = some entry →
      (stored.filter (cache.hash ·.key == hash)).getLast? = some entry)
    (entry : Entry α) (hash : κ) (found : Entry α)
    (hfound : (entries.insert (cache.hash entry.key) entry)[hash]? = some found) :
    ((stored ++ [entry]).filter (cache.hash ·.key == hash)).getLast? = some found := by
  rw [Std.HashMap.getElem?_insert] at hfound
  rw [List.filter_append, List.getLast?_append]
  by_cases hhash : (cache.hash entry.key == hash) = true
  · rw [if_pos hhash] at hfound
    cases hfound
    simp [hhash]
  · rw [if_neg hhash] at hfound
    simpa [hhash] using h hash found hfound

theorem Fifo.store (h : cache.Fifo fresh stored) (entry : Entry α) :
    (cache.store entry).Fifo
      (fresh ++ [cache.hash entry.key].filter (!cache.entries.contains ·)) (stored ++ [entry]) := by
  obtain ⟨hpos, horder, hnodup, hmem, hlatest⟩ := id h
  have hlength := h.length_order
  have hfilter : [cache.hash entry.key].filter (!cache.entries.contains ·) =
      if cache.hash entry.key ∈ cache.order then [] else [cache.hash entry.key] := by
    have hcontains : cache.entries.contains (cache.hash entry.key) = true ↔ _ :=
      Std.HashMap.contains_iff_mem.trans (hmem _)
    by_cases hold : cache.hash entry.key ∈ cache.order <;> simp_all
  rcases h.store_cases entry with ⟨hold, hstore⟩ | ⟨hnew, hlt, hstore⟩ |
    ⟨hnew, hfull, oldest, rest, hcons, hstore⟩
  · rw [hstore, hfilter, if_pos hold, List.append_nil]
    refine ⟨hpos, horder, hnodup, fun hash => ?_, latest_insert hlatest entry⟩
    rw [Std.HashMap.mem_insert, hmem, beq_iff_eq]
    exact ⟨fun hor => hor.elim (fun heq => heq ▸ hold) id, .inr⟩
  · rw [hstore, hfilter, if_neg hnew]
    refine ⟨hpos, ?_, ?_, fun hash => ?_, latest_insert hlatest entry⟩
    · -- There is room, so nothing was ever dropped.
      change cache.order ++ _ = _
      have hkept : fresh.length + 1 - cache.capacity = 0 := by omega
      have hall : fresh.length - cache.capacity = 0 := by omega
      rw [horder, List.length_append, List.length_singleton, hkept, hall, List.drop_zero,
        List.drop_zero]
    · exact nodup_append_singleton hnodup hnew
    · rw [Std.HashMap.mem_insert, hmem, beq_iff_eq, List.mem_append, List.mem_singleton, or_comm,
        eq_comm]
  · rw [hstore, hfilter, if_neg hnew]
    rw [hcons] at hnodup hnew
    obtain ⟨holdest, hrest⟩ := List.nodup_cons.1 hnodup
    refine ⟨hpos, ?_, ?_, fun hash => ?_, latest_insert (fun hash found hfound => ?_) entry⟩
    · -- The oldest entry is the first one that was not dropped before.
      change rest ++ _ = _
      have hnext : fresh.length + 1 - cache.capacity = fresh.length - cache.capacity + 1 := by omega
      have htail : rest = fresh.drop (fresh.length - cache.capacity + 1) := by
        rw [← List.tail_drop, ← horder, hcons, List.tail_cons]
      rw [List.length_append, List.length_singleton, hnext,
        List.drop_append_of_le_length (by omega), htail]
    · exact nodup_append_singleton hrest fun hmem => hnew (List.mem_cons_of_mem _ hmem)
    · rw [Std.HashMap.mem_insert, Std.HashMap.mem_erase, hmem, hcons, List.mem_append,
        List.mem_singleton, List.mem_cons, beq_iff_eq, beq_eq_false_iff_ne]
      constructor
      · rintro (heq | ⟨hne, heq | hrest⟩)
        · exact .inr heq.symm
        · exact absurd heq.symm hne
        · exact .inl hrest
      · rintro (hmem | heq)
        · exact .inr ⟨fun heq => holdest (heq ▸ hmem), .inr hmem⟩
        · exact .inl heq.symm
    · rw [Std.HashMap.getElem?_erase] at hfound
      split at hfound
      · cases hfound
      · exact hlatest hash found hfound

theorem Fifo.afterCall (h : cache.Fifo fresh stored) (call : Call α) :
    (cache.afterCall compile call).Fifo
      (fresh ++ ((call.stores compile cache).toList.map (cache.hash ·.key)).filter
        (!cache.entries.contains ·))
      (stored ++ (call.stores compile cache).toList) := by
  cases hstores : call.stores compile cache with
  | none =>
    rw [afterCall_of_stores_none hstores]
    simpa using h
  | some entry =>
    rw [afterCall_of_stores_some hstores]
    exact h.store entry

/-- Every history keeps the invariant and continues the logs. -/
theorem Fifo.after (h : cache.Fifo fresh stored) (calls : List (Call α)) :
    (cache.after compile calls).Fifo (fresh ++ newHashes compile cache calls)
      (stored ++ storedEntries compile cache calls) := by
  induction calls generalizing cache fresh stored with
  | nil =>
    rw [newHashes, storedEntries, List.append_nil, List.append_nil]
    exact h
  | cons call rest ih =>
    rw [newHashes, storedEntries, ← List.append_assoc, ← List.append_assoc]
    exact ih (h.afterCall call)

/-- The effect of storing an entry on what is found: the new entry under its hash, and what was
found before under every other hash that is still in the order. -/
theorem Fifo.getElem?_store (h : cache.Fifo fresh stored) (entry : Entry α) {hash : κ}
    (hmem : hash ∈ (cache.store entry).order) :
    (cache.store entry).entries[hash]? =
      if cache.hash entry.key == hash then some entry else cache.entries[hash]? := by
  rcases h.store_cases entry with
    ⟨-, hstore⟩ | ⟨-, -, hstore⟩ | ⟨hnew, -, oldest, rest, hcons, hstore⟩
  · rw [hstore, Std.HashMap.getElem?_insert]
  · rw [hstore, Std.HashMap.getElem?_insert]
  · rw [hstore] at hmem ⊢
    rw [Std.HashMap.getElem?_insert, Std.HashMap.getElem?_erase]
    split
    · rfl
    · -- What is still in the order is not the entry that left.
      rename_i hne
      have hnodup := hcons ▸ h.nodup
      have hrest : hash ∈ rest := by
        rcases List.mem_append.1 hmem with hrest | hlast
        · exact hrest
        · exact absurd (beq_iff_eq.2 (List.mem_singleton.1 hlast).symm) hne
      rw [if_neg]
      rw [beq_iff_eq]
      rintro rfl
      exact (List.nodup_cons.1 hnodup).1 hrest

theorem Fifo.order_store_of_mem (h : cache.Fifo fresh stored) {entry : Entry α}
    (hold : cache.hash entry.key ∈ cache.order) : (cache.store entry).order = cache.order := by
  rcases h.store_cases entry with ⟨-, hstore⟩ | ⟨hnew, -⟩ | ⟨hnew, -⟩
  · rw [hstore]
  · exact absurd hold hnew
  · exact absurd hold hnew

theorem Fifo.order_store_of_lt (h : cache.Fifo fresh stored) {entry : Entry α}
    (hnew : cache.hash entry.key ∉ cache.order) (hroom : cache.order.length < cache.capacity) :
    (cache.store entry).order = cache.order ++ [cache.hash entry.key] := by
  rcases h.store_cases entry with ⟨hold, -⟩ | ⟨-, -, hstore⟩ | ⟨-, hfull, -⟩
  · exact absurd hold hnew
  · rw [hstore]
  · omega

theorem Fifo.order_store_of_full (h : cache.Fifo fresh stored) {entry : Entry α}
    (hnew : cache.hash entry.key ∉ cache.order) (hfull : cache.order.length = cache.capacity) :
    ∃ oldest rest, cache.order = oldest :: rest ∧
      (cache.store entry).order = rest ++ [cache.hash entry.key] := by
  rcases h.store_cases entry with ⟨hold, -⟩ | ⟨-, hroom, -⟩ | ⟨-, -, oldest, rest, hcons, hstore⟩
  · exact absurd hold hnew
  · omega
  · exact ⟨oldest, rest, hcons, by rw [hstore]⟩

theorem Fifo.mem_order_store (h : cache.Fifo fresh stored) (entry : Entry α) :
    cache.hash entry.key ∈ (cache.store entry).order := by
  rcases h.store_cases entry with ⟨hold, hstore⟩ | ⟨-, -, hstore⟩ | ⟨-, -, _, _, -, hstore⟩ <;>
    rw [hstore]
  · exact hold
  · exact List.mem_append_right _ List.mem_cons_self
  · exact List.mem_append_right _ List.mem_cons_self

variable (compile) in
/-- The contents of a cache after any history, and the effect of one more call.

The order holds the last of the hashes that were new when they were stored, as many as the capacity
allows, and each once. They are the keys of the map, and each has the entry that was last stored
under it. A look-up, a hit and a failed compilation change nothing. A store under a present hash
replaces the entry and nothing else; a store under a new hash puts it at the end of the order, and
if the cache is full the oldest entry, and no other, leaves. -/
theorem after_fifo (hash : CompileKey → κ) (capacity : Nat) (calls : List (Call α)) :
    let cache := (new hash capacity).after compile calls
    let limit := max capacity 1
    let fresh := newHashes compile (new hash capacity) calls
    let stored := storedEntries compile (new hash capacity) calls
    cache.order = fresh.drop (fresh.length - min fresh.length limit) ∧
      cache.order.Nodup ∧ cache.entries.keys.Perm cache.order ∧ cache.size ≤ limit ∧
      (∀ h ∈ cache.order, ∃ entry, cache.entries[h]? = some entry ∧
        (stored.filter (hash ·.key == h)).getLast? = some entry) ∧
      (∀ stream config, (cache.find? stream config.nullCheck).isSome ∨
          (∃ e, compile stream config = .error e) →
        (cache.findOrCompile compile stream config).2 = cache) ∧
      ∀ call : Call α,
        (call.stores compile cache = none → cache.afterCall compile call = cache) ∧
        ∀ entry, call.stores compile cache = some entry →
          let next := cache.afterCall compile call
          next.entries.keys.Perm next.order ∧ next.entries[hash entry.key]? = some entry ∧
          (∀ h ∈ next.order, h ≠ hash entry.key → next.entries[h]? = cache.entries[h]?) ∧
          (hash entry.key ∈ cache.order → next.order = cache.order) ∧
          (hash entry.key ∉ cache.order → cache.size < limit →
            next.order = cache.order ++ [hash entry.key]) ∧
          (hash entry.key ∉ cache.order → cache.size = limit →
            ∃ oldest rest, cache.order = oldest :: rest ∧
              next.order = rest ++ [hash entry.key]) := by
  intro cache limit fresh stored
  have h : cache.Fifo fresh stored := (fifo_new hash capacity).after calls
  obtain ⟨hhash, hcapacity⟩ :
      cache.hash = hash ∧ cache.capacity = limit := hash_capacity_after (new hash capacity) calls
  have hsize : cache.size = cache.order.length := h.size_eq
  have hlength := h.length_order
  refine ⟨?_, h.nodup, h.keys_perm, by omega, fun hash' hmem => ?_, fun stream config hor => ?_,
    fun call => ⟨afterCall_of_stores_none, fun entry hstores => ?_⟩⟩
  · rw [h.order, hcapacity]
    congr 1
    omega
  · have hkey := (h.mem_iff hash').2 hmem
    obtain ⟨entry, hentry⟩ :=
      Option.isSome_iff_exists.1 (Std.HashMap.mem_iff_isSome_getElem?.1 hkey)
    exact ⟨entry, hentry, hhash ▸ h.latest hash' entry hentry⟩
  · exact afterCall_of_stores_none (stores_findOrCompile_eq_none hor)
  · intro next
    have hnext : next = cache.store entry := afterCall_of_stores_some hstores
    rw [hnext, ← hhash, hsize, ← hcapacity]
    refine ⟨(h.store entry).keys_perm, ?_, fun hash' hmem hne => ?_, h.order_store_of_mem,
      h.order_store_of_lt, h.order_store_of_full⟩
    · rw [h.getElem?_store entry (h.mem_order_store entry), if_pos BEq.rfl]
    · rw [h.getElem?_store entry hmem, if_neg]
      rw [beq_iff_eq]
      exact fun heq => hne heq.symm

/-- A cache of capacity zero keeps one entry: an insertion under a hash of its own takes the place
of the one before. -/
theorem after_fifo_capacityZero :
    let hash : CompileKey → UInt64 := fun key => .ofNat key.stream.length
    let compile : List Instruction → Config → Except CompileError Nat :=
      fun _ _ => .error .emptyPredicate
    let cache := (new hash 0).after compile [.insert [.ret] true 10]
    let next := cache.afterCall compile (.insert [.var .i32 0, .ret] true 20)
    cache.order = [1] ∧ next.order = [2] ∧
      next.entries[(2 : UInt64)]?.map (·.artifact) = some 20 := by
  intro hash compile cache next
  obtain ⟨horder, -, hkeys, -, -, -, hcall⟩ :=
    after_fifo compile hash 0 [.insert [.ret] true 10]
  obtain ⟨-, hget, -, -, -, hfull⟩ := (hcall (.insert [.var .i32 0, .ret] true 20)).2 _ rfl
  have hone : cache.order = [1] := by
    rw [horder]
    simp [newHashes, Call.stores, new, hash, effective, CompileKey.ofStream, Instruction.ret,
      Instruction.op]
  have hsize : cache.size = 1 := by
    have hlength := hkeys.length_eq
    rw [Std.HashMap.length_keys] at hlength
    exact hlength.trans (congrArg List.length hone)
  obtain ⟨oldest, rest, hcons, hnext⟩ := hfull (hone ▸ by decide) hsize
  obtain ⟨-, rfl⟩ := List.cons.inj (hone.symm.trans hcons)
  exact ⟨hone, hnext, congrArg (Option.map (·.artifact)) hget⟩

end RowFilter.StreamCache
