import AsetPlatform.Library.Dict
import AsetPlatform.Library.Run
import AsetPlatform.Library.Threads
import Mathlib.Data.String.Basic

/-!
# The metadata cache

`backend/db/duckdb_engine.py` remembers the newest metadata file of each Iceberg table, and
`_retry_commit` (`stocks/repository.py`) drops what is remembered after each commit.
`_resolve_metadata` holds the lock for its lookup and for its store, not for the directory scan
between them. `World` runs any number of commits and resolves with these steps interleaved.

`resolves_fresh_iff`: with file names that sort in the order of the commits, the resolves of a run
return files that are new enough, and one made between any two steps would, exactly when no resolve
stores the result of a scan that missed a commit whose invalidation has returned by then.
-/

set_option autoImplicit false

namespace AsetPlatform.StockData.MetadataCache

open AsetPlatform.Library

/-! ## The functions -/

/-- The metadata directory of a table, from the warehouse on: the dots of the name are slashes. -/
def metadataPath (tableName : String) : String :=
  String.ofList (tableName.toList.map fun c => if c = '.' then '/' else c) ++ "/metadata"

/-- The metadata file `name` of a table. -/
def metadataFile (tableName name : String) : String := metadataPath tableName ++ "/" ++ name

/-- `invalidate_metadata`. The empty name clears the cache, as no name does. -/
def invalidateMetadata (tableName : Option String) (metaCache : Dict String String) :
    Dict String String :=
  match tableName with
  | some t => if t = "" then .empty else metaCache.erase t
  | none => .empty

/-- The lookup of `_resolve_metadata`. -/
def lookUp (metaCache : Dict String String) (tableName : String) : Option String :=
  (metaCache.get? tableName).filter fun cached => cached ≠ ""

/-- The scan of `_resolve_metadata`: of the names in a directory the first in descending order. -/
def scan (names : List String) (tableName : String) : Option String :=
  (names.mergeSort fun a b => b ≤ a).head?.map (metadataFile tableName)

/-- `_resolve_metadata` without interruption. -/
def resolveMetadata (metaCache : Dict String String) (names : List String) (tableName : String) :
    Option String × Dict String String :=
  match lookUp metaCache tableName with
  | some cached => (some cached, metaCache)
  | none =>
      match scan names tableName with
      | none => (none, metaCache)
      | some result => (some result, metaCache.set tableName result)

/-! ## Runs -/

/-- A thread between two steps. `since` counts the files of the directory up to that of the newest
commit whose invalidation had returned when the resolve was called, `seen` those found by its scan. -/
inductive Thread where
  | committed (tableName : String) (count : Nat)
  | invalidated
  | called (tableName : String) (since : Nat)
  | missed (tableName : String) (since : Nat)
  | scanned (tableName : String) (since seen : Nat) (result : String)
  | returned (tableName : String) (since : Nat) (result : Option String)
  deriving DecidableEq

/-- The metadata files of each directory in the order of the commits, the cache, and the threads.
`published` counts the files up to that of the newest commit whose invalidation has returned. -/
structure World where
  warehouse : String → List String
  metaCache : Dict String String
  published : String → Nat
  threads : List Thread

/-- A commit that succeeds and writes the file `name`, an invalidation by other code, a call of
`_resolve_metadata`, and the next step of a thread. -/
inductive Event where
  | commit (tableName name : String)
  | invalidate (tableName : Option String)
  | resolve (tableName : String)
  | move (k : Nat)
  deriving DecidableEq

namespace World

/-- A process that starts on directories whose names are listed in their order. -/
def start (listing : String → {names : List String // names.Pairwise (· < ·)}) : World where
  warehouse dir := (listing dir).1
  metaCache := .empty
  published _ := 0
  threads := []

variable (w : World)

def names (tableName : String) : List String := w.warehouse (metadataPath tableName)

/-- A thread takes its next step. -/
def advance (k : Nat) : Thread → World
  | .committed t count =>
      { w with
        metaCache := invalidateMetadata (some t) w.metaCache
        published := Function.update w.published t (max (w.published t) count)
        threads := w.threads.set k .invalidated }
  | .called t since =>
      match lookUp w.metaCache t with
      | some cached => { w with threads := w.threads.set k (.returned t since (some cached)) }
      | none => { w with threads := w.threads.set k (.missed t since) }
  | .missed t since =>
      match scan (w.names t) t with
      | none => { w with threads := w.threads.set k (.returned t since none) }
      | some result =>
          { w with threads := w.threads.set k (.scanned t since (w.names t).length result) }
  | .scanned t since _ result =>
      { w with
        metaCache := w.metaCache.set t result
        threads := w.threads.set k (.returned t since (some result)) }
  | .invalidated | .returned _ _ _ => w

def step : Event → World
  | .commit t name =>
      { w with
        warehouse := Function.update w.warehouse (metadataPath t) (w.names t ++ [name])
        threads := w.threads ++ [.committed t ((w.names t).length + 1)] }
  | .invalidate t => { w with metaCache := invalidateMetadata t w.metaCache }
  | .resolve t => { w with threads := w.threads ++ [.called t (w.published t)] }
  | .move k =>
      match w.threads[k]? with
      | none => w
      | some thread => w.advance k thread

/-- The result is the file of the newest commit that was invalidated by the call, or of a later
one. -/
def IsFresh (tableName : String) (since : Nat) (result : Option String) : Prop :=
  since = 0 ∨ ∃ name ∈ (w.names tableName).drop (since - 1),
    result = some (metadataFile tableName name)

instance (tableName : String) (since : Nat) (result : Option String) :
    Decidable (w.IsFresh tableName since result) :=
  inferInstanceAs (Decidable (_ ∨ ∃ name ∈ (w.names tableName).drop (since - 1), _))

/-- The resolves that have returned are fresh, and one made now would be. -/
structure ResolvesFresh : Prop where
  returned : ∀ t since result, .returned t since result ∈ w.threads → w.IsFresh t since result
  next : ∀ t, w.IsFresh t (w.published t) (resolveMetadata w.metaCache (w.names t) t).1

/-- The file of a commit sorts after the files that are there. -/
def SortsLast : Event → Prop
  | .commit t name => ∀ other ∈ w.names t, other < name
  | _ => True

instance (e : Event) : Decidable (w.SortsLast e) := by
  unfold SortsLast
  cases e <;> infer_instance

/-- A resolve that stores has seen the file of every commit whose invalidation has returned. -/
def StoresCurrent : Event → Prop
  | .move k =>
      match w.threads[k]? with
      | some (.scanned t _ seen _) => w.published t ≤ seen
      | _ => True
  | _ => True

instance (e : Event) : Decidable (w.StoresCurrent e) := by
  unfold StoresCurrent
  split
  · split <;> infer_instance
  · infer_instance

end World

/-! ## A resolve alone -/

theorem World.step_move {w : World} {k : Nat} {thread : Thread}
    (hThread : w.threads[k]? = some thread) : w.step (.move k) = w.advance k thread := by
  rw [World.step, hThread]

/-- Three steps of a resolve that nothing comes between are the function. -/
theorem World.resolve_alone {w : World} {k since : Nat} {t : String}
    (hThread : w.threads[k]? = some (.called t since)) :
    runFrom World.step w [.move k, .move k, .move k] =
      { w with
        metaCache := (resolveMetadata w.metaCache (w.names t) t).2
        threads := w.threads.set k
          (.returned t since (resolveMetadata w.metaCache (w.names t) t).1) } := by
  have hLength : k < w.threads.length := (List.getElem?_eq_some_iff.mp hThread).1
  have hSet : ∀ threads : List Thread, threads.length = w.threads.length → ∀ next,
      (threads.set k next)[k]? = some next := fun threads hSame next => by
    rw [List.getElem?_set_self (by rwa [hSame])]
  rw [runFrom_cons, World.step_move hThread, World.advance, resolveMetadata]
  cases hLookUp : lookUp w.metaCache t with
  | some cached =>
      dsimp only
      rw [runFrom_cons, World.step_move (hSet _ rfl _), World.advance, runFrom_cons,
        World.step_move (hSet _ rfl _), World.advance, runFrom_nil]
  | none =>
      dsimp only
      rw [runFrom_cons, World.step_move (hSet _ rfl _)]
      simp only [World.advance, World.names]
      cases hScan : scan (w.warehouse (metadataPath t)) t with
      | none =>
          dsimp only
          rw [List.set_set, runFrom_cons, World.step_move (hSet _ rfl _), World.advance, runFrom_nil]
      | some result =>
          dsimp only
          rw [List.set_set, runFrom_cons, World.step_move (hSet _ rfl _), World.advance, List.set_set,
            runFrom_nil]

/-! ## File names -/

theorem metadataFile_inj {tableName a b : String}
    (h : metadataFile tableName a = metadataFile tableName b) : a = b := by
  have hChars := congrArg String.toList h
  simp only [metadataFile, String.toList_append] at hChars
  exact String.toList_inj.mp (List.append_cancel_left hChars)

theorem metadataFile_ne_empty (tableName name : String) : metadataFile tableName name ≠ "" := by
  intro h
  have hChars := congrArg String.toList h
  simp [metadataFile] at hChars

theorem lookUp_of_get? {metaCache : Dict String String} {t name : String}
    (h : metaCache.get? t = some (metadataFile t name)) :
    lookUp metaCache t = some (metadataFile t name) := by
  rw [lookUp, h, Option.filter_some, if_pos (by simp [metadataFile_ne_empty])]

theorem get?_of_lookUp {metaCache : Dict String String} {t cached : String}
    (h : lookUp metaCache t = some cached) : metaCache.get? t = some cached :=
  (Option.filter_eq_some_iff.mp h).1

theorem pairwise_descending (names : List String) :
    (names.mergeSort fun a b => b ≤ a).Pairwise fun a b => b ≤ a := by
  have hPairwise : (names.mergeSort fun a b => decide (b ≤ a)).Pairwise
      fun a b => decide (b ≤ a) = true := by
    apply List.pairwise_mergeSort
    · intro a b c hba hcb
      exact decide_eq_true ((of_decide_eq_true hcb).trans (of_decide_eq_true hba))
    · intro a b
      simpa using le_total b a
  exact hPairwise.imp of_decide_eq_true

theorem scan_eq {names : List String} (hSorted : names.Pairwise (· < ·)) (t : String) :
    scan names t = names.getLast?.map (metadataFile t) := by
  have hDescending := pairwise_descending names
  have hReverse : names.mergeSort (fun a b => b ≤ a) = names.reverse := by
    refine List.Perm.eq_of_pairwise (fun a b _ _ hba hab => le_antisymm hab hba) hDescending ?_
      ((List.mergeSort_perm _ _).trans (List.reverse_perm names).symm)
    rw [List.pairwise_reverse]
    exact hSorted.imp le_of_lt
  rw [scan, hReverse, List.head?_reverse]

namespace World

variable {w : World}

theorem isFresh_iff {t name : String} {since i : Nat} (hSorted : (w.names t).Pairwise (· < ·))
    (hName : (w.names t)[i]? = some name) :
    w.IsFresh t since (some (metadataFile t name)) ↔ since ≤ i + 1 := by
  constructor
  · rintro (rfl | ⟨name', hMem, hFile⟩)
    · exact Nat.zero_le _
    · obtain rfl := metadataFile_inj (Option.some.inj hFile)
      obtain ⟨j, hj⟩ := List.mem_iff_getElem?.mp hMem
      rw [List.getElem?_drop] at hj
      -- The names are distinct, so that this is the position of the file.
      have hNodup : (w.names t).Nodup := hSorted.imp ne_of_lt
      have hLength := (List.getElem?_eq_some_iff.mp hName).1
      have : i = since - 1 + j := (List.getElem?_inj hLength hNodup).mp (hName.trans hj.symm)
      omega
  · intro hSince
    rcases Nat.eq_zero_or_pos since with hZero | hPos
    · exact Or.inl hZero
    · refine Or.inr ⟨name, List.mem_iff_getElem?.mpr ⟨i - (since - 1), ?_⟩, rfl⟩
      rw [List.getElem?_drop, ← hName]
      congr 1
      omega

/-! ## The invariant -/

/-- The result is the file at a position from `since` on. -/
def Found (w : World) (t : String) (count : Nat) (result : String) : Prop :=
  ∃ i name, count = i + 1 ∧ (w.names t)[i]? = some name ∧ result = metadataFile t name

/-- What holds of a thread between two steps. -/
def ThreadOk (w : World) : Thread → Prop
  | .committed t count => count ≤ (w.names t).length
  | .invalidated => True
  | .called t since => since ≤ w.published t
  | .missed t since => since ≤ w.published t
  | .scanned t since seen result => since ≤ seen ∧ w.Found t seen result
  | .returned t since result => w.IsFresh t since result

/-- The directories are sorted, the cache holds files that are new enough, and the threads are as
they should be. -/
structure Inv (w : World) : Prop where
  sorted : ∀ dir, (w.warehouse dir).Pairwise (· < ·)
  published : ∀ t, w.published t ≤ (w.names t).length
  cached : ∀ t path, w.metaCache.get? t = some path →
    ∃ count, w.published t ≤ count ∧ w.Found t count path
  threads : ∀ thread ∈ w.threads, w.ThreadOk thread

/-- The world has the directories of another one with later files, and as many commits or more have
been invalidated. -/
structure Grows (w w' : World) : Prop where
  names : ∀ t, w.names t <+: w'.names t
  published : ∀ t, w.published t ≤ w'.published t

theorem Found.grows {w' : World} (hGrows : w.Grows w') {t result : String} {count : Nat}
    (h : w.Found t count result) : w'.Found t count result := by
  obtain ⟨i, name, hCount, hName, hResult⟩ := h
  obtain ⟨later, hLater⟩ := hGrows.names t
  have hLength := (List.getElem?_eq_some_iff.mp hName).1
  exact ⟨i, name, hCount, by rw [← hLater, List.getElem?_append_left hLength, hName], hResult⟩

theorem IsFresh.grows {w' : World} (hGrows : w.Grows w') {t : String} {since : Nat}
    {result : Option String} (h : w.IsFresh t since result) : w'.IsFresh t since result := by
  refine h.imp id fun ⟨name, hName, hResult⟩ => ⟨name, ?_, hResult⟩
  obtain ⟨later, hLater⟩ := hGrows.names t
  rw [← hLater, List.drop_append]
  exact List.mem_append_left _ hName

theorem ThreadOk.grows {w' : World} (hGrows : w.Grows w') {thread : Thread}
    (h : w.ThreadOk thread) : w'.ThreadOk thread := by
  cases thread with
  | committed t count => exact Nat.le_trans h (hGrows.names t).length_le
  | invalidated => trivial
  | called t since => exact Nat.le_trans h (hGrows.published t)
  | missed t since => exact Nat.le_trans h (hGrows.published t)
  | scanned t since seen result => exact ⟨h.1, h.2.grows hGrows⟩
  | returned t since result => exact IsFresh.grows hGrows h

theorem Inv.withThreads (hInv : Inv w) {threads : List Thread}
    (hThreads : ∀ thread ∈ threads, w.ThreadOk thread) : Inv { w with threads := threads } where
  sorted := hInv.sorted
  published := hInv.published
  cached := hInv.cached
  threads thread hThread := (hThreads thread hThread).grows ⟨fun _ => List.prefix_rfl, fun _ => le_rfl⟩

/-- A scan finds the file of the newest commit. -/
theorem Inv.scan (hInv : Inv w) (t : String) :
    scan (w.names t) t = none ∧ w.names t = [] ∨
      ∃ result, MetadataCache.scan (w.names t) t = some result ∧
        w.Found t (w.names t).length result := by
  have hScan : MetadataCache.scan (w.names t) t = (w.names t).getLast?.map (metadataFile t) :=
    scan_eq (hInv.sorted (metadataPath t)) t
  rw [hScan]
  rcases List.eq_nil_or_concat (w.names t) with hNil | ⟨earlier, name, hConcat⟩
  · exact Or.inl ⟨by rw [hNil]; rfl, hNil⟩
  · refine Or.inr ⟨metadataFile t name, ?_, earlier.length, name, ?_, ?_, rfl⟩
    · rw [hConcat, List.concat_eq_append, List.getLast?_concat, Option.map_some]
    · rw [hConcat, List.length_concat]
    · rw [hConcat, List.concat_eq_append, List.getElem?_concat_length]

theorem Inv.isFresh_of_found (hInv : Inv w) {t result : String} {since count : Nat}
    (hFound : w.Found t count result) : w.IsFresh t since (some result) ↔ since ≤ count := by
  obtain ⟨i, name, rfl, hName, rfl⟩ := hFound
  exact isFresh_iff (hInv.sorted _) hName

/-- Between two steps of a world in order the resolves that have returned are fresh, and so would be
the next one. -/
theorem Inv.resolvesFresh (hInv : Inv w) : w.ResolvesFresh where
  returned t since result hThread := hInv.threads _ hThread
  next t := by
    rw [resolveMetadata]
    cases hLookUp : lookUp w.metaCache t with
    | some cached =>
        obtain ⟨count, hCount, hFound⟩ := hInv.cached t cached (get?_of_lookUp hLookUp)
        exact (hInv.isFresh_of_found hFound).mpr hCount
    | none =>
        rcases hInv.scan t with ⟨hScan, hNil⟩ | ⟨result, hScan, hFound⟩
        · -- Without files there was no commit to be invalidated.
          rw [hScan]
          have hPublished := hInv.published t
          rw [hNil] at hPublished
          exact Or.inl (Nat.le_zero.mp hPublished)
        · rw [hScan]
          exact (hInv.isFresh_of_found hFound).mpr (hInv.published t)

/-! ## The steps -/

theorem get?_invalidateMetadata {tableName : Option String} {metaCache : Dict String String}
    {t path : String} (h : (invalidateMetadata tableName metaCache).get? t = some path) :
    metaCache.get? t = some path ∧ tableName ≠ some t := by
  cases tableName with
  | none => simp [invalidateMetadata, Dict.get?_empty] at h
  | some t' =>
      rw [invalidateMetadata] at h
      split at h
      · simp [Dict.get?_empty] at h
      · rw [Dict.get?_erase] at h
        split at h
        · cases h
        · exact ⟨h, fun hSame => ‹¬_› (Option.some.inj hSame).symm⟩

theorem warehouse_commit (w : World) (t name : String) : (w.step (.commit t name)).warehouse =
    Function.update w.warehouse (metadataPath t) (w.names t ++ [name]) := rfl

theorem published_advance (w : World) (k : Nat) (t : String) (count : Nat) :
    (w.advance k (.committed t count)).published =
      Function.update w.published t (max (w.published t) count) := rfl

theorem commit_grows (w : World) (t name : String) : w.Grows (w.step (.commit t name)) where
  names t' := by
    rw [names, names, warehouse_commit]
    by_cases hDir : metadataPath t' = metadataPath t
    · rw [hDir, Function.update_self]
      exact List.prefix_append _ _
    · have hSame := Function.update_of_ne hDir (w.names t ++ [name]) w.warehouse
      exact hSame.symm ▸ List.prefix_rfl
  published _ := le_rfl

theorem names_commit (w : World) (t name : String) :
    (w.step (.commit t name)).names t = w.names t ++ [name] := Function.update_self ..

theorem Inv.commit (hInv : Inv w) {t name : String} (hLast : w.SortsLast (.commit t name)) :
    Inv (w.step (.commit t name)) where
  sorted dir := by
    rw [warehouse_commit]
    by_cases hDir : dir = metadataPath t
    · rw [hDir, Function.update_self, List.pairwise_append]
      exact ⟨hInv.sorted _, List.pairwise_singleton _ _, fun other hOther last hMem =>
        List.mem_singleton.mp hMem ▸ hLast other hOther⟩
    · rw [Function.update_of_ne hDir]
      exact hInv.sorted dir
  published t' := (hInv.published t').trans ((w.commit_grows t name).names t').length_le
  cached t' path hPath := by
    obtain ⟨count, hCount, hFound⟩ := hInv.cached t' path hPath
    exact ⟨count, hCount, hFound.grows (w.commit_grows t name)⟩
  threads := by
    refine forall_mem_append_singleton (fun thread hThread =>
      (hInv.threads thread hThread).grows (w.commit_grows t name)) ?_
    rw [ThreadOk, names_commit, List.length_append, List.length_singleton]

theorem Inv.invalidate (hInv : Inv w) (t : Option String) : Inv (w.step (.invalidate t)) where
  sorted := hInv.sorted
  published := hInv.published
  cached t' path hPath := hInv.cached t' path (get?_invalidateMetadata hPath).1
  threads := hInv.threads

theorem Inv.published_of_committed (hInv : Inv w) {k count : Nat} {t : String}
    (hThread : w.threads[k]? = some (.committed t count)) :
    Inv (w.advance k (.committed t count)) := by
  have hCount : count ≤ (w.names t).length := hInv.threads _ (List.mem_of_getElem? hThread)
  have hGrows : w.Grows (w.advance k (.committed t count)) := by
    refine ⟨fun _ => List.prefix_rfl, fun t' => ?_⟩
    rw [published_advance]
    by_cases hTable : t' = t
    · rw [hTable, Function.update_self]
      exact Nat.le_max_left _ _
    · rw [Function.update_of_ne hTable]
  refine ⟨hInv.sorted, fun t' => ?_, fun t' path hPath => ?_, ?_⟩
  · by_cases hTable : t' = t
    · rw [hTable, published_advance, Function.update_self]
      exact Nat.max_le.mpr ⟨hInv.published t, hCount⟩
    · rw [published_advance, Function.update_of_ne hTable]
      exact hInv.published t'
  · obtain ⟨hBefore, hOther⟩ := get?_invalidateMetadata hPath
    obtain ⟨newest, hNewest, hFound⟩ := hInv.cached t' path hBefore
    refine ⟨newest, ?_, hFound.grows hGrows⟩
    -- Nothing is remembered of the table itself, and no other table has a newer commit.
    rw [published_advance, Function.update_of_ne fun hTable => hOther (congrArg some hTable.symm)]
    exact hNewest
  · exact forall_mem_set (fun thread hThread => (hInv.threads thread hThread).grows hGrows) trivial

/-- A resolve that stores what its scan has seen keeps the world in order when no newer commit has
been invalidated. -/
theorem Inv.store (hInv : Inv w) {k since seen : Nat} {t result : String}
    (hThread : w.threads[k]? = some (.scanned t since seen result)) (hSeen : w.published t ≤ seen) :
    Inv (w.advance k (.scanned t since seen result)) := by
  obtain ⟨hSince, hFound⟩ := hInv.threads _ (List.mem_of_getElem? hThread)
  have hReturned : w.ThreadOk (.returned t since (some result)) :=
    (hInv.isFresh_of_found hFound).mpr hSince
  have hThreads := hInv.withThreads (forall_mem_set (k := k) hInv.threads hReturned)
  refine ⟨hThreads.sorted, hThreads.published, fun t' path hPath => ?_, hThreads.threads⟩
  rw [advance, Dict.get?_set] at hPath
  split at hPath
  · rename_i hTable
    rw [hTable, ← Option.some.inj hPath]
    exact ⟨seen, hSeen, hFound⟩
  · exact hInv.cached t' path hPath

theorem Inv.step (hInv : Inv w) {e : Event} (hLast : w.SortsLast e) (hCurrent : w.StoresCurrent e) :
    Inv (w.step e) := by
  cases e with
  | commit t name => exact hInv.commit hLast
  | invalidate t => exact hInv.invalidate t
  | resolve t => exact hInv.withThreads (forall_mem_append_singleton hInv.threads le_rfl)
  | move k =>
      rw [World.step]
      cases hThread : w.threads[k]? with
      | none => exact hInv
      | some thread =>
          have hOk : w.ThreadOk thread := hInv.threads _ (List.mem_of_getElem? hThread)
          have hKept : ∀ next, w.ThreadOk next → Inv { w with threads := w.threads.set k next } :=
            fun next hNext => hInv.withThreads (forall_mem_set hInv.threads hNext)
          cases thread with
          | committed t count => exact hInv.published_of_committed hThread
          | invalidated => exact hInv
          | called t since =>
              simp only [advance]
              split
              · rename_i cached hLookUp
                obtain ⟨count, hCount, hFound⟩ := hInv.cached t cached (get?_of_lookUp hLookUp)
                exact hKept _ ((hInv.isFresh_of_found hFound).mpr (Nat.le_trans hOk hCount))
              · exact hKept _ hOk
          | missed t since =>
              have hSince : since ≤ (w.names t).length := Nat.le_trans hOk (hInv.published t)
              rcases hInv.scan t with ⟨hScan, hNil⟩ | ⟨result, hScan, hFound⟩
              · simp only [advance, hScan]
                rw [hNil] at hSince
                exact hKept _ (Or.inl (Nat.le_zero.mp hSince))
              · simp only [advance, hScan]
                exact hKept _ ⟨hSince, hFound⟩
          | scanned t since seen result =>
              rw [StoresCurrent, hThread] at hCurrent
              exact hInv.store hThread hCurrent
          | returned t since result => exact hInv

theorem Inv.storesCurrent (hInv : Inv w) {e : Event} (h : (w.step e).ResolvesFresh) :
    w.StoresCurrent e := by
  cases e with
  | move k =>
      rw [StoresCurrent]
      split
      · rename_i t since seen result hThread
        obtain ⟨-, hFound⟩ := hInv.threads _ (List.mem_of_getElem? hThread)
        have hNext := h.next t
        have hStep := step_move hThread
        obtain ⟨i, name, rfl, hName, rfl⟩ := hFound
        have hLookUp : lookUp (w.metaCache.set t (metadataFile t name)) t =
            some (metadataFile t name) := lookUp_of_get? (by rw [Dict.get?_set, if_pos rfl])
        rw [hStep, advance, resolveMetadata, hLookUp] at hNext
        exact (isFresh_iff (hInv.sorted _) hName).mp hNext
      · trivial
  | commit t name => trivial
  | invalidate t => trivial
  | resolve t => trivial

theorem Inv.start (listing : String → {names : List String // names.Pairwise (· < ·)}) :
    Inv (start listing) where
  sorted dir := (listing dir).2
  published _ := Nat.zero_le _
  cached t path hPath := by simp [World.start, Dict.get?_empty] at hPath
  threads _ hThread := absurd hThread List.not_mem_nil

/-- With file names that sort in the order of the commits: in every state of a run the resolves that
have returned are fresh, and so would be one made then, exactly when every store is current. -/
theorem resolves_fresh_iff (listing : String → {names : List String // names.Pairwise (· < ·)})
    (es : List Event) (hNames : EveryStep step SortsLast (start listing) es) :
    EveryState step ResolvesFresh (start listing) es ↔
      EveryStep step StoresCurrent (start listing) es := by
  have hGuarded : EveryStep step (fun w e => w.SortsLast e ∧ (w.step e).ResolvesFresh)
      (start listing) es ↔
        EveryStep step (fun w e => w.SortsLast e ∧ w.StoresCurrent e) (start listing) es := by
    have hStep : ∀ (w : World) (e : Event), Inv w → w.SortsLast e ∧ w.StoresCurrent e →
        Inv (w.step e) := fun w e hInv hGuard => hInv.step hGuard.1 hGuard.2
    refine everyStep_iff_guarded hStep (fun w e hInv => and_congr_right fun hLast => ?_)
      (Inv.start listing)
    exact ⟨hInv.storesCurrent, fun hCurrent => (hInv.step hLast hCurrent).resolvesFresh⟩
  rw [everyStep_and, everyStep_and] at hGuarded
  rw [EveryState, and_iff_right (Inv.start listing).resolvesFresh]
  constructor
  · exact fun hFresh => (hGuarded.mp ⟨hNames, hFresh⟩).2
  · exact fun hCurrent => (hGuarded.mpr ⟨hNames, hCurrent⟩).2

/-! ## Two commits and two resolves -/

/-- No metadata file yet. -/
def noFiles (_ : String) : {names : List String // names.Pairwise (· < ·)} := ⟨[], .nil⟩

/-- The second commit and its invalidation come after the store of the first resolve. -/
def storedInTime : List Event :=
  [.commit "stocks.ohlcv" "00000-a.metadata.json", .move 0, .resolve "stocks.ohlcv", .move 1, .move 1,
    .move 1, .commit "stocks.ohlcv" "00001-b.metadata.json", .move 2, .resolve "stocks.ohlcv", .move 3,
    .move 3, .move 3]

theorem resolves_fresh_storedInTime :
    EveryState step ResolvesFresh (start noFiles) storedInTime ↔
      EveryStep step StoresCurrent (start noFiles) storedInTime :=
  resolves_fresh_iff noFiles storedInTime (by decide +kernel)

/-- The first resolve has scanned the directory before the second commit and stores what it found
after the invalidation: the second resolve, called later, returns the older file. -/
def storedTooLate : List Event :=
  [.commit "stocks.ohlcv" "00000-a.metadata.json", .move 0, .resolve "stocks.ohlcv", .move 1, .move 1,
    .commit "stocks.ohlcv" "00001-b.metadata.json", .move 2, .move 1, .resolve "stocks.ohlcv", .move 3]

theorem second_resolve_outdated :
    EveryStep step SortsLast (start noFiles) storedTooLate ∧
      ∃ thread ∈ (runFrom step (start noFiles) storedTooLate).threads,
        thread = .returned "stocks.ohlcv" 2
          (some (metadataFile "stocks.ohlcv" "00000-a.metadata.json")) ∧
        ¬ (runFrom step (start noFiles) storedTooLate).IsFresh "stocks.ohlcv" 2
          (some (metadataFile "stocks.ohlcv" "00000-a.metadata.json")) := by
  decide +kernel

end World

end AsetPlatform.StockData.MetadataCache
