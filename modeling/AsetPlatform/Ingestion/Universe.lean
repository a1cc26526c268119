import AsetPlatform.Ingestion.Cursor
import AsetPlatform.Ingestion.Sources
import AsetPlatform.Library.Rows
import Mathlib.Data.List.Dedup
import Mathlib.Data.String.Basic

/-!
# The stock universe

`backend/pipeline/universe.py`: the rows of `stock_master` and `stock_tags` in one transaction, how a
stock is inserted or updated, and how its active tags are reconciled with a set. A result that is
missing stands for a row that a unique constraint refuses; the transaction is then lost.
-/

set_option autoImplicit false

namespace AsetPlatform.Ingestion.Universe

open AsetPlatform.Library

/-- The columns of `stock_master` that an update writes. -/
structure Listing where
  name : String
  isin : Option String
  exchange : String
  sector : Option String
  industry : Option String
  deriving DecidableEq

structure MasterRow extends StockMaster, Listing where
  nseSymbol : String
  updatedAt : Nat
  deriving DecidableEq

structure StockTag where
  stockId : Nat
  tag : String
  addedAt : Nat
  removedAt : Option Nat
  deriving DecidableEq

/-- The tables that the jobs of the universe write; the next id of `stock_master` stands with them. -/
structure Db where
  stocks : List MasterRow
  nextId : Nat
  tags : List StockTag
  cursors : List Cursor

/-- The `data` of an upsert. A name and an exchange are always given. -/
structure StockData where
  symbol : String
  name : String
  isin : Option String
  exchange : String
  sector : Option String
  industry : Option String

/-- The columns once what is given has been set. -/
def StockData.onto (data : StockData) (old : Listing) : Listing where
  name := data.name
  isin := data.isin.or old.isin
  exchange := data.exchange
  sector := data.sector.or old.sector
  industry := data.industry.or old.industry

/-- The columns of a new stock. -/
def StockData.created (T : CharTables) (data : StockData) : Listing where
  name := data.name
  isin := data.isin
  exchange := data.exchange
  sector := safeStr T data.sector
  industry := safeStr T data.industry

def StockData.newRow (T : CharTables) (started id : Nat) (data : StockData) : MasterRow where
  id := id
  symbol := data.symbol
  yfTicker := data.symbol ++ ".NS"
  currency := "INR"
  isActive := true
  toListing := data.created T
  nseSymbol := data.symbol
  updatedAt := started

/-- `get_stock_by_symbol` -/
def getStockBySymbol (db : Db) (symbol : String) : Option MasterRow :=
  db.stocks.find? fun s => s.symbol = symbol

/-- Another stock has the ISIN. -/
def IsinTaken (db : Db) (id : Nat) (isin : Option String) : Prop :=
  isin.isSome ∧ ∃ s ∈ db.stocks, s.id ≠ id ∧ s.isin = isin

instance (db : Db) (id : Nat) (isin : Option String) : Decidable (IsinTaken db id isin) :=
  inferInstanceAs (Decidable (_ ∧ ∃ s ∈ db.stocks, _))

/-- `upsert_stock`, with the start of the transaction and the time of the update. -/
def upsertStock (T : CharTables) (started wall : Nat) (db : Db) (data : StockData) :
    Option (Db × MasterRow × Bool) :=
  match getStockBySymbol db data.symbol with
  | some existing =>
      let listing := data.onto existing.toListing
      if listing = existing.toListing then some (db, existing, false)
      else if listing.isin ≠ existing.isin ∧ IsinTaken db existing.id listing.isin then none
      else
        let stock : MasterRow := { existing with toListing := listing, updatedAt := wall }
        some ({ db with stocks := db.stocks.map fun s => if s.id = stock.id then stock else s },
          stock, false)
  | none =>
      let stock := data.newRow T started db.nextId
      if IsinTaken db stock.id stock.isin then none
      else some ({ db with stocks := db.stocks ++ [stock], nextId := db.nextId + 1 }, stock, true)

def StockTag.activeFor (stockId : Nat) (r : StockTag) : Bool :=
  r.stockId = stockId && r.removedAt.isNone

/-- `get_active_tags`, in the order of the table. -/
def getActiveTags (tags : List StockTag) (stockId : Nat) : List StockTag :=
  tags.filter (StockTag.activeFor stockId)

/-- The active rows of stale tags are removed: of several rows with one tag the last, for that is the
one that `tag_map` keeps. -/
def removeTags (stockId wall : Nat) (stale : List String) : List StockTag → List StockTag
  | [] => []
  | r :: rest =>
      (if r.activeFor stockId && r.tag ∈ stale &&
          !rest.any fun later => later.activeFor stockId && later.tag = r.tag then
        { r with removedAt := some wall }
      else r) :: removeTags stockId wall stale rest

/-- The names in their order. -/
def sorted (names : List String) : List String := names.insertionSort (· ≤ ·)

/-- `sync_tags`, with the start of the transaction, which a new row gets, and the time of the call,
which a removed one gets. -/
def syncTags (tags : List StockTag) (stockId : Nat) (newTags : List String) (started wall : Nat) :
    Option (List StockTag × List String × List String) :=
  let current := (getActiveTags tags stockId).map StockTag.tag
  let toAdd := newTags.filter (· ∉ current)
  let toRemove := current.dedup.filter (· ∉ newTags)
  if ∃ r ∈ tags, r.stockId = stockId ∧ r.tag ∈ toAdd ∧ r.addedAt = started then none
  else
    some (removeTags stockId wall toRemove tags ++
        (sorted toAdd).map (fun tag => ⟨stockId, tag, started, none⟩),
      sorted toAdd, sorted toRemove)

/-! ## The stock of an upsert -/

/-- The parts of a valid database fit together, as its constraints demand. -/
structure Valid (db : Db) : Prop where
  symbols : (db.stocks.map fun s => s.symbol).Nodup
  ids : (db.stocks.map fun s => s.id).Nodup
  drawn : ∀ s ∈ db.stocks, s.id < db.nextId
  owners : ∀ r ∈ db.tags, ∃ s ∈ db.stocks, s.id = r.stockId
  positive : 0 < db.nextId
  cursorNames : (db.cursors.map Cursor.name).Nodup

def updatedRow (data : StockData) (wall : Nat) (old : MasterRow) : MasterRow :=
  { old with
    toListing := data.onto old.toListing
    updatedAt := if data.onto old.toListing = old.toListing then old.updatedAt else wall }

section Upsert

variable {T : CharTables} {started wall : Nat} {db db' : Db} {data : StockData} {symbol : String}
variable {stock existing s : MasterRow} {isNew : Bool}

theorem getStockBySymbol_eq_some (hValid : Valid db) :
    getStockBySymbol db symbol = some s ↔ s ∈ db.stocks ∧ s.symbol = symbol :=
  find?_key_eq_some hValid.symbols

theorem getStockBySymbol_eq_none :
    getStockBySymbol db symbol = none ↔ ∀ s ∈ db.stocks, s.symbol ≠ symbol := by
  rw [getStockBySymbol, List.find?_eq_none]
  exact forall₂_congr fun s _ => by rw [decide_eq_true_eq]

/-- A stock that exists is updated in its place. -/
theorem upsertStock_existing (hValid : Valid db)
    (hFind : getStockBySymbol db data.symbol = some existing)
    (h : upsertStock T started wall db data = some (db', stock, isNew)) :
    isNew = false ∧ stock = updatedRow data wall existing ∧ db' = { db with
      stocks := db.stocks.map fun s =>
        if s.id = existing.id then updatedRow data wall s else s } := by
  have hOnly : ∀ s ∈ db.stocks, s.id = existing.id → s = existing := fun s hMem hId =>
    List.inj_on_of_nodup_map hValid.ids hMem (List.mem_of_find?_eq_some hFind) hId
  unfold upsertStock at h
  rw [hFind] at h
  dsimp only at h
  split at h
  · rename_i hSame
    have hRow : updatedRow data wall existing = existing := by
      rw [updatedRow, if_pos hSame, hSame]
    have hMap : (db.stocks.map fun s => if s.id = existing.id then updatedRow data wall s else s) =
        db.stocks := by
      refine (List.map_congr_left fun s hMem => ?_).trans (List.map_id _)
      split
      · rename_i hId
        rw [hOnly s hMem hId, hRow]
        rfl
      · rfl
    cases h
    exact ⟨rfl, hRow.symm, by rw [hMap]⟩
  · rename_i hSame
    split at h
    · cases h
    · have hRow : { existing with toListing := data.onto existing.toListing, updatedAt := wall } =
          updatedRow data wall existing := by rw [updatedRow, if_neg hSame]
      have hMap : (db.stocks.map fun s => if s.id = existing.id then
            { existing with toListing := data.onto existing.toListing, updatedAt := wall } else s) =
          db.stocks.map fun s => if s.id = existing.id then updatedRow data wall s else s := by
        refine List.map_congr_left fun s hMem => ?_
        split
        · rename_i hId
          rw [hRow, hOnly s hMem hId]
        · rfl
      cases h
      exact ⟨rfl, hRow, by rw [← hMap]⟩

theorem upsertStock_new (hFind : getStockBySymbol db data.symbol = none)
    (h : upsertStock T started wall db data = some (db', stock, isNew)) :
    isNew = true ∧ stock = data.newRow T started db.nextId ∧
      db' = { db with stocks := db.stocks ++ [stock], nextId := db.nextId + 1 } := by
  unfold upsertStock at h
  rw [hFind] at h
  dsimp only at h
  split at h
  · cases h
  · cases h
    exact ⟨rfl, rfl, rfl⟩

theorem Valid.upsertStock (hValid : Valid db)
    (h : upsertStock T started wall db data = some (db', stock, isNew)) : Valid db' := by
  cases hFind : getStockBySymbol db data.symbol with
  | some existing =>
      obtain ⟨-, -, rfl⟩ := upsertStock_existing hValid hFind h
      have hRow : ∀ s : MasterRow,
          (if s.id = existing.id then updatedRow data wall s else s).symbol = s.symbol ∧
            (if s.id = existing.id then updatedRow data wall s else s).id = s.id := by
        intro s
        split
        · exact ⟨rfl, rfl⟩
        · exact ⟨rfl, rfl⟩
      refine ⟨?_, ?_, ?_, ?_, hValid.positive, hValid.cursorNames⟩
      · rw [List.map_map]
        exact (List.map_congr_left fun s _ => (hRow s).1) ▸ hValid.symbols
      · rw [List.map_map]
        exact (List.map_congr_left fun s _ => (hRow s).2) ▸ hValid.ids
      · intro s hMem
        obtain ⟨old, hOld, rfl⟩ := List.mem_map.mp hMem
        rw [(hRow old).2]
        exact hValid.drawn old hOld
      · intro r hr
        obtain ⟨s, hMem, hId⟩ := hValid.owners r hr
        exact ⟨_, List.mem_map_of_mem hMem, (hRow s).2.trans hId⟩
  | none =>
      obtain ⟨-, rfl, rfl⟩ := upsertStock_new hFind h
      refine ⟨?_, ?_, ?_, ?_, Nat.succ_pos _, hValid.cursorNames⟩
      · rw [List.map_append, List.nodup_append]
        refine ⟨hValid.symbols, List.nodup_singleton _, ?_⟩
        intro a ha b hb hEq
        obtain ⟨s, hMem, rfl⟩ := List.mem_map.mp ha
        exact getStockBySymbol_eq_none.mp hFind s hMem (hEq.trans (List.mem_singleton.mp hb))
      · rw [List.map_append, List.nodup_append]
        refine ⟨hValid.ids, List.nodup_singleton _, ?_⟩
        intro a ha b hb hEq
        obtain ⟨s, hMem, rfl⟩ := List.mem_map.mp ha
        exact absurd (hEq.trans (List.mem_singleton.mp hb)) (Nat.ne_of_lt (hValid.drawn s hMem))
      · intro s hMem
        rcases List.mem_append.mp hMem with hMem | hMem
        · exact Nat.lt_succ_of_lt (hValid.drawn s hMem)
        · rw [List.mem_singleton.mp hMem]
          exact Nat.lt_succ_self _
      · intro r hr
        obtain ⟨s, hMem, hId⟩ := hValid.owners r hr
        exact ⟨s, List.mem_append_left _ hMem, hId⟩

end Upsert

/-! ## Rows of a tag -/

/-- How many active rows the stock has with a tag. -/
def activeCount (tags : List StockTag) (stockId : Nat) (tag : String) : Nat :=
  tags.countP fun r => r.activeFor stockId && r.tag = tag

/-- How many rows the stock has, removed ones too. -/
def owned (tags : List StockTag) (stockId : Nat) : Nat := tags.countP fun r => r.stockId = stockId

/-- The counts once a set of tags is reconciled: one row less for each other tag. -/
def synced (newTags : List String) (count : String → Nat) (tag : String) : Nat :=
  if tag ∈ newTags then max (count tag) 1 else count tag - 1

section Tags

variable {tags after : List StockTag} {stockId wall started : Nat} {stale newTags : List String}
variable {added removed : List String} {tag : String}

theorem StockTag.activeFor_iff {r : StockTag} : r.activeFor stockId = true ↔
    r.stockId = stockId ∧ r.removedAt = none := by
  rw [StockTag.activeFor, Bool.and_eq_true, decide_eq_true_eq, Option.isNone_iff_eq_none]

theorem mem_activeTags : tag ∈ (getActiveTags tags stockId).map StockTag.tag ↔
    0 < activeCount tags stockId tag := by
  simp only [getActiveTags, activeCount, List.mem_map, List.mem_filter, List.countP_pos_iff,
    Bool.and_eq_true, decide_eq_true_eq]
  exact exists_congr fun r => and_assoc

theorem removeTags_of_none (h : ∀ r ∈ tags, r.activeFor stockId = true → r.tag ∉ stale) :
    removeTags stockId wall stale tags = tags := by
  induction tags with
  | nil => rfl
  | cons r rest ih =>
      have hKept : ¬ (r.activeFor stockId && r.tag ∈ stale && !rest.any fun later =>
          later.activeFor stockId && later.tag = r.tag) = true := by
        intro hStale
        simp only [Bool.and_eq_true, decide_eq_true_eq] at hStale
        exact h r List.mem_cons_self hStale.1.1 hStale.1.2
      rw [removeTags, if_neg hKept, ih fun x hx => h x (List.mem_cons_of_mem _ hx)]

theorem owned_removeTags (other : Nat) :
    owned (removeTags stockId wall stale tags) other = owned tags other := by
  induction tags with
  | nil => rfl
  | cons r rest ih =>
      rw [owned] at ih
      rw [removeTags, owned, owned, List.countP_cons, List.countP_cons, ih, owned]
      split <;> rfl

theorem activeCount_cons (r : StockTag) (other : Nat) (tag : String) :
    activeCount (r :: tags) other tag =
      activeCount tags other tag + if (r.activeFor other && r.tag = tag) = true then 1 else 0 :=
  List.countP_cons

theorem activeCount_removeTags (other : Nat) (tag : String) :
    activeCount (removeTags stockId wall stale tags) other tag =
      activeCount tags other tag - (if other = stockId ∧ tag ∈ stale then 1 else 0) := by
  induction tags with
  | nil => exact (Nat.zero_sub _).symm
  | cons r rest ih =>
      rw [removeTags, activeCount_cons, ih, activeCount_cons]
      by_cases hActive : r.activeFor stockId = true ∧ r.tag ∈ stale
      · obtain ⟨hOwner, hOpen⟩ := StockTag.activeFor_iff.mp hActive.1
        have hCount : (r.activeFor other && decide (r.tag = tag)) = true ↔
            other = stockId ∧ tag = r.tag := by
          rw [Bool.and_eq_true, decide_eq_true_eq, StockTag.activeFor_iff]
          constructor
          · rintro ⟨⟨hOther, -⟩, hTag⟩
            exact ⟨hOther.symm.trans hOwner, hTag.symm⟩
          · rintro ⟨rfl, rfl⟩
            exact ⟨⟨hOwner, hOpen⟩, rfl⟩
        by_cases hLater : rest.any (fun later => later.activeFor stockId && later.tag = r.tag) = true
        · -- a later row of the tag is the one that is removed
          have hKept : ¬ (r.activeFor stockId && decide (r.tag ∈ stale) && !rest.any fun later =>
              later.activeFor stockId && decide (later.tag = r.tag)) = true := by simp [hLater]
          rw [if_neg hKept]
          by_cases hSame : other = stockId ∧ tag = r.tag
          · have hPos : 0 < activeCount rest stockId r.tag := by
              obtain ⟨later, hMem, hLater⟩ := List.any_eq_true.mp hLater
              exact List.countP_pos_iff.mpr ⟨later, hMem, hLater⟩
            rw [if_pos (hCount.mpr hSame), if_pos ⟨hSame.1, hSame.2 ▸ hActive.2⟩, hSame.1, hSame.2]
            omega
          · rw [if_neg (fun h => hSame (hCount.mp h))]
            rfl
        · have hZero : activeCount rest stockId r.tag = 0 :=
            List.countP_eq_zero.mpr fun later hMem hLater' =>
              hLater (List.any_eq_true.mpr ⟨later, hMem, hLater'⟩)
          have hStale : (r.activeFor stockId && decide (r.tag ∈ stale) && !rest.any fun later =>
              later.activeFor stockId && decide (later.tag = r.tag)) = true := by simp [hActive, hLater]
          have hClosed : ¬ (StockTag.activeFor other { r with removedAt := some wall } &&
              decide (r.tag = tag)) = true := by simp [StockTag.activeFor]
          rw [if_pos hStale, if_neg hClosed]
          by_cases hSame : other = stockId ∧ tag = r.tag
          · rw [if_pos (hCount.mpr hSame), if_pos ⟨hSame.1, hSame.2 ▸ hActive.2⟩, hSame.1, hSame.2,
              hZero]
          · rw [if_neg (fun h => hSame (hCount.mp h))]
            rfl
      · have hKept : ¬ (r.activeFor stockId && decide (r.tag ∈ stale) && !rest.any fun later =>
            later.activeFor stockId && decide (later.tag = r.tag)) = true := by
          intro h
          simp only [Bool.and_eq_true, decide_eq_true_eq] at h
          exact hActive h.1
        rw [if_neg hKept]
        by_cases hCount : (r.activeFor other && decide (r.tag = tag)) = true
        · -- the row counts for a tag that is not stale, or for another stock
          have hStays : ¬ (other = stockId ∧ tag ∈ stale) := by
            rw [Bool.and_eq_true, decide_eq_true_eq] at hCount
            rintro ⟨rfl, hStale⟩
            exact hActive ⟨hCount.1, hCount.2 ▸ hStale⟩
          rw [if_pos hCount, if_neg hStays]
          rfl
        · rw [if_neg hCount]
          rfl

/-! ## Reconciled tags -/

/-- What `sync_tags` comes back with. -/
theorem syncTags_eq (h : syncTags tags stockId newTags started wall = some (after, added, removed)) :
    after = removeTags stockId wall
        (((getActiveTags tags stockId).map StockTag.tag).dedup.filter (· ∉ newTags)) tags ++
      (sorted (newTags.filter (· ∉ (getActiveTags tags stockId).map StockTag.tag))).map
        fun tag => ⟨stockId, tag, started, none⟩ := by
  unfold syncTags at h
  dsimp only at h
  split at h
  · cases h
  · exact (Prod.mk.inj (Option.some.inj h)).1.symm

theorem activeCount_new (names : List String) (other : Nat) (tag : String) :
    activeCount (names.map fun name => ⟨stockId, name, started, none⟩) other tag =
      if other = stockId then names.count tag else 0 := by
  rw [activeCount, List.countP_map]
  split
  · rename_i hOwner
    rw [List.count_eq_countP]
    refine List.countP_congr fun name _ => ?_
    simp [StockTag.activeFor, hOwner]
  · rename_i hOther
    refine List.countP_eq_zero.mpr fun name _ h => hOther ?_
    simp only [Function.comp_apply, StockTag.activeFor, Bool.and_eq_true, decide_eq_true_eq] at h
    exact h.1.1.symm

theorem count_sorted (names : List String) (tag : String) :
    (sorted names).count tag = names.count tag :=
  (List.perm_insertionSort _ names).count_eq tag

theorem activeCount_syncTags (hNodup : newTags.Nodup)
    (h : syncTags tags stockId newTags started wall = some (after, added, removed)) (tag : String) :
    activeCount after stockId tag = synced newTags (activeCount tags stockId) tag := by
  have hAppend : ∀ xs ys : List StockTag, activeCount (xs ++ ys) stockId tag =
      activeCount xs stockId tag + activeCount ys stockId tag := fun _ _ => List.countP_append
  rw [syncTags_eq h, hAppend, activeCount_removeTags, activeCount_new, if_pos rfl, count_sorted,
    synced]
  simp only [List.mem_filter, List.mem_dedup, mem_activeTags, true_and, decide_eq_true_eq]
  by_cases hNew : tag ∈ newTags
  · rw [if_pos hNew, if_neg (fun h => h.2 hNew)]
    by_cases hHeld : 0 < activeCount tags stockId tag
    · have hNone : tag ∉ newTags.filter (fun t => decide ¬ 0 < activeCount tags stockId t) :=
        fun h => of_decide_eq_true (List.mem_filter.mp h).2 hHeld
      rw [List.count_eq_zero.mpr hNone]
      omega
    · rw [List.count_eq_one_of_mem (hNodup.filter _)
        (List.mem_filter.mpr ⟨hNew, decide_eq_true hHeld⟩)]
      omega
  · rw [if_neg hNew, List.count_eq_zero.mpr (by simp [hNew])]
    by_cases hHeld : 0 < activeCount tags stockId tag
    · rw [if_pos ⟨hHeld, hNew⟩]
      omega
    · rw [if_neg (fun h => hHeld h.1)]
      omega

theorem syncTags_other {other : Nat} (hOther : other ≠ stockId)
    (h : syncTags tags stockId newTags started wall = some (after, added, removed)) :
    activeCount after other = activeCount tags other ∧ owned after other = owned tags other := by
  rw [syncTags_eq h]
  constructor
  · funext tag
    have hAppend : ∀ xs ys : List StockTag, activeCount (xs ++ ys) other tag =
        activeCount xs other tag + activeCount ys other tag := fun _ _ => List.countP_append
    rw [hAppend, activeCount_removeTags, activeCount_new, if_neg hOther,
      if_neg (fun h => hOther h.1)]
    rfl
  · have hAppend : ∀ xs ys : List StockTag, owned (xs ++ ys) other = owned xs other + owned ys other :=
      fun _ _ => List.countP_append
    have hNone : ∀ names : List String,
        owned (names.map fun name => ⟨stockId, name, started, none⟩) other = 0 := by
      intro names
      rw [owned, List.countP_map]
      exact List.countP_eq_zero.mpr fun name _ h => hOther (of_decide_eq_true h).symm
    rw [hAppend, owned_removeTags, hNone]
    rfl

theorem owner_of_mem_syncTags {r : StockTag} (hMem : r ∈ after)
    (h : syncTags tags stockId newTags started wall = some (after, added, removed)) :
    r.stockId = stockId ∨ ∃ old ∈ tags, old.stockId = r.stockId := by
  rw [syncTags_eq h, List.mem_append] at hMem
  rcases hMem with hMem | hMem
  · right
    have hPos : 0 < owned tags r.stockId := by
      rw [← owned_removeTags]
      exact List.countP_pos_iff.mpr ⟨r, hMem, decide_eq_true rfl⟩
    obtain ⟨old, hOld, hOwner⟩ := List.countP_pos_iff.mp hPos
    exact ⟨old, hOld, of_decide_eq_true hOwner⟩
  · obtain ⟨tag, -, rfl⟩ := List.mem_map.mp hMem
    exact Or.inl rfl

theorem owned_syncTags
    (h : syncTags tags stockId newTags started wall = some (after, added, removed)) :
    owned after stockId =
      owned tags stockId + newTags.countP fun tag => activeCount tags stockId tag = 0 := by
  have hAppend : ∀ xs ys : List StockTag,
      owned (xs ++ ys) stockId = owned xs stockId + owned ys stockId := fun _ _ => List.countP_append
  have hAll : ∀ names : List String,
      owned (names.map fun name => ⟨stockId, name, started, none⟩) stockId = names.length := by
    intro names
    rw [owned, List.countP_map]
    exact List.countP_eq_length.mpr fun name _ => decide_eq_true rfl
  rw [syncTags_eq h, hAppend, owned_removeTags, hAll, sorted, List.length_insertionSort,
    ← List.countP_eq_length_filter]
  refine congrArg _ (List.countP_congr fun tag _ => ?_)
  rw [decide_eq_true_eq, decide_eq_true_eq, mem_activeTags, Nat.not_lt, Nat.le_zero]

theorem syncTags_of_same
    (h : ∀ tag, tag ∈ newTags ↔ tag ∈ (getActiveTags tags stockId).map StockTag.tag) :
    syncTags tags stockId newTags started wall = some (tags, [], []) := by
  have hAdd : newTags.filter (· ∉ (getActiveTags tags stockId).map StockTag.tag) = [] :=
    List.filter_eq_nil_iff.mpr fun tag hMem => by simpa using (h tag).mp hMem
  have hRemove : ((getActiveTags tags stockId).map StockTag.tag).dedup.filter (· ∉ newTags) = [] :=
    List.filter_eq_nil_iff.mpr fun tag hMem => by simpa using (h tag).mpr (List.mem_dedup.mp hMem)
  have hNoRow : ¬ ∃ r ∈ tags, r.stockId = stockId ∧ r.tag ∈ ([] : List String) ∧
      r.addedAt = started := fun ⟨_, _, _, hMem, _⟩ => List.not_mem_nil hMem
  unfold syncTags
  dsimp only
  rw [hAdd, hRemove, if_neg hNoRow, removeTags_of_none fun _ _ _ => List.not_mem_nil]
  simp [sorted]

end Tags

end AsetPlatform.Ingestion.Universe
